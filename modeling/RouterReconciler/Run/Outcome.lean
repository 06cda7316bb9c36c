import RouterReconciler.Plan

/-!
What a task came to, and the count of outcomes over a list of tasks or devices.
-/
namespace RouterReconciler

structure Outcome where
  changed : Bool
  failed : Bool
  returnValues : ReturnValues
  error : Option Error

namespace Outcome

def unchanged : Outcome := ⟨false,false,∅,none⟩

def failure (e : Error) : Outcome := ⟨0 < e.appliedWrites,true,∅,some e⟩

def merge (a b : Outcome) : Outcome :=
  ⟨a.changed || b.changed,a.failed || b.failed,a.returnValues.extend b.returnValues,
    if b.error.isSome then b.error else a.error⟩

end Outcome

structure Tally where
  changed : Nat
  unchanged : Nat
  failed : Nat
  skipped : Nat
  deriving DecidableEq

namespace Tally

def zero : Tally := ⟨0,0,0,0⟩

def isSuccess (t : Tally) : Bool := t.failed = 0

def total (t : Tally) : Nat := t.changed + t.unchanged + t.failed + t.skipped

def merge (a b : Tally) : Tally :=
  ⟨a.changed + b.changed,a.unchanged + b.unchanged,a.failed + b.failed,a.skipped + b.skipped⟩

def record (t : Tally) (o : Outcome) : Tally :=
  if o.failed then { t with failed := t.failed + 1 }
  else if o.changed then { t with changed := t.changed + 1 }
  else { t with unchanged := t.unchanged + 1 }

def skip (t : Tally) (n : Nat) : Tally := { t with skipped := t.skipped + n }

end Tally
end RouterReconciler

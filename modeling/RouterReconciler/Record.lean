import RouterReconciler.Entries
import RouterReconciler.Value.Basic

/-!
Records of a facility: an item id, absent on a singleton, and the parameters in the order in which
they were read or set. A parameter that is absent differs from one that is empty.
-/
namespace RouterReconciler

abbrev ItemId := String

structure Record where
  id : Option ItemId
  fields : Entries Value
  deriving DecidableEq

inductive Assignment where
  | value (v : Value)
  | unset
  deriving DecidableEq

abbrev Assignments := Entries Assignment

namespace Record

def empty : Record := ⟨none,∅⟩

instance : Inhabited Record := ⟨empty⟩

def get? (r : Record) (key : String) : Option Value := r.fields.get? key

def set (r : Record) (key : String) (v : Value) : Record := { r with fields := r.fields.insert key v }

def unset (r : Record) (key : String) : Record := { r with fields := r.fields.erase key }

def flag (r : Record) (key : String) : Bool :=
  match r.get? key with
  | some v => v.asBool? == some true
  | none => false

def assign (r : Record) (key : String) : Assignment → Record
  | .value v => r.set key v
  | .unset => r.unset key

def apply (r : Record) (values : Assignments) : Record :=
  values.toList.foldl (fun acc entry => acc.assign entry.1 entry.2) r

@[simp]
theorem idApply (r : Record) (values : Assignments) : (r.apply values).id = r.id := by
  unfold apply
  generalize values.toList = l
  induction l generalizing r with
  | nil => rfl
  | cons entry rest ih =>
    rw [List.foldl_cons,ih]
    cases entry.2 <;> rfl

end Record
end RouterReconciler

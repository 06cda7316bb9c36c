import RouterReconciler.Error
import RouterReconciler.Record

/-!
The part of desired assignments that a record does not fulfil yet.
-/
namespace RouterReconciler

def Assignment.differs (a : Assignment) (actual : Option Value) : Judgement Bool :=
  match a, actual with
  | .value v, some other => Halt.orBroken ((v.equal? other).map not)
  | .value _, none => .ok true
  | .unset, some _ => .ok true
  | .unset, none => .ok false

def differing (desired : Assignments) (actual : Record) : Judgement Assignments :=
  desired.keepWhere (fun key a => a.differs (actual.get? key))

end RouterReconciler

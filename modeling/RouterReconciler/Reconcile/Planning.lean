import RouterReconciler.Reconcile.Adjust
import RouterReconciler.Reconcile.Ensure
import RouterReconciler.Reconcile.Extract
import RouterReconciler.Reconcile.Lines
import RouterReconciler.Reconcile.Matches

/-!
The plan for a task against the present state of a device. Errors name the task, its mode and the
desired record that was being worked on.
-/
namespace RouterReconciler.Reconcile
variable {σ : Type} [Device σ] [PatternEngine]

def writing (f : Facility) (operations : Inquiry σ (List Operation)) : Inquiry σ Plan := do
  let operations ← operations
  return .ofOperations f operations

def planMode (f : Facility) (within : Option Nat → Error → Error) : Mode → Inquiry σ Plan
  | .configure values => writing f (configure f values)
  | .ensure finds set position missing =>
    writing f (ensure f within finds set position missing)
  | .present lines ordered position missing =>
    writing f (present f within lines ordered position missing)
  | .absent targets => writing f (absent f within targets)
  | .toggle targets enable => writing f (toggle f within targets enable)
  | .findOnly targets position => do
    findOnly f within targets position
    return .ofOperations f []
  | .count criteria => do
    let values ← count f criteria
    return { Plan.ofOperations f [] with returnValues := values }
  | .move criteria position missing => writing f (moveOnly f criteria position missing)
  | .check lines ordered position => do
    let same ← check f within lines ordered position
    return { Plan.ofOperations f [] with drift := !same }
  | .replace lines ordered position => writing f (replace f within lines ordered position)
  | .adjust lines keys ordered position =>
    writing f (adjust f within lines keys ordered position)
  | .extract e => do
    let values ← extract f e
    return { Plan.ofOperations f [] with returnValues := values }

end RouterReconciler.Reconcile

namespace RouterReconciler

def FacilityTask.plan {σ : Type} [Device σ] [PatternEngine] (t : FacilityTask) : Inquiry σ Plan :=
  (Reconcile.planMode t.facility t.within t.mode).mapError (Reconcile.named t.within none)

end RouterReconciler

import RouterReconciler.Run.Session

/-!
Applying a plan: one operation of the facility for each operation of the plan, in order. The first
failure stops it and says how many operations went through. Nothing is tried twice.
-/
namespace RouterReconciler.Session
variable {σ τ : Type} [Device σ]

abbrev AddedIds := List (Nat × ItemId)

def AddedIds.lookup (operation : Nat) : AddedIds → Option ItemId
  | [] => none
  | (n,id) :: rest => if n = operation then some id else AddedIds.lookup operation rest

def resolve (added : AddedIds) : ItemRef → Except Error ItemId
  | .existing id => .ok id
  | .added n =>
    match added.lookup n with
    | some id => .ok id
    | none => .error (.notFound ("record added by operation #" ++ toString n))

def resolve? (added : AddedIds) : Option ItemRef → Except Error (Option ItemId)
  | none => .ok none
  | some item => (resolve added item).map some

def perform (f : Facility) (index : Nat) (added : AddedIds) : Operation → Access σ AddedIds
  | .add values before => do
    let before ← (resolve? added before : Except Error (Option ItemId))
    let id ← f.add values before
    return (index,id) :: added
  | .remove id => do
    f.remove id
    return added
  | .set item values => do
    f.set item values
    return added
  | .move item before => do
    let id ← (resolve added item : Except Error ItemId)
    let before ← (resolve? added before : Except Error (Option ItemId))
    f.move id before
    return added
  | .enable id => do
    f.enable id
    return added
  | .disable id => do
    f.disable id
    return added

def lastBefore (index : Nat) : Option Nat := if index = 0 then none else some (index - 1)

def applyFrom (f : Facility) (index : Nat) (added : AddedIds) :
    List Operation → Access (Session σ τ) Unit
  | [] => pure ()
  | operation :: rest => do
    let added ←
      (onDevice (perform f index added operation)).mapError
        (.partialApply index (lastBefore index))
    .modify (observe (.performed f.path operation))
    applyFrom f (index + 1) added rest

@[simp]
theorem applyNext {f : Facility} {index : Nat} {added : AddedIds} {operation : Operation}
    {rest : List Operation} {s s' : Session σ τ} :
    applyFrom f index added (operation :: rest) s = (.ok (),s') ↔
      ∃ given d, perform f index added operation s.device = (.ok given,d) ∧
        applyFrom f (index + 1) given rest
          (observe (.performed f.path operation) { s with device := d }) = (.ok (),s') := by
  simp only [applyFrom,Step.bindOk,Step.mapErrorOk]
  constructor
  · rintro ⟨given,m,performed,_,n,seen,later⟩
    obtain ⟨d,done,rfl⟩ := onDeviceEnds.mp performed
    cases seen
    exact ⟨given,d,done,later⟩
  · rintro ⟨given,d,performed,later⟩
    exact ⟨given,_,onDeviceEnds.mpr ⟨d,performed,rfl⟩,(),_,rfl,later⟩

def apply (p : Plan) : Access (Session σ τ) Unit := applyFrom p.facility 0 [] p.operations

end RouterReconciler.Session

import RouterReconciler.Proofs.Device.Writes
import RouterReconciler.Run.Apply

/-! What the operations of a plan do to the records of one facility, without a device around them.
An operation that a replica carries out is the same step here; so are the operations of a plan, one
after the other. -/
namespace RouterReconciler

structure View where
  records : List Record
  nextId : Nat
  added : Session.AddedIds

namespace View
open Replica Step

def refId (added : Session.AddedIds) : ItemRef → Option ItemId
  | .existing id => some id
  | .added n => added.lookup n

def refId? (added : Session.AddedIds) : Option ItemRef → Option (Option ItemId)
  | none => some none
  | some item => (refId added item).map some

def update (v : View) (id : ItemId) (f : Record → Record) : Option View :=
  (position? id v.records).map fun i => { v with records := v.records.modify i f }

def step (index : Nat) (v : View) : Operation → Option View
  | .add values before => do
    let before ← refId? v.added before
    let rs ← inserted v.records (newRecord v.nextId values) before
    some ⟨rs,v.nextId + 1,(index,newId v.nextId) :: v.added⟩
  | .remove id => do
    let i ← position? id v.records
    some { v with records := v.records.eraseIdx i }
  | .set (some id) values => v.update id (·.apply values)
  | .set none _ => none
  | .move item before => do
    let id ← refId v.added item
    let before ← refId? v.added before
    let i ← position? id v.records
    let r ← v.records[i]?
    let rs ← relocate v.records i r before
    some { v with records := rs }
  | .enable id => v.update id (·.set "disabled" (.bool false))
  | .disable id => v.update id (·.set "disabled" (.bool true))

def run (index : Nat) (v : View) : List Operation → Option View
  | [] => some v
  | operation :: rest => (v.step index operation).bind fun next => next.run (index + 1) rest

def ofReplica (d : Replica) (path : FacilityPath) (added : Session.AddedIds) : View :=
  ⟨d.records path,d.nextId,added⟩

@[simp]
theorem stepAdd {index : Nat} {v w : View} {values : Assignments} {before : Option ItemRef} :
    v.step index (.add values before) = some w ↔
      ∃ place, refId? v.added before = some place ∧
      ∃ rs, inserted v.records (newRecord v.nextId values) place = some rs ∧
        ⟨rs,v.nextId + 1,(index,newId v.nextId) :: v.added⟩ = w := by
  simp only [step,Option.bind_eq_bind,Option.bind_eq_some_iff,Option.some.injEq]

@[simp]
theorem stepRemove {index : Nat} {v w : View} {id : ItemId} :
    v.step index (.remove id) = some w ↔
      ∃ i, position? id v.records = some i ∧ { v with records := v.records.eraseIdx i } = w := by
  simp only [step,Option.bind_eq_bind,Option.bind_eq_some_iff,Option.some.injEq]

@[simp]
theorem stepMove {index : Nat} {v w : View} {item : ItemRef} {before : Option ItemRef} :
    v.step index (.move item before) = some w ↔
      ∃ id, refId v.added item = some id ∧ ∃ place, refId? v.added before = some place ∧
      ∃ i, position? id v.records = some i ∧ ∃ r, v.records[i]? = some r ∧
      ∃ rs, relocate v.records i r place = some rs ∧ { v with records := rs } = w := by
  simp only [step,Option.bind_eq_bind,Option.bind_eq_some_iff,Option.some.injEq]

@[simp]
theorem updateEq {v w : View} {id : ItemId} {f : Record → Record} :
    v.update id f = some w ↔
      ∃ i, position? id v.records = some i ∧ { v with records := v.records.modify i f } = w :=
  Option.map_eq_some_iff

theorem runAppend (index : Nat) (v : View) (first second : List Operation) :
    v.run index (first ++ second) =
      (v.run index first).bind fun next => next.run (index + first.length) second := by
  induction first generalizing index v with
  | nil => rfl
  | cons operation rest ih =>
    simp only [List.cons_append,run]
    cases v.step index operation with
    | none => rfl
    | some next =>
      have shift : index + (operation :: rest).length = index + 1 + rest.length := by
        simp only [List.length_cons]; omega
      rw [shift]
      exact ih (index + 1) next

theorem updateNext {v w : View} {id : ItemId} {f : Record → Record} (h : v.update id f = some w) :
    w.nextId = v.nextId ∧ w.added = v.added := by
  obtain ⟨i,-,rfl⟩ := updateEq.mp h
  exact ⟨rfl,rfl⟩

/-- Only an addition takes a number and leaves a name that later operations can use. -/
theorem stepTakes {index : Nat} {v w : View} {operation : Operation}
    (h : v.step index operation = some w) :
    match operation with
    | .add _ _ => w.nextId = v.nextId + 1 ∧ w.added = (index,newId v.nextId) :: v.added
    | _ => w.nextId = v.nextId ∧ w.added = v.added := by
  cases operation with
  | add values before =>
    obtain ⟨_,-,_,-,rfl⟩ := stepAdd.mp h
    exact ⟨rfl,rfl⟩
  | remove id =>
    obtain ⟨_,-,rfl⟩ := stepRemove.mp h
    exact ⟨rfl,rfl⟩
  | set item values =>
    cases item with
    | none => cases h
    | some id => exact updateNext h
  | move item before =>
    obtain ⟨_,-,_,-,_,-,_,-,_,-,rfl⟩ := stepMove.mp h
    exact ⟨rfl,rfl⟩
  | enable id => exact updateNext h
  | disable id => exact updateNext h

theorem stepNext {index : Nat} {v w : View} {operation : Operation}
    (h : v.step index operation = some w) : v.nextId ≤ w.nextId := by
  have takes := stepTakes h
  cases operation with
  | add values before => exact Nat.le.intro takes.1.symm
  | _ => exact Nat.le_of_eq takes.1.symm

theorem runNext {index : Nat} {v w : View} {operations : List Operation}
    (h : v.run index operations = some w) : v.nextId ≤ w.nextId := by
  induction operations generalizing index v with
  | nil => cases h; exact Nat.le_refl _
  | cons operation rest ih =>
    obtain ⟨m,stepped,ran⟩ := Option.bind_eq_some_iff.mp h
    exact Nat.le_trans (stepNext stepped) (ih ran)

theorem refIdOfResolved {added : Session.AddedIds} {item : ItemRef} {id : ItemId}
    (h : Session.resolve added item = .ok id) : refId added item = some id := by
  cases item with
  | existing other => cases h; rfl
  | added n =>
    simp only [Session.resolve] at h
    split at h <;> cases h
    assumption

theorem refIdsOfResolved {added : Session.AddedIds} {item : Option ItemRef} {id : Option ItemId}
    (h : Session.resolve? added item = .ok id) : refId? added item = some id := by
  cases item with
  | none => cases h; rfl
  | some item =>
    simp only [Session.resolve?] at h
    cases hr : Session.resolve added item with
    | error e => rw [hr] at h; cases h
    | ok id => rw [hr] at h; cases h; simp [refId?,refIdOfResolved hr]

theorem updateView {d d' : Replica} {path : FacilityPath} {added : Session.AddedIds} {id : ItemId}
    {f : Record → Record}
    (h : ∃ i, position? id (d.records path) = some i ∧
      Holds path ((d.records path).modify i f) d d' ∧ d'.nextId = d.nextId) :
    (ofReplica d path added).update id f = some (ofReplica d' path added) ∧
      ∃ rs, Holds path rs d d' := by
  obtain ⟨i,place,holds,next⟩ := h
  refine ⟨?_,_,holds⟩
  simp only [update,ofReplica,place,Option.map_some,holds.records,next]

theorem performHolds {f : Facility} {index : Nat} {added added' : Session.AddedIds}
    {operation : Operation} {d d' : Replica} (several : f.shape ≠ .singleton)
    (h : Session.perform f index added operation d = (.ok added',d')) :
    (ofReplica d f.path added).step index operation = some (ofReplica d' f.path added') ∧
      ∃ rs, Holds f.path rs d d' := by
  cases operation with
  | add values before =>
    simp only [Session.perform,bindOk,liftOk,pureOk] at h
    obtain ⟨place,_,⟨resolved,rfl⟩,id,m,stored,rfl,rfl⟩ := h
    simp only [Facility.add,bindOk,liftOk] at stored
    obtain ⟨_,_,⟨-,rfl⟩,stored⟩ := stored
    split at stored
    · exact absurd stored failNotOk
    · simp only [bindOk,liftOk] at stored
      obtain ⟨_,_,⟨-,rfl⟩,stored⟩ := stored
      obtain ⟨rfl,next,rs,arranged,holds⟩ := addOk stored
      refine ⟨?_,rs,holds⟩
      simp only [step,ofReplica,refIdsOfResolved resolved,arranged,holds.records,next,
        Option.bind_eq_bind,Option.bind_some]
  | remove id =>
    simp only [Session.perform,bindOk,pureOk,Facility.remove,liftOk] at h
    obtain ⟨_,m,⟨_,_,⟨-,rfl⟩,stored⟩,rfl,rfl⟩ := h
    obtain ⟨i,place,holds,next⟩ := removeOk stored
    refine ⟨?_,_,holds⟩
    simp only [step,ofReplica,place,holds.records,next,Option.bind_eq_bind,Option.bind_some]
  | set item values =>
    simp only [Session.perform,bindOk,pureOk,Facility.set,liftOk] at h
    obtain ⟨_,m,⟨_,_,⟨addressed,rfl⟩,_,_,⟨-,rfl⟩,stored⟩,rfl,rfl⟩ := h
    cases item with
    | none => cases hs : f.shape <;> simp_all [Facility.checkItem]
    | some id => exact updateView (setOk stored)
  | move item before =>
    simp only [Session.perform,bindOk,pureOk,liftOk] at h
    obtain ⟨id,_,⟨resolved,rfl⟩,place,_,⟨resolvedBefore,rfl⟩,_,m,stored,rfl,rfl⟩ := h
    simp only [Facility.move] at stored
    split at stored
    · obtain ⟨i,record,moved,found,taken,arranged,holds,next⟩ := moveOk stored
      refine ⟨?_,moved,holds⟩
      simp only [step,ofReplica,refIdOfResolved resolved,refIdsOfResolved resolvedBefore,found,
        taken,arranged,holds.records,next,Option.bind_eq_bind,Option.bind_some]
    · exact absurd stored failNotOk
  | enable id =>
    simp only [Session.perform,bindOk,pureOk,Facility.enable,liftOk] at h
    obtain ⟨_,m,⟨_,_,⟨-,rfl⟩,stored⟩,rfl,rfl⟩ := h
    exact updateView (setDisabledOk stored)
  | disable id =>
    simp only [Session.perform,bindOk,pureOk,Facility.disable,liftOk] at h
    obtain ⟨_,m,⟨_,_,⟨-,rfl⟩,stored⟩,rfl,rfl⟩ := h
    exact updateView (setDisabledOk stored)

theorem performView {f : Facility} {index : Nat} {added added' : Session.AddedIds}
    {operation : Operation} {d d' : Replica} (several : f.shape ≠ .singleton)
    (h : Session.perform f index added operation d = (.ok added',d')) :
    (ofReplica d f.path added).step index operation = some (ofReplica d' f.path added') ∧
    Beside f.path d d' := by
  obtain ⟨stepped,rs,holds⟩ := performHolds several h
  exact ⟨stepped,holds.beside⟩

theorem appliedView {τ : Type} {f : Facility} {index : Nat} {added : Session.AddedIds}
    {operations : List Operation} {s s' : Session Replica τ} (several : f.shape ≠ .singleton)
    (h : Session.applyFrom f index added operations s = (.ok (),s')) :
    (∃ added', (ofReplica s.device f.path added).run index operations =
      some (ofReplica s'.device f.path added')) ∧ Beside f.path s.device s'.device := by
  induction operations generalizing index added s with
  | nil =>
    obtain ⟨-,rfl⟩ := pureOk.mp h
    exact ⟨⟨added,rfl⟩,.refl _ _⟩
  | cons operation rest ih =>
    obtain ⟨given,d,performed,later⟩ := Session.applyNext.mp h
    obtain ⟨stepped,away⟩ := performView several performed
    obtain ⟨⟨added',ran⟩,later⟩ := ih later
    refine ⟨⟨added',?_⟩,away.trans later⟩
    simp only [run,stepped,Option.bind_some]
    exact ran

end View
end RouterReconciler

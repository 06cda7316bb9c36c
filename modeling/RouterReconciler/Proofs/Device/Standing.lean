import Mathlib.Data.List.Perm.Subperm
import Mathlib.Data.List.InsertIdx
import RouterReconciler.Proofs.Device.Failures
import RouterReconciler.Proofs.Device.Orderly

/-! Carrying out operations in order. The records that may be named are there, as many as there are names
for them, and every step keeps it so. Therefore an operation finds all it names, and fails only at the
write that is made to fail or for a value without a literal. -/
namespace RouterReconciler
open Replica Step

theorem idsModified {id : ItemId} {f : Record → Record} {rs : List Record} {i : Nat}
    (same : ∀ r, (f r).id = r.id) (h : position? id rs = some i) : ids (rs.modify i f) = ids rs := by
  obtain ⟨front,r,back,rfl,rfl,-⟩ := positionSplit h
  rw [modifyMiddle]
  simp [ids,same]

theorem idsInserted {rs after : List Record} {r : Record} {before : Option ItemId}
    (h : inserted rs r before = some after) : (ids after).Perm (r.id :: ids rs) := by
  cases before with
  | none =>
    cases h
    exact idsPerm (List.perm_append_singleton r rs)
  | some other =>
    obtain ⟨i,place,rfl⟩ := Option.map_eq_some_iff.mp h
    obtain ⟨front,x,back,rfl,rfl,-⟩ := positionSplit place
    rw [insertMiddle]
    exact idsPerm List.perm_middle

theorem idsRelocated {id : ItemId} {rs moved : List Record} {i : Nat} {r : Record}
    {before : Option ItemId} (place : position? id rs = some i) (taken : rs[i]? = some r)
    (h : relocate rs i r before = some moved) : (ids moved).Perm (ids rs) := by
  obtain ⟨front,x,back,rfl,rfl,named,-⟩ := positionSplit place
  simp at taken
  subst x
  have rest : (front ++ r :: back).eraseIdx front.length = front ++ back := by
    simp [List.eraseIdx_append_of_length_le]
  have arrived : inserted (front ++ back) r before = some moved := by
    rw [← rest]
    cases before <;> exact h
  exact (idsInserted arrived).trans (idsPerm (List.perm_middle (a := r)).symm)

theorem subpermMap {α β : Type} (f : α → β) {a b : List α} (h : a.Subperm b) :
    (a.map f).Subperm (b.map f) := by
  obtain ⟨l,perm,sub⟩ := h
  exact ⟨l.map f,perm.map f,sub.map f⟩

def idsAfter (next : Nat) (names : List (Option ItemId)) : Operation → List (Option ItemId)
  | .add _ _ => some (newId next) :: names
  | .remove id => names.erase (some id)
  | _ => names

namespace View
variable {index : Nat} {v w : View} {operation : Operation}

theorem updateIds {id : ItemId} {f : Record → Record} (same : ∀ r, (f r).id = r.id)
    (h : v.update id f = some w) : ids w.records = ids v.records := by
  obtain ⟨i,place,rfl⟩ := updateEq.mp h
  exact idsModified same place

theorem stepIds (h : v.step index operation = some w) :
    (ids w.records).Perm (idsAfter v.nextId (ids v.records) operation) := by
  cases operation with
  | add values before =>
    obtain ⟨_,-,rs,arranged,rfl⟩ := stepAdd.mp h
    have perm := idsInserted arranged
    rwa [newRecordId] at perm
  | remove id =>
    obtain ⟨i,place,rfl⟩ := stepRemove.mp h
    exact .of_eq (idsErased place)
  | set item values =>
    cases item with
    | none => cases h
    | some id => exact .of_eq (updateIds (fun r => r.idApply values) h)
  | move item before =>
    obtain ⟨id,-,place,-,i,found,r,taken,rs,arranged,rfl⟩ := stepMove.mp h
    exact idsRelocated found taken arranged
  | enable id => exact .of_eq (updateIds (f := (·.set "disabled" (.bool false))) (fun _ => rfl) h)
  | disable id => exact .of_eq (updateIds (f := (·.set "disabled" (.bool true))) (fun _ => rfl) h)

end View

structure Standing (index : Nat) (live : List ItemRef) (v : View) : Prop where
  resolved : ∀ item ∈ live, (View.refId v.added item).isSome
  there : (live.map (View.refId v.added)).Subperm (ids v.records)
  earlier : ∀ n, .added n ∈ live → n < index

namespace Standing
variable {shape : Shape} {loose : ItemId → Prop} {index : Nat} {live : List ItemRef} {v w : View}
  {operation : Operation} (standing : Standing index live v)
include standing

theorem found {item : ItemRef} (mem : item ∈ live) :
    ∃ id, View.refId v.added item = some id ∧ some id ∈ ids v.records := by
  obtain ⟨id,same⟩ := Option.isSome_iff_exists.mp (standing.resolved item mem)
  exact ⟨id,same,same ▸ standing.there.subset (List.mem_map_of_mem mem)⟩

theorem apart {item other : ItemRef} {id otherId : ItemId} (mem : item ∈ live) (otherMem : other ∈ live)
    (differ : item ≠ other) (same : View.refId v.added item = some id)
    (otherSame : View.refId v.added other = some otherId) :
    some otherId ∈ (ids v.records).erase (some id) := by
  have pair : [item,other].Subperm live := (List.nodup_cons.mpr ⟨by simpa using differ,
    List.nodup_singleton _⟩).subperm fun x hx => by
      rcases List.mem_cons.mp hx with rfl | hx
      · exact mem
      · exact List.mem_singleton.mp hx ▸ otherMem
  have listed := ((subpermMap (View.refId v.added) pair).trans standing.there).erase (some id)
  rw [List.map_cons,List.map_cons,same,otherSame,List.erase_cons_head] at listed
  exact listed.subset List.mem_cons_self

theorem steady (added : w.added = v.added) (records : (ids w.records).Perm (ids v.records)) :
    Standing (index + 1) live w :=
  ⟨by rw [added]; exact standing.resolved,by rw [added]; exact standing.there.trans records.symm.subperm,
    fun n mem => Nat.lt_succ_of_lt (standing.earlier n mem)⟩

theorem next (proper : Proper shape loose live operation) (stepped : v.step index operation = some w) :
    Standing (index + 1) (operation.leaves index live) w := by
  have records := View.stepIds stepped
  have takes := View.stepTakes stepped
  cases operation with
  | add values before =>
    have added := takes.2
    -- names other than that of the new record stand for what they stood for
    have kept : ∀ item ∈ live, View.refId w.added item = View.refId v.added item := by
      intro item mem
      cases item with
      | existing id => rfl
      | added n =>
        have earlier := standing.earlier n mem
        rw [View.refId,View.refId,added,Session.AddedIds.lookup,if_neg (by omega)]
    have new : View.refId w.added (.added index) = some (newId v.nextId) := by
      rw [View.refId,added,Session.AddedIds.lookup,if_pos rfl]
    refine ⟨fun item mem => ?_,?_,fun n mem => ?_⟩
    · rcases List.mem_cons.mp mem with rfl | mem
      · rw [new]; rfl
      · rw [kept item mem]; exact standing.resolved item mem
    · rw [Operation.leaves,List.map_cons,new,List.map_congr_left kept]
      exact ((List.subperm_cons _).mpr standing.there).trans records.symm.subperm
    · rcases List.mem_cons.mp mem with same | mem
      · cases same; exact Nat.lt_succ_self _
      · exact Nat.lt_succ_of_lt (standing.earlier n mem)
  | remove id =>
    have added := takes.2
    have there : .existing id ∈ live := proper.named _ List.mem_cons_self
    have listed := ((List.perm_cons_erase there).map (View.refId v.added)).symm.subperm.trans
      standing.there
    have fewer := (listed.erase (some id)).trans records.symm.subperm
    rw [List.map_cons,View.refId,List.erase_cons_head] at fewer
    refine ⟨fun item mem => ?_,by rw [added]; exact fewer,fun n mem => ?_⟩
    · rw [added]; exact standing.resolved item (List.mem_of_mem_erase mem)
    · exact Nat.lt_succ_of_lt (standing.earlier n (List.mem_of_mem_erase mem))
  | set item values => exact standing.steady takes.2 records
  | move item before => exact standing.steady takes.2 records
  | enable id => exact standing.steady takes.2 records
  | disable id => exact standing.steady takes.2 records

omit standing in
theorem run {operations : List Operation} (standing : Standing index live v)
    (orderly : Orderly shape loose index live operations) (h : v.run index operations = some w) :
    Standing (index + operations.length) (left index live operations) w := by
  induction operations generalizing index live v with
  | nil => cases h; exact standing
  | cons operation rest ih =>
    obtain ⟨u,stepped,ran⟩ := Option.bind_eq_some_iff.mp h
    have later := ih (standing.next orderly.1 stepped) orderly.2 ran
    rw [List.length_cons,Nat.add_comm rest.length,← Nat.add_assoc]
    exact later

end Standing

namespace Facility
variable {f : Facility} {id : ItemId} {values : Assignments} {d d' : Replica} {e : Error}
  (items : d.HasItems f.path)

theorem passes (several : f.shape ≠ .singleton) (what : String) : f.requireItems what = .ok () := by
  simp [requireItems,several]

include items

theorem addFails {place : Option ItemId} (several : f.shape ≠ .singleton)
    (ordered : (place.isSome && f.shape != .ordered) = false) (writable : values.checkWritable = .ok ())
    (anchored : ∀ other ∈ place, some other ∈ ids (d.records f.path))
    (h : f.add values place d = (.error e,d')) : Injected d e ∨ Unencoded values e := by
  rw [add,bindAfter (liftOk.mpr ⟨passes several "add",rfl⟩),ordered] at h
  simp only [Bool.false_eq_true,if_false] at h
  rcases bindError.mp h with h | ⟨_,_,checked,h⟩
  · cases writable.symm.trans (liftError.mp h).1
  · cases (liftOk.mp checked).2
    exact Replica.addFails items writable anchored h

theorem setFails (several : f.shape ≠ .singleton) (there : some id ∈ ids (d.records f.path))
    (writable : values.checkWritable = .ok ()) (h : f.set (some id) values d = (.error e,d')) :
    Injected d e ∨ Unencoded values e := by
  have addressed : f.checkItem (some id) = .ok () := by
    cases hs : f.shape <;> simp_all [checkItem]
  rw [set,bindAfter (liftOk.mpr ⟨addressed,rfl⟩)] at h
  rcases bindError.mp h with h | ⟨_,_,checked,h⟩
  · cases writable.symm.trans (liftError.mp h).1
  · cases (liftOk.mp checked).2
    refine Replica.setFails writable (fun x hx => ?_) (by simp) h
    cases hx
    exact ⟨items,there⟩

theorem removeFails (several : f.shape ≠ .singleton) (there : some id ∈ ids (d.records f.path))
    (h : f.remove id d = (.error e,d')) : Injected d e := by
  rw [remove,bindAfter (liftOk.mpr ⟨passes several "remove",rfl⟩)] at h
  exact Replica.removeFails items there h

theorem moveFails {place : Option ItemId} (ordered : f.shape = .ordered)
    (there : some id ∈ ids (d.records f.path))
    (anchored : ∀ other ∈ place, some other ∈ (ids (d.records f.path)).erase (some id))
    (h : f.move id place d = (.error e,d')) : Injected d e := by
  rw [move,if_pos ordered] at h
  exact Replica.moveFails items there anchored h

theorem enableFails (several : f.shape ≠ .singleton) (there : some id ∈ ids (d.records f.path))
    (h : f.enable id d = (.error e,d')) : Injected d e := by
  rw [enable,bindAfter (liftOk.mpr ⟨passes several "enable",rfl⟩)] at h
  exact setDisabledFails items there h

theorem disableFails (several : f.shape ≠ .singleton) (there : some id ∈ ids (d.records f.path))
    (h : f.disable id d = (.error e,d')) : Injected d e := by
  rw [disable,bindAfter (liftOk.mpr ⟨passes several "disable",rfl⟩)] at h
  exact setDisabledFails items there h

end Facility

namespace Session

theorem resolveFound {added : AddedIds} {item : ItemRef} {id : ItemId}
    (h : View.refId added item = some id) : resolve added item = .ok id := by
  cases item with
  | existing other => cases h; rfl
  | added n =>
    rw [View.refId] at h
    rw [resolve,h]

theorem anchorNamed {added : AddedIds} {before : Option ItemRef} {place : Option ItemId} {id : ItemId}
    (resolved : resolve? added before = .ok place) (anchor : id ∈ place) :
    ∃ next ∈ before, View.refId added next = some id := by
  have resolved := View.refIdsOfResolved resolved
  cases before with
  | none => cases resolved; cases anchor
  | some next =>
    obtain ⟨_,same,rfl⟩ := Option.map_eq_some_iff.mp resolved
    cases anchor
    exact ⟨next,rfl,same⟩

theorem placedInOrder {shape : Shape} {added : AddedIds} {values : Assignments} {before : Option ItemRef}
    {place : Option ItemId} (resolved : resolve? added before = .ok place)
    (allowed : (Operation.add values before).allowed shape = true) :
    (place.isSome && shape != .ordered) = false := by
  cases before with
  | none => cases resolved; rfl
  | some item =>
    simp only [Operation.allowed,Bool.and_eq_true,Option.isNone_some,Bool.false_or,beq_iff_eq] at allowed
    simp [allowed.2]

section Performed
variable {f : Facility} {loose : ItemId → Prop} {index : Nat} {live : List ItemRef}
  {added : AddedIds} {d d' : Replica} {e : Error}
  (standing : Standing index live (.ofReplica d f.path added)) (items : d.HasItems f.path)
include standing

theorem resolvesFound {item : Option ItemRef} (named : ∀ x ∈ item, x ∈ live) :
    ∃ id, resolve? added item = .ok id ∧ ∀ other ∈ id, some other ∈ ids (d.records f.path) := by
  cases item with
  | none => exact ⟨none,rfl,by simp⟩
  | some item =>
    obtain ⟨id,same,there⟩ := standing.found (named item rfl)
    have resolved : resolve added item = .ok id := resolveFound same
    refine ⟨some id,by rw [resolve?,resolved]; rfl,fun other hother => ?_⟩
    cases hother
    exact there

include items

theorem performInTurn {operation : Operation} (several : f.shape ≠ .singleton)
    (proper : Proper f.shape loose live operation)
    (writable : operation.values.checkWritable = .ok ())
    (h : perform f index added operation d = (.error e,d')) :
    Injected d e ∨ Unencoded operation.values e := by
  have there {id : ItemId} (mem : .existing id ∈ operation.refs) : some id ∈ ids (d.records f.path) := by
    obtain ⟨_,same,there⟩ := standing.found (proper.named _ mem)
    cases same
    exact there
  cases operation with
  | add values before =>
    obtain ⟨place,resolved,anchored⟩ := resolvesFound standing fun x hx =>
      proper.named x (Option.mem_toList.mpr hx)
    rw [perform,bindAfter (liftOk.mpr ⟨resolved,rfl⟩)] at h
    exact Facility.addFails items several (placedInOrder resolved proper.allowed) writable anchored (answerFails h)
  | remove id => exact .inl (Facility.removeFails items several (there List.mem_cons_self) (answerFails h))
  | set item values =>
    cases item with
    | none =>
      have allowed := proper.allowed
      simp [Operation.allowed,several] at allowed
    | some id => exact Facility.setFails items several (there List.mem_cons_self) writable (answerFails h)
  | move item before =>
    have ordered : f.shape = .ordered := by simpa [Operation.allowed] using proper.allowed
    have itself := proper.named item List.mem_cons_self
    have named : ∀ x ∈ before, x ∈ live := fun x hx =>
      proper.named x (List.mem_cons_of_mem _ (Option.mem_toList.mpr hx))
    have apart : ∀ x ∈ before, item ≠ x := fun x hx same =>
      (List.nodup_cons.mp proper.once).1 (same ▸ Option.mem_toList.mpr hx)
    obtain ⟨id,same,listed⟩ := standing.found itself
    obtain ⟨place,resolved,-⟩ := resolvesFound standing named
    have moved : resolve added item = .ok id := resolveFound same
    rw [perform,bindAfter (liftOk.mpr ⟨moved,rfl⟩),bindAfter (liftOk.mpr ⟨resolved,rfl⟩)] at h
    refine .inl (Facility.moveFails items ordered listed (fun other anchor => ?_) (answerFails h))
    obtain ⟨next,mem,nextSame⟩ := anchorNamed resolved anchor
    exact standing.apart itself (named next mem) (apart next mem) same nextSame
  | enable id => exact .inl (Facility.enableFails items several (there List.mem_cons_self) (answerFails h))
  | disable id => exact .inl (Facility.disableFails items several (there List.mem_cons_self) (answerFails h))

end Performed

theorem performSingle {f : Facility} {index : Nat} {added : AddedIds} {values : Assignments}
    {d d' : Replica} {e : Error} (single : f.shape = .singleton)
    (alone : ∀ rs, d.facilities.get? f.path.text ≠ some (.items rs))
    (writable : values.checkWritable = .ok ())
    (h : perform f index added (.set none values) d = (.error e,d')) :
    Injected d e ∨ Unencoded values e := by
  have addressed : f.checkItem none = .ok () := by simp [Facility.checkItem,single]
  have h : f.set none values d = (.error e,d') := answerFails h
  rw [Facility.set,bindAfter (liftOk.mpr ⟨addressed,rfl⟩),bindAfter (liftOk.mpr ⟨writable,rfl⟩)] at h
  exact setFails writable (by simp) (fun _ => alone) h

end Session
end RouterReconciler

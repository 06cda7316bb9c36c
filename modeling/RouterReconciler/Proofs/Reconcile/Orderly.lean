import RouterReconciler.Proofs.Reconcile.Matches
import RouterReconciler.Proofs.Reconcile.Tidy

/-! Every mode plans operations in order. An adjustment adds first, moves what stays and what it has added,
and removes last. -/
namespace RouterReconciler.Reconcile
open Replica Step

section Slots
variable {f : Facility} {d : Replica} {keys : List String} {lines : List Criteria} {found : List Slot}
  {gone kept : List ItemId} (slotted : Slotted (d.records f.path) keys lines found gone)
include slotted

theorem slotEditsSure (several : f.shape ≠ .singleton) (items : d.HasItems f.path) :
    ∀ operation ∈ slotEdits found, Sure f d operation := by
  intro operation mem
  obtain ⟨values,rfl,-⟩ | ⟨j,id,changes,rfl,slot⟩ := memSlotEdits mem
  · exact .add values several items (by simp)
  · obtain ⟨r,there,same⟩ := keptPlace slotted.slots slot
    exact .set several items (handleOf (List.mem_of_getElem? there) same) changes

theorem goneRemovable : gone.Nodup ∧ ∀ id ∈ gone, Removable (d.records f.path) id := by
  refine ⟨List.Nodup.of_map some ?_,fun id mem => ?_⟩
  · rw [slotted.leaves]
    exact (lastingDistinct slotted.distinct).sublist (List.filter_sublist.map _)
  · have listed : some id ∈ ids ((lasting (d.records f.path)).filter (isGivenUp found)) :=
      slotted.leaves ▸ List.mem_map_of_mem mem
    obtain ⟨r,hr,same⟩ := List.mem_map.mp listed
    obtain ⟨hr,loose⟩ := List.mem_filter.mp hr
    rw [isGivenUp,Bool.and_eq_true] at loose
    exact ⟨r,(List.mem_filter.mp hr).1,loose.2,same⟩

def counted (found : List Slot) (kept : List ItemId) : List ItemRef :=
  kept.map .existing ++ (List.range (found.filterMap Slot.addition?).length).map .added

variable (named : kept.map some =
  ids ((lasting (d.records f.path)).filter (fun r => !isGivenUp found r)))
include named

theorem countedOnce : (counted found kept).Nodup := by
  rw [counted,← handlesNamed named]
  refine List.nodup_append.mpr ⟨handlesDistinct ((lastingDistinct slotted.distinct).sublist
    (List.filter_sublist.map _)),List.nodup_range.map fun _ _ same => by cases same; rfl,
    fun x hx y hy same => ?_⟩
  obtain ⟨id,rfl,-⟩ := memHandles.mp hx
  obtain ⟨m,-,rfl⟩ := List.mem_map.mp hy
  cases same

omit slotted in
theorem countedLeft (keeps : ∀ operation ∈ slotEdits found, operation.removedId? = none) :
    counted found kept ⊆ left 0 (handles (lasting (d.records f.path))) (slotEdits found) := by
  intro item mem
  rcases List.mem_append.mp mem with mem | mem
  · rw [← handlesNamed named] at mem
    exact steadyLeft keeps ((List.filter_sublist.filterMap _).subset mem)
  · obtain ⟨m,hm,rfl⟩ := List.mem_map.mp mem
    have inside := List.mem_range.mp hm
    have one : (slotEdits found)[m]? = some ((found.filterMap Slot.addition?)[m]) := by
      rw [slotEdits,List.getElem?_append_left inside,List.getElem?_eq_getElem inside]
    obtain ⟨slot,-,same⟩ := List.mem_filterMap.mp (List.getElem_mem inside)
    cases slot with
    | keep j id changes => cases same
    | add values =>
      rw [← Option.some.inj same] at one
      rw [← Nat.zero_add m]
      exact addedThere one

end Slots

theorem adjustPlanned {f : Facility} {within : Option Nat → Error → Error} {d d' : Replica}
    {operations : List Operation} {lines : List Criteria} {keys : List String} {ordered : Bool}
    {position : Nat} (distinct : (ids (d.records f.path)).Nodup) (shape : f.shape = Mode.shapeIf ordered)
    (h : adjust f within lines keys ordered position d = (.ok operations,d')) :
    Planned f d operations := by
  have several : f.shape ≠ .singleton := by rw [shape]; exact severalIf ordered
  obtain ⟨items,-,planned⟩ := adjustOk h
  have once := lastingDistinct distinct
  obtain ⟨found,gone,kept,-,all,places,goneNamed,named,rfl⟩ := adjustPlan once planned
  have slotted : Slotted (d.records f.path) keys lines found gone :=
    ⟨distinct,all,keptDistinct once all places,goneNamed⟩
  have edits := slotEditsSure slotted several items
  have moves : ∀ operation ∈ (if ordered then reposition (counted found kept) (blockOf 0 found) position
      else []), operation.removedId? = none ∧ Proper f.shape (Removable (d.records f.path))
        (left 0 (handles (lasting (d.records f.path))) (slotEdits found)) operation := by
    cases ordered with
    | false => simp
    | true =>
      rw [shape]
      refine movesProper (countedOnce slotted named) (blockOfDistinct slotted.once) (fun item mem => ?_)
        (countedLeft named fun operation mem => (edits operation mem).keeps)
      have inside : item ∈ kept.map .existing ++
        (arrivals 0 0 (slotEdits found)).map (fun a => ItemRef.added a.1) := slotted.named named item mem
      rwa [← slotReferences] at inside
  obtain ⟨goneOnce,loose⟩ := goneRemovable slotted
  refine .several several items (orderlyAppend.mpr ⟨orderlyAppend.mpr
    ⟨orderlySteady fun operation mem => ⟨(edits operation mem).keeps,(edits operation mem).proper⟩,
      orderlySteady moves⟩,
    orderlyRemovals several goneOnce (fun id mem => ?_) loose⟩)
  refine steadyLeft (fun operation mem => ?_) (loose id mem).named
  exact (List.mem_append.mp mem).elim (fun mem => (edits operation mem).keeps)
    fun mem => (moves operation mem).1

theorem planModePlanned [PatternEngine] {t : FacilityTask} {d d' : Replica} {plan : Plan}
    (distinct : (ids (d.records t.path)).Nodup) (h : t.plan d = (.ok plan,d')) :
    Planned t.facility d plan.operations := by
  have planned := mapErrorOk.mp h
  obtain ⟨path,mode⟩ := t
  cases mode with
  | configure values => exact configurePlanned (writingOk planned).1
  | ensure finds set position missing =>
    exact .sure (ensureEachSure rfl distinct (writingOk planned).1)
  | present lines ordered position missing => exact presentPlanned distinct rfl (writingOk planned).1
  | absent targets => exact absentPlanned (writingOk planned).1
  | toggle targets enable => exact togglePlanned (writingOk planned).1
  | move criteria position missing => exact movePlanned distinct rfl (writingOk planned).1
  | replace lines ordered position => exact replacePlanned distinct rfl (writingOk planned).1
  | adjust lines keys ordered position => exact adjustPlanned distinct rfl (writingOk planned).1
  | findOnly targets position | count criteria | check lines ordered position | extract e =>
    rw [(planReads rfl planned).2]
    exact .nothing

end RouterReconciler.Reconcile

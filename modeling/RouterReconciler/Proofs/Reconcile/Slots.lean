import RouterReconciler.Proofs.Reconcile.Progress
import RouterReconciler.Proofs.Record.Difference
import RouterReconciler.Reconcile.Adjust

/-! The slots of an adjustment: which record each line claims, that no record is claimed twice, which
records are given up, and the operations and the block that the slots come to. -/
namespace RouterReconciler.Reconcile
open Replica

def Slot.id? : Slot → Option ItemId
  | .keep _ id _ => some id
  | .add _ => none

def Slot.addition? : Slot → Option Operation
  | .keep _ _ _ => none
  | .add values => some (.add values none)

def Slot.modification? : Slot → Option Operation
  | .keep _ id changes => if changes.isEmpty then none else some (.set (some id) changes)
  | .add _ => none

def slotEdits (found : List Slot) : List Operation :=
  found.filterMap Slot.addition? ++ found.filterMap Slot.modification?

def keysMeet (keys : List String) (line : Criteria) (r : Record) : Bool :=
  match keysMatch line r keys with
  | .ok same => same
  | .error _ => false

theorem keysMatchMeet {keys : List String} {line : Criteria} {r : Record} {same : Bool}
    (h : keysMatch line r keys = .ok same) : keysMeet keys line r = same := by
  rw [keysMeet,h]

theorem keysMeetMatch {keys : List String} {line : Criteria} {r : Record} (h : keysMeet keys line r = true) :
    keysMatch line r keys = .ok true := by
  unfold keysMeet at h
  split at h
  · rename_i found
    rw [found,h]
  · cases h

theorem keysMatchAll {keys : List String} {line : Criteria} {r : Record} :
    keysMatch line r keys = .ok true ↔ ∀ key ∈ keys, (keyTest line key).passes (r.get? key) = .ok true := by
  induction keys with
  | nil => simp [keysMatch]
  | cons key rest ih =>
    rw [keysMatch,List.forall_mem_cons,← ih,exceptBindOk]
    constructor
    · rintro ⟨passes,told,later⟩
      cases passes with
      | true => exact ⟨told,later⟩
      | false => cases later
    · exact fun h => ⟨true,h.1,h.2⟩

theorem keysMeetAll {keys : List String} {line : Criteria} {r : Record} :
    keysMeet keys line r = true ↔ ∀ key ∈ keys, (keyTest line key).passes (r.get? key) = .ok true :=
  ⟨fun h => keysMatchAll.mp (keysMeetMatch h),fun h => keysMatchMeet (keysMatchAll.mpr h)⟩

inductive SlotFor (rs : List Record) (keys : List String) (line : Criteria) : Slot → Prop
  | keep {j r id desired changes} : rs[j]? = some r → keysMeet keys line r = true → r.id = some id →
      line.setValues = .ok desired → differing desired r = .ok changes →
      SlotFor rs keys line (.keep j id changes)
  | add {values} : line.addValues = .ok values → SlotFor rs keys line (.add values)

theorem firstFreeOk {keys : List String} {line : Criteria} {claimed : List Nat} {index j : Nat}
    {rs : List Record} {r : Record} (h : firstFree keys line claimed index rs = .ok (some (j,r))) :
    index ≤ j ∧ rs[j - index]? = some r ∧ j ∉ claimed ∧ keysMeet keys line r = true := by
  induction rs generalizing index with
  | nil => cases h
  | cons x rest ih =>
    have later (h : firstFree keys line claimed (index + 1) rest = .ok (some (j,r))) :
        index ≤ j ∧ (x :: rest)[j - index]? = some r ∧ j ∉ claimed ∧ keysMeet keys line r = true := by
      obtain ⟨lower,there,free⟩ := ih h
      refine ⟨by omega,?_,free⟩
      obtain ⟨k,rfl⟩ := Nat.exists_eq_add_of_lt (Nat.lt_of_succ_le lower)
      simpa [show index + k + 1 - index = k + 1 by omega,
        show index + k + 1 - (index + 1) = k by omega] using there
    rw [firstFree] at h
    split at h
    · exact later h
    · rename_i free
      obtain ⟨same,judged,h⟩ := exceptBindOk.mp h
      cases same with
      | true =>
        cases h
        exact ⟨Nat.le_refl _,by simp,by simpa using free,keysMatchMeet judged⟩
      | false => exact later h

theorem slotForOk {rs : List Record} {keys : List String} {line : Criteria} {claimed : List Nat}
    {slot : Slot} (h : slotFor keys rs claimed line = .ok slot) :
    SlotFor rs keys line slot ∧ slot.places.Nodup ∧ ∀ j ∈ slot.places, j ∉ claimed := by
  obtain ⟨free,searched,h⟩ := exceptBindOk.mp h
  cases free with
  | some one =>
    simp only [exceptBindOk,exceptLiftOk] at h
    obtain ⟨id,named,desired,set,changes,compared,h⟩ := h
    cases h
    obtain ⟨-,there,out,match_⟩ := firstFreeOk searched
    exact ⟨.keep there match_ (idOfOk named) set compared,by simp [Slot.places],by simpa [Slot.places] using out⟩
  | none =>
    simp only [exceptBindOk,exceptLiftOk] at h
    obtain ⟨values,added,h⟩ := h
    cases h
    exact ⟨.add added,by simp [Slot.places],by simp [Slot.places]⟩

theorem slotsOk {rs : List Record} {keys : List String} {within : Option Nat → Error → Error}
    {index : Nat} {claimed : List Nat} {lines : List Criteria} {found : List Slot}
    (h : slots within keys rs index claimed lines = .ok found) :
    List.Forall₂ (SlotFor rs keys) lines found ∧ (found.flatMap Slot.places).Nodup ∧
      ∀ j ∈ found.flatMap Slot.places, j ∉ claimed := by
  induction lines generalizing index claimed found with
  | nil => cases h; exact ⟨.nil,List.nodup_nil,by simp⟩
  | cons line rest ih =>
    simp only [slots,exceptBindOk,exceptMapErrorOk] at h
    obtain ⟨slot,one,others,later,h⟩ := h
    cases h
    obtain ⟨told,plain,out⟩ := slotForOk one
    obtain ⟨all,distinct,apart⟩ := ih later
    refine ⟨.cons told all,?_,?_⟩
    · rw [List.flatMap_cons,List.nodup_append]
      exact ⟨plain,distinct,fun x hx y hy same =>
        apart y hy (List.mem_append_left _ (same ▸ hx))⟩
    · intro j hj
      rw [List.flatMap_cons] at hj
      rcases List.mem_append.mp hj with hj | hj
      · exact out j hj
      · exact fun mem => apart j hj (List.mem_append_right _ mem)

theorem additionsOk {within : Option Nat → Error → Error} {index : Nat} {found : List Slot}
    {operations : List Operation} (h : additions within index found = .ok operations) :
    operations = found.filterMap Slot.addition? := by
  induction found generalizing index operations with
  | nil => cases h; rfl
  | cons slot rest ih =>
    cases slot with
    | keep j id changes => exact ih h
    | add values =>
      simp only [additions,exceptBindOk,exceptMapErrorOk] at h
      obtain ⟨operation,one,others,later,h⟩ := h
      cases h
      rw [additionOk one,ih later]
      rfl

theorem modificationsOk {within : Option Nat → Error → Error} {index : Nat} {found : List Slot}
    {operations : List Operation} (h : modifications within index found = .ok operations) :
    operations = found.filterMap Slot.modification? := by
  induction found generalizing index operations with
  | nil => cases h; rfl
  | cons slot rest ih =>
    cases slot with
    | add values => exact ih h
    | keep j id changes =>
      simp only [modifications,exceptBindOk,exceptMapErrorOk] at h
      obtain ⟨written,one,others,later,h⟩ := h
      cases h
      rw [ih later,List.filterMap_cons,Slot.modification?]
      unfold modification at one
      split at one
      · rename_i empty
        cases one
        simp [empty]
      · rename_i some
        split at one <;> cases one
        simp [some]

def isKept (found : List Slot) (r : Record) : Bool := r.id.any (found.filterMap Slot.id?).contains

def isGivenUp (found : List Slot) (r : Record) : Bool := !isKept found r && isRemovable r

section Claims
variable {rs : List Record} {keys : List String} {lines : List Criteria} {found : List Slot}

theorem keptPlace (all : List.Forall₂ (SlotFor rs keys) lines found) {j : Nat} {id : ItemId}
    {changes : Assignments} (mem : .keep j id changes ∈ found) :
    ∃ r, rs[j]? = some r ∧ r.id = some id := by
  obtain ⟨line,-,told⟩ := forallRight all mem
  cases told with
  | keep there _ named _ _ => exact ⟨_,there,named⟩

theorem placeKept (distinct : (ids rs).Nodup) (all : List.Forall₂ (SlotFor rs keys) lines found)
    {j : Nat} {r : Record} (there : rs[j]? = some r) :
    (found.flatMap Slot.places).contains j = isKept found r := by
  rw [Bool.eq_iff_iff,List.contains_iff_mem,List.mem_flatMap]
  constructor
  · rintro ⟨slot,mem,hj⟩
    cases slot with
    | add values => cases hj
    | keep i id changes =>
      cases List.mem_singleton.mp hj
      obtain ⟨x,hx,named⟩ := keptPlace all mem
      cases there.symm.trans hx
      rw [isKept,named,Option.any_some,List.contains_iff_mem]
      exact List.mem_filterMap.mpr ⟨_,mem,rfl⟩
  · intro kept
    cases named : r.id with
    | none => simp [isKept,named] at kept
    | some id =>
      rw [isKept,named,Option.any_some,List.contains_iff_mem] at kept
      obtain ⟨slot,mem,same⟩ := List.mem_filterMap.mp kept
      cases slot with
      | add values => cases same
      | keep i other changes =>
        cases same
        obtain ⟨x,hx,named'⟩ := keptPlace all mem
        refine ⟨_,mem,List.mem_singleton.mpr ?_⟩
        exact samePlace distinct there hx (named.trans named'.symm)

theorem keptDistinct (distinct : (ids rs).Nodup) (all : List.Forall₂ (SlotFor rs keys) lines found)
    (places : (found.flatMap Slot.places).Nodup) : (found.filterMap Slot.id?).Nodup := by
  induction all with
  | nil => exact List.nodup_nil
  | @cons line slot lines rest told later ih =>
    rw [List.flatMap_cons,List.nodup_append] at places
    obtain ⟨-,restPlaces,apart⟩ := places
    cases slot with
    | add values => exact ih restPlaces
    | keep j id changes =>
      rw [List.filterMap_cons]
      refine List.nodup_cons.mpr ⟨fun mem => ?_,ih restPlaces⟩
      obtain ⟨slot,mem,same⟩ := List.mem_filterMap.mp mem
      cases slot with
      | add values => cases same
      | keep i other changes =>
        cases same
        obtain ⟨x,hx,named⟩ := keptPlace later mem
        cases told with
        | keep there _ named' _ _ =>
          have place := samePlace distinct there hx (named'.trans named.symm)
          exact apart j List.mem_cons_self i (List.mem_flatMap.mpr ⟨_,mem,List.mem_cons_self⟩) place

end Claims

theorem splitOk {claimed : List Nat} (kept : Record → Bool) {index : Nat} {rs : List Record}
    {removed others : List ItemId} (told : ∀ r j, rs[j]? = some r → claimed.contains (index + j) = kept r)
    (h : split claimed index rs = .ok (removed,others)) :
    removed.map some = ids (rs.filter (fun r => !kept r && isRemovable r)) ∧
    others.map some = ids (rs.filter (fun r => !(!kept r && isRemovable r))) := by
  induction rs generalizing index removed others with
  | nil => cases h; exact ⟨rfl,rfl⟩
  | cons r rest ih =>
    simp only [split,exceptBindOk] at h
    obtain ⟨id,named,⟨gone,stay⟩,later,h⟩ := h
    have named := idOfOk named
    have first : claimed.contains index = kept r := told r 0 rfl
    obtain ⟨left,right⟩ := ih (fun x j hx => by
      rw [← told x (j + 1) hx,show index + 1 + j = index + (j + 1) by omega]) later
    simp only [first] at h
    cases hg : !kept r && isRemovable r with
    | true =>
      simp only [hg,if_true] at h
      cases h
      rw [List.filter_cons_of_pos (by simpa using hg),List.filter_cons_of_neg (by simpa using hg)]
      exact ⟨by rw [List.map_cons,left,ids,ids,List.map_cons,named],right⟩
    | false =>
      simp only [hg] at h
      cases h
      rw [List.filter_cons_of_neg (by simp [hg]),List.filter_cons_of_pos (by simp [hg])]
      exact ⟨left,by rw [List.map_cons,right,ids,ids,List.map_cons,named]⟩

theorem adjustPlan {within : Option Nat → Error → Error} {lines : List Criteria}
    {keys : List String} {ordered : Bool} {position : Nat} {rs : List Record}
    {operations : List Operation} (distinct : (ids rs).Nodup)
    (h : adjustOperations within lines keys ordered position rs = .ok operations) :
    ∃ found, ∃ gone kept : List ItemId, slots within keys rs 0 [] lines = .ok found ∧
      List.Forall₂ (SlotFor rs keys) lines found ∧ (found.flatMap Slot.places).Nodup ∧
      gone.map some = ids (rs.filter (isGivenUp found)) ∧
      kept.map some = ids (rs.filter (fun r => !isGivenUp found r)) ∧
      operations = slotEdits found ++ (if ordered then
        reposition (kept.map .existing ++ (List.range (found.filterMap Slot.addition?).length).map .added)
          (blockOf 0 found) position else []) ++ gone.map .remove := by
  simp only [adjustOperations,exceptBindOk,exceptLiftOk] at h
  obtain ⟨found,claimed,⟨gone,kept⟩,parted,added,adding,changed,changing,h⟩ := h
  cases h
  obtain ⟨all,places,-⟩ := slotsOk claimed
  obtain ⟨left,right⟩ := splitOk (isKept found)
    (fun r j there => by rw [Nat.zero_add]; exact placeKept distinct all there) parted
  cases additionsOk adding
  cases modificationsOk changing
  exact ⟨found,gone,kept,claimed,all,places,left,right,rfl⟩

theorem memSlotEdits {found : List Slot} {operation : Operation} (h : operation ∈ slotEdits found) :
    (∃ values, operation = .add values none ∧ .add values ∈ found) ∨
    ∃ j id changes, operation = .set (some id) changes ∧ .keep j id changes ∈ found := by
  rcases List.mem_append.mp h with h | h
  · obtain ⟨slot,mem,same⟩ := List.mem_filterMap.mp h
    cases slot with
    | keep j id changes => cases same
    | add values => cases same; exact .inl ⟨values,rfl,mem⟩
  · obtain ⟨slot,mem,same⟩ := List.mem_filterMap.mp h
    cases slot with
    | add values => cases same
    | keep j id changes =>
      simp only [Slot.modification?] at same
      split at same <;> cases same
      exact .inr ⟨j,id,changes,rfl,mem⟩

theorem slotsEdit {found : List Slot} : ∀ operation ∈ slotEdits found, Edit operation := by
  intro operation mem
  obtain ⟨values,rfl,-⟩ | ⟨j,id,changes,rfl,-⟩ := memSlotEdits mem
  · exact .add values
  · exact .set id changes

theorem slotsRemoveNothing (found : List Slot) : removed (slotEdits found) = [] := by
  refine List.filterMap_eq_nil_iff.mpr fun operation mem => ?_
  obtain ⟨values,rfl,-⟩ | ⟨j,id,changes,rfl,-⟩ := memSlotEdits mem <;> rfl

theorem arrivalsOfSets {index next : Nat} {operations : List Operation}
    (h : ∀ operation ∈ operations, ∃ item values, operation = .set item values) :
    arrivals index next operations = [] := by
  induction operations generalizing index next with
  | nil => rfl
  | cons operation rest ih =>
    obtain ⟨item,values,rfl⟩ := h operation List.mem_cons_self
    exact ih fun x hx => h x (List.mem_cons_of_mem _ hx)

theorem slotArrivals (found : List Slot) (next : Nat) :
    arrivals 0 next (slotEdits found) = arrivals 0 next (found.filterMap Slot.addition?) := by
  have nothing : ∀ index next, arrivals index next (found.filterMap Slot.modification?) = [] := by
    refine fun _ _ => arrivalsOfSets fun operation mem => ?_
    obtain ⟨slot,mem,same⟩ := List.mem_filterMap.mp mem
    cases slot with
    | add values => cases same
    | keep j id changes =>
      simp only [Slot.modification?] at same
      split at same <;> cases same
      exact ⟨_,_,rfl⟩
  rw [slotEdits,arrivalsAppend,nothing,List.append_nil]

theorem arrivalsRange (index next : Nat) (found : List Slot) :
    (arrivals index next (found.filterMap Slot.addition?)).map Prod.fst =
      List.range' index (found.filterMap Slot.addition?).length := by
  induction found generalizing index next with
  | nil => rfl
  | cons slot rest ih =>
    cases slot with
    | keep j id changes => exact ih _ _
    | add values =>
      rw [List.filterMap_cons]
      simp only [Slot.addition?,arrivals,List.map_cons,List.length_cons,List.range'_succ]
      rw [ih]

theorem slotReferences (found : List Slot) (next : Nat) :
    (List.range (found.filterMap Slot.addition?).length).map ItemRef.added =
      (arrivals 0 next (slotEdits found)).map (fun a => ItemRef.added a.1) := by
  rw [slotArrivals,List.range_eq_range',← arrivalsRange 0 next,List.map_map]
  rfl

theorem memBlockOf {n : Nat} {found : List Slot} {item : ItemRef} (h : item ∈ blockOf n found) :
    (∃ j id changes, item = .existing id ∧ .keep j id changes ∈ found) ∨
    ∃ m, item = .added m ∧ n ≤ m ∧ m < n + (found.filterMap Slot.addition?).length := by
  induction found generalizing n with
  | nil => cases h
  | cons slot rest ih =>
    cases slot with
    | keep j id changes =>
      rcases List.mem_cons.mp h with rfl | h
      · exact .inl ⟨j,id,changes,rfl,List.mem_cons_self⟩
      · refine (ih h).imp_left ?_
        rintro ⟨i,other,others,same,mem⟩
        exact ⟨i,other,others,same,List.mem_cons_of_mem _ mem⟩
    | add values =>
      rcases List.mem_cons.mp h with rfl | h
      · exact .inr ⟨n,rfl,Nat.le_refl _,by simp [Slot.addition?]⟩
      · refine (ih h).imp ?_ ?_
        · rintro ⟨i,other,others,same,mem⟩
          exact ⟨i,other,others,same,List.mem_cons_of_mem _ mem⟩
        · rintro ⟨m,same,lower,upper⟩
          refine ⟨m,same,by omega,?_⟩
          rw [List.filterMap_cons]
          simp only [Slot.addition?,List.length_cons]
          omega

theorem blockOfKeeps {n j : Nat} {id : ItemId} {changes : Assignments} {found : List Slot}
    (h : .keep j id changes ∈ found) : .existing id ∈ blockOf n found := by
  induction found generalizing n with
  | nil => cases h
  | cons slot rest ih =>
    rcases List.mem_cons.mp h with rfl | later
    · exact List.mem_cons_self
    · cases slot <;> exact List.mem_cons_of_mem _ (ih later)

theorem blockOfAdds (n : Nat) (found : List Slot) :
    (blockOf n found).filter isAdded =
      (List.range' n (found.filterMap Slot.addition?).length).map .added := by
  induction found generalizing n with
  | nil => rfl
  | cons slot rest ih =>
    cases slot with
    | keep j id changes => exact ih n
    | add values =>
      rw [List.filterMap_cons]
      simp only [Slot.addition?,List.length_cons,List.range'_succ,List.map_cons]
      rw [← ih]
      rfl

theorem blockOfDistinct {n : Nat} {found : List Slot} (distinct : (found.filterMap Slot.id?).Nodup) :
    (blockOf n found).Nodup := by
  induction found generalizing n with
  | nil => exact List.nodup_nil
  | cons slot rest ih =>
    cases slot with
    | keep j id changes =>
      obtain ⟨apart,later⟩ := List.nodup_cons.mp distinct
      refine List.nodup_cons.mpr ⟨fun mem => ?_,ih later⟩
      obtain ⟨i,other,others,same,mem⟩ | ⟨m,same,-⟩ := memBlockOf mem
      · cases same
        exact apart (List.mem_filterMap.mpr ⟨_,mem,rfl⟩)
      · cases same
    | add values =>
      refine List.nodup_cons.mpr ⟨fun mem => ?_,ih distinct⟩
      obtain ⟨i,other,others,same,-⟩ | ⟨m,same,lower,-⟩ := memBlockOf mem
      · cases same
      · cases same
        omega

inductive SlotShows (news : List (Nat × Record)) (record : ItemRef → Record) : Slot → Record → Prop
  | keep {j id changes} : SlotShows news record (.keep j id changes) (record (.existing id))
  | add {m k values} : (m,newRecord k values) ∈ news →
      SlotShows news record (.add values) (newRecord k values)

theorem blockShows {found : List Slot} {news : List (Nat × Record)} {record : ItemRef → Record}
    {index next : Nat} (told : ∀ a ∈ news, record (.added a.1) = a.2)
    (inside : arrivals index next (found.filterMap Slot.addition?) ⊆ news) :
    List.Forall₂ (SlotShows news record) found ((blockOf index found).map record) := by
  induction found generalizing index next with
  | nil => exact .nil
  | cons slot rest ih =>
    cases slot with
    | keep j id changes => exact .cons .keep (ih inside)
    | add values =>
      have first : (index,newRecord next values) ∈ news := inside List.mem_cons_self
      rw [blockOf,List.map_cons,told _ first]
      exact .cons (.add first) (ih (List.Subset.trans (List.subset_cons_self _ _) inside))

theorem changedKept {found : List Slot} (distinct : (found.filterMap Slot.id?).Nodup) {j : Nat}
    {id : ItemId} {changes : Assignments} (mem : .keep j id changes ∈ found) {r : Record}
    (named : r.id = some id) : changed (slotEdits found) r = r.apply changes := by
  have apart : ∀ part : List Slot, id ∉ part.filterMap Slot.id? → ∀ x : Record, x.id = some id →
      changed (part.filterMap Slot.modification?) x = x := by
    intro part out x hx
    refine changedUnset fun other values planned name => ?_
    obtain ⟨slot,there,same⟩ := List.mem_filterMap.mp planned
    cases slot with
    | add values => cases same
    | keep i other others =>
      simp only [Slot.modification?] at same
      split at same <;> cases same
      exact out (List.mem_filterMap.mpr ⟨_,there,name.symm.trans hx⟩)
  have additions : changed (found.filterMap Slot.addition?) r = r := by
    refine changedUnset fun other values planned => ?_
    obtain ⟨slot,there,same⟩ := List.mem_filterMap.mp planned
    cases slot <;> cases same
  obtain ⟨front,back,rfl⟩ := List.append_of_mem mem
  rw [List.filterMap_append,List.filterMap_cons] at distinct
  obtain ⟨-,tail,across⟩ := List.nodup_append.mp distinct
  have before := apart front (fun hid => across id hid id List.mem_cons_self rfl) r named
  have after := apart back (List.nodup_cons.mp tail).1
  have joined (first second : List Operation) (x : Record) :
      changed (first ++ second) x = changed second (changed first x) := List.foldl_append ..
  rw [slotEdits,joined,additions,List.filterMap_append,joined,before,List.filterMap_cons,
    Slot.modification?]
  split
  · rename_i nothing
    split at nothing
    · rename_i empty
      have same : r.apply changes = r := by
        rw [Record.apply,show changes.toList = [] from List.isEmpty_iff.mp empty]
        rfl
      rw [same]
      exact after r named
    · cases nothing
  · rename_i operation written
    split at written <;> cases written
    have one : change r (.set (some id) changes) = r.apply changes := if_pos named
    rw [changed,List.foldl_cons,one]
    exact after _ ((Record.idApply r changes).trans named)

end RouterReconciler.Reconcile

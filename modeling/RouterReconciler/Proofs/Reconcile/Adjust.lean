import RouterReconciler.Proofs.Reconcile.Slots
import RouterReconciler.Proofs.Run.Live

/-! Adjustment by keys. After a run every line has a record of its own that agrees with it, records
without a line are gone unless they are default, builtin or dynamic, and with an order the records of
the lines stand together at the position. -/
namespace RouterReconciler
open Replica Step Text Reconcile

structure Fulfils (before : List Record) (keys : List String) (line : Criteria) (r : Record) : Prop where
  agrees : ∀ key ∈ keys,
    match line.literal? key with
    | some v => ∃ actual, r.get? key = some actual ∧ v.equal? actual = some true
    | none => r.get? key = none
  settled : ∃ desired, line.setValues = .ok desired ∧ differing desired r = .ok ∅
  origin : (∃ old ∈ lasting before, old.id = r.id ∧
      ∀ key, line.get? key = none → r.get? key = old.get? key) ∨
    (r.id ∉ ids before ∧ ∀ key, r.get? key = line.literal? key)

structure Adjusted (before after : List Record) (lines : List Criteria) (keys : List String)
    (ordered : Bool) (position : Nat) (assigned : List Record) : Prop where
  lines : List.Forall₂ (Fulfils before keys) lines assigned
  distinct : (ids assigned).Nodup
  there : ∀ r ∈ assigned, r ∈ after
  others : after.filter (outside (ids assigned)) =
    before.filter (fun r => outside (ids assigned) r && !isRemovable r)
  passing : ∀ r ∈ fleeting before, r ∈ after
  order : ordered = true → ∃ front back,
    after.filter (outside (ids (fleeting before))) = front ++ assigned ++ back ∧
    front ++ back = (lasting before).filter (fun r => outside (ids assigned) r && !isRemovable r) ∧
    front.length = min (position - 1) (front ++ back).length

namespace Reconcile

theorem keyTestPasses {line : Criteria} {key : String} {held : Option Value} :
    (keyTest line key).passes held = .ok true ↔
      match line.literal? key with
      | some v => ∃ actual, held = some actual ∧ v.equal? actual = some true
      | none => held = none := by
  rw [keyTest,Criteria.literal?]
  cases line.get? key with
  | none => cases held <;> simp [Test.passes]
  | some c =>
    cases c with
    | literal v => cases held <;> simp [Test.passes,Halt.orBrokenOk]
    | _ => cases held <;> simp [Test.passes]

theorem keysAgree {keys : List String} {line : Criteria} {r : Record} (h : keysMeet keys line r = true) :
    ∀ key ∈ keys,
      match line.literal? key with
      | some v => ∃ actual, r.get? key = some actual ∧ v.equal? actual = some true
      | none => r.get? key = none :=
  fun key mem => keyTestPasses.mp (keysMeetAll.mp h key mem)

theorem keySettled {keys : List String} {line : Criteria} {r : Record} {desired : Assignments}
    (matching : keysMeet keys line r = true) (set : line.setValues = .ok desired) {key : String}
    (mem : key ∈ keys) : (r.settle desired).get? key = r.get? key := by
  have agree := keysAgree matching key mem
  refine Record.settleKeeps fun a wanted => ?_
  rw [Criteria.setValuesGet set,Criteria.assigned?] at wanted
  split at wanted
  · cases wanted
  · unfold Criteria.literal? at agree
    cases clause : line.get? key with
    | none => rw [clause] at wanted; cases wanted
    | some c =>
      rw [clause] at wanted agree
      cases c with
      | literal v =>
        cases wanted
        obtain ⟨actual,holds,equal⟩ := agree
        simp [Assignment.isDue,holds,Value.equalAlike equal]
      | notSet =>
        cases wanted
        simp only at agree
        simp [Assignment.isDue,agree]
      | _ => cases wanted

theorem keptFulfils {before : List Record} {keys : List String} {line : Criteria} {old : Record}
    {desired changes : Assignments} (there : old ∈ lasting before) (matching : keysMeet keys line old = true)
    (set : line.setValues = .ok desired) (compared : differing desired old = .ok changes) :
    Fulfils before keys line (old.apply changes) := by
  obtain ⟨comparable,rfl⟩ := differingOk.mp compared
  show Fulfils before keys line (old.settle desired)
  refine ⟨fun key mem => ?_,⟨desired,set,Record.settled comparable⟩,.inl ⟨old,there,?_,fun key absent => ?_⟩⟩
  · rw [keySettled matching set mem]
    exact keysAgree matching key mem
  · exact (Record.idApply _ _).symm
  · refine Record.settleKeeps fun a wanted => ?_
    rw [Criteria.setValuesGet set,Criteria.assigned?,absent] at wanted
    split at wanted <;> cases wanted

theorem newFulfils {before : List Record} {keys : List String} {line : Criteria} {n : Nat}
    {values : Assignments} (out : some (newId n) ∉ ids before) (added : line.addValues = .ok values) :
    Fulfils before keys line (newRecord n values) := by
  have holds := newRecordGet n added
  obtain ⟨desired,set⟩ := Criteria.setOfAdd ∅ added
  refine ⟨fun key _ => ?_,⟨desired,set,?_⟩,.inr ⟨by rw [newRecordId]; exact out,holds⟩⟩
  · rw [holds]
    cases line.literal? key with
    | none => rfl
    | some v => exact ⟨v,rfl,v.equalSelf⟩
  · exact Criteria.newSettled added set fun key => Record.getNew _ values key

theorem forallJoin {α β γ : Type} {R : α → β → Prop} {S : β → γ → Prop} {T : α → γ → Prop}
    {as : List α} {bs : List β} {cs : List γ} (first : List.Forall₂ R as bs)
    (second : List.Forall₂ S bs cs) (joined : ∀ a, ∀ b ∈ bs, ∀ c, R a b → S b c → T a c) :
    List.Forall₂ T as cs := by
  induction first generalizing cs with
  | nil => cases second; exact .nil
  | cons one _ ih =>
    cases second with
    | cons other later =>
      exact .cons (joined _ _ List.mem_cons_self _ one other)
        (ih later fun a b hb => joined a b (List.mem_cons_of_mem _ hb))

def slotNews (next : Nat) (found : List Slot) : List Record :=
  (arrivals 0 next (slotEdits found)).map Prod.snd

def slotBlock (record : ItemRef → Record) (found : List Slot) : List Record :=
  (blockOf 0 found).map record

structure Slotted (before : List Record) (keys : List String) (lines : List Criteria)
    (found : List Slot) (gone : List ItemId) : Prop where
  distinct : (ids before).Nodup
  slots : List.Forall₂ (SlotFor (lasting before) keys) lines found
  once : (found.filterMap Slot.id?).Nodup
  leaves : gone.map some = ids ((lasting before).filter (isGivenUp found))

structure Placed (before : List Record) (keys : List String) (lines : List Criteria)
    (found : List Slot) (gone : List ItemId) (next : Nat) (ordered : Bool) (position : Nat)
    (u w : View) (record : ItemRef → Record) : Prop
    extends Slotted before keys lines found gone where
  apart : (ids (before.map (changed (slotEdits found)) ++ slotNews next found)).Nodup
  told : ∀ r ∈ (lasting before).filter (fun r => !isGivenUp found r), ∀ id ∈ r.id,
    record (.existing id) = changed (slotEdits found) r
  newly : ∀ a ∈ arrivals 0 next (slotEdits found), record (.added a.1) = a.2
  arranged : Arranged (before.map (changed (slotEdits found)) ++ slotNews next found)
    (((lasting before).filter (fun r => !isGivenUp found r)).map (changed (slotEdits found)) ++
      slotNews next found) (slotBlock record found) u.records ordered position
  final : w.records = u.records.filter (stays gone)

section Slotted
variable {before : List Record} {next position : Nat} {w : View} {lines : List Criteria}
  {keys : List String} {ordered : Bool} {found : List Slot} {gone known : List ItemId}
  (slotted : Slotted before keys lines found gone)
include slotted

theorem Slotted.kept {j : Nat} {id : ItemId} {changes : Assignments}
    (mem : .keep j id changes ∈ found) :
    ∃ r, r.id = some id ∧ r ∈ (lasting before).filter (fun r => !isGivenUp found r) := by
  obtain ⟨r,there,same⟩ := keptPlace slotted.slots mem
  have keeps : isKept found r = true := by
    rw [isKept,same,Option.any_some,List.contains_iff_mem]
    exact List.mem_filterMap.mpr ⟨_,mem,rfl⟩
  exact ⟨r,same,List.mem_filter.mpr ⟨List.mem_of_getElem? there,by simp [isGivenUp,keeps]⟩⟩

theorem Slotted.aimed : ∀ operation ∈ slotEdits found, ∀ id ∈ operation.aim?, some id ∈ ids before := by
  intro operation mem id aim
  obtain ⟨values,rfl,-⟩ | ⟨j,other,changes,rfl,slot⟩ := memSlotEdits mem
  · cases aim
  · cases aim
    obtain ⟨r,same,hr⟩ := slotted.kept slot
    exact List.mem_map.mpr ⟨r,(List.mem_filter.mp (List.mem_filter.mp hr).1).1,same⟩

theorem Slotted.named
    (named : known.map some = ids ((lasting before).filter (fun r => !isGivenUp found r))) :
    ∀ item ∈ blockOf 0 found, item ∈ known.map .existing ++
      (arrivals 0 next (slotEdits found)).map (fun a => ItemRef.added a.1) := by
  intro item mem
  rw [← slotReferences]
  obtain ⟨j,id,changes,rfl,slot⟩ | ⟨m,rfl,-,upper⟩ := memBlockOf mem
  · obtain ⟨r,same,there⟩ := slotted.kept slot
    exact List.mem_append_left _ (namesListed named (List.mem_map.mpr ⟨r,there,same⟩))
  · exact List.mem_append_right _ (List.mem_map_of_mem (List.mem_range.mpr (by omega)))

theorem Slotted.placed (unused : ∀ n, next ≤ n → n ≤ maxWord64 → some (newId n) ∉ ids before)
    (word : w.nextId ≤ maxWord64)
    (named : known.map some = ids ((lasting before).filter (fun r => !isGivenUp found r)))
    (reached : (View.mk before next []).run 0 (slotEdits found ++ (if ordered then
      reposition (known.map .existing ++
        (List.range (found.filterMap Slot.addition?).length).map .added)
        (blockOf 0 found) position else []) ++ gone.map .remove) = some w) :
    ∃ u record, Placed before keys lines found gone next ordered position u w record := by
  rw [View.runAppend,slotReferences found next] at reached
  obtain ⟨u,moved,removal⟩ := Option.bind_eq_some_iff.mp reached
  have later : u.nextId ≤ w.nextId := View.runNext removal
  have allStay : before.filter (stays (removed (slotEdits found))) = before := by
    rw [slotsRemoveNothing,staysNil]; simp
  obtain ⟨apart,record,standing,newly,arranged⟩ := View.rearranged (v := ⟨before,next,[]⟩) ordered
    ((lasting before).filter (fun r => !isGivenUp found r)) (by omega) slotted.distinct
    (fun n lower upper => unused n lower (by omega)) slotsEdit slotted.aimed
    (by rw [allStay]; exact List.filter_sublist.trans List.filter_sublist) (namesStand named)
    (blockOfDistinct slotted.once) (slotted.named named) moved
  rw [View.edited,allStay] at apart arranged
  have distinctNow : (ids u.records).Nodup := (idsPerm arranged.perm).nodup_iff.mpr apart
  exact ⟨u,record,slotted,apart,namesTold named standing,newly,arranged,
    (View.removalsRun distinctNow removal).1⟩

end Slotted

namespace Placed
variable {before : List Record} {next position : Nat} {u w : View} {lines : List Criteria}
  {keys : List String} {ordered : Bool} {found : List Slot} {gone : List ItemId}
  {record : ItemRef → Record}
  (placed : Placed before keys lines found gone next ordered position u w record)
include placed

theorem old {j : Nat} {id : ItemId} {changes : Assignments} (mem : .keep j id changes ∈ found) :
    ∃ r ∈ lasting before, r.id = some id ∧ record (.existing id) = r.apply changes := by
  obtain ⟨r,same,hr⟩ := placed.kept mem
  exact ⟨r,(List.mem_filter.mp hr).1,same,
    (placed.told r hr id same).trans (changedKept placed.once mem same)⟩

theorem shown {item : ItemRef} (mem : item ∈ blockOf 0 found) :
    (∃ j id changes r, item = .existing id ∧ .keep j id changes ∈ found ∧ r ∈ lasting before ∧
      r.id = some id ∧ record item = r.apply changes) ∨
    ∃ a, item = .added a.1 ∧ a ∈ arrivals 0 next (slotEdits found) ∧ record item = a.2 := by
  obtain ⟨j,id,changes,rfl,slot⟩ | ⟨m,rfl,-,upper⟩ := memBlockOf mem
  · obtain ⟨r,hr,same,shows⟩ := placed.old slot
    exact .inl ⟨j,id,changes,r,rfl,slot,hr,same,shows⟩
  · have mem : ItemRef.added m ∈
        (List.range (found.filterMap Slot.addition?).length).map ItemRef.added :=
      List.mem_map_of_mem (List.mem_range.mpr (by omega))
    rw [slotReferences found next] at mem
    obtain ⟨a,ha,same⟩ := List.mem_map.mp mem
    exact .inr ⟨a,same.symm,ha,same ▸ placed.newly a ha⟩

theorem newOut {r : Record} (hr : r ∈ slotNews next found) : r.id ∉ ids before :=
  newOutside placed.apart hr

theorem newInside {r : Record} (hr : r ∈ slotNews next found) : r.id ∈ ids (slotBlock record found) :=
  newsListed placed.newly (by rw [blockOfAdds,← List.range_eq_range',slotReferences found next]) hr

theorem written {id : ItemId} {values : Assignments} (mem : .set (some id) values ∈ slotEdits found) :
    some id ∈ ids (slotBlock record found) := by
  obtain ⟨_,same,-⟩ | ⟨j,other,changes,same,slot⟩ := memSlotEdits mem
  · cases same
  · cases same
    obtain ⟨r,-,same,shown⟩ := placed.old slot
    refine List.mem_map.mpr ⟨_,List.mem_map_of_mem (blockOfKeeps slot),?_⟩
    rw [shown,Record.idApply]
    exact same

theorem inBlock {r : Record} (hr : r ∈ before) :
    r.id ∈ ids (slotBlock record found) ↔ r ∈ lasting before ∧ isKept found r = true := by
  constructor
  · intro mem
    obtain ⟨x,hx,same⟩ := List.mem_map.mp mem
    obtain ⟨item,hitem,rfl⟩ := List.mem_map.mp hx
    rcases placed.shown hitem with ⟨j,id,changes,y,rfl,slot,hy,named,shows⟩ | ⟨a,rfl,ha,shows⟩
    · rw [shows,Record.idApply] at same
      cases sameRecord placed.distinct (List.mem_filter.mp hy).1 hr same
      refine ⟨hy,?_⟩
      rw [isKept,named,Option.any_some,List.contains_iff_mem]
      exact List.mem_filterMap.mpr ⟨_,slot,rfl⟩
    · rw [shows] at same
      exact absurd (List.mem_map.mpr ⟨r,hr,same.symm⟩) (placed.newOut (List.mem_map_of_mem ha))
  · rintro ⟨alive,keeps⟩
    obtain ⟨id,named,listed⟩ := (Option.any_eq_true _ _).mp keeps
    obtain ⟨slot,mem,same⟩ := List.mem_filterMap.mp (List.contains_iff_mem.mp listed)
    cases slot with
    | add values => cases same
    | keep j other changes =>
      cases same
      obtain ⟨y,-,same,shows⟩ := placed.old mem
      refine List.mem_map.mpr ⟨_,List.mem_map_of_mem (blockOfKeeps mem),?_⟩
      rw [shows,Record.idApply,same,named]

theorem unassigned {r : Record} (alive : r ∈ lasting before)
    (out : outside (ids (slotBlock record found)) r = true) : isGivenUp found r = isRemovable r := by
  have loose : isKept found r = false := by
    cases keeps : isKept found r with
    | false => rfl
    | true =>
      have there := (placed.inBlock (List.mem_filter.mp alive).1).mpr ⟨alive,keeps⟩
      simp [outside,there] at out
  simp [isGivenUp,loose]

theorem inside {r : Record} (hr : r ∈ slotBlock record found) :
    r ∈ before.map (changed (slotEdits found)) ++ slotNews next found := by
  obtain ⟨item,hitem,rfl⟩ := List.mem_map.mp hr
  rcases placed.shown hitem with ⟨j,id,changes,y,rfl,slot,hy,named,shows⟩ | ⟨a,rfl,ha,shows⟩
  · rw [shows,← changedKept placed.once slot named]
    exact List.mem_append_left _ (List.mem_map_of_mem (List.mem_filter.mp hy).1)
  · rw [shows]
    exact List.mem_append_right _ (List.mem_map_of_mem ha)

theorem fulfils : List.Forall₂ (Fulfils before keys) lines (slotBlock record found) := by
  have adds : arrivals 0 next (found.filterMap Slot.addition?) ⊆ arrivals 0 next (slotEdits found) := by
    rw [slotArrivals]; exact List.Subset.refl _
  refine forallJoin placed.slots (blockShows placed.newly adds) ?_
  intro line slot mem r tells shows
  cases shows with
  | keep =>
    cases tells with
    | keep there matching same set compared =>
      obtain ⟨y,hy,named,shows⟩ := placed.old mem
      cases sameRecord (lastingDistinct placed.distinct) hy (List.mem_of_getElem? there) (named.trans same.symm)
      rw [shows]
      exact keptFulfils hy matching set compared
  | @add m k values arrived =>
    cases tells with
    | add added =>
      refine newFulfils ?_ added
      rw [← newRecordId k values]
      exact placed.newOut (List.mem_map_of_mem arrived)

theorem blockDistinct : (ids (slotBlock record found)).Nodup := by
  have newIds : ((arrivals 0 next (slotEdits found)).map (fun a => a.2.id)).Nodup := by
    have apart := placed.apart
    rw [slotNews,ids,List.map_append] at apart
    have arrived := (List.nodup_append.mp apart).2.1
    rw [List.map_map] at arrived
    exact arrived
  have differ {r : Record} (hr : r ∈ lasting before) {a : Nat × Record}
      (ha : a ∈ arrivals 0 next (slotEdits found)) : r.id ≠ a.2.id := fun same =>
    placed.newOut (List.mem_map_of_mem ha)
      (List.mem_map.mpr ⟨r,(List.mem_filter.mp hr).1,same⟩)
  rw [ids,slotBlock,List.map_map]
  refine (blockOfDistinct placed.once).map_on fun item hitem other hother same => ?_
  simp only [Function.comp_apply] at same
  rcases placed.shown hitem with ⟨_,id,_,y,rfl,_,hy,named,shows⟩ | ⟨a,rfl,ha,shows⟩ <;>
    rcases placed.shown hother with ⟨_,id',_,z,rfl,_,hz,named',shows'⟩ | ⟨b,rfl,hb,shows'⟩ <;>
    rw [shows,shows'] at same
  · rw [Record.idApply,Record.idApply,named,named'] at same
    cases same
    rfl
  · rw [Record.idApply] at same
    exact absurd same (differ hy hb)
  · rw [Record.idApply] at same
    exact absurd same.symm (differ hz ha)
  · rw [List.inj_on_of_nodup_map newIds ha hb same]

theorem others : w.records.filter (outside (ids (slotBlock record found))) =
    before.filter (fun r => outside (ids (slotBlock record found)) r && !isRemovable r) := by
  have beside := placed.arranged.outsiders (fun _ _ => placed.written) (fun _ => placed.newInside)
  calc w.records.filter (outside (ids (slotBlock record found)))
    _ = (u.records.filter (outside (ids (slotBlock record found)))).filter (stays gone) := by
      rw [placed.final,List.filter_filter,List.filter_filter]
      exact List.filter_congr fun r _ => Bool.and_comm _ _
    _ = before.filter (fun r => stays gone r && outside (ids (slotBlock record found)) r) := by
      rw [beside,List.filter_filter]
    _ = _ := by
      refine List.filter_congr fun r hr => ?_
      rw [staysUnless placed.distinct placed.leaves hr]
      cases out : outside (ids (slotBlock record found)) r with
      | false => simp
      | true =>
        cases dynamic : r.flag "dynamic" with
        | true => simp [fleetingStays dynamic]
        | false => simp [placed.unassigned (List.mem_filter.mpr ⟨hr,by simp [dynamic]⟩) out]

theorem there {r : Record} (hr : r ∈ slotBlock record found) : r ∈ w.records := by
  rw [placed.final]
  refine List.mem_filter.mpr ⟨placed.arranged.perm.mem_iff.mpr (placed.inside hr),?_⟩
  rw [View.staysNamed,placed.leaves,Bool.not_eq_true',← Bool.not_eq_true,List.contains_iff_mem]
  intro mem
  obtain ⟨y,hy,same⟩ := List.mem_map.mp mem
  obtain ⟨alive,givenUp⟩ := List.mem_filter.mp hy
  have named : y.id ∈ ids (slotBlock record found) := same ▸ List.mem_map_of_mem hr
  have keeps := ((placed.inBlock (List.mem_filter.mp alive).1).mp named).2
  simp [isGivenUp,keeps] at givenUp

theorem passing {r : Record} (hr : r ∈ fleeting before) : r ∈ w.records := by
  obtain ⟨there,dynamic⟩ := List.mem_filter.mp hr
  have out : outside (ids (slotBlock record found)) r = true := by
    rw [outside,Bool.not_eq_true',← Bool.not_eq_true,List.contains_iff_mem,placed.inBlock there]
    rintro ⟨alive,-⟩
    have lives := aliveOfLasting alive
    simp [dynamic] at lives
  have mem : r ∈ w.records.filter (outside (ids (slotBlock record found))) := by
    rw [placed.others]
    exact List.mem_filter.mpr ⟨there,by simp [out,fleetingStays dynamic]⟩
  exact (List.mem_filter.mp mem).1

theorem order (moved : ordered = true) : ∃ front back,
    w.records.filter (outside (ids (fleeting before))) = front ++ slotBlock record found ++ back ∧
    front ++ back =
      (lasting before).filter (fun r => outside (ids (slotBlock record found)) r && !isRemovable r) ∧
    front.length = min (position - 1) (front ++ back).length := by
  have inside : (lasting before).filter (fun r => !isGivenUp found r) ⊆ before :=
    List.Subset.trans (List.filter_subset_self _) (List.filter_subset_self _)
  obtain ⟨front,back,order,rest,size⟩ := placed.arranged.inOrder (fun _ _ => placed.written)
    (fun _ => placed.newInside)
    (fun id => !(ids (fleeting before)).contains id && !(gone.map some).contains id) moved
    placed.apart inside
    (fun r hr => by
      rw [← View.staysNamed,staysUnless placed.distinct placed.leaves hr,List.mem_filter,
        Bool.and_eq_true,notFleeting placed.distinct hr]
      exact and_congr_right fun alive => by simp [aliveOfLasting alive])
    (fun r hr => by
      have away := apartFleeting (placed.newOut hr)
      have stay : r.id ∉ gone.map some := fun mem =>
        placed.newOut hr (List.map_subset _ (List.Subset.trans (List.filter_subset_self _)
          (List.filter_subset_self _)) (placed.leaves ▸ mem))
      simp only [List.contains_iff_mem,Bool.and_eq_true,Bool.not_eq_true',← Bool.not_eq_true]
      exact ⟨away,stay⟩)
  refine ⟨front,back,?_,?_,size⟩
  · rw [← order,placed.final,List.filter_filter]
    exact List.filter_congr fun r _ => by rw [View.staysNamed]; rfl
  · rw [rest,List.filter_filter]
    refine List.filter_congr fun r hr => ?_
    cases out : outside (ids (slotBlock record found)) r with
    | false => rfl
    | true => rw [placed.unassigned hr out]

theorem adjusted : Adjusted before w.records lines keys ordered position (slotBlock record found) :=
  ⟨placed.fulfils,placed.blockDistinct,fun _ => placed.there,placed.others,fun _ => placed.passing,
    placed.order⟩

end Placed

theorem adjustOk {f : Facility} {within : Option Nat → Error → Error} {d d' : Replica}
    {lines : List Criteria} {keys : List String} {ordered : Bool} {position : Nat}
    {operations : List Operation}
    (h : adjust f within lines keys ordered position d = (.ok operations,d')) :
    d.HasItems f.path ∧ checkTuples within keys [] 0 lines = .ok () ∧
      adjustOperations within lines keys ordered position (lasting (d.records f.path)) =
        .ok operations := by
  simp only [adjust,bindOk,liftOk] at h
  obtain ⟨_,_,⟨apart,rfl⟩,records,m,read,planned,-⟩ := h
  obtain ⟨-,items,rfl,-⟩ := snapshotOk read
  exact ⟨items,apart,planned⟩

end Reconcile

/-- A live run of an adjusting task that succeeds. -/
theorem adjustConverges [PatternEngine] {τ : Type} [FileTransfer Replica τ] {options : RunOptions}
    {path : FacilityPath} {lines : List Criteria} {keys : List String} {ordered : Bool}
    {position : Nat} {s s' : Session Replica τ} {outcome : Outcome} (sound : s.device.Sound)
    (live : options.dryRun = false)
    (ran : Session.runTask options (.facility ⟨path,.adjust lines keys ordered position⟩) s =
      (.ok outcome,s'))
    (succeeded : outcome.failed = false) (word : s'.device.nextId ≤ maxWord64) :
    (∃ assigned, Adjusted (s.device.records path) (s'.device.records path) lines keys ordered
      position assigned) ∧
    ∀ other, other ≠ path → s'.device.records other = s.device.records other := by
  have several : (Mode.adjust lines keys ordered position).shape ≠ .singleton := by
    cases ordered <;> simp [Mode.shape,Mode.shapeIf]
  obtain ⟨plan,planned,⟨added,reached⟩,away⟩ := Session.liveRun live several ran succeeded
  have distinct := sound.records path
  obtain ⟨items,-,operations⟩ :=
    Reconcile.adjustOk (Reconcile.writingOk (mapErrorOk.mp planned)).1
  obtain ⟨found,gone,known,-,all,places,goneNamed,named,same⟩ :=
    Reconcile.adjustPlan (lastingDistinct distinct) operations
  rw [same] at reached
  have once := Reconcile.keptDistinct (lastingDistinct distinct) all places
  obtain ⟨u,record,placed⟩ := Reconcile.Slotted.placed ⟨distinct,all,once,goneNamed⟩
    (fun n lower upper => sound.unused items lower upper) word named reached
  exact ⟨⟨_,placed.adjusted⟩,away.elsewhere⟩

open scoped Pattern

theorem adjustConvergesPools : ∃ outcome after,
    poolRun (.adjust [poolLine "new",poolLine "lan"] ["name"] true 1) = (.ok outcome,after) ∧
    outcome.failed = false ∧
    (∃ assigned, Adjusted (pools.records ⟨"/ip pool"⟩) (after.device.records ⟨"/ip pool"⟩)
      [poolLine "new",poolLine "lan"] ["name"] true 1 assigned) ∧
    ∀ other, other ≠ ⟨"/ip pool"⟩ → after.device.records other = pools.records other := by
  obtain ⟨outcome,after,ran,succeeded,word⟩ :=
    poolRan (.adjust [poolLine "new",poolLine "lan"] ["name"] true 1) (by decide +kernel)
  exact ⟨outcome,after,ran,succeeded,adjustConverges poolsSound rfl ran succeeded word⟩

end RouterReconciler

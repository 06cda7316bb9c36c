import RouterReconciler.Proofs.Reconcile.Alignment
import RouterReconciler.Proofs.Reconcile.Plain

/-! Adjustment to lines that say what is literal and what is unset: what is written to a record changes
neither its keys nor its kind, and where every line finds a record with nothing left to write, and all
others stay, it plans at most the moves for their block. -/
namespace RouterReconciler.Reconcile
open Replica Step

section Keys
variable {keys : List String} {rs : List Record} {line : Criteria}

def keysSought (keys : List String) (line : Criteria) : Option Record → Judgement (Option Record)
  | none => .ok none
  | some r => (keysMatch line r keys).map fun _ => some r

theorem firstFreeRecord {claimed : List Nat} {taken : List (Option ItemId)} (index : Nat)
    (marks : ∀ r j, rs[j]? = some r → claimed.contains (index + j) = taken.contains r.id) :
    (firstFree keys line claimed index rs).map (Option.map Prod.snd) =
      keysSought keys line (rs.find? fun r => keysEnd keys line r && outside taken r) := by
  induction rs generalizing index with
  | nil => rfl
  | cons r rest ih =>
    have here : claimed.contains index = taken.contains r.id := marks r 0 rfl
    have later := ih (index + 1) fun x j hx => by
      rw [← marks x (j + 1) hx,show index + 1 + j = index + (j + 1) by omega]
    rw [firstFree,List.find?_cons,outside,here]
    cases taken.contains r.id with
    | true =>
      rw [Bool.not_true,Bool.and_false]
      exact later
    | false =>
      rw [keysEnd]
      cases judged : keysMatch line r keys with
      | error e =>
        show Except.error e = (keysMatch line r keys).map _
        rw [judged]
        rfl
      | ok same =>
        cases same with
        | true =>
          show Except.ok (some r) = (keysMatch line r keys).map _
          rw [judged]
          rfl
        | false => exact later

theorem firstFreeSought {claimed : List Nat} {taken : List (Option ItemId)} (marks : Marks rs claimed taken)
    (keys : List String) (line : Criteria) : (firstFree keys line claimed 0 rs).map (Option.map Prod.snd) =
      keysSought keys line (rs.find? fun r => keysEnd keys line r && outside taken r) :=
  firstFreeRecord 0 fun r j there => by
    rw [Nat.zero_add]
    exact marks r j there

theorem firstFreeMarked {claimed : List Nat} {taken : List (Option ItemId)} {free : Option (Nat × Record)}
    (marks : Marks rs claimed taken) (h : firstFree keys line claimed 0 rs = .ok free) :
    rs.find? (fun r => keysEnd keys line r && outside taken r) = free.map Prod.snd := by
  have seen := firstFreeSought marks keys line
  rw [h] at seen
  cases found : rs.find? (fun r => keysEnd keys line r && outside taken r) with
  | none =>
    rw [found] at seen
    exact (Except.ok.inj seen).symm
  | some r =>
    rw [found,keysSought] at seen
    cases judged : keysMatch line r keys with
    | error e => rw [judged] at seen; cases seen
    | ok same =>
      rw [judged] at seen
      exact (Except.ok.inj seen).symm

theorem firstFreeAgain {claimed : List Nat} {taken : List (Option ItemId)} {r : Record}
    (marks : Marks rs claimed taken)
    (first : rs.find? (fun r => keysEnd keys line r && outside taken r) = some r)
    (fits : keysMeet keys line r = true) : ∃ j, firstFree keys line claimed 0 rs = .ok (some (j,r)) := by
  have seen := firstFreeSought marks keys line
  rw [first,keysSought,keysMeetMatch fits] at seen
  cases searched : firstFree keys line claimed 0 rs with
  | error e => rw [searched] at seen; cases seen
  | ok free =>
    rw [searched] at seen
    obtain ⟨⟨j,x⟩,rfl,rfl⟩ := Option.map_eq_some_iff.mp (Except.ok.inj seen)
    exact ⟨j,rfl⟩

theorem keysMatchOwn {values : Assignments} (n : Nat) (added : line.addValues = .ok values) :
    keysMatch line (newRecord n values) keys = .ok true := by
  refine keysMatchAll.mpr fun key _ => ?_
  have own := newRecordGet n added key
  rw [Criteria.literal?] at own
  rw [own,keyTest]
  cases clause : line.get? key with
  | none => rfl
  | some c =>
    cases c with
    | literal v => simp [Test.passes,v.equalSelf,Halt.orBroken]
    | _ => rfl

theorem keysSettled {other : Criteria} {r : Record} {desired : Assignments}
    (matching : keysMeet keys line r = true) (set : line.setValues = .ok desired) :
    keysMatch other (r.settle desired) keys = keysMatch other r keys := by
  have same : ∀ key ∈ keys, (r.settle desired).get? key = r.get? key :=
    fun key mem => keySettled matching set mem
  clear matching
  induction keys with
  | nil => rfl
  | cons key rest ih =>
    rw [keysMatch,keysMatch,same key List.mem_cons_self,
      ih fun other mem => same other (List.mem_cons_of_mem _ mem)]

theorem keysMeetEnd {r : Record} (h : keysMeet keys line r = true) : keysEnd keys line r = true := by
  rw [keysEnd,keysMeetMatch h]

theorem kindSettled {r : Record} {desired : Assignments} (set : line.setValues = .ok desired)
    {key : String} (absent : line.get? key = none) : (r.settle desired).flag key = r.flag key := by
  have same : (r.settle desired).get? key = r.get? key := by
    refine Record.settleKeeps fun a wanted => ?_
    rw [Criteria.setValuesGet set,Criteria.assigned?,absent] at wanted
    split at wanted <;> cases wanted
  rw [Record.flag,Record.flag,same]

end Keys

section Slots
variable {within : Option Nat → Error → Error} {keys : List String} {rs : List Record}
  {lines : List Criteria} {found : List Slot} {change : Record → Record} {record : ItemRef → Record}

theorem slotsServed {line next n : Nat} {claimed : List Nat} {taken : List (Option ItemId)}
    (distinct : (ids rs).Nodup) (h : slots within keys rs line claimed lines = .ok found)
    (marks : Marks rs claimed taken)
    (old : ∀ j id changes, .keep j id changes ∈ found → ∀ r ∈ rs, r.id = some id →
      record (.existing id) = change r)
    (new : ∀ a ∈ arrivals n next (found.filterMap Slot.addition?),
      record (.added a.1) = a.2 ∧ a.2.id ∉ ids rs) :
    Served (keysEnd keys) rs change taken lines ((blockOf n found).map record)
      ((arrivals n next (found.filterMap Slot.addition?)).map Prod.snd) := by
  induction lines generalizing line next n claimed taken found with
  | nil => cases h; exact .done _
  | cons first rest ih =>
    simp only [slots,exceptBindOk,exceptMapErrorOk] at h
    obtain ⟨slot,one,others,later,h⟩ := h
    cases h
    obtain ⟨free,searched,one⟩ := exceptBindOk.mp one
    have seen := firstFreeMarked marks searched
    cases free with
    | some place =>
      obtain ⟨j,r⟩ := place
      simp only [exceptBindOk,exceptLiftOk] at one
      obtain ⟨id,given,desired,set,changes,-,one⟩ := one
      cases one
      obtain ⟨-,there,-,-⟩ := firstFreeOk searched
      have named := idOfOk given
      have hr := List.mem_of_getElem? there
      rw [blockOf,List.map_cons,old j id _ List.mem_cons_self r hr named]
      exact .found seen (ih later (marks.found distinct there)
        (fun i other changes mem => old i other changes (List.mem_cons_of_mem _ mem)) new)
    | none =>
      simp only [exceptBindOk,exceptLiftOk] at one
      obtain ⟨values,added,one⟩ := one
      cases one
      have arrived : (n,newRecord next values) ∈
          arrivals n next ((Slot.add values :: others).filterMap Slot.addition?) := List.mem_cons_self
      obtain ⟨shows,out⟩ := new _ arrived
      rw [blockOf,List.map_cons,shows]
      exact .made seen (keysMeetEnd (keysMatchMeet (keysMatchOwn next added))) (ih later (marks.made out)
        (fun i other changes mem => old i other changes (List.mem_cons_of_mem _ mem))
        fun a mem => new a (List.mem_cons_of_mem _ mem))

end Slots

section First
variable {keys : List String} {rs : List Record} {lines : List Criteria} {found : List Slot}
  (distinct : (ids rs).Nodup) (all : List.Forall₂ (SlotFor rs keys) lines found)
  (once : (found.filterMap Slot.id?).Nodup)

theorem mentionsSlots (found : List Slot) (r : Record) :
    mentions (blockOf 0 found) r = isKept found r := by
  cases named : r.id with
  | none => simp [mentions,isKept,named]
  | some id =>
    rw [mentions,isKept,named,Option.any_some,Option.any_some,Bool.eq_iff_iff,List.contains_iff_mem,
      List.contains_iff_mem]
    constructor
    · intro mem
      obtain ⟨j,other,changes,same,slot⟩ | ⟨m,same,-⟩ := memBlockOf mem <;> cases same
      exact List.mem_filterMap.mpr ⟨_,slot,rfl⟩
    · intro mem
      obtain ⟨slot,mem,same⟩ := List.mem_filterMap.mp mem
      cases slot with
      | keep j other changes => cases same; exact blockOfKeeps mem
      | add values => cases same

include all once in
theorem slotsFit : Fit rs ⟨[],slotEdits found,blockOf 0 found⟩ := by
  have there {j id changes} (mem : Slot.keep j id changes ∈ found) : some id ∈ ids rs := by
    obtain ⟨r,there,named⟩ := keptPlace all mem
    exact List.mem_map.mpr ⟨r,List.mem_of_getElem? there,named⟩
  refine ⟨slotsEdit,fun operation mem id aim => ?_,fun id values mem => ?_,fun id mem => ?_,
    blockOfDistinct once,fun next => ?_⟩
  · obtain ⟨values,rfl,-⟩ | ⟨j,other,changes,rfl,slot⟩ := memSlotEdits mem <;> cases aim
    exact there slot
  · obtain ⟨_,same,-⟩ | ⟨j,other,changes,same,slot⟩ := memSlotEdits mem <;> cases same
    exact blockOfKeeps slot
  · obtain ⟨j,other,changes,same,slot⟩ | ⟨m,same,-⟩ := memBlockOf mem <;> cases same
    exact there slot
  · rw [blockOfAdds,← List.range_eq_range',slotReferences found next]

include distinct all once in
theorem slotChange {r : Record} (hr : r ∈ rs) : changed (slotEdits found) r = r ∨
    ∃ line ∈ lines, ∃ desired, keysMeet keys line r = true ∧ line.setValues = .ok desired ∧
      changed (slotEdits found) r = r.settle desired := by
  by_cases keeps : ∃ j id changes, Slot.keep j id changes ∈ found ∧ r.id = some id
  · obtain ⟨j,id,changes,slot,named⟩ := keeps
    obtain ⟨line,mem,told⟩ := forallRight all slot
    cases told with
    | keep there matching given set compared =>
      cases sameRecord distinct (List.mem_of_getElem? there) hr (given.trans named.symm)
      obtain ⟨-,rfl⟩ := differingOk.mp compared
      exact .inr ⟨line,mem,_,matching,set,changedKept once slot named⟩
  · refine .inl (changedUnset fun id values mem named => keeps ?_)
    obtain ⟨_,same,-⟩ | ⟨j,other,changes,same,slot⟩ := memSlotEdits mem <;> cases same
    exact ⟨j,id,values,slot,named⟩

include all once in
theorem slotsSettled {next : Nat} {record : ItemRef → Record}
    (pictures : Pictures rs next ⟨[],slotEdits found,blockOf 0 found⟩ record) :
    List.Forall₂ (fun line r => keysMeet keys line r = true ∧ (Alignment.adjust keys).settled line r) lines
      ((blockOf 0 found).map record) := by
  have adds : arrivals 0 next (found.filterMap Slot.addition?) ⊆ arrivals 0 next (slotEdits found) := by
    rw [slotArrivals]; exact List.Subset.refl _
  refine forallJoin all (blockShows pictures.new adds) ?_
  intro line slot mem r tells shows
  cases shows with
  | keep =>
    cases tells with
    | keep there matching named set compared =>
      rename_i x desired
      obtain ⟨comparable,rfl⟩ := differingOk.mp compared
      rw [pictures.old x (List.mem_of_getElem? there) _ named (blockOfKeeps mem),
        changedKept once mem named]
      exact ⟨keysMatchMeet ((keysSettled matching set).trans (keysMeetMatch matching)),desired,set,
        Record.settled comparable⟩
  | @add m k values arrived =>
    cases tells with
    | add added =>
      obtain ⟨desired,set⟩ := Criteria.setOfAdd ∅ added
      exact ⟨keysMatchMeet (keysMatchOwn _ added),desired,set,
        Criteria.newSettled added set fun key => Record.getNew _ values key⟩

end First

theorem adjustLaid {f : Facility} {within : Option Nat → Error → Error} {d d' : Replica}
    {lines : List Criteria} {keys : List String} {ordered : Bool} {position : Nat}
    {operations : List Operation} (concrete : ∀ line ∈ lines, line.Concrete)
    (distinct : (ids (d.records f.path)).Nodup)
    (h : adjust f within lines keys ordered position d = (.ok operations,d')) :
    d.HasItems f.path ∧ ∃ p gone, Laid (.adjust keys) (lasting (d.records f.path)) lines ordered
      position p gone operations := by
  obtain ⟨items,-,planned⟩ := adjustOk h
  have distinct := lastingDistinct distinct
  obtain ⟨found,gone,kept,claimed,all,places,goneNamed,named,rfl⟩ := adjustPlan distinct planned
  have once := keptDistinct distinct all places
  have givenUp : (Alignment.adjust keys).givesUp (blockOf 0 found) = isGivenUp found := by
    funext r
    rw [Alignment.givesUp,mentionsSlots]
    rfl
  refine ⟨items,⟨[],slotEdits found,blockOf 0 found⟩,gone,slotsFit all once,slotsRemoveNothing found,
    by rw [givenUp]; exact goneNamed,fun _ r hr => ?_,?_,fun r hr line mem => ?_,fun r hr => ?_,?_,?_,
    fun next record pictures => (slotsSettled all once pictures).imp fun _ _ => And.left,
    fun next record pictures => (slotsSettled all once pictures).imp fun _ _ => And.right⟩
  · cases gives : isGivenUp found r with
    | true => exact namesComplete goneNamed r (List.mem_filter.mpr ⟨hr,gives⟩)
    | false => exact namesComplete named r (List.mem_filter.mpr ⟨hr,by simp [gives]⟩)
  · rw [givenUp,handlesNamed named,blockOfAdds,List.range_eq_range']
  · rcases slotChange distinct all once hr with same | ⟨own,-,desired,matching,set,same⟩ <;> rw [same]
    show keysEnd keys line (r.settle desired) = keysEnd keys line r
    rw [keysEnd,keysSettled matching set,keysEnd]
  · rcases slotChange distinct all once hr with same | ⟨own,mem,desired,-,set,same⟩ <;> rw [same]
    exact kindSettled set ((concrete own mem).unreserved _ (by decide))
  · intro next x mem
    obtain ⟨n,values,_,planned,new⟩ := arrivalAdded mem
    obtain ⟨_,same,slot⟩ | ⟨_,_,_,same,-⟩ := memSlotEdits planned <;> cases same
    obtain ⟨line,listed,told⟩ := forallRight all slot
    cases told with
    | add written =>
      rw [new]
      exact Criteria.flagOwn (newRecordGet n written) ((concrete line listed).unreserved _ (by decide))
  · intro next record pictures
    have new : ∀ a ∈ arrivals 0 next (found.filterMap Slot.addition?),
        record (.added a.1) = a.2 ∧ a.2.id ∉ ids (lasting (d.records f.path)) := fun a ha =>
      have ha := (slotArrivals found next) ▸ ha
      ⟨pictures.new a ha,pictures.apart a ha⟩
    have served : Served _ _ (changed (slotEdits found)) [] _ _ _ := slotsServed distinct claimed
      (.start _) (fun j id changes mem r hr named =>
        pictures.old r hr id named (blockOfKeeps mem)) new
    rw [← slotArrivals] at served
    exact served

section Again
variable {f : Facility} {within : Option Nat → Error → Error} {d : Replica} {keys : List String}
  {rs block : List Record} {lines : List Criteria} {found : List Slot}

def Kept (found : List Slot) : Prop := ∀ slot ∈ found, ∃ j id, slot = .keep j id ∅

theorem additionsNone (kept : Kept found) (index : Nat) : additions within index found = .ok [] := by
  induction found generalizing index with
  | nil => rfl
  | cons slot rest ih =>
    obtain ⟨j,id,rfl⟩ := kept slot List.mem_cons_self
    exact ih (fun x hx => kept x (List.mem_cons_of_mem _ hx)) (index + 1)

theorem modificationsNone (kept : Kept found) (index : Nat) :
    modifications within index found = .ok [] := by
  induction found generalizing index with
  | nil => rfl
  | cons slot rest ih =>
    obtain ⟨j,id,rfl⟩ := kept slot List.mem_cons_self
    have later := ih (fun x hx => kept x (List.mem_cons_of_mem _ hx)) (index + 1)
    simp only [modifications,later]
    rfl

theorem slotsAgain (within : Option Nat → Error → Error) (line : Nat) {claimed : List Nat}
    {taken : List (Option ItemId)}
    (distinct : (ids rs).Nodup) (claims : Claims (keysEnd keys) rs taken lines block)
    (fit : List.Forall₂ (fun line r => keysMeet keys line r = true) lines block)
    (settled : List.Forall₂ (Alignment.adjust keys).settled lines block)
    (named : ∀ r ∈ block, r.id.isSome) (marks : Marks rs claimed taken) :
    ∃ found, slots within keys rs line claimed lines = .ok found ∧ Kept found ∧
      (∀ n, blockOf n found = handles block) ∧
      ∀ r j, rs[j]? = some r → r.id ∈ ids block → j ∈ found.flatMap Slot.places := by
  induction claims generalizing line claimed with
  | done => exact ⟨[],rfl,by simp [Kept],fun _ => rfl,by simp [ids]⟩
  | @line taken first r rest block here _ ih =>
    obtain ⟨one,later⟩ := List.forall₂_cons.mp settled
    obtain ⟨fits,others⟩ := List.forall₂_cons.mp fit
    obtain ⟨j,free⟩ := firstFreeAgain marks here fits
    obtain ⟨desired,set,same⟩ : ∃ desired, first.setValues = .ok desired ∧
      differing desired r = .ok ∅ := one
    obtain ⟨id,given⟩ : ∃ id, r.id = some id :=
      Option.isSome_iff_exists.mp (named r List.mem_cons_self)
    have there : rs[j]? = some r := (firstFreeOk free).2.1
    have kept : idOf r = .ok id := by rw [idOf,given]
    have slot : slotFor keys rs claimed first = .ok (.keep j id ∅) :=
      exceptBindOk.mpr ⟨_,free,exceptBindOk.mpr ⟨id,exceptLiftOk.mpr kept,
        exceptBindOk.mpr ⟨desired,exceptLiftOk.mpr set,exceptBindOk.mpr ⟨_,same,rfl⟩⟩⟩⟩
    obtain ⟨found,planned,kept,refs,places⟩ := ih (line + 1) others later
      (fun x hx => named x (List.mem_cons_of_mem _ hx)) (marks.found distinct there)
    refine ⟨.keep j id ∅ :: found,?_,fun slot mem => ?_,fun n => ?_,fun y i hy mem => ?_⟩
    · exact exceptBindOk.mpr ⟨_,exceptMapErrorOk.mpr slot,exceptBindOk.mpr ⟨found,planned,rfl⟩⟩
    · rcases List.mem_cons.mp mem with rfl | mem
      · exact ⟨j,id,rfl⟩
      · exact kept slot mem
    · rw [blockOf,refs,handlesCons given]
    · rw [List.flatMap_cons,List.mem_append]
      rcases List.mem_cons.mp mem with itself | mem
      · exact .inl (List.mem_singleton.mpr (samePlace distinct hy there itself))
      · exact .inr (places y i hy mem)

theorem splitAgain (claimed : List Nat) (index : Nat) (complete : ∀ r ∈ rs, r.id.isSome)
    (firm : ∀ r j, rs[j]? = some r → isRemovable r = true → index + j ∈ claimed) :
    ∃ names, split claimed index rs = .ok ([],names) ∧ names.map some = ids rs := by
  induction rs generalizing index with
  | nil => exact ⟨[],rfl,rfl⟩
  | cons r rest ih =>
    obtain ⟨id,named⟩ := Option.isSome_iff_exists.mp (complete r List.mem_cons_self)
    obtain ⟨names,parted,same⟩ := ih (index + 1)
      (fun x hx => complete x (List.mem_cons_of_mem _ hx)) fun x j hx loose => by
        rw [show index + 1 + j = index + (j + 1) by omega]
        exact firm x (j + 1) hx loose
    have stay : (!claimed.contains index && isRemovable r) = false := by
      cases loose : isRemovable r with
      | false => exact Bool.and_false _
      | true => simpa using firm r 0 rfl loose
    refine ⟨id :: names,?_,by rw [List.map_cons,same,ids,ids,List.map_cons,named]⟩
    have given : idOf r = .ok id := by rw [idOf,named]
    refine exceptBindOk.mpr ⟨id,given,exceptBindOk.mpr ⟨([],names),parted,?_⟩⟩
    simp only [stay]
    rfl

theorem adjustAgain {ordered : Bool} {position : Nat} (several : f.shape ≠ .singleton)
    (items : d.HasItems f.path) (apart : checkTuples within keys [] 0 lines = .ok ())
    (rests : Rests (.adjust keys) (lasting (d.records f.path)) lines ordered block)
    (claims : Claims (keysEnd keys) (lasting (d.records f.path)) [] lines block)
    (fit : List.Forall₂ (fun line r => keysMeet keys line r = true) lines block) :
    adjust f within lines keys ordered position d = (.ok (if ordered then
      reposition (handles (lasting (d.records f.path))) (handles block) position else []),d) := by
  obtain ⟨found,planned,kept,refs,places⟩ := slotsAgain within 0 rests.distinct claims
    fit rests.settled (fun r hr => (rests.there r hr).2) (.start _)
  have complete := rests.named (Bool.or_true _)
  obtain ⟨names,parted,named⟩ := splitAgain (found.flatMap Slot.places) 0
    complete fun r j there loose => by
      rw [Nat.zero_add]
      refine places r j there (by_contra fun out => ?_)
      have firm := rests.firm r (List.mem_of_getElem? there) out
      exact absurd loose (by rw [show isRemovable r = false from firm]; simp)
  have operations : adjustOperations within lines keys ordered position (lasting (d.records f.path)) =
      .ok (if ordered then reposition (handles (lasting (d.records f.path))) (handles block) position
        else []) := by
    refine exceptBindOk.mpr ⟨found,planned,exceptBindOk.mpr ⟨([],names),exceptLiftOk.mpr parted,
      exceptBindOk.mpr ⟨[],exceptLiftOk.mpr (additionsNone kept 0),
        exceptBindOk.mpr ⟨[],exceptLiftOk.mpr (modificationsNone kept 0),?_⟩⟩⟩⟩
    rw [refs,handlesNamed named]
    simp
  rw [adjust,bindAfter (liftOk.mpr ⟨apart,rfl⟩),bindAfter (snapshotThere several items)]
  exact liftOk.mpr ⟨operations,rfl⟩

end Again
end RouterReconciler.Reconcile

import RouterReconciler.Proofs.Run.Unordered

/-! Aligning with an order, twice. The records of the lines come to stand together at the position, but a
line looks for its record from the start: so planned again, the task has nothing to do exactly if no record
before them is one that a line asks for. Such a record is claimed in their place, and the next run moves
it, or removes the one that it has replaced. -/
namespace RouterReconciler
open Step Replica Reconcile Text

theorem repositionSettled {front part back : List Record} {block : List ItemRef} {position : Nat}
    (distinct : (ids (front ++ part ++ back)).Nodup)
    (complete : ∀ r ∈ front ++ part ++ back, r.id.isSome) (once : block.Nodup)
    (inside : block ⊆ handles (front ++ part ++ back)) (few : block.length = part.length)
    (size : front.length = min (position - 1) (front ++ back).length) :
    reposition (handles (front ++ part ++ back)) block position = [] ↔ block = handles part := by
  have named := handlesDistinct distinct
  have frontSize : (handles front).length = front.length :=
    handlesLength fun r hr => complete r (by simp [hr])
  have partSize : (handles part).length = part.length :=
    handlesLength fun r hr => complete r (by simp [hr])
  have backSize : (handles back).length = back.length :=
    handlesLength fun r hr => complete r (by simp [hr])
  rw [handlesAppend,handlesAppend] at named inside ⊢
  rw [reposition,List.map_eq_nil_iff]
  refine Placement.movesSettled named once (fun x mem => inside mem) (few.trans partSize.symm) ?_
  rw [frontSize,size,List.length_append,List.length_append,frontSize,backSize]

section Still
variable {a : Alignment} {rs : List Record} {lines : List Criteria} {position : Nat} {p : Progress}
  {gone : List ItemId} (laid : Laid a rs lines true position p gone []) (distinct : (ids rs).Nodup)
include laid

theorem Laid.still : p.operations = [] ∧ p.block ⊆ handles rs ∧
    reposition (handles rs) p.block position = [] := by
  have nothing := laid.operations.symm
  rw [if_pos rfl,List.append_eq_nil_iff,List.append_eq_nil_iff,List.map_eq_nil_iff] at nothing
  obtain ⟨⟨quiet,moves⟩,rfl⟩ := nothing
  have noneAdded : p.block.filter isAdded = [] := by rw [laid.fit.added 0,quiet]; rfl
  have keepsAll : rs.filter (fun r => !a.givesUp p.block r) = rs := by
    refine List.filter_eq_self.mpr fun r hr => ?_
    have lost := laid.leaves.symm
    rw [List.map_nil,ids,List.map_eq_nil_iff,List.filter_eq_nil_iff] at lost
    simpa using lost r hr
  rw [noneAdded,keepsAll,List.append_nil] at moves
  refine ⟨quiet,fun item mem => ?_,moves⟩
  cases item with
  | existing id => exact existingHandle.mpr (laid.fit.existing id mem)
  | added n =>
    obtain ⟨r,arrives⟩ := laid.fit.arrival 0 mem
    rw [quiet] at arrives
    cases arrives

include distinct in
theorem Laid.claimed : ∃ claimed, Claims a.ends rs [] lines claimed ∧
    p.block.length = lines.length ∧ handles claimed ⊆ p.block := by
  obtain ⟨quiet,inside,-⟩ := laid.still
  have unchanged : ∀ r, changed p.operations r = r := fun r =>
    changedUnset fun id values mem => by rw [quiet] at mem; cases mem
  have shows : ∀ r ∈ rs, ∀ id ∈ r.id, recordOf rs [] (.existing id) = r := fun r hr id named =>
    recordOfRef distinct hr (Option.mem_def.mp named).symm
  have noneNew : arrivals 0 0 p.operations = [] := by rw [quiet]; rfl
  have pictures : Pictures rs 0 p (recordOf rs []) :=
    ⟨fun r hr id named _ => by rw [shows r hr id named,unchanged],by simp [noneNew],by simp [noneNew]⟩
  have served := laid.served 0 _ pictures
  rw [noneNew] at served
  have size := (laid.settled 0 _ pictures).length_eq
  rw [List.length_map] at size
  refine ⟨_,served.claims fun r _ => unchanged r,size.symm,fun item mem => ?_⟩
  obtain ⟨id,rfl,listed⟩ := memHandles.mp mem
  obtain ⟨r,hr,named⟩ := List.mem_map.mp listed
  obtain ⟨item,mem,rfl⟩ := List.mem_map.mp hr
  obtain ⟨other,rfl,there⟩ := memHandles.mp (inside mem)
  obtain ⟨x,hx,same⟩ := List.mem_map.mp there
  rw [shows x hx other same,same] at named
  cases named
  exact mem

end Still

section
variable [PatternEngine]

section Again
variable {f : Facility} {within : Option Nat → Error → Error} {before before' d : Replica}
  {first : Plan} {lines : List Criteria} {position : Nat} {mode : Mode} {a : Alignment}
  {front block back : List Record}

theorem Aligns.settledInOrder (aligns : Aligns lines true position mode a)
    (concrete : ∀ line ∈ lines, line.Concrete) (several : f.shape ≠ .singleton)
    (planned : planMode f within mode before = (.ok first,before')) (items : d.HasItems f.path)
    (distinct : (ids (d.records f.path)).Nodup)
    (stand : lasting (d.records f.path) = front ++ block ++ back)
    (size : front.length = min (position - 1) (front ++ back).length)
    (fit : List.Forall₂ (fun line r => a.fits line r = true) lines block)
    (rests : Rests a (lasting (d.records f.path)) lines true block) :
    planMode f within mode d = (.ok (.ofOperations f []),d) ↔
      ¬a.jams lines (lasting (d.records f.path)) ∧ ∀ r ∈ front, ∀ line ∈ lines, a.ends line r = false := by
  have apart : (ids (front ++ block ++ back)).Nodup := stand ▸ rests.distinct
  have complete : ∀ r ∈ front ++ block ++ back, r.id.isSome := stand ▸ rests.named rfl
  have blockOnce : (ids block).Nodup := apart.sublist
    (((List.sublist_append_right front block).trans (List.sublist_append_left _ back)).map _)
  have blockSize : (handles block).length = block.length :=
    handlesLength fun r hr => complete r (by simp [hr])
  have inPlace (free : ∀ r ∈ front, ∀ line ∈ lines, a.ends line r = false) :
      Claims a.ends (lasting (d.records f.path)) [] lines block := by
    rw [stand]
    exact Claims.inPlace (fit.imp fun _ _ => aligns.narrows _ _) (fun x hx => .inr (free x hx)) blockOnce
      (by simp)
  constructor
  · intro quiet
    obtain ⟨-,p,gone,laid⟩ := aligns.laid concrete distinct quiet
    rw [stand] at laid
    obtain ⟨-,inside,still⟩ := laid.still
    obtain ⟨claimed,claims,few,own⟩ := laid.claimed apart
    have same := (repositionSettled apart complete laid.fit.distinct inside (few.trans fit.length_eq)
      size).mp still
    rw [List.append_assoc] at claims apart
    have free : ∀ r ∈ front, ∀ line ∈ lines, a.ends line r = false := by
      refine claims.passedOver (fun x hx mem => ?_) (by simp) apart
      obtain ⟨id,named⟩ := Option.isSome_iff_exists.mp (complete x (by simp [hx]))
      have there : some id ∈ ids block := by
        rw [← existingHandle,← same]
        exact own (handleOf mem named)
      rw [ids,List.map_append,List.map_append] at apart
      refine (List.nodup_append.mp apart).2.2 x.id (List.mem_map_of_mem hx) x.id ?_ rfl
      rw [named]
      exact List.mem_append_left _ there
    refine ⟨fun jam => ?_,free⟩
    have broken := aligns.jammed concrete planned several items rests fit (inPlace free) jam
    cases quiet.symm.trans broken
  · rintro ⟨clear,free⟩
    have still := (repositionSettled apart complete (handlesDistinct blockOnce)
      (by simp [handlesAppend]) blockSize size).mpr rfl
    have again := aligns.again concrete planned several items rests fit (inPlace free) clear
    rwa [if_pos rfl,stand,still] at again

end Again

/-- A live run that aligns with an order and succeeds. The records of the lines stand together at the
position; planned again, the task has nothing to do exactly if no line ends its search at a record before
them, and presence does not break off. -/
theorem orderedSettles {τ : Type} [FileTransfer Replica τ] {options : RunOptions}
    {path : FacilityPath} {lines : List Criteria} {position : Nat} {mode : Mode} {a : Alignment}
    {s s' : Session Replica τ} {outcome : Outcome} (aligns : Aligns lines true position mode a)
    (sound : s.device.Sound) (concrete : ∀ line ∈ lines, line.Concrete)
    (live : options.dryRun = false)
    (ran : Session.runTask options (.facility ⟨path,mode⟩) s = (.ok outcome,s'))
    (succeeded : outcome.failed = false) (word : s'.device.nextId ≤ maxWord64) :
    ∃ front block back, lasting (s'.device.records path) = front ++ block ++ back ∧
      (front ++ back).Sublist (lasting (s.device.records path)) ∧
      front.length = min (position - 1) (front ++ back).length ∧
      List.Forall₂ (fun line r => a.fits line r = true) lines block ∧
      (FacilityTask.plan ⟨path,mode⟩ s'.device =
          (.ok (.ofOperations ⟨path,mode.shape⟩ []),s'.device) ↔
        ¬a.jams lines (lasting (s'.device.records path)) ∧
          ∀ r ∈ front, ∀ line ∈ lines, a.ends line r = false) := by
  obtain ⟨plan,planned,⟨added,reached⟩,away⟩ := Session.liveRun live aligns.several ran succeeded
  have first := mapErrorOk.mp planned
  obtain ⟨items,p,gone,laid⟩ := aligns.laid concrete (sound.records path) first
  obtain ⟨front,block,back,stand,rest,size,fit,rests,distinct⟩ := laid.inOrder (sound.records path)
    (fun n lower upper => sound.unused items lower upper) word reached
  have again := aligns.settledInOrder concrete aligns.several first (away.items items) distinct stand
    size fit rests
  exact ⟨front,block,back,stand,rest,size,fit,mapErrorOk.trans again⟩

end

open scoped Pattern

theorem orderedSettlesPools :
    (∃ outcome after, poolRun (.present [poolLine "new",poolLine "lan"] true 2 .add) =
        (.ok outcome,after) ∧ outcome.failed = false ∧
      ∃ front block back, lasting (after.device.records ⟨"/ip pool"⟩) = front ++ block ++ back ∧
        (front ++ back).Sublist (lasting (pools.records ⟨"/ip pool"⟩)) ∧
        front.length = min (2 - 1) (front ++ back).length ∧
        List.Forall₂ (fun line r => Alignment.present.fits line r = true)
          [poolLine "new",poolLine "lan"] block ∧
        (FacilityTask.plan ⟨⟨"/ip pool"⟩,.present [poolLine "new",poolLine "lan"] true 2 .add⟩
            after.device = (.ok (.ofOperations ⟨⟨"/ip pool"⟩,.ordered⟩ []),after.device) ↔
          ¬Clash [poolLine "new",poolLine "lan"] (lasting (after.device.records ⟨"/ip pool"⟩)) ∧
            ∀ r ∈ front, ∀ line ∈ [poolLine "new",poolLine "lan"],
              Alignment.present.ends line r = false)) ∧
    ∃ outcome after, poolRun (.adjust [poolLine "new",poolLine "lan"] ["name"] true 1) =
        (.ok outcome,after) ∧ outcome.failed = false ∧
      ∃ front block back, lasting (after.device.records ⟨"/ip pool"⟩) = front ++ block ++ back ∧
        (front ++ back).Sublist (lasting (pools.records ⟨"/ip pool"⟩)) ∧
        front.length = min (1 - 1) (front ++ back).length ∧
        List.Forall₂ (fun line r => (Alignment.adjust ["name"]).fits line r = true)
          [poolLine "new",poolLine "lan"] block ∧
        (FacilityTask.plan ⟨⟨"/ip pool"⟩,.adjust [poolLine "new",poolLine "lan"] ["name"] true 1⟩
            after.device = (.ok (.ofOperations ⟨⟨"/ip pool"⟩,.ordered⟩ []),after.device) ↔
          ∀ r ∈ front, ∀ line ∈ [poolLine "new",poolLine "lan"],
            (Alignment.adjust ["name"]).ends line r = false) := by
  have concrete : ∀ line ∈ [poolLine "new",poolLine "lan"], line.Concrete := by
    simp [(poolLinePlain _).concrete]
  constructor
  · obtain ⟨outcome,after,ran,succeeded,word⟩ :=
      poolRan (.present [poolLine "new",poolLine "lan"] true 2 .add) (by decide +kernel)
    exact ⟨outcome,after,ran,succeeded,
      orderedSettles (.present _) poolsSound concrete rfl ran succeeded word⟩
  · obtain ⟨outcome,after,ran,succeeded,word⟩ :=
      poolRan (.adjust [poolLine "new",poolLine "lan"] ["name"] true 1) (by decide +kernel)
    obtain ⟨front,block,back,stand,rest,size,fit,again⟩ :=
      orderedSettles (.adjust _) poolsSound concrete rfl ran succeeded word
    exact ⟨outcome,after,ran,succeeded,front,block,back,stand,rest,size,fit,
      again.trans (and_iff_right not_false)⟩

def twinRules : Replica :=
  ⟨Entries.ofList [("/ip firewall filter",.items [
    ⟨some "*1",Entries.ofList [("comment",.str "a")]⟩,
    ⟨some "*2",Entries.ofList [("comment",.str "a"),("default",.bool true)]⟩])],3,[],0,none⟩

def twinLine : Criteria := Entries.ofList [("comment",.literal (.str "a"))]

def twinRun (mode : Mode) : Except (Halt Empty) Outcome × Session Replica RemoteFiles :=
  Session.runTask ⟨false,false⟩ (.facility ⟨⟨"/ip firewall filter"⟩,mode⟩)
    ⟨twinRules,none,Files.empty,[]⟩

-- The twin that stays in front is claimed by the next run, which moves it, or removes the other one.
theorem twinsUnsettled : twinRules.Sound ∧ twinLine.Concrete ∧
    (∃ outcome after again, twinRun (.present [twinLine] true 2 .add) = (.ok outcome,after) ∧
      FacilityTask.make ⟨"/ip firewall filter"⟩ (.present [twinLine] true 2 .add) =
        .ok ⟨⟨"/ip firewall filter"⟩,.present [twinLine] true 2 .add⟩ ∧
      outcome.failed = false ∧
      (FacilityTask.plan ⟨⟨"/ip firewall filter"⟩,.present [twinLine] true 2 .add⟩
        after.device).1 = .ok again ∧
      again.operations = [.move (.existing "*2") none]) ∧
    ∃ outcome after again, twinRun (.adjust [twinLine] ["comment"] true 2) = (.ok outcome,after) ∧
      FacilityTask.make ⟨"/ip firewall filter"⟩ (.adjust [twinLine] ["comment"] true 2) =
        .ok ⟨⟨"/ip firewall filter"⟩,.adjust [twinLine] ["comment"] true 2⟩ ∧
      outcome.failed = false ∧
      (FacilityTask.plan ⟨⟨"/ip firewall filter"⟩,.adjust [twinLine] ["comment"] true 2⟩
        after.device).1 = .ok again ∧
      again.operations = [.remove "*1"] := by
  have sound : twinRules.Sound := by
    refine .ofEntries fun path rs mem => ?_
    cases List.mem_singleton.mp mem
    decide
  have concrete : twinLine.Concrete := (Criteria.Plain.literal (by decide) _).concrete
  refine ⟨sound,concrete,⟨_,_,_,(Prod.eta _).symm,rfl,?_,rfl,?_⟩,_,_,_,(Prod.eta _).symm,rfl,?_,rfl,?_⟩
  all_goals decide +kernel

end RouterReconciler

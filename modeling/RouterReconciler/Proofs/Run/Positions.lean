import RouterReconciler.Proofs.Reconcile.Single

/-! Putting one record at a position, twice. After the first run the record is the only match and stands
where the position says, whether it was moved there or added there; so the second plan finds it, sets
nothing and moves nothing. -/
namespace RouterReconciler
open Step Replica Reconcile Text

inductive Positions (find : Criteria) (position : Nat) (missing : Missing) : Assignments → Mode → Prop
  | move : Positions find position missing ∅ (.move find position missing)
  | ensure {set} (concrete : find.Concrete) (apart : ∀ key, (find.get? key).isSome → set.get? key = none)
      (lasts : set.get? "dynamic" = none) :
      Positions find position missing set (.ensure [find] set (some position) missing)

namespace Positions
variable {find : Criteria} {position : Nat} {missing : Missing} {set : Assignments} {mode : Mode}
  (positions : Positions find position missing set mode)
include positions

theorem several : mode.shape ≠ .singleton := by cases positions <;> simp [Mode.shape,Mode.shapeIf]

theorem apart : ∀ key, (find.get? key).isSome → set.get? key = none := by
  cases positions with
  | move => exact fun _ _ => rfl
  | ensure _ apart _ => exact apart

theorem lasts : set.get? "dynamic" = none := by
  cases positions with
  | move => rfl
  | ensure _ _ lasts => exact lasts

theorem placing [PatternEngine] {path : FacilityPath} {within : Option Nat → Error → Error} {d d' : Replica} {plan : Plan}
    (distinct : (ids (d.records path)).Nodup)
    (known : missing = .ignore → ∃ r ∈ lasting (d.records path), meets find r = true)
    (h : planMode ⟨path,mode.shape⟩ within mode d = (.ok plan,d')) :
    d.HasItems path ∧ Placing (d.records path) find set position plan.operations := by
  cases positions with
  | move => exact (movePlacing distinct known (writingOk h).1).2
  | ensure concrete _ _ =>
    obtain ⟨-,items,-,placing⟩ := ensurePlacing concrete known (writingOk h).1
    exact ⟨items,placing⟩

end Positions

section Again
variable [PatternEngine] {before after : List Record} {find : Criteria} {set : Assignments}
  {position : Nat} {r : Record}
  (subject : Subject before find set r) (positioned : Positioned before after r position)
include positioned

include subject in
theorem Positioned.only (hit : meets find r = true) :
    ∃ front back, lasting after = front ++ r :: back ∧ (∀ x ∈ front ++ back, meets find x = false) ∧
      (lasting after).filter (meets find) = [r] := by
  obtain ⟨front,back,stand,rest,-⟩ := positioned.stands
  have missed : ∀ x ∈ front ++ back, meets find x = false := by
    intro x hx
    rw [rest] at hx
    obtain ⟨there,out⟩ := List.mem_filter.mp hx
    rw [← Bool.not_eq_true]
    intro met
    have mem : x ∈ (lasting before).filter (meets find) := List.mem_filter.mpr ⟨there,met⟩
    cases subject with
    | found only =>
      rw [only] at mem
      cases List.mem_singleton.mp mem
      simp [outside,Record.settle] at out
    | added unmatched => rw [unmatched] at mem; cases mem
  refine ⟨front,back,stand,missed,?_⟩
  have none : ∀ part, part ⊆ front ++ back → part.filter (meets find) = [] := fun part inside =>
    List.filter_eq_nil_iff.mpr fun x hx => by simp [missed x (inside hx)]
  rw [stand,List.filter_append,List.filter_cons_of_pos hit,none front (by simp),none back (by simp)]
  rfl

theorem Positioned.clear (hit : meets find r = true) (clear : ¬Clash [find] (lasting before)) :
    ¬Clash [find] (lasting after) := by
  obtain ⟨front,back,stand,rest,-⟩ := positioned.stands
  rintro ⟨_,only,x,hx,broken⟩
  cases List.mem_singleton.mp only
  rw [stand,List.mem_append,List.mem_cons,or_left_comm,← List.mem_append,rest] at hx
  rcases hx with rfl | mem
  · exact Criteria.metJudged hit broken
  · exact clear ⟨find,only,x,(List.mem_filter.mp mem).1,broken⟩

variable {id : ItemId} (named : r.id = some id) (complete : ∀ x ∈ before, x.id.isSome)
include named complete

omit [PatternEngine] in
theorem Positioned.listed : ∀ x ∈ lasting after, x.id.isSome := by
  obtain ⟨front,back,stand,rest,-⟩ := positioned.stands
  intro x hx
  rw [stand,List.mem_append,List.mem_cons,or_left_comm,← List.mem_append,rest] at hx
  rcases hx with rfl | mem
  · rw [named]; rfl
  · exact complete x (List.mem_filter.mp (List.mem_filter.mp mem).1).1

omit [PatternEngine] in
theorem Positioned.still (distinct : (ids after).Nodup) :
    reposition (handles (lasting after)) [.existing id] position = [] := by
  have listed := positioned.listed named complete
  have once := lastingDistinct distinct
  obtain ⟨front,back,stand,-,size⟩ := positioned.stands
  have split : lasting after = front ++ [r] ++ back := by rw [stand]; simp
  rw [split] at listed once ⊢
  have block : handles [r] = [ItemRef.existing id] := handlesCons named []
  refine (repositionSettled once listed (List.nodup_singleton _) ?_ rfl size).mpr block.symm
  rw [handlesAppend,handlesAppend,block]
  simp

end Again

section Planned
variable {f : Facility} {within : Option Nat → Error → Error} {find : Criteria} {set : Assignments}
  {position : Nat} {missing : Missing} {d : Replica} {r : Record} {id : ItemId}

theorem ensureSettled [PatternEngine] (concrete : find.Concrete) (several : f.shape ≠ .singleton)
    (items : d.HasItems f.path) (clear : ¬Clash [find] (d.records f.path))
    (only : (lasting (d.records f.path)).filter (meets find) = [r])
    (named : r.id = some id) (complete : ∀ x ∈ lasting (d.records f.path), x.id.isSome)
    (settled : differing set r = .ok ∅)
    (still : reposition (handles (lasting (d.records f.path))) [.existing id] position = []) :
    ensure f within [find] set (some position) missing d = (.ok [],d) := by
  have found := findClear concrete.judgeable.legible several items clear
  rw [selectedLasting,only] at found
  have quiet : modifyAll set [r] = .ok [] :=
    modifyAllCons.mpr ⟨∅,settled,[],rfl,.inl ⟨rfl,rfl⟩⟩
  have moved : moveFirst f [r] (some position) d = (.ok [],d) := by
    rw [moveFirst,bindAfter (liftOk.mpr ⟨by rw [idOf,named],rfl⟩),
      bindAfter (snapshotThere several items),bindAfter (liftOk.mpr ⟨refsThere complete,rfl⟩),still]
    rfl
  have brought : ensureFound f find [r] set (some position) d = (.ok [],d) := by
    rw [ensureFound,if_neg (by simp),bindAfter (liftOk.mpr ⟨quiet,rfl⟩),bindAfter moved]
    rfl
  have one : ensureOne f set (some position) missing find d = (.ok [],d) := by
    simp only [ensureOne,concrete.notSplit]
    rw [bindAfter found]
    exact brought
  rw [ensure,ensureEach,bindAfter (mapErrorOk.mpr one)]
  rfl

theorem moveLegible [PatternEngine] {d' : Replica} {operations : List Operation} (notRaw : find.hasRaw = false)
    (h : moveOnly f find position missing d = (.ok operations,d')) :
    find.Legible ∧ ¬Clash [find] (lasting (d.records f.path)) := by
  obtain ⟨records,_,places,_,read,picked,-⟩ := moveOnlyEnds h
  obtain ⟨-,-,rfl,rfl⟩ := snapshotOk read
  obtain ⟨s,_,sought,-⟩ := bindOk.mp picked
  have legible : find.Legible := ⟨⟨s,(liftOk.mp sought).1⟩,notRaw⟩
  refine ⟨legible,fun clash => ?_⟩
  rw [selectClash legible clash] at picked
  cases picked

theorem moveSettled [PatternEngine] {front back : List Record} (several : f.shape ≠ .singleton)
    (items : d.HasItems f.path) (stand : lasting (d.records f.path) = front ++ r :: back)
    (hit : meets find r = true) (missed : ∀ x ∈ front ++ back, meets find x = false)
    (legible : find.Legible) (clear : ¬Clash [find] (lasting (d.records f.path)))
    (named : r.id = some id) (complete : ∀ x ∈ lasting (d.records f.path), x.id.isSome)
    (still : reposition (handles (lasting (d.records f.path))) [.existing id] position = []) :
    moveOnly f find position missing d = (.ok [],d) := by
  have none : ∀ index part, part ⊆ front ++ back → placesWhere (meets find) index part = [] := by
    intro index part inside
    refine List.map_eq_nil_iff.mpr (List.filter_eq_nil_iff.mpr fun x hx => ?_)
    simp [missed x.1 (inside (List.fst_mem_of_mem_zipIdx hx))]
  have places : placesWhere (meets find) 0 (lasting (d.records f.path)) = [front.length] := by
    rw [stand,placesWhereAppend,placesWhereCons,if_pos hit,none 0 front (by simp),
      none (front.length + 1) back (by simp)]
    rfl
  have picked : select f (lasting (d.records f.path)) find d = (.ok [front.length],d) := by
    rw [selectClear legible clear,← places,placesWhereCongr 0 fun x hx => ?_]
    rw [selects,aliveOfLasting hx,Bool.not_false,Bool.and_true]
  have item : (handles (lasting (d.records f.path)))[front.length]? = some (.existing id) := by
    have size : (handles front).length = front.length :=
      handlesLength fun x hx => complete x (by rw [stand]; simp [hx])
    rw [stand,handlesAppend,handlesCons named,← size,List.getElem?_append_right (Nat.le_refl _),
      Nat.sub_self]
    rfl
  rw [moveOnly,bindAfter (snapshotThere several items),bindAfter picked]
  simp only
  rw [bindAfter (liftOk.mpr ⟨refsThere complete,rfl⟩)]
  simp only [item,still]
  rfl

theorem Positions.again [PatternEngine] {path : FacilityPath} {mode : Mode} {before : Replica} {first : Plan}
    {before' : Replica} (positions : Positions find position missing set mode)
    (planned : planMode ⟨path,mode.shape⟩ within mode before = (.ok first,before'))
    (known : missing = .ignore → ∃ r ∈ lasting (before.records path), meets find r = true)
    (items : d.HasItems path) (complete : ∀ x ∈ before.records path, x.id.isSome)
    (placed : Placed (before.records path) (d.records path) find set position r) (named : r.id = some id) :
    planMode ⟨path,mode.shape⟩ within mode d = (.ok (.ofOperations ⟨path,mode.shape⟩ []),d) := by
  have several := positions.several
  have positioned := placed.positioned
  obtain ⟨front,back,stand,missed,only⟩ := positioned.only placed.subject placed.hit
  have listed := positioned.listed named complete
  have still := positioned.still named complete placed.distinct
  cases positions with
  | ensure concrete =>
    have legible := concrete.judgeable.legible
    obtain ⟨-,-,clear,-⟩ := ensurePlacing concrete known (writingOk planned).1
    have clear := positioned.clear placed.hit ((clashLasting legible).not.mp clear)
    exact writingDone (ensureSettled concrete several items ((clashLasting legible).not.mpr clear) only named
      listed placed.settled still)
  | move =>
    obtain ⟨legible,clear⟩ := moveLegible (meetsNotRaw placed.hit) (writingOk planned).1
    exact writingDone (moveSettled several items stand placed.hit missed legible
      (positioned.clear placed.hit clear) named listed still)

end Planned

theorem positionSettles [PatternEngine] {τ : Type} [FileTransfer Replica τ] {options : RunOptions}
    {path : FacilityPath} {find : Criteria} {position : Nat} {missing : Missing} {set : Assignments}
    {mode : Mode} {s s' : Session Replica τ} {outcome : Outcome}
    (positions : Positions find position missing set mode) (sound : s.device.Sound)
    (identified : s.device.Identified)
    (known : missing = .ignore → ∃ r ∈ lasting (s.device.records path), meets find r = true)
    (live : options.dryRun = false)
    (ran : Session.runTask options (.facility ⟨path,mode⟩) s = (.ok outcome,s'))
    (succeeded : outcome.failed = false) (word : s'.device.nextId ≤ maxWord64) :
    ∃ r, Subject (s.device.records path) find set r ∧
      Positioned (s.device.records path) (s'.device.records path) r position ∧
      FacilityTask.plan ⟨path,mode⟩ s'.device =
        (.ok (.ofOperations ⟨path,mode.shape⟩ []),s'.device) := by
  obtain ⟨plan,planned,⟨added,reached⟩,away⟩ := Session.liveRun live positions.several ran succeeded
  have first := mapErrorOk.mp planned
  have distinct := sound.records path
  obtain ⟨items,placing⟩ := positions.placing distinct known first
  have complete := identified.records items
  obtain ⟨r,placed⟩ := placing.arranges positions.lasts positions.apart distinct complete word
    (fun n lower upper => sound.unused items lower upper) reached
  obtain ⟨id,named⟩ := Option.isSome_iff_exists.mp placed.identified
  exact ⟨r,placed.subject,placed.positioned,mapErrorOk.mpr (positions.again first known (away.items items)
    complete placed named)⟩

def remark : Assignments := Entries.ofList [("comment",.value (.str "uplink"))]

open scoped Pattern

theorem positionSettlesPools :
    (∃ outcome after, poolRun (.move (poolLine "lan") 1 .ignore) = (.ok outcome,after) ∧
      outcome.failed = false ∧
      ∃ r, Subject (pools.records ⟨"/ip pool"⟩) (poolLine "lan") ∅ r ∧
        Positioned (pools.records ⟨"/ip pool"⟩) (after.device.records ⟨"/ip pool"⟩) r 1 ∧
        FacilityTask.plan ⟨⟨"/ip pool"⟩,.move (poolLine "lan") 1 .ignore⟩ after.device =
          (.ok (.ofOperations ⟨⟨"/ip pool"⟩,.ordered⟩ []),after.device)) ∧
    ∃ outcome after, poolRun (.ensure [poolLine "wan"] remark (some 2) .add) = (.ok outcome,after) ∧
      outcome.failed = false ∧
      ∃ r, Subject (pools.records ⟨"/ip pool"⟩) (poolLine "wan") remark r ∧
        Positioned (pools.records ⟨"/ip pool"⟩) (after.device.records ⟨"/ip pool"⟩) r 2 ∧
        FacilityTask.plan ⟨⟨"/ip pool"⟩,.ensure [poolLine "wan"] remark (some 2) .add⟩ after.device =
          (.ok (.ofOperations ⟨⟨"/ip pool"⟩,.ordered⟩ []),after.device) := by
  have identified : pools.Identified := .ofEntries fun path rs mem => by
    cases List.mem_singleton.mp mem
    decide
  have known : ∃ r ∈ lasting (pools.records ⟨"/ip pool"⟩), meets (poolLine "lan") r = true := by
    decide +kernel
  have apart : ∀ key, ((poolLine "wan").get? key).isSome → remark.get? key = none := by
    intro key has
    rw [Option.isSome_iff_exists] at has
    obtain ⟨c,there⟩ := has
    cases List.mem_singleton.mp (Entries.getMem.mp there)
    rfl
  constructor
  · obtain ⟨outcome,after,ran,succeeded,word⟩ :=
      poolRan (.move (poolLine "lan") 1 .ignore) (by decide +kernel)
    exact ⟨outcome,after,ran,succeeded,
      positionSettles .move poolsSound identified (fun _ => known) rfl ran succeeded word⟩
  · obtain ⟨outcome,after,ran,succeeded,word⟩ :=
      poolRan (.ensure [poolLine "wan"] remark (some 2) .add) (by decide +kernel)
    exact ⟨outcome,after,ran,succeeded,
      positionSettles (.ensure (poolLinePlain _).concrete apart rfl) poolsSound identified
        (fun ignoring => by cases ignoring) rfl ran succeeded word⟩

end RouterReconciler

import RouterReconciler.Proofs.Reconcile.Matches
import RouterReconciler.Proofs.Reconcile.Plain

/-! Tasks for everything that matches one of their targets. Every target is looked up on the records as they
are before anything is written, so targets may overlap and repeat each other; a record that several of them
mean is written once. -/
namespace RouterReconciler.Reconcile
open Replica Step

def targeted (means : Criteria → Record → Bool) (rs : List Record) (seen : List ItemId)
    (targets : List Criteria) : List ItemId :=
  targets.foldl (fun seen target => appendIds seen ((rs.filter (means target)).filterMap Record.id)) seen

section Targeted
variable {means : Criteria → Record → Bool} {rs : List Record} {seen : List ItemId} {targets : List Criteria}

theorem memTargeted {id : ItemId} : id ∈ targeted means rs seen targets ↔
    id ∈ seen ∨ ∃ r ∈ rs, r.id = some id ∧ targets.any (means · r) = true := by
  induction targets generalizing seen with
  | nil => simp [targeted]
  | cons target rest ih =>
    rw [targeted,List.foldl_cons,← targeted,ih,memAppendIds,or_assoc]
    refine or_congr_right ?_
    simp only [List.mem_filterMap,List.mem_filter,List.any_cons,Bool.or_eq_true]
    constructor
    · rintro (⟨r,⟨hr,hit⟩,named⟩ | ⟨r,hr,named,later⟩)
      · exact ⟨r,hr,named,.inl hit⟩
      · exact ⟨r,hr,named,.inr later⟩
    · rintro ⟨r,hr,named,hit | later⟩
      · exact .inl ⟨r,⟨hr,hit⟩,named⟩
      · exact .inr ⟨r,hr,named,later⟩

theorem targetedOnce (once : seen.Nodup) : (targeted means rs seen targets).Nodup := by
  induction targets generalizing seen with
  | nil => exact once
  | cons target rest ih => exact ih (appendIdsDistinct once)

theorem targetedMeans (distinct : (ids rs).Nodup) {r : Record} {id : ItemId} (hr : r ∈ rs)
    (named : r.id = some id) : id ∈ targeted means rs [] targets ↔ targets.any (means · r) = true := by
  rw [memTargeted]
  constructor
  · rintro (old | ⟨x,hx,same,meant⟩)
    · cases old
    · cases sameRecord distinct hx hr (same.trans named.symm)
      exact meant
  · exact fun meant => .inr ⟨r,hr,named,meant⟩

end Targeted

theorem idsOfNamed {rs : List Record} (named : ∀ r ∈ rs, r.id.isSome) :
    idsOf rs = .ok (rs.filterMap Record.id) := by
  induction rs with
  | nil => rfl
  | cons r rest ih =>
    obtain ⟨here,others⟩ := List.forall_mem_cons.mp named
    obtain ⟨id,own⟩ := Option.isSome_iff_exists.mp here
    refine exceptBindOk.mpr ⟨id,by rw [idOf,own],exceptBindOk.mpr ⟨_,ih others,?_⟩⟩
    rw [List.filterMap_cons,own]

variable [PatternEngine]

theorem removableJudged {c : Criteria} {s : Selector} (read : Selector.ofCriteria c = .ok s) (r : Record) :
    s.removable.matches? r = if isRemovable r then c.judges r else .ok false := by
  have same : s.removable.isSkipped r = !isRemovable r := by
    simp [isRemovable,Selector.isSkipped,Selector.removable,Selector.all]
  cases removable : isRemovable r with
  | false => simp [Selector.matches?,same,removable]
  | true =>
    have lasts : s.excludingDynamic.isSkipped r = false := by
      have plain := (plainSelector read).2
      have lasting := removableLasts removable
      simp_all [Selector.isSkipped,Selector.excludingDynamic]
    rw [Criteria.judges,read]
    simp only [Selector.matches?,same,removable,lasts,Bool.not_true,Bool.false_eq_true,if_false,if_true]
    rfl

def switches (enable : Bool) (target : Criteria) (r : Record) : Bool :=
  r.flag "disabled" == enable && selects target r

/-- The targets come to one that breaks off, each in front of it matching something. -/
def Untold (rs : List Record) (targets : List Criteria) : Prop := ∃ front target back,
  targets = front ++ target :: back ∧ (∀ early ∈ front, ∃ r ∈ rs, selects early r = true) ∧ Clash [target] rs

theorem untoldCons {rs : List Record} {target : Criteria} {rest : List Criteria} :
    Untold rs (target :: rest) ↔ Clash [target] rs ∨
      (∃ r ∈ rs, selects target r = true) ∧ Untold rs rest := by
  constructor
  · rintro ⟨front,c,back,same,hit,clash⟩
    cases front with
    | nil =>
      cases same
      exact .inl clash
    | cons early front =>
      cases same
      obtain ⟨first,later⟩ := List.forall_mem_cons.mp hit
      exact .inr ⟨first,front,c,back,rfl,later,clash⟩
  · rintro (clash | ⟨first,front,c,back,rfl,later,clash⟩)
    · exact ⟨[],target,rest,rfl,by simp,clash⟩
    · exact ⟨target :: front,c,back,rfl,List.forall_mem_cons.mpr ⟨first,later⟩,clash⟩

theorem Untold.clash {rs : List Record} {targets : List Criteria} (untold : Untold rs targets) :
    Clash targets rs := by
  obtain ⟨front,target,back,rfl,-,c,only,r,hr,broken⟩ := untold
  cases List.mem_singleton.mp only
  exact ⟨target,by simp,r,hr,broken⟩

section Planned
variable {f : Facility} {within : Option Nat → Error → Error} {d : Replica} {targets : List Criteria}
  (several : f.shape ≠ .singleton) (items : d.HasItems f.path)
include several items

theorem removableFound {target : Criteria} (legible : target.Legible)
    (clear : ¬Clash [target] ((d.records f.path).filter isRemovable)) :
    (liftM (Selector.ofCriteria target) >>= fun s => f.findIds s.removable : Inquiry Replica _) d =
      (.ok (((d.records f.path).filter (claimable target)).filterMap Record.id),d) := by
  obtain ⟨s,read⟩ := legible.readable
  have found : f.read s.removable d = (.ok ((d.records f.path).filter (claimable target)),d) := by
    refine readThere several items (selectWhere fun r hr => ?_)
    rw [removableJudged read,claimable]
    cases removable : isRemovable r with
    | false => simp
    | true =>
      have told : target.judges r = .ok (selects target r) := (legible.told r).resolve_right fun broken =>
        clear ⟨target,List.mem_singleton_self _,r,List.mem_filter.mpr ⟨hr,removable⟩,broken⟩
      rw [if_pos rfl,told,selects,removableLasts removable]
      rfl
  rw [bindAfter (liftOk.mpr ⟨read,rfl⟩),Facility.findIds,bindAfter found]
  rfl

theorem removableBreaks {target : Criteria} (legible : target.Legible)
    (clash : Clash [target] ((d.records f.path).filter isRemovable)) :
    (liftM (Selector.ofCriteria target) >>= fun s => f.findIds s.removable : Inquiry Replica _) d =
      (.error .brokenOff,d) := by
  obtain ⟨s,read⟩ := legible.readable
  obtain ⟨_,only,r,mem,broken⟩ := clash
  cases List.mem_singleton.mp only
  obtain ⟨hr,removable⟩ := List.mem_filter.mp mem
  have stopped : f.read s.removable d = (.error .brokenOff,d) := by
    refine readStops several items (selectEnd (fun x _ c ended => ?_) ⟨r,hr,.brokenOff,?_⟩)
    · rw [removableJudged read] at ended
      split at ended
      · rcases legible.told x with judged | judged <;> cases judged.symm.trans ended
        rfl
      · cases ended
    · rw [removableJudged read,if_pos removable,broken]
  rw [bindAfter (liftOk.mpr ⟨read,rfl⟩),Facility.findIds,bindFailed stopped]

theorem absentIdsLegible {index : Nat} {seen : List ItemId} (legible : ∀ target ∈ targets, target.Legible)
    (clear : ¬Clash targets ((d.records f.path).filter isRemovable)) :
    absentIds f within index seen targets d = (.ok (targeted claimable (d.records f.path) seen targets),d) := by
  induction targets generalizing index seen with
  | nil => rfl
  | cons target rest ih =>
    obtain ⟨here,others⟩ := List.forall_mem_cons.mp legible
    obtain ⟨apart,clear⟩ := not_or.mp (mt clashCons.mpr clear)
    rw [absentIds,bindAfter (mapErrorOk.mpr (removableFound several items here apart))]
    exact ih others clear

theorem absentIdsBreak {index : Nat} {seen : List ItemId} (legible : ∀ target ∈ targets, target.Legible)
    (clash : Clash targets ((d.records f.path).filter isRemovable)) :
    absentIds f within index seen targets d = (.error .brokenOff,d) := by
  induction targets generalizing index seen with
  | nil => obtain ⟨_,mem,-⟩ := clash; cases mem
  | cons target rest ih =>
    obtain ⟨here,others⟩ := List.forall_mem_cons.mp legible
    by_cases first : Clash [target] ((d.records f.path).filter isRemovable)
    · exact bindFailed (mapErrorError.mpr ⟨_,removableBreaks several items here first,rfl⟩) _
    · rw [absentIds,bindAfter (mapErrorOk.mpr (removableFound several items here first))]
      exact ih others ((clashCons.mp clash).resolve_left first)

theorem absentLegible (legible : ∀ target ∈ targets, target.Legible)
    (clear : ¬Clash targets ((d.records f.path).filter isRemovable)) : absent f within targets d =
    (.ok ((targeted claimable (d.records f.path) [] targets).map .remove),d) := by
  rw [absent,bindAfter (absentIdsLegible several items legible clear)]
  rfl

theorem absentBreaks (legible : ∀ target ∈ targets, target.Legible)
    (clash : Clash targets ((d.records f.path).filter isRemovable)) :
    absent f within targets d = (.error .brokenOff,d) :=
  bindFailed (absentIdsBreak several items legible clash) _

variable {enable : Bool}

theorem toggleTargetFound {target : Criteria} (legible : target.Legible)
    (named : ∀ r ∈ d.records f.path, r.id.isSome) (clear : ¬Clash [target] (d.records f.path))
    (hit : ∃ r ∈ d.records f.path, selects target r = true) : toggleTarget f enable target d =
      (.ok (((d.records f.path).filter (switches enable target)).filterMap Record.id),d) := by
  obtain ⟨r,hr,hit⟩ := hit
  have some : ((d.records f.path).filter (selects target)).isEmpty = false :=
    List.isEmpty_eq_false_iff_exists_mem.mpr ⟨r,List.mem_filter.mpr ⟨hr,hit⟩⟩
  have listed : idsOf ((d.records f.path).filter (switches enable target)) =
      .ok (((d.records f.path).filter (switches enable target)).filterMap Record.id) :=
    idsOfNamed fun r hr => named r (List.mem_filter.mp hr).1
  rw [toggleTarget,bindAfter (findClear legible several items clear),some,List.filter_filter]
  exact liftOk.mpr ⟨listed,rfl⟩

theorem toggleTargetMissed {target : Criteria} (enable : Bool) (legible : target.Legible)
    (clear : ¬Clash [target] (d.records f.path)) (missed : ∀ r ∈ d.records f.path, selects target r = false) :
    toggleTarget f enable target d = (.error (.failed (.notFound target.text)),d) := by
  have none : (d.records f.path).filter (selects target) = [] :=
    List.filter_eq_nil_iff.mpr fun r hr => by simp [missed r hr]
  rw [toggleTarget,bindAfter (findClear legible several items clear),none]
  rfl

theorem toggleTargetBreaks {target : Criteria} (enable : Bool) (legible : target.Legible)
    (clash : Clash [target] (d.records f.path)) : toggleTarget f enable target d = (.error .brokenOff,d) :=
  bindFailed (findClash legible several items clash) _

theorem toggleIdsUntold {index : Nat} {seen : List ItemId} (legible : ∀ target ∈ targets, target.Legible)
    (named : ∀ r ∈ d.records f.path, r.id.isSome) (untold : Untold (d.records f.path) targets) :
    toggleIds f within enable index seen targets d = (.error .brokenOff,d) := by
  induction targets generalizing index seen with
  | nil => obtain ⟨_ | _,_,_,same,-⟩ := untold <;> cases same
  | cons target rest ih =>
    obtain ⟨here,others⟩ := List.forall_mem_cons.mp legible
    by_cases clash : Clash [target] (d.records f.path)
    · exact bindFailed (mapErrorError.mpr ⟨_,toggleTargetBreaks several items enable here clash,rfl⟩) _
    · obtain ⟨hit,later⟩ := (untoldCons.mp untold).resolve_left clash
      rw [toggleIds,bindAfter (mapErrorOk.mpr (toggleTargetFound several items here named clash hit))]
      exact ih others later

theorem toggleIdsFound {index : Nat} {seen : List ItemId} (legible : ∀ target ∈ targets, target.Legible)
    (named : ∀ r ∈ d.records f.path, r.id.isSome) (told : ¬Untold (d.records f.path) targets)
    (hit : ∀ target ∈ targets, ∃ r ∈ d.records f.path, selects target r = true) :
    toggleIds f within enable index seen targets d =
      (.ok (targeted (switches enable) (d.records f.path) seen targets),d) := by
  induction targets generalizing index seen with
  | nil => rfl
  | cons target rest ih =>
    obtain ⟨here,others⟩ := List.forall_mem_cons.mp legible
    obtain ⟨first,later⟩ := List.forall_mem_cons.mp hit
    obtain ⟨clear,told⟩ := not_or.mp (mt untoldCons.mpr told)
    rw [toggleIds,bindAfter (mapErrorOk.mpr (toggleTargetFound several items here named clear first))]
    exact ih others (fun untold => told ⟨first,untold⟩) later

theorem toggleLegible (legible : ∀ target ∈ targets, target.Legible)
    (named : ∀ r ∈ d.records f.path, r.id.isSome) (told : ¬Untold (d.records f.path) targets)
    (hit : ∀ target ∈ targets, ∃ r ∈ d.records f.path, selects target r = true) :
    toggle f within targets enable d = (.ok ((targeted (switches enable) (d.records f.path) [] targets).map
      (if enable then Operation.enable else .disable)),d) := by
  rw [toggle,bindAfter (toggleIdsFound several items legible named told hit)]
  rfl

theorem toggleBreaks (legible : ∀ target ∈ targets, target.Legible)
    (named : ∀ r ∈ d.records f.path, r.id.isSome) (untold : Untold (d.records f.path) targets) :
    toggle f within targets enable d = (.error .brokenOff,d) :=
  bindFailed (toggleIdsUntold several items legible named untold) _

theorem toggleIdsMissed (within : Option Nat → Error → Error) (enable : Bool) (index : Nat) (seen : List ItemId)
    (legible : ∀ target ∈ targets, target.Legible)
    (named : ∀ r ∈ d.records f.path, r.id.isSome) (told : ¬Untold (d.records f.path) targets)
    (missed : ∃ target ∈ targets, ∀ r ∈ d.records f.path, selects target r = false) :
    ∃ i target, targets[i]? = some target ∧ (∀ r ∈ d.records f.path, selects target r = false) ∧
      toggleIds f within enable index seen targets d =
        (.error (.failed (within (some (index + i)) (.notFound target.text))),d) := by
  induction targets generalizing index seen with
  | nil =>
    obtain ⟨_,mem,-⟩ := missed
    cases mem
  | cons target rest ih =>
    obtain ⟨here,others⟩ := List.forall_mem_cons.mp legible
    obtain ⟨clear,told⟩ := not_or.mp (mt untoldCons.mpr told)
    by_cases first : ∃ r ∈ d.records f.path, selects target r = true
    · obtain ⟨other,mem,alone⟩ := missed
      have later : other ∈ rest := by
        rcases List.mem_cons.mp mem with rfl | later
        · obtain ⟨r,hr,hit⟩ := first
          cases (alone r hr).symm.trans hit
        · exact later
      obtain ⟨i,target,at_,unmatched,failed⟩ :=
        ih (index + 1) _ others (fun untold => told ⟨first,untold⟩) ⟨other,later,alone⟩
      refine ⟨i + 1,target,at_,unmatched,?_⟩
      rw [toggleIds,bindAfter (mapErrorOk.mpr (toggleTargetFound several items here named clear first)),failed,
        Nat.add_assoc,Nat.add_comm 1]
    · have unmatched : ∀ r ∈ d.records f.path, selects target r = false := fun r hr =>
        Bool.eq_false_of_not_eq_true fun hit => first ⟨r,hr,hit⟩
      refine ⟨0,target,rfl,unmatched,?_⟩
      have failed := toggleTargetMissed several items enable here clear unmatched
      rw [toggleIds,bindFailed (mapErrorError.mpr ⟨_,failed,rfl⟩)]
      rfl

theorem toggleMissed (within : Option Nat → Error → Error) (enable : Bool)
    (legible : ∀ target ∈ targets, target.Legible)
    (named : ∀ r ∈ d.records f.path, r.id.isSome) (told : ¬Untold (d.records f.path) targets)
    (missed : ∃ target ∈ targets, ∀ r ∈ d.records f.path, selects target r = false) :
    ∃ i target, targets[i]? = some target ∧ (∀ r ∈ d.records f.path, selects target r = false) ∧
      toggle f within targets enable d = (.error (.failed (within (some i) (.notFound target.text))),d) := by
  obtain ⟨i,target,at_,unmatched,failed⟩ :=
    toggleIdsMissed several items within enable 0 [] legible named told missed
  rw [Nat.zero_add] at failed
  exact ⟨i,target,at_,unmatched,bindFailed failed _⟩

end Planned
end RouterReconciler.Reconcile

import RouterReconciler.Proofs.Device.Edits
import RouterReconciler.Proofs.Reconcile.Targets
import RouterReconciler.Proofs.Run.Protected
import RouterReconciler.Proofs.Run.Through

/-! Removing what matches. A record that several targets mean is removed once, so no removal looks for a
record that is gone; what is left is the list without the matches that may be removed. -/
namespace RouterReconciler
open Replica Step Session Reconcile

section
variable [PatternEngine]

def doomed (targets : List Criteria) (r : Record) : Bool := isRemovable r && targets.any (meets · r)

theorem claimableDoomed (targets : List Criteria) (r : Record) :
    targets.any (claimable · r) = doomed targets r := by
  rw [doomed]
  induction targets with
  | nil => simp
  | cons target rest ih => rw [List.any_cons,ih,claimable,List.any_cons,Bool.and_comm,← Bool.and_or_distrib_left]

section
variable {path : FacilityPath} {targets : List Criteria} {d : Replica}

theorem planRemovals (legible : ∀ target ∈ targets, target.Legible) (items : d.HasItems path)
    (clear : ¬Clash targets ((d.records path).filter isRemovable)) :
    FacilityTask.plan ⟨path,.absent targets⟩ d = (.ok (.ofOperations ⟨path,.unordered⟩
      ((targeted claimable (d.records path) [] targets).map .remove)),d) :=
  mapErrorOk.mpr (writingDone (absentLegible nofun items legible clear))

theorem planRemovalsBreak (legible : ∀ target ∈ targets, target.Legible) (items : d.HasItems path)
    (clash : Clash targets ((d.records path).filter isRemovable)) :
    FacilityTask.plan ⟨path,.absent targets⟩ d = (.error .brokenOff,d) :=
  FacilityTask.planBreaks (writingEnds (absentBreaks (f := ⟨path,.unordered⟩) nofun items legible clash))

theorem targetedStay {rs : List Record} (distinct : (ids rs).Nodup) (named : ∀ r ∈ rs, r.id.isSome) :
    rs.filter (stays (targeted claimable rs [] targets)) = rs.filter fun r => !doomed targets r := by
  refine List.filter_congr fun r hr => ?_
  obtain ⟨id,own⟩ := Option.isSome_iff_exists.mp (named r hr)
  rw [stays,own,Option.any_some,← claimableDoomed,Bool.eq_iff_iff]
  simp only [Bool.not_eq_true',List.contains_eq_mem,decide_eq_false_iff_not,
    targetedMeans distinct hr own,Bool.not_eq_true]

end

/-- A task that removes can be planned wherever its patterns can be read and the facility has items, unless a
target has a value that cannot be compared with what a removable record holds, where it breaks off. A live run
into which no failure is injected removes the matches that may be removed, and touches nothing else; planned
again, the task has nothing to do. -/
theorem removesMatches {τ : Type} [FileTransfer Replica τ] {path : FacilityPath} {targets : List Criteria}
    {s : Session Replica τ} (legible : ∀ target ∈ targets, target.Legible) (items : s.device.HasItems path) :
    (Clash targets ((s.device.records path).filter isRemovable) →
      FacilityTask.plan ⟨path,.absent targets⟩ s.device = (.error .brokenOff,s.device)) ∧
    (¬Clash targets ((s.device.records path).filter isRemovable) →
      ∃ names : List ItemId, names.Nodup ∧ FacilityTask.plan ⟨path,.absent targets⟩ s.device =
        (.ok (.ofOperations ⟨path,.unordered⟩ (names.map .remove)),s.device) ∧
      ∀ (options : RunOptions) (answer : Except (Halt Empty) Outcome) (s' : Session Replica τ),
        options.dryRun = false → (ids (s.device.records path)).Nodup →
        (∀ r ∈ s.device.records path, r.id.isSome) → Unguarded s.device names.length →
        runTask options (.facility ⟨path,.absent targets⟩) s = (answer,s') →
        (∃ outcome, answer = .ok outcome ∧ outcome.failed = false) ∧
        s'.device.records path = (s.device.records path).filter (fun r => !doomed targets r) ∧
        (∀ other, other ≠ path.text → s'.device.facilities.get? other = s.device.facilities.get? other) ∧
        FacilityTask.plan ⟨path,.absent targets⟩ s'.device =
          (.ok (.ofOperations ⟨path,.unordered⟩ []),s'.device)) := by
  refine ⟨planRemovalsBreak legible items,fun clear => ?_⟩
  have planned := planRemovals legible items clear
  refine ⟨_,targetedOnce List.nodup_nil,planned,fun options answer s' live distinct named spared ran => ?_⟩
  obtain ⟨outcome,rfl⟩ := answeredRun (by simp [planned]) ran
  obtain ⟨rfl,went⟩ := runGoesThrough (t := ⟨path,.absent targets⟩) distinct nofun planned
    (by rwa [Plan.ofOperations,List.length_map]) (fun operation mem => by
      obtain ⟨id,-,rfl⟩ := List.mem_map.mp mem
      rfl) live ran
  obtain ⟨given,view⟩ := went.view
  have left : s'.device.records path = (s.device.records path).filter fun r => !doomed targets r :=
    (View.removalsRun distinct view).1.trans (targetedStay distinct named)
  have none : targeted claimable (s'.device.records path) [] targets = [] := by
    refine List.eq_nil_iff_forall_not_mem.mpr fun id mem => ?_
    obtain ⟨r,hr,-,meant⟩ := (memTargeted.mp mem).resolve_left List.not_mem_nil
    rw [left] at hr
    have spare := (List.mem_filter.mp hr).2
    rw [← claimableDoomed,meant] at spare
    cases spare
  -- What is left was there before, where nothing broke off.
  have still : ¬Clash targets ((s'.device.records path).filter isRemovable) := by
    rintro ⟨target,asked,r,mem,broken⟩
    rw [left] at mem
    obtain ⟨there,removable⟩ := List.mem_filter.mp mem
    exact clear ⟨target,asked,r,List.mem_filter.mpr ⟨(List.mem_filter.mp there).1,removable⟩,broken⟩
  refine ⟨⟨_,rfl,rfl⟩,left,went.elsewhere,?_⟩
  rw [planRemovals legible (went.items items) still,none]
  rfl

end

open scoped Pattern

def retired : FacilityTask := ⟨⟨"/ip pool"⟩,.absent [poolLine "old",∅]⟩

theorem removesMatchesPools : ∃ outcome after,
    runTask ⟨false,false⟩ (.facility retired) (⟨guardedPools,none,Files.empty,[]⟩ : Session Replica RemoteFiles) =
      (.ok outcome,after) ∧ outcome.failed = false ∧
    ids (after.device.records ⟨"/ip pool"⟩) = [some "*1",some "*2"] ∧
    retired.plan after.device = (.ok (.ofOperations ⟨⟨"/ip pool"⟩,.unordered⟩ []),after.device) := by
  have legible : ∀ target ∈ [poolLine "old",∅], target.Legible := by
    refine List.forall_mem_cons.mpr ⟨(poolLinePlain _).concrete.judgeable.legible,?_⟩
    exact List.forall_mem_singleton.mpr ⟨⟨_,rfl⟩,rfl⟩
  have clear : ¬Clash [poolLine "old",∅] ((guardedPools.records ⟨"/ip pool"⟩).filter isRemovable) := by
    decide +kernel
  obtain ⟨-,goes⟩ := removesMatches (τ := RemoteFiles) (s := ⟨guardedPools,none,Files.empty,[]⟩) legible
    guardedItems
  obtain ⟨names,-,planned,runs⟩ := goes clear
  have one : names.length = 1 := by
    have size : (retired.plan guardedPools).1.toOption.map (·.operations.length) = some 1 := by decide +kernel
    rw [show retired.plan guardedPools = _ from planned] at size
    simpa [Plan.ofOperations,Except.toOption] using size
  obtain ⟨answer,after,ran⟩ : ∃ answer after, runTask ⟨false,false⟩ (.facility retired)
      (⟨guardedPools,none,Files.empty,[]⟩ : Session Replica RemoteFiles) = (answer,after) :=
    ⟨_,_,(Prod.eta _).symm⟩
  have spared : Unguarded guardedPools names.length := by
    rw [one]
    unfold Unguarded
    decide
  obtain ⟨⟨outcome,rfl,succeeded⟩,left,-,again⟩ :=
    runs _ _ _ rfl (by decide +kernel) (by decide +kernel) spared ran
  refine ⟨outcome,after,ran,succeeded,?_,again⟩
  rw [left]
  decide +kernel

-- The time of the target cannot be compared with the name of the first pool.
theorem removalsBreakOff : clockLine.Legible ∧ clocks.HasItems ⟨"/ip pool"⟩ ∧
    (FacilityTask.plan ⟨⟨"/ip pool"⟩,.absent [clockLine]⟩ clocks).1 = .error .brokenOff :=
  ⟨⟨⟨_,rfl⟩,rfl⟩,.ofStored (by decide +kernel),by decide +kernel⟩

end RouterReconciler

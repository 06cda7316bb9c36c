import RouterReconciler.Proofs.Reconcile.Targets
import RouterReconciler.Proofs.Run.Protected
import RouterReconciler.Proofs.Run.Through
import RouterReconciler.Proofs.Run.Traces

/-! Enabling and disabling. All targets are looked up before the first write, so one that matches nothing
keeps the others from being written. A record that several targets match is written once, and not at all if
it is in the state that is asked for. -/
namespace RouterReconciler
open Replica Step Session Reconcile

structure Toggled [PatternEngine] (targets : List Criteria) (enable : Bool) (r r' : Record) : Prop where
  id : r'.id = r.id
  state : targets.any (selects · r) = true → r'.flag "disabled" = !enable
  others : ∀ key, key ≠ "disabled" → r'.get? key = r.get? key
  still : targets.any (selects · r) = false ∨ r.flag "disabled" = (!enable) → r' = r

section
variable {targets : List Criteria} {enable : Bool}

theorem switchesMeans [PatternEngine] (r : Record) :
    targets.any (switches enable · r) = (r.flag "disabled" == enable && targets.any (selects · r)) := by
  induction targets with
  | nil => simp
  | cons target rest ih => rw [List.any_cons,ih,switches,List.any_cons,Bool.and_or_distrib_left]

theorem toggleWrites (id : ItemId) :
    ((if enable then Operation.enable else .disable) id).writes? = some (id,toggled (!enable)) := by
  cases enable <;> rfl

theorem retouchedOnce {names : List ItemId} (once : names.Nodup) (r : Record) :
    retouched (names.map (if enable then Operation.enable else .disable)) r =
      if r.id ∈ names.map some then r.apply (toggled (!enable)) else r := by
  induction names generalizing r with
  | nil => rfl
  | cons id rest ih =>
    obtain ⟨out,later⟩ := List.nodup_cons.mp once
    have first : retouch r ((if enable then Operation.enable else .disable) id) =
        amend id (·.apply (toggled (!enable))) r := by
      rw [retouch,toggleWrites]
    rw [List.map_cons,retouched,List.foldl_cons,← retouched,first,ih later,amendId,List.map_cons]
    by_cases here : r.id = some id
    · simp [amend,here,out]
    · simp [amend,here]

theorem toggledState (r : Record) (disabled : Bool) :
    (r.apply (toggled disabled)).flag "disabled" = disabled := by
  rw [Record.flag,Record.getApply,toggledGet,if_pos rfl]
  cases disabled <;> rfl

theorem toggledOnly (r : Record) (disabled : Bool) {key : String} (other : key ≠ "disabled") :
    (r.apply (toggled disabled)).get? key = r.get? key := by
  rw [Record.getApply,toggledGet,if_neg other]

variable [PatternEngine]

theorem toggledEach {rs : List Record} (distinct : (ids rs).Nodup) {r : Record} (hr : r ∈ rs)
    (named : r.id.isSome) : Toggled targets enable r
      (if r.id ∈ (targeted (switches enable) rs [] targets).map some then r.apply (toggled (!enable)) else r) := by
  obtain ⟨id,own⟩ := Option.isSome_iff_exists.mp named
  have means : r.id ∈ (targeted (switches enable) rs [] targets).map some ↔
      r.flag "disabled" = enable ∧ targets.any (selects · r) = true := by
    rw [own,List.mem_map_of_injective (Option.some_injective _),targetedMeans distinct hr own,switchesMeans,
      Bool.and_eq_true,beq_iff_eq]
  split
  · rename_i written
    obtain ⟨was,hit⟩ := means.mp written
    refine ⟨r.idApply _,fun _ => toggledState r _,fun key => toggledOnly r _,fun still => ?_⟩
    rw [was,hit] at still
    simp at still
  · rename_i spared
    refine ⟨rfl,fun hit => ?_,fun _ _ => rfl,fun _ => rfl⟩
    exact Bool.eq_not_of_ne fun was => spared (means.mpr ⟨was,hit⟩)

section
variable {path : FacilityPath} {d : Replica} (legible : ∀ target ∈ targets, target.Legible)
  (items : d.HasItems path) (named : ∀ r ∈ d.records path, r.id.isSome)
include legible items named

theorem planToggles (enable : Bool) (told : ¬Untold (d.records path) targets)
    (hit : ∀ target ∈ targets, ∃ r ∈ d.records path, selects target r = true) :
    FacilityTask.plan ⟨path,.toggle targets enable⟩ d = (.ok (.ofOperations ⟨path,.unordered⟩
      ((targeted (switches enable) (d.records path) [] targets).map
        (if enable then Operation.enable else .disable))),d) :=
  mapErrorOk.mpr (writingDone (toggleLegible (f := ⟨path,.unordered⟩) nofun items legible named told hit))

theorem planMissed (enable : Bool) (told : ¬Untold (d.records path) targets)
    (missed : ∃ target ∈ targets, ∀ r ∈ d.records path, selects target r = false) :
    ∃ i target, targets[i]? = some target ∧ (∀ r ∈ d.records path, selects target r = false) ∧
      FacilityTask.plan ⟨path,.toggle targets enable⟩ d = (.error (.failed
        (.inTask path.text (Mode.toggle targets enable).name (some i) (.notFound target.text))),d) := by
  obtain ⟨i,target,at_,unmatched,failed⟩ := toggleMissed (f := ⟨path,.unordered⟩) nofun items
    (FacilityTask.within ⟨path,.toggle targets enable⟩) enable legible named told missed
  exact ⟨i,target,at_,unmatched,mapErrorError.mpr ⟨_,writingEnds failed,rfl⟩⟩

theorem planUntold (enable : Bool) (untold : Untold (d.records path) targets) :
    FacilityTask.plan ⟨path,.toggle targets enable⟩ d = (.error .brokenOff,d) :=
  FacilityTask.planBreaks (writingEnds (toggleBreaks (f := ⟨path,.unordered⟩) nofun items legible named untold))

end
end

/-- A task that enables or disables fails if one of its targets matches nothing, and then nothing is written.
Otherwise a live run into which no failure is injected writes each record at most once, leaves every match in
the state that is asked for, and changes nothing else. It breaks off, and writes nothing, where it comes to a
target with a value that cannot be compared with what a record holds. -/
theorem togglesMatches [PatternEngine] {τ : Type} [FileTransfer Replica τ] {path : FacilityPath}
    {targets : List Criteria} {enable : Bool} {s s' : Session Replica τ} {options : RunOptions}
    {answer : Except (Halt Empty) Outcome}
    (legible : ∀ target ∈ targets, target.Legible) (items : s.device.HasItems path)
    (distinct : (ids (s.device.records path)).Nodup) (named : ∀ r ∈ s.device.records path, r.id.isSome)
    (ran : runTask options (.facility ⟨path,.toggle targets enable⟩) s = (answer,s')) :
    (Untold (s.device.records path) targets → answer = .error .brokenOff ∧ s'.device = s.device) ∧
    (¬Untold (s.device.records path) targets → ∃ outcome, answer = .ok outcome ∧
      ((∃ target ∈ targets, ∀ r ∈ s.device.records path, selects target r = false) →
        ∃ i target, targets[i]? = some target ∧ (∀ r ∈ s.device.records path, selects target r = false) ∧
          outcome = .failure (.inTask path.text (Mode.toggle targets enable).name (some i)
            (.notFound target.text)) ∧ s'.device = s.device) ∧
      ((∀ target ∈ targets, ∃ r ∈ s.device.records path, selects target r = true) →
        ∃ names : List ItemId, names.Nodup ∧ FacilityTask.plan ⟨path,.toggle targets enable⟩ s.device =
          (.ok (.ofOperations ⟨path,.unordered⟩
            (names.map (if enable then Operation.enable else .disable))),s.device) ∧
        (options.dryRun = false → Unguarded s.device names.length →
          outcome.failed = false ∧ Entered names.length s.device s'.device ∧
          List.Forall₂ (Toggled targets enable) (s.device.records path) (s'.device.records path) ∧
          ∀ other, other ≠ path.text →
            s'.device.facilities.get? other = s.device.facilities.get? other))) := by
  constructor
  · intro untold
    have broken : runTask options (.facility ⟨path,.toggle targets enable⟩) s = _ :=
      brokenRun (planUntold legible items named enable untold)
    cases broken.symm.trans ran
    exact ⟨rfl,rfl⟩
  intro told
  have planning : (FacilityTask.plan ⟨path,.toggle targets enable⟩ s.device).1 ≠ .error .brokenOff := by
    by_cases hit : ∀ target ∈ targets, ∃ r ∈ s.device.records path, selects target r = true
    · rw [planToggles legible items named enable told hit]
      nofun
    · push Not at hit
      obtain ⟨target,mem,missed⟩ := hit
      obtain ⟨_,_,-,-,failed⟩ := planMissed legible items named enable told
        ⟨target,mem,fun r hr => Bool.eq_false_iff.mpr (missed r hr)⟩
      rw [failed]
      nofun
  obtain ⟨outcome,rfl⟩ := answeredRun planning ran
  refine ⟨outcome,rfl,fun missed => ?_,fun hit => ?_⟩
  · obtain ⟨i,target,at_,unmatched,failed⟩ := planMissed legible items named enable told missed
    exact ⟨i,target,at_,unmatched,unplannedRun failed ran⟩
  · have planned := planToggles legible items named enable told hit
    refine ⟨_,targetedOnce List.nodup_nil,planned,fun live spared => ?_⟩
    obtain ⟨rfl,went⟩ := runGoesThrough (t := ⟨path,.toggle targets enable⟩) distinct nofun planned
      (by rwa [Plan.ofOperations,List.length_map]) (fun operation mem => by
        obtain ⟨id,-,rfl⟩ := List.mem_map.mp mem
        cases enable <;> rfl) live ran
    obtain ⟨given,view⟩ := went.view
    have entered := went.entered
    rw [Plan.ofOperations,List.length_map] at entered
    have left := View.runInPlace distinct (fun operation mem => by
      obtain ⟨id,-,rfl⟩ := List.mem_map.mp mem
      rw [toggleWrites]
      rfl) view
    refine ⟨rfl,entered,?_,went.elsewhere⟩
    have left : s'.device.records path = (s.device.records path).map _ := left
    rw [left]
    refine List.forall₂_map_right_iff.mpr (List.forall₂_same.mpr fun r hr => ?_)
    rw [Plan.ofOperations,retouchedOnce (targetedOnce List.nodup_nil)]
    exact toggledEach distinct hr (named r hr)

open scoped Pattern

theorem togglesMatchesPools :
    (∃ outcome after, poolRun (.toggle [poolLine "lan",∅] false) = (.ok outcome,after) ∧ outcome.failed = false ∧
      List.Forall₂ (Toggled [poolLine "lan",∅] false) (pools.records ⟨"/ip pool"⟩)
        (after.device.records ⟨"/ip pool"⟩) ∧ after.device.writes = 2) ∧
    ∃ e after, poolRun (.toggle [poolLine "lan",poolLine "wan"] false) = (.ok (.failure e),after) ∧
      e.kind = .notFound ∧ after.device = pools := by
  have items : pools.HasItems ⟨"/ip pool"⟩ :=
    .ofStored (by decide +kernel)
  have named : ∀ r ∈ pools.records ⟨"/ip pool"⟩, r.id.isSome := by decide +kernel
  have ran (targets : List Criteria) : poolRun (.toggle targets false) =
    ((poolRun (.toggle targets false)).1,(poolRun (.toggle targets false)).2) := (Prod.eta _).symm
  have toggled (targets : List Criteria) (legible : ∀ target ∈ targets, target.Legible)
      (clear : ¬Clash targets (pools.records ⟨"/ip pool"⟩)) :=
    (togglesMatches (s := ⟨pools,none,Files.empty,[]⟩) legible items (poolsSound.records _) named
      (ran targets)).2 fun untold => clear untold.clash
  have named (name : String) : (poolLine name).Legible := (poolLinePlain _).concrete.judgeable.legible
  constructor
  · obtain ⟨outcome,done,-,found⟩ := toggled [poolLine "lan",∅]
      (List.forall_mem_cons.mpr ⟨named _,List.forall_mem_singleton.mpr ⟨⟨_,rfl⟩,rfl⟩⟩) (by decide +kernel)
    obtain ⟨names,-,-,run⟩ := found (by decide +kernel)
    obtain ⟨succeeded,entered,each,-⟩ := run rfl fun _ _ => nofun
    exact ⟨outcome,_,Prod.ext done rfl,succeeded,each,by decide +kernel⟩
  · obtain ⟨outcome,done,missed,-⟩ := toggled [poolLine "lan",poolLine "wan"]
      (List.forall_mem_cons.mpr ⟨named _,List.forall_mem_singleton.mpr (named _)⟩) (by decide +kernel)
    obtain ⟨i,target,-,-,rfl,same⟩ := missed ⟨poolLine "wan",by simp,by decide +kernel⟩
    exact ⟨_,_,Prod.ext done rfl,rfl,same⟩

-- The time of the target cannot be compared with the name of the first pool.
theorem togglesBreakOff : clockLine.Legible ∧ clocks.HasItems ⟨"/ip pool"⟩ ∧
    (FacilityTask.plan ⟨⟨"/ip pool"⟩,.toggle [clockLine] false⟩ clocks).1 = .error .brokenOff :=
  ⟨⟨⟨_,rfl⟩,rfl⟩,.ofStored (by decide +kernel),by decide +kernel⟩

end RouterReconciler

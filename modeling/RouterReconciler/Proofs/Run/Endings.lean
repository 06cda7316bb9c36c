import RouterReconciler.Proofs.Device.Journal
import RouterReconciler.Proofs.Run.Protected

/-! How applying a plan ends, whatever the plan is and wherever its operations come from. Either every
operation has been carried out, once and in order, or one of them failed: then the ones before it have
been carried out, it has changed no record itself, and the ones behind it were never begun. -/
namespace RouterReconciler
open Step Replica Session

section
variable {τ : Type}

theorem Session.Steps.entered {f : Facility} {index : Nat} {added given : AddedIds}
    {operations : List Operation} {s n : Session Replica τ}
    (steps : Steps f index added operations s n given) :
    Entered operations.length s.device n.device := by
  induction steps with
  | none => exact .refl _
  | @next index added operation rest s m n step given performed later ih =>
    obtain ⟨d,done,rfl⟩ := onDeviceEnds.mp performed
    rw [List.length_cons,Nat.add_comm]
    exact (performEnters f index added operation _ step _ done).trans ih

structure CarriedOut (p : Plan) (done : List Operation) (s n : Session Replica τ) (given : AddedIds) :
    Prop where
  alone : apply { p with operations := done } s = (.ok (),n)
  steps : Steps p.facility 0 [] done s n given
  seen : n.events = s.events ++ done.map (.performed p.facility.path)
  entered : Entered done.length s.device n.device

theorem CarriedOut.ofSteps {p : Plan} {done : List Operation} {s n : Session Replica τ}
    {given : AddedIds} (steps : Steps p.facility 0 [] done s n given) : CarriedOut p done s n given :=
  ⟨steps.applied,steps,steps.seen,steps.entered⟩

inductive ApplyEnding (p : Plan) (s : Session Replica τ) :
    Except Error Unit → Session Replica τ → Prop where
  | whole {s' given} (all : CarriedOut p p.operations s s' given) : ApplyEnding p s (.ok ()) s'
  | stopped {s'} (k : Nat) (last : Option Nat) (cause : Error) (done : List Operation)
      (failed : Operation) (rest : List Operation) (given : AddedIds) (n : Session Replica τ)
      (split : p.operations = done ++ failed :: rest) (size : done.length = k)
      (noneBefore : k = 0 → last = none) (oneBefore : ∀ m, k = m + 1 → last = some m)
      (before : CarriedOut p done s n given)
      (turn : perform p.facility k given failed n.device = (.error cause,s'.device))
      (records : ∀ path, s'.device.records path = n.device.records path)
      (seen : s'.events = n.events)
      (unread : ∀ others, apply { p with operations := done ++ failed :: others } s =
        (.error (.partialApply k last cause),s')) :
      ApplyEnding p s (.error (.partialApply k last cause)) s'

theorem applyEnds {p : Plan} {s s' : Session Replica τ} {answer : Except Error Unit}
    (h : apply p s = (answer,s')) : ApplyEnding p s answer s' := by
  rcases appliedTrace h with ⟨given,rfl,steps⟩ | ⟨done,failed,rest,given,n,cause,split,steps,stopped,rfl⟩
  · exact .whole (.ofSteps steps)
  · have unread := fun others => steps.stopped stopped others
    simp only [Nat.zero_add] at stopped unread ⊢
    obtain ⟨d,turn,rfl⟩ := onDeviceEnds.mp stopped
    refine .stopped done.length _ cause done failed rest given n split rfl (fun none => ?_)
      (fun m one => ?_) (.ofSteps steps) turn
      (performHarmless p.facility _ given failed _ _ _ turn).records rfl unread
    · rw [none]
      rfl
    · rw [one]
      rfl

end

/-- Applying a plan ends with everything carried out, or stops with an exact account of what was; and a
live run of a task, once it has a plan, comes to what applying this plan comes to. -/
theorem applyEndsExactly [PatternEngine] {τ : Type} [FileTransfer Replica τ] :
    (∀ (p : Plan) (s : Session Replica τ), ApplyEnding p s (apply p s).1 (apply p s).2) ∧
    ∀ (options : RunOptions) (t : FacilityTask) (s s' : Session Replica τ) (plan : Plan)
      (ended : Except (Halt Empty) Outcome), options.dryRun = false → (t.plan s.device).1 = .ok plan →
      runTask options (.facility t) s = (ended,s') →
      ∃ outcome answer n, ended = .ok outcome ∧
        ApplyEnding plan (s.observe (.started (.facility t))) answer n ∧ s'.device = n.device ∧
        (answer = .ok () → outcome.failed = false ∧ outcome.changed = plan.isChanged) ∧
        ∀ k last cause, answer = .error (.partialApply k last cause) →
          outcome.failed = true ∧ (outcome.changed = true ↔ 0 < k) ∧
          outcome.error = some (.inTask t.path.text t.mode.name none (.partialApply k last cause)) := by
  refine ⟨fun p s => applyEnds rfl,fun options t s s' plan ended live planned ran => ?_⟩
  obtain ⟨outcome,rfl⟩ := answeredRun (by rw [planned]; nofun) ran
  rcases facilityRun live ran with ⟨e,failed,-,-⟩ | ⟨other,answer,n,made,facility,applied,same,ended⟩
  · rw [failed] at planned
    cases planned
  rw [made] at planned
  cases planned
  refine ⟨outcome,answer,n,rfl,applyEnds (by rw [apply,facility]; exact applied),same,fun went => ?_,
    fun k last cause stopped => ?_⟩
  · subst went
    rw [ended]
    exact ⟨rfl,rfl⟩
  · subst stopped
    rw [ended]
    exact ⟨rfl,decide_eq_true_iff,rfl⟩

open scoped Pattern

theorem applyEndsGuarded : ∃ plan outcome after answer n,
    (FacilityTask.plan ⟨⟨"/ip pool"⟩,.replace [poolLine "new"] false 1⟩ guardedPools).1 = .ok plan ∧
    guardedRun = (.ok outcome,after) ∧ outcome.failed = true ∧ outcome.changed = true ∧
    ApplyEnding plan ((⟨guardedPools,none,Files.empty,[]⟩ : Session Replica RemoteFiles).observe
      (.started (.facility ⟨⟨"/ip pool"⟩,.replace [poolLine "new"] false 1⟩))) answer n ∧
    after.device = n.device := by
  let planned := FacilityTask.plan ⟨⟨"/ip pool"⟩,.replace [poolLine "new"] false 1⟩ guardedPools
  have size : planned.1.toOption.map (·.operations.length) = some 2 := by decide +kernel
  obtain ⟨plan,made,-⟩ := Option.map_eq_some_iff.mp size
  have made : planned.1 = .ok plan := by
    cases h : planned.1 <;> rw [h] at made <;> cases made
    rfl
  have checked : guardedRun.1.toOption.any (fun outcome => outcome.failed && outcome.changed) = true := by
    decide +kernel
  obtain ⟨outcome,after,ran,checked⟩ := runAnswers checked
  obtain ⟨failed,changed⟩ := Bool.and_eq_true_iff.mp checked
  obtain ⟨_,answer,n,-,ending,same,-⟩ := applyEndsExactly.2 _ _ _ _ _ _ rfl made ran
  exact ⟨plan,outcome,after,answer,n,made,ran,failed,changed,ending,same⟩

end RouterReconciler

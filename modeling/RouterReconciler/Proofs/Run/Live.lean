import RouterReconciler.Device.Rehearsal
import RouterReconciler.Pattern.Engine
import RouterReconciler.Proofs.Device.Ids
import RouterReconciler.Proofs.Reconcile.Quiet
import RouterReconciler.Run.Tasks

/-! Live runs of a facility task on a replica. A run that succeeds has a plan, made from the replica
as it was, and carries out the operations of the plan to the last. -/
namespace RouterReconciler
open Step Session

def Mode.reads : Mode → Bool
  | .findOnly .. | .count .. | .check .. | .extract .. => true
  | _ => false

namespace Reconcile

theorem writingOk {σ : Type} {f : Facility} {operations : Inquiry σ (List Operation)} {d d' : σ}
    {plan : Plan} (h : writing f operations d = (.ok plan,d')) :
    operations d = (.ok plan.operations,d') ∧ plan = .ofOperations f plan.operations := by
  simp only [writing,bindOk,pureOk] at h
  obtain ⟨found,_,planned,rfl,rfl⟩ := h
  exact ⟨planned,rfl⟩

theorem writingDone {σ : Type} {f : Facility} {operations : Inquiry σ (List Operation)} {d d' : σ}
    {planned : List Operation} (h : operations d = (.ok planned,d')) :
    writing f operations d = (.ok (.ofOperations f planned),d') := by
  rw [writing,bindAfter h]
  rfl

theorem writingEnds {σ : Type} {f : Facility} {operations : Inquiry σ (List Operation)} {d d' : σ}
    {e : Halt Error} (h : operations d = (.error e,d')) : writing f operations d = (.error e,d') :=
  bindFailed h _

theorem planReads {σ : Type} [Device σ] [PatternEngine] {f : Facility} {within : Option Nat → Error → Error}
    {mode : Mode} {d d' : σ} {plan : Plan} (reads : mode.reads = true)
    (h : planMode f within mode d = (.ok plan,d')) : plan.facility = f ∧ plan.operations = [] := by
  cases mode with
  | findOnly targets position | count criteria | check lines ordered position | extract e =>
    simp only [planMode,bindOk,pureOk] at h
    obtain ⟨_,_,-,rfl,-⟩ := h
    exact ⟨rfl,rfl⟩
  | _ => cases reads

theorem planFacility {σ : Type} [Device σ] [PatternEngine] {f : Facility} {within : Option Nat → Error → Error}
    {mode : Mode} {d d' : σ} {plan : Plan} (h : planMode f within mode d = (.ok plan,d')) :
    plan.facility = f := by
  cases mode with
  | findOnly targets position | count criteria | check lines ordered position | extract e =>
    exact (planReads rfl h).1
  | _ =>
    have same := (writingOk h).2
    rw [same]
    rfl

end Reconcile

theorem FacilityTask.planBreaks {σ : Type} [Device σ] [PatternEngine] {t : FacilityTask} {d d' : σ}
    (h : Reconcile.planMode t.facility t.within t.mode d = (.error .brokenOff,d')) :
    t.plan d = (.error .brokenOff,d') :=
  mapErrorError.mpr ⟨.brokenOff,h,rfl⟩

namespace Session
variable {τ : Type} [PatternEngine]

theorem plannedRun {options : RunOptions} {t : FacilityTask} {s n : Session Replica τ} {plan : Plan}
    {answer : Except Error Unit} (live : options.dryRun = false)
    (planned : onDevice t.plan s = (.ok plan,s)) (facility : plan.facility = t.facility)
    (applied : applyFrom t.facility 0 [] plan.operations s = (answer,n)) :
    runFacility options t s =
      ((answer.mapError fun e => .failed (.inTask t.path.text t.mode.name none e)).map fun _ =>
        ⟨plan.isChanged,false,plan.returnValues,none⟩,n) := by
  have wrote : (apply plan : Access (Session Replica τ) Unit) s = (answer,n) := by
    rw [apply,facility]; exact applied
  have rest : runFacility options t s =
      (if !plan.operations.isEmpty then
        (apply plan).mapError (fun e => .failed (.inTask t.path.text t.mode.name none e)) >>= fun _ =>
          (pure ⟨plan.isChanged,false,plan.returnValues,none⟩ : Inquiry (Session Replica τ) Outcome)
      else pure ⟨plan.isChanged,false,plan.returnValues,none⟩) s := by
    rw [runFacility,bindAfter planned,live]
    rfl
  rw [rest]
  cases hops : plan.operations with
  | nil =>
    rw [hops] at applied
    cases applied
    rfl
  | cons operation others =>
    rw [List.isEmpty_cons,Bool.not_false,if_pos rfl]
    cases answer with
    | ok done => exact bindAfter (mapErrorOk.mpr wrote) _
    | error e => exact bindFailed (mapErrorError.mpr ⟨e,wrote,rfl⟩) _

variable [FileTransfer Replica τ]

theorem facilityRun {options : RunOptions} {t : FacilityTask} {s s' : Session Replica τ}
    {outcome : Outcome} (live : options.dryRun = false)
    (h : runTask options (.facility t) s = (.ok outcome,s')) :
    (∃ e, t.plan s.device = (.error (.failed e),s.device) ∧ outcome = .failure e ∧ s'.device = s.device) ∨
    ∃ plan answer n, t.plan s.device = (.ok plan,s.device) ∧ plan.facility = t.facility ∧
      applyFrom t.facility 0 [] plan.operations (s.observe (.started (.facility t))) = (answer,n) ∧
      s'.device = n.device ∧
      match answer with
      | .ok () => outcome = ⟨plan.isChanged,false,plan.returnValues,none⟩
      | .error e => outcome = .failure (.inTask t.path.text t.mode.name none e) := by
  have device : (s.observe (.started (.facility t))).device = s.device := rfl
  generalize hb : s.observe (.started (.facility t)) = begun at device ⊢
  obtain ⟨planning,d,planned⟩ : ∃ planning d, t.plan begun.device = (planning,d) := ⟨_,_,rfl⟩
  cases (planQuiet t begun.device).state planned
  have quiet : onDevice t.plan begun = (planning,begun) := onDeviceEnds.mpr ⟨_,planned,rfl⟩
  simp only [runTask,execute,hb] at h
  cases planning with
  | error e =>
    rw [runFacility,bindFailed quiet] at h
    cases e with
    | brokenOff => cases h
    | failed e =>
      cases h
      exact .inl ⟨e,device ▸ planned,rfl,device⟩
  | ok plan =>
    have facility : plan.facility = t.facility := Reconcile.planFacility (mapErrorOk.mp planned)
    obtain ⟨answer,m,applied⟩ : ∃ answer m,
      applyFrom t.facility 0 [] plan.operations begun = (answer,m) := ⟨_,_,rfl⟩
    refine .inr ⟨plan,answer,m,device ▸ planned,facility,applied,?_⟩
    rw [plannedRun live quiet facility applied] at h
    cases answer <;> cases h <;> exact ⟨rfl,rfl⟩

theorem unplannedRun {options : RunOptions} {t : FacilityTask} {s s' : Session Replica τ}
    {outcome : Outcome} {e : Error} (failed : t.plan s.device = (.error (.failed e),s.device))
    (h : runTask options (.facility t) s = (.ok outcome,s')) : outcome = .failure e ∧ s'.device = s.device := by
  have planned : onDevice t.plan (s.observe (.started (.facility t))) =
      (.error (.failed e),s.observe (.started (.facility t))) := by
    rw [onDevice,show (s.observe (.started (.facility t))).device = s.device from rfl,failed]
    rfl
  rw [runTask,execute,runFacility,bindFailed planned] at h
  cases h
  exact ⟨rfl,rfl⟩

theorem brokenRun {options : RunOptions} {t : FacilityTask} {s : Session Replica τ}
    (broken : t.plan s.device = (.error .brokenOff,s.device)) :
    runTask options (.facility t) s = (.error .brokenOff,s.observe (.started (.facility t))) := by
  have planned : onDevice t.plan (s.observe (.started (.facility t))) =
      (.error .brokenOff,s.observe (.started (.facility t))) := by
    rw [onDevice,show (s.observe (.started (.facility t))).device = s.device from rfl,broken]
    rfl
  rw [runTask,execute,runFacility,bindFailed planned]

theorem answeredRun {options : RunOptions} {t : FacilityTask} {s s' : Session Replica τ}
    {answer : Except (Halt Empty) Outcome} (told : (t.plan s.device).1 ≠ .error .brokenOff)
    (h : runTask options (.facility t) s = (answer,s')) : ∃ outcome, answer = .ok outcome := by
  obtain ⟨result,n,ran⟩ : ∃ result n, runFacility options t (s.observe (.started (.facility t))) = (result,n) :=
    ⟨_,_,rfl⟩
  simp only [runTask,execute,ran] at h
  cases result with
  | ok outcome => cases h; exact ⟨_,rfl⟩
  | error e =>
    cases e with
    | failed e => cases h; exact ⟨_,rfl⟩
    | brokenOff =>
      rcases bindError.mp ran with broken | ⟨plan,m,-,rest⟩
      · exact absurd (Prod.mk.inj broken).1 told
      · split at rest
        · rcases bindError.mp rest with broken | ⟨_,_,-,done⟩
          · obtain ⟨e,-,same⟩ := mapErrorError.mp broken
            cases same
          · cases done
        · cases rest

theorem liveRun {options : RunOptions} {t : FacilityTask} {s s' : Session Replica τ}
    {outcome : Outcome} (live : options.dryRun = false) (several : t.mode.shape ≠ .singleton)
    (h : runTask options (.facility t) s = (.ok outcome,s')) (succeeded : outcome.failed = false) :
    ∃ plan, t.plan s.device = (.ok plan,s.device) ∧
      (∃ added, (View.ofReplica s.device t.path []).run 0 plan.operations =
        some (View.ofReplica s'.device t.path added)) ∧
      Replica.Beside t.path s.device s'.device := by
  rcases facilityRun live h with ⟨e,-,rfl,-⟩ | ⟨plan,answer,n,planned,-,applied,last,ended⟩
  · cases succeeded
  · cases answer with
    | error e => cases ended; cases succeeded
    | ok done =>
      obtain ⟨reached,away⟩ := View.appliedView several applied
      rw [last]
      exact ⟨plan,planned,reached,away⟩

end Session

open scoped Pattern

def pool (id : ItemId) (name : String) : Record := ⟨some id,Entries.ofList [("name",.str name)]⟩

def pools : Replica :=
  ⟨Entries.ofList [("/ip pool",.items [pool "*1" "old",pool "*2" "lan"])],3,[],0,none⟩

def poolLine (name : String) : Criteria := Entries.ofList [("name",.literal (.str name))]

def clocks : Replica :=
  ⟨Entries.ofList [("/ip pool",.items [pool "*1" "é00:00:01",pool "*2" "1s"])],3,[],0,none⟩

def clockLine : Criteria := Entries.ofList [("name",.literal (.duration 1))]

def leaseLines : List Criteria :=
  [Entries.ofList [("lease-time",.literal (.duration 1))],
    Entries.ofList [("lease-time",.literal (.str "é00:00:01"))]]

def poolRun (mode : Mode) : Except (Halt Empty) Outcome × Session Replica RemoteFiles :=
  Session.runTask ⟨false,false⟩ (.facility ⟨⟨"/ip pool"⟩,mode⟩) ⟨pools,none,Files.empty,[]⟩

theorem runAnswers {σ α : Type} {run : Except (Halt Empty) α × σ} {p : α → Bool}
    (checked : run.1.toOption.any p = true) : ∃ outcome after, run = (.ok outcome,after) ∧ p outcome = true := by
  obtain ⟨answer,after⟩ := run
  cases answer with
  | error e => cases checked
  | ok outcome => exact ⟨outcome,after,rfl,checked⟩

theorem poolRan (mode : Mode) (checked : (poolRun mode).1.toOption.any (!·.failed) = true ∧
    (poolRun mode).2.device.nextId ≤ Text.maxWord64) :
    ∃ outcome after, poolRun mode = (.ok outcome,after) ∧ outcome.failed = false ∧
      after.device.nextId ≤ Text.maxWord64 := by
  obtain ⟨succeeded,few⟩ := checked
  obtain ⟨outcome,after,ran,unfailed⟩ := runAnswers succeeded
  rw [ran] at few
  exact ⟨outcome,after,ran,by simpa using unfailed,few⟩

theorem poolsSound : pools.Sound := by
  refine .ofEntries fun path rs mem => ?_
  cases List.mem_singleton.mp mem
  decide

end RouterReconciler

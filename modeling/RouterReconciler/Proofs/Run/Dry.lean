import RouterReconciler.Device.Rehearsal
import RouterReconciler.Proofs.Device.Scripts
import RouterReconciler.Proofs.Reconcile.Quiet
import RouterReconciler.Run.Tasks

/-! Dry runs. Every task of one ends before its first write: a plan is not applied, a command is not
sent, and a transfer stops when it has compared. So what the readings of the device and the downloads
keep, a dry run of any tasks keeps, up to the task at which it ends. -/
namespace RouterReconciler
open Step

namespace Session
variable {ε σ τ α : Type}

structure Untouched (I : σ → Prop) (J : Option τ → Prop) (files : Files) (s : Session σ τ) : Prop where
  device : I s.device
  transfer : J s.transfer
  disk : s.files = files

variable {I : σ → Prop} {J : Option τ → Prop} {files : Files}

theorem onDeviceKeeps {step : Step ε σ α} (h : Keeps I step) :
    Keeps (Untouched I J files) (onDevice step) :=
  fun s kept => ⟨h s.device kept.device,kept.transfer,kept.disk⟩

abbrev Unmoved (I : σ → Prop) (J : Option τ → Prop) (files : Files) (x : Exchange σ τ) : Prop :=
  I x.device ∧ J (some x.transfer) ∧ x.files = files

theorem onExchangeKeeps {what : String} {step : Access (Exchange σ τ) α}
    (h : Keeps (Unmoved I J files) step) : Keeps (Untouched I J files) (onExchange what step) := by
  intro s kept
  cases there : s.transfer with
  | none =>
    have same : (onExchange what step s).2 = s := by simp only [onExchange,there]
    rw [same]
    exact kept
  | some t =>
    obtain ⟨device,transfer,disk⟩ := h ⟨s.device,t,s.files⟩ ⟨kept.device,there ▸ kept.transfer,kept.disk⟩
    simp only [onExchange,there]
    exact ⟨device,transfer,disk⟩

theorem localCopyKeeps (path : String) :
    Keeps (Unmoved I J files) (Exchange.localCopy path : Access (Exchange σ τ) (Option String)) :=
  fun _ unmoved => unmoved

variable [FileTransfer σ τ]

def Downloads (I : σ → Prop) (J : Option τ → Prop) : Prop :=
  ∀ remote path,
    Keeps (fun s : σ × τ => I s.1 ∧ J (some s.2)) (FileTransfer.download remote path)

theorem stageKeeps (downloads : Downloads (τ := τ) I J) (remote : String) :
    Keeps (Unmoved I J files) (Exchange.stage remote : Access (Exchange σ τ) (Option String)) := by
  intro x ⟨device,transfer,disk⟩
  obtain ⟨read,copied⟩ := downloads remote Exchange.staging (x.device,x.transfer) ⟨device,transfer⟩
  exact ⟨read,copied,disk⟩

theorem remoteCopyKeeps (downloads : Downloads (τ := τ) I J) (remote : String) :
    Keeps (Unmoved I J files) (Exchange.remoteCopy remote : Access (Exchange σ τ) (Option String)) := by
  intro x unmoved
  have kept := stageKeeps downloads remote x unmoved
  unfold Exchange.remoteCopy
  cases staged : (Exchange.stage remote : Access (Exchange σ τ) _) x with
  | mk answer y =>
    rw [staged] at kept
    cases answer with
    | ok copy => exact kept
    | error e =>
      simp only
      split <;> exact kept

theorem putKeeps (downloads : Downloads (τ := τ) I J) (path remote : String) :
    Keeps (Unmoved I J files) (Exchange.put path remote false : Access (Exchange σ τ) Bool) := by
  refine .after (localCopyKeeps path) fun copy => ?_
  cases copy with
  | none => exact .fail _
  | some text =>
    refine .after (remoteCopyKeeps downloads remote) fun copy => ?_
    split
    · exact .pure _
    · exact .pure _

theorem fetchKeeps (downloads : Downloads (τ := τ) I J) (remote path : String) :
    Keeps (Unmoved I J files) (Exchange.fetch remote path false : Access (Exchange σ τ) _) := by
  refine .after (stageKeeps downloads remote) fun new => .after (localCopyKeeps path) fun old => ?_
  split
  · exact .pure _
  · exact .pure _

variable [Device σ] {known : Facility → Record → Prop}

theorem dryTask [PatternEngine] (reads : ∀ f, Reconcile.Readable f I (known f)) (downloads : Downloads (τ := τ) I J)
    (task : Task) : Keeps (Untouched I J files) (execute ⟨true,false⟩ task : Inquiry (Session σ τ) _) := by
  cases task with
  | facility t => exact .after (onDeviceKeeps (t.planKeeps (reads _))) fun plan => .pure _
  | command text => exact .pure _
  | put path remote =>
    exact .liftStep (.after (onExchangeKeeps (putKeeps downloads path remote)) fun _ => .pure _)
  | fetch remote path =>
    exact .liftStep (.after (onExchangeKeeps (fetchKeeps downloads remote path)) fun _ => .pure _)

theorem dryStep [PatternEngine] (reads : ∀ f, Reconcile.Readable f I (known f)) (downloads : Downloads (τ := τ) I J)
    (task : Task) : Keeps (Untouched I J files) (runTask ⟨true,false⟩ task : Unfailing (Session σ τ) _) := by
  intro s kept
  have after := dryTask reads downloads task (s.observe (.started task))
    ⟨kept.device,kept.transfer,kept.disk⟩
  unfold runTask
  cases ran : execute ⟨true,false⟩ task (s.observe (.started task)) with
  | mk answer m =>
    rw [ran] at after
    have later := fun event => (⟨after.device,after.transfer,after.disk⟩ : Untouched I J files (m.observe event))
    match answer with
    | .ok outcome => exact later _
    | .error (.failed e) => exact later _
    | .error .brokenOff => exact after

theorem dryRun [PatternEngine] (reads : ∀ f, Reconcile.Readable f I (known f)) (downloads : Downloads (τ := τ) I J)
    (stop : Nat → Bool) (tasks : List Task) (completed : Nat) (merged : Outcome) (tally : Tally) :
    Keeps (Untouched I J files)
      (runFrom ⟨true,false⟩ stop completed merged tally tasks : Unfailing (Session σ τ) _) := by
  induction tasks generalizing completed merged tally with
  | nil => exact .pure _
  | cons task rest ih =>
    unfold runFrom
    split
    · exact .pure _
    · refine .after (dryStep reads downloads task) fun outcome => ?_
      split
      · exact .pure _
      · exact ih _ _ _

end Session

theorem remoteDownloads {σ : Type} {I : σ → Prop} (held : Option (Entries RemoteFile)) :
    Session.Downloads (τ := RemoteFiles) I fun t => t.map RemoteFiles.files = held := by
  rintro remote path ⟨d,r⟩ ⟨device,files⟩
  show I d ∧ some (RemoteFiles.download remote r).2.files = held
  unfold RemoteFiles.download
  split <;> exact ⟨device,files⟩

-- Over a replica nothing is different afterwards. Over a console something may be, since the device
-- answers; but all that was sent are reading scripts.
theorem planningOnlyReads [PatternEngine] :
    (∀ (t : FacilityTask) (d : Replica), (t.plan d).2 = d) ∧
    (∀ stop tasks (s : Session Replica RemoteFiles),
      let after := (Session.runTasks ⟨true,false⟩ stop tasks s).2
      after.device = s.device ∧ after.files = s.files ∧
        after.transfer.map RemoteFiles.files = s.transfer.map RemoteFiles.files) ∧
    ∀ {τ : Type} [Transport τ],
      (∀ (t : FacilityTask) (c : Console τ), Console.OnlyRead c.transport (t.plan c).2.transport) ∧
      ∀ stop tasks (s : Session (Console τ) RemoteFiles),
        let after := (Session.runTasks ⟨true,false⟩ stop tasks s).2
        Console.OnlyRead s.device.transport after.device.transport ∧ after.files = s.files ∧
          after.transfer.map RemoteFiles.files = s.transfer.map RemoteFiles.files := by
  refine ⟨fun t d => planQuiet t d,fun stop tasks s => ?_,fun {τ} _ => ⟨fun t c => ?_,fun stop tasks s => ?_⟩⟩
  · have kept := Session.dryRun (fun f => Reconcile.readable f s.device)
      (remoteDownloads (s.transfer.map RemoteFiles.files)) stop tasks 0 .unchanged .zero
      s ⟨rfl,rfl,rfl⟩
    exact ⟨kept.device,kept.disk,kept.transfer⟩
  · exact t.planKeeps (Console.readable t.facility c.transport) c (.start _)
  · have kept := Session.dryRun (fun f => Console.readable f s.device.transport)
      (remoteDownloads (s.transfer.map RemoteFiles.files)) stop tasks 0 .unchanged .zero
      s ⟨.start _,rfl,rfl⟩
    exact ⟨kept.device,kept.disk,kept.transfer⟩

end RouterReconciler

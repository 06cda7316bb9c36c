import RouterReconciler.Proofs.Reconcile.Reads
import RouterReconciler.Proofs.Run.Stepwise
import RouterReconciler.Run.Tasks

/-! The moments of a run. Before a task, behind every single operation of its plan, and when it has
ended, by success or by failure, the device is in some state. What planning, each operation, each
command and each transfer keep of the device holds at every one of these moments. -/
namespace RouterReconciler.Session
variable {σ τ α : Type} {I : σ → Prop}

theorem onDeviceUpholds {ε : Type} {x : Step ε σ α} (h : Keeps I x) :
    Keeps (fun s : Session σ τ => I s.device) (onDevice x) := fun s => h s.device

theorem onExchangeUpholds {what : String} {x : Access (Exchange σ τ) α}
    (h : Keeps (fun x => I x.device) x) : Keeps (fun s : Session σ τ => I s.device) (onExchange what x) := by
  intro s holds
  unfold onExchange
  split
  · exact holds
  · exact h _ holds

theorem onFilesUpholds (x : Access Files α) :
    Keeps (fun e : Exchange σ τ => I e.device) (Exchange.onFiles x) := fun _ holds => holds

variable [Device σ]

theorem applyUpholds (performed : ∀ f index added operation,
      Keeps I (perform f index added operation : Access σ AddedIds)) (f : Facility) (index : Nat)
    (added : AddedIds) (operations : List Operation) :
    Keeps (fun s : Session σ τ => I s.device) (applyFrom f index added operations) := by
  induction operations generalizing index added with
  | nil => exact .pure _
  | cons operation rest ih =>
    refine .after (.mapError (onDeviceUpholds (performed f index added operation))) fun step => ?_
    exact .after (fun _ holds => holds) fun _ => ih (index + 1) step

variable [FileTransfer σ τ]

structure Upheld [PatternEngine] (τ : Type) [FileTransfer σ τ] (I : σ → Prop) : Prop where
  planned (t : FacilityTask) : Keeps I (t.plan : Inquiry σ Plan)
  performed (f : Facility) (index : Nat) (added : AddedIds) (operation : Operation) :
    Keeps I (perform f index added operation : Access σ AddedIds)
  commanded (text : String) : Keeps I (Device.run text : Access σ String)
  uploaded (path : String) (content : Option String) (remote : String) :
    Keeps (fun s : σ × τ => I s.1) (FileTransfer.upload path content remote)
  downloaded (remote path : String) : Keeps (fun s : σ × τ => I s.1) (FileTransfer.download remote path)

namespace Upheld
variable [PatternEngine] (upheld : Upheld τ I)
include upheld

theorem staged (remote : String) :
    Keeps (fun x : Exchange σ τ => I x.device) (Exchange.stage remote) :=
  fun x => upheld.downloaded remote Exchange.staging (x.device,x.transfer)

theorem copied (remote : String) :
    Keeps (fun x : Exchange σ τ => I x.device) (Exchange.remoteCopy remote) := by
  intro x holds
  have kept := upheld.staged remote x holds
  unfold Exchange.remoteCopy
  split
  · rename_i failed
    rw [failed] at kept
    split <;> exact kept
  · exact kept

theorem put (path remote : String) (apply : Bool) :
    Keeps (fun x : Exchange σ τ => I x.device) (Exchange.put path remote apply) := by
  refine .after (fun _ holds => holds) fun text => ?_
  split
  · exact .fail _
  · refine .after (upheld.copied remote) fun copy => ?_
    split
    · exact .pure _
    · split
      · exact .after (fun x => upheld.uploaded path _ remote (x.device,x.transfer)) fun _ => .pure _
      · exact .pure _

theorem fetch (remote path : String) (apply : Bool) :
    Keeps (fun x : Exchange σ τ => I x.device) (Exchange.fetch remote path apply) := by
  refine .after (upheld.staged remote) fun new => .after (fun _ holds => holds) fun old => ?_
  split
  · exact .pure _
  · split
    · exact .pure _
    · exact onFilesUpholds _

theorem executed (options : RunOptions) (task : Task) :
    Keeps (fun s : Session σ τ => I s.device) (execute options task) := by
  cases task with
  | facility t =>
    refine .after (onDeviceUpholds (upheld.planned t)) fun plan => ?_
    dsimp only
    split
    · exact .after (.mapError (applyUpholds upheld.performed _ _ _ _)) fun _ => .pure _
    · exact .pure _
  | command text =>
    refine .liftStep ?_
    unfold runCommand
    split
    · exact .pure _
    · exact .after (onDeviceUpholds (upheld.commanded text)) fun _ => .pure _
  | put path remote =>
    exact .liftStep (.after (onExchangeUpholds (upheld.put path remote _)) fun _ => .pure _)
  | fetch remote path =>
    exact .liftStep (.after (onExchangeUpholds (upheld.fetch remote path _)) fun _ => .pure _)

theorem ended (options : RunOptions) (task : Task) {s : Session σ τ} (holds : I s.device) :
    I (runTask options task s).2.device := by
  have after := upheld.executed options task (s.observe (.started task)) holds
  unfold runTask
  split <;> rename_i ran <;> rw [ran] at after <;> exact after

end Upheld

inductive Passes [PatternEngine] (options : RunOptions) (stop : Nat → Bool) :
    Nat → List Task → Session σ τ → σ → Prop where
  | begins (completed tasks s) : Passes options stop completed tasks s s.device
  | applying {completed t rest s m n plan done left given}
      (asked : stop completed = false) (live : options.dryRun = false)
      (planned : onDevice t.plan (s.observe (.started (.facility t))) = (.ok plan,m))
      (parts : plan.operations = done ++ left)
      (steps : Steps plan.facility 0 [] done m n given) :
      Passes options stop completed (.facility t :: rest) s n.device
  | ends {completed task rest s} (asked : stop completed = false) :
      Passes options stop completed (task :: rest) s (runTask options task s).2.device
  | goesOn {completed task rest s n d outcome} (asked : stop completed = false)
      (ran : runTask options task s = (.ok outcome,n)) (succeeded : outcome.failed = false)
      (later : Passes options stop (completed + 1) rest n d) :
      Passes options stop completed (task :: rest) s d

variable {options : RunOptions} {stop : Nat → Bool} {completed : Nat} {tasks : List Task}
  {s : Session σ τ} {d : σ}

theorem passesLast [PatternEngine] (merged : Outcome) (tally : Tally) :
    Passes options stop completed tasks s (runFrom options stop completed merged tally tasks s).2.device := by
  induction tasks generalizing completed merged tally s with
  | nil => exact .begins _ _ _
  | cons task rest ih =>
    unfold runFrom
    split
    · exact .begins _ _ _
    · rename_i going
      have asked : stop completed = false := Bool.eq_false_iff.mpr going
      have last : Passes options stop completed (task :: rest) s (runTask options task s).2.device := .ends asked
      cases ran : runTask options task s with
      | mk answer n =>
        rw [ran] at last
        cases answer with
        | error e =>
          rw [Step.bindFailed ran]
          exact last
        | ok outcome =>
          rw [Step.bindAfter ran]
          cases failed : outcome.failed with
          | true =>
            simp only [if_true]
            exact last
          | false => exact .goesOn asked ran failed (ih _ _)

theorem Upheld.holds [PatternEngine] (upheld : Upheld τ I) (start : I s.device)
    (passes : Passes options stop completed tasks s d) : I d := by
  induction passes with
  | begins => exact start
  | @applying completed t rest s m n plan done left given asked live planned parts steps =>
    have middle := onDeviceUpholds (upheld.planned t) (s.observe (.started (.facility t))) start
    rw [planned] at middle
    have after := applyUpholds upheld.performed plan.facility 0 [] done m middle
    rw [steps.applied] at after
    exact after
  | ends => exact upheld.ended _ _ start
  | @goesOn _ task _ _ _ _ _ _ ran _ _ ih =>
    have after := upheld.ended options task start
    rw [ran] at after
    exact ih after

end RouterReconciler.Session

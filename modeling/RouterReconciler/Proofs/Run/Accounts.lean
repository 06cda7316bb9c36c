import Mathlib.Data.List.Induction
import RouterReconciler.Proofs.Reconcile.Reads
import RouterReconciler.Proofs.Record.Fields
import RouterReconciler.Proofs.Run.Stepwise
import RouterReconciler.Run.Tasks

/-! What a run accounts for. The tasks that were run are followed one by one, each from where the one
before it has ended, to the first that fails or to the first before which the run is seen to be asked to
stop. The events, the count and the merged outcome are then told from these tasks, whatever the device
and the transfer do. -/
namespace RouterReconciler
open Step

structure TaskRun where
  task : Task
  operations : List (FacilityPath × Operation)
  outcome : Outcome

def TaskRun.events (r : TaskRun) : List Event :=
  .started r.task :: r.operations.map (fun o => .performed o.1 o.2) ++ [.finished r.task r.outcome]

theorem mergedChanged (outcomes : List Outcome) (merged : Outcome) :
    (outcomes.foldl Outcome.merge merged).changed = (merged.changed || outcomes.any Outcome.changed) := by
  induction outcomes generalizing merged with
  | nil => simp
  | cons o rest ih => rw [List.foldl_cons,ih,List.any_cons,← Bool.or_assoc]; rfl

theorem mergedFailed (outcomes : List Outcome) (merged : Outcome) :
    (outcomes.foldl Outcome.merge merged).failed = (merged.failed || outcomes.any Outcome.failed) := by
  induction outcomes generalizing merged with
  | nil => simp
  | cons o rest ih => rw [List.foldl_cons,ih,List.any_cons,← Bool.or_assoc]; rfl

theorem mergedReturns (outcomes : List Outcome) (merged : Outcome) (key : String) :
    (outcomes.foldl Outcome.merge merged).returnValues.get? key =
      (outcomes.reverse.findSome? (·.returnValues.get? key)).or (merged.returnValues.get? key) := by
  induction outcomes using List.reverseRecOn with
  | nil => simp
  | append_singleton rest o ih =>
    rw [List.foldl_append,List.foldl_cons,List.foldl_nil,Outcome.merge,Entries.getExtend,ih,
      List.reverse_append,List.reverse_singleton,List.singleton_append,List.findSome?_cons]
    cases o.returnValues.get? key <;> rfl

theorem lastReturned (done : List TaskRun) (key : String) (value : Json) :
    ((done.map TaskRun.outcome).foldl Outcome.merge .unchanged).returnValues.get? key = some value ↔
      ∃ earlier r later, done = earlier ++ r :: later ∧ r.outcome.returnValues.get? key = some value ∧
        ∀ q ∈ later, q.outcome.returnValues.get? key = none := by
  have nothing : Outcome.unchanged.returnValues.get? key = none := rfl
  rw [mergedReturns,nothing,Option.or_none,← List.map_reverse,List.findSome?_map,
    List.findSome?_eq_some_iff]
  constructor
  · rintro ⟨later,r,earlier,split,returned,silent⟩
    refine ⟨earlier.reverse,r,later.reverse,?_,returned,fun q mem => silent q (List.mem_reverse.mp mem)⟩
    simpa using congrArg List.reverse split
  · rintro ⟨earlier,r,later,rfl,returned,silent⟩
    exact ⟨later.reverse,r,earlier.reverse,by simp,returned,fun q mem => silent q (List.mem_reverse.mp mem)⟩

theorem recorded (outcomes : List Outcome) (tally : Tally) :
    (outcomes.foldl Tally.record tally).total = tally.total + outcomes.length ∧
    (outcomes.foldl Tally.record tally).failed = tally.failed + outcomes.countP Outcome.failed ∧
    (outcomes.foldl Tally.record tally).skipped = tally.skipped := by
  induction outcomes generalizing tally with
  | nil => simp
  | cons o rest ih =>
    obtain ⟨total,failed,skipped⟩ := ih (tally.record o)
    rw [List.foldl_cons,total,failed,skipped,List.countP_cons,List.length_cons]
    cases hf : o.failed <;> cases hc : o.changed <;> simp [Tally.record,Tally.total,hf,hc] <;> omega

theorem counted (outcomes : List Outcome) (n : Nat) :
    ((outcomes.foldl Tally.record .zero).skip n).total = outcomes.length + n ∧
    ((outcomes.foldl Tally.record .zero).skip n).failed = outcomes.countP Outcome.failed ∧
    ((outcomes.foldl Tally.record .zero).skip n).skipped = n := by
  obtain ⟨total,failed,skipped⟩ := recorded outcomes .zero
  have start : Tally.zero.total = 0 ∧ Tally.zero.failed = 0 ∧ Tally.zero.skipped = 0 := by decide
  rw [start.1] at total
  rw [start.2.1] at failed
  rw [start.2.2] at skipped
  simp only [Tally.total,Tally.skip] at total ⊢
  omega

namespace Session
variable {σ τ α : Type}

abbrev Silent {ε : Type} (x : Step ε (Session σ τ) α) : Prop := ∀ events, Keeps (fun s => s.events = events) x

theorem onDeviceSilent {ε : Type} (step : Step ε σ α) : Silent (onDevice step : Step ε (Session σ τ) α) :=
  fun _ _ seen => seen

theorem onExchangeSilent (what : String) (step : Access (Exchange σ τ) α) :
    Silent (onExchange what step : Access (Session σ τ) α) := by
  intro events s seen
  unfold onExchange
  split <;> exact seen

/-- The step has reported these operations. If it succeeds, it succeeds for good, and it never fails to tell
of a change once it has reported something; it breaks off only before it has. -/
structure Reported (operations : List (FacilityPath × Operation)) (s : Session σ τ)
    (answer : Judgement Outcome) (m : Session σ τ) : Prop where
  seen : m.events = s.events ++ operations.map (fun o => .performed o.1 o.2)
  succeeded : ∀ o, answer = .ok o → o.failed = false ∧ (operations ≠ [] → o.changed = true)
  failed : ∀ e, answer = .error (.failed e) → operations ≠ [] → 0 < e.appliedWrites
  broken : answer = .error .brokenOff → operations = []

theorem Reported.nothing {s m : Session σ τ} {answer : Judgement Outcome} (seen : m.events = s.events)
    (succeeds : ∀ o, answer = .ok o → o.failed = false) : Reported [] s answer m :=
  ⟨by simpa using seen,fun o ok => ⟨succeeds o ok,fun some => absurd rfl some⟩,
    fun _ _ some => absurd rfl some,fun _ => rfl⟩

theorem Reported.silent {β : Type} {x : Access (Session σ τ) β} {close : β → Outcome} (silent : Silent x)
    (succeeds : ∀ b, (close b).failed = false) (s : Session σ τ) :
    Reported [] s ((liftM (x >>= fun b => pure (close b)) : Inquiry (Session σ τ) Outcome) s).1
      ((liftM (x >>= fun b => pure (close b)) : Inquiry (Session σ τ) Outcome) s).2 := by
  have seen := silent _ s rfl
  obtain ⟨answer,m,ended⟩ : ∃ answer m, x s = (answer,m) := ⟨_,_,rfl⟩
  rw [ended] at seen
  cases answer with
  | error e =>
    rw [liftStepError.mpr ⟨e,bindFailed ended _,rfl⟩]
    exact .nothing seen (by rintro _ ⟨⟩)
  | ok b =>
    rw [liftStepOk.mpr (bindAfter ended _)]
    exact .nothing seen (by rintro _ ⟨⟩; exact succeeds b)

section
variable [Device σ]

theorem applySeen (p : Plan) (s : Session σ τ) :
    ∃ done : List Operation, (apply p s).2.events = s.events ++ done.map (.performed p.facility.path) ∧
      ((apply p s).1 = .ok () → done = p.operations) ∧
      ∀ e, (apply p s).1 = .error e → e.appliedWrites = done.length := by
  obtain ⟨answer,m,applied⟩ : ∃ answer m, apply p s = (answer,m) := ⟨_,_,rfl⟩
  rw [applied]
  rcases appliedTrace applied with ⟨_,rfl,steps⟩ | ⟨done,failed,_,given,n,_,-,steps,stopped,rfl⟩
  · exact ⟨p.operations,steps.seen,fun _ => rfl,by rintro _ ⟨⟩⟩
  · have same := onDeviceSilent (perform p.facility (0 + done.length) given failed) _ n rfl
    rw [stopped] at same
    exact ⟨done,same.trans steps.seen,by rintro ⟨⟩,by rintro _ ⟨⟩; exact Nat.zero_add _⟩

theorem facilityReported [PatternEngine] (options : RunOptions) (t : FacilityTask) (s : Session σ τ) :
    ∃ operations, Reported operations s (runFacility options t s).1 (runFacility options t s).2 := by
  obtain ⟨planning,m,planned⟩ : ∃ planning m, onDevice (τ := τ) t.plan s = (planning,m) := ⟨_,_,rfl⟩
  have quiet := onDeviceSilent (τ := τ) t.plan _ s rfl
  rw [planned] at quiet
  cases planning with
  | error e =>
    rw [runFacility,bindFailed planned]
    exact ⟨[],.nothing quiet (by rintro _ ⟨⟩)⟩
  | ok plan =>
    rw [runFacility,bindAfter planned]
    split
    · rename_i live
      obtain ⟨done,seen,whole,writes⟩ := applySeen (τ := τ) plan m
      obtain ⟨answer,n,applied⟩ : ∃ answer n, apply (τ := τ) plan m = (answer,n) := ⟨_,_,rfl⟩
      rw [applied] at seen whole writes
      have events : n.events =
          s.events ++ (done.map (plan.facility.path,·)).map (fun o => .performed o.1 o.2) := by
        rw [seen,quiet,List.map_map]
        rfl
      refine ⟨done.map (plan.facility.path,·),?_⟩
      cases answer with
      | ok _ =>
        rw [bindAfter (mapErrorOk.mpr applied)]
        refine ⟨events,fun o ok => ?_,by rintro _ ⟨⟩,by rintro ⟨⟩⟩
        cases ok
        refine ⟨rfl,fun some => ?_⟩
        rw [whole rfl] at some
        cases hp : plan.operations with
        | nil => simp [hp] at some
        | cons operation rest => simp [Plan.isChanged,hp]
      | error e =>
        rw [bindFailed (mapErrorError.mpr ⟨e,applied,rfl⟩)]
        refine ⟨events,by rintro _ ⟨⟩,fun e' said some => ?_,by rintro ⟨⟩⟩
        cases said
        show 0 < e.appliedWrites
        rw [writes e rfl]
        exact List.length_pos_of_ne_nil fun none => some (by rw [none]; rfl)
    · exact ⟨[],.nothing quiet (by rintro _ ⟨⟩; rfl)⟩

variable [FileTransfer σ τ]

theorem executeReported [PatternEngine] (options : RunOptions) (task : Task) (s : Session σ τ) :
    ∃ operations, Reported operations s (execute options task s).1 (execute options task s).2 := by
  cases task with
  | facility t => exact facilityReported options t s
  | command text =>
    simp only [execute,runCommand]
    split
    · exact ⟨[],.nothing rfl (by rintro _ ⟨⟩; rfl)⟩
    · exact ⟨[],.silent (onDeviceSilent _) (fun _ => rfl) s⟩
  | put path remote => exact ⟨[],.silent (onExchangeSilent _ _) (fun _ => rfl) s⟩
  | fetch remote path => exact ⟨[],.silent (onExchangeSilent _ _) (fun _ => rfl) s⟩

structure Ran [PatternEngine] (options : RunOptions) (r : TaskRun) (s m : Session σ τ) : Prop where
  ran : runTask options r.task s = (.ok r.outcome,m)
  seen : m.events = s.events ++ r.events
  told : r.operations ≠ [] → r.outcome.changed = true
  failing : r.outcome.failed = true → ∃ e, r.outcome = .failure e

structure BrokeOff [PatternEngine] (options : RunOptions) (task : Task) (s m : Session σ τ) : Prop where
  ran : runTask options task s = (.error .brokenOff,m)
  seen : m.events = s.events ++ [.started task]

theorem taskRan [PatternEngine] (options : RunOptions) (task : Task) (s : Session σ τ) :
    (∃ r m, r.task = task ∧ Ran options r s m) ∨ ∃ m, BrokeOff options task s m := by
  obtain ⟨operations,seen,succeeded,failed,broken⟩ := executeReported options task (s.observe (.started task))
  obtain ⟨answer,m,ran⟩ : ∃ answer m, execute options task (s.observe (.started task)) = (answer,m) :=
    ⟨_,_,rfl⟩
  rw [ran] at seen succeeded failed broken
  have ended : ∀ outcome : Outcome, (m.observe (.finished task outcome)).events =
      s.events ++ TaskRun.events ⟨task,operations,outcome⟩ := by
    intro outcome
    simp only [observe] at seen ⊢
    simp [seen,TaskRun.events]
  cases answer with
  | ok o =>
    refine .inl ⟨⟨task,operations,o⟩,m.observe (.finished task o),rfl,?_,ended o,(succeeded o rfl).2,?_⟩
    · rw [runTask,ran]
    · intro failing
      rw [(succeeded o rfl).1] at failing
      cases failing
  | error e =>
    cases e with
    | failed e =>
      refine .inl ⟨⟨task,operations,.failure e⟩,m.observe (.finished task (.failure e)),rfl,?_,ended _,
        fun some => decide_eq_true (failed e rfl some),fun _ => ⟨e,rfl⟩⟩
      rw [runTask,ran]
    | brokenOff =>
      refine .inr ⟨m,by rw [runTask,ran],?_⟩
      rw [seen,broken rfl]
      simp [observe]

inductive Course [PatternEngine] (options : RunOptions) (stop : Nat → Bool) :
    Nat → List Task → Session σ τ → List TaskRun → List Task → Session σ τ → Prop where
  | finished (completed s) : Course options stop completed [] s [] [] s
  | asked {completed task rest s} (seen : stop completed = true) :
      Course options stop completed (task :: rest) s [] (task :: rest) s
  | failed {completed r rest s m} (unasked : stop completed = false) (here : Ran options r s m)
      (failing : r.outcome.failed = true) : Course options stop completed (r.task :: rest) s [r] rest m
  | goesOn {completed r rest s m done left s'} (unasked : stop completed = false)
      (here : Ran options r s m) (succeeded : r.outcome.failed = false)
      (later : Course options stop (completed + 1) rest m done left s') :
      Course options stop completed (r.task :: rest) s (r :: done) left s'

inductive Cut [PatternEngine] (options : RunOptions) (stop : Nat → Bool) :
    Nat → List Task → Session σ τ → List TaskRun → Task → Session σ τ → Prop where
  | here {completed task rest s s'} (unasked : stop completed = false) (broke : BrokeOff options task s s') :
      Cut options stop completed (task :: rest) s [] task s'
  | goesOn {completed r rest s m done task s'} (unasked : stop completed = false)
      (here : Ran options r s m) (succeeded : r.outcome.failed = false)
      (later : Cut options stop (completed + 1) rest m done task s') :
      Cut options stop completed (r.task :: rest) s (r :: done) task s'

variable [PatternEngine] {options : RunOptions} {stop : Nat → Bool} {completed : Nat} {tasks left : List Task}
  {s s' : Session σ τ} {done : List TaskRun}

theorem runCourse (options : RunOptions) (stop : Nat → Bool) (completed : Nat) (merged : Outcome)
    (tally : Tally) (tasks : List Task) (s : Session σ τ) :
    (∃ done left s', Course options stop completed tasks s done left s' ∧
      runFrom options stop completed merged tally tasks s =
        (.ok ((done.map TaskRun.outcome).foldl .merge merged,
          ((done.map TaskRun.outcome).foldl .record tally).skip left.length),s')) ∨
    ∃ done task s', Cut options stop completed tasks s done task s' ∧
      runFrom options stop completed merged tally tasks s = (.error .brokenOff,s') := by
  induction tasks generalizing completed merged tally s with
  | nil => exact .inl ⟨[],[],s,.finished _ _,rfl⟩
  | cons task rest ih =>
    rw [runFrom]
    split
    · rename_i seen
      exact .inl ⟨[],task :: rest,s,.asked seen,rfl⟩
    · rename_i going
      have unasked : stop completed = false := Bool.eq_false_iff.mpr going
      rcases taskRan options task s with ⟨r,m,rfl,here⟩ | ⟨m,broke⟩
      · rw [bindAfter here.ran]
        cases failing : r.outcome.failed with
        | true => exact .inl ⟨[r],rest,m,.failed unasked here failing,rfl⟩
        | false =>
          rcases ih (completed + 1) (merged.merge r.outcome) (tally.record r.outcome) m with
            ⟨done,left,s',later,ran⟩ | ⟨done,task,s',later,ran⟩
          · exact .inl ⟨r :: done,left,s',.goesOn unasked here failing later,ran⟩
          · exact .inr ⟨r :: done,task,s',.goesOn unasked here failing later,ran⟩
      · exact .inr ⟨[],task,m,.here unasked broke,bindFailed broke.ran _⟩

namespace Course

theorem parts (course : Course options stop completed tasks s done left s') :
    tasks = done.map TaskRun.task ++ left := by
  induction course with
  | finished | asked | failed => rfl
  | goesOn unasked here succeeded later ih => rw [ih]; rfl

theorem reported (course : Course options stop completed tasks s done left s') :
    s'.events = s.events ++ done.flatMap TaskRun.events := by
  induction course with
  | finished | asked => simp
  | failed unasked here failing => simpa using here.seen
  | goesOn unasked here succeeded later ih =>
    rw [ih,here.seen,List.flatMap_cons,List.append_assoc]

theorem told (course : Course options stop completed tasks s done left s') :
    ∀ r ∈ done, r.operations ≠ [] → r.outcome.changed = true := by
  induction course with
  | finished | asked => simp
  | failed unasked here failing => simpa using here.told
  | goesOn unasked here succeeded later ih => exact List.forall_mem_cons.mpr ⟨here.told,ih⟩

theorem unasked (course : Course options stop completed tasks s done left s') :
    ∀ i < done.length, stop (completed + i) = false := by
  induction course with
  | finished | asked => simp
  | failed unasked here failing =>
    intro i single
    obtain rfl : i = 0 := by simpa using single
    exact unasked
  | goesOn unasked here succeeded later ih =>
    intro i inside
    cases i with
    | zero => exact unasked
    | succ i => simpa [Nat.add_assoc,Nat.add_comm 1 i] using ih i (by simpa using inside)

-- Only the last task of a run can fail, and then the run ends with it.
theorem ended (course : Course options stop completed tasks s done left s') :
    (∀ r ∈ done, r.outcome.failed = false) ∧ (left = [] ∨ stop (completed + done.length) = true) ∨
    ∃ earlier r, done = earlier ++ [r] ∧ (∀ q ∈ earlier, q.outcome.failed = false) ∧
      r.outcome.failed = true := by
  induction course with
  | finished => exact .inl ⟨by simp,.inl rfl⟩
  | asked seen => exact .inl ⟨by simp,.inr seen⟩
  | @failed _ r _ _ _ unasked here failing => exact .inr ⟨[],r,rfl,by simp,failing⟩
  | @goesOn completed r rest s m done left s' unasked here succeeded later ih =>
    rcases ih with ⟨all,stopped⟩ | ⟨earlier,last,rfl,all,failing⟩
    · refine .inl ⟨List.forall_mem_cons.mpr ⟨succeeded,all⟩,?_⟩
      rwa [List.length_cons,Nat.add_comm done.length,← Nat.add_assoc]
    · exact .inr ⟨r :: earlier,last,rfl,List.forall_mem_cons.mpr ⟨succeeded,all⟩,failing⟩

theorem failures (course : Course options stop completed tasks s done left s') :
    (done.map TaskRun.outcome).countP Outcome.failed =
      if (done.map TaskRun.outcome).any Outcome.failed then 1 else 0 := by
  rcases course.ended with ⟨all,-⟩ | ⟨earlier,r,rfl,all,failing⟩
  · have none : (done.map TaskRun.outcome).countP Outcome.failed = 0 := by
      simpa [List.countP_eq_zero] using all
    have any : (done.map TaskRun.outcome).any Outcome.failed = false := by simpa using all
    rw [none,any]
    rfl
  · have none : (earlier.map TaskRun.outcome).countP Outcome.failed = 0 := by
      simpa [List.countP_eq_zero] using all
    simp [List.map_append,List.countP_append,none,failing]

end Course

structure Account (options : RunOptions) (stop : Nat → Bool) (tasks : List Task) (s s' : Session σ τ)
    (merged : Outcome) (tally : Tally) (done : List TaskRun) (left : List Task) : Prop where
  course : Course options stop 0 tasks s done left s'
  parts : tasks = done.map TaskRun.task ++ left
  unasked : ∀ i < done.length, stop i = false
  ended : (∀ r ∈ done, r.outcome.failed = false) ∧ (left = [] ∨ stop done.length = true) ∨
    ∃ earlier r, done = earlier ++ [r] ∧ (∀ q ∈ earlier, q.outcome.failed = false) ∧
      r.outcome.failed = true
  reported : s'.events = s.events ++ done.flatMap TaskRun.events
  total : tally.total = tasks.length
  failures : tally.failed ≤ 1
  skipped : tally.skipped = left.length
  failed : merged.failed = true ↔ tally.failed = 1
  changed : merged.changed = true ↔ ∃ r ∈ done, r.outcome.changed = true
  partly : ∀ r ∈ done, r.operations ≠ [] → r.outcome.changed = true
  returned : ∀ key value, merged.returnValues.get? key = some value ↔
    ∃ earlier r later, done = earlier ++ r :: later ∧ r.outcome.returnValues.get? key = some value ∧
      ∀ q ∈ later, q.outcome.returnValues.get? key = none

theorem Course.account {merged : Outcome} {tally : Tally} (course : Course options stop 0 tasks s done left s')
    (outcome : merged = (done.map TaskRun.outcome).foldl .merge .unchanged)
    (count : tally = ((done.map TaskRun.outcome).foldl Tally.record .zero).skip left.length) :
    Account options stop tasks s s' merged tally done left := by
  subst outcome count
  have once := course.failures
  have ended := course.ended
  have unasked := course.unasked
  obtain ⟨total,failures,skipped⟩ := counted (done.map TaskRun.outcome) left.length
  rw [once] at failures
  have failed := mergedFailed (done.map TaskRun.outcome) .unchanged
  have changed := mergedChanged (done.map TaskRun.outcome) .unchanged
  simp only [Nat.zero_add] at ended unasked
  refine ⟨course,course.parts,unasked,ended,course.reported,?_,?_,skipped,?_,?_,course.told,
    lastReturned done⟩
  · rw [total,course.parts,List.length_append,List.length_map,List.length_map]
  · rw [failures]
    split <;> omega
  · rw [failed,failures]
    cases (done.map TaskRun.outcome).any Outcome.failed <;> decide
  · rw [changed]
    simp [Outcome.unchanged]

structure CutAccount (options : RunOptions) (stop : Nat → Bool) (tasks : List Task) (s s' : Session σ τ)
    (done : List TaskRun) (task : Task) : Prop where
  cut : Cut options stop 0 tasks s done task s'
  parts : ∃ rest, tasks = done.map TaskRun.task ++ task :: rest
  unasked : ∀ i ≤ done.length, stop i = false
  succeeded : ∀ r ∈ done, r.outcome.failed = false
  reported : s'.events = s.events ++ done.flatMap TaskRun.events ++ [.started task]
  partly : ∀ r ∈ done, r.operations ≠ [] → r.outcome.changed = true

theorem Cut.account {task : Task} (cut : Cut options stop completed tasks s done task s') :
    (∃ rest, tasks = done.map TaskRun.task ++ task :: rest) ∧ (∀ i ≤ done.length, stop (completed + i) = false) ∧
    (∀ r ∈ done, r.outcome.failed = false) ∧
    s'.events = s.events ++ done.flatMap TaskRun.events ++ [.started task] ∧
    ∀ r ∈ done, r.operations ≠ [] → r.outcome.changed = true := by
  induction cut with
  | here unasked broke =>
    refine ⟨⟨_,rfl⟩,fun i none => ?_,by simp,by simpa using broke.seen,by simp⟩
    rw [Nat.le_zero.mp none]
    exact unasked
  | goesOn unasked here succeeded later ih =>
    obtain ⟨⟨rest,parts⟩,before,all,seen,told⟩ := ih
    refine ⟨⟨rest,by rw [parts]; rfl⟩,fun i inside => ?_,List.forall_mem_cons.mpr ⟨succeeded,all⟩,?_,
      List.forall_mem_cons.mpr ⟨here.told,told⟩⟩
    · cases i with
      | zero => exact unasked
      | succ i =>
        rw [Nat.add_comm i,← Nat.add_assoc]
        exact before i (by simpa using inside)
    · rw [seen,here.seen,List.flatMap_cons]
      simp only [List.append_assoc]

/-- A run accounts for every task, whatever the device does, and whenever it is asked to stop. It has no
outcome if a task of it breaks off; that task is then the last, and has reported nothing but its start. -/
theorem everyTaskAccounted (options : RunOptions) (stop : Nat → Bool) (tasks : List Task)
    (s : Session σ τ) :
    (∃ merged tally s' done left, runTasks options stop tasks s = (.ok (merged,tally),s') ∧
      Account options stop tasks s s' merged tally done left) ∨
    ∃ s' done task, runTasks options stop tasks s = (.error .brokenOff,s') ∧
      CutAccount options stop tasks s s' done task := by
  rcases runCourse options stop 0 .unchanged .zero tasks s with ⟨done,left,s',course,ran⟩ | ⟨done,task,s',cut,ran⟩
  · exact .inl ⟨_,_,s',done,left,ran,course.account rfl rfl⟩
  · obtain ⟨parts,unasked,succeeded,reported,partly⟩ := cut.account
    simp only [Nat.zero_add] at unasked
    exact .inr ⟨s',done,task,ran,cut,parts,unasked,succeeded,reported,partly⟩

end

end Session
end RouterReconciler

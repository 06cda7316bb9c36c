import RouterReconciler.Reconcile.Planning
import RouterReconciler.Run.Apply

/-!
Running tasks in order. A failed task is the last one to run, and so is the one before a request
to stop is seen; the tasks left are counted as skipped. A run that breaks off has no outcome.
-/
namespace RouterReconciler.Session
variable {σ τ : Type} [Device σ] [FileTransfer σ τ] [PatternEngine]

def runFacility (options : RunOptions) (t : FacilityTask) : Inquiry (Session σ τ) Outcome := do
  let plan ← onDevice t.plan
  if !options.dryRun && !plan.operations.isEmpty then
    (apply plan).mapError fun e => .failed (.inTask t.path.text t.mode.name none e)
  return ⟨plan.isChanged,false,plan.returnValues,none⟩

def runCommand (options : RunOptions) (command : String) : Access (Session σ τ) Outcome := do
  if options.dryRun then return { Outcome.unchanged with changed := true }
  else do
    let output ← onDevice (Device.run command)
    return ⟨true,false,Entries.empty.insert "output" (.str (Text.trimEnd output)),none⟩

def runPut (options : RunOptions) (localPath remote : String) : Access (Session σ τ) Outcome := do
  let changed ← onExchange "put" (Exchange.put localPath remote options.transfersApply)
  return { Outcome.unchanged with changed := changed }

def runFetch (options : RunOptions) (remote localPath : String) : Access (Session σ τ) Outcome := do
  let fetched ← onExchange "fetch" (Exchange.fetch remote localPath options.transfersApply)
  let values : ReturnValues := match fetched.backup with
    | some path => Entries.empty.insert "backup" (.str path)
    | none => ∅
  return ⟨fetched.changed,false,values,none⟩

def execute (options : RunOptions) : Task → Inquiry (Session σ τ) Outcome
  | .facility t => runFacility options t
  | .command text => (runCommand options text : Access (Session σ τ) Outcome)
  | .put localPath remote => (runPut options localPath remote : Access (Session σ τ) Outcome)
  | .fetch remote localPath => (runFetch options remote localPath : Access (Session σ τ) Outcome)

def runTask (options : RunOptions) (task : Task) : Unfailing (Session σ τ) Outcome := fun s =>
  match execute options task (s.observe (.started task)) with
  | (.ok outcome,s) => (.ok outcome,s.observe (.finished task outcome))
  | (.error (.failed e),s) => (.ok (.failure e),s.observe (.finished task (.failure e)))
  | (.error .brokenOff,s) => (.error .brokenOff,s)

/-- Runs tasks, of which `completed` are done already. `stop` says, for a number of completed
tasks, whether the run has been asked to stop by then. -/
def runFrom (options : RunOptions) (stop : Nat → Bool) (completed : Nat) (merged : Outcome)
    (tally : Tally) : List Task → Unfailing (Session σ τ) (Outcome × Tally)
  | [] => return (merged,tally)
  | task :: rest =>
    if stop completed then return (merged,tally.skip (rest.length + 1))
    else do
      let outcome ← runTask options task
      let merged := merged.merge outcome
      let tally := tally.record outcome
      if outcome.failed then return (merged,tally.skip rest.length)
      else runFrom options stop (completed + 1) merged tally rest

def runTasks (options : RunOptions) (stop : Nat → Bool) (tasks : List Task) :
    Unfailing (Session σ τ) (Outcome × Tally) :=
  runFrom options stop 0 .unchanged .zero tasks

end RouterReconciler.Session

import RouterReconciler.CommandLine.Display
import RouterReconciler.CommandLine.Host
import RouterReconciler.CommandLine.Options
import RouterReconciler.Fleet.Connect
import RouterReconciler.Reconcile.Planning
import RouterReconciler.TaskFile.Basic

/-!
The commands of the program, on a host. What is asked for first is checked first: a command that
fails has written nothing but what it had already come to.
-/
namespace RouterReconciler.CommandLine
variable {ρ : Type} [Programs ρ] [PatternEngine]

def leaveConsole (c : Console (SecureShell ρ)) (h : Host ρ) : Host ρ :=
  c.reports.foldl (fun h line => h.warn "routeros::retry" line)
    { h with programs := c.transport.programs }

def liveFleet (defaults : DeviceDefaults) : Fleet (Host ρ) (Console (SecureShell ρ)) SecureCopy where
  openDevice d h :=
    match Session.connect h.environment h.files defaults d h.programs with
    | .ok opened => (.ok opened,h)
    | .error (f,console) => (.error f,leaveConsole console h)
  closeDevice s h := leaveConsole s.device { h with files := s.files }
  warn message h := h.warn "tikconf::engine::runner" message

def loadInventory (settings : Settings) : Command ρ Inventory := do
  let h ← Step.get
  liftM (Inventory.loadDefault h.environment h.files settings.inventory)

def loadTasks (path : String) : Command ρ TaskFile := do
  let h ← Step.get
  liftM (TaskFile.load h.files path)

def confirm (yes : Bool) : Command ρ Unit :=
  if yes then pure ()
  else .fail (.of "Not running in a terminal; pass --yes to proceed without confirmation")

def tasksFor (env : Environment) (file : TaskFile) (os : Generation) : Except Failure (List Task) :=
  (file.tasksFor env os).mapError TaskFile.Fault.toFailure

def runFleet (inventory : Inventory) (devices : List DeviceEntry)
    (build : Generation → Except Failure (List Task)) (options : RunOptions) :
    Command ρ (List DeviceReport) :=
  ((liveFleet inventory.defaults).run build options false devices).mapError (Halt.map Empty.elim)

def finish (settings : Settings) (reports : List DeviceReport) : Command ρ Unit := do
  let h ← Step.get
  if settings.json then Command.printLine (Json.list (reports.map DeviceReport.toJson)).pretty
  else if !settings.quiet then do
    Command.print ("\n" ++ String.join (reports.map (Display.report h.files)))
    Command.print (Display.total reports)
  let failed := (reports.filter DeviceReport.isFailed).length
  if 0 < failed then Command.fail (.of (Text.plural failed "device" ++ " failed"))

def apply (settings : Settings) (tasks : String) (names : List String)
    (options : RunOptions) (yes : Bool) : Command ρ Unit := do
  let inventory ← loadInventory settings
  let devices ← Step.ofExcept (inventory.select names)
  let file ← loadTasks tasks
  if settings.isTalkative then do
    Command.print (Display.header (if options.dryRun then "Apply (dry run)" else "Apply"))
    Command.print (Display.entry "Tasks" (tasks ++ " (" ++ toString file.entries.length ++ ")"))
    Command.print (Display.entry "Devices" (", ".intercalate (devices.map DeviceEntry.name)))
    Command.printLine ""
  confirm (yes || options.dryRun)
  let h ← Step.get
  let reports ← runFleet inventory devices (tasksFor h.environment file) options
  if options.dryRun && settings.isTalkative then
    Command.print (Display.info "Dry run - no changes made")
  finish settings reports

def cmd (settings : Settings) (command : String) (names : List String) (yes : Bool) :
    Command ρ Unit := do
  if (Text.trim command).isEmpty then Command.fail (.of "Command is empty")
  else do
    let inventory ← loadInventory settings
    let devices ← Step.ofExcept (inventory.select names)
    confirm yes
    let reports ← runFleet inventory devices (fun _ => .ok [.command command]) ⟨false,false⟩
    finish settings reports

inductive OneDevice (ρ : Type) where
  | offline (opened : Opened Replica RemoteFiles)
  | live (opened : Opened (Console (SecureShell ρ)) SecureCopy)

def OneDevice.name : OneDevice ρ → String
  | offline o => o.name
  | live o => o.name

def OneDevice.os : OneDevice ρ → Generation
  | offline o => o.os
  | live o => o.os

def openOne (settings : Settings) (device snapshot : Option String) (os : Option Generation) :
    Command ρ (OneDevice ρ) := do
  let h ← Step.get
  match snapshot with
  | some path => do
    let opened ← Step.ofExcept (Session.offline h.files path os)
    return .offline opened
  | none => do
    let inventory ← loadInventory settings
    let entry ← Step.ofExcept (inventory.single device)
    let entry := { entry with os := os.orElse fun _ => entry.os }
    match Session.connect h.environment h.files inventory.defaults entry h.programs with
    | .ok opened => return .live opened
    | .error (f,console) => do
      Step.modify (leaveConsole console)
      Step.fail f

def withDevice {α : Type} (d : OneDevice ρ) (act : {σ : Type} → [Device σ] → σ → α × σ) :
    Command ρ (α × OneDevice ρ) :=
  match d with
  | .offline o =>
    let (answer,replica) := act o.session.device
    pure (answer,.offline { o with session := { o.session with device := replica } })
  | .live o => do
    let (answer,console) := act o.session.device
    Step.modify (leaveConsole console)
    let rest := { console with reports := [] }
    return (answer,.live { o with session := { o.session with device := rest } })

inductive PlannedTask where
  | planned (task : Task) (plan : Plan)
  | unplanned (task : Task)
  | refused (task : Task) (e : Error)

namespace PlannedTask

def toJson : PlannedTask → Json
  | planned task p =>
    .table [("changed",.bool p.isChanged),("mode",.str task.modeName),
      ("ops",.list (p.operations.map (fun o => .str o.text))),
      ("return_values",p.returnValues.toJson),("task",.str task.text)]
  | unplanned task =>
    .table [("mode",.str task.modeName),("planned",.bool false),("task",.str task.text)]
  | refused task e => .table [("error",e.toJson),("task",.str task.text)]

def changes : PlannedTask → ChangeCount
  | planned _ p => .ofOperations p.operations
  | _ => .zero

def isRefused : PlannedTask → Bool
  | refused _ _ => true
  | _ => false

end PlannedTask

def showPlanned (index : Nat) : PlannedTask → Command ρ Unit
  | .planned task p => Command.print (Display.plan index task p)
  | .unplanned task => Command.print (Display.unplanned index task)
  | .refused task e =>
    Command.printError (Display.error (Display.numbered index task.text ++ ": " ++ e.message))

def planFrom (shows : Bool) (index : Nat) : List Task → OneDevice ρ → Command ρ (List PlannedTask)
  | [], _ => return []
  | task :: rest, d => do
    let (planned,d) ←
      match task with
      | .facility t => do
        match ← withDevice d t.plan with
        | (.ok plan,d) => pure (PlannedTask.planned task plan,d)
        | (.error (.failed e),d) => pure (PlannedTask.refused task e,d)
        | (.error .brokenOff,_) => Step.fail .brokenOff
      | _ => pure (PlannedTask.unplanned task,d)
    if shows then showPlanned index planned
    let others ← planFrom shows (index + 1) rest d
    return planned :: others

def plan (settings : Settings) (tasks : String) (device snapshot : Option String)
    (os : Option Generation) : Command ρ Unit := do
  let file ← loadTasks tasks
  let d ← openOne settings device snapshot os
  let h ← Step.get
  let tasks ← Step.ofExcept (tasksFor h.environment file d.os)
  if settings.isTalkative then
    Command.print
      (Display.header ("Plan for " ++ d.name ++ " (" ++ d.os.name ++ ")") ++ "\n")
  let planned ← planFrom settings.isTalkative 0 tasks d
  if settings.json then Command.printLine (Json.list (planned.map PlannedTask.toJson)).pretty
  else if !settings.quiet then
    Command.print (Display.planSummary
      (planned.foldl (fun c p => c.merge p.changes) ChangeCount.zero))
  let refused := (planned.filter PlannedTask.isRefused).length
  if 0 < refused then
    Command.fail (.of (Text.plural refused "task" ++ " could not be planned"))

def criteriaOfPairs (pairs : List (String × String)) : Criteria :=
  Entries.ofList (pairs.map fun p =>
    (p.1,if p.1 = rawKey then Condition.raw p.2 else Condition.ofText p.2))

def readRecords {σ : Type} [Device σ] (path : FacilityPath) (find : Option Criteria) (many : Bool) :
    Inquiry σ Json :=
  if many then do
    let selector ← (find.elim (.ok Selector.all) Selector.ofCriteria : Except Error Selector)
    let records ← Facility.read ⟨path,.unordered⟩ selector
    return .list (records.map Record.toJson)
  else do
    let record ← Facility.readOne ⟨path,.singleton⟩
    return record.toJson

def readFields {σ : Type} [Device σ] (path : FacilityPath) (find : Option Criteria) (many : Bool)
    (fields : List String) : Inquiry σ Json := do
  let extraction : Extraction := {
    find := if many then some (find.getD ∅) else none
    fields := fields.map (fun f => (f,f))
    source := .fields
    many := many
    indexBy := none
    skipEmpty := false
    requireMatch := !many
    requireFields := false }
  let task ← (FacilityTask.make path (.extract extraction) : Except Error FacilityTask)
  let plan ← task.plan
  return plan.returnValues.toJson

def read {σ : Type} [Device σ] (path : FacilityPath) (fields : List String)
    (find : Option Criteria) (all : Bool) : Inquiry σ Json :=
  let many := all || find.isSome
  if fields.isEmpty then Json.sorted <$> readRecords path find many
  else readFields path find many fields

def getValues (settings : Settings) (path : String) (fields : List String)
    (device snapshot : Option String) (pairs : List (String × String)) (all : Bool) :
    Command ρ Unit := do
  let facility ← Step.ofExcept ((FacilityPath.parse path).mapError Failure.ofError)
  let find := if pairs.isEmpty then none else some (criteriaOfPairs pairs)
  let d ← openOne settings device snapshot none
  match (← withDevice d (read facility fields find all)).1 with
  | .error e =>
    Step.fail (e.map fun cause => (Failure.ofError cause).within ("Could not read " ++ path))
  | .ok values =>
    if settings.json then Command.printLine values.pretty
    else Command.print (Display.readValues values)

def faultJson (fault : Generation × TaskFile.Fault) : Json :=
  .table [("error",.str fault.2.message),("os",.str fault.1.name)]

def countFor (env : Environment) (file : TaskFile) (os : Generation) : Nat :=
  match file.tasksFor env os with
  | .ok tasks => tasks.length
  | .error _ => 0

def checkConfig (settings : Settings) (tasks : String) : Command ρ Unit := do
  let file ← loadTasks tasks
  let h ← Step.get
  let faults := file.check h.environment
  if settings.json then Command.printLine (Json.list (faults.map faultJson)).pretty
  else if !settings.quiet then do
    Command.print (Display.header ("Checking " ++ tasks))
    for os in [Generation.v6,Generation.v7] do
      Command.print (Display.entry os.name (Text.plural (countFor h.environment file os) "task"))
    Command.printLine ""
    for (os,fault) in faults do
      Command.printError (Display.error ("[" ++ os.name ++ "] " ++ fault.message))
  if !faults.isEmpty then
    Command.fail (.of (Text.plural faults.length "problem" ++ " in " ++ tasks))
  else if settings.isTalkative then
    Command.print (Display.success (Text.plural file.entries.length "task" ++ " valid"))

def perform (settings : Settings) : Request → Command ρ Unit
  | .apply tasks devices dryRun forceTransfers yes =>
    apply settings tasks devices ⟨dryRun,forceTransfers⟩ yes
  | .plan tasks device snapshot os => plan settings tasks device snapshot os
  | .get path fields device snapshot find all =>
    getValues settings path fields device snapshot find all
  | .cmd command devices yes => cmd settings command devices yes
  | .checkConfig tasks => checkConfig settings tasks

def usage : String :=
  "usage: tikconf [-q] [--json] [-i INVENTORY] apply|plan|get|cmd|check-config ..."

def inventoryVariable : String := "TIKCONF_INVENTORY"

def brokenOffCode : Nat := 101

def run (args : List String) (h : Host ρ) : Nat × Host ρ :=
  match read? (h.environment.get? inventoryVariable) args with
  | none => (2,h.putError usage)
  | some (settings,request) =>
    match perform settings request { h with warns := !settings.quiet } with
    | (.ok (),h) => (0,h)
    | (.error (.failed f),h) => (1,h.putError ("Error: " ++ f.report))
    | (.error .brokenOff,h) => (brokenOffCode,h)

end RouterReconciler.CommandLine

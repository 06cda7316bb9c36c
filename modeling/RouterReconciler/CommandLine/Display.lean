import RouterReconciler.Fleet.Report
import RouterReconciler.Local.Files
import RouterReconciler.Plan
import RouterReconciler.Task
import RouterReconciler.Text.LineDiff
import RouterReconciler.Text.Phrase

/-!
What commands show of plans and reports, as texts.
-/
namespace RouterReconciler.Display

def header (title : String) : String :=
  "\n" ++ title ++ "\n" ++ String.ofList (List.replicate title.length '─') ++ "\n"

def sectionTitle (title : String) : String := "\n" ++ title ++ "\n"

def entry (key value : String) : String := "  " ++ key ++ ": " ++ value ++ "\n"

def info (message : String) : String := "ℹ " ++ message ++ "\n"
def success (message : String) : String := "✓ " ++ message ++ "\n"
def warning (message : String) : String := "⚠ " ++ message ++ "\n"
def error (message : String) : String := "✗ " ++ message

def valueText : Json → String
  | .str s => s
  | j => j.sorted.compact

def values (returned : ReturnValues) : String :=
  String.join (returned.sorted.toList.map
    (fun e => entry e.1 (Text.truncate 100 (valueText e.2))))

def symbol : Operation → String
  | .add _ _ => "+"
  | .remove _ => "-"
  | .set _ _ => "~"
  | .move _ _ => "↕"
  | .enable _ => "○"
  | .disable _ => "○"

def numbered (index : Nat) (text : String) : String := "[" ++ toString (index + 1) ++ "] " ++ text

def planStatus (p : Plan) : String :=
  if p.operations.isEmpty then if p.drift then "drift" else "ok"
  else Text.plural p.operations.length "change"

def plan (index : Nat) (task : Task) (p : Plan) : String :=
  numbered index task.text ++ " " ++ planStatus p ++ "\n" ++
    String.join (p.operations.map (fun o => "    " ++ symbol o ++ " " ++ o.text ++ "\n")) ++
    values p.returnValues

def unplanned (index : Nat) (task : Task) : String :=
  numbered index task.text ++ " (runs on apply)\n"

def planSummary (c : ChangeCount) : String :=
  if c.total = 0 then "\n  ✓ No changes needed\n"
  else
    "\n  Summary: " ++ Text.plural c.total "change" ++ " (" ++ toString c.additions ++ " add, " ++
      toString c.removals ++ " remove, " ++ toString c.modifications ++ " set, " ++
      toString c.moves ++ " move, " ++ toString c.toggles ++ " toggle)\n"

def tally (t : Tally) : String :=
  toString t.changed ++ " changed, " ++ toString t.unchanged ++ " ok, " ++ toString t.failed ++
    " failed, " ++ toString t.skipped ++ " skipped"

def fileChanges (files : Files) (old new : String) : List String :=
  match files.open? old, files.open? new with
  | .ok before, .ok after => LineDiff.changes before after
  | _, _ => []

def backupChanges (files : Files) (returned : ReturnValues) : String :=
  match returned.get? "backup" with
  | some (.str backup) =>
    match Text.dropSuffix? backup ".bak" with
    | some current =>
      String.join ((fileChanges files backup current).map (fun line => "    " ++ line ++ "\n"))
    | none => ""
  | _ => ""

def status (r : DeviceReport) : String :=
  if r.isFailed then "failed" else if r.outcome.changed then "changed" else "ok"

def report (files : Files) (r : DeviceReport) : String :=
  let os := match r.os with
    | some os => " (" ++ os.name ++ ")"
    | none => ""
  let reason := match r.failureMessage? with
    | some reason => "    " ++ reason ++ "\n"
    | none => ""
  (if r.isFailed then "✗ " else "✓ ") ++ r.device ++ os ++ " " ++ status r ++ "\n" ++ reason ++
    (if r.tally.total = 0 then "" else "  " ++ tally r.tally ++ "\n") ++
    values r.outcome.returnValues ++ backupChanges files r.outcome.returnValues

def total (reports : List DeviceReport) : String :=
  let t := DeviceReport.total reports
  let line := Text.plural t.changed "task" ++ " changed, " ++ toString t.unchanged ++ " ok, " ++
    toString t.failed ++ " failed, " ++ toString t.skipped ++ " skipped across " ++
    Text.plural reports.length "device"
  "\n" ++ (if reports.any DeviceReport.isFailed then warning line else success line)

def table (members : List (String × Json)) : String :=
  String.join (members.map (fun m => entry m.1 (valueText m.2)))

def numberedRecord (index : Nat) (j : Json) : String :=
  sectionTitle ("#" ++ toString (index + 1)) ++
    match j with
    | .table members => table members
    | other => "  " ++ other.compact ++ "\n"

def recordsFrom (index : Nat) : List Json → String
  | [] => ""
  | j :: rest => numberedRecord index j ++ recordsFrom (index + 1) rest

def readValues : Json → String
  | .table members => table members
  | .list records => recordsFrom 0 records
  | other => other.compact ++ "\n"

end RouterReconciler.Display

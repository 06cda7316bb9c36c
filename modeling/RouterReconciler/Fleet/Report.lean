import RouterReconciler.Json.Printer
import RouterReconciler.Run.Outcome
import RouterReconciler.Facility

/-!
What a run came to on each device: the outcome of its tasks, or why they were not begun.
-/
namespace RouterReconciler

structure DeviceReport where
  device : String
  os : Option Generation
  outcome : Outcome
  tally : Tally
  setupError : Option String

def ReturnValues.toJson (values : ReturnValues) : Json := (Json.table values.toList).sorted

def Error.toJson (e : Error) : Json :=
  .table [("kind",.str e.kind.name),("message",.str e.message)]

namespace DeviceReport

def notStarted (device : String) (os : Option Generation) (reason : String) : DeviceReport :=
  ⟨device,os,{ Outcome.unchanged with failed := true },{ Tally.zero with failed := 1 },some reason⟩

def cancelled (device : String) : DeviceReport :=
  ⟨device,none,.unchanged,{ Tally.zero with skipped := 1 },some "cancelled before start"⟩

def isFailed (r : DeviceReport) : Bool := r.outcome.failed

def failureMessage? (r : DeviceReport) : Option String :=
  r.setupError.orElse fun _ => r.outcome.error.map Error.message

def optional {α : Type} (key : String) (toJson : α → Json) : Option α → List (String × Json)
  | some a => [(key,toJson a)]
  | none => []

def toJson (r : DeviceReport) : Json :=
  .table ([("device",.str r.device)] ++ optional "os" (fun os => .str (Generation.name os)) r.os ++
    [("changed",.bool r.outcome.changed),("failed",.bool r.outcome.failed),
      ("return_values",r.outcome.returnValues.toJson)] ++
    optional "error" Error.toJson r.outcome.error ++ optional "setup_error" Json.str r.setupError)

def total (reports : List DeviceReport) : Tally :=
  reports.foldl (fun t r => t.merge r.tally) .zero

end DeviceReport
end RouterReconciler

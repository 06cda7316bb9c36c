import RouterReconciler.Fleet.Inventory
import RouterReconciler.Fleet.Report
import RouterReconciler.Run.Tasks

/-!
Running tasks on several devices, one after the other. A device that cannot be reached, or whose
tasks cannot be built, is reported and does not keep the others from being run.
-/
namespace RouterReconciler

structure Opened (σ τ : Type) where
  name : String
  os : Generation
  session : Session σ τ

structure Fleet (w σ τ : Type) where
  openDevice : DeviceEntry → Step (Halt Failure) w (Opened σ τ)
  closeDevice : Session σ τ → w → w
  warn : String → w → w

namespace Fleet
variable {w σ τ : Type} [Device σ] [FileTransfer σ τ] [PatternEngine]

def runDevice (fleet : Fleet w σ τ) (build : Generation → Except Failure (List Task))
    (options : RunOptions) (d : DeviceEntry) : Unfailing w DeviceReport := fun world =>
  match fleet.openDevice d world with
  | (.error .brokenOff,world) => (.error .brokenOff,world)
  | (.error (.failed f),world) => (.ok (.notStarted d.name none f.summary),world)
  | (.ok opened,world) =>
    match build opened.os with
    | .error f =>
      (.ok (.notStarted d.name (some opened.os) f.summary),fleet.closeDevice opened.session world)
    | .ok tasks =>
      match Session.runTasks options (fun _ => false) tasks opened.session with
      | (.error e,session) => (.error e,fleet.closeDevice session world)
      | (.ok (outcome,tally),session) =>
        (.ok ⟨d.name,some opened.os,outcome,tally,none⟩,fleet.closeDevice session world)

def warnOf (fleet : Fleet w σ τ) (r : DeviceReport) (world : w) : w :=
  if r.isFailed then
    fleet.warn (r.device ++ ": " ++ r.failureMessage?.getD "failed") world
  else world

def run (fleet : Fleet w σ τ) (build : Generation → Except Failure (List Task))
    (options : RunOptions) (isCancelled : Bool) : List DeviceEntry → Unfailing w (List DeviceReport)
  | [] => return []
  | d :: rest => do
    let report ←
      if isCancelled then pure (DeviceReport.cancelled d.name)
      else fleet.runDevice build options d
    .modify (fleet.warnOf report)
    let others ← fleet.run build options isCancelled rest
    return report :: others

end Fleet
end RouterReconciler

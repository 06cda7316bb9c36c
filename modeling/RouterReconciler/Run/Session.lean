import RouterReconciler.Device.Basic
import RouterReconciler.Run.Outcome
import RouterReconciler.Task
import RouterReconciler.Transfer

/-!
A session: a device, a file transfer if there is one, the local files, and what has been observed
of the run so far.
-/
namespace RouterReconciler

inductive Event where
  | started (task : Task)
  | performed (path : FacilityPath) (operation : Operation)
  | finished (task : Task) (outcome : Outcome)

structure Session (σ τ : Type) where
  device : σ
  transfer : Option τ
  files : Files
  events : List Event

structure RunOptions where
  dryRun : Bool
  forceTransfers : Bool
  deriving DecidableEq

def RunOptions.transfersApply (o : RunOptions) : Bool := !o.dryRun || o.forceTransfers

namespace Session
variable {ε σ τ α : Type}

def onDevice (step : Step ε σ α) : Step ε (Session σ τ) α := fun s =>
  match step s.device with
  | (answer,d) => (answer,{ s with device := d })

def onExchange (what : String) (step : Access (Exchange σ τ) α) : Access (Session σ τ) α := fun s =>
  match s.transfer with
  | none =>
    (.error (.unsupportedOperation what "no file transfer configured for this device"),s)
  | some t =>
    match step ⟨s.device,t,s.files⟩ with
    | (answer,x) =>
      (answer,{ s with device := x.device, transfer := some x.transfer, files := x.files })

@[simp]
theorem onDeviceEnds {step : Step ε σ α} {s t : Session σ τ} {answer : Except ε α} :
    onDevice step s = (answer,t) ↔ ∃ d, step s.device = (answer,d) ∧ { s with device := d } = t := by
  unfold onDevice
  rcases step s.device with ⟨given,d⟩
  constructor
  · rintro ⟨⟩
    exact ⟨d,rfl,rfl⟩
  · rintro ⟨_,⟨⟩,rfl⟩
    rfl

def observe (event : Event) (s : Session σ τ) : Session σ τ := { s with events := s.events ++ [event] }

end Session
end RouterReconciler

import RouterReconciler.Proofs.Reconcile.Reads

/-! Requests: the operations that a device offers, as data. A run of requests goes on after one that
fails, and its history are all the states that the device has been in. -/
namespace RouterReconciler

inductive Request where
  | readOne (path : FacilityPath)
  | read (path : FacilityPath) (s : Selector)
  | evaluate (path : FacilityPath) (item : Option ItemId) (expressions : List (String × String))
  | add (path : FacilityPath) (values : Assignments) (before : Option ItemId)
  | remove (path : FacilityPath) (id : ItemId)
  | set (path : FacilityPath) (item : Option ItemId) (values : Assignments)
  | move (path : FacilityPath) (id : ItemId) (before : Option ItemId)
  | setDisabled (path : FacilityPath) (id : ItemId) (disabled : Bool)
  | run (command : String)

inductive Answer where
  | record (r : Record)
  | records (rs : List Record)
  | texts (values : List (String × String))
  | id (id : ItemId)
  | output (text : String)
  | done

namespace Request
variable {σ : Type} [Device σ]

def perform : Request → Inquiry σ Answer
  | .readOne path => do return .record (← Device.readOne path)
  | .read path s => do return .records (← Device.read path s)
  | .evaluate path item expressions => do return .texts (← Device.evaluate path item expressions)
  | .add path values before => do return .id (← (Device.add path values before : Access σ ItemId))
  | .remove path id => do
    (Device.remove path id : Access σ Unit)
    return .done
  | .set path item values => do
    (Device.set path item values : Access σ Unit)
    return .done
  | .move path id before => do
    (Device.move path id before : Access σ Unit)
    return .done
  | .setDisabled path id disabled => do
    (Device.setDisabled path id disabled : Access σ Unit)
    return .done
  | .run command => do return .output (← (Device.run command : Access σ String))

def after (requests : List Request) (d : σ) : σ :=
  requests.foldl (fun d request => (request.perform d).2) d

def history : List Request → σ → List σ
  | [], d => [d]
  | request :: rest, d => d :: history rest (request.perform d).2

theorem afterMem (requests : List Request) (d : σ) : after requests d ∈ history requests d := by
  induction requests generalizing d with
  | nil => exact List.mem_singleton.mpr rfl
  | cons request rest ih => exact List.mem_cons_of_mem _ (ih _)

theorem historyKeeps {I : σ → Prop} (requests : List Request)
    (each : ∀ request ∈ requests, Keeps I (request.perform : Inquiry σ Answer)) {d : σ} (start : I d) :
    ∀ m ∈ history requests d, I m := by
  induction requests generalizing d with
  | nil =>
    intro m mem
    rw [List.mem_singleton.mp mem]
    exact start
  | cons request rest ih =>
    obtain ⟨first,later⟩ := List.forall_mem_cons.mp each
    intro m mem
    rcases List.mem_cons.mp mem with rfl | mem
    · exact start
    · exact ih later (first d start) m mem

theorem afterKeeps {I : σ → Prop} (requests : List Request)
    (each : ∀ request ∈ requests, Keeps I (request.perform : Inquiry σ Answer)) {d : σ} (start : I d) :
    I (after requests d) := historyKeeps requests each start _ (afterMem requests d)

end Request
end RouterReconciler

/-!
What can go wrong while a facility is read or reconciled: the causes, their kinds, and the words
for them. Only a timeout is worth repeating, and only for a read.
-/
namespace RouterReconciler

inductive ErrorKind where
  | notFound
  | ambiguousMatch
  | duplicateKey
  | unsupportedOperation
  | encodingError
  | transportTimeout
  | partialApply
  | invalidTask
  | commandFailed
  | transport
  | file
  | document
  deriving DecidableEq

namespace ErrorKind

def description : ErrorKind → String
  | notFound => "Not found"
  | ambiguousMatch => "Ambiguous match"
  | duplicateKey => "Duplicate key"
  | unsupportedOperation => "Unsupported operation"
  | encodingError => "Encoding error"
  | transportTimeout => "Transport timeout"
  | partialApply => "Partially applied"
  | invalidTask => "Invalid task"
  | commandFailed => "Command rejected by device"
  | transport => "Connection failed"
  | file => "I/O error"
  | document => "Serialization error"

def advice : ErrorKind → String
  | notFound => "Check the find criteria, or use notfound-is-ok if absence is expected"
  | ambiguousMatch => "Narrow the find criteria so exactly one record matches"
  | duplicateKey => "Make the key fields unique across the desired records"
  | unsupportedOperation => "Check the facility path and the task mode"
  | encodingError => "Use the \x7b literal = ... \x7d form or remove control characters"
  | transportTimeout => "Check reachability of the device or raise timeout_secs"
  | partialApply => "Re-run the task; reconciliation converges from any state"
  | invalidTask => "Fix the task definition"
  | commandFailed => "Inspect the device response for the rejected parameter"
  | transport => "Check ssh access, credentials and the inventory entry"
  | file => "Check file paths and permissions"
  | document => "Check the snapshot or task file syntax"

def name : ErrorKind → String
  | notFound => "NotFound"
  | ambiguousMatch => "AmbiguousMatch"
  | duplicateKey => "DuplicateKey"
  | unsupportedOperation => "UnsupportedOperation"
  | encodingError => "EncodingError"
  | transportTimeout => "TransportTimeout"
  | partialApply => "PartialApply"
  | invalidTask => "InvalidTask"
  | commandFailed => "CommandFailed"
  | transport => "Transport"
  | file => "Io"
  | document => "Json"

end ErrorKind

inductive Error where
  | notFound (what : String)
  | ambiguousMatch (what : String) (count : Nat)
  | duplicateKey (key : String)
  | unsupportedOperation (operation reason : String)
  | encoding (message : String)
  | transportTimeout (host : String) (milliseconds : Nat)
  | transport (host message : String)
  | commandFailed (command message : String)
  | invalidTask (message : String)
  | partialApply (applied : Nat) (lastApplied : Option Nat) (source : Error)
  | inTask (path mode : String) (record : Option Nat) (source : Error)
  | file (message : String)
  | document
  deriving DecidableEq

namespace Error

def documentFault : String := "the text is not a document of the expected form"

def kind : Error → ErrorKind
  | notFound _ => .notFound
  | ambiguousMatch _ _ => .ambiguousMatch
  | duplicateKey _ => .duplicateKey
  | unsupportedOperation _ _ => .unsupportedOperation
  | encoding _ => .encodingError
  | transportTimeout _ _ => .transportTimeout
  | transport _ _ => .transport
  | commandFailed _ _ => .commandFailed
  | invalidTask _ => .invalidTask
  | partialApply _ _ _ => .partialApply
  | inTask _ _ _ source => source.kind
  | file _ => .file
  | document => .document

def message : Error → String
  | notFound what => "not found: " ++ what
  | ambiguousMatch what count => toString count ++ " records match " ++ what ++ ", expected exactly one"
  | duplicateKey key => "duplicate key: " ++ key
  | unsupportedOperation operation reason => "unsupported operation " ++ operation ++ ": " ++ reason
  | encoding m => "cannot encode value: " ++ m
  | transportTimeout host ms => "timed out after " ++ toString (ms / 1000) ++ "s talking to " ++ host
  | transport host m => "transport error on " ++ host ++ ": " ++ m
  | commandFailed command m => "command failed: " ++ m ++ " (command: " ++ command ++ ")"
  | invalidTask m => "invalid task: " ++ m
  | partialApply applied _ source =>
    "applied " ++ toString applied ++ " operation(s) before failing: " ++ source.message
  | inTask path mode record source =>
    path ++ " [" ++ mode ++ "]" ++
      (match record with
        | some n => " record #" ++ toString n
        | none => "") ++ ": " ++ source.message
  | file m => "IO error: " ++ m
  | document => "JSON error: " ++ documentFault

def isRetryable (e : Error) : Bool := e.kind = .transportTimeout

def appliedWrites : Error → Nat
  | partialApply applied _ _ => applied
  | inTask _ _ _ source => source.appliedWrites
  | _ => 0

def within (path mode : String) (record : Option Nat) : Error → Error
  | inTask p m r source => inTask p m r source
  | e => inTask path mode record e

theorem kindWithin (path mode : String) (record : Option Nat) (e : Error) :
    (e.within path mode record).kind = e.kind := by
  cases e <;> rfl

end Error

/-- Why there is no answer: it has failed, or the program itself has broken off, which nothing handles. A
program breaks off over a text that it cannot read to the end as a duration. -/
inductive Halt (ε : Type) where
  | failed (e : ε)
  | brokenOff
  deriving DecidableEq

namespace Halt
variable {ε δ α : Type}

def map (f : ε → δ) : Halt ε → Halt δ
  | failed e => failed (f e)
  | brokenOff => brokenOff

def orBroken : Option α → Except (Halt ε) α
  | some a => .ok a
  | none => .error brokenOff

theorem orBrokenOk {x : Option α} {a : α} : (orBroken x : Except (Halt ε) α) = .ok a ↔ x = some a := by
  cases x <;> simp [orBroken]

theorem orBrokenError {x : Option α} {e : Halt ε} : orBroken x = .error e ↔ x = none ∧ brokenOff = e := by
  cases x <;> simp [orBroken]

end Halt

instance {ε : Type} : MonadLift (Except ε) (Except (Halt ε)) := ⟨Except.mapError .failed⟩

abbrev Judgement := Except (Halt Error)

@[simp]
theorem exceptBindOk {ε α β : Type} {x : Except ε α} {f : α → Except ε β} {b : β} :
    (x >>= f) = .ok b ↔ ∃ a, x = .ok a ∧ f a = .ok b := by
  cases x <;> simp [bind,Except.bind]

@[simp]
theorem exceptMapErrorOk {ε δ α : Type} {x : Except ε α} {f : ε → δ} {a : α} :
    x.mapError f = .ok a ↔ x = .ok a := by
  cases x with
  | error e => exact ⟨nofun,nofun⟩
  | ok b =>
    show Except.ok b = .ok a ↔ _
    simp

theorem exceptMapErrorError {ε δ α : Type} {x : Except ε α} {f : ε → δ} {d : δ} :
    x.mapError f = .error d ↔ ∃ e, x = .error e ∧ f e = d := by
  cases x with
  | error c =>
    show Except.error (f c) = .error d ↔ _
    simp
  | ok b => exact ⟨nofun,nofun⟩

@[simp]
theorem exceptLiftOk {ε α : Type} {x : Except ε α} {a : α} :
    (liftM x : Except (Halt ε) α) = .ok a ↔ x = .ok a :=
  exceptMapErrorOk

end RouterReconciler

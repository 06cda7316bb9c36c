import RouterReconciler.Failure
import RouterReconciler.Json.Parser
import RouterReconciler.Local.Files
import RouterReconciler.Toml.Parser

/-!
Documents in local files: JSON where the name says so, TOML everywhere else.
-/
namespace RouterReconciler

inductive DocumentFormat where
  | json
  | toml
  deriving DecidableEq

namespace DocumentFormat

def ofPath (path : String) : DocumentFormat :=
  if LocalPath.extension? path = some "json" then json else toml

def name : DocumentFormat → String
  | json => "JSON"
  | toml => "TOML"

def parse? (part : Json.Part) : DocumentFormat → String → Option Json
  | json, text => Json.parsePart? part text
  | toml, text => (Toml.parse? text).bind part.take?

def addsNothing : DocumentFormat → Json → Bool
  | json, .null => true
  | toml, .list [] => true
  | toml, .table [] => true
  | _, _ => false

end DocumentFormat

namespace Files

def load {α : Type} (f : Files) (path : String) (part : Json.Part)
    (read : DocumentFormat → Json → Option α) : Except Failure α :=
  match f.open? path with
  | .error fault => .error ((Failure.of fault.text).within ("Could not read " ++ path))
  | .ok text =>
    let format := DocumentFormat.ofPath path
    match (format.parse? part text).bind (read format) with
    | some a => .ok a
    | none =>
      .error ((Failure.of Error.documentFault).within ("Invalid " ++ format.name ++ " in " ++ path))

end Files
end RouterReconciler

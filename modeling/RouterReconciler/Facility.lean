import RouterReconciler.Error
import RouterReconciler.Text.Basic
import RouterReconciler.Text.Numeral
import RouterReconciler.Text.Shown

/-!
Facilities: the path that names one, the shape that says how its records are addressed, and the
generation of the firmware, which decides where some of them are.
-/
namespace RouterReconciler

structure FacilityPath where
  text : String
  deriving DecidableEq

namespace FacilityPath

def isScriptSyntax (c : Char) : Bool :=
  c == ';' || c == '[' || c == ']' || c == '\x7b' || c == '\x7d' || c == '"' || c == '$'

def normalise (s : String) : List Char := [' '].intercalate (Text.words s.toList)

def parse (s : String) : Except Error FacilityPath :=
  match normalise s with
  | '/' :: c :: rest =>
    if (c :: rest).any isScriptSyntax then
      .error (.invalidTask ("facility path contains script syntax: " ++ Text.shown s))
    else .ok ⟨String.ofList ('/' :: c :: rest)⟩
  | _ => .error (.invalidTask ("facility path must start with '/': " ++ Text.shown s))

end FacilityPath

inductive Shape where
  | singleton
  | unordered
  | ordered
  deriving DecidableEq

def Shape.name : Shape → String
  | .singleton => "singleton"
  | .unordered => "unordered"
  | .ordered => "ordered"

structure Facility where
  path : FacilityPath
  shape : Shape
  deriving DecidableEq

inductive Generation where
  | v6
  | v7
  deriving DecidableEq

namespace Generation

def name : Generation → String
  | v6 => "v6"
  | v7 => "v7"

def ofVersion? (version : String) : Option Generation :=
  match Text.natural? Text.maxWord32 ((Text.trimChars version.toList).takeWhile Char.isDigit) with
  | some n => if n ≤ 5 then none else if n = 6 then some v6 else some v7
  | none => none

end Generation
end RouterReconciler

import RouterReconciler.Criteria
import RouterReconciler.Failure
import RouterReconciler.Json.Reading
import RouterReconciler.Task
import RouterReconciler.Text.Numeral

/-!
The values, conditions and assignments that the parameters of an entry stand for, and what can be
wrong with an entry. A table of one member, `literal` or `is_set`, keeps a text from being read as
a condition, or asks for presence alone.
-/
namespace RouterReconciler.TaskFile

inductive Fault where
  | invalid (message : String)
  | badValue (key message : String)
  | task (e : Error)
  | inEntry (label : String) (source : Fault)
  deriving DecidableEq

namespace Fault

def message : Fault → String
  | invalid m => m
  | badValue key m => key ++ ": " ++ m
  | task e => e.message
  | inEntry label source => "task " ++ label ++ ": " ++ source.message

def causes : Fault → List String
  | task e => e.causes
  | inEntry _ source => source.message :: source.causes
  | _ => []

def root : Fault → Fault
  | inEntry _ source => source.root
  | fault => fault

def toFailure (fault : Fault) : Failure := ⟨fault.message,fault.causes⟩

end Fault

def numberValue (n : Number) : Value :=
  match n with
  | .whole i => if Text.isInt64 i then .int i else .str n.text
  | .double _ => .str n.text

def plainValue? : Json → Option Value
  | .bool b => some (.bool b)
  | .number n => some (numberValue n)
  | .str s => some (.str s)
  | _ => none

def plainValues? : List Json → Option (List Value) := Json.each? plainValue?

def valueOf (key : String) : Json → Except Fault (Option Value)
  | .null => .ok none
  | .list items =>
    match plainValues? items with
    | some values => .ok (some (.list values))
    | none => .error (.badValue key "list elements must be plain values")
  | .table _ => .error (.badValue key "unexpected table")
  | j => .ok (plainValue? j)

def tableCondition (key : String) (members : Entries Json) : Except Fault Condition :=
  match members.toList with
  | [("literal",j)] =>
    match valueOf key j with
    | .ok (some v) => .ok (.literal v)
    | .ok none => .error (.badValue key "literal needs a value")
    | .error fault => .error fault
  | [("is_set",.bool true)] => .ok .isSet
  | [("is_set",.bool false)] => .ok .notSet
  | _ =>
    .error (.badValue key "expected \x7b literal = ... \x7d or \x7b is_set = true|false \x7d")

def conditionOf (key : String) (j : Json) : Except Fault Condition :=
  if key = rawKey then
    match j with
    | .str expression => .ok (.raw expression)
    | _ => .error (.badValue key "raw filter must be a string")
  else match j with
    | .table members => tableCondition key (Json.entriesOf members)
    | _ => (valueOf key j).map Condition.ofValue

def readEach {α β : Type} (read : String → α → Except Fault β) :
    List (String × α) → Except Fault (List (String × β))
  | [] => .ok []
  | (key,a) :: rest => do
    let b ← read key a
    let others ← readEach read rest
    .ok ((key,b) :: others)

def criteriaOf (table : Entries Json) : Except Fault Criteria :=
  (readEach conditionOf table.toList).map Entries.ofList

def criteriaOfEach : List (Entries Json) → Except Fault (List Criteria)
  | [] => .ok []
  | row :: rest => do
    let line ← criteriaOf row
    let others ← criteriaOfEach rest
    .ok (line :: others)

def assignmentOf (key : String) : Json → Except Fault Assignment
  | .table members =>
    match tableCondition key (Json.entriesOf members) with
    | .ok (.literal v) => .ok (.value v)
    | .ok .notSet => .ok .unset
    | .ok _ => .error (.badValue key "cannot set a parameter to \"is set\"")
    | .error fault => .error fault
  | j =>
    match valueOf key j with
    | .ok (some (.str s)) => .ok (if s = "!" then .unset else .value (.str s))
    | .ok (some v) => .ok (.value v)
    | .ok none => .error (.badValue key "set needs a value")
    | .error fault => .error fault

def assignmentsOf (table : Entries Json) : Except Fault Assignments :=
  (readEach assignmentOf table.toList).map Entries.ofList

def axisValues (key : String) : List Json → Except Fault (List Value)
  | [] => .ok []
  | j :: rest =>
    match valueOf key j with
    | .ok (some v) => (axisValues key rest).map (v :: ·)
    | .ok none => .error (.badValue key "iterate values cannot be null")
    | .error fault => .error fault

def axesOf (table : Entries (List Json)) : Except Fault (List (String × List Value)) :=
  readEach axisValues table.toList

def fieldOf (shownAs : String) : Json → Except Fault String
  | .null => .ok shownAs
  | .bool true => .ok shownAs
  | .str s => .ok (if s.isEmpty then shownAs else s)
  | _ => .error (.badValue shownAs "expected a parameter name or expression")

end RouterReconciler.TaskFile

import RouterReconciler.Record
import RouterReconciler.Value.Literal

/-!
Conditions on parameters and ordered lists of them. The same criteria say which records are meant
and, as far as their conditions can be written, what to write: a literal is set, "unset" is
removed. Criteria that name a factory record by `default` or `default-name` identify it by those
clauses alone.
-/
namespace RouterReconciler

inductive Condition where
  | literal (v : Value)
  | isSet
  | notSet
  | notEqual (v : Value)
  | matchesPattern (pattern : String)
  | avoidsPattern (pattern : String)
  | raw (expression : String)
  deriving DecidableEq

namespace Condition

def ofText (s : String) : Condition :=
  if s = "!" then .notSet
  else match Text.dropPrefix? s "!~ " with
    | some pattern => .avoidsPattern pattern
    | none =>
      match Text.dropPrefix? s "! " with
      | some rest => .notEqual (.str rest)
      | none =>
        match Text.dropPrefix? s "~ " with
        | some pattern => .matchesPattern pattern
        | none => .literal (.str s)

def ofValue : Option Value → Condition
  | none => .isSet
  | some (.str s) => ofText s
  | some v => .literal v

def assignment? : Condition → Option Assignment
  | .literal v => some (.value v)
  | .notSet => some .unset
  | _ => none

def text : Condition → String
  | .literal v => "=" ++ v.canonical
  | .isSet => " is set"
  | .notSet => " is unset"
  | .notEqual v => "!=" ++ v.canonical
  | .matchesPattern p => "~" ++ p
  | .avoidsPattern p => "!~" ++ p
  | .raw e => " (" ++ e ++ ")"

def isRaw : Condition → Bool
  | .raw _ => true
  | _ => false

end Condition

abbrev Criteria := Entries Condition

def rawKey : String := "_raw"

def defaultNameKeys : List String := ["default","default-name"]

namespace Criteria

def hasRaw (c : Criteria) : Bool := c.values.any Condition.isRaw

def namesDefault (c : Criteria) : Bool := c.keys.any (fun k => defaultNameKeys.contains k)

def addFrom (done : Assignments) : List (String × Condition) → Except Error Assignments
  | [] => .ok done
  | (key,.literal v) :: rest =>
    match v.checkWritable with
    | .ok () => addFrom (done.insert key (.value v)) rest
    | .error e => .error e
  | _ :: rest => addFrom done rest

def addValues (c : Criteria) : Except Error Assignments := addFrom ∅ c.toList

def setFrom (done : Assignments) : List (String × Condition) → Except Error Assignments
  | [] => .ok done
  | (key,condition) :: rest =>
    if key = rawKey then setFrom done rest
    else match condition.assignment? with
      | some (.value v) =>
        match v.checkWritable with
        | .ok () => setFrom (done.insert key (.value v)) rest
        | .error e => .error e
      | some .unset => setFrom (done.insert key .unset) rest
      | none => setFrom done rest

def setValues (c : Criteria) : Except Error Assignments := setFrom ∅ c.toList

def identity (c : Criteria) : Criteria := c.filter (fun key _ => defaultNameKeys.contains key)

def writableFrom (done : Assignments) : List (String × Condition) → Assignments
  | [] => done
  | (key,condition) :: rest =>
    if defaultNameKeys.contains key then writableFrom done rest
    else match condition.assignment? with
      | some a => writableFrom (done.insert key a) rest
      | none => writableFrom done rest

/-- Splits criteria that name a factory record into the clauses that identify it and what the
other clauses write; clauses that can only be matched are dropped. -/
def splitDefault? (c : Criteria) : Option (Criteria × Assignments) :=
  if c.namesDefault then some (c.identity,writableFrom ∅ c.toList) else none

def alongAxis (key : String) (values : List Value) (base : Criteria) : List Criteria :=
  values.map (fun v => base.insert key (.ofValue (some v)))

def iterate (base : Criteria) (axes : List (String × List Value)) : List Criteria :=
  axes.foldl (fun combos axis => combos.flatMap (alongAxis axis.1 axis.2)) [base]

def clauseText (key : String) : Condition → String
  | .raw e => "(" ++ e ++ ")"
  | c => key ++ c.text

def text (c : Criteria) : String :=
  if c.isEmpty then "(any)"
  else " ".intercalate (c.toList.map (fun clause => clauseText clause.1 clause.2))

end Criteria
end RouterReconciler

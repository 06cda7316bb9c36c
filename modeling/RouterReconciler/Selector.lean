import RouterReconciler.Criteria
import RouterReconciler.Error

/-!
Selectors: criteria whose patterns have been read, together with the kinds of record that are left
out. A selector is matched against a record here, or rendered as a filter for the device.
-/
namespace RouterReconciler

/-- An engine for search patterns: the search that a pattern stands for, or why it stands for none. -/
class PatternEngine where
  compile : String → Except String (String → Bool)

inductive Test where
  | literal (v : Value)
  | isSet
  | notSet
  | notEqual (v : Value)
  | matching (search : String → Bool)
  | avoiding (search : String → Bool)
  | raw (expression : String)

structure Selector where
  criteria : Criteria
  tests : List (String × Test)
  skipDynamic : Bool
  skipBuiltin : Bool
  skipDefault : Bool

namespace Test
variable [PatternEngine]

def readPattern (key text : String) : Except Error (String → Bool) :=
  match PatternEngine.compile text with
  | .ok search => .ok search
  | .error refusal => .error (.invalidTask ("bad pattern for " ++ key ++ ": " ++ refusal))

def ofCondition (key : String) : Condition → Except Error Test
  | .literal v => .ok (.literal v)
  | .isSet => .ok .isSet
  | .notSet => .ok .notSet
  | .notEqual v => .ok (.notEqual v)
  | .matchesPattern p => (readPattern key p).map .matching
  | .avoidsPattern p => (readPattern key p).map .avoiding
  | .raw e => .ok (.raw e)

def ofClauses : List (String × Condition) → Except Error (List (String × Test))
  | [] => .ok []
  | (key,c) :: rest =>
    match ofCondition key c with
    | .error e => .error e
    | .ok test =>
      match ofClauses rest with
      | .ok others => .ok ((key,test) :: others)
      | .error e => .error e

def passes : Test → (actual : Option Value) → Judgement Bool
  | .literal _, none | .notEqual _, none => .ok false
  | .literal v, some a => Halt.orBroken (v.equal? a)
  | .notEqual v, some a => Halt.orBroken ((v.equal? a).map not)
  | .isSet, actual => .ok (actual.any (fun a => a.asBool? != some false && !a.isEmpty))
  | .notSet, actual => .ok actual.isNone
  | .matching search, actual => .ok (actual.any fun a => search a.text)
  | .avoiding search, actual => .ok (!actual.any fun a => search a.text)
  | .raw e, _ =>
    .error (.failed (.unsupportedOperation "local match"
      ("raw expression (" ++ e ++ ") can only be evaluated by the device")))

end Test

namespace Selector

def ofCriteria [PatternEngine] (criteria : Criteria) : Except Error Selector :=
  match Test.ofClauses criteria.toList with
  | .ok tests => .ok ⟨criteria,tests,false,false,false⟩
  | .error e => .error e

def all : Selector := ⟨∅,[],false,false,false⟩

def excludingDynamic (s : Selector) : Selector := { s with skipDynamic := true }

def excludingBuiltin (s : Selector) : Selector := { s with skipBuiltin := true }

def removable (s : Selector) : Selector :=
  { s with skipDynamic := true, skipBuiltin := true, skipDefault := true }

def isLocal (s : Selector) : Bool := !s.criteria.hasRaw

def isSkipped (s : Selector) (r : Record) : Bool :=
  (s.skipDynamic && r.flag "dynamic") || (s.skipBuiltin && r.flag "builtin") ||
    (s.skipDefault && r.flag "default")

def passesAll (r : Record) : List (String × Test) → Judgement Bool
  | [] => .ok true
  | (key,test) :: rest =>
    match test.passes (r.get? key) with
    | .ok true => passesAll r rest
    | .ok false => .ok false
    | .error e => .error e

def matches? (s : Selector) (r : Record) : Judgement Bool :=
  if s.isSkipped r then .ok false else passesAll r s.tests

def select (s : Selector) : List Record → Judgement (List Record)
  | [] => .ok []
  | r :: rest =>
    match s.matches? r with
    | .error e => .error e
    | .ok hit =>
      match select s rest with
      | .ok others => .ok (if hit then r :: others else others)
      | .error e => .error e

def filterClause (key : String) : Condition → Except Error String
  | .literal v => v.encode.map (fun t => key ++ "=" ++ t)
  | .isSet => .ok key
  | .notSet => .ok ("!" ++ key)
  | .notEqual v => v.encode.map (fun t => key ++ "!=" ++ t)
  | .matchesPattern p => (Value.quote p).map (fun t => key ++ "~" ++ t)
  | .avoidsPattern p => (Value.quote p).map (fun t => "!(" ++ key ++ "~" ++ t ++ ")")
  | .raw e => .ok ("(" ++ e ++ ")")

def filterClauses : List (String × Condition) → Except Error (List String)
  | [] => .ok []
  | (key,c) :: rest =>
    match filterClause key c with
    | .error e => .error e
    | .ok clause =>
      match filterClauses rest with
      | .ok others => .ok (clause :: others)
      | .error e => .error e

def filter (s : Selector) : Except Error String :=
  match filterClauses s.criteria.toList with
  | .error e => .error e
  | .ok clauses =>
    .ok (" ".intercalate (clauses ++ (if s.skipDefault then ["!default"] else []) ++
      (if s.skipBuiltin then ["!builtin"] else []) ++ (if s.skipDynamic then ["!dynamic"] else [])))

end Selector
end RouterReconciler

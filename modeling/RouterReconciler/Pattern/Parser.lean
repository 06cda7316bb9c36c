import RouterReconciler.Pattern.Bracket
import RouterReconciler.Text.Alphanumeric

/-!
The notation of search patterns: literals, `.`, classes with ranges, nested classes and set
operations, escapes, anchors, repetitions, groups, alternatives and flags. A repetition needs
something to repeat, brackets must close, and there is no look-around. A pattern may nest only so
deep, and its automaton may grow only so large. What a group captures is not kept.
-/
namespace RouterReconciler.Pattern
namespace Parser

def count (cs : List Char) : Except Fault Nat × List Char :=
  let body := cs.dropWhile Text.isBlank
  let digits := body.takeWhile Char.isDigit
  let after := body.drop digits.length
  let value :=
    match Text.digits? digits with
    | none => .error (.first .missingCount body)
    | some n => if n ≤ Text.maxWord32 then .ok n else .error (.between .hugeCount body after)
  (value,after.dropWhile Text.isBlank)

def dropLazy (f : Flags) (cs : List Char) : List Char :=
  match f.skip cs with
  | '?' :: rest => rest
  | other => other

def bounds (f : Flags) (body : List Char) : Except Fault (WithRest (Nat × Option Nat)) :=
  let start := '\x7b' :: body
  let unclosed (stop : List Char) : Except Fault (WithRest (Nat × Option Nat)) :=
    .error (.between .unclosedCount start stop)
  match f.skip body with
  | [] => unclosed []
  | body =>
    let (low,rest) := count body
    match rest with
    | [] => unclosed []
    | ',' :: tail =>
      match f.skip tail with
      | [] => unclosed []
      | '\x7d' :: rest => low.map fun low => ((low,none),rest)
      | tail => do
        let low ← low
        let (high,rest) := count tail
        let high ← high
        match rest with
        | '\x7d' :: rest =>
          if low ≤ high then .ok ((low,some high),rest)
          else .error (.between .emptyCount start (dropLazy f rest))
        | rest => unclosed rest
    | '\x7d' :: rest => low.map fun low => ((low,some low),rest)
    | rest => do
      let _ ← low
      unclosed rest

def repetitions (f : Flags) : (fuel : Nat) → Piece → List Char → Except Fault (WithRest Piece)
  | 0, a, cs => .ok (a,cs)
  | fuel + 1, a, cs =>
    match f.skip cs with
    | '*' :: rest => repetitions f fuel (a.repeated (0,none)) (dropLazy f rest)
    | '+' :: rest => repetitions f fuel (a.repeated (1,none)) (dropLazy f rest)
    | '?' :: rest => repetitions f fuel (a.repeated (0,some 1)) (dropLazy f rest)
    | '\x7b' :: rest => do
      let (limits,rest) ← bounds f rest
      repetitions f fuel (a.repeated limits) (dropLazy f rest)
    | rest => .ok (a,rest)

def setFlag? (f : Flags) (on : Bool) : Char → Option Flags
  | 'i' => some { f with ignoreCase := on }
  | 'm' => some { f with multiLine := on }
  | 's' => some { f with dotAll := on }
  | 'x' => some { f with verbose := on }
  | 'R' => some { f with crlf := on }
  | 'U' | 'u' => some f
  | _ => none

def flagLetters (on : Bool) (seen : List (Char × List Char)) (f : Flags) :
    List Char → Except Fault (WithRest Flags)
  | [] => .error (.first .unfinishedFlags [])
  | c :: rest =>
    let here := c :: rest
    if c = ':' ∨ c = ')' then
      match seen with
      | ('-',dash) :: _ => .error (.first .danglingNegation dash)
      | _ => .ok (f,here)
    else
      match seen.lookup c, setFlag? f on c with
      | some earlier, _ =>
        .error ⟨if c = '-' then .repeatedNegation else .repeatedFlag,[⟨earlier,1⟩,⟨here,1⟩]⟩
      | none, some changed => flagLetters on ((c,here) :: seen) changed rest
      | none, none =>
        if c = '-' then flagLetters false ((c,here) :: seen) f rest
        else .error (.first .unknownFlag here)

def isNameStart (c : Char) : Bool := Text.isAlphabetic c || c == '_'

def isNamePart (c : Char) : Bool :=
  Text.isAlphanumeric c || c == '_' || c == '.' || c == '[' || c == ']'

def groupName (cs : List Char) : Except Fault (WithRest String) :=
  match cs with
  | [] => .error (.first .unfinishedName [])
  | '>' :: _ => .error (.first .emptyName cs)
  | c :: rest =>
    if isNameStart c then
      let name := c :: rest.takeWhile isNamePart
      match rest.dropWhile isNamePart with
      | [] => .error (.first .unfinishedName [])
      | '>' :: rest => .ok (String.ofList name,rest)
      | other => .error (.first .nameCharacter other)
    else .error (.first .nameCharacter cs)

def newName (names : List String) (cs : List Char) : Except Fault (WithRest String) := do
  let (name,rest) ← groupName cs
  if names.contains name then .error (.between .repeatedName cs rest)
  else .ok (name,rest)

inductive Opening where
  | group (f : Flags) (captures : Bool) (name : Option String) (rest : List Char)
  | flags (f : Flags) (rest : List Char)

def afterLookAround? : List Char → Option (List Char)
  | '?' :: '=' :: rest => some rest
  | '?' :: '!' :: rest => some rest
  | '?' :: '<' :: '=' :: rest => some rest
  | '?' :: '<' :: '!' :: rest => some rest
  | _ => none

def opening (f : Flags) (names : List String) (start cs : List Char) : Except Fault Opening :=
  let named (cs : List Char) : Except Fault Opening :=
    (newName names cs).map fun r => .group f true (some r.1) r.2
  match afterLookAround? cs with
  | some rest => .error (.between .lookAround start rest)
  | none =>
    match cs with
    | '?' :: 'P' :: '<' :: rest => named rest
    | '?' :: '<' :: rest => named rest
    | ['?'] => .error (.first .unclosedGroup start)
    | '?' :: ')' :: _ => .error (.first .nothingToRepeat cs)
    | '?' :: letters => do
      let (changed,rest) ← flagLetters true [] f letters
      match rest with
      | ':' :: rest => .ok (.group changed false none rest)
      | rest => .ok (.flags changed (rest.drop 1))
    | rest => .ok (.group f true none rest)

def anyChar (f : Flags) : CharClass :=
  if f.dotAll then .range 0 0x10FFFF
  else if f.crlf then .complement (.union (.one '\n') (.one '\r'))
  else .complement (.one '\n')

def charPiece (f : Flags) (c : Char) : Piece :=
  if f.ignoreCase then .ofSet (f.fold (.one c)) 0 else .literal c

def ofPrimitive (f : Flags) : Primitive → Piece
  | .literal c => charPiece f c
  | .set s => .ofSet s 0
  | .edge kind => .edge kind

def isRepetition (c : Char) : Bool := c == '*' || c == '+' || c == '?' || c == '\x7b'

def needItem (cs : List Char) : Except Fault Unit :=
  match cs with
  | c :: _ => if isRepetition c then .error (.first .nothingToRepeat cs) else .ok ()
  | [] => .ok ()

structure Reading where
  piece : Piece
  names : List String
  rest : List Char

def withLast (others : Option Piece) (last : Sequence) : Piece :=
  match others with
  | some a => a.either last.close
  | none => last.close

def choice (others : Option Piece) (last : Sequence) : Piece :=
  match others with
  | some a =>
    let both := a.either last.close
    { both with depth := both.depth + 1 }
  | none => last.close

/-- Reads alternatives up to a closing parenthesis or the end. `before` is the alternative read so
far, `others` are the ones before it, `names` the names of the groups so far. -/
def alternatives : (fuel : Nat) → Flags → (names : List String) → (others : Option Piece) →
    (before : Sequence) → List Char → Except Fault Reading
  | 0, _, _, _, _, cs => .error (.first .unclosedGroup cs)
  | fuel + 1, f, names, others, before, cs =>
    let continueWith (names : List String) (item : Piece) (rest : List Char) :
        Except Fault Reading := do
      let (item,rest) ← repetitions f (rest.length + 1) item rest
      alternatives fuel f names others (before.add item) rest
    let here := f.skip cs
    match here with
    | [] => .ok ⟨choice others before,names,[]⟩
    | ')' :: _ => .ok ⟨choice others before,names,here⟩
    | '|' :: rest => do
      needItem (f.skip rest)
      alternatives fuel f names (some (withLast others before)) .none rest
    | '(' :: rest => do
      match ← opening f names here (f.skip rest) with
      | .flags changed rest =>
        needItem (changed.skip rest)
        alternatives fuel changed names others before.addMark rest
      | .group inner captures name rest =>
        let body ← alternatives fuel inner (name.toList ++ names) none .none rest
        match body.rest with
        | ')' :: rest => continueWith body.names (body.piece.group captures) rest
        | _ => .error (.first .unclosedGroup here)
    | '[' :: rest => do
      let (set,rest) ← bracketed f rest
      continueWith names set rest
    | '\\' :: _ => do
      let (item,rest) ← escape here
      continueWith names (ofPrimitive f item) rest
    | '.' :: rest => continueWith names (.ofSet (anyChar f) 0) rest
    | '^' :: rest =>
      continueWith names (.edge (if f.multiLine then .lineStart f.crlf else .textStart)) rest
    | '$' :: rest =>
      continueWith names (.edge (if f.multiLine then .lineEnd f.crlf else .textEnd)) rest
    | c :: rest => do
      needItem here
      continueWith names (charPiece f c) rest

end Parser

def maxDepth : Nat := 250

def maxSize : Nat := 10485760

inductive Refusal where
  | fault (f : Fault)
  | tooLarge
  deriving DecidableEq

def Refusal.message (text : String) : Refusal → String
  | fault f => f.render text
  | tooLarge => "Compiled regex exceeds size limit of " ++ toString maxSize ++ " bytes."

def parse (s : String) : Except Refusal Pattern :=
  match Parser.alternatives (2 * s.length + 2) .plain [] none .none s.toList with
  | .error f => .error (.fault f)
  | .ok reading =>
    if !reading.rest.isEmpty then .error (.fault (.first .unopenedGroup reading.rest))
    else if maxDepth < reading.piece.depth then .error (.fault (.between .tooDeep s.toList []))
    else if maxSize < reading.piece.size then .error .tooLarge
    else .ok reading.piece.pattern

end RouterReconciler.Pattern

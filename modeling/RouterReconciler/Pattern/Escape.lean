import RouterReconciler.Pattern.Basic
import RouterReconciler.Pattern.Fault
import RouterReconciler.Text.Numeral

/-!
What follows a backslash in a pattern: a character, a class of characters or a kind of place. A
reader takes the text that is left and gives what it read and what is left then.
-/
namespace RouterReconciler.Pattern

abbrev WithRest (α : Type) := α × List Char

structure Flags where
  ignoreCase : Bool
  multiLine : Bool
  dotAll : Bool
  verbose : Bool
  crlf : Bool

namespace Flags

def plain : Flags := ⟨false,false,false,false,false⟩

def fold (f : Flags) (set : CharClass) : CharClass := if f.ignoreCase then .folded set else set

def dropComment (cs : List Char) : List Char := (cs.dropWhile (· != '\n')).drop 1

def skipVerbose : (fuel : Nat) → List Char → List Char
  | 0, cs => cs
  | fuel + 1, cs =>
    match cs.dropWhile Text.isBlank with
    | '#' :: rest => skipVerbose fuel (dropComment rest)
    | other => other

def skip (f : Flags) (cs : List Char) : List Char :=
  if f.verbose then skipVerbose (cs.length + 1) cs else cs

end Flags

inductive Primitive where
  | literal (c : Char)
  | set (s : CharClass)
  | edge (kind : Edge)

namespace Parser

def letterClass? : Char → Option CharClass
  | 'd' => some .digit
  | 'D' => some (.complement .digit)
  | 's' => some .space
  | 'S' => some (.complement .space)
  | 'w' => some .word
  | 'W' => some (.complement .word)
  | _ => none

def controlLetter? : Char → Option Char
  | 'a' => some '\x07'
  | 'f' => some '\x0c'
  | 't' => some '\t'
  | 'n' => some '\n'
  | 'r' => some '\r'
  | 'v' => some '\x0b'
  | _ => none

def edgeLetter? : Char → Option Edge
  | 'b' => some .wordEdge
  | 'B' => some .noWordEdge
  | '<' => some .wordStart
  | '>' => some .wordEnd
  | 'A' => some .textStart
  | 'z' => some .textEnd
  | _ => none

def namedEdge? (name : String) : Option Edge :=
  match name with
  | "start" => some .wordStart
  | "end" => some .wordEnd
  | "start-half" => some .afterNoWord
  | "end-half" => some .beforeNoWord
  | _ => none

def isEdgeName (c : Char) : Bool := c.isAlpha || c == '-'

def edgeName (start : List Char) : List Char → Except Fault (WithRest Edge)
  | '\x7b' :: body =>
    let name := body.takeWhile isEdgeName
    match body, body.drop name.length with
    | [], _ => .error (.between .unfinishedEdge start [])
    | c :: _, after =>
      if !isEdgeName c then .ok (.wordEdge,'\x7b' :: body)
      else match after with
        | '\x7d' :: rest =>
          match namedEdge? (String.ofList name) with
          | some kind => .ok (kind,rest)
          | none => .error (.between .unknownEdge body after)
        | after => .error (.between .unclosedEdge start after)
  | rest => .ok (.wordEdge,rest)

def hexLetter? : Char → Option Nat
  | 'x' => some 2
  | 'u' => some 4
  | 'U' => some 8
  | _ => none

def isEscapable (c : Char) : Bool :=
  Text.isAscii c && !c.isAlphanum && c != '<' && c != '>'

def scalar (digits start stop rest : List Char) : Except Fault (WithRest Char) :=
  match Text.hexFrom? 0 digits with
  | some n =>
    if n.isValidChar then .ok (Char.ofNat n,rest) else .error (.between .notScalar start stop)
  | none => .error (.first .hexDigit start)

def isHexDigit (c : Char) : Bool := (Text.hexValue? c).isSome

def braced (body : List Char) : Except Fault (WithRest Char) :=
  let opening := '\x7b' :: body
  let digits := body.takeWhile isHexDigit
  match body.drop digits.length with
  | [] => .error (.between .unfinishedEscape opening [])
  | '\x7d' :: rest =>
    if digits.isEmpty then .error (.between .noHexDigits opening rest)
    else scalar digits body ('\x7d' :: rest) rest
  | other => .error (.first .hexDigit other)

def hexEscape (width : Nat) : List Char → Except Fault (WithRest Char)
  | [] => .error (.first .unfinishedEscape [])
  | '\x7b' :: body => braced body
  | cs =>
    let digits := (cs.take width).takeWhile isHexDigit
    let rest := cs.drop digits.length
    if digits.length = width then scalar digits cs rest rest
    else if rest.isEmpty then .error (.first .unfinishedEscape [])
    else .error (.first .hexDigit rest)

def escape : List Char → Except Fault (WithRest Primitive)
  | slash :: c :: rest =>
    let whole := slash :: c :: rest
    if c.isDigit then .error (.between .backReference whole rest)
    else if c = 'p' ∨ c = 'P' then .error (.between .unknownProperty whole rest)
    else if c = 'b' then (edgeName whole rest).map fun r => (.edge r.1,r.2)
    else match hexLetter? c, letterClass? c, edgeLetter? c, controlLetter? c with
      | some width, _, _, _ => (hexEscape width rest).map fun r => (.literal r.1,r.2)
      | _, some set, _, _ => .ok (.set set,rest)
      | _, _, some kind, _ => .ok (.edge kind,rest)
      | _, _, _, some control => .ok (.literal control,rest)
      | _, _, _, _ =>
        if isEscapable c then .ok (.literal c,rest)
        else .error (.between .unknownEscape whole rest)
  | cs => .error (.between .unfinishedEscape cs [])

end Parser
end RouterReconciler.Pattern

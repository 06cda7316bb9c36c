import RouterReconciler.Text.Basic

/-!
Why a text is no pattern. A fault has a reason and marks places of the text; its rendering shows
the text with carets under those places. A place is known by what is left of the text from it on.
-/
namespace RouterReconciler.Pattern

inductive Reason where
  | unclosedGroup
  | unopenedGroup
  | unclosedClass
  | nothingToRepeat
  | lookAround
  | backReference
  | unfinishedEscape
  | unknownEscape
  | unfinishedEdge
  | unclosedEdge
  | unknownEdge
  | unknownProperty
  | escapeInClass
  | classAsBoundary
  | emptyRange
  | hexDigit
  | noHexDigits
  | notScalar
  | missingCount
  | hugeCount
  | unclosedCount
  | emptyCount
  | unknownFlag
  | repeatedFlag
  | repeatedNegation
  | danglingNegation
  | unfinishedFlags
  | repeatedName
  | emptyName
  | nameCharacter
  | unfinishedName
  | tooDeep
  deriving DecidableEq

def Reason.message : Reason → String
  | unclosedGroup => "unclosed group"
  | unopenedGroup => "unopened group"
  | unclosedClass => "unclosed character class"
  | nothingToRepeat => "repetition operator missing expression"
  | lookAround => "look-around, including look-ahead and look-behind, is not supported"
  | backReference => "backreferences are not supported"
  | unfinishedEscape => "incomplete escape sequence, reached end of pattern prematurely"
  | unknownEscape => "unrecognized escape sequence"
  | unfinishedEdge =>
    "found either the beginning of a special word boundary or a bounded repetition on a \\b " ++
      "with an opening brace, but no closing brace"
  | unclosedEdge =>
    "special word boundary assertion is either unclosed or contains an invalid character"
  | unknownEdge =>
    "unrecognized special word boundary assertion, valid choices are: start, end, start-half " ++
      "or end-half"
  | unknownProperty => "Unicode property not found"
  | escapeInClass => "invalid escape sequence found in character class"
  | classAsBoundary => "invalid range boundary, must be a literal"
  | emptyRange => "invalid character class range, the start must be <= the end"
  | hexDigit => "invalid hexadecimal digit"
  | noHexDigits => "hexadecimal literal empty"
  | notScalar => "hexadecimal literal is not a Unicode scalar value"
  | missingCount => "repetition quantifier expects a valid decimal"
  | hugeCount => "decimal literal invalid"
  | unclosedCount => "unclosed counted repetition"
  | emptyCount => "invalid repetition count range, the start must be <= the end"
  | unknownFlag => "unrecognized flag"
  | repeatedFlag => "duplicate flag"
  | repeatedNegation => "flag negation operator repeated"
  | danglingNegation => "dangling flag negation operator"
  | unfinishedFlags => "expected flag but got end of regex"
  | repeatedName => "duplicate capture group name"
  | emptyName => "empty capture group name"
  | nameCharacter => "invalid capture group character"
  | unfinishedName => "unclosed capture group name"
  | tooDeep => "exceed the maximum number of nested parentheses/brackets (250)"

structure Mark where
  rest : List Char
  width : Nat
  deriving DecidableEq

structure Position where
  line : Nat
  column : Nat
  deriving DecidableEq

def positionAfter (cs : List Char) : Position :=
  cs.foldl (fun p c => if c = '\n' then ⟨p.line + 1,0⟩ else ⟨p.line,p.column + 1⟩) ⟨0,0⟩

def Mark.ends (text : List Char) (m : Mark) : Position × Position :=
  let start := text.length - m.rest.length
  (positionAfter (text.take start),positionAfter (text.take (start + m.width)))

structure Fault where
  reason : Reason
  marks : List Mark
  deriving DecidableEq

namespace Fault

def first (reason : Reason) (rest : List Char) : Fault := ⟨reason,[⟨rest,1⟩]⟩

def between (reason : Reason) (start stop : List Char) : Fault :=
  ⟨reason,[⟨start,start.length - stop.length⟩]⟩

def blanks (n : Nat) : String := String.ofList (List.replicate n ' ')

def carets (column : Nat) : List (Nat × Nat) → String
  | [] => ""
  | (start,stop) :: rest =>
    let width := max 1 (stop - start)
    blanks (start - column) ++ String.ofList (List.replicate width '^') ++
      carets (max column start + width) rest

def annotated (margin : Nat → String) (ends : List (Position × Position)) (number : Nat) :
    List String → List String
  | [] => []
  | line :: rest =>
    let here := ends.filter fun e => e.1.line = number ∧ e.2.line = number
    let under := here.map fun e => (e.1.column,e.2.column)
    let notes :=
      if under.isEmpty then [] else [blanks (margin number).length ++ carets 0 under]
    ((margin number ++ line) :: notes) ++ annotated margin ends (number + 1) rest

def describe (e : Position × Position) : String :=
  "on line " ++ toString (e.1.line + 1) ++ " (column " ++ toString (e.1.column + 1) ++
    ") through line " ++ toString (e.2.line + 1) ++ " (column " ++ toString e.2.column ++ ")"

def render (text : String) (f : Fault) : String :=
  let ends := f.marks.map (Mark.ends text.toList)
  let heading := "regex parse error:"
  let reason := "error: " ++ f.reason.message
  let breaks := text.toList.count '\n'
  let body :=
    if breaks = 0 then annotated (fun _ => "    ") ends 0 (Text.lines text)
    else
      let digits := (toString (breaks + 1)).length
      let margin (n : Nat) : String :=
        let number := toString (n + 1)
        blanks (digits - number.length) ++ number ++ ": "
      let ruler := String.ofList (List.replicate 79 '~')
      let wide := ends.filter fun e => e.1.line ≠ e.2.line
      (ruler :: annotated margin ends 0 (Text.lines text)) ++ ruler :: wide.map describe
  Text.joinWith "\n" ((heading :: body) ++ [reason])

end Fault
end RouterReconciler.Pattern

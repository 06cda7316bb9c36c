import RouterReconciler.Json.Part
import RouterReconciler.Text.Numeral

/-!
Reading a document from its text. Lists and tables nest at most 127 deep. A whole number that fits
into 64 bits stays exact. Any other number becomes the double that one multiplication or division
of its leading digits by a power of ten gives; one beyond the doubles is refused. Where only a part
of a document is asked for, the rest has to be well formed but is not read: its numbers may have any
size, its escapes any value and its lists and tables any depth.
-/
namespace RouterReconciler.Json

namespace Parser
open Text (digitValue maxWord64 maxInt64)

def isSpace (c : Char) : Bool := c == ' ' || c == '\n' || c == '\t' || c == '\r'

def skipSpace (cs : List Char) : List Char := cs.dropWhile isSpace

def unit? (a b c d : Char) : Option Nat := Text.hexFrom? 0 [a,b,c,d]

def pair? (high low : Nat) : Option Char :=
  if 0xDC00 ≤ low ∧ low ≤ 0xDFFF then
    some (Char.ofNat (0x10000 + (high - 0xD800) * 0x400 + (low - 0xDC00)))
  else none

def isHighSurrogate (n : Nat) : Bool := 0xD800 ≤ n && n ≤ 0xDBFF
def isLowSurrogate (n : Nat) : Bool := 0xDC00 ≤ n && n ≤ 0xDFFF

def simpleEscape? : Char → Option Char
  | '"' => some '"'
  | '\\' => some '\\'
  | '/' => some '/'
  | 'b' => some '\x08'
  | 'f' => some '\x0c'
  | 'n' => some '\n'
  | 'r' => some '\r'
  | 't' => some '\t'
  | _ => none

def stringBody (done : List Char) : List Char → Option (String × List Char)
  | [] => none
  | '"' :: rest => some (String.ofList done.reverse,rest)
  | '\\' :: 'u' :: a :: b :: c :: d :: '\\' :: 'u' :: e :: f :: g :: h :: rest => do
    let high ← unit? a b c d
    if isHighSurrogate high then
      let low ← unit? e f g h
      let char ← pair? high low
      stringBody (char :: done) rest
    else if isLowSurrogate high then none
    else stringBody (Char.ofNat high :: done) ('\\' :: 'u' :: e :: f :: g :: h :: rest)
  | '\\' :: 'u' :: a :: b :: c :: d :: rest => do
    let n ← unit? a b c d
    if isHighSurrogate n || isLowSurrogate n then none else stringBody (Char.ofNat n :: done) rest
  | '\\' :: c :: rest => do
    let char ← simpleEscape? c
    stringBody (char :: done) rest
  | c :: rest => if c.toNat < 32 then none else stringBody (c :: done) rest

def accumulate (significand taken : Nat) : List Char → Nat × Nat
  | [] => (significand,taken)
  | c :: rest =>
    let next := significand * 10 + digitValue c
    if next ≤ maxWord64 then accumulate next (taken + 1) rest else (significand,taken)

def tenPower (n : Nat) : Float := Float.ofScientific 1 false n

def scale (f : Float) (exponent : Int) : (fuel : Nat) → Option Float
  | 0 => some f
  | fuel + 1 =>
    if exponent.natAbs ≤ 308 then
      if 0 ≤ exponent then
        let scaled := f * tenPower exponent.toNat
        if scaled.isInf then none else some scaled
      else some (f / tenPower exponent.natAbs)
    else if f == 0 then some f
    else if 0 ≤ exponent then none
    else scale (f / tenPower 308) (exponent + 308) fuel

def double (negative : Bool) (significand : Nat) (exponent : Int) : Option Number :=
  (scale significand.toUInt64.toFloat exponent 8).map fun f =>
    .double (if negative then (-f).toBits else f.toBits)

def maxExponent : Nat := 2147483647

def exponentPart (negative : Bool) (significand : Nat) (start : Int) (cs : List Char) :
    Option (Number × List Char) :=
  let (down,body) := match cs with
    | '+' :: rest => (false,rest)
    | '-' :: rest => (true,rest)
    | _ => (false,cs)
  let digits := body.takeWhile Char.isDigit
  let rest := body.dropWhile Char.isDigit
  if digits.isEmpty then none
  else
    let size := Text.ofDigits digits
    if maxExponent < size then
      if significand ≠ 0 ∧ !down then none
      else some (.double (if negative then (-0.0 : Float).toBits else (0.0 : Float).toBits),rest)
    else
      (double negative significand (if down then start - size else start + size)).map (·,rest)

def isExponentMark (c : Char) : Bool := c == 'e' || c == 'E'

def afterDigits (negative : Bool) (significand : Nat) (exponent : Int) (cs : List Char) :
    Option (Number × List Char) :=
  match cs with
  | c :: rest =>
    if isExponentMark c then exponentPart negative significand exponent rest
    else (double negative significand exponent).map (·,cs)
  | [] => (double negative significand exponent).map (·,[])

def fraction (negative : Bool) (significand : Nat) (exponent : Int) (cs : List Char) :
    Option (Number × List Char) :=
  let digits := cs.takeWhile Char.isDigit
  let rest := cs.dropWhile Char.isDigit
  if digits.isEmpty then none
  else
    let (longer,taken) := accumulate significand 0 digits
    afterDigits negative longer (exponent - taken) rest

def wholeNumber (negative : Bool) (significand : Nat) : Number :=
  if !negative then .whole significand
  else if significand = 0 ∨ maxInt64 + 1 < significand then
    .double (-significand.toUInt64.toFloat).toBits
  else .whole (-(significand : Int))

def unsigned (negative : Bool) (cs : List Char) : Option (Number × List Char) :=
  let digits := cs.takeWhile Char.isDigit
  let rest := cs.dropWhile Char.isDigit
  match digits with
  | [] => none
  | '0' :: _ :: _ => none
  | _ =>
    let (significand,taken) := accumulate 0 0 digits
    let dropped : Nat := digits.length - taken
    match rest with
    | '.' :: tail => fraction negative significand dropped tail
    | c :: _ =>
      if isExponentMark c || dropped ≠ 0 then afterDigits negative significand dropped rest
      else some (wholeNumber negative significand,rest)
    | [] =>
      if dropped ≠ 0 then afterDigits negative significand dropped rest
      else some (wholeNumber negative significand,rest)

def number (cs : List Char) : Option (Number × List Char) :=
  match cs with
  | '-' :: rest => unsigned true rest
  | _ => unsigned false cs

def sequence {α : Type} (close : Char) (item : List Char → Option (α × List Char)) :
    (bound : Nat) → List Char → Option (List α × List Char)
  | 0, _ => none
  | bound + 1, cs => do
    let (first,rest) ← item cs
    match skipSpace rest with
    | c :: tail =>
      if c = close then some ([first],tail)
      else if c = ',' then do
        let (others,tail) ← sequence close item bound tail
        some (first :: others,tail)
      else none
    | [] => none

def group {α : Type} (close : Char) (item : List Char → Option (α × List Char))
    (cs : List Char) : Option (List α × List Char) :=
  match skipSpace cs with
  | c :: rest => if c = close then some ([],rest) else sequence close item (cs.length + 1) cs
  | [] => none

def skipString : List Char → Option (List Char)
  | [] => none
  | '"' :: rest => some rest
  | '\\' :: 'u' :: a :: b :: c :: d :: rest =>
    if (unit? a b c d).isSome then skipString rest else none
  | '\\' :: c :: rest => if (simpleEscape? c).isSome then skipString rest else none
  | c :: rest => if c.toNat < 32 then none else skipString rest

def skipDigits (cs : List Char) : Option (List Char) :=
  if (cs.takeWhile Char.isDigit).isEmpty then none else some (cs.dropWhile Char.isDigit)

def skipExponent (cs : List Char) : Option (List Char) :=
  match cs with
  | '+' :: rest => skipDigits rest
  | '-' :: rest => skipDigits rest
  | _ => skipDigits cs

def skipScale (cs : List Char) : Option (List Char) :=
  match cs with
  | c :: rest => if isExponentMark c then skipExponent rest else some cs
  | [] => some []

def skipNumber (cs : List Char) : Option (List Char) := do
  let body := match cs with
    | '-' :: rest => rest
    | _ => cs
  let rest ← match body.takeWhile Char.isDigit with
    | '0' :: _ :: _ => none
    | _ => skipDigits body
  match rest with
  | '.' :: tail => skipScale (← skipDigits tail)
  | _ => skipScale rest

def member {α : Type} (key : List Char → Option (String × List Char))
    (item : String → List Char → Option (α × List Char)) (cs : List Char) :
    Option (α × List Char) :=
  match skipSpace cs with
  | '"' :: rest => do
    let (name,rest) ← key rest
    match skipSpace rest with
    | ':' :: rest => item name rest
    | _ => none
  | _ => none

def skipValue : (bound : Nat) → List Char → Option (Unit × List Char)
  | 0, _ => none
  | bound + 1, cs =>
    match skipSpace cs with
    | 'n' :: 'u' :: 'l' :: 'l' :: rest => some ((),rest)
    | 't' :: 'r' :: 'u' :: 'e' :: rest => some ((),rest)
    | 'f' :: 'a' :: 'l' :: 's' :: 'e' :: rest => some ((),rest)
    | '"' :: rest => (skipString rest).map ((),·)
    | '[' :: rest => (group ']' (skipValue bound) rest).map (fun r => ((),r.2))
    | '\x7b' :: rest =>
      let key := fun cs => (skipString cs).map ("",·)
      (group '\x7d' (member key (fun _ => skipValue bound)) rest).map (fun r => ((),r.2))
    | cs => (skipNumber cs).map ((),·)

def single (cs : List Char) : Option (Json × List Char) :=
  match cs with
  | 'n' :: 'u' :: 'l' :: 'l' :: rest => some (.null,rest)
  | 't' :: 'r' :: 'u' :: 'e' :: rest => some (.bool true,rest)
  | 'f' :: 'a' :: 'l' :: 's' :: 'e' :: rest => some (.bool false,rest)
  | '"' :: rest => (stringBody [] rest).map (fun r => (.str r.1,r.2))
  | _ => (number cs).map (fun r => (.number r.1,r.2))

def value : (depth : Nat) → (part : Part) → List Char → Option (Json × List Char)
  | 0, _, cs => single (skipSpace cs)
  | depth + 1, part, cs =>
    match skipSpace cs with
    | '[' :: rest => (group ']' (value depth part.item) rest).map (fun r => (.list r.1,r.2))
    | '\x7b' :: rest =>
      let item := fun name cs =>
        match part.member? name with
        | some part => (value depth part cs).map (fun r => (some (name,r.1),r.2))
        | none => (skipValue (cs.length + 1) cs).map (fun r => (none,r.2))
      (group '\x7d' (member (stringBody []) item) rest).map
        (fun r => (.table (r.1.filterMap id),r.2))
    | cs => single cs

def maxDepth : Nat := 127

end Parser

def parsePart? (part : Part) (s : String) : Option Json :=
  match Parser.value Parser.maxDepth part s.toList with
  | some (json,rest) => if (Parser.skipSpace rest).isEmpty then some json else none
  | none => none

def parse? (s : String) : Option Json := parsePart? .whole s

end RouterReconciler.Json

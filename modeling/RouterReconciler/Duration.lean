import RouterReconciler.Text.Basic
import RouterReconciler.Text.Numeral

/-!
Durations in seconds and their notations: units (`1w2d3h4m5s`, `500ms`), a clock (`00:05:00`), both
together (`1w2d03:04:05`) and a bare number. Writing uses units only. Parts of a second are cut
off. Seconds are counted in 64 bits.
-/
namespace RouterReconciler.Duration
open Text (natural? digits? atMost maxWord64)

/-- What reading a text as a duration comes to. The clock part of a text begins one byte after the
last character before its first colon that is no digit. When that character takes more than one
byte, this place lies inside the character and the text cannot be cut there. -/
inductive Reading where
  | seconds (n : Nat)
  | unreadable
  | cutInsideCharacter
  | overflow
  deriving DecidableEq

namespace Reading

def stops : Reading → Bool
  | .cutInsideCharacter | .overflow => true
  | .seconds _ | .unreadable => false

def andThen : Reading → (Nat → Reading) → Reading
  | .seconds n, next => next n
  | r, _ => r

end Reading

def plus (total n : Nat) : Reading :=
  if total + n ≤ maxWord64 then .seconds (total + n) else .overflow

def unitSize? : Char → Option Nat
  | 'w' => some 604800
  | 'd' => some 86400
  | 'h' => some 3600
  | 'm' => some 60
  | 's' => some 1
  | _ => none

def count? (digits : List Char) : Option Nat := (digits? digits).bind (atMost maxWord64)

def units (total : Nat) (pending : List Char) : List Char → Reading
  | [] => if pending.isEmpty then .seconds total else .unreadable
  | 'm' :: 's' :: rest =>
    match count? pending with
    | some n => (plus total (n / 1000)).andThen fun total => units total [] rest
    | none => .unreadable
  | c :: rest =>
    if c.isDigit then units total (pending ++ [c]) rest
    else match count? pending, unitSize? c with
      | some n, some size => (plus total (n * size)).andThen fun total => units total [] rest
      | _, _ => .unreadable

def clock (total : Nat) (cs : List Char) : Reading :=
  match Text.pieces (· == ':') cs with
  | [h,m,s] =>
    match natural? maxWord64 h, natural? maxWord64 m,
        natural? maxWord64 (s.takeWhile (· != '.')) with
    | some h, some m, some s =>
      if 60 ≤ m || 60 ≤ s then .unreadable else plus total (h * 3600 + m * 60 + s)
    | _, _, _ => .unreadable
  | _ => .unreadable

def unitPart (cs : List Char) : List Char :=
  Text.dropEndWhile Char.isDigit (cs.takeWhile (· != ':'))

def cutsCharacter (cs : List Char) : Bool :=
  match (unitPart cs).getLast? with
  | some c => !Text.isAscii c
  | none => false

def readNotation (cs : List Char) : Reading :=
  if cs.contains ':' then
    if cutsCharacter cs then .cutInsideCharacter
    else (units 0 [] (unitPart cs)).andThen fun total => clock total (cs.drop (unitPart cs).length)
  else units 0 [] cs

def readChars (cs : List Char) : Reading :=
  let body := Text.trimChars cs
  if body.isEmpty then .unreadable
  else match natural? maxWord64 body with
    | some n => .seconds n
    | none => readNotation body

def read (s : String) : Reading := readChars s.toList

def seconds? (s : String) : Option Nat :=
  match read s with
  | .seconds n => some n
  | _ => none

def part (count : Nat) (unit : Char) : List Char :=
  if count = 0 then [] else Nat.toDigits 10 count ++ [unit]

def renderChars (n : Nat) : List Char :=
  if n = 0 then ['0','s']
  else part (n / 604800) 'w' ++ part (n % 604800 / 86400) 'd' ++ part (n % 86400 / 3600) 'h' ++
    part (n % 3600 / 60) 'm' ++ part (n % 60) 's'

def render (n : Nat) : String := String.ofList (renderChars n)

end RouterReconciler.Duration

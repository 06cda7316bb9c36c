import RouterReconciler.Json.Basic
import RouterReconciler.Toml.Moment

/-!
The unquoted values of a TOML document: truth values, whole numbers in four bases, doubles, dates
and times. A date or a time reads as a table with one member.
-/
namespace RouterReconciler.Toml

def digitRun? (isDigit : Char → Bool) (cs : List Char) : Option (List Char) :=
  let groups := Text.pieces (· == '_') cs
  if groups.all (fun g => !g.isEmpty && g.all isDigit) then some groups.flatten else none

def decimalRun? (cs : List Char) : Option (List Char) :=
  match digitRun? Char.isDigit cs with
  | some ('0' :: _ :: _) => none
  | digits => digits

def inBase (base : Nat) (digits : List Char) : Nat :=
  digits.foldl (fun n c => base * n + (Text.hexValue? c).getD 0) 0

def isDigitOf (base : Nat) (c : Char) : Bool :=
  match Text.hexValue? c with
  | some d => d < base
  | none => false

def splitSign : List Char → Bool × List Char
  | '-' :: rest => (true,rest)
  | '+' :: rest => (false,rest)
  | cs => (false,cs)

def maxWord128 : Nat := 340282366920938463463374607431768211455

def maxInt128 : Nat := 170141183460469231731687303715884105727

def fitting? (n : Int) : Option Json :=
  if Int.negSucc maxInt128 ≤ n ∧ n ≤ Int.ofNat maxWord128 then some (.number (.whole n)) else none

def basedInteger? (base : Nat) (cs : List Char) : Option Json :=
  (digitRun? (isDigitOf base) cs).bind (fun digits => fitting? (inBase base digits))

def integer? (cs : List Char) : Option Json :=
  match cs with
  | '0' :: 'x' :: rest => basedInteger? 16 rest
  | '0' :: 'o' :: rest => basedInteger? 8 rest
  | '0' :: 'b' :: rest => basedInteger? 2 rest
  | _ =>
    let (negative,body) := splitSign cs
    (decimalRun? body).bind fun digits =>
      let n : Int := Text.ofDigits digits
      fitting? (if negative then -n else n)

def nearest? (negative : Bool) (significand : Nat) (exponent : Int) : Option Json :=
  let size : Int := exponent + (Nat.toDigits 10 significand).length
  let f : Float :=
    if significand = 0 ∨ size < -400 then 0.0
    else if 0 ≤ exponent then
      Float.ofScientific (significand * Decimal.tenTo (min exponent 400).toNat) false 0
    else Float.ofScientific significand true (-exponent).toNat
  if significand ≠ 0 ∧ (400 < size ∨ f.isInf) then none
  else some (.number (.double (if negative then (-f).toBits else f.toBits)))

def exponent? (cs : List Char) : Option Int :=
  let (negative,body) := splitSign cs
  (digitRun? Char.isDigit body).map fun digits =>
    let n : Int := Text.ofDigits digits
    if negative then -n else n

def isExponentMark (c : Char) : Bool := c == 'e' || c == 'E'

def finiteDouble? (negative : Bool) (cs : List Char) : Option Json := do
  let mantissa := cs.takeWhile (fun c => !isExponentMark c)
  let exponent ← match cs.dropWhile (fun c => !isExponentMark c) with
    | [] => some 0
    | _ :: rest => exponent? rest
  let whole ← decimalRun? (mantissa.takeWhile (· != '.'))
  let fraction ← match mantissa.dropWhile (· != '.') with
    | [] => some []
    | _ :: rest => digitRun? Char.isDigit rest
  nearest? negative (Text.ofDigits (whole ++ fraction)) (exponent - fraction.length)

def ofFloat (negative : Bool) (f : Float) : Json :=
  .number (.double (if negative then (-f).toBits else f.toBits))

def double? (cs : List Char) : Option Json :=
  let (negative,body) := splitSign cs
  if body = ['i','n','f'] then some (ofFloat negative (1.0 / 0.0))
  else if body = ['n','a','n'] then some (ofFloat negative (0.0 / 0.0))
  else if body.any (fun c => c == '.' || isExponentMark c) then finiteDouble? negative body
  else none

def momentKey : String := "$__toml_private_datetime"

def isScalarCharacter (c : Char) : Bool :=
  c.isAlphanum || c == '+' || c == '-' || c == '_' || c == '.' || c == ':'

def scalarOf? (cs : List Char) : Option Json :=
  if cs = ['t','r','u','e'] then some (.bool true)
  else if cs = ['f','a','l','s','e'] then some (.bool false)
  else (integer? cs).orElse fun _ => (double? cs).orElse fun _ =>
    (moment? cs).map (fun text => .table [(momentKey,.str (String.ofList text))])

def scalar (cs : List Char) : Option (Json × List Char) :=
  let run := cs.takeWhile isScalarCharacter
  let rest := cs.dropWhile isScalarCharacter
  match rest with
  | ' ' :: c :: more =>
    if c.isDigit && isDate run then
      let time := (c :: more).takeWhile isScalarCharacter
      (scalarOf? (run ++ 'T' :: time)).map (·,(c :: more).dropWhile isScalarCharacter)
    else (scalarOf? run).map (·,rest)
  | _ => (scalarOf? run).map (·,rest)

end RouterReconciler.Toml

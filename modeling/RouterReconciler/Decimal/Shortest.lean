/-!
The shortest decimal that reads back as a given binary number, in exact arithmetic. A double is
`m · 2 ^ q`; the reals that round to it form an interval, whose ends count when `m` is even. Of the
decimals with the fewest digits in that interval, the one nearest to the number is taken.
-/
namespace RouterReconciler.Decimal

def twoTo (n : Nat) : Nat := Nat.pow 2 n

def tenTo (n : Nat) : Nat := Nat.pow 10 n

structure Binary where
  mantissa : Nat
  exponent : Nat

def Binary.ofBits (bits : UInt64) : Binary :=
  let fraction := bits.toNat % twoTo 52
  let field := bits.toNat / twoTo 52 % twoTo 11
  if field = 0 then ⟨fraction,1⟩ else ⟨fraction + twoTo 52,field⟩

def isNegative (bits : UInt64) : Bool := bits.toNat ≥ twoTo 63

def isFinite (bits : UInt64) : Bool := bits.toNat / twoTo 52 % twoTo 11 != twoTo 11 - 1

structure Ratio where
  num : Nat
  den : Nat

def Ratio.le (a b : Ratio) : Bool := a.num * b.den ≤ b.num * a.den
def Ratio.lt (a b : Ratio) : Bool := a.num * b.den < b.num * a.den

def quarters (k exponent : Nat) : Ratio :=
  if 1077 ≤ exponent then ⟨k * twoTo (exponent - 1077),1⟩ else ⟨k,twoTo (1077 - exponent)⟩

def Binary.toRatio (b : Binary) : Ratio := quarters (4 * b.mantissa) b.exponent

def Binary.below (b : Binary) : Ratio :=
  if b.mantissa = twoTo 52 ∧ 1 < b.exponent then quarters (4 * b.mantissa - 1) b.exponent
  else quarters (4 * b.mantissa - 2) b.exponent

def Binary.above (b : Binary) : Ratio := quarters (4 * b.mantissa + 2) b.exponent

def Binary.rounds (b : Binary) (r : Ratio) : Bool :=
  if b.mantissa % 2 = 0 then b.below.le r && r.le b.above else b.below.lt r && r.lt b.above

structure Scientific where
  digits : Nat
  exponent : Int

def Scientific.toRatio (d : Scientific) : Ratio :=
  if 0 ≤ d.exponent then ⟨d.digits * tenTo d.exponent.toNat,1⟩
  else ⟨d.digits,tenTo (-d.exponent).toNat⟩

def magnitude (r : Ratio) : (fuel : Nat) → (start : Int) → Int
  | 0, start => start
  | fuel + 1, start =>
    if (Scientific.toRatio ⟨1,start⟩).le r then start else magnitude r fuel (start - 1)

def Ratio.distance (a b : Ratio) : Ratio :=
  ⟨(a.num * b.den - b.num * a.den) + (b.num * a.den - a.num * b.den),a.den * b.den⟩

def onGrid (b : Binary) (exponent : Int) : Option Scientific :=
  let r := b.toRatio
  let low :=
    if 0 ≤ exponent then r.num / (r.den * tenTo exponent.toNat)
    else r.num * tenTo (-exponent).toNat / r.den
  let lower : Scientific := ⟨low,exponent⟩
  let upper : Scientific := ⟨low + 1,exponent⟩
  match b.rounds lower.toRatio && low != 0, b.rounds upper.toRatio with
  | false, false => none
  | true, false => some lower
  | false, true => some upper
  | true, true =>
    let dl := r.distance lower.toRatio
    let du := r.distance upper.toRatio
    if dl.lt du then some lower
    else if du.lt dl then some upper
    else if low % 2 = 0 then some lower else some upper

def search (b : Binary) (top : Int) : (fuel : Nat) → (count : Nat) → Scientific
  | 0, _ => ⟨0,0⟩
  | fuel + 1, count =>
    match onGrid b (top - count) with
    | some d => d
    | none => search b top fuel (count + 1)

def shortest (b : Binary) : Scientific := search b (magnitude b.toRatio 700 309) 18 0

structure Notation where
  lowest : Int
  highest : Int

def trimZeros : (fuel : Nat) → Scientific → Scientific
  | 0, d => d
  | fuel + 1, d =>
    if d.digits % 10 = 0 ∧ d.digits ≠ 0 then trimZeros fuel ⟨d.digits / 10,d.exponent + 1⟩ else d

def zeros (n : Nat) : List Char := List.replicate n '0'

def Notation.write (form : Notation) (d : Scientific) : List Char :=
  let d := trimZeros 20 d
  let digits := Nat.toDigits 10 d.digits
  let point : Int := digits.length + d.exponent
  let exponent := point - 1
  if form.lowest ≤ exponent ∧ exponent ≤ form.highest then
    if 0 ≤ d.exponent then digits ++ zeros d.exponent.toNat ++ ['.','0']
    else if 0 < point then digits.take point.toNat ++ '.' :: digits.drop point.toNat
    else ['0','.'] ++ zeros (-point).toNat ++ digits
  else
    let mantissa := match digits with
      | [single] => [single]
      | first :: rest => first :: '.' :: rest
      | [] => []
    let sign := if 0 ≤ exponent then '+' else '-'
    mantissa ++ 'e' :: sign :: Nat.toDigits 10 exponent.natAbs

def Notation.text (form : Notation) (bits : UInt64) : String :=
  let b := Binary.ofBits bits
  let body := if b.mantissa = 0 then ['0','.','0'] else form.write (shortest b)
  String.ofList (if isNegative bits then '-' :: body else body)

end RouterReconciler.Decimal

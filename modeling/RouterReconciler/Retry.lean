import RouterReconciler.Decimal.Shortest
import RouterReconciler.Text.Numeral

/-!
Waiting between repeated reads: a base delay, grown by a factor with each attempt, up to a limit.
The number of an attempt is an exponent of 32 bits in two's complement, so that those from the upper
half of the range shrink the delay instead. Delays are counted in nanoseconds; a delay that comes out
negative is no delay at all.
-/
namespace RouterReconciler

structure RetryPolicy where
  maxAttempts : Nat
  baseMilliseconds : Nat
  factor : Float
  maxMilliseconds : Nat

namespace RetryPolicy

def standard : RetryPolicy := ⟨3,2000,2.0,30000⟩

def exponentOf (attempt : Nat) : Int := Int.bmod attempt (Text.maxWord32 + 1)

def power (r a : Float) : (fuel : Nat) → (n : Nat) → Float
  | 0, _ => r
  | fuel + 1, n =>
    let r := if n % 2 = 1 then r * a else r
    if n / 2 = 0 then r else power r (a * a) fuel (n / 2)

def powerInt (a : Float) (n : Int) : Float :=
  let r := power 1.0 a 32 n.natAbs
  if n < 0 then 1.0 / r else r

def toSeconds (ms : Nat) : Float :=
  (ms / 1000).toFloat + (ms % 1000 * 1000000).toFloat / 1000000000.0

def roundDiv (num den : Nat) : Nat :=
  let q := num / den
  let twice := 2 * (num % den)
  if twice < den then q else if den < twice then q + 1 else if q % 2 = 0 then q else q + 1

def toNanoseconds? (seconds : Float) : Option Nat :=
  let bits := seconds.toBits
  let b := Decimal.Binary.ofBits bits
  if !Decimal.isFinite bits then none
  else if b.mantissa = 0 then some 0
  else if Decimal.isNegative bits then none
  else
    let r := b.toRatio
    some (roundDiv (r.num * 1000000000) r.den)

def delay? (p : RetryPolicy) (attempt : Nat) : Option Nat :=
  let delay := toSeconds p.baseMilliseconds * powerInt p.factor (exponentOf attempt)
  let limit := toSeconds p.maxMilliseconds
  toNanoseconds? (if delay ≤ limit then delay else limit)

end RetryPolicy
end RouterReconciler

import RouterReconciler.Duration
import RouterReconciler.Text.Basic

/-!
Parameter values, their text, and when two of them mean the same on a device: spellings of a truth
value count as one, a duration equals every notation of its seconds, and a list equals the text of
its elements between commas.
-/
namespace RouterReconciler

inductive Value where
  | bool (b : Bool)
  | int (n : Int)
  | str (s : String)
  | list (items : List Value)
  | duration (seconds : Nat)

namespace Value

mutual
def decideEq : (a b : Value) → Decidable (a = b)
  | .bool a, .bool b => decidable_of_iff (a = b) (by simp)
  | .int a, .int b => decidable_of_iff (a = b) (by simp)
  | .str a, .str b => decidable_of_iff (a = b) (by simp)
  | .duration a, .duration b => decidable_of_iff (a = b) (by simp)
  | .list as, .list bs =>
    match decideEqList as bs with
    | .isTrue h => .isTrue (by rw [h])
    | .isFalse h => .isFalse (fun same => h (by cases same; rfl))
  | .bool _, .int _ | .bool _, .str _ | .bool _, .list _ | .bool _, .duration _
  | .int _, .bool _ | .int _, .str _ | .int _, .list _ | .int _, .duration _
  | .str _, .bool _ | .str _, .int _ | .str _, .list _ | .str _, .duration _
  | .list _, .bool _ | .list _, .int _ | .list _, .str _ | .list _, .duration _
  | .duration _, .bool _ | .duration _, .int _ | .duration _, .str _ | .duration _, .list _ =>
    .isFalse (fun same => by cases same)

def decideEqList : (as bs : List Value) → Decidable (as = bs)
  | [], [] => .isTrue rfl
  | [], _ :: _ | _ :: _, [] => .isFalse (fun same => by cases same)
  | a :: as, b :: bs =>
    match decideEq a b, decideEqList as bs with
    | .isTrue h, .isTrue hs => .isTrue (by rw [h,hs])
    | .isFalse h, _ => .isFalse (fun same => h (by cases same; rfl))
    | _, .isFalse hs => .isFalse (fun same => hs (by cases same; rfl))
end

instance : DecidableEq Value := decideEq

def isList : Value → Bool
  | .list _ => true
  | _ => false

def isDuration : Value → Bool
  | .duration _ => true
  | _ => false

def isEmpty : Value → Bool
  | .str s => s.isEmpty
  | .list items => items.isEmpty
  | _ => false

def boolWord? (s : String) : Option Bool :=
  let word := Text.lowerAscii s
  if word ∈ ["yes","true","on"] then some true
  else if word ∈ ["no","false","off"] then some false
  else none

def asBool? : Value → Option Bool
  | .bool b => some b
  | .str s => boolWord? s
  | _ => none

def boolText (b : Bool) : String := if b then "yes" else "no"

mutual
def text : Value → String
  | .bool b => boolText b
  | .int n => toString n
  | .str s => s
  | .list items => ",".intercalate (texts items)
  | .duration n => Duration.render n

def texts : List Value → List String
  | [] => []
  | v :: rest => text v :: texts rest
end

mutual
def canonical : Value → String
  | .bool b => boolText b
  | .int n => toString n
  | .str s =>
    match boolWord? s with
    | some b => boolText b
    | none => s
  | .list items => ",".intercalate (canonicals items)
  | .duration n => Duration.render n

def canonicals : List Value → List String
  | [] => []
  | v :: rest => canonical v :: canonicals rest
end

def seconds? : Value → Option Nat
  | .duration n => some n
  | .int n => if 0 ≤ n then some n.toNat else none
  | .str s => Duration.seconds? s
  | _ => none

def elements : Value → List String
  | .list items => canonicals items
  | .str s =>
    if s.isEmpty then []
    else (Text.splitOn ',' s).map (fun piece => canonical (.str (Text.trim piece)))
  | v => [canonical v]

def sameSeconds? (desired actual : Value) : Option Bool :=
  if desired.isDuration || actual.isDuration then
    match desired.seconds?, actual.seconds? with
    | some a, some b => some (a == b)
    | _, _ => none
  else none

def alike (desired actual : Value) : Bool :=
  match sameSeconds? desired actual with
  | some same => same
  | none =>
    if desired.isList || actual.isList then desired.elements == actual.elements
    else desired.canonical == actual.canonical

def reading : Value → Duration.Reading
  | .duration n => .seconds n
  | .int n => if 0 ≤ n then .seconds n.toNat else .unreadable
  | .str s => Duration.read s
  | _ => .unreadable

/-- Whether `actual` is what `desired` asks for; none if a reading as a duration breaks off on the way. Once
one of the two is a duration, both are read. -/
def equal? (desired actual : Value) : Option Bool :=
  if (desired.isDuration || actual.isDuration) && (desired.reading.stops || actual.reading.stops) then none
  else some (alike desired actual)

@[simp]
theorem textsMap (items : List Value) : texts items = items.map text := by
  induction items with
  | nil => rfl
  | cons v rest ih => simp [texts,ih]

@[simp]
theorem canonicalsMap (items : List Value) : canonicals items = items.map canonical := by
  induction items with
  | nil => rfl
  | cons v rest ih => simp [canonicals,ih]

end Value
end RouterReconciler

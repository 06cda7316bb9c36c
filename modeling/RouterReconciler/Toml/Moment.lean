import RouterReconciler.Text.Basic
import RouterReconciler.Text.Numeral

/-!
Dates and times as a TOML document writes them, and the one text that each of them has: a `T`
between date and time, at most nine digits of a second without zeros at their end, and no minus sign
before an offset of nothing. Each reader takes capitals and gives that text.
-/
namespace RouterReconciler.Toml

def fixed? (count : Nat) (cs : List Char) : Option Nat :=
  if cs.length = count then Text.digits? cs else none

def isLeapYear (year : Nat) : Bool := (year % 4 = 0 && year % 100 != 0) || year % 400 = 0

def daysIn (year month : Nat) : Nat :=
  if month = 2 then if isLeapYear year then 29 else 28
  else if month = 4 || month = 6 || month = 9 || month = 11 then 30
  else 31

def isDate (cs : List Char) : Bool :=
  match Text.pieces (· == '-') cs with
  | [y,m,d] =>
    match fixed? 4 y, fixed? 2 m, fixed? 2 d with
    | some year, some month, some day =>
      1 ≤ month && month ≤ 12 && 1 ≤ day && day ≤ daysIn year month
    | _, _, _ => false
  | _ => false

def isUpTo (limit : Nat) (cs : List Char) : Bool :=
  match fixed? 2 cs with
  | some n => n ≤ limit
  | none => false

def shortFraction (digits : List Char) : List Char :=
  match ((digits.take 9).reverse.dropWhile (· == '0')).reverse with
  | [] => ['0']
  | kept => kept

def seconds? (cs : List Char) : Option (List Char) :=
  let whole := cs.take 2
  if isUpTo 60 whole then
    match cs.drop 2 with
    | [] => some whole
    | '.' :: fraction =>
      if (Text.digits? fraction).isSome then some (whole ++ '.' :: shortFraction fraction) else none
    | _ => none
  else none

def time? (cs : List Char) : Option (List Char) :=
  match Text.pieces (· == ':') cs with
  | [h,m] => if isUpTo 23 h && isUpTo 59 m then some cs else none
  | [h,m,s] =>
    if isUpTo 23 h && isUpTo 59 m then (seconds? s).map (fun s => h ++ ':' :: m ++ ':' :: s)
    else none
  | _ => none

def offset? (cs : List Char) : Option (List Char) :=
  match cs with
  | [] => some []
  | ['Z'] => some cs
  | [sign,h,h2,':',m,m2] =>
    if (sign == '+' || sign == '-') && isUpTo 23 [h,h2] && isUpTo 59 [m,m2] then
      some (if [h,h2,m,m2].all (· == '0') then '+' :: cs.drop 1 else cs)
    else none
  | _ => none

def isTimeCharacter (c : Char) : Bool := c.isDigit || c == ':' || c == '.'

def timeWithOffset? (cs : List Char) : Option (List Char) := do
  let time ← time? (cs.takeWhile isTimeCharacter)
  let offset ← offset? (cs.dropWhile isTimeCharacter)
  some (time ++ offset)

def moment? (cs : List Char) : Option (List Char) :=
  let cs := cs.map Char.toUpper
  let date := cs.take 10
  if isDate date then
    match cs.drop 10 with
    | [] => some date
    | 'T' :: rest => (timeWithOffset? rest).map (fun time => date ++ 'T' :: time)
    | _ => none
  else time? cs

end RouterReconciler.Toml

/-!
Numerals: decimal digits with an optional sign, read within a limit, and hexadecimal digits.
-/
namespace RouterReconciler.Text

def digitValue (c : Char) : Nat := c.toNat - 48

def ofDigits (cs : List Char) : Nat := cs.foldl (fun n c => 10 * n + digitValue c) 0

def digits? (cs : List Char) : Option Nat :=
  if cs.isEmpty || !cs.all Char.isDigit then none else some (ofDigits cs)

def atMost (limit n : Nat) : Option Nat := if n ≤ limit then some n else none

def natural? (limit : Nat) (cs : List Char) : Option Nat :=
  let body := match cs with
    | '+' :: rest => rest
    | _ => cs
  (digits? body).bind (atMost limit)

def maxWord64 : Nat := 18446744073709551615
def maxWord32 : Nat := 4294967295
def maxWord16 : Nat := 65535
def maxInt64 : Nat := 9223372036854775807

def isInt64 (n : Int) : Bool := Int.negSucc maxInt64 ≤ n && n ≤ Int.ofNat maxInt64

def integer? (cs : List Char) : Option Int :=
  match cs with
  | '-' :: rest => ((digits? rest).bind (atMost (maxInt64 + 1))).map (fun n => - Int.ofNat n)
  | _ => (natural? maxInt64 cs).map Int.ofNat

def hexValue? (c : Char) : Option Nat :=
  if c.isDigit then some (c.toNat - 48)
  else if 'a' ≤ c && c ≤ 'f' then some (c.toNat - 87)
  else if 'A' ≤ c && c ≤ 'F' then some (c.toNat - 55)
  else none

def hexFrom? (n : Nat) : List Char → Option Nat
  | [] => some n
  | c :: rest => (hexValue? c).bind (fun d => hexFrom? (16 * n + d) rest)

def hexadecimal? (limit : Nat) (cs : List Char) : Option Nat :=
  let body := match cs with
    | '+' :: rest => rest
    | _ => cs
  if body.isEmpty then none else (hexFrom? 0 body).bind (atMost limit)

def upperHex (n : Nat) : String := String.ofList ((Nat.toDigits 16 n).map Char.toUpper)

end RouterReconciler.Text

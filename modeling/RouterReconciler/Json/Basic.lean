import RouterReconciler.Decimal.Shortest

/-!
Documents: null, truth values, numbers, texts, lists and tables. A table keeps its members in the
order in which they were written, repeated ones included; which of them counts is for the reader
of the table to say.
-/
namespace RouterReconciler

inductive Number where
  | whole (n : Int)
  | double (bits : UInt64)
  deriving DecidableEq

def Number.form : Decimal.Notation := ⟨-5,15⟩

def Number.text : Number → String
  | .whole n => toString n
  | .double bits => Number.form.text bits

inductive Json where
  | null
  | bool (b : Bool)
  | number (n : Number)
  | str (s : String)
  | list (items : List Json)
  | table (members : List (String × Json))

namespace Json

def int (n : Int) : Json := .number (.whole n)

def nat (n : Nat) : Json := .number (.whole n)

def lastMember? (key : String) : List (String × Json) → Option Json
  | [] => none
  | (k,v) :: rest =>
    match lastMember? key rest with
    | some later => some later
    | none => if k = key then some v else none

end Json
end RouterReconciler

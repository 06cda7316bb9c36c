import RouterReconciler.Entries
import RouterReconciler.Json.Basic

/-!
Readers of documents: each gives the content of a document of one form, and nothing for any other.
A member of a table that is absent or null counts as not given.
-/
namespace RouterReconciler.Json

def isNull : Json → Bool
  | .null => true
  | _ => false

def text? : Json → Option String
  | .str s => some s
  | _ => none

def natural? (limit : Nat) : Json → Option Nat
  | .number (.whole n) => if 0 ≤ n ∧ n ≤ (limit : Int) then some n.toNat else none
  | _ => none

def each? {α : Type} (read : Json → Option α) : List Json → Option (List α)
  | [] => some []
  | j :: rest => do
    let first ← read j
    let others ← each? read rest
    some (first :: others)

def listOf? {α : Type} (read : Json → Option α) : Json → Option (List α)
  | .list items => each? read items
  | _ => none

mutual
def finite : Json → Json
  | .number (.double bits) => if Decimal.isFinite bits then .number (.double bits) else .null
  | .list items => .list (finiteItems items)
  | .table members => .table (finiteMembers members)
  | j => j

def finiteItems : List Json → List Json
  | [] => []
  | j :: rest => finite j :: finiteItems rest

def finiteMembers : List (String × Json) → List (String × Json)
  | [] => []
  | (key,j) :: rest => (key,finite j) :: finiteMembers rest
end

def entriesOf (members : List (String × Json)) : Entries Json :=
  (Entries.ofList (finiteMembers members)).sorted

def entries? : Json → Option (Entries Json)
  | .table members => some (entriesOf members)
  | _ => none

def hasDistinctKeys (members : List (String × Json)) : Bool := (members.map Prod.fst).Nodup

def hasOnly (known : List String) (members : List (String × Json)) : Bool :=
  hasDistinctKeys members && members.all (fun m => known.contains m.1)

def field? {α : Type} (members : List (String × Json)) (key : String) (read : Json → Option α) :
    Option (Option α) :=
  match lastMember? key members with
  | none => some none
  | some .null => some none
  | some j => (read j).map some

def required? {α : Type} (members : List (String × Json)) (key : String) (read : Json → Option α) :
    Option α := (lastMember? key members).bind read

def optional? {α : Type} (members : List (String × Json)) (key : String) (fallback : α)
    (read : Json → Option α) : Option α :=
  match lastMember? key members with
  | none => some fallback
  | some j => read j

def repeatsAny (keys : List String) (members : List (String × Json)) : Bool :=
  keys.any (fun key => 1 < (members.filter (fun m => m.1 == key)).length)

/-- The members of a table that may hold those named `keys`, each once, and others. A list stands
for the table of its items under these names, of which the last ones may be missing. -/
def members? (keys : List String) : Json → Option (List (String × Json))
  | .table members => if repeatsAny keys members then none else some members
  | .list items => if items.length ≤ keys.length then some (keys.zip items) else none
  | _ => none

end RouterReconciler.Json

import RouterReconciler.Json.Basic
import RouterReconciler.Text.Numeral

/-!
Parts of documents. A reader that knows the names it looks for asks for these alone, and what stands
beside them need not have a meaning that could be told.
-/
namespace RouterReconciler.Json

inductive Part where
  | whole
  | each (item : Part)
  | members (parts : List (String × Part))

namespace Part

def item : Part → Part
  | each item => item
  | _ => whole

def member? : Part → String → Option Part
  | members parts, name => (parts.find? (fun p => p.1 == name)).map Prod.snd
  | _, _ => some whole

def named (names : List String) : Part := members (names.map (fun name => (name,whole)))

mutual
def take? (part : Part) : Json → Option Json
  | .number (.whole n) =>
    if Text.isInt64 n || (0 ≤ n && n ≤ Int.ofNat Text.maxWord64) then some (.number (.whole n))
    else none
  | .list items => (takeItems? part items).map .list
  | .table rows => (takeMembers? part rows).map .table
  | j => some j

def takeItems? (part : Part) : List Json → Option (List Json)
  | [] => some []
  | j :: rest => do
    let first ← take? part.item j
    let others ← takeItems? part rest
    some (first :: others)

def takeMembers? (part : Part) : List (String × Json) → Option (List (String × Json))
  | [] => some []
  | (key,j) :: rest =>
    match part.member? key with
    | some inner => do
      let first ← take? inner j
      let others ← takeMembers? part rest
      some ((key,first) :: others)
    | none => takeMembers? part rest
end

end Part
end RouterReconciler.Json

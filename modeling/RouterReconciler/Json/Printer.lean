import RouterReconciler.Json.Basic

/-!
Writing a document: on one line without blanks, or over several lines with two blanks for each
level. Tables are written in the order of their members; `sorted` puts them in the order of their
keys first.
-/
namespace RouterReconciler.Json

def twoHex (n : Nat) : List Char := [Nat.digitChar (n / 16),Nat.digitChar (n % 16)]

def escape (c : Char) : List Char :=
  if c = '"' then ['\\','"']
  else if c = '\\' then ['\\','\\']
  else if c = '\x08' then ['\\','b']
  else if c = '\x0c' then ['\\','f']
  else if c = '\n' then ['\\','n']
  else if c = '\r' then ['\\','r']
  else if c = '\t' then ['\\','t']
  else if c.toNat < 32 then ['\\','u','0','0'] ++ twoHex c.toNat
  else [c]

def quoted (s : String) : String := String.ofList ('"' :: s.toList.flatMap escape ++ ['"'])

mutual
def compact : Json → String
  | .null => "null"
  | .bool b => if b then "true" else "false"
  | .number n => n.text
  | .str s => quoted s
  | .list items => "[" ++ ",".intercalate (compactItems items) ++ "]"
  | .table members => "\x7b" ++ ",".intercalate (compactMembers members) ++ "\x7d"

def compactItems : List Json → List String
  | [] => []
  | j :: rest => compact j :: compactItems rest

def compactMembers : List (String × Json) → List String
  | [] => []
  | (key,j) :: rest => (quoted key ++ ":" ++ compact j) :: compactMembers rest
end

def indent (level : Nat) : String := String.ofList (List.replicate (2 * level) ' ')

def block (level : Nat) (opening closing : String) (lines : List String) : String :=
  if lines.isEmpty then opening ++ closing
  else
    opening ++ "\n" ++ ",\n".intercalate (lines.map (indent (level + 1) ++ ·)) ++ "\n" ++
      indent level ++ closing

mutual
def prettyAt (level : Nat) : Json → String
  | .list items => block level "[" "]" (prettyItems (level + 1) items)
  | .table members => block level "\x7b" "\x7d" (prettyMembers (level + 1) members)
  | .null => "null"
  | .bool b => if b then "true" else "false"
  | .number n => n.text
  | .str s => quoted s

def prettyItems (level : Nat) : List Json → List String
  | [] => []
  | j :: rest => prettyAt level j :: prettyItems level rest

def prettyMembers (level : Nat) : List (String × Json) → List String
  | [] => []
  | (key,j) :: rest => (quoted key ++ ": " ++ prettyAt level j) :: prettyMembers level rest
end

def pretty (j : Json) : String := prettyAt 0 j

def sortMembers {α : Type} (members : List (String × α)) : List (String × α) :=
  members.mergeSort (fun a b => a.1 ≤ b.1)

mutual
def sorted : Json → Json
  | .list items => .list (sortedItems items)
  | .table members => .table (sortMembers (sortedMembers members))
  | j => j

def sortedItems : List Json → List Json
  | [] => []
  | j :: rest => sorted j :: sortedItems rest

def sortedMembers : List (String × Json) → List (String × Json)
  | [] => []
  | (key,j) :: rest => (key,sorted j) :: sortedMembers rest
end

end RouterReconciler.Json

import RouterReconciler.Toml.Scalar
import RouterReconciler.Toml.Tables
import RouterReconciler.Toml.Text

/-!
Reading a TOML document into the value it stands for. Lists and tables written as values nest at
most eighty deep; between their brackets line ends and comments are blanks, save inside a key, and
a comma may follow the last item. A key has at most eighty parts.
-/
namespace RouterReconciler.Toml.Parser

def items {α : Type} (close : Char) (item : List Char → Option (α × List Char)) :
    (bound : Nat) → List Char → Option (List α × List Char)
  | 0, _ => none
  | bound + 1, cs => do
    match ← skipLines false cs with
    | [] => none
    | c :: rest =>
      if c = close then some ([],rest)
      else do
        let (first,rest) ← item (c :: rest)
        match ← skipLines false rest with
        | [] => none
        | c :: rest =>
          if c = close then some ([first],rest)
          else if c = ',' then do
            let (others,rest) ← items close item bound rest
            some (first :: others,rest)
          else none

def assignment (skip : List Char → Option (List Char))
    (value : List Char → Option (Json × List Char)) (cs : List Char) :
    Option ((List String × Json) × List Char) := do
  let (path,rest) ← keyPath maxParts cs
  match ← skip rest with
  | '=' :: rest => do
    let (json,rest) ← value (← skip rest)
    some ((path,json),rest)
  | _ => none

def single (cs : List Char) : Option (Json × List Char) :=
  match cs with
  | c :: _ =>
    if isQuote c then (anyText cs).map (fun r => (.str (String.ofList r.1),r.2)) else scalar cs
  | [] => none

def value : (depth : Nat) → List Char → Option (Json × List Char)
  | 0, cs => single cs
  | depth + 1, cs =>
    match cs with
    | '[' :: rest =>
      (items ']' (value depth) (rest.length + 1) rest).map (fun r => (.list r.1,r.2))
    | '\x7b' :: rest => do
      let item := assignment (skipLines false) (value depth)
      let (assignments,rest) ← items '\x7d' item (rest.length + 1) rest
      let table ← tableOf? assignments
      some (table,rest)
    | _ => single cs

def maxDepth : Nat := 80

def header (cs : List Char) : Option (Statement × List Char) :=
  match cs with
  | '[' :: rest => do
    let (path,rest) ← keyPath maxParts rest
    match rest with
    | ']' :: ']' :: rest => some (.next path,rest)
    | _ => none
  | _ => do
    let (path,rest) ← keyPath maxParts cs
    match rest with
    | ']' :: rest => some (.table path,rest)
    | _ => none

def statement (cs : List Char) : Option (Statement × List Char) :=
  match cs with
  | '[' :: rest => header rest
  | _ =>
    let skip := fun cs => some (skipSpace cs)
    (assignment skip (value maxDepth) cs).map (fun r => (.assign r.1.1 r.1.2,r.2))

def statements : (bound : Nat) → List Char → Option (List Statement)
  | 0, _ => none
  | bound + 1, cs => do
    match ← skipLines false cs with
    | [] => some []
    | c :: rest => do
      let (first,rest) ← statement (c :: rest)
      let rest ← endLine false rest
      let others ← statements bound rest
      some (first :: others)

def byteOrderMark : Char := Char.ofNat 0xFEFF

end Parser

def parse? (s : String) : Option Json := do
  let cs := match s.toList with
    | c :: rest => if c = Parser.byteOrderMark then rest else c :: rest
    | [] => []
  let statements ← Parser.statements (cs.length + 1) cs
  let members ← build [] [] statements
  some (.table (membersToJson members))

end RouterReconciler.Toml

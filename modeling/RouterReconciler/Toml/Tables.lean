import RouterReconciler.Json.Basic

/-!
The tables of a TOML document, as headers and keys build them up. A header defines a table once; a
table that was only named on the way to another may still be defined; dotted keys reach into tables
that no header has defined; and nothing reaches into a table written as a value.
-/
namespace RouterReconciler.Toml

inductive Origin where
  | passed
  | header
  | dotted
  deriving DecidableEq

inductive Node where
  | value (json : Json)
  | table (origin : Origin) (members : List (String × Node))
  | tables (latestFirst : List (List (String × Node)))

abbrev Members := List (String × Node)

namespace Members

def update (key : String) (change : Option Node → Option Node) : Members → Option Members
  | [] => (change none).map (fun node => [(key,node)])
  | (k,node) :: rest =>
    if k = key then (change (some node)).map (fun node => (key,node) :: rest)
    else (update key change rest).map ((k,node) :: ·)

/-- Changes the table at the end of a path, which came to be as `origin` says, and makes those that
are missing on the way. A list of tables is entered at its last one. A dotted key passes no table
that a header has defined, other than the last one of a list. -/
def inside (dotted : Bool) (change : Origin → Members → Option (Origin × Members)) :
    (path : List String) → Origin → Members → Option (Origin × Members)
  | [], origin, members => change origin members
  | key :: rest, origin, members =>
    let step : Option Node → Option Node
      | none =>
        (inside dotted change rest (if dotted then .dotted else .passed) []).map
          (fun t => Node.table t.1 t.2)
      | some (.table own inner) =>
        if dotted && own = .header then none
        else (inside dotted change rest own inner).map (fun t => Node.table t.1 t.2)
      | some (.tables (last :: earlier)) =>
        (inside dotted change rest .header last).map (fun t => Node.tables (t.2 :: earlier))
      | some _ => none
    (members.update key step).map (fun members => (origin,members))

def assign (key : String) (json : Json) (members : Members) : Option Members :=
  members.update key fun
    | none => some (.value json)
    | some _ => none

def assignDotted (key : String) (json : Json) (origin : Origin) (members : Members) :
    Option (Origin × Members) :=
  if origin = .header then none else (assign key json members).map (fun m => (.dotted,m))

def assignAt (path : List String) (json : Json) (members : Members) : Option Members :=
  match path.getLast?, path.dropLast with
  | some key, [] => assign key json members
  | some key, way => (inside true (assignDotted key json) way .header members).map Prod.snd
  | none, _ => none

def openTable (key : String) (members : Members) : Option Members :=
  members.update key fun
    | none => some (.table .header [])
    | some (.table .passed inner) => some (.table .header inner)
    | some _ => none

def openNext (key : String) (members : Members) : Option Members :=
  members.update key fun
    | none => some (.tables [[]])
    | some (.tables earlier) => some (.tables ([] :: earlier))
    | some _ => none

end Members

inductive Statement where
  | assign (path : List String) (value : Json)
  | table (path : List String)
  | next (path : List String)

def inOpened (path : List String) (change : Members → Option Members) (members : Members) :
    Option Members :=
  let keep := fun origin inner => (change inner).map (fun m => (origin,m))
  (members.inside false keep path .header).map Prod.snd

def openBy (openLast : String → Members → Option Members) (path : List String)
    (members : Members) : Option Members :=
  match path.getLast? with
  | some key => inOpened path.dropLast (openLast key) members
  | none => none

def build (opened : List String) (members : Members) : List Statement → Option Members
  | [] => some members
  | .assign path value :: rest => do
    let members ← inOpened opened (·.assignAt path value) members
    build opened members rest
  | .table path :: rest => do
    let members ← openBy Members.openTable path members
    build path members rest
  | .next path :: rest => do
    let members ← openBy Members.openNext path members
    build path members rest

mutual
def Node.toJson : Node → Json
  | .value json => json
  | .table _ members => .table (membersToJson members)
  | .tables latestFirst => .list (tablesToJson latestFirst).reverse

def membersToJson : List (String × Node) → List (String × Json)
  | [] => []
  | (key,node) :: rest => (key,node.toJson) :: membersToJson rest

def tablesToJson : List (List (String × Node)) → List Json
  | [] => []
  | members :: rest => .table (membersToJson members) :: tablesToJson rest
end

def tableOf? (assignments : List (List String × Json)) : Option Json :=
  (build [] [] (assignments.map (fun a => Statement.assign a.1 a.2))).map
    (fun members => .table (membersToJson members))

end RouterReconciler.Toml

import RouterReconciler.Facility
import RouterReconciler.Json.Reading
import RouterReconciler.Text.Numeral

/-!
The entries of a task file as they are written. An entry has a fixed set of parameters, each given
at most once, and each of a fixed form; which of them go together is checked when the entry is
built into a task. Tables inside an entry are in the order of their keys.
-/
namespace RouterReconciler.TaskFile

inductive PathEntry where
  | plain (path : String)
  | byGeneration (v6 v7 : Option String)

inductive FieldsEntry where
  | names (names : List String)
  | aliased (fields : Entries Json)

structure TransferEntry where
  src : String
  dest : String

structure Entry where
  name : Option String
  path : Option PathEntry
  state : Option String
  os : Option Generation
  find : Option (Entries Json)
  iterate : Option (Entries (List Json))
  lines : Option (List (Entries Json))
  ordered : Option (List (Entries Json))
  keys : Option (List String)
  set : Option (Entries Json)
  position : Option Nat
  get : Option FieldsEntry
  getList : Option FieldsEntry
  getExpr : Option FieldsEntry
  getExprList : Option FieldsEntry
  indexBy : Option String
  command : Option String
  put : Option TransferEntry
  fetch : Option TransferEntry

namespace PathEntry

def resolve? : PathEntry → Generation → Option String
  | plain path, _ => some path
  | byGeneration v6 _, .v6 => v6
  | byGeneration _ v7, .v7 => v7

def ofJson? : Json → Option PathEntry
  | .str path => some (.plain path)
  | .table members =>
    if Json.repeatsAny ["v6","v7"] members then none
    else do
      let v6 ← Json.field? members "v6" Json.text?
      let v7 ← Json.field? members "v7" Json.text?
      some (.byGeneration v6 v7)
  | _ => none

def label? : PathEntry → Option String
  | plain path => some path
  | byGeneration v6 v7 => v7.orElse (fun _ => v6)

end PathEntry

def FieldsEntry.ofJson? : Json → Option FieldsEntry
  | .list items => (Json.each? Json.text? items).map .names
  | .table members => some (.aliased (Json.entriesOf members))
  | _ => none

def TransferEntry.ofJson? (j : Json) : Option TransferEntry := do
  let sides := ["src","dest"]
  let members ← Json.members? sides j
  if Json.hasOnly sides members then
    let src ← Json.required? members "src" Json.text?
    let dest ← Json.required? members "dest" Json.text?
    some ⟨src,dest⟩
  else none

def generationOf? (name : String) : Option Generation :=
  if name = "v6" then some .v6 else if name = "v7" then some .v7 else none

def generationOfJson? (addsNothing : Json → Bool) : Json → Option Generation
  | .str name => generationOf? name
  | .table [(name,value)] => if addsNothing value then generationOf? name else none
  | _ => none

def axesOfJson? : Json → Option (Entries (List Json))
  | .table members =>
    (Json.each? (Json.listOf? (fun j => some j.finite)) (members.map Prod.snd)).map fun lists =>
      (Entries.ofList ((members.map Prod.fst).zip lists)).sorted
  | _ => none

namespace Entry

def parameters : List String :=
  ["name","path","state","os","find","iterate","lines","ordered","keys","set","position",
    "get","get_list","get_expr","get_expr_list","index_by","cmd","put","fetch"]

def ofMembers? (members : List (String × Json)) : Option Entry := do
  let rows := Json.listOf? Json.entries?
  some {
    name := ← Json.field? members "name" Json.text?
    path := ← Json.field? members "path" PathEntry.ofJson?
    state := ← Json.field? members "state" Json.text?
    os := ← Json.field? members "os" (generationOfJson? Json.isNull)
    find := ← Json.field? members "find" Json.entries?
    iterate := ← Json.field? members "iterate" axesOfJson?
    lines := ← Json.field? members "lines" rows
    ordered := ← Json.field? members "ordered" rows
    keys := ← Json.field? members "keys" (Json.listOf? Json.text?)
    set := ← Json.field? members "set" Json.entries?
    position := ← Json.field? members "position" (Json.natural? Text.maxWord64)
    get := ← Json.field? members "get" FieldsEntry.ofJson?
    getList := ← Json.field? members "get_list" FieldsEntry.ofJson?
    getExpr := ← Json.field? members "get_expr" FieldsEntry.ofJson?
    getExprList := ← Json.field? members "get_expr_list" FieldsEntry.ofJson?
    indexBy := ← Json.field? members "index_by" Json.text?
    command := ← Json.field? members "cmd" Json.text?
    put := ← Json.field? members "put" TransferEntry.ofJson?
    fetch := ← Json.field? members "fetch" TransferEntry.ofJson? }

def ofJson? (j : Json) : Option Entry := do
  let members ← Json.members? parameters j
  if Json.hasOnly parameters members then ofMembers? members else none

def label (index : Nat) (e : Entry) : String :=
  let what := e.name.orElse fun _ =>
    match e.path with
    | some path => path.label?
    | none => e.command
  let number := "#" ++ toString (index + 1)
  match what with
  | some what => number ++ " (" ++ what ++ ")"
  | none => number

end Entry

def entriesOfJson? : Json → Option (List Entry)
  | .list items => Json.each? Entry.ofJson? items
  | .table members =>
    if Json.repeatsAny ["task"] members then none
    else Json.optional? members "task" [] (Json.listOf? Entry.ofJson?)
  | _ => none

end RouterReconciler.TaskFile

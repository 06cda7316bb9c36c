import RouterReconciler.Device.Replica
import RouterReconciler.Json.Parser
import RouterReconciler.Value.Document

/-!
Snapshots: the document form of a replica's facilities. Loading puts the facilities in the order of
their paths and gives an id to every record of a list that has none; the counter starts above
every number in an id.
-/
namespace RouterReconciler.Replica

def recordsOfJson? : List Json → Option (List Record)
  | [] => some []
  | j :: rest => do
    let r ← Record.ofJson? j
    let others ← recordsOfJson? rest
    some (r :: others)

def storeOfJson? : Json → Option Store
  | .list items => (recordsOfJson? items).map .items
  | .table members => (Record.ofJson? (.table members)).map .singleton
  | _ => none

def facilitiesFrom? (done : Entries Store) : List (String × Json) → Option (Entries Store)
  | [] => some done
  | (key,j) :: rest =>
    match FacilityPath.parse key, storeOfJson? j with
    | .ok path, some store => facilitiesFrom? (done.insert path.text store) rest
    | _, _ => none

def idNumbers (facilities : List (String × Store)) : List Nat :=
  facilities.flatMap fun entry =>
    match entry.2 with
    | .items rs => rs.filterMap (fun r => r.id.bind idNumber?)
    | .singleton _ => []

def giveIds (next : Nat) : List Record → List Record × Nat
  | [] => ([],next)
  | r :: rest =>
    match r.id with
    | some _ =>
      let (others,after) := giveIds next rest
      (r :: others,after)
    | none =>
      let (others,after) := giveIds (next + 1) rest
      ({ r with id := some (newId next) } :: others,after)

def giveAllIds (next : Nat) : List (String × Store) → List (String × Store) × Nat
  | [] => ([],next)
  | (path,.items rs) :: rest =>
    let (given,middle) := giveIds next rs
    let (others,after) := giveAllIds middle rest
    ((path,.items given) :: others,after)
  | (path,.singleton r) :: rest =>
    let (others,after) := giveAllIds next rest
    ((path,.singleton r) :: others,after)

def ofFacilities (facilities : Entries Store) : Replica :=
  let ordered := Json.sortMembers facilities.toList
  let first := (idNumbers ordered).foldl (fun n id => max n (id + 1)) 1
  let (given,next) := giveAllIds first ordered
  { empty with facilities := Entries.ofList given, nextId := next }

def ofJson? : Json → Option Replica
  | .table members => (facilitiesFrom? ∅ members).map ofFacilities
  | _ => none

def ofSnapshot (text : String) : Except Error Replica :=
  match (Json.parse? text).bind ofJson? with
  | some d => .ok d
  | none => .error .document

def Store.toJson : Store → Json
  | .items rs => .list (rs.map Record.toJson)
  | .singleton r => r.toJson

def toJson (d : Replica) : Json :=
  .table (Json.sortMembers (d.facilities.toList.map (fun entry => (entry.1,Store.toJson entry.2))))

def toSnapshot (d : Replica) : String := d.toJson.pretty

end RouterReconciler.Replica

import RouterReconciler.Json.Basic
import RouterReconciler.Record
import RouterReconciler.Text.Numeral

/-!
Values and records as documents. A value is a truth value, a whole number of 64 bits, a text or a
list of values; a duration is written as its text and never read. A record is a table with its
item id, if it has one, under `.id`.
-/
namespace RouterReconciler

mutual
def Value.ofJson? : Json → Option Value
  | .bool b => some (.bool b)
  | .number (.whole n) =>
    if Text.isInt64 n then some (.int n) else none
  | .number (.double _) => none
  | .str s => some (.str s)
  | .list items => (Value.listOfJson? items).map .list
  | .null => none
  | .table _ => none

def Value.listOfJson? : List Json → Option (List Value)
  | [] => some []
  | j :: rest => do
    let v ← Value.ofJson? j
    let others ← Value.listOfJson? rest
    some (v :: others)
end

mutual
def Value.toJson : Value → Json
  | .bool b => .bool b
  | .int n => .int n
  | .str s => .str s
  | .list items => .list (Value.listToJson items)
  | .duration n => .str (Duration.render n)

def Value.listToJson : List Value → List Json
  | [] => []
  | v :: rest => v.toJson :: Value.listToJson rest
end

namespace Record

def idKey : String := ".id"

def idOf? (members : List (String × Json)) : Option (Option ItemId) :=
  match members.filter (fun m => m.1 == idKey) with
  | [] => some none
  | [(_,.null)] => some none
  | [(_,.str s)] => some (some s)
  | _ => none

def fieldsFrom? (done : Entries Value) : List (String × Json) → Option (Entries Value)
  | [] => some done
  | (key,j) :: rest =>
    if key = idKey then fieldsFrom? done rest
    else match Value.ofJson? j with
      | some v => fieldsFrom? (done.insert key v) rest
      | none => none

def ofJson? : Json → Option Record
  | .table members => do
    let id ← idOf? members
    let fields ← fieldsFrom? ∅ members
    some ⟨id,fields⟩
  | _ => none

def toJson (r : Record) : Json :=
  let id := match r.id with
    | some id => [(idKey,Json.str id)]
    | none => []
  .table (id ++ r.fields.toList.map (fun entry => (entry.1,entry.2.toJson)))

end Record
end RouterReconciler

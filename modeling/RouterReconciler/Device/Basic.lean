import RouterReconciler.Device.Access
import RouterReconciler.Facility
import RouterReconciler.Selector

/-!
What a device offers, and access to one of its facilities by shape. An operation that the shape
does not allow fails before the device sees it; every write is one operation of the device. Only what reads
records may break off.
-/
namespace RouterReconciler

class Device (σ : Type) where
  readOne : FacilityPath → Inquiry σ Record
  read : FacilityPath → Selector → Inquiry σ (List Record)
  add : FacilityPath → Assignments → Option ItemId → Access σ ItemId
  remove : FacilityPath → ItemId → Access σ Unit
  set : FacilityPath → Option ItemId → Assignments → Access σ Unit
  move : FacilityPath → ItemId → Option ItemId → Access σ Unit
  setDisabled : FacilityPath → ItemId → Bool → Access σ Unit
  evaluate : FacilityPath → Option ItemId → List (String × String) → Inquiry σ (List (String × String))
  run : String → Access σ String

def Assignments.checkWritable (values : Assignments) : Except Error Unit :=
  go values.toList
where
  go : List (String × Assignment) → Except Error Unit
    | [] => .ok ()
    | (_,.value v) :: rest =>
      match v.checkWritable with
      | .ok () => go rest
      | .error e => .error e
    | (_,.unset) :: rest => go rest

namespace Facility

def refused (operation : String) (f : Facility) (reason : String) : Error :=
  .unsupportedOperation (operation ++ " on " ++ f.path.text) reason

def requireItems (f : Facility) (operation : String) : Except Error Unit :=
  if f.shape = .singleton then
    .error (f.refused operation "singleton facilities only support get and set")
  else .ok ()

variable {σ : Type} [Device σ]

def readOne (f : Facility) : Inquiry σ Record :=
  if f.shape = .singleton then Device.readOne f.path
  else .fail (.failed (f.refused "get" "facility has multiple records; use find"))

def read (f : Facility) (s : Selector) : Inquiry σ (List Record) := do
  f.requireItems "find"
  Device.read f.path s

def findIds (f : Facility) (s : Selector) : Inquiry σ (List ItemId) := do
  let records ← f.read s
  return records.filterMap Record.id

def count (f : Facility) (s : Selector) : Inquiry σ Nat := do
  let records ← f.read s
  return records.length

def add (f : Facility) (values : Assignments) (before : Option ItemId) : Access σ ItemId := do
  f.requireItems "add"
  if before.isSome && f.shape != .ordered then
    Step.fail (f.refused "add place-before" "facility is not ordered")
  else do
    values.checkWritable
    Device.add f.path values before

def remove (f : Facility) (id : ItemId) : Access σ Unit := do
  f.requireItems "remove"
  Device.remove f.path id

def checkItem (f : Facility) (item : Option ItemId) : Except Error Unit :=
  match f.shape, item with
  | .singleton, some id => .error (f.refused ("set " ++ id) "singleton facilities have no item ids")
  | .unordered, none | .ordered, none =>
    .error (f.refused "set" "an item id is required for multi-record facilities")
  | _, _ => .ok ()

def set (f : Facility) (item : Option ItemId) (values : Assignments) : Access σ Unit := do
  f.checkItem item
  values.checkWritable
  Device.set f.path item values

def move (f : Facility) (id : ItemId) (before : Option ItemId) : Access σ Unit :=
  if f.shape = .ordered then Device.move f.path id before
  else .fail (f.refused "move" "facility is not ordered")

def enable (f : Facility) (id : ItemId) : Access σ Unit := do
  f.requireItems "enable"
  Device.setDisabled f.path id false

def disable (f : Facility) (id : ItemId) : Access σ Unit := do
  f.requireItems "disable"
  Device.setDisabled f.path id true

def evaluate (f : Facility) (item : Option ItemId) (expressions : List (String × String)) :
    Inquiry σ (List (String × String)) := do
  if item.isSome then f.requireItems "evaluate"
  Device.evaluate f.path item expressions

end Facility
end RouterReconciler

import RouterReconciler.Device.Basic
import RouterReconciler.Json.Printer

/-!
A device held in memory: its facilities, a counter for new item ids, and a journal of writes. It is
loaded from a snapshot, a document that maps facility paths to a list of records or to the one
record of a singleton. A write can be made to fail, by its number.
-/
namespace RouterReconciler

inductive Store where
  | items (records : List Record)
  | singleton (record : Record)
  deriving DecidableEq

structure Replica where
  facilities : Entries Store
  nextId : Nat
  journal : List String
  writes : Nat
  failAtWrite : Option Nat
  deriving DecidableEq

namespace Replica

def empty : Replica := ⟨∅,1,[],0,none⟩

def newId (n : Nat) : ItemId := "*" ++ Text.upperHex n

def idNumber? (id : ItemId) : Option Nat :=
  Text.hexadecimal? Text.maxWord64 (id.toList.dropWhile (· == '*'))

def records (d : Replica) (path : FacilityPath) : List Record :=
  match d.facilities.get? path.text with
  | some (.items rs) => rs
  | some (.singleton r) => [r]
  | none => []

def position? (id : ItemId) (rs : List Record) : Option Nat := rs.findIdx? (fun r => r.id == some id)

def noSuchItem (path : FacilityPath) (id : ItemId) : Error :=
  .commandFailed (path.text ++ " " ++ id) "no such item"

def assignmentText (key : String) : Assignment → String
  | .value v => " " ++ key ++ "=" ++ v.text
  | .unset => " !" ++ key

def describe (values : Assignments) : String :=
  String.join (values.toList.map (fun entry => assignmentText entry.1 entry.2))

def checkEncodable : List (String × Assignment) → Except Error Unit
  | [] => .ok ()
  | (_,.value v) :: rest =>
    match v.encodeForWrite with
    | .ok _ => checkEncodable rest
    | .error e => .error e
  | (_,.unset) :: rest => checkEncodable rest

def beginWrite (description : String) : Access Replica Unit := fun d =>
  let counted := { d with writes := d.writes + 1 }
  if d.failAtWrite = some d.writes then
    (.error (.commandFailed description "failure: injected"),counted)
  else (.ok (),{ counted with journal := d.journal ++ [description] })

/-- The records of a facility with items. A facility that is not there yet is made, empty. -/
def items (path : FacilityPath) : Access Replica (List Record) := fun d =>
  match d.facilities.get? path.text with
  | some (.items rs) => (.ok rs,d)
  | some (.singleton _) =>
    (.error (.unsupportedOperation (path.text ++ " item access") "facility is a singleton"),d)
  | none => (.ok [],{ d with facilities := d.facilities.insert path.text (.items []) })

def setItems (path : FacilityPath) (rs : List Record) : Access Replica Unit :=
  .modify (fun d => { d with facilities := d.facilities.insert path.text (.items rs) })

def locate (path : FacilityPath) (id : ItemId) : Access Replica (List Record × Nat) := do
  let rs ← items path
  match position? id rs with
  | some i => return (rs,i)
  | none => .fail (noSuchItem path id)

def update (path : FacilityPath) (id : ItemId) (f : Record → Record) : Access Replica Unit := do
  let (rs,i) ← locate path id
  setItems path (rs.modify i f)

def readOne (path : FacilityPath) : Access Replica Record := fun d =>
  match d.facilities.get? path.text with
  | some (.singleton r) => (.ok r,d)
  | some (.items _) =>
    (.error (.unsupportedOperation (path.text ++ " get") "facility has multiple records"),d)
  | none => (.ok Record.empty,d)

def read (path : FacilityPath) (s : Selector) : Inquiry Replica (List Record) := fun d =>
  match d.facilities.get? path.text with
  | some (.items rs) => (s.select rs,d)
  | some (.singleton _) =>
    (.error (.failed (.unsupportedOperation (path.text ++ " find") "facility is a singleton")),d)
  | none => (.ok [],d)

def takeId : Access Replica ItemId := fun d => (.ok (newId d.nextId),{ d with nextId := d.nextId + 1 })

def add (path : FacilityPath) (values : Assignments) (before : Option ItemId) :
    Access Replica ItemId := do
  checkEncodable values.toList
  let place := match before with
    | some id => " place-before=" ++ id
    | none => ""
  beginWrite (path.text ++ " add" ++ describe values ++ place)
  let id ← takeId
  let record := Record.apply ⟨some id,∅⟩ values
  match before with
  | some other => do
    let (rs,i) ← locate path other
    setItems path (rs.insertIdx i record)
  | none => do
    let rs ← items path
    setItems path (rs ++ [record])
  return id

def remove (path : FacilityPath) (id : ItemId) : Access Replica Unit := do
  beginWrite (path.text ++ " remove " ++ id)
  let (rs,i) ← locate path id
  setItems path (rs.eraseIdx i)

def setSingleton (path : FacilityPath) (values : Assignments) : Access Replica Unit := fun d =>
  let store (r : Record) : Replica :=
    { d with facilities := d.facilities.insert path.text (.singleton (r.apply values)) }
  match d.facilities.get? path.text with
  | some (.singleton r) => (.ok (),store r)
  | some (.items _) =>
    (.error (.unsupportedOperation (path.text ++ " set")
      "an item id is required for multi-record facilities"),d)
  | none => (.ok (),store Record.empty)

def set (path : FacilityPath) (item : Option ItemId) (values : Assignments) :
    Access Replica Unit := do
  checkEncodable values.toList
  let name := match item with
    | some id => " " ++ id
    | none => ""
  beginWrite (path.text ++ " set" ++ name ++ describe values)
  match item with
  | some id => update path id (·.apply values)
  | none => setSingleton path values

def relocate (rs : List Record) (i : Nat) (record : Record) (before : Option ItemId) :
    Option (List Record) :=
  let rest := rs.eraseIdx i
  match before with
  | none => some (rest ++ [record])
  | some other => (position? other rest).map (fun j => rest.insertIdx j record)

def move (path : FacilityPath) (id : ItemId) (before : Option ItemId) : Access Replica Unit := do
  let place := match before with
    | some other => " destination=" ++ other
    | none => ""
  beginWrite (path.text ++ " move " ++ id ++ place)
  let (rs,i) ← locate path id
  match rs[i]? with
  | none => .fail (noSuchItem path id)
  | some record =>
    match relocate rs i record before with
    | some moved => setItems path moved
    | none => .fail (noSuchItem path (before.getD ""))

def setDisabled (path : FacilityPath) (id : ItemId) (disabled : Bool) : Access Replica Unit := do
  beginWrite (path.text ++ (if disabled then " disable " else " enable ") ++ id)
  update path id (·.set "disabled" (.bool disabled))

/-- The parameter that an expression names, `$name`, `$"name"` or `name`; other expressions are
not understood here. -/
def fieldName? (expression : String) : Option String :=
  let body := (Text.trimChars expression.toList).dropWhile (· == '$')
  let name := Text.dropEndWhile (· == '"') (body.dropWhile (· == '"'))
  if name.isEmpty || name.any (fun c => Text.isBlank c || "[]()".toList.contains c) then none
  else some (String.ofList name)

def evaluateIn (record : Record) : List (String × String) → Except Error (List (String × String))
  | [] => .ok []
  | (shownAs,expression) :: rest =>
    match fieldName? expression with
    | none =>
      .error (.unsupportedOperation ("evaluate " ++ expression)
        "the in-memory device only resolves field references")
    | some name =>
      match evaluateIn record rest with
      | .error e => .error e
      | .ok others =>
        let text := match record.get? name with
          | some v => v.text
          | none => ""
        .ok ((shownAs,text) :: others)

def evaluate (path : FacilityPath) (item : Option ItemId) (expressions : List (String × String)) :
    Access Replica (List (String × String)) := do
  match item with
  | some id => do
    let (rs,i) ← locate path id
    match rs[i]? with
    | some record => evaluateIn record expressions
    | none => .fail (noSuchItem path id)
  | none => do
    let record ← readOne path
    evaluateIn record expressions

def run (command : String) : Access Replica String := do
  beginWrite command
  return ""

instance : Device Replica where
  readOne path := readOne path
  read := read
  add := add
  remove := remove
  set := set
  move := move
  setDisabled := setDisabled
  evaluate path item expressions := evaluate path item expressions
  run := run

end Replica
end RouterReconciler

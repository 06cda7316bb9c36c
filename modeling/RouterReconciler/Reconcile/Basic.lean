import RouterReconciler.Device.Basic
import RouterReconciler.Difference
import RouterReconciler.Placement
import RouterReconciler.Plan
import RouterReconciler.Task

/-!
What the planning of every mode shares: the snapshot of a facility, the records that criteria pick
from it, and writes that are refused before they are planned. Planning only reads. Positions count
the records that are not dynamic.
-/
namespace RouterReconciler.Reconcile
variable {σ : Type} [Device σ] [PatternEngine]

def idOf (r : Record) : Except Error ItemId :=
  match r.id with
  | some id => .ok id
  | none => .error (.notFound "item id of a multi-record facility entry")

def refsOf : List Record → Except Error (List ItemRef)
  | [] => .ok []
  | r :: rest =>
    match idOf r with
    | .error e => .error e
    | .ok id =>
      match refsOf rest with
      | .ok others => .ok (.existing id :: others)
      | .error e => .error e

def isRemovable (r : Record) : Bool := !Selector.all.removable.isSkipped r

def snapshot (f : Facility) : Inquiry σ (List Record) := f.read Selector.all.excludingDynamic

def find (f : Facility) (criteria : Criteria) : Inquiry σ (List Record) := do
  let s ← (Selector.ofCriteria criteria : Except Error Selector)
  f.read s.excludingDynamic

def hits (s : Selector) (index : Nat) : List Record → Judgement (List Nat)
  | [] => .ok []
  | r :: rest =>
    match s.matches? r with
    | .error e => .error e
    | .ok hit =>
      match hits s (index + 1) rest with
      | .ok others => .ok (if hit then index :: others else others)
      | .error e => .error e

def placesOf (ids : List ItemId) (index : Nat) : List Record → List Nat
  | [] => []
  | r :: rest =>
    if r.id.any ids.contains then index :: placesOf ids (index + 1) rest
    else placesOf ids (index + 1) rest

def select (f : Facility) (records : List Record) (criteria : Criteria) : Inquiry σ (List Nat) := do
  let s ← (Selector.ofCriteria criteria : Except Error Selector)
  let s := s.excludingDynamic
  if s.isLocal then hits s 0 records
  else do
    let ids ← f.findIds s
    return placesOf ids 0 records

def addition (values : Assignments) (before : Option ItemRef) : Except Error Operation :=
  match values.checkWritable with
  | .ok () => .ok (.add values before)
  | .error e => .error e

def modification (item : Option ItemId) (changes : Assignments) : Except Error (List Operation) :=
  if changes.isEmpty then .ok []
  else match changes.checkWritable with
    | .ok () => .ok [.set item changes]
    | .error e => .error e

def named (within : Option Nat → Error → Error) (index : Option Nat) : Halt Error → Halt Error :=
  Halt.map (within index)

def reposition (current block : List ItemRef) (position : Nat) : List Operation :=
  (Placement.moves current block (position - 1)).map (fun m => .move m.1 m.2)

def isAdded : ItemRef → Bool
  | .added _ => true
  | .existing _ => false

def blockMoves (ordered : Bool) (survivors : List Record) (block : List ItemRef) (position : Nat) :
    Except Error (List Operation) :=
  if ordered then
    match refsOf survivors with
    | .ok refs => .ok (reposition (refs ++ block.filter isAdded) block position)
    | .error e => .error e
  else .ok []

def missingDefault (identity : Criteria) : Error := .notFound ("default object " ++ identity.text)

def appendNew (block : List ItemRef) (item : ItemRef) : List ItemRef :=
  if block.contains item then block else block ++ [item]

end RouterReconciler.Reconcile

import RouterReconciler.Reconcile.Basic

/-!
Adjusting a facility to lines by identity: each line has a tuple of key values, and claims the
first free record with this tuple. What differs on it is set, lines without a record are added, and
records that no line claims are removed if they may be. Additions come first, removals last.
-/
namespace RouterReconciler.Reconcile
variable {σ : Type} [Device σ]

def keyTuple (keys : List String) (line : Criteria) : List (Option String) :=
  keys.map fun key =>
    match line.get? key with
    | some (.literal v) => some v.canonical
    | _ => none

def keyText (key : String) : Option String → String
  | some v => key ++ "=" ++ v
  | none => "!" ++ key

def tupleText (keys : List String) (tuple : List (Option String)) : String :=
  " ".intercalate (keys.zipWith keyText tuple)

def keyTest (line : Criteria) (key : String) : Test :=
  match line.get? key with
  | some (.literal v) => .literal v
  | _ => .notSet

def keysMatch (line : Criteria) (r : Record) : (keys : List String) → Judgement Bool
  | [] => .ok true
  | key :: rest => do
    if ← (keyTest line key).passes (r.get? key) then keysMatch line r rest
    else .ok false

def checkTuples (within : Option Nat → Error → Error) (keys : List String)
    (seen : List (List (Option String))) (index : Nat) : List Criteria → Except Error Unit
  | [] => .ok ()
  | line :: rest =>
    let tuple := keyTuple keys line
    if seen.contains tuple then
      .error (within (some index) (.duplicateKey (tupleText keys tuple)))
    else checkTuples within keys (tuple :: seen) (index + 1) rest

inductive Slot where
  | keep (place : Nat) (id : ItemId) (changes : Assignments)
  | add (values : Assignments)
  deriving DecidableEq

def firstFree (keys : List String) (line : Criteria) (claimed : List Nat) (index : Nat) :
    List Record → Judgement (Option (Nat × Record))
  | [] => .ok none
  | r :: rest =>
    if claimed.contains index then firstFree keys line claimed (index + 1) rest
    else do
      if ← keysMatch line r keys then .ok (some (index,r))
      else firstFree keys line claimed (index + 1) rest

def slotFor (keys : List String) (records : List Record) (claimed : List Nat) (line : Criteria) :
    Judgement Slot := do
  match ← firstFree keys line claimed 0 records with
  | some (j,r) => do
    let id ← idOf r
    let desired ← line.setValues
    let changes ← differing desired r
    .ok (.keep j id changes)
  | none => do
    let values ← line.addValues
    .ok (.add values)

def Slot.places : Slot → List Nat
  | .keep j _ _ => [j]
  | .add _ => []

def slots (within : Option Nat → Error → Error) (keys : List String) (records : List Record) :
    (index : Nat) → (claimed : List Nat) → List Criteria → Judgement (List Slot)
  | _, _, [] => .ok []
  | index, claimed, line :: rest => do
    let slot ← (slotFor keys records claimed line).mapError (named within (some index))
    let others ← slots within keys records (index + 1) (slot.places ++ claimed) rest
    .ok (slot :: others)

def split (claimed : List Nat) (index : Nat) :
    List Record → Except Error (List ItemId × List ItemId)
  | [] => .ok ([],[])
  | r :: rest => do
    let id ← idOf r
    let (removed,kept) ← split claimed (index + 1) rest
    if !claimed.contains index && isRemovable r then .ok (id :: removed,kept)
    else .ok (removed,id :: kept)

def additions (within : Option Nat → Error → Error) (index : Nat) :
    List Slot → Except Error (List Operation)
  | [] => .ok []
  | .keep _ _ _ :: rest => additions within (index + 1) rest
  | .add values :: rest => do
    let operation ← (addition values none).mapError (within (some index))
    let others ← additions within (index + 1) rest
    .ok (operation :: others)

def modifications (within : Option Nat → Error → Error) (index : Nat) :
    List Slot → Except Error (List Operation)
  | [] => .ok []
  | .add _ :: rest => modifications within (index + 1) rest
  | .keep _ id changes :: rest => do
    let operations ← (modification (some id) changes).mapError (within (some index))
    let others ← modifications within (index + 1) rest
    .ok (operations ++ others)

def blockOf (next : Nat) : List Slot → List ItemRef
  | [] => []
  | .keep _ id _ :: rest => .existing id :: blockOf next rest
  | .add _ :: rest => .added next :: blockOf (next + 1) rest

def adjustOperations (within : Option Nat → Error → Error) (lines : List Criteria)
    (keys : List String) (ordered : Bool) (position : Nat) (records : List Record) :
    Judgement (List Operation) := do
  let found ← slots within keys records 0 [] lines
  let (removed,kept) ← split (found.flatMap Slot.places) 0 records
  let added ← additions within 0 found
  let changed ← modifications within 0 found
  let current := kept.map ItemRef.existing ++ (List.range added.length).map ItemRef.added
  let moves := if ordered then reposition current (blockOf 0 found) position else []
  .ok (added ++ changed ++ moves ++ removed.map Operation.remove)

def adjust (f : Facility) (within : Option Nat → Error → Error) (lines : List Criteria)
    (keys : List String) (ordered : Bool) (position : Nat) : Inquiry σ (List Operation) := do
  (checkTuples within keys [] 0 lines : Except Error Unit)
  let records ← snapshot f
  (adjustOperations within lines keys ordered position records : Judgement (List Operation))

end RouterReconciler.Reconcile

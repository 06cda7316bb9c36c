import RouterReconciler.Reconcile.Basic

/-!
Facilities described by lines. Each line claims the first record that matches it and that no
earlier line has claimed. Presence adds what is missing; a check asks whether the lines claim all
records that may be removed, in order if order matters; a replacement removes these records and
adds the lines anew when the check fails. A line that names a factory record claims that record
and sets its other values.
-/
namespace RouterReconciler.Reconcile
variable {σ : Type} [Device σ] [PatternEngine]

structure Progress where
  claimed : List Nat
  operations : List Operation
  block : List ItemRef

def Progress.start : Progress := ⟨[],[],[]⟩

def factoryLine (records : List Record) (identity : Criteria) (values : Assignments)
    (place : Option Nat) : Judgement (ItemId × List Operation) :=
  match place.bind (fun j => records[j]?) with
  | none => .error (.failed (missingDefault identity))
  | some r => do
    let id ← idOf r
    let changes ← differing values r
    let operations ← modification (some id) changes
    .ok (id,operations)

def presentLine (f : Facility) (records : List Record) (missing : Missing) (line : Criteria)
    (p : Progress) : Inquiry σ Progress :=
  match line.splitDefault? with
  | some (identity,values) => do
    let places ← select f records identity
    match places.head?, missing with
    | none, .ignore => return p
    | place, _ => do
      let (id,operations) ←
        (factoryLine records identity values place : Judgement (ItemId × List Operation))
      return ⟨place.toList ++ p.claimed,p.operations ++ operations,appendNew p.block (.existing id)⟩
  | none => do
    let places ← select f records line
    match places.find? (fun j => !p.claimed.contains j) with
    | some j =>
      match records[j]? with
      | none => return p
      | some r => do
        let id ← (idOf r : Except Error ItemId)
        return { p with claimed := j :: p.claimed, block := appendNew p.block (.existing id) }
    | none =>
      if missing = .fail then .fail (.failed (.notFound line.text))
      else do
        let values ← (line.addValues : Except Error Assignments)
        let operation ← (addition values none : Except Error Operation)
        return { p with
          operations := p.operations ++ [operation]
          block := appendNew p.block (.added p.operations.length) }

def presentLines (f : Facility) (within : Option Nat → Error → Error) (records : List Record)
    (missing : Missing) : (index : Nat) → List Criteria → Progress → Inquiry σ Progress
  | _, [], p => pure p
  | index, line :: rest, p => do
    let p ← (presentLine f records missing line p).mapError (named within (some index))
    presentLines f within records missing (index + 1) rest p

@[simp]
theorem presentLinesNext {f : Facility} {within : Option Nat → Error → Error} {records : List Record}
    {missing : Missing} {index : Nat} {line : Criteria} {rest : List Criteria} {p q : Progress} {d d' : σ} :
    presentLines f within records missing index (line :: rest) p d = (.ok q,d') ↔
      ∃ m e, presentLine f records missing line p d = (.ok m,e) ∧
        presentLines f within records missing (index + 1) rest m e = (.ok q,d') := by
  simp only [presentLines,Step.bindOk,Step.mapErrorOk]

def present (f : Facility) (within : Option Nat → Error → Error) (lines : List Criteria)
    (ordered : Bool) (position : Nat) (missing : Missing) : Inquiry σ (List Operation) := do
  let records ← snapshot f
  let p ← presentLines f within records missing 0 lines .start
  let moves ← (blockMoves ordered records p.block position : Except Error (List Operation))
  return p.operations ++ moves

@[simp]
theorem presentEnds {f : Facility} {within : Option Nat → Error → Error} {lines : List Criteria}
    {ordered : Bool} {position : Nat} {missing : Missing} {operations : List Operation} {d d' : σ} :
    present f within lines ordered position missing d = (.ok operations,d') ↔
      ∃ records m, snapshot f d = (.ok records,m) ∧
      ∃ p, presentLines f within records missing 0 lines .start m = (.ok p,d') ∧
      ∃ moves, blockMoves ordered records p.block position = .ok moves ∧
        p.operations ++ moves = operations := by
  simp only [present,Step.bindOk,Step.liftOk,Step.pureOk]
  constructor
  · rintro ⟨records,m,read,p,_,worked,moves,_,⟨planned,rfl⟩,all,rfl⟩
    exact ⟨records,m,read,p,worked,moves,planned,all⟩
  · rintro ⟨records,m,read,p,worked,moves,planned,all⟩
    exact ⟨records,m,read,p,_,worked,moves,_,⟨planned,rfl⟩,all,rfl⟩

/-- The place that a line of a check claims, if there is one. Only a line that names a factory
record claims a record that may not be removed. -/
def claim (records : List Record) (claimed places : List Nat) (factory : Bool) : Option Nat :=
  places.find? (fun j => !claimed.contains j && (factory || (records[j]?).any isRemovable))

def claims (f : Facility) (within : Option Nat → Error → Error) (records : List Record) :
    (index : Nat) → List Criteria → (claimed : List Nat) → Inquiry σ (Option (List Nat))
  | _, [], _ => pure (some [])
  | index, line :: rest, claimed => do
    let places ← (select f records line).mapError (named within (some index))
    match claim records claimed places line.splitDefault?.isSome with
    | none => return none
    | some j => do
      let others ← claims f within records (index + 1) rest (j :: claimed)
      return others.map (j :: ·)

def leavesExtra (slots : List Nat) (index : Nat) : List Record → Bool
  | [] => false
  | r :: rest => (isRemovable r && !slots.contains index) || leavesExtra slots (index + 1) rest

def consecutive (offset : Nat) : List Nat → Bool
  | [] => true
  | j :: rest => j == offset && consecutive (offset + 1) rest

def agrees (f : Facility) (within : Option Nat → Error → Error) (records : List Record)
    (lines : List Criteria) (ordered : Bool) (position : Nat) : Inquiry σ Bool := do
  let slots ← claims f within records 0 lines []
  match slots with
  | none => return false
  | some slots =>
    if leavesExtra slots 0 records then return false
    else if ordered then
      return consecutive (min (position - 1) (records.length - lines.length)) slots
    else return true

def check (f : Facility) (within : Option Nat → Error → Error) (lines : List Criteria)
    (ordered : Bool) (position : Nat) : Inquiry σ Bool := do
  let records ← snapshot f
  agrees f within records lines ordered position

def removals : List Record → Except Error (List Operation)
  | [] => .ok []
  | r :: rest => do
    let id ← idOf r
    let others ← removals rest
    .ok (.remove id :: others)

def replaceLine (f : Facility) (survivors : List Record) (line : Criteria) (p : Progress) :
    Inquiry σ Progress :=
  match line.splitDefault? with
  | some (identity,values) => do
    let places ← select f survivors identity
    let (id,operations) ←
      (factoryLine survivors identity values places.head? : Judgement (ItemId × List Operation))
    return { p with
      operations := p.operations ++ operations, block := appendNew p.block (.existing id) }
  | none => do
    let values ← (line.addValues : Except Error Assignments)
    let operation ← (addition values none : Except Error Operation)
    return { p with
      operations := p.operations ++ [operation]
      block := appendNew p.block (.added p.operations.length) }

theorem replaceLineDefault {f : Facility} {survivors : List Record} {line identity : Criteria}
    {values : Assignments} {p q : Progress} {d d' : σ} (split : line.splitDefault? = some (identity,values))
    (h : replaceLine f survivors line p d = (.ok q,d')) :
    ∃ place id operations, factoryLine survivors identity values place = .ok (id,operations) ∧
      q = ⟨p.claimed,p.operations ++ operations,appendNew p.block (.existing id)⟩ := by
  simp only [replaceLine,split,Step.bindOk,Step.liftOk,Step.pureOk] at h
  obtain ⟨places,_,-,⟨id,operations⟩,_,⟨planned,-⟩,rfl,-⟩ := h
  exact ⟨_,id,operations,planned,rfl⟩

theorem replaceLinePlain {f : Facility} {survivors : List Record} {line : Criteria} {p q : Progress}
    {d d' : σ} (split : line.splitDefault? = none) (h : replaceLine f survivors line p d = (.ok q,d')) :
    ∃ values operation, line.addValues = .ok values ∧ addition values none = .ok operation ∧
      q = ⟨p.claimed,p.operations ++ [operation],appendNew p.block (.added p.operations.length)⟩ := by
  simp only [replaceLine,split,Step.bindOk,Step.liftOk,Step.pureOk] at h
  obtain ⟨values,_,⟨told,-⟩,operation,_,⟨checked,-⟩,rfl,-⟩ := h
  exact ⟨values,operation,told,checked,rfl⟩

def replaceLines (f : Facility) (within : Option Nat → Error → Error) (survivors : List Record) :
    (index : Nat) → List Criteria → Progress → Inquiry σ Progress
  | _, [], p => pure p
  | index, line :: rest, p => do
    let p ← (replaceLine f survivors line p).mapError (named within (some index))
    replaceLines f within survivors (index + 1) rest p

@[simp]
theorem replaceLinesNext {f : Facility} {within : Option Nat → Error → Error} {survivors : List Record}
    {index : Nat} {line : Criteria} {rest : List Criteria} {p q : Progress} {d d' : σ} :
    replaceLines f within survivors index (line :: rest) p d = (.ok q,d') ↔
      ∃ m e, replaceLine f survivors line p d = (.ok m,e) ∧
        replaceLines f within survivors (index + 1) rest m e = (.ok q,d') := by
  simp only [replaceLines,Step.bindOk,Step.mapErrorOk]

def replace (f : Facility) (within : Option Nat → Error → Error) (lines : List Criteria)
    (ordered : Bool) (position : Nat) : Inquiry σ (List Operation) := do
  let records ← snapshot f
  if ← agrees f within records lines ordered position then return []
  else do
    let removed ← (removals (records.filter isRemovable) : Except Error (List Operation))
    let survivors := records.filter (fun r => !isRemovable r)
    let p ← replaceLines f within survivors 0 lines ⟨[],removed,[]⟩
    let moves ← (blockMoves ordered survivors p.block position : Except Error (List Operation))
    return p.operations ++ moves

theorem replaceEnds {f : Facility} {within : Option Nat → Error → Error} {lines : List Criteria}
    {ordered : Bool} {position : Nat} {operations : List Operation} {d d' : σ}
    (h : replace f within lines ordered position d = (.ok operations,d')) :
    ∃ records m same n, snapshot f d = (.ok records,m) ∧
      agrees f within records lines ordered position m = (.ok same,n) ∧
      (same = true ∧ operations = [] ∨
        same = false ∧ ∃ removed p moves, removals (records.filter isRemovable) = .ok removed ∧
          replaceLines f within (records.filter fun r => !isRemovable r) 0 lines ⟨[],removed,[]⟩ n =
            (.ok p,d') ∧
          blockMoves ordered (records.filter fun r => !isRemovable r) p.block position = .ok moves ∧
          operations = p.operations ++ moves) := by
  simp only [replace,Step.bindOk] at h
  obtain ⟨records,m,read,same,n,agreed,h⟩ := h
  refine ⟨records,m,same,n,read,agreed,?_⟩
  cases same with
  | true =>
    obtain ⟨rfl,-⟩ := Step.pureOk.mp h
    exact .inl ⟨rfl,rfl⟩
  | false =>
    simp only [Bool.false_eq_true,if_false,Step.bindOk,Step.liftOk,Step.pureOk] at h
    obtain ⟨removed,_,⟨leave,rfl⟩,p,_,rebuilt,moves,_,⟨planned,rfl⟩,rfl,rfl⟩ := h
    exact .inr ⟨rfl,removed,p,moves,leave,rebuilt,planned,rfl⟩

end RouterReconciler.Reconcile

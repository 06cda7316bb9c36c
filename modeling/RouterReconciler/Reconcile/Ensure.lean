import RouterReconciler.Reconcile.Basic

/-!
Singletons, and records that are found one criteria at a time: setting what differs on every match,
adding a record where there is none, and putting a single match at a position.
-/
namespace RouterReconciler.Reconcile
variable {σ : Type} [Device σ] [PatternEngine]

def configure (f : Facility) (values : Assignments) : Inquiry σ (List Operation) := do
  let current ← f.readOne
  let changes ← (differing values current : Judgement Assignments)
  modification none changes

omit [PatternEngine] in
@[simp]
theorem configureEnds {f : Facility} {values : Assignments} {operations : List Operation} {d d' : σ} :
    configure f values d = (.ok operations,d') ↔
      ∃ current, f.readOne d = (.ok current,d') ∧ ∃ changes, differing values current = .ok changes ∧
        modification none changes = .ok operations := by
  simp only [configure,Step.bindOk,Step.liftOk]
  constructor
  · rintro ⟨current,_,read,changes,_,⟨compared,rfl⟩,written,rfl⟩
    exact ⟨current,read,changes,compared,written⟩
  · rintro ⟨current,read,changes,compared,written⟩
    exact ⟨current,_,read,changes,_,⟨compared,rfl⟩,written,rfl⟩

/-- A new record has the literals of its criteria; what is set on matches is set on it as well, and
what is unset is left out. -/
def overlay (values : Assignments) : List (String × Assignment) → Assignments
  | [] => values
  | (key,.value v) :: rest => overlay (values.insert key (.value v)) rest
  | (key,.unset) :: rest => overlay (values.erase key) rest

def placeAt (f : Facility) : (position : Option Nat) → Inquiry σ (Option ItemRef)
  | none => pure none
  | some position => do
    let records ← snapshot f
    match records[position - 1]? with
    | none => return none
    | some r => do
      let id ← (idOf r : Except Error ItemId)
      return some (.existing id)

def addMissing (f : Facility) (criteria : Criteria) (set : Assignments) (position : Option Nat) :
    Inquiry σ (List Operation) := do
  let literals ← (criteria.addValues : Except Error Assignments)
  let before ← placeAt f position
  let operation ← (addition (overlay literals set.toList) before : Except Error Operation)
  return [operation]

omit [PatternEngine] in
theorem addMissingEnds {f : Facility} {criteria : Criteria} {set : Assignments} {position : Option Nat}
    {operations : List Operation} {d d' : σ} :
    addMissing f criteria set position d = (.ok operations,d') ↔
      ∃ literals, criteria.addValues = .ok literals ∧ ∃ before, placeAt f position d = (.ok before,d') ∧
      ∃ operation, addition (overlay literals set.toList) before = .ok operation ∧
        [operation] = operations := by
  simp only [addMissing,Step.bindOk,Step.liftOk,Step.pureOk]
  constructor
  · rintro ⟨literals,_,⟨told,rfl⟩,before,_,placed,operation,_,⟨checked,rfl⟩,one,rfl⟩
    exact ⟨literals,told,before,placed,operation,checked,one⟩
  · rintro ⟨literals,told,before,placed,operation,checked,one⟩
    exact ⟨literals,_,⟨told,rfl⟩,before,_,placed,operation,_,⟨checked,rfl⟩,one,rfl⟩

def modifyAll (desired : Assignments) : List Record → Judgement (List Operation)
  | [] => .ok []
  | r :: rest => do
    let changes ← differing desired r
    let operations ←
      if changes.isEmpty then pure []
      else do
        let id ← idOf r
        modification (some id) changes
    let others ← modifyAll desired rest
    .ok (operations ++ others)

def moveFirst (f : Facility) (found : List Record) : (position : Option Nat) →
    Inquiry σ (List Operation)
  | none => pure []
  | some position =>
    match found with
    | [] => pure []
    | first :: _ => do
      let id ← (idOf first : Except Error ItemId)
      let records ← snapshot f
      let current ← (refsOf records : Except Error (List ItemRef))
      return reposition current [.existing id] position

def ensureFound (f : Facility) (criteria : Criteria) (found : List Record) (desired : Assignments)
    (position : Option Nat) : Inquiry σ (List Operation) := do
  if position.isSome && 1 < found.length then
    Step.fail (.failed (.ambiguousMatch criteria.text found.length))
  else do
    let sets ← (modifyAll desired found : Judgement (List Operation))
    let moves ← moveFirst f found position
    return sets ++ moves

def ensureOne (f : Facility) (set : Assignments) (position : Option Nat) (missing : Missing)
    (criteria : Criteria) : Inquiry σ (List Operation) :=
  match criteria.splitDefault? with
  | some (identity,values) => do
    let found ← find f identity
    if found.isEmpty then
      match missing with
      | .ignore => return []
      | _ => .fail (.failed (missingDefault identity))
    else ensureFound f criteria found (values.extend set) position
  | none => do
    let found ← find f criteria
    if found.isEmpty then
      match missing with
      | .add => addMissing f criteria set position
      | .fail => .fail (.failed (.notFound criteria.text))
      | .ignore => return []
    else ensureFound f criteria found set position

def ensureEach (f : Facility) (within : Option Nat → Error → Error) (several : Bool)
    (set : Assignments) (position : Option Nat) (missing : Missing) :
    (index : Nat) → List Criteria → Inquiry σ (List Operation)
  | _, [] => pure []
  | index, criteria :: rest => do
    let operations ←
      (ensureOne f set position missing criteria).mapError
        (named within (if several then some index else none))
    let others ← ensureEach f within several set position missing (index + 1) rest
    return operations ++ others

@[simp]
theorem ensureEachNext {f : Facility} {within : Option Nat → Error → Error} {several : Bool}
    {set : Assignments} {position : Option Nat} {missing : Missing} {index : Nat} {criteria : Criteria}
    {rest : List Criteria} {operations : List Operation} {d d' : σ} :
    ensureEach f within several set position missing index (criteria :: rest) d = (.ok operations,d') ↔
      ∃ first m, ensureOne f set position missing criteria d = (.ok first,m) ∧
      ∃ others, ensureEach f within several set position missing (index + 1) rest m = (.ok others,d') ∧
        first ++ others = operations := by
  simp only [ensureEach,Step.bindOk,Step.mapErrorOk,Step.pureOk]
  constructor
  · rintro ⟨first,m,one,others,_,later,all,rfl⟩
    exact ⟨first,m,one,others,later,all⟩
  · rintro ⟨first,m,one,others,later,all⟩
    exact ⟨first,m,one,others,_,later,all,rfl⟩

def ensure (f : Facility) (within : Option Nat → Error → Error) (finds : List Criteria)
    (set : Assignments) (position : Option Nat) (missing : Missing) : Inquiry σ (List Operation) :=
  ensureEach f within (1 < finds.length) set position missing 0 finds

end RouterReconciler.Reconcile

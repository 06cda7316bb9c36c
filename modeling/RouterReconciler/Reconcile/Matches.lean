import RouterReconciler.Reconcile.Basic

/-!
Everything that matches: removing it, enabling or disabling it, checking that it is there, counting
it, and moving the one record that does.
-/
namespace RouterReconciler.Reconcile
variable {σ : Type} [Device σ] [PatternEngine]

def appendIds (seen : List ItemId) : List ItemId → List ItemId
  | [] => seen
  | id :: rest => appendIds (if seen.contains id then seen else seen ++ [id]) rest

def absentIds (f : Facility) (within : Option Nat → Error → Error) :
    (index : Nat) → (seen : List ItemId) → List Criteria → Inquiry σ (List ItemId)
  | _, seen, [] => pure seen
  | index, seen, target :: rest => do
    let ids ← Step.mapError (named within (some index)) do
      let s ← (Selector.ofCriteria target : Except Error Selector)
      f.findIds s.removable
    absentIds f within (index + 1) (appendIds seen ids) rest

def absent (f : Facility) (within : Option Nat → Error → Error) (targets : List Criteria) :
    Inquiry σ (List Operation) := do
  let ids ← absentIds f within 0 [] targets
  return ids.map Operation.remove

def idsOf : List Record → Except Error (List ItemId)
  | [] => .ok []
  | r :: rest => do
    let id ← idOf r
    let others ← idsOf rest
    .ok (id :: others)

def toggleTarget (f : Facility) (enable : Bool) (target : Criteria) : Inquiry σ (List ItemId) := do
  let found ← find f target
  if found.isEmpty then Step.fail (.failed (.notFound target.text))
  else (idsOf (found.filter (fun r => r.flag "disabled" == enable)) : Except Error (List ItemId))

def toggleIds (f : Facility) (within : Option Nat → Error → Error) (enable : Bool) :
    (index : Nat) → (seen : List ItemId) → List Criteria → Inquiry σ (List ItemId)
  | _, seen, [] => pure seen
  | index, seen, target :: rest => do
    let ids ← (toggleTarget f enable target).mapError (named within (some index))
    toggleIds f within enable (index + 1) (appendIds seen ids) rest

def toggle (f : Facility) (within : Option Nat → Error → Error) (targets : List Criteria)
    (enable : Bool) : Inquiry σ (List Operation) := do
  let ids ← toggleIds f within enable 0 [] targets
  return ids.map (if enable then Operation.enable else Operation.disable)

def requireEach (f : Facility) (within : Option Nat → Error → Error) :
    (index : Nat) → List Criteria → Inquiry σ Unit
  | _, [] => pure ()
  | index, target :: rest => do
    Step.mapError (named within (some index)) do
      let found ← find f target
      if found.isEmpty then Step.fail (.failed (.notFound target.text))
    requireEach f within (index + 1) rest

def requirePlaces (f : Facility) (within : Option Nat → Error → Error) (records : List Record)
    (expected : Nat) : (index : Nat) → List Criteria → Inquiry σ Unit
  | _, [] => pure ()
  | index, target :: rest => do
    Step.mapError (named within (some index)) do
      let places ← select f records target
      if places.isEmpty then Step.fail (.failed (.notFound target.text))
      else if places.contains (expected + index) then pure ()
      else
        Step.fail
          (.failed (.notFound (target.text ++ " at position " ++ toString (expected + index + 1))))
    requirePlaces f within records expected (index + 1) rest

def findOnly (f : Facility) (within : Option Nat → Error → Error) (targets : List Criteria) :
    (position : Option Nat) → Inquiry σ Unit
  | none => requireEach f within 0 targets
  | some position => do
    let records ← snapshot f
    requirePlaces f within records (position - 1) 0 targets

def count (f : Facility) (criteria : Criteria) : Inquiry σ ReturnValues := do
  let s ← (Selector.ofCriteria criteria : Except Error Selector)
  let n ← f.count s.excludingDynamic.excludingBuiltin
  return Entries.empty.insert "count" (.nat n)

def moveOnly (f : Facility) (criteria : Criteria) (position : Nat) (missing : Missing) :
    Inquiry σ (List Operation) := do
  let records ← snapshot f
  let places ← select f records criteria
  match places with
  | [] => if missing = .ignore then return [] else .fail (.failed (.notFound criteria.text))
  | [j] => do
    let current ← (refsOf records : Except Error (List ItemRef))
    match current[j]? with
    | some item => return reposition current [item] position
    | none => return []
  | _ => .fail (.failed (.ambiguousMatch criteria.text places.length))

theorem moveOnlyEnds {f : Facility} {criteria : Criteria} {position : Nat} {missing : Missing}
    {operations : List Operation} {d d' : σ}
    (h : moveOnly f criteria position missing d = (.ok operations,d')) :
    ∃ records m places n, snapshot f d = (.ok records,m) ∧
      select f records criteria m = (.ok places,n) ∧
      (places = [] ∧ missing = .ignore ∧ operations = [] ∨
        ∃ j current, places = [j] ∧ refsOf records = .ok current ∧
          (current[j]? = none ∧ operations = [] ∨
            ∃ item, current[j]? = some item ∧ operations = reposition current [item] position)) := by
  simp only [moveOnly,Step.bindOk] at h
  obtain ⟨records,m,read,places,n,picked,h⟩ := h
  refine ⟨records,m,places,n,read,picked,?_⟩
  rcases places with - | ⟨j,- | ⟨_,_⟩⟩
  · simp only at h
    split at h
    · exact .inl ⟨rfl,by assumption,(Step.pureOk.mp h).1.symm⟩
    · exact absurd h Step.failNotOk
  · simp only [Step.bindOk,Step.liftOk] at h
    obtain ⟨current,_,⟨refs,-⟩,h⟩ := h
    refine .inr ⟨j,current,rfl,refs,?_⟩
    cases there : current[j]? with
    | none =>
      rw [there] at h
      exact .inl ⟨rfl,(Step.pureOk.mp h).1.symm⟩
    | some item =>
      rw [there] at h
      exact .inr ⟨item,rfl,(Step.pureOk.mp h).1.symm⟩
  · exact absurd h Step.failNotOk

end RouterReconciler.Reconcile

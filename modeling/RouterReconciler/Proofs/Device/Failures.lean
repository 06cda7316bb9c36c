import RouterReconciler.Proofs.Device.Effects
import RouterReconciler.Run.Apply

/-! Writes that fail. Whatever a write fails at, it changes no record. If the records it names are there
and it suits the facility, it fails only because this is the write that is made to fail, or for a value
that has no literal. -/
namespace RouterReconciler
open Step Replica

structure Still (d d' : Replica) : Prop where
  records : ∀ path, d'.records path = d.records path
  next : d.nextId ≤ d'.nextId

theorem Still.refl (d : Replica) : Still d d := ⟨fun _ => rfl,Nat.le_refl _⟩

theorem Still.trans {d m d' : Replica} (first : Still d m) (second : Still m d') : Still d d' :=
  ⟨fun path => (second.records path).trans (first.records path),Nat.le_trans first.next second.next⟩

def Idle {α : Type} (x : Access Replica α) : Prop := ∀ d a d', x d = (a,d') → Still d d'

def Harmless {α : Type} (x : Access Replica α) : Prop := ∀ d e d', x d = (.error e,d') → Still d d'

theorem Idle.lift {α : Type} (x : Except Error α) : Idle (liftM x : Access Replica α) := by
  intro d a d' h
  cases h
  exact .refl d

theorem Idle.pure {α : Type} (a : α) : Idle (Pure.pure a : Access Replica α) := by
  intro d b d' h
  cases h
  exact .refl d

theorem Idle.fail {α : Type} (e : Error) : Idle (Step.fail e : Access Replica α) := by
  intro d a d' h
  cases h
  exact .refl d

theorem Idle.bind {α β : Type} {x : Access Replica α} {f : α → Access Replica β} (first : Idle x)
    (later : ∀ a, Idle (f a)) : Idle (x >>= f) := by
  intro d answer d' h
  cases answer with
  | ok b =>
    obtain ⟨a,m,run,h⟩ := bindOk.mp h
    exact (first d _ m run).trans (later a m _ d' h)
  | error e =>
    rcases bindError.mp h with h | ⟨a,m,run,h⟩
    · exact first d _ d' h
    · exact (first d _ m run).trans (later a m _ d' h)

namespace Harmless
variable {α β : Type}

theorem idle {x : Access Replica α} (h : Idle x) : Harmless x := fun d _ d' => h d _ d'

theorem bind {x : Access Replica α} {f : α → Access Replica β} (first : Idle x)
    (later : ∀ a, Harmless (f a)) : Harmless (x >>= f) := by
  intro d e d' h
  rcases bindError.mp h with h | ⟨a,m,run,h⟩
  · exact first d _ d' h
  · exact (first d _ m run).trans (later a m e d' h)

theorem answering {x : Access Replica α} (first : Harmless x) (f : α → β) :
    Harmless (x >>= fun a => Pure.pure (f a)) := fun d e d' h => first d e d' (answerFails h)

end Harmless

namespace Replica
variable {path : FacilityPath}

theorem recordsInserted (d : Replica) (path other : FacilityPath) (rs : List Record) :
    { d with facilities := d.facilities.insert path.text (.items rs) }.records other =
      if other = path then rs else d.records other := by
  obtain ⟨text⟩ := path
  obtain ⟨otherText⟩ := other
  by_cases same : otherText = text <;>
    simp [Replica.records,same]

theorem beginWriteIdle (text : String) : Idle (beginWrite text) := by
  intro d a d' h
  simp only [beginWrite] at h
  split at h <;> cases h <;> exact ⟨fun _ => rfl,Nat.le_refl _⟩

theorem itemsIdle (path : FacilityPath) : Idle (items path) := by
  intro d a d' h
  simp only [items] at h
  split at h <;> cases h
  · exact .refl d
  · exact .refl d
  · rename_i absent
    refine ⟨fun other => ?_,Nat.le_refl _⟩
    rw [recordsInserted]
    split
    · rename_i same
      rw [same,Replica.records,absent]
    · rfl

theorem locateIdle (path : FacilityPath) (id : ItemId) : Idle (locate path id) := by
  refine .bind (itemsIdle path) fun rs => ?_
  split
  · exact .pure _
  · exact .fail _

theorem takeIdIdle : Idle takeId := by
  intro d a d' h
  cases h
  exact ⟨fun _ => rfl,Nat.le_succ _⟩

theorem setItemsHarmless (path : FacilityPath) (rs : List Record) : Harmless (setItems path rs) :=
  fun _ _ _ h => by cases h

theorem updateHarmless (path : FacilityPath) (id : ItemId) (f : Record → Record) :
    Harmless (update path id f) := .bind (locateIdle path id) fun _ => setItemsHarmless path _

theorem removeHarmless (path : FacilityPath) (id : ItemId) : Harmless (remove path id) :=
  .bind (beginWriteIdle _) fun _ => .bind (locateIdle path id) fun _ => setItemsHarmless path _

theorem setDisabledHarmless (path : FacilityPath) (id : ItemId) (disabled : Bool) :
    Harmless (setDisabled path id disabled) :=
  .bind (beginWriteIdle _) fun _ => updateHarmless path id _

theorem moveHarmless (path : FacilityPath) (id : ItemId) (before : Option ItemId) :
    Harmless (move path id before) := by
  refine .bind (beginWriteIdle _) fun _ => .bind (locateIdle path id) ?_
  rintro ⟨rs,i⟩
  dsimp only
  split
  · exact .idle (.fail _)
  · split
    · exact setItemsHarmless path _
    · exact .idle (.fail _)

theorem setSingletonHarmless (path : FacilityPath) (values : Assignments) :
    Harmless (setSingleton path values) := by
  intro d e d' h
  simp only [setSingleton] at h
  split at h <;> cases h
  exact .refl d

theorem setHarmless (path : FacilityPath) (item : Option ItemId) (values : Assignments) :
    Harmless (set path item values) := by
  refine .bind (.lift _) fun _ => .bind (beginWriteIdle _) fun _ => ?_
  cases item with
  | none => exact setSingletonHarmless path values
  | some id => exact updateHarmless path id _

theorem addHarmless (path : FacilityPath) (values : Assignments) (before : Option ItemId) :
    Harmless (add path values before) := by
  refine .bind (.lift _) fun _ => .bind (beginWriteIdle _) fun _ => .bind takeIdIdle fun id => ?_
  cases before with
  | none => exact .bind (itemsIdle path) fun _ => .answering (setItemsHarmless path _) _
  | some other => exact .bind (locateIdle path other) fun _ => .answering (setItemsHarmless path _) _

end Replica

theorem performHarmless (f : Facility) (index : Nat) (added : Session.AddedIds)
    (operation : Operation) : Harmless (Session.perform f index added operation) := by
  cases operation with
  | add values before =>
    refine .bind (.lift _) fun place => .answering (.bind (.lift _) fun _ => ?_) _
    split
    · exact .idle (.fail _)
    · exact .bind (.lift _) fun _ => addHarmless f.path values place
  | remove id => exact .answering (.bind (.lift _) fun _ => removeHarmless f.path id) _
  | set item values =>
    exact .answering (.bind (.lift _) fun _ => .bind (.lift _) fun _ => setHarmless f.path item values) _
  | move item before =>
    refine .bind (.lift _) fun id => .bind (.lift _) fun place => .answering ?_ _
    unfold Facility.move
    split
    · exact moveHarmless f.path id place
    · exact .idle (.fail _)
  | enable id => exact .answering (.bind (.lift _) fun _ => setDisabledHarmless f.path id _) _
  | disable id => exact .answering (.bind (.lift _) fun _ => setDisabledHarmless f.path id _) _

structure Injected (d : Replica) (e : Error) : Prop where
  next : d.failAtWrite = some d.writes
  cause : ∃ text, e = .commandFailed text "failure: injected"

def Operation.values : Operation → Assignments
  | .add values _ => values
  | .set _ values => values
  | _ => ∅

def Unencoded (values : Assignments) (e : Error) : Prop :=
  ∃ key v, (key,.value v) ∈ values.toList ∧ v.encode = .error e

theorem checkEncodableFails {values : Assignments} {e : Error}
    (writable : values.checkWritable = .ok ()) (h : checkEncodable values.toList = .error e) :
    Unencoded values e := by
  unfold Assignments.checkWritable at writable
  unfold Unencoded
  generalize values.toList = l at writable h
  induction l with
  | nil => cases h
  | cons entry rest ih =>
    have later (writable : Assignments.checkWritable.go rest = .ok ())
        (h : checkEncodable rest = .error e) :
        ∃ key v, (key,.value v) ∈ entry :: rest ∧ v.encode = .error e := by
      obtain ⟨key,v,mem,failed⟩ := ih writable h
      exact ⟨key,v,List.mem_cons_of_mem _ mem,failed⟩
    obtain ⟨key,a⟩ := entry
    cases a with
    | unset => exact later writable h
    | value v =>
      cases checked : v.checkWritable with
      | error cause => simp [Assignments.checkWritable.go,checked] at writable
      | ok done =>
        simp only [Assignments.checkWritable.go,checked] at writable
        simp only [checkEncodable,Value.encodeForWrite,checked] at h
        cases encoded : v.encode with
        | error cause =>
          rw [encoded] at h
          cases h
          exact ⟨key,v,List.mem_cons_self,encoded⟩
        | ok text =>
          rw [encoded] at h
          exact later writable h

namespace Replica
variable {path : FacilityPath} {id : ItemId} {d d' : Replica} {e : Error}

theorem positionNone {rs : List Record} (h : position? id rs = none) : some id ∉ ids rs := by
  intro mem
  obtain ⟨r,hr,named⟩ := List.mem_map.mp mem
  have other := List.findIdx?_eq_none_iff.mp h r hr
  simp [named] at other

theorem idsErased {rs : List Record} {i : Nat} (h : position? id rs = some i) :
    ids (rs.eraseIdx i) = (ids rs).erase (some id) := by
  obtain ⟨front,r,back,rfl,rfl,named,apart⟩ := positionSplit h
  have out : some id ∉ ids front := fun mem => by
    obtain ⟨x,hx,same⟩ := List.mem_map.mp mem
    exact apart x hx same
  have gone : (front ++ r :: back).eraseIdx front.length = front ++ back := by
    simp [List.eraseIdx_append_of_length_le]
  rw [gone,ids,ids,List.map_append,List.map_append,List.map_cons,named]
  exact ((List.erase_append_right _ out).trans (by rw [List.erase_cons_head]; rfl)).symm

theorem beginWriteFails {text : String} (h : beginWrite text d = (.error e,d')) : Injected d e := by
  simp only [beginWrite] at h
  split at h <;> cases h
  exact ⟨‹_›,text,rfl⟩

theorem HasItems.begun {text : String} {m : Replica} (there : d.HasItems path)
    (h : beginWrite text d = (.ok (),m)) : m.HasItems path := by
  rw [beginWriteOk h]
  exact there

theorem itemsNeverFails (there : d.HasItems path) : items path d ≠ (.error e,d') := by
  intro h
  simp only [items] at h
  split at h <;> cases h
  exact there _ ‹_›

theorem locateNeverFails (there : d.HasItems path) (listed : some id ∈ ids (d.records path)) :
    locate path id d ≠ (.error e,d') := by
  intro h
  rcases bindError.mp h with h | ⟨rs,m,read,h⟩
  · exact itemsNeverFails there h
  · rw [← (itemsOk read).1] at listed
    cases place : position? id rs with
    | some i => simp only [place] at h; exact pureError h
    | none => exact positionNone place listed

theorem setItemsNeverFails {rs : List Record} : setItems path rs d ≠ (.error e,d') := by
  intro h
  cases h

theorem updateNeverFails {f : Record → Record} (there : d.HasItems path)
    (listed : some id ∈ ids (d.records path)) : update path id f d ≠ (.error e,d') := by
  intro h
  rcases bindError.mp h with h | ⟨_,_,-,h⟩
  · exact locateNeverFails there listed h
  · exact setItemsNeverFails h

theorem removeFails (there : d.HasItems path) (listed : some id ∈ ids (d.records path))
    (h : remove path id d = (.error e,d')) : Injected d e := by
  rcases bindError.mp h with h | ⟨_,m,begun,h⟩
  · exact beginWriteFails h
  rcases bindError.mp h with h | ⟨_,_,-,h⟩
  · rw [← (recordsOfBegun begun path).1] at listed
    exact (locateNeverFails (there.begun begun) listed h).elim
  · exact (setItemsNeverFails h).elim

theorem setDisabledFails {disabled : Bool} (there : d.HasItems path)
    (listed : some id ∈ ids (d.records path)) (h : setDisabled path id disabled d = (.error e,d')) :
    Injected d e := by
  rcases bindError.mp h with h | ⟨_,m,begun,h⟩
  · exact beginWriteFails h
  · rw [← (recordsOfBegun begun path).1] at listed
    exact (updateNeverFails (there.begun begun) listed h).elim

-- The record to move is taken out before the other one is looked for.
theorem moveFails {before : Option ItemId} (there : d.HasItems path)
    (listed : some id ∈ ids (d.records path))
    (anchored : ∀ other ∈ before, some other ∈ (ids (d.records path)).erase (some id))
    (h : move path id before d = (.error e,d')) : Injected d e := by
  rcases bindError.mp h with h | ⟨_,m,begun,h⟩
  · exact beginWriteFails h
  rw [← (recordsOfBegun begun path).1] at listed anchored
  rcases bindError.mp h with h | ⟨⟨rs,i⟩,n,located,h⟩
  · exact (locateNeverFails (there.begun begun) listed h).elim
  obtain ⟨rfl,place,-⟩ := locateOk located
  obtain ⟨front,r,back,split,size,-⟩ := positionSplit place
  have taken : (m.records path)[i]? = some r := by simp [split,← size]
  simp only [taken] at h
  cases arrived : relocate (m.records path) i r before with
  | some moved =>
    simp only [arrived] at h
    exact (setItemsNeverFails h).elim
  | none =>
    cases before with
    | none => cases arrived
    | some other =>
      have lost := positionNone (Option.map_eq_none_iff.mp arrived)
      rw [idsErased place] at lost
      exact absurd (anchored other rfl) lost

theorem addFails {values : Assignments} {before : Option ItemId} (there : d.HasItems path)
    (writable : values.checkWritable = .ok ())
    (anchored : ∀ other ∈ before, some other ∈ ids (d.records path))
    (h : add path values before d = (.error e,d')) : Injected d e ∨ Unencoded values e := by
  rcases bindError.mp h with h | ⟨_,_,checked,h⟩
  · exact .inr (checkEncodableFails writable (liftError.mp h).1)
  cases (liftOk.mp checked).2
  rcases bindError.mp h with h | ⟨_,m,begun,h⟩
  · exact .inl (beginWriteFails h)
  rw [← (recordsOfBegun begun path).1] at anchored
  have there : { m with nextId := m.nextId + 1 }.HasItems path :=
    show m.HasItems path from there.begun begun
  rcases bindError.mp h with h | ⟨_,n,taken,h⟩
  · cases h
  cases taken
  cases before with
  | none =>
    rcases bindError.mp h with h | ⟨_,_,-,h⟩
    · exact (itemsNeverFails there h).elim
    exact (setItemsNeverFails (answerFails h)).elim
  | some other =>
    rcases bindError.mp h with h | ⟨_,_,-,h⟩
    · exact (locateNeverFails there (anchored other rfl) h).elim
    exact (setItemsNeverFails (answerFails h)).elim

theorem setFails {item : Option ItemId} {values : Assignments}
    (writable : values.checkWritable = .ok ())
    (listed : ∀ id ∈ item, d.HasItems path ∧ some id ∈ ids (d.records path))
    (single : item = none → ∀ rs, d.facilities.get? path.text ≠ some (.items rs))
    (h : set path item values d = (.error e,d')) : Injected d e ∨ Unencoded values e := by
  rcases bindError.mp h with h | ⟨_,_,checked,h⟩
  · exact .inr (checkEncodableFails writable (liftError.mp h).1)
  cases (liftOk.mp checked).2
  rcases bindError.mp h with h | ⟨_,m,begun,h⟩
  · exact .inl (beginWriteFails h)
  cases item with
  | none =>
    simp only [setSingleton] at h
    rw [beginWriteOk begun] at h
    split at h <;> cases h
    exact absurd ‹_› (single rfl _)
  | some id =>
    obtain ⟨there,listed⟩ := listed id rfl
    rw [← (recordsOfBegun begun path).1] at listed
    exact (updateNeverFails (there.begun begun) listed h).elim

end Replica
end RouterReconciler

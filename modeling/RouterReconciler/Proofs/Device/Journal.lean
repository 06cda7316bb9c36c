import RouterReconciler.Proofs.Device.Writes
import RouterReconciler.Run.Apply

/-! What the journal tells. An operation of a plan that goes through is one write: it is counted once,
and one line is entered for it. -/
namespace RouterReconciler
open Step

structure Entered (n : Nat) (d d' : Replica) : Prop where
  writes : d'.writes = d.writes + n
  journal : ∃ lines, d'.journal = d.journal ++ lines ∧ lines.length = n

theorem Entered.refl (d : Replica) : Entered 0 d d := ⟨rfl,[],by simp,rfl⟩

theorem Entered.trans {k n : Nat} {d m d' : Replica} (first : Entered k d m) (second : Entered n m d') :
    Entered (k + n) d d' := by
  obtain ⟨early,before,firstLines,firstSize⟩ := first
  obtain ⟨late,after,secondLines,secondSize⟩ := second
  refine ⟨by rw [late,early,Nat.add_assoc],before ++ after,?_,?_⟩
  · rw [secondLines,firstLines,List.append_assoc]
  · rw [List.length_append,firstSize,secondSize]

def Enters {α : Type} (n : Nat) (x : Access Replica α) : Prop :=
  ∀ d a d', x d = (.ok a,d') → Entered n d d'

namespace Enters
variable {α β : Type} {n : Nat} {x : Access Replica α} {f : α → Access Replica β}

theorem pure (a : α) : Enters 0 (Pure.pure a : Access Replica α) := by
  intro d b d' h
  obtain ⟨-,rfl⟩ := pureOk.mp h
  exact .refl d

theorem lift (x : Except Error α) : Enters 0 (liftM x : Access Replica α) := by
  intro d a d' h
  obtain ⟨-,rfl⟩ := liftOk.mp h
  exact .refl d

theorem fail (n : Nat) (e : Error) : Enters n (Step.fail e : Access Replica α) :=
  fun _ _ _ h => (failNotOk h).elim

theorem after (first : Enters 0 x) (later : ∀ a, Enters n (f a)) : Enters n (x >>= f) := by
  intro d b d' h
  obtain ⟨a,m,begun,h⟩ := bindOk.mp h
  simpa using (first d a m begun).trans (later a m b d' h)

-- So may steps that write nothing come last.
theorem before (first : Enters n x) (later : ∀ a, Enters 0 (f a)) : Enters n (x >>= f) := by
  intro d b d' h
  obtain ⟨a,m,begun,h⟩ := bindOk.mp h
  exact (first d a m begun).trans (later a m b d' h)

end Enters

namespace Replica

theorem beginWriteEnters (text : String) : Enters 1 (beginWrite text) := by
  intro d a d' h
  rw [beginWriteOk h]
  exact ⟨rfl,[text],rfl,rfl⟩

theorem itemsEnters (path : FacilityPath) : Enters 0 (items path) := by
  intro d rs d' h
  simp only [items] at h
  split at h <;> cases h <;> exact ⟨rfl,[],by simp,rfl⟩

theorem setItemsEnters (path : FacilityPath) (rs : List Record) : Enters 0 (setItems path rs) := by
  intro d a d' h
  cases h
  exact ⟨rfl,[],by simp,rfl⟩

theorem locateEnters (path : FacilityPath) (id : ItemId) : Enters 0 (locate path id) := by
  refine .after (itemsEnters path) fun rs => ?_
  split
  · exact .pure _
  · exact .fail 0 _

theorem updateEnters (path : FacilityPath) (id : ItemId) (f : Record → Record) :
    Enters 0 (update path id f) := .after (locateEnters path id) fun _ => setItemsEnters path _

theorem takeIdEnters : Enters 0 takeId := by
  intro d a d' h
  cases h
  exact ⟨rfl,[],by simp,rfl⟩

theorem setSingletonEnters (path : FacilityPath) (values : Assignments) :
    Enters 0 (setSingleton path values) := by
  intro d a d' h
  simp only [setSingleton] at h
  split at h <;> cases h <;> exact ⟨rfl,[],by simp,rfl⟩

theorem addEnters (path : FacilityPath) (values : Assignments) (before : Option ItemId) :
    Enters 1 (add path values before) := by
  refine .after (.lift _) fun _ => .before (beginWriteEnters _) fun _ => .after takeIdEnters fun id => ?_
  cases before with
  | none => exact .after (itemsEnters path) fun _ => .after (setItemsEnters path _) fun _ => .pure _
  | some other =>
    exact .after (locateEnters path other) fun _ => .after (setItemsEnters path _) fun _ => .pure _

theorem removeEnters (path : FacilityPath) (id : ItemId) : Enters 1 (remove path id) :=
  .before (beginWriteEnters _) fun _ => .after (locateEnters path id) fun _ => setItemsEnters path _

theorem setEnters (path : FacilityPath) (item : Option ItemId) (values : Assignments) :
    Enters 1 (set path item values) := by
  refine .after (.lift _) fun _ => .before (beginWriteEnters _) fun _ => ?_
  cases item with
  | none => exact setSingletonEnters path values
  | some id => exact updateEnters path id _

theorem moveEnters (path : FacilityPath) (id : ItemId) (before : Option ItemId) :
    Enters 1 (move path id before) := by
  refine .before (beginWriteEnters _) fun _ => .after (locateEnters path id) ?_
  rintro ⟨rs,i⟩
  dsimp only
  split
  · exact .fail 0 _
  · split
    · exact setItemsEnters path _
    · exact .fail 0 _

theorem setDisabledEnters (path : FacilityPath) (id : ItemId) (disabled : Bool) :
    Enters 1 (setDisabled path id disabled) :=
  .before (beginWriteEnters _) fun _ => updateEnters path id _

end Replica

theorem performEnters (f : Facility) (index : Nat) (added : Session.AddedIds) (operation : Operation) :
    Enters 1 (Session.perform f index added operation : Access Replica _) := by
  cases operation with
  | add values before =>
    refine .after (.lift _) fun place => .before (.after (.lift _) fun _ => ?_) fun _ => .pure _
    split
    · exact .fail 1 _
    · exact .after (.lift _) fun _ => Replica.addEnters f.path values place
  | remove id =>
    exact .before (.after (.lift _) fun _ => Replica.removeEnters f.path id) fun _ => .pure _
  | set item values =>
    exact .before (.after (.lift _) fun _ => .after (.lift _) fun _ => Replica.setEnters f.path item values)
      fun _ => .pure _
  | move item before =>
    refine .after (.lift _) fun id => .after (.lift _) fun place => .before ?_ fun _ => .pure _
    unfold Facility.move
    split
    · exact Replica.moveEnters f.path id place
    · exact .fail 1 _
  | enable id =>
    exact .before (.after (.lift _) fun _ => Replica.setDisabledEnters f.path id _) fun _ => .pure _
  | disable id =>
    exact .before (.after (.lift _) fun _ => Replica.setDisabledEnters f.path id _) fun _ => .pure _

end RouterReconciler

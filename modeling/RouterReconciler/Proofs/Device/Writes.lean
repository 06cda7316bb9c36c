import RouterReconciler.Device.Replica

/-! The writes of a replica that go through: what becomes of the records at the path, and that the
facilities at other paths stay as they are. -/
namespace RouterReconciler.Replica
open Step

def HasItems (d : Replica) (path : FacilityPath) : Prop :=
  ∀ r, d.facilities.get? path.text ≠ some (.singleton r)

theorem HasItems.ofStored {d : Replica} {path : FacilityPath}
    (h : d.facilities.get? path.text = some (.items (d.records path))) : d.HasItems path := by
  intro r
  simp [h]

structure Beside (path : FacilityPath) (d d' : Replica) : Prop where
  elsewhere : ∀ other, other ≠ path → d'.records other = d.records other
  items : d.HasItems path → d'.HasItems path
  failing : d'.failAtWrite = d.failAtWrite

theorem Beside.refl (path : FacilityPath) (d : Replica) : Beside path d d :=
  ⟨fun _ _ => rfl,id,rfl⟩

theorem Beside.trans {path d m d'} (first : Beside path d m) (second : Beside path m d') :
    Beside path d d' :=
  ⟨fun other away => (second.elsewhere other away).trans (first.elsewhere other away),
    second.items ∘ first.items,second.failing.trans first.failing⟩

structure Holds (path : FacilityPath) (rs : List Record) (d d' : Replica) : Prop where
  here : d'.facilities.get? path.text = some (.items rs)
  elsewhere : ∀ other, other ≠ path.text → d'.facilities.get? other = d.facilities.get? other
  failing : d'.failAtWrite = d.failAtWrite

theorem Holds.records {path rs d d'} (h : Holds path rs d d') : d'.records path = rs := by
  simp [Replica.records,h.here]

theorem Holds.others {path rs d d'} (h : Holds path rs d d') {other : FacilityPath}
    (away : other ≠ path) : d'.records other = d.records other := by
  have differ : other.text ≠ path.text := fun same => away (by cases other; cases path; simp_all)
  simp [Replica.records,h.elsewhere _ differ]

theorem Holds.beside {path rs d d'} (h : Holds path rs d d') : Beside path d d' :=
  ⟨fun _ away => h.others away,fun _ r => by simp [h.here],h.failing⟩

theorem Holds.after {path rs rs' d m d'} (first : Holds path rs d m) (second : Holds path rs' m d') :
    Holds path rs' d d' :=
  ⟨second.here,fun other away => (second.elsewhere other away).trans (first.elsewhere other away),
    second.failing.trans first.failing⟩

theorem beginWriteOk {text : String} {d d' : Replica} (h : beginWrite text d = (.ok (),d')) :
    d' = { d with writes := d.writes + 1, journal := d.journal ++ [text] } := by
  simp only [beginWrite] at h
  split at h <;> cases h
  rfl

theorem itemsOk {path : FacilityPath} {d d' : Replica} {rs : List Record}
    (h : items path d = (.ok rs,d')) :
    rs = d.records path ∧ Holds path rs d d' ∧ d'.nextId = d.nextId := by
  simp only [items] at h
  split at h <;> cases h
  · rename_i found
    exact ⟨by simp [Replica.records,found],⟨found,fun _ _ => rfl,rfl⟩,rfl⟩
  · rename_i absent
    refine ⟨by simp [Replica.records,absent],⟨?_,fun other away => ?_,rfl⟩,rfl⟩
    · simp
    · simp [away]

theorem setItemsOk {path : FacilityPath} {d d' : Replica} {rs : List Record}
    (h : setItems path rs d = (.ok (),d')) : Holds path rs d d' ∧ d'.nextId = d.nextId := by
  simp only [setItems,Step.modify] at h
  cases h
  refine ⟨⟨?_,fun other away => ?_,rfl⟩,rfl⟩
  · simp
  · simp [away]

theorem locateOk {path : FacilityPath} {id : ItemId} {d d' : Replica} {rs : List Record} {i : Nat}
    (h : locate path id d = (.ok (rs,i),d')) :
    rs = d.records path ∧ position? id rs = some i ∧ Holds path rs d d' ∧ d'.nextId = d.nextId := by
  simp only [locate,bindOk] at h
  obtain ⟨found,m,hi,h⟩ := h
  obtain ⟨same,holds,next⟩ := itemsOk hi
  cases place : position? id found with
  | none => rw [place] at h; exact absurd h failNotOk
  | some j =>
    rw [place] at h
    obtain ⟨pair,rfl⟩ := pureOk.mp h
    cases pair
    exact ⟨same,place,holds,next⟩

theorem recordsOfBegun {text : String} {d m : Replica} (h : beginWrite text d = (.ok (),m))
    (path : FacilityPath) : m.records path = d.records path ∧ m.nextId = d.nextId := by
  rw [beginWriteOk h]; exact ⟨rfl,rfl⟩

theorem Holds.ofBegun {text : String} {d m d' : Replica} {path : FacilityPath} {rs : List Record}
    (h : beginWrite text d = (.ok (),m)) (holds : Holds path rs m d') : Holds path rs d d' := by
  rw [beginWriteOk h] at holds
  exact ⟨holds.here,holds.elsewhere,holds.failing⟩

theorem removeOk {path : FacilityPath} {id : ItemId} {d d' : Replica}
    (h : remove path id d = (.ok (),d')) :
    ∃ i, position? id (d.records path) = some i ∧
      Holds path ((d.records path).eraseIdx i) d d' ∧ d'.nextId = d.nextId := by
  simp only [remove,bindOk] at h
  obtain ⟨_,m,begun,⟨rs,i⟩,n,located,stored⟩ := h
  obtain ⟨rfl,place,found,next⟩ := locateOk located
  obtain ⟨holds,last⟩ := setItemsOk stored
  have start := recordsOfBegun begun path
  rw [start.1] at place holds
  exact ⟨i,place,.ofBegun begun (found.after holds),by rw [last,next,start.2]⟩

theorem updateOk {path : FacilityPath} {id : ItemId} {f : Record → Record} {d d' : Replica}
    (h : update path id f d = (.ok (),d')) :
    ∃ i, position? id (d.records path) = some i ∧
      Holds path ((d.records path).modify i f) d d' ∧ d'.nextId = d.nextId := by
  simp only [update,bindOk] at h
  obtain ⟨⟨rs,i⟩,n,located,stored⟩ := h
  obtain ⟨rfl,place,found,next⟩ := locateOk located
  obtain ⟨holds,last⟩ := setItemsOk stored
  exact ⟨i,place,found.after holds,last.trans next⟩

theorem setOk {path : FacilityPath} {id : ItemId} {values : Assignments} {d d' : Replica}
    (h : set path (some id) values d = (.ok (),d')) :
    ∃ i, position? id (d.records path) = some i ∧
      Holds path ((d.records path).modify i (·.apply values)) d d' ∧ d'.nextId = d.nextId := by
  simp only [set,bindOk,liftOk] at h
  obtain ⟨_,_,⟨-,rfl⟩,_,m,begun,updated⟩ := h
  obtain ⟨i,place,holds,next⟩ := updateOk updated
  have start := recordsOfBegun begun path
  rw [start.1] at place holds
  exact ⟨i,place,.ofBegun begun holds,next.trans start.2⟩

theorem readStored {path : FacilityPath} {r : Record} {d : Replica}
    (h : d.facilities.get? path.text = some (.singleton r)) : readOne path d = (.ok r,d) := by
  simp [readOne,h]

theorem setSingletonOk {path : FacilityPath} {values : Assignments} {d d' : Replica}
    (h : set path none values d = (.ok (),d')) :
    ∃ r, readOne path d = (.ok r,d) ∧ d'.facilities.get? path.text = some (.singleton (r.apply values)) ∧
      ∀ other, other ≠ path.text → d'.facilities.get? other = d.facilities.get? other := by
  simp only [set,bindOk,liftOk] at h
  obtain ⟨_,_,⟨-,rfl⟩,_,m,begun,stored⟩ := h
  have same : m.facilities = d.facilities := by rw [beginWriteOk begun]
  simp only [setSingleton,same] at stored
  split at stored <;> cases stored
  · rename_i r found
    exact ⟨r,readStored found,by simp,fun other away => by
      simp [away]⟩
  · rename_i absent
    exact ⟨.empty,by simp [readOne,absent],by simp,fun other away => by
      simp [away]⟩

theorem setDisabledOk {path : FacilityPath} {id : ItemId} {disabled : Bool} {d d' : Replica}
    (h : setDisabled path id disabled d = (.ok (),d')) :
    ∃ i, position? id (d.records path) = some i ∧
      Holds path ((d.records path).modify i (·.set "disabled" (.bool disabled))) d d' ∧
      d'.nextId = d.nextId := by
  simp only [setDisabled,bindOk] at h
  obtain ⟨_,m,begun,updated⟩ := h
  obtain ⟨i,place,holds,next⟩ := updateOk updated
  have start := recordsOfBegun begun path
  rw [start.1] at place holds
  exact ⟨i,place,.ofBegun begun holds,next.trans start.2⟩

theorem moveOk {path : FacilityPath} {id : ItemId} {before : Option ItemId} {d d' : Replica}
    (h : move path id before d = (.ok (),d')) :
    ∃ i record moved, position? id (d.records path) = some i ∧
      (d.records path)[i]? = some record ∧ relocate (d.records path) i record before = some moved ∧
      Holds path moved d d' ∧ d'.nextId = d.nextId := by
  simp only [move,bindOk] at h
  obtain ⟨_,m,begun,⟨rs,i⟩,n,located,stored⟩ := h
  obtain ⟨rfl,place,found,next⟩ := locateOk located
  have start := recordsOfBegun begun path
  rw [start.1] at place stored found
  cases taken : (d.records path)[i]? with
  | none => simp only [taken] at stored; exact absurd stored failNotOk
  | some record =>
    simp only [taken] at stored
    cases arrived : relocate (d.records path) i record before with
    | none => simp only [arrived] at stored; exact absurd stored failNotOk
    | some moved =>
      simp only [arrived] at stored
      obtain ⟨holds,last⟩ := setItemsOk stored
      exact ⟨i,record,moved,place,taken,arrived,.ofBegun begun (found.after holds),
        by rw [last,next,start.2]⟩

def newRecord (n : Nat) (values : Assignments) : Record := Record.apply ⟨some (newId n),∅⟩ values

def inserted (rs : List Record) (r : Record) : Option ItemId → Option (List Record)
  | none => some (rs ++ [r])
  | some other => (position? other rs).map fun i => rs.insertIdx i r

theorem addOk {path : FacilityPath} {values : Assignments} {before : Option ItemId}
    {id : ItemId} {d d' : Replica} (h : add path values before d = (.ok id,d')) :
    id = newId d.nextId ∧ d'.nextId = d.nextId + 1 ∧
    ∃ rs, inserted (d.records path) (newRecord d.nextId values) before = some rs ∧
      Holds path rs d d' := by
  simp only [add,bindOk,liftOk] at h
  obtain ⟨_,_,⟨-,rfl⟩,_,m,begun,given,n,taken,stored⟩ := h
  obtain ⟨begunSame,begunNext⟩ := recordsOfBegun begun path
  simp only [takeId,Prod.mk.injEq,Except.ok.injEq] at taken
  obtain ⟨rfl,rfl⟩ := taken
  have same : Replica.records { m with nextId := m.nextId + 1 } path = d.records path := begunSame
  cases before with
  | none =>
    simp only [bindOk,pureOk] at stored
    obtain ⟨rs,j,listed,_,k,put,rfl,rfl⟩ := stored
    obtain ⟨rfl,found,next⟩ := itemsOk listed
    obtain ⟨holds,last⟩ := setItemsOk put
    have all := found.after holds
    rw [same,begunNext] at all
    exact ⟨by rw [begunNext],by rw [last,next,begunNext],_,rfl,
      .ofBegun begun ⟨all.here,all.elsewhere,all.failing⟩⟩
  | some other =>
    simp only [bindOk,pureOk] at stored
    obtain ⟨⟨rs,i⟩,j,located,_,k,put,rfl,rfl⟩ := stored
    obtain ⟨rfl,place,found,next⟩ := locateOk located
    obtain ⟨holds,last⟩ := setItemsOk put
    have all := found.after holds
    rw [same] at place
    rw [same,begunNext] at all
    exact ⟨by rw [begunNext],by rw [last,next,begunNext],_,by rw [inserted,place]; rfl,
      .ofBegun begun ⟨all.here,all.elsewhere,all.failing⟩⟩

end RouterReconciler.Replica

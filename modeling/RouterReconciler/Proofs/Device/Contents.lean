import Mathlib.Data.List.InsertIdx
import Mathlib.Data.List.Perm.Basic
import RouterReconciler.Proofs.Device.Requests
import RouterReconciler.Proofs.Device.Writes
import RouterReconciler.Proofs.Record.Fields

/-! What is in a replica's facilities. A request does one of few things to one facility: it makes it,
takes a record out, puts one elsewhere, assigns to one, or adds one under the next id. A property that
all of these keep holds of every facility in every state that requests lead to, those that fail too. -/
namespace RouterReconciler
open Step

theorem Step.endsBind {σ α β : Type} {I : σ → Prop} {x : Access σ α} {f : α → Access σ β} {d : σ}
    (first : I (x d).2) (later : ∀ a m, x d = (.ok a,m) → I (f a m).2) : I ((x >>= f) d).2 := by
  cases ran : x d with
  | mk answer m =>
    rw [ran] at first
    cases answer with
    | ok a => rw [bindAfter ran]; exact later a m ran
    | error e => rw [bindFailed ran]; exact first

namespace Replica

def switched (disabled : Bool) : Assignments := Entries.empty.insert "disabled" (.value (.bool disabled))

structure Stores (least : Nat) (Q : Nat → String → Store → Prop) (d : Replica) : Prop where
  counter : least ≤ d.nextId
  each : ∀ path store, d.facilities.get? path = some store → Q d.nextId path store

structure Lasting (named : FacilityPath → Prop) (fits : Assignments → Prop)
    (Q : Nat → String → Store → Prop) : Prop where
  later {n m path store} (grows : n ≤ m) : Q n path store → Q m path store
  made {n path} (here : named path) : Q n path.text (.items [])
  erased {n path rs} (i : Nat) : Q n path (.items rs) → Q n path (.items (rs.eraseIdx i))
  moved {n path rs moved} (same : moved.Perm rs) : Q n path (.items rs) → Q n path (.items moved)
  changed {n path rs values} (fit : fits values) (i : Nat) :
    Q n path (.items rs) → Q n path (.items (rs.modify i (·.apply values)))
  added {n path rs values} (fit : fits values) (i : Nat) :
    Q n path (.items rs) → Q (n + 1) path (.items (rs.insertIdx i (newRecord n values)))
  kept {n path r values} (fit : fits values) :
    Q n path (.singleton r) → Q n path (.singleton (r.apply values))
  begun {n path values} (here : named path) (fit : fits values) :
    Q n path.text (.singleton (Record.empty.apply values))
  switches (disabled : Bool) : fits (switched disabled)

theorem relocatePerm {rs moved : List Record} {i : Nat} {record : Record} {before : Option ItemId}
    (taken : rs[i]? = some record) (h : relocate rs i record before = some moved) : moved.Perm rs := by
  obtain ⟨inside,rfl⟩ := List.getElem?_eq_some_iff.mp taken
  have whole : (rs[i] :: rs.eraseIdx i).Perm rs := List.getElem_cons_eraseIdx_perm inside
  cases before with
  | none =>
    cases h
    exact (List.perm_append_singleton _ _).trans whole
  | some other =>
    obtain ⟨j,place,rfl⟩ := Option.map_eq_some_iff.mp h
    have fit : j ≤ (rs.eraseIdx i).length := Nat.le_of_lt (List.findIdx?_eq_some_iff_getElem.mp place).1
    exact (List.perm_insertIdx _ _ fit).trans whole

section Steps
variable {named : FacilityPath → Prop} {fits : Assignments → Prop} {Q : Nat → String → Store → Prop}
  {least : Nat} {d : Replica} {path : FacilityPath} {id : ItemId}

theorem Stores.inserted {store : Store} (stores : Stores least Q d) (fit : Q d.nextId path.text store) :
    Stores least Q { d with facilities := d.facilities.insert path.text store } := by
  refine ⟨stores.counter,fun other found there => ?_⟩
  rw [Entries.getInsert] at there
  split at there
  · rename_i same
    cases there
    exact same ▸ fit
  · exact stores.each other found there

theorem beginWriteStores (text : String) : Keeps (Stores least Q) (beginWrite text) := by
  intro d stores
  unfold beginWrite
  dsimp only
  split <;> exact ⟨stores.counter,stores.each⟩

variable (lasting : Lasting named fits Q) (here : named path)
include lasting

theorem takenStores (stores : Stores least Q d) : Stores least Q { d with nextId := d.nextId + 1 } :=
  ⟨Nat.le_succ_of_le stores.counter,
    fun other store there => lasting.later (Nat.le_succ _) (stores.each other store there)⟩

include here

theorem itemsStores : Keeps (Stores least Q) (items path) := by
  intro d stores
  unfold items
  split
  · exact stores
  · exact stores
  · exact stores.inserted (lasting.made here)

-- What is read is in the store of the facility, which may have been made for it. An id that was used
-- up in between changes nothing of this.
theorem itemsRead (stores : Stores least Q d) {e m : Replica} {rs : List Record}
    (h : items path e = (.ok rs,m)) (same : e.facilities = d.facilities) :
    Q d.nextId path.text (.items rs) ∧ m.nextId = e.nextId := by
  unfold items at h
  rw [same] at h
  split at h <;> cases h
  · exact ⟨stores.each _ _ ‹_›,rfl⟩
  · exact ⟨lasting.made here,rfl⟩

theorem locateStores (id : ItemId) : Keeps (Stores least Q) (locate path id) := by
  refine .after (itemsStores lasting here) fun rs => ?_
  split
  · exact .pure _
  · exact .fail _

theorem locateRead (stores : Stores least Q d) {e m : Replica}
    {place : List Record × Nat} (h : locate path id e = (.ok place,m))
    (same : e.facilities = d.facilities) :
    Q d.nextId path.text (.items place.1) ∧ m.nextId = e.nextId := by
  simp only [locate,bindOk] at h
  obtain ⟨found,n,read,h⟩ := h
  cases first : position? id found with
  | none => simp only [first] at h; exact (failNotOk h).elim
  | some i =>
    simp only [first] at h
    obtain ⟨rfl,rfl⟩ := pureOk.mp h
    exact itemsRead lasting here stores read same

theorem afterLocate {α : Type} {f : List Record × Nat → Access Replica α} {e : Replica}
    (stores : Stores least Q d) (now : Stores least Q e) (same : e.facilities = d.facilities)
    (later : ∀ place m, Stores least Q m → m.nextId = e.nextId →
      Q d.nextId path.text (.items place.1) → Stores least Q (f place m).2) :
    Stores least Q ((locate path id >>= f) e).2 := by
  refine endsBind (locateStores lasting here id e now) fun place m located => ?_
  obtain ⟨held,next⟩ := locateRead lasting here stores located same
  have middle := locateStores lasting here id e now
  rw [located] at middle
  exact later place m middle next held

theorem updateStores {values : Assignments} (fit : fits values) (id : ItemId) :
    Keeps (Stores least Q) (update path id (·.apply values)) :=
  fun _ stores => afterLocate lasting here stores stores rfl fun _ _ middle next held =>
    middle.inserted (next ▸ lasting.changed fit _ held)

theorem removeStores (id : ItemId) : Keeps (Stores least Q) (remove path id) :=
  .after (beginWriteStores _) fun _ _ stores =>
    afterLocate lasting here stores stores rfl fun _ _ middle next held =>
      middle.inserted (next ▸ lasting.erased _ held)

theorem setDisabledStores (id : ItemId) (disabled : Bool) :
    Keeps (Stores least Q) (setDisabled path id disabled) :=
  .after (beginWriteStores _) fun _ => updateStores lasting here (lasting.switches disabled) id

theorem moveStores (id : ItemId) (before : Option ItemId) :
    Keeps (Stores least Q) (move path id before) := by
  refine .after (beginWriteStores _) fun _ d stores => ?_
  refine afterLocate lasting here stores stores rfl fun place m middle next held => ?_
  obtain ⟨rs,i⟩ := place
  dsimp only
  cases taken : rs[i]? with
  | none => exact middle
  | some record =>
    dsimp only
    cases arranged : relocate rs i record before with
    | none => exact middle
    | some moved =>
      exact middle.inserted (next ▸ lasting.moved (relocatePerm taken arranged) held)

theorem setSingletonStores {values : Assignments} (fit : fits values) :
    Keeps (Stores least Q) (setSingleton path values) := by
  intro d stores
  unfold setSingleton
  dsimp only
  split
  · exact stores.inserted (lasting.kept fit (stores.each _ _ ‹_›))
  · exact stores
  · exact stores.inserted (lasting.begun here fit)

theorem setStores {item : Option ItemId} {values : Assignments}
    (fit : checkEncodable values.toList = .ok () → fits values) :
    Keeps (Stores least Q) (set path item values) := by
  refine .bind (.lift _) fun _ _ _ _ checked => .after (beginWriteStores _) fun _ => ?_
  have fit := fit (liftOk.mp checked).1
  cases item with
  | none => exact setSingletonStores lasting here fit
  | some id => exact updateStores lasting here fit id

theorem addStores {values : Assignments} {before : Option ItemId}
    (fit : checkEncodable values.toList = .ok () → fits values) :
    Keeps (Stores least Q) (add path values before) := by
  refine .bind (.lift _) fun _ _ _ _ checked => .after (beginWriteStores _) fun _ d stores => ?_
  have fit := fit (liftOk.mp checked).1
  have counted := takenStores lasting stores
  -- the id is used up before the place is looked for; the records found are those of before
  refine endsBind (x := takeId) counted fun id m taken => ?_
  cases taken
  cases before with
  | none =>
    have middle := itemsStores lasting here _ counted
    refine endsBind middle fun rs m read => ?_
    obtain ⟨held,next⟩ := itemsRead lasting here stores read rfl
    have grown := lasting.added fit rs.length held
    rw [List.insertIdx_length_self] at grown
    rw [read] at middle
    exact middle.inserted (next ▸ grown)
  | some other =>
    exact afterLocate lasting here stores counted rfl fun _ _ middle next held =>
      middle.inserted (next ▸ lasting.added fit _ held)

theorem evaluateStores (item : Option ItemId) (expressions : List (String × String)) :
    Keeps (Stores least Q) (evaluate path item expressions) := by
  cases item with
  | some id =>
    refine .after (locateStores lasting here id) fun place => ?_
    obtain ⟨rs,i⟩ := place
    dsimp only
    split
    · exact .lift _
    · exact .fail _
  | none =>
    refine .after (fun d stores => ?_) fun _ => .lift _
    unfold readOne
    split <;> exact stores

end Steps
end Replica

def Request.Suits (named : FacilityPath → Prop) (fits : Assignments → Prop) : Request → Prop
  | .readOne _ | .read _ _ | .run _ => True
  | .evaluate path _ _ | .remove path _ | .move path _ _ | .setDisabled path _ _ => named path
  | .add path values _ | .set path _ values =>
    named path ∧ (Replica.checkEncodable values.toList = .ok () → fits values)

namespace Replica
variable {named : FacilityPath → Prop} {fits : Assignments → Prop} {Q : Nat → String → Store → Prop}

theorem requestStores (lasting : Lasting named fits Q) (least : Nat) {request : Request}
    (suits : request.Suits named fits) :
    Keeps (Stores least Q) (request.perform : Inquiry Replica Answer) := by
  cases request with
  | readOne path =>
    refine .after (.liftStep fun d stores => ?_) fun _ => .pure _
    show Stores least Q (readOne path d).2
    unfold readOne
    split <;> exact stores
  | read path s =>
    refine .after (fun d stores => ?_) fun _ => .pure _
    show Stores least Q (read path s d).2
    unfold read
    split <;> exact stores
  | evaluate path item expressions =>
    exact .after (.liftStep (evaluateStores lasting suits item expressions)) fun _ => .pure _
  | add path values before => exact .after (.liftStep (addStores lasting suits.1 suits.2)) fun _ => .pure _
  | remove path id => exact .after (.liftStep (removeStores lasting suits id)) fun _ => .pure _
  | set path item values => exact .after (.liftStep (setStores lasting suits.1 suits.2)) fun _ => .pure _
  | move path id before => exact .after (.liftStep (moveStores lasting suits id before)) fun _ => .pure _
  | setDisabled path id disabled =>
    exact .after (.liftStep (setDisabledStores lasting suits id disabled)) fun _ => .pure _
  | run command =>
    exact .after (.liftStep (.after (beginWriteStores _) fun _ => .pure _)) fun _ => .pure _

theorem requestSuits (request : Request) : request.Suits (fun _ => True) fun _ => True := by
  cases request <;> simp [Request.Suits]

theorem requestCounts (least : Nat) (request : Request) :
    Keeps (fun d : Replica => least ≤ d.nextId) (request.perform : Inquiry Replica Answer) := by
  have lasting : Lasting (fun _ => True) (fun _ => True) fun _ _ _ => True :=
    { later := fun _ _ => trivial
      made := fun _ => trivial
      erased := fun _ _ => trivial
      moved := fun _ _ => trivial
      changed := fun _ _ _ => trivial
      added := fun _ _ _ => trivial
      kept := fun _ _ => trivial
      begun := fun _ _ => trivial
      switches := fun _ => trivial }
  exact fun d above =>
    (requestStores lasting least (requestSuits request) d ⟨above,fun _ _ _ => trivial⟩).counter

end Replica

def Store.records : Store → List Record
  | .items rs => rs
  | .singleton r => [r]

namespace Replica
variable {named : FacilityPath → Prop} {fits : Assignments → Prop} {P : Record → Prop}

def OfRecords (named : FacilityPath → Prop) (P : Record → Prop) (_ : Nat) (path : String)
    (store : Store) : Prop := named ⟨path⟩ ∧ ∀ r ∈ store.records, P r

theorem memModify {α : Type} {f : α → α} {l : List α} {i : Nat} {x : α} (h : x ∈ l.modify i f) :
    x ∈ l ∨ ∃ y ∈ l, x = f y := by
  obtain ⟨j,found⟩ := List.mem_iff_getElem?.mp h
  rw [List.getElem?_modify] at found
  obtain ⟨y,there,rfl⟩ := Option.map_eq_some_iff.mp found
  have mem : y ∈ l := List.mem_of_getElem? there
  by_cases here : i = j
  · exact .inr ⟨y,mem,if_pos here⟩
  · rw [if_neg here]
    exact .inl mem

theorem lastingRecords (start : ∀ id, P ⟨id,∅⟩)
    (assigned : ∀ r values, fits values → P r → P (r.apply values))
    (switches : ∀ disabled, fits (switched disabled)) : Lasting named fits (OfRecords named P) where
  later _ h := h
  made here := ⟨here,by simp [Store.records]⟩
  erased i h := ⟨h.1,fun r mem => h.2 r (List.mem_of_mem_eraseIdx mem)⟩
  moved same h := ⟨h.1,fun r mem => h.2 r (same.mem_iff.mp mem)⟩
  changed fit i h := by
    refine ⟨h.1,fun r mem => ?_⟩
    rcases memModify mem with there | ⟨old,there,rfl⟩
    · exact h.2 r there
    · exact assigned old _ fit (h.2 old there)
  added fit i h := by
    refine ⟨h.1,fun r mem => ?_⟩
    rcases List.eq_or_mem_of_mem_insertIdx mem with rfl | there
    · exact assigned _ _ fit (start _)
    · exact h.2 r there
  kept fit h := ⟨h.1,fun r mem => by
    rw [List.mem_singleton.mp mem]
    exact assigned _ _ fit (h.2 _ (List.mem_singleton.mpr rfl))⟩
  begun here fit := ⟨here,fun r mem => by
    rw [List.mem_singleton.mp mem]
    exact assigned _ _ fit (start _)⟩
  switches := switches

theorem lastingEach {P : Value → Prop} (bool : ∀ b, P (.bool b)) :
    Lasting named (Assignments.Each P) (OfRecords named (Record.Each P)) := by
  refine lastingRecords (fun id => ?_) (fun r values => Record.eachApply) fun disabled => ?_
  · rintro key v ⟨⟩
  · intro key v mem
    cases List.mem_singleton.mp mem
    exact bool disabled

end Replica
end RouterReconciler

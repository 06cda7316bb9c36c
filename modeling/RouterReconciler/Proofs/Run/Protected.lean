import RouterReconciler.Proofs.Run.Applicable
import RouterReconciler.Proofs.Run.Live

/-! Protected records outlive every run, finished or not. Operations in order leave records alone that
they may not name, and the ids that they take for new records are not in use; and what they remove is
neither default nor builtin. -/
namespace RouterReconciler
open Replica Step Session Reconcile Text

section Filtered
variable {q : Option ItemId → Bool}

theorem filterMiddle {front back : List Record} {r : Record} (out : q r.id = false) :
    (front ++ r :: back).filter (fun r => q r.id) = (front ++ back).filter (fun r => q r.id) := by
  rw [List.filter_append,List.filter_cons_of_neg (by simp [out]),← List.filter_append]

theorem filterModified {id : ItemId} {f : Record → Record} {rs : List Record} {i : Nat}
    (same : ∀ r, (f r).id = r.id) (h : position? id rs = some i) (out : q (some id) = false) :
    (rs.modify i f).filter (fun r => q r.id) = rs.filter (fun r => q r.id) := by
  obtain ⟨front,r,back,rfl,rfl,named,-⟩ := positionSplit h
  rw [modifyMiddle,filterMiddle (by rw [same,named]; exact out),filterMiddle (by rw [named]; exact out)]

theorem filterInserted {rs after : List Record} {r : Record} {before : Option ItemId}
    (h : inserted rs r before = some after) (out : q r.id = false) :
    after.filter (fun r => q r.id) = rs.filter (fun r => q r.id) := by
  cases before with
  | none =>
    cases h
    rw [filterMiddle out,List.append_nil]
  | some other =>
    obtain ⟨i,place,rfl⟩ := Option.map_eq_some_iff.mp h
    obtain ⟨front,x,back,rfl,rfl,-⟩ := positionSplit place
    rw [insertMiddle,filterMiddle out]

theorem filterErased {id : ItemId} {rs : List Record} {i : Nat} (h : position? id rs = some i)
    (out : q (some id) = false) :
    (rs.eraseIdx i).filter (fun r => q r.id) = rs.filter (fun r => q r.id) := by
  obtain ⟨front,r,back,rfl,rfl,named,-⟩ := positionSplit h
  rw [filterMiddle (by rw [named]; exact out)]
  simp [List.eraseIdx_append_of_length_le]

namespace View

theorem filterUpdated {v w : View} {id : ItemId} {f : Record → Record} (same : ∀ r, (f r).id = r.id)
    (out : q (some id) = false) (h : v.update id f = some w) :
    w.records.filter (fun r => q r.id) = v.records.filter (fun r => q r.id) := by
  obtain ⟨i,place,rfl⟩ := updateEq.mp h
  exact filterModified same place out

theorem stepFiltered {index : Nat} {v w : View} {operation : Operation}
    (out : ∀ item ∈ operation.refs, ∀ id, refId v.added item = some id → q (some id) = false)
    (new : ∀ n, v.nextId ≤ n → n < w.nextId → q (some (newId n)) = false)
    (h : v.step index operation = some w) :
    w.records.filter (fun r => q r.id) = v.records.filter (fun r => q r.id) := by
  cases operation with
  | add values before =>
    obtain ⟨_,-,rs,arranged,rfl⟩ := stepAdd.mp h
    refine filterInserted arranged ?_
    rw [newRecordId]
    exact new v.nextId (Nat.le_refl _) (Nat.lt_succ_self _)
  | remove id =>
    obtain ⟨i,place,rfl⟩ := stepRemove.mp h
    exact filterErased place (out _ List.mem_cons_self id rfl)
  | set item values =>
    cases item with
    | none => cases h
    | some id => exact filterUpdated (fun r => r.idApply values) (out _ List.mem_cons_self id rfl) h
  | move item before =>
    obtain ⟨id,same,place,-,i,found,r,taken,rs,arranged,rfl⟩ := stepMove.mp h
    have away := out item List.mem_cons_self id same
    obtain ⟨front,x,back,split,size,named,-⟩ := positionSplit found
    have itself : x = r := by simpa [split,← size] using taken
    have arrived : inserted (v.records.eraseIdx i) r place = some rs := by
      cases place <;> exact arranged
    rw [← filterErased found away]
    exact filterInserted arrived (by rw [← itself,named]; exact away)
  | enable id =>
    exact filterUpdated (f := (·.set "disabled" (.bool false))) (fun _ => rfl)
      (out _ List.mem_cons_self id rfl) h
  | disable id =>
    exact filterUpdated (f := (·.set "disabled" (.bool true))) (fun _ => rfl)
      (out _ List.mem_cons_self id rfl) h

end View
end Filtered

section Run
variable {shape : Shape} {loose : ItemId → Prop} {index : Nat} {live : List ItemRef} {v w : View}
  {operation : Operation} {operations : List Operation}

def Clear (q : Option ItemId → Bool) (live : List ItemRef) (v : View) : Prop :=
  ∀ item ∈ live, ∀ id, View.refId v.added item = some id → q (some id) = false

theorem Clear.next {q : Option ItemId → Bool} (clear : Clear q live v)
    (standing : Standing index live v)
    (new : ∀ n, v.nextId ≤ n → n < w.nextId → q (some (newId n)) = false)
    (h : v.step index operation = some w) : Clear q (operation.leaves index live) w := by
  intro item mem id same
  have takes := View.stepTakes h
  cases operation with
  | add values before =>
    obtain ⟨later,added⟩ := takes
    rcases List.mem_cons.mp mem with rfl | mem
    · rw [View.refId,added,AddedIds.lookup,if_pos rfl] at same
      cases same
      exact new v.nextId (Nat.le_refl _) (by omega)
    · refine clear item mem id ?_
      cases item with
      | existing other => exact same
      | added n =>
        have earlier := standing.earlier n mem
        rwa [View.refId,added,AddedIds.lookup,if_neg (by omega)] at same
  | remove other => exact clear item (List.mem_of_mem_erase mem) id (takes.2 ▸ same)
  | _ => exact clear item mem id (takes.2 ▸ same)

theorem runFiltered {q : Option ItemId → Bool} (standing : Standing index live v)
    (clear : Clear q live v) (orderly : Orderly shape loose index live operations)
    (new : ∀ n, v.nextId ≤ n → n < w.nextId → q (some (newId n)) = false)
    (h : v.run index operations = some w) :
    w.records.filter (fun r => q r.id) = v.records.filter (fun r => q r.id) := by
  induction operations generalizing index live v with
  | nil => cases h; rfl
  | cons operation rest ih =>
    obtain ⟨u,stepped,ran⟩ := Option.bind_eq_some_iff.mp h
    obtain ⟨proper,later⟩ := orderly
    have first := View.stepNext stepped
    have last := View.runNext ran
    have newFirst : ∀ n, v.nextId ≤ n → n < u.nextId → q (some (newId n)) = false :=
      fun n lower upper => new n lower (by omega)
    rw [ih (standing.next proper stepped) (clear.next standing newFirst stepped) later
      (fun n lower upper => new n (by omega) upper) ran]
    exact View.stepFiltered (fun item mem => clear item (proper.named item mem)) newFirst stepped

theorem runKeeps {name : Option ItemId} (firm : ∀ id, loose id → some id ≠ name)
    (orderly : Orderly shape loose index live operations) (h : v.run index operations = some w)
    (there : name ∈ ids v.records) : name ∈ ids w.records := by
  induction operations generalizing index live v with
  | nil => cases h; exact there
  | cons operation rest ih =>
    obtain ⟨u,stepped,ran⟩ := Option.bind_eq_some_iff.mp h
    obtain ⟨proper,later⟩ := orderly
    refine ih later ran ((View.stepIds stepped).mem_iff.mpr ?_)
    cases operation with
    | add values before => exact List.mem_cons_of_mem _ there
    | remove id =>
      exact (List.mem_erase_of_ne (firm id (proper.loose id rfl)).symm).mpr there
    | _ => exact there

end Run

structure Survived (before after : List Record) : Prop where
  dynamic : (fleeting before).Sublist after
  factory : ∀ r ∈ before, r.flag "default" = true ∨ r.flag "builtin" = true → r.id ∈ ids after

theorem Survived.refl (rs : List Record) : Survived rs rs :=
  ⟨List.filter_sublist,fun _ hr _ => List.mem_map_of_mem hr⟩

theorem factoryStays {r : Record} (h : r.flag "default" = true ∨ r.flag "builtin" = true) :
    Reconcile.isRemovable r = false := by
  rcases h with h | h <;>
    simp [Reconcile.isRemovable,Selector.isSkipped,Selector.removable,h]

theorem runSurvived {d : Replica} {path : FacilityPath} {shape : Shape} {operations : List Operation}
    {w : View} (distinct : (ids (d.records path)).Nodup)
    (unused : ∀ n, d.nextId ≤ n → n < w.nextId → some (newId n) ∉ ids (d.records path))
    (orderly : Orderly shape (Removable (d.records path)) 0 (handles (lasting (d.records path)))
      operations)
    (h : (View.ofReplica d path []).run 0 operations = some w) :
    Survived (d.records path) w.records := by
  have start := Standing.start d path
  refine ⟨?_,fun r hr factory => ?_⟩
  · let q : Option ItemId → Bool := (ids (fleeting (d.records path))).contains
    have clear : Clear q (handles (lasting (d.records path))) (.ofReplica d path []) := by
      intro item mem id same
      obtain ⟨other,rfl,listed⟩ := memHandles.mp mem
      cases same
      obtain ⟨r,hr,named⟩ := List.mem_map.mp listed
      have out := (memLasting distinct (List.mem_filter.mp hr).1).mp hr
      rw [named] at out
      simpa [q] using out
    have same := runFiltered start clear orderly (fun n lower upper => by
      have away := apartFleeting (unused n lower upper)
      simpa [q] using away) h
    have inside : fleeting (d.records path) ⊆ d.records path := List.filter_subset_self _
    have picked : (d.records path).filter (fun r => q r.id) = fleeting (d.records path) :=
      List.filter_congr fun r hr => by
        rw [Bool.eq_iff_iff,List.contains_iff_mem]
        constructor
        · intro mem
          obtain ⟨x,hx,same⟩ := List.mem_map.mp mem
          cases sameRecord distinct (inside hx) hr same
          exact (List.mem_filter.mp hx).2
        · exact fun dynamic => List.mem_map_of_mem (List.mem_filter.mpr ⟨hr,dynamic⟩)
    rw [← picked]
    exact same ▸ List.filter_sublist
  · refine runKeeps (fun id gone named => ?_) orderly h (List.mem_map_of_mem hr)
    obtain ⟨x,hx,loose,same⟩ := gone
    cases sameRecord distinct hx hr (same.trans named)
    rw [factoryStays factory] at loose
    cases loose

theorem setSingleElsewhere {path : FacilityPath} {values : Assignments} {d d' : Replica}
    (h : Replica.set path none values d = (.ok (),d')) {other : FacilityPath} (away : other ≠ path) :
    d'.records other = d.records other := by
  simp only [Replica.set,bindOk,liftOk] at h
  obtain ⟨_,_,⟨-,rfl⟩,_,m,begun,stored⟩ := h
  rw [← (recordsOfBegun begun other).1]
  have differ : other.text ≠ path.text := fun same => away (by cases other; cases path; simp_all)
  simp only [setSingleton] at stored
  split at stored <;> cases stored <;> simp [Replica.records,differ]

theorem performElsewhere {f : Facility} {values : Assignments} {given : AddedIds} {d d' : Replica}
    (h : perform f 0 [] (.set none values) d = (.ok given,d')) {other : FacilityPath}
    (away : other ≠ f.path) : d'.records other = d.records other := by
  simp only [perform,Facility.set,bindOk,liftOk,pureOk] at h
  obtain ⟨_,_,⟨_,_,⟨-,rfl⟩,_,_,⟨-,rfl⟩,stored⟩,-,rfl⟩ := h
  exact setSingleElsewhere stored away

theorem carriedElsewhere {τ : Type} {f : Facility} {done rest : List Operation} {given : AddedIds}
    {s n : Session Replica τ} (suits : Planned f s.device (done ++ rest))
    (carried : Carried f 0 [] done s n given) {other : FacilityPath} (away : other ≠ f.path) :
    n.device.records other = s.device.records other := by
  generalize whole : done ++ rest = operations at suits
  cases suits with
  | several shape _ _ => exact (carried.beside shape).elsewhere other away
  | nothing =>
    obtain ⟨rfl,-⟩ := List.append_eq_nil_iff.mp whole
    cases carried.applied
    rfl
  | @single values shape alone =>
    cases done with
    | nil =>
      cases carried.applied
      rfl
    | cons operation later =>
      obtain ⟨rfl,nothing⟩ := List.cons.inj whole
      obtain ⟨rfl,-⟩ := List.append_eq_nil_iff.mp nothing
      obtain ⟨_,d,performed,ended⟩ := applyNext.mp carried.applied
      cases ended
      exact performElsewhere performed away

theorem appliedSome {τ : Type} {f : Facility} {operations : List Operation}
    {s s' : Session Replica τ} {answer : Except Error Unit}
    (h : applyFrom f 0 [] operations s = (answer,s')) :
    ∃ (done rest : List Operation) (given : AddedIds) (n : Session Replica τ),
      operations = done ++ rest ∧ Carried f 0 [] done s n given ∧ Still n.device s'.device := by
  rcases appliedStops h with ⟨given,-,carried⟩ | ⟨done,failed,rest,given,n,cause,split,carried,stopped,-⟩
  · exact ⟨operations,[],given,s',by simp,carried,.refl _⟩
  · exact ⟨done,failed :: rest,given,n,split,carried,performHarmless f _ given failed _ _ _ stopped⟩

/-- Protected records outlive every live run on a facility with items, wherever it stops or breaks off. -/
theorem protectedSurvive [PatternEngine] {τ : Type} [FileTransfer Replica τ] {options : RunOptions}
    {t : FacilityTask} {s s' : Session Replica τ} {ended : Except (Halt Empty) Outcome}
    (sound : s.device.Sound) (items : s.device.HasItems t.path) (live : options.dryRun = false)
    (ran : runTask options (.facility t) s = (ended,s')) (word : s'.device.nextId ≤ maxWord64) :
    Survived (s.device.records t.path) (s'.device.records t.path) ∧
    ∀ other, other ≠ t.path → s'.device.records other = s.device.records other := by
  have distinct := sound.records t.path
  by_cases broken : (t.plan s.device).1 = .error .brokenOff
  · rw [brokenRun (Prod.ext broken (planQuiet t s.device))] at ran
    cases ran
    exact ⟨.refl _,fun _ _ => rfl⟩
  obtain ⟨outcome,rfl⟩ := answeredRun broken ran
  rcases facilityRun live ran with ⟨_,-,-,still⟩ | ⟨plan,answer,m,planned,-,applied,last,-⟩
  · rw [still]
    exact ⟨.refl _,fun _ _ => rfl⟩
  obtain ⟨done,rest,given,n,split,carried,still⟩ := appliedSome applied
  have suits := Reconcile.planModePlanned distinct planned
  have orderly := suits.orderly
  rw [last] at word ⊢
  rw [split] at orderly suits
  refine ⟨?_,fun other away => (still.records other).trans
    (carriedElsewhere (s := s.observe (.started (.facility t))) suits carried away)⟩
  rw [still.records]
  generalize whole : done ++ rest = operations at suits
  cases suits with
  | nothing =>
    obtain ⟨rfl,-⟩ := List.append_eq_nil_iff.mp whole
    cases carried.applied
    exact .refl _
  | single _ alone =>
    -- a facility that is no singleton and has no items is not there
    have empty : s.device.records t.path = [] := by
      unfold Replica.records
      split
      · exact absurd ‹_› (alone _)
      · exact absurd ‹_› (items _)
      · rfl
    rw [empty]
    exact ⟨List.nil_sublist _,by simp⟩
  | several shape _ _ =>
    have later := still.next
    exact runSurvived distinct (fun k lower upper => sound.unused items lower (Nat.le_of_lt
      (Nat.lt_of_lt_of_le upper (Nat.le_trans later word)))) (orderlyAppend.mp orderly).1
      (carried.view shape)

def guardedPools : Replica :=
  ⟨Entries.ofList [("/ip pool",.items [
    ⟨some "*1",Entries.ofList [("name",.str "leases"),("dynamic",.bool true)]⟩,
    ⟨some "*2",Entries.ofList [("name",.str "factory"),("default",.bool true)]⟩,pool "*3" "old"])],
    4,[],0,some 1⟩

open scoped Pattern

def guardedRun : Except (Halt Empty) Outcome × Session Replica RemoteFiles :=
  runTask ⟨false,false⟩ (.facility ⟨⟨"/ip pool"⟩,.replace [poolLine "new"] false 1⟩)
    ⟨guardedPools,none,Files.empty,[]⟩

theorem guardedItems : guardedPools.HasItems ⟨"/ip pool"⟩ :=
  .ofStored (by decide +kernel)

theorem protectedSurvivePools : ∃ outcome after, guardedRun = (.ok outcome,after) ∧
    outcome.failed = true ∧ after.device.writes = 2 ∧
    Survived (guardedPools.records ⟨"/ip pool"⟩) (after.device.records ⟨"/ip pool"⟩) ∧
    ∀ other, other ≠ ⟨"/ip pool"⟩ → after.device.records other = guardedPools.records other := by
  have sound : guardedPools.Sound := by
    refine .ofEntries fun path rs mem => ?_
    cases List.mem_singleton.mp mem
    decide
  have checked : guardedRun.2.device.writes = 2 ∧ guardedRun.2.device.nextId ≤ maxWord64 := by decide +kernel
  obtain ⟨outcome,after,ran,failed⟩ : ∃ outcome after, guardedRun = (.ok outcome,after) ∧
      outcome.failed = true := runAnswers (by decide +kernel)
  rw [ran] at checked
  exact ⟨outcome,after,ran,failed,checked.1,protectedSurvive sound guardedItems rfl ran checked.2⟩

end RouterReconciler

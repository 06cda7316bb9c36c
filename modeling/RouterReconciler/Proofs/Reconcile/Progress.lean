import RouterReconciler.Proofs.Device.Order
import RouterReconciler.Proofs.Reconcile.Reading
import RouterReconciler.Proofs.Record.Fields
import RouterReconciler.Reconcile.Lines

/-! What working through lines keeps of its progress: the operations are edits aimed at records of
the facility, and the block names each record once, the new ones by the operations that add them. -/
namespace RouterReconciler
open Replica

theorem arrivalsAppend (index next : Nat) (first second : List Operation) :
    arrivals index next (first ++ second) = arrivals index next first ++
      arrivals (index + first.length) (next + (arrivals index next first).length) second := by
  induction first generalizing index next with
  | nil => rfl
  | cons operation rest ih =>
    rw [List.cons_append,arrivalsCons,ih,arrivalsCons index next operation rest]
    simp only [List.append_assoc,List.length_append,List.length_cons]
    congr 2
    congr 1 <;> omega

theorem arrivalsNumbers {index next : Nat} {operations : List Operation} {a : Nat × Record}
    (h : a ∈ arrivals index next operations) : index ≤ a.1 ∧ a.1 < index + operations.length := by
  induction operations generalizing index next with
  | nil => cases h
  | cons operation rest ih =>
    rw [arrivalsCons,List.mem_append] at h
    rw [List.length_cons]
    rcases h with h | h
    · have := (arrivalsOne h).1
      omega
    · have := ih h
      omega

theorem arrivalAdded {index next : Nat} {operations : List Operation} {a : Nat × Record}
    (h : a ∈ arrivals index next operations) : ∃ n values before,
    Operation.add values before ∈ operations ∧ a.2 = newRecord n values := by
  induction operations generalizing index next with
  | nil => cases h
  | cons operation rest ih =>
    have passed {index next : Nat} (h : a ∈ arrivals index next rest) : ∃ n values before,
        Operation.add values before ∈ operation :: rest ∧ a.2 = newRecord n values := by
      obtain ⟨n,values,before,mem,same⟩ := ih h
      exact ⟨n,values,before,List.mem_cons_of_mem _ mem,same⟩
    cases operation with
    | add values before =>
      rcases List.mem_cons.mp h with rfl | h
      · exact ⟨next,values,before,List.mem_cons_self,rfl⟩
      · exact passed h
    | _ => exact passed h

theorem arrivalAt {first all : List Operation} {values : Assignments} {before : Option ItemRef}
    (next : Nat) (h : first ++ [Operation.add values before] <+: all) :
    ∃ n, (first.length,newRecord n values) ∈ arrivals 0 next all := by
  obtain ⟨rest,rfl⟩ := h
  refine ⟨next + (arrivals 0 next first).length,?_⟩
  rw [arrivalsAppend,arrivalsAppend,Nat.zero_add]
  exact List.mem_append_left _ (List.mem_append_right _ List.mem_cons_self)

theorem newRecordGet {line : Criteria} {values : Assignments} (n : Nat)
    (h : line.addValues = .ok values) (key : String) :
    (newRecord n values).get? key = line.literal? key := by
  rw [newRecord,Record.getNew,Criteria.addValuesGet h]
  cases line.literal? key <;> rfl

namespace Reconcile

def AddsNothing (operations : List Operation) : Prop :=
  ∀ values before, .add values before ∉ operations

theorem modificationOk {item : Option ItemId} {changes : Assignments} {operations : List Operation}
    (h : modification item changes = .ok operations) :
    operations = [] ∧ changes.isEmpty ∨
      operations = [.set item changes] ∧ changes.isEmpty = false ∧ changes.checkWritable = .ok () := by
  unfold modification at h
  split at h
  · cases h
    exact .inl ⟨rfl,‹_›⟩
  · split at h <;> cases h
    rename_i unsettled _ checked
    exact .inr ⟨rfl,by simpa using unsettled,checked⟩

theorem additionOk {values : Assignments} {before : Option ItemRef} {operation : Operation}
    (h : addition values before = .ok operation) : operation = .add values before := by
  unfold addition at h
  split at h <;> cases h
  rfl

theorem memAppendNew {block : List ItemRef} {item other : ItemRef} :
    other ∈ appendNew block item ↔ other ∈ block ∨ other = item := by
  unfold appendNew
  split
  · rename_i there
    have there : item ∈ block := by simpa using there
    exact ⟨.inl,fun h => h.elim id fun same => same ▸ there⟩
  · simp

theorem nodupAppendNew {block : List ItemRef} (item : ItemRef) (h : block.Nodup) :
    (appendNew block item).Nodup := by
  unfold appendNew
  split
  · exact h
  · rename_i out
    have out : item ∉ block := by simpa using out
    rw [List.nodup_append]
    refine ⟨h,by simp,fun x hx y hy same => ?_⟩
    cases List.mem_singleton.mp hy
    exact out (same ▸ hx)

theorem idOfOk {r : Record} {id : ItemId} (h : idOf r = .ok id) : r.id = some id := by
  unfold idOf at h
  split at h <;> cases h
  assumption

/-- The ways in which presenting a line goes through. -/
inductive LineDone [PatternEngine] {σ : Type} [Device σ] (f : Facility) (records : List Record)
    (missing : Missing) (line : Criteria) (p : Progress) (d d' : σ) : Progress → Prop
  | factory {identity values places id operations}
      (split : line.splitDefault? = some (identity,values))
      (picked : select f records identity d = (.ok places,d'))
      (written : factoryLine records identity values places.head? = .ok (id,operations)) :
      LineDone f records missing line p d d'
        ⟨places.head?.toList ++ p.claimed,p.operations ++ operations,appendNew p.block (.existing id)⟩
  | ignored {identity values} (split : line.splitDefault? = some (identity,values))
      (picked : select f records identity d = (.ok [],d')) (ignores : missing = .ignore) :
      LineDone f records missing line p d d' p
  | astray {places j} (split : line.splitDefault? = none)
      (picked : select f records line d = (.ok places,d'))
      (free : places.find? (fun j => !p.claimed.contains j) = some j) (away : records[j]? = none) :
      LineDone f records missing line p d d' p
  | claimed {places j r id} (split : line.splitDefault? = none)
      (picked : select f records line d = (.ok places,d'))
      (free : places.find? (fun j => !p.claimed.contains j) = some j) (there : records[j]? = some r)
      (named : idOf r = .ok id) :
      LineDone f records missing line p d d'
        ⟨j :: p.claimed,p.operations,appendNew p.block (.existing id)⟩
  | added {places values} (split : line.splitDefault? = none)
      (picked : select f records line d = (.ok places,d'))
      (spent : places.find? (fun j => !p.claimed.contains j) = none) (allowed : missing ≠ .fail)
      (given : line.addValues = .ok values) :
      LineDone f records missing line p d d'
        ⟨p.claimed,p.operations ++ [.add values none],appendNew p.block (.added p.operations.length)⟩

theorem presentLineDone [PatternEngine] {σ : Type} [Device σ] {f : Facility} {records : List Record}
    {missing : Missing} {line : Criteria} {p q : Progress} {d d' : σ}
    (h : presentLine f records missing line p d = (.ok q,d')) :
    LineDone f records missing line p d d' q := by
  cases named : line.splitDefault? with
  | some parts =>
    obtain ⟨identity,values⟩ := parts
    simp only [presentLine,named] at h
    obtain ⟨places,m,picked,h⟩ := Step.bindOk.mp h
    cases places with
    | cons j others =>
      simp only [List.head?_cons,Step.bindOk,Step.liftOk,Step.pureOk] at h
      obtain ⟨⟨id,operations⟩,_,⟨written,rfl⟩,rfl,rfl⟩ := h
      exact .factory named picked written
    | nil =>
      cases missing with
      | ignore =>
        obtain ⟨rfl,rfl⟩ := Step.pureOk.mp h
        exact .ignored named picked rfl
      | _ =>
        obtain ⟨_,_,written,-⟩ := Step.bindOk.mp h
        cases (Step.liftOk.mp written).1
  | none =>
    simp only [presentLine,named] at h
    obtain ⟨places,m,picked,h⟩ := Step.bindOk.mp h
    cases free : places.find? (fun j => !p.claimed.contains j) with
    | some j =>
      cases there : records[j]? with
      | none =>
        simp only [free,there,Step.pureOk] at h
        obtain ⟨rfl,rfl⟩ := h
        exact .astray named picked free there
      | some r =>
        simp only [free,there,Step.bindOk,Step.liftOk,Step.pureOk] at h
        obtain ⟨id,_,⟨given,rfl⟩,rfl,rfl⟩ := h
        exact .claimed named picked free there given
    | none =>
      simp only [free] at h
      split at h
      · exact absurd h Step.failNotOk
      · rename_i allowed
        simp only [Step.bindOk,Step.liftOk,Step.pureOk] at h
        obtain ⟨values,_,⟨given,rfl⟩,operation,_,⟨checked,rfl⟩,rfl,rfl⟩ := h
        cases additionOk checked
        exact .added named picked free allowed given

theorem refsOfOk {rs : List Record} {refs : List ItemRef} (h : refsOf rs = .ok refs) :
    ∃ names : List ItemId, refs = names.map .existing ∧ names.map some = ids rs := by
  induction rs generalizing refs with
  | nil => cases h; exact ⟨[],rfl,rfl⟩
  | cons r rest ih =>
    simp only [refsOf] at h
    split at h
    · cases h
    · rename_i id named
      split at h
      · rename_i others later
        cases h
        obtain ⟨names,rfl,same⟩ := ih later
        exact ⟨id :: names,rfl,by rw [List.map_cons,same,ids,ids,List.map_cons,idOfOk named]⟩
      · cases h

theorem forallRight {α β : Type} {R : α → β → Prop} {as : List α} {bs : List β}
    (h : List.Forall₂ R as bs) {b : β} (mem : b ∈ bs) : ∃ a ∈ as, R a b := by
  induction h with
  | nil => cases mem
  | cons one _ ih =>
    rcases List.mem_cons.mp mem with rfl | mem
    · exact ⟨_,List.mem_cons_self,one⟩
    · obtain ⟨a,ha,related⟩ := ih mem
      exact ⟨a,List.mem_cons_of_mem _ ha,related⟩

section Names
variable {names : List ItemId} {rs : List Record} (named : names.map some = ids rs)
include named

theorem namesComplete : ∀ r ∈ rs, r.id.isSome := by
  intro r hr
  have mem : r.id ∈ names.map some := named ▸ List.mem_map_of_mem hr
  obtain ⟨id,-,same⟩ := List.mem_map.mp mem
  rw [← same]
  rfl

theorem namesStand (added : Session.AddedIds) :
    (names.map ItemRef.existing).map (View.refId added) = ids rs := by
  rw [List.map_map,← named]
  rfl

theorem namesListed {id : ItemId} (h : some id ∈ ids rs) : .existing id ∈ names.map ItemRef.existing := by
  rw [← named] at h
  obtain ⟨other,mem,same⟩ := List.mem_map.mp h
  cases same
  exact List.mem_map_of_mem mem

theorem namesTold {α : Type} {f : ItemRef → α} {g : Record → α}
    (same : (names.map ItemRef.existing).map f = rs.map g) :
    ∀ r ∈ rs, ∀ id ∈ r.id, f (.existing id) = g r := by
  induction rs generalizing names with
  | nil => simp
  | cons r rest ih =>
    cases names with
    | nil => cases named
    | cons name names =>
      obtain ⟨first,later⟩ := List.cons.inj named
      obtain ⟨told,others⟩ := List.cons.inj same
      intro x hx id hid
      rcases List.mem_cons.mp hx with rfl | hx
      · cases first.trans hid
        exact told
      · exact ih later others x hx id hid

end Names

theorem completeNames {rs : List Record} (complete : ∀ r ∈ rs, r.id.isSome) :
    ∃ names : List ItemId, names.map some = ids rs := by
  induction rs with
  | nil => exact ⟨[],rfl⟩
  | cons r rest ih =>
    obtain ⟨names,same⟩ := ih fun x hx => complete x (List.mem_cons_of_mem _ hx)
    obtain ⟨id,named⟩ := Option.isSome_iff_exists.mp (complete r List.mem_cons_self)
    exact ⟨id :: names,by rw [List.map_cons,same,ids,ids,List.map_cons,named]⟩

def handles (rs : List Record) : List ItemRef := rs.filterMap fun r => r.id.map ItemRef.existing

theorem handlesCons {r : Record} {id : ItemId} (named : r.id = some id) (rest : List Record) :
    handles (r :: rest) = .existing id :: handles rest := by
  simp [handles,named]

theorem memHandles {rs : List Record} {item : ItemRef} :
    item ∈ handles rs ↔ ∃ id, item = .existing id ∧ some id ∈ ids rs := by
  simp only [handles,List.mem_filterMap,Option.map_eq_some_iff,ids,List.mem_map]
  constructor
  · rintro ⟨r,hr,id,named,rfl⟩
    exact ⟨id,rfl,r,hr,named⟩
  · rintro ⟨id,rfl,r,hr,named⟩
    exact ⟨r,hr,id,named,rfl⟩

theorem existingHandle {rs : List Record} {id : ItemId} :
    .existing id ∈ handles rs ↔ some id ∈ ids rs := by
  rw [memHandles]
  exact ⟨fun ⟨_,same,mem⟩ => by cases same; exact mem,fun mem => ⟨id,rfl,mem⟩⟩

theorem handleOf {rs : List Record} {r : Record} {id : ItemId} (hr : r ∈ rs) (named : r.id = some id) :
    .existing id ∈ handles rs := existingHandle.mpr (List.mem_map.mpr ⟨r,hr,named⟩)

theorem handlesFromIds (rs : List Record) :
    handles rs = (ids rs).filterMap (Option.map ItemRef.existing) := by
  rw [handles,ids,List.filterMap_map]
  rfl

theorem handlesDistinct {rs : List Record} (distinct : (ids rs).Nodup) : (handles rs).Nodup := by
  rw [handlesFromIds]
  refine distinct.filterMap fun a b item ha hb => ?_
  obtain ⟨id,rfl,rfl⟩ := Option.map_eq_some_iff.mp (Option.mem_def.mp ha)
  obtain ⟨other,rfl,same⟩ := Option.map_eq_some_iff.mp (Option.mem_def.mp hb)
  cases same
  rfl

theorem handlesNamed {rs : List Record} {names : List ItemId} (named : names.map some = ids rs) :
    handles rs = names.map .existing := by
  rw [handlesFromIds,← named,List.filterMap_map]
  exact List.filterMap_eq_map_iff_forall_eq_some.mpr fun _ _ => rfl

theorem handlesAppend (rs others : List Record) : handles (rs ++ others) = handles rs ++ handles others :=
  List.filterMap_append

theorem handlesLength {rs : List Record} (complete : ∀ r ∈ rs, r.id.isSome) :
    (handles rs).length = rs.length := by
  obtain ⟨names,named⟩ := completeNames complete
  have size := congrArg List.length named
  rw [List.length_map,ids,List.length_map] at size
  rw [handlesNamed named,List.length_map,size]

theorem refsHandles {rs : List Record} {refs : List ItemRef} (h : refsOf rs = .ok refs) :
    refs = handles rs := by
  obtain ⟨names,rfl,named⟩ := refsOfOk h
  exact (handlesNamed named).symm

theorem refsThere {rs : List Record} (complete : ∀ r ∈ rs, r.id.isSome) :
    refsOf rs = .ok (handles rs) := by
  induction rs with
  | nil => rfl
  | cons r rest ih =>
    obtain ⟨id,named⟩ := Option.isSome_iff_exists.mp (complete r List.mem_cons_self)
    simp only [refsOf,idOf,named,ih fun x hx => complete x (List.mem_cons_of_mem _ hx),
      handlesCons named]

theorem handlesStanding (rs : List Record) : (handles rs).filter isAdded = [] := by
  refine List.filter_eq_nil_iff.mpr fun item mem => ?_
  obtain ⟨id,rfl,-⟩ := memHandles.mp mem
  simp [isAdded]

theorem staysUnless {before : List Record} {p : Record → Bool} {gone : List ItemId}
    (distinct : (ids before).Nodup) (named : gone.map some = ids ((lasting before).filter p))
    {r : Record} (hr : r ∈ before) : stays gone r = !(!r.flag "dynamic" && p r) := by
  rw [View.staysNamed,named]
  congr 1
  rw [Bool.eq_iff_iff,List.contains_iff_mem]
  constructor
  · intro mem
    obtain ⟨x,hx,same⟩ := List.mem_map.mp mem
    obtain ⟨hx,selected⟩ := List.mem_filter.mp hx
    obtain ⟨there,alive⟩ := List.mem_filter.mp hx
    cases sameRecord distinct there hr same
    rw [Bool.and_eq_true]
    exact ⟨alive,selected⟩
  · intro both
    rw [Bool.and_eq_true] at both
    exact List.mem_map_of_mem (List.mem_filter.mpr ⟨List.mem_filter.mpr ⟨hr,both.1⟩,both.2⟩)

structure Fit (rs : List Record) (p : Progress) : Prop where
  edits : ∀ operation ∈ p.operations, Edit operation
  aimed : ∀ operation ∈ p.operations, ∀ id ∈ operation.aim?, some id ∈ ids rs
  written : ∀ id values, .set (some id) values ∈ p.operations → .existing id ∈ p.block
  existing : ∀ id, .existing id ∈ p.block → some id ∈ ids rs
  distinct : p.block.Nodup
  added : ∀ next, p.block.filter isAdded =
    (arrivals 0 next p.operations).map (fun a => ItemRef.added a.1)

theorem Fit.arrival {rs : List Record} {p : Progress} (fit : Fit rs p) (next : Nat) {n : Nat}
    (h : .added n ∈ p.block) : ∃ r, (n,r) ∈ arrivals 0 next p.operations := by
  have mem : ItemRef.added n ∈ p.block.filter isAdded := List.mem_filter.mpr ⟨h,rfl⟩
  rw [fit.added next] at mem
  obtain ⟨a,ha,same⟩ := List.mem_map.mp mem
  cases same
  exact ⟨a.2,ha⟩

theorem Fit.numbers {rs : List Record} {p : Progress} (fit : Fit rs p) {n : Nat}
    (h : .added n ∈ p.block) : n < p.operations.length := by
  obtain ⟨r,arrives⟩ := fit.arrival 0 h
  have := (arrivalsNumbers arrives).2
  omega

theorem Fit.start (rs : List Record) : Fit rs .start :=
  ⟨by simp [Progress.start],by simp [Progress.start],by simp [Progress.start],
    by simp [Progress.start],List.nodup_nil,fun _ => rfl⟩

theorem Fit.named {rs : List Record} {p : Progress} (fit : Fit rs p) {id : ItemId}
    (there : some id ∈ ids rs) (changes : Assignments) {operations : List Operation}
    (planned : operations = [] ∨ operations = [Operation.set (some id) changes]) (claimed : List Nat) :
    Fit rs ⟨claimed,p.operations ++ operations,appendNew p.block (.existing id)⟩ := by
  have only : ∀ operation ∈ operations, operation = .set (some id) changes := by
    rcases planned with rfl | rfl <;> simp
  have nothing : ∀ index next, arrivals index next operations = [] := by
    rcases planned with rfl | rfl <;> intros <;> rfl
  refine ⟨?_,?_,?_,?_,nodupAppendNew _ fit.distinct,fun next => ?_⟩
  · intro operation mem
    rcases List.mem_append.mp mem with mem | mem
    · exact fit.edits operation mem
    · rw [only operation mem]; exact .set id changes
  · intro operation mem other aim
    rcases List.mem_append.mp mem with mem | mem
    · exact fit.aimed operation mem other aim
    · rw [only operation mem] at aim
      cases aim
      exact there
  · intro other values mem
    rw [memAppendNew]
    rcases List.mem_append.mp mem with mem | mem
    · exact .inl (fit.written other values mem)
    · cases only _ mem
      exact .inr rfl
  · intro other mem
    rcases memAppendNew.mp mem with mem | same
    · exact fit.existing other mem
    · cases same
      exact there
  · rw [arrivalsAppend,nothing,List.append_nil,← fit.added next]
    unfold appendNew
    split
    · rfl
    · simp [isAdded]

theorem Fit.newly {rs : List Record} {p : Progress} (fit : Fit rs p) (values : Assignments) :
    Fit rs { p with operations := p.operations ++ [.add values none],
                    block := appendNew p.block (.added p.operations.length) } := by
  have out : .added p.operations.length ∉ p.block := fun mem =>
    Nat.lt_irrefl _ (fit.numbers mem)
  have appended : appendNew p.block (ItemRef.added p.operations.length) =
      p.block ++ [.added p.operations.length] := by simp [appendNew,out]
  refine ⟨?_,?_,?_,?_,nodupAppendNew _ fit.distinct,fun next => ?_⟩
  · intro operation mem
    rcases List.mem_append.mp mem with mem | mem
    · exact fit.edits operation mem
    · cases List.mem_singleton.mp mem
      exact .add values
  · intro operation mem id aim
    rcases List.mem_append.mp mem with mem | mem
    · exact fit.aimed operation mem id aim
    · cases List.mem_singleton.mp mem
      cases aim
  · intro id others mem
    rcases List.mem_append.mp mem with mem | mem
    · exact memAppendNew.mpr (.inl (fit.written id others mem))
    · cases List.mem_singleton.mp mem
  · intro id mem
    rcases memAppendNew.mp mem with mem | same
    · exact fit.existing id mem
    · cases same
  · rw [appended,List.filter_append,fit.added next,arrivalsAppend]
    simp [arrivals,isAdded]

end Reconcile
end RouterReconciler

import RouterReconciler.Proofs.Reconcile.Planned

/-! The modes that look records up, each by itself: what they plan is about the records they have found. -/
namespace RouterReconciler

namespace Criteria

def sought (c : Criteria) : Criteria :=
  match c.splitDefault? with
  | some (identity,_) => identity
  | none => c

def asked (c : Criteria) (set : Assignments) : Assignments :=
  match c.splitDefault? with
  | some (_,values) => values.extend set
  | none => set

theorem soughtSplit {c identity : Criteria} {values : Assignments}
    (split : c.splitDefault? = some (identity,values)) : c.sought = identity := by
  rw [sought,split]

theorem soughtPlain {c : Criteria} (plain : c.splitDefault? = none) : c.sought = c := by
  rw [sought,plain]

theorem askedSplit {c identity : Criteria} {values : Assignments}
    (split : c.splitDefault? = some (identity,values)) (set : Assignments) :
    c.asked set = values.extend set := by
  rw [asked,split]

theorem askedPlain {c : Criteria} (plain : c.splitDefault? = none) (set : Assignments) :
    c.asked set = set := by
  rw [asked,plain]

end Criteria

namespace Reconcile
open Replica Step

/-- The ways in which a find goes through. -/
inductive FindDone [PatternEngine] {σ : Type} [Device σ] (f : Facility) (set : Assignments)
    (position : Option Nat) (missing : Missing) (c : Criteria) (d d' : σ) : List Operation → Prop
  | settled {found m operations} (looked : find f c.sought d = (.ok found,m)) (some : found ≠ [])
      (done : ensureFound f c found (c.asked set) position m = (.ok operations,d')) :
      FindDone f set position missing c d d' operations
  | ignored (looked : find f c.sought d = (.ok [],d')) (ignores : missing = .ignore) :
      FindDone f set position missing c d d' []
  | added {m operations} (plain : c.splitDefault? = none) (looked : find f c d = (.ok [],m))
      (adds : missing = .add) (done : addMissing f c set position m = (.ok operations,d')) :
      FindDone f set position missing c d d' operations

theorem ensureOneDone [PatternEngine] {σ : Type} [Device σ] {f : Facility} {set : Assignments}
    {position : Option Nat} {missing : Missing} {c : Criteria} {operations : List Operation} {d d' : σ}
    (h : ensureOne f set position missing c d = (.ok operations,d')) :
    FindDone f set position missing c d d' operations := by
  cases split : c.splitDefault? with
  | some parts =>
    obtain ⟨identity,values⟩ := parts
    simp only [ensureOne,split] at h
    rw [← Criteria.soughtSplit split,← Criteria.askedSplit split] at h
    obtain ⟨found,m,looked,h⟩ := bindOk.mp h
    cases found with
    | cons r rest => exact .settled looked (List.cons_ne_nil r rest) h
    | nil =>
      cases missing with
      | ignore =>
        obtain ⟨rfl,rfl⟩ := pureOk.mp h
        exact .ignored looked rfl
      | _ => exact absurd h failNotOk
  | none =>
    simp only [ensureOne,split] at h
    obtain ⟨found,m,looked,h⟩ := bindOk.mp h
    have sought : find f c.sought d = (.ok found,m) := by rwa [Criteria.soughtPlain split]
    cases found with
    | cons r rest =>
      rw [← Criteria.askedPlain split set] at h
      exact .settled sought (List.cons_ne_nil r rest) h
    | nil =>
      cases missing with
      | fail => exact absurd h failNotOk
      | ignore =>
        obtain ⟨rfl,rfl⟩ := pureOk.mp h
        exact .ignored sought rfl
      | add => exact .added split looked rfl h

section Ensure
variable {f : Facility} {d d' : Replica}

theorem configurePlanned {values : Assignments} {operations : List Operation}
    (h : configure f values d = (.ok operations,d')) : Planned f d operations := by
  obtain ⟨current,read,changes,-,written⟩ := configureEnds.mp h
  unfold Facility.readOne at read
  split at read
  · rename_i single
    have alone : ∀ rs, d.facilities.get? f.path.text ≠ some (.items rs) := by
      intro rs there
      have read := liftStepOk.mp read
      unfold Replica.readOne at read
      rw [there] at read
      cases read
    rcases modificationOk written with ⟨rfl,-⟩ | ⟨rfl,-⟩
    · exact .nothing
    · exact .single single alone
  · exact absurd read failNotOk

theorem modifyAllCons {desired : Assignments} {r : Record} {rest : List Record} {operations : List Operation} :
    modifyAll desired (r :: rest) = .ok operations ↔ ∃ changes, differing desired r = .ok changes ∧
      ∃ others, modifyAll desired rest = .ok others ∧
        (changes.isEmpty = true ∧ operations = others ∨ changes.isEmpty = false ∧ ∃ id first,
          idOf r = .ok id ∧ modification (some id) changes = .ok first ∧ operations = first ++ others) := by
  simp only [modifyAll,exceptBindOk]
  refine exists_congr fun changes => and_congr_right fun _ => ?_
  cases empty : changes.isEmpty with
  | true =>
    simp only [if_true,exceptBindOk,true_and,Bool.true_eq_false,false_and,or_false]
    constructor
    · rintro ⟨_,same,others,later,h⟩
      cases same
      cases h
      exact ⟨others,later,rfl⟩
    · rintro ⟨others,later,rfl⟩
      exact ⟨[],rfl,operations,later,rfl⟩
  | false =>
    simp only [Bool.false_eq_true,if_false,exceptBindOk,exceptLiftOk,false_and,false_or,true_and]
    constructor
    · rintro ⟨id,named,first,written,others,later,h⟩
      cases h
      exact ⟨others,later,id,first,named,written,rfl⟩
    · rintro ⟨others,later,id,first,named,written,rfl⟩
      exact ⟨id,named,first,written,others,later,rfl⟩

theorem modifyAllSure {desired : Assignments} {found : List Record} {operations : List Operation}
    (shape : f.shape ≠ .singleton) (items : d.HasItems f.path)
    (there : ∀ r ∈ found, r ∈ lasting (d.records f.path))
    (h : modifyAll desired found = .ok operations) : ∀ operation ∈ operations, Sure f d operation := by
  induction found generalizing operations with
  | nil => cases h; simp
  | cons r rest ih =>
    have sure {others : List Operation} (h : modifyAll desired rest = .ok others) :=
      ih (fun x hx => there x (List.mem_cons_of_mem _ hx)) h
    obtain ⟨changes,-,others,later,⟨-,rfl⟩ | ⟨-,id,first,named,written,rfl⟩⟩ := modifyAllCons.mp h
    · exact sure later
    · intro operation mem
      rcases List.mem_append.mp mem with mem | mem
      · rcases modificationOk written with ⟨rfl,-⟩ | ⟨rfl,-⟩
        · cases mem
        · cases List.mem_singleton.mp mem
          exact .set shape items (handleOf (there r List.mem_cons_self) (idOfOk named)) _
      · exact sure later operation mem

theorem placeAtOk {position : Option Nat} {before : Option ItemRef}
    (h : placeAt f position d = (.ok before,d')) :
    d' = d ∧ ∀ item ∈ before, item ∈ handles (lasting (d.records f.path)) ∧ position.isSome := by
  refine ⟨(placeAtQuiet f d position).state h,?_⟩
  cases position with
  | none =>
    obtain ⟨rfl,-⟩ := pureOk.mp h
    simp
  | some position =>
    simp only [placeAt,bindOk] at h
    obtain ⟨records,_,read,h⟩ := h
    obtain ⟨-,-,rfl,-⟩ := snapshotOk read
    cases there : (lasting (d.records f.path))[position - 1]? with
    | none =>
      simp only [there,pureOk] at h
      obtain ⟨rfl,-⟩ := h
      simp
    | some r =>
      simp only [there,bindOk,liftOk,pureOk] at h
      obtain ⟨id,_,⟨named,-⟩,rfl,-⟩ := h
      intro item mem
      cases mem
      exact ⟨handleOf (List.mem_of_getElem? there) (idOfOk named),rfl⟩

theorem moveFirstSure {found : List Record} {position : Option Nat} {operations : List Operation}
    (shape : f.shape = Mode.shapeIf position.isSome) (items : d.HasItems f.path)
    (distinct : (ids (d.records f.path)).Nodup)
    (there : ∀ r ∈ found, r ∈ lasting (d.records f.path))
    (h : moveFirst f found position d = (.ok operations,d')) :
    ∀ operation ∈ operations, Sure f d operation := by
  cases position with
  | none =>
    obtain ⟨rfl,-⟩ := pureOk.mp h
    simp
  | some position =>
    cases found with
    | nil =>
      obtain ⟨rfl,-⟩ := pureOk.mp h
      simp
    | cons first rest =>
      simp only [moveFirst,bindOk,liftOk,pureOk] at h
      obtain ⟨id,_,⟨named,rfl⟩,records,_,read,current,_,⟨refs,-⟩,rfl,-⟩ := h
      obtain ⟨-,-,rfl,-⟩ := snapshotOk read
      rw [refsHandles refs]
      refine repositionSure shape items distinct (List.nodup_singleton _) fun item mem => ?_
      cases List.mem_singleton.mp mem
      exact handleOf (there first List.mem_cons_self) (idOfOk named)

theorem ensureFoundSure {criteria : Criteria} {found : List Record} {desired : Assignments}
    {position : Option Nat} {operations : List Operation}
    (shape : f.shape = Mode.shapeIf position.isSome) (items : d.HasItems f.path)
    (distinct : (ids (d.records f.path)).Nodup)
    (there : ∀ r ∈ found, r ∈ lasting (d.records f.path))
    (h : ensureFound f criteria found desired position d = (.ok operations,d')) :
    ∀ operation ∈ operations, Sure f d operation := by
  unfold ensureFound at h
  split at h
  · exact absurd h failNotOk
  · simp only [bindOk,liftOk,pureOk] at h
    obtain ⟨sets,_,⟨modified,rfl⟩,moves,_,moved,rfl,-⟩ := h
    intro operation mem
    rcases List.mem_append.mp mem with mem | mem
    · exact modifyAllSure (by rw [shape]; exact severalIf _) items there modified operation mem
    · exact moveFirstSure shape items distinct there moved operation mem

theorem addMissingSure {criteria : Criteria} {set : Assignments} {position : Option Nat}
    {operations : List Operation} (shape : f.shape = Mode.shapeIf position.isSome)
    (items : d.HasItems f.path)
    (h : addMissing f criteria set position d = (.ok operations,d')) :
    ∀ operation ∈ operations, Sure f d operation := by
  obtain ⟨literals,-,before,placed,operation,checked,rfl⟩ := addMissingEnds.mp h
  cases additionOk checked
  intro operation mem
  cases List.mem_singleton.mp mem
  refine .add _ (by rw [shape]; exact severalIf _) items fun item anchor => ?_
  obtain ⟨named,positioned⟩ := (placeAtOk placed).2 item anchor
  exact ⟨named,by rw [shape,positioned]; rfl⟩

theorem ensureOneSure [PatternEngine] {set : Assignments} {position : Option Nat} {missing : Missing}
    {criteria : Criteria} {operations : List Operation}
    (shape : f.shape = Mode.shapeIf position.isSome) (distinct : (ids (d.records f.path)).Nodup)
    (h : ensureOne f set position missing criteria d = (.ok operations,d')) :
    ∀ operation ∈ operations, Sure f d operation := by
  cases ensureOneDone h with
  | settled looked _ done =>
    obtain ⟨still,-,items,there⟩ := findOk looked
    rw [still] at done
    exact ensureFoundSure shape items distinct there done
  | ignored => simp
  | added _ looked _ done =>
    obtain ⟨still,-,items,-⟩ := findOk looked
    rw [still] at done
    exact addMissingSure shape items done

theorem ensureEachSure [PatternEngine] {within : Option Nat → Error → Error} {several : Bool} {set : Assignments}
    {position : Option Nat} {missing : Missing} {index : Nat} {finds : List Criteria}
    {operations : List Operation} (shape : f.shape = Mode.shapeIf position.isSome)
    (distinct : (ids (d.records f.path)).Nodup)
    (h : ensureEach f within several set position missing index finds d = (.ok operations,d')) :
    ∀ operation ∈ operations, Sure f d operation := by
  induction finds generalizing index operations with
  | nil =>
    obtain ⟨rfl,-⟩ := pureOk.mp h
    simp
  | cons criteria rest ih =>
    simp only [ensureEach,bindOk,mapErrorOk,pureOk] at h
    obtain ⟨first,_,one,others,_,later,rfl,rfl⟩ := h
    cases (ensureOneQuiet f d set position missing criteria).state one
    intro operation mem
    rcases List.mem_append.mp mem with mem | mem
    · exact ensureOneSure shape distinct one operation mem
    · exact ih later operation mem

theorem movePlanned [PatternEngine] {criteria : Criteria} {position : Nat} {missing : Missing}
    {operations : List Operation} (distinct : (ids (d.records f.path)).Nodup) (shape : f.shape = .ordered)
    (h : moveOnly f criteria position missing d = (.ok operations,d')) : Planned f d operations := by
  obtain ⟨records,_,places,_,read,-,⟨-,-,rfl⟩ | ⟨j,current,-,refs,⟨-,rfl⟩ | ⟨item,there,rfl⟩⟩⟩ :=
    moveOnlyEnds h
  · exact .nothing
  · exact .nothing
  · obtain ⟨-,items,rfl,-⟩ := snapshotOk read
    rw [refsHandles refs] at there ⊢
    refine .sure (repositionSure shape items distinct (List.nodup_singleton _) fun x mem => ?_)
    cases List.mem_singleton.mp mem
    exact List.mem_of_getElem? there

end Ensure

section Passes
variable {f : Facility} {within : Option Nat → Error → Error} {d d' : Replica}

theorem memAppendIds {seen more : List ItemId} {id : ItemId} :
    id ∈ appendIds seen more ↔ id ∈ seen ∨ id ∈ more := by
  induction more generalizing seen with
  | nil => simp [appendIds]
  | cons other rest ih =>
    rw [appendIds,ih,List.mem_cons]
    split
    · rename_i there
      have there : other ∈ seen := List.contains_iff_mem.mp there
      constructor
      · exact fun h => h.imp_right .inr
      · rintro (h | rfl | h)
        · exact .inl h
        · exact .inl there
        · exact .inr h
    · rw [List.mem_append,List.mem_singleton,or_assoc]

theorem appendIdsDistinct {seen more : List ItemId} (h : seen.Nodup) : (appendIds seen more).Nodup := by
  induction more generalizing seen with
  | nil => exact h
  | cons other rest ih =>
    refine ih ?_
    split
    · exact h
    · rename_i out
      exact List.nodup_append.mpr ⟨h,List.nodup_singleton _,fun x hx y hy same => by
        cases List.mem_singleton.mp hy
        exact out (List.contains_iff_mem.mpr (same ▸ hx))⟩

theorem findIdsOk {s : Selector} {names : List ItemId} (h : f.findIds s d = (.ok names,d')) :
    d' = d ∧ f.shape ≠ .singleton ∧ d.HasItems f.path ∧
      ∀ id ∈ names, ∃ r ∈ d.records f.path, s.isSkipped r = false ∧ r.id = some id := by
  refine ⟨(findIdsQuiet f d s).state h,?_⟩
  simp only [Facility.findIds,bindOk,pureOk] at h
  obtain ⟨found,_,read,rfl,-⟩ := h
  obtain ⟨several,items,selected⟩ := readOk read
  refine ⟨several,items,fun id mem => ?_⟩
  obtain ⟨r,hr,named⟩ := List.mem_filterMap.mp mem
  obtain ⟨there,kept⟩ := selectedUnskipped selected hr
  exact ⟨r,there,kept,named⟩

theorem absentIdsOk [PatternEngine] {index : Nat} {seen gone : List ItemId} {targets : List Criteria}
    (h : absentIds f within index seen targets d = (.ok gone,d')) (distinct : seen.Nodup) :
    gone.Nodup ∧ ∀ id ∈ gone, id ∈ seen ∨
      f.shape ≠ .singleton ∧ d.HasItems f.path ∧ Removable (d.records f.path) id := by
  induction targets generalizing index seen with
  | nil =>
    obtain ⟨rfl,-⟩ := pureOk.mp h
    exact ⟨distinct,fun _ => .inl⟩
  | cons target rest ih =>
    simp only [absentIds,bindOk,mapErrorOk,liftOk] at h
    obtain ⟨names,_,⟨s,_,⟨parsed,rfl⟩,looked⟩,later⟩ := h
    obtain ⟨rfl,several,items,there⟩ := findIdsOk looked
    obtain ⟨once,all⟩ := ih later (appendIdsDistinct distinct)
    refine ⟨once,fun id mem => ?_⟩
    rcases all id mem with mem | loose
    · rcases memAppendIds.mp mem with old | new
      · exact .inl old
      · obtain ⟨r,hr,kept,named⟩ := there id new
        refine .inr ⟨several,items,r,hr,?_,named⟩
        simpa [isRemovable,Selector.isSkipped,Selector.removable,Selector.all] using kept
    · exact .inr loose

theorem absentPlanned [PatternEngine] {targets : List Criteria} {operations : List Operation}
    (h : absent f within targets d = (.ok operations,d')) : Planned f d operations := by
  simp only [absent,bindOk,pureOk] at h
  obtain ⟨gone,_,looked,rfl,-⟩ := h
  obtain ⟨once,all⟩ := absentIdsOk looked List.nodup_nil
  have all : ∀ id ∈ gone, f.shape ≠ .singleton ∧ d.HasItems f.path ∧ Removable (d.records f.path) id :=
    fun id mem => (all id mem).resolve_left (by simp)
  cases gone with
  | nil => exact .nothing
  | cons id rest =>
    obtain ⟨several,items,-⟩ := all id List.mem_cons_self
    exact .several several items (orderlyRemovals several once
      (fun other mem => (all other mem).2.2.named) fun other mem => (all other mem).2.2)

theorem idsOfOk {rs : List Record} {names : List ItemId} (h : idsOf rs = .ok names) :
    names.map some = ids rs := by
  induction rs generalizing names with
  | nil => cases h; rfl
  | cons r rest ih =>
    simp only [idsOf,exceptBindOk] at h
    obtain ⟨id,named,others,later,h⟩ := h
    cases h
    rw [List.map_cons,ih later,ids,ids,List.map_cons,idOfOk named]

theorem toggleIdsOk [PatternEngine] {enable : Bool} {index : Nat} {seen names : List ItemId}
    {targets : List Criteria} (h : toggleIds f within enable index seen targets d = (.ok names,d')) :
    ∀ id ∈ names, id ∈ seen ∨ f.shape ≠ .singleton ∧ d.HasItems f.path ∧
      .existing id ∈ handles (lasting (d.records f.path)) := by
  induction targets generalizing index seen with
  | nil =>
    obtain ⟨rfl,-⟩ := pureOk.mp h
    exact fun _ => .inl
  | cons target rest ih =>
    simp only [toggleIds,bindOk,mapErrorOk] at h
    obtain ⟨more,_,one,later⟩ := h
    simp only [toggleTarget,bindOk] at one
    obtain ⟨found,_,looked,one⟩ := one
    obtain ⟨still,several,items,there⟩ := findOk looked
    split at one
    · exact absurd one failNotOk
    obtain ⟨named,same⟩ := liftOk.mp one
    rw [← same,still] at later
    intro id mem
    rcases ih later id mem with mem | told
    · rcases memAppendIds.mp mem with old | new
      · exact .inl old
      · have listed : some id ∈ ids (found.filter fun r => r.flag "disabled" == enable) :=
          idsOfOk named ▸ List.mem_map_of_mem new
        obtain ⟨r,hr,named⟩ := List.mem_map.mp listed
        exact .inr ⟨several,items,handleOf (there r (List.mem_filter.mp hr).1) named⟩
    · exact .inr told

theorem togglePlanned [PatternEngine] {targets : List Criteria} {enable : Bool} {operations : List Operation}
    (h : toggle f within targets enable d = (.ok operations,d')) : Planned f d operations := by
  simp only [toggle,bindOk,pureOk] at h
  obtain ⟨names,_,looked,rfl,-⟩ := h
  refine .sure fun operation mem => ?_
  obtain ⟨id,listed,rfl⟩ := List.mem_map.mp mem
  obtain ⟨several,items,named⟩ := (toggleIdsOk looked id listed).resolve_left (by simp)
  cases enable with
  | true => exact .enable several items named
  | false => exact .disable several items named

end Passes
end Reconcile
end RouterReconciler

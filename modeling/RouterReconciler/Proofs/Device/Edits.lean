import RouterReconciler.Proofs.Device.Ids

/-! The first part of a plan: removals, changes and additions at the end, in any order, aimed at
records that were there from the start. Together they leave out the removed records, change the
others where they stand, and append what is added. -/
namespace RouterReconciler
open Replica Text

inductive Edit : Operation → Prop
  | add (values : Assignments) : Edit (.add values none)
  | remove (id : ItemId) : Edit (.remove id)
  | set (id : ItemId) (values : Assignments) : Edit (.set (some id) values)

namespace Operation

def removedId? : Operation → Option ItemId
  | .remove id => some id
  | _ => none

def aim? : Operation → Option ItemId
  | .remove id => some id
  | .set item _ => item
  | .enable id => some id
  | .disable id => some id
  | _ => none

end Operation

def change (r : Record) : Operation → Record
  | .set (some id) values => amend id (·.apply values) r
  | _ => r

def changed (operations : List Operation) (r : Record) : Record := operations.foldl change r

def removed (operations : List Operation) : List ItemId := operations.filterMap Operation.removedId?

def stays (gone : List ItemId) (r : Record) : Bool := !r.id.any gone.contains

def arrivals (index next : Nat) : List Operation → List (Nat × Record)
  | [] => []
  | .add values _ :: rest => (index,newRecord next values) :: arrivals (index + 1) (next + 1) rest
  | .remove _ :: rest | .set _ _ :: rest | .move _ _ :: rest | .enable _ :: rest
  | .disable _ :: rest => arrivals (index + 1) next rest

theorem amendId {id : ItemId} {values : Assignments} (r : Record) :
    (amend id (·.apply values) r).id = r.id := by
  unfold amend
  split
  · exact r.idApply values
  · rfl

theorem changeId (r : Record) (operation : Operation) : (change r operation).id = r.id := by
  unfold change
  split
  · exact amendId r
  · rfl

@[simp]
theorem changedId (operations : List Operation) (r : Record) : (changed operations r).id = r.id := by
  induction operations generalizing r with
  | nil => rfl
  | cons operation rest ih =>
    exact (ih (change r operation)).trans (changeId r operation)

theorem changedUnset {operations : List Operation} {r : Record}
    (h : ∀ id values, .set (some id) values ∈ operations → r.id ≠ some id) :
    changed operations r = r := by
  induction operations with
  | nil => rfl
  | cons operation rest ih =>
    have first : change r operation = r := by
      unfold change
      split
      · rename_i id values
        exact if_neg (h id values List.mem_cons_self)
      · rfl
    rw [changed,List.foldl_cons,first]
    exact ih fun id values mem => h id values (List.mem_cons_of_mem _ mem)

@[simp]
theorem idsChanged (operations : List Operation) (rs : List Record) :
    ids (rs.map (changed operations)) = ids rs := by
  simp only [ids,List.map_map]
  exact List.map_congr_left fun r _ => changedId operations r

@[simp]
theorem newRecordId (n : Nat) (values : Assignments) : (newRecord n values).id = some (newId n) :=
  Record.idApply _ values

@[simp]
theorem staysNil : stays [] = fun _ => true := by
  funext r
  cases h : r.id <;> simp [stays,h]

theorem staysSingle (id : ItemId) : stays [id] = fun r => decide (r.id ≠ some id) := by
  funext r
  cases h : r.id <;> simp [stays,h]

theorem staysAppend (first second : List ItemId) (r : Record) :
    stays (first ++ second) r = (stays first r && stays second r) := by
  cases h : r.id <;> simp [stays,h]

theorem staysOther {gone : List ItemId} {r : Record} (h : ∀ id ∈ gone, r.id ≠ some id) :
    stays gone r = true := by
  cases named : r.id with
  | none => simp [stays,named]
  | some id =>
    have out : id ∉ gone := fun mem => h id mem named
    simp [stays,named,out]

theorem removedAim {operations : List Operation} {id : ItemId} (h : id ∈ removed operations) :
    ∃ operation ∈ operations, operation.aim? = some id := by
  obtain ⟨operation,mem,gone⟩ := List.mem_filterMap.mp h
  refine ⟨operation,mem,?_⟩
  cases operation <;> simp_all [Operation.removedId?,Operation.aim?]

theorem arrivalsCons (index next : Nat) (operation : Operation) (rest : List Operation) :
    arrivals index next (operation :: rest) = arrivals index next [operation] ++
      arrivals (index + 1) (next + (arrivals index next [operation]).length) rest := by
  cases operation <;> rfl

theorem editedCons (operation : Operation) (rest : List Operation) (base : List Record) :
    (((base.filter (stays (removed [operation]))).map (change · operation)).filter
      (stays (removed rest))).map (changed rest) =
    (base.filter (stays (removed (operation :: rest)))).map (changed (operation :: rest)) := by
  have parted : removed (operation :: rest) = removed [operation] ++ removed rest := by
    cases operation <;> rfl
  have same : stays (removed rest) ∘ (change · operation) = stays (removed rest) := by
    funext r
    simp only [Function.comp_apply,stays,changeId]
  rw [List.filter_map,same,List.filter_filter,List.map_map,parted]
  congr 1
  refine List.filter_congr fun r _ => ?_
  rw [staysAppend,Bool.and_comm]

theorem arrivalsKept {index next : Nat} {operation : Operation} {added : Session.AddedIds} {n : Nat}
    (h : n ≠ index) :
    Session.AddedIds.lookup n ((arrivals index next [operation]).map
      (fun a => (a.1,newId next)) ++ added) = added.lookup n := by
  have other : index ≠ n := fun same => h same.symm
  cases operation <;> simp [arrivals,Session.AddedIds.lookup,other]

theorem arrivalsFound {index next : Nat} {operation : Operation} {added : Session.AddedIds}
    {a : Nat × Record} (h : a ∈ arrivals index next [operation]) :
    Session.AddedIds.lookup index ((arrivals index next [operation]).map
      (fun a => (a.1,newId next)) ++ added) = some (newId next) := by
  cases operation <;> simp [arrivals] at h
  simp [arrivals,Session.AddedIds.lookup]

theorem arrivalsOne {index next : Nat} {operation : Operation} {a : Nat × Record}
    (h : a ∈ arrivals index next [operation]) :
    a.1 = index ∧ a.2.id = some (newId next) ∧ (arrivals index next [operation]).length = 1 := by
  cases operation <;> simp [arrivals] at h
  subst a
  exact ⟨rfl,newRecordId _ _,rfl⟩

theorem arrivalsDistinct (index next : Nat) (operation : Operation) :
    (((arrivals index next [operation]).map Prod.snd).map Record.id).Nodup := by
  cases operation <;> simp [arrivals]

namespace View

theorem editStep {index : Nat} {v w : View} {operation : Operation} (edit : Edit operation)
    (distinct : (ids v.records).Nodup) (h : v.step index operation = some w) :
    w.records = (v.records.filter (stays (removed [operation]))).map (change · operation) ++
      (arrivals index v.nextId [operation]).map Prod.snd ∧
    w.nextId = v.nextId + (arrivals index v.nextId [operation]).length ∧
    w.added = (arrivals index v.nextId [operation]).map (fun a => (a.1,newId v.nextId)) ++ v.added := by
  cases edit with
  | add values =>
    obtain ⟨_,same,_,arranged,rfl⟩ := stepAdd.mp h
    cases same
    cases arranged
    have none : removed [.add values none] = [] := rfl
    simp [arrivals,change,none]
  | remove id =>
    obtain ⟨i,place,rfl⟩ := stepRemove.mp h
    have one : removed [.remove id] = [id] := rfl
    simp [arrivals,change,one,staysSingle,eraseIdxFilter distinct place]
  | set id values =>
    obtain ⟨i,place,rfl⟩ := updateEq.mp h
    have none : removed [.set (some id) values] = [] := rfl
    simp [arrivals,change,none,modifyMap distinct place]

/-- Where a run of edits stands: `base` is what is left of the records that `origin` names, `fresh` what
has been added, and the ids from the counter up to the limit are free. -/
structure Stage (origin : List (Option ItemId)) (limit : Nat) (base fresh : List Record) (v : View) :
    Prop where
  records : v.records = base ++ fresh
  distinct : (ids v.records).Nodup
  old : ∀ r ∈ base, r.id ∈ origin
  apart : ∀ r ∈ fresh, r.id ∉ origin
  unused : ∀ n, v.nextId ≤ n → n < limit → some (newId n) ∉ origin ++ ids fresh

theorem Stage.start {v : View} {limit : Nat} (distinct : (ids v.records).Nodup)
    (unused : ∀ n, v.nextId ≤ n → n < limit → some (newId n) ∉ ids v.records) :
    Stage (ids v.records) limit v.records [] v := by
  refine ⟨(List.append_nil _).symm,distinct,fun r hr => List.mem_map_of_mem hr,by simp,?_⟩
  intro n lower upper
  rw [show ids [] = [] from rfl,List.append_nil]
  exact unused n lower upper

section Stage
variable {origin : List (Option ItemId)} {limit index : Nat} {base fresh : List Record} {v w : View}
  {operation : Operation} (stage : Stage origin limit base fresh v)
  (aim : ∀ id ∈ operation.aim?, some id ∈ origin)
include stage aim

-- An edit is aimed at the old records, so what has been added stays as it is.
theorem Stage.freshStays : fresh.filter (stays (removed [operation])) = fresh ∧
    fresh.map (change · operation) = fresh := by
  constructor
  · refine List.filter_eq_self.mpr fun r hr => staysOther fun id gone same => ?_
    obtain ⟨x,hx,named⟩ := removedAim gone
    cases List.mem_singleton.mp hx
    exact stage.apart r hr (same ▸ aim id named)
  · refine (List.map_congr_left fun r hr => ?_).trans (List.map_id fresh)
    refine show changed [operation] r = r from changedUnset fun id values mem named => ?_
    cases List.mem_singleton.mp mem
    exact stage.apart r hr (named ▸ aim id rfl)

theorem Stage.next (edit : Edit operation) (word : limit ≤ maxWord64)
    (stepped : v.step index operation = some w) (later : w.nextId ≤ limit) :
    Stage origin limit ((base.filter (stays (removed [operation]))).map (change · operation))
      (fresh ++ (arrivals index v.nextId [operation]).map Prod.snd) w := by
  obtain ⟨records,next,-⟩ := editStep edit stage.distinct stepped
  obtain ⟨freshStays,freshSame⟩ := stage.freshStays aim
  rw [stage.records,List.filter_append,List.map_append,freshStays,freshSame,List.append_assoc] at records
  have arrived : ∀ r ∈ (arrivals index v.nextId [operation]).map Prod.snd,
      r.id = some (newId v.nextId) ∧ v.nextId < w.nextId := by
    intro r hr
    obtain ⟨a,ha,rfl⟩ := List.mem_map.mp hr
    obtain ⟨-,named,one⟩ := arrivalsOne ha
    exact ⟨named,by omega⟩
  have first : v.nextId < w.nextId → some (newId v.nextId) ∉ origin ++ ids fresh :=
    fun below => stage.unused v.nextId (Nat.le_refl _) (Nat.lt_of_lt_of_le below later)
  have old : ∀ r ∈ (base.filter (stays (removed [operation]))).map (change · operation),
      r.id ∈ origin := by
    intro r hr
    obtain ⟨x,hx,rfl⟩ := List.mem_map.mp hr
    rw [changeId]
    exact stage.old x (List.mem_filter.mp hx).1
  have kept : (ids ((base.filter (stays (removed [operation]))).map (change · operation) ++
      fresh)).Nodup := by
    have distinct := stage.distinct
    rw [stage.records] at distinct
    rw [ids,List.map_append,List.map_map,show Record.id ∘ (change · operation) = Record.id from
      funext fun r => changeId r operation,← List.map_append]
    exact distinct.sublist ((List.filter_sublist.append_right fresh).map _)
  refine ⟨records,?_,old,fun r hr mem => ?_,fun n lower upper mem => ?_⟩
  · rw [records,← List.append_assoc,ids,List.map_append,List.nodup_append]
    refine ⟨kept,arrivalsDistinct index v.nextId operation,?_⟩
    intro x hx y hy same
    obtain ⟨r,hr,rfl⟩ := List.mem_map.mp hx
    obtain ⟨b,hb,rfl⟩ := List.mem_map.mp hy
    obtain ⟨named,below⟩ := arrived b hb
    refine first below (List.mem_append.mpr ?_)
    rw [← named,← same]
    exact (List.mem_append.mp hr).imp (old r) (fun hr => List.mem_map_of_mem hr)
  · rcases List.mem_append.mp hr with hr | hr
    · exact stage.apart r hr mem
    · obtain ⟨named,below⟩ := arrived r hr
      exact first below (List.mem_append_left _ (named ▸ mem))
  · rw [ids,List.map_append,← List.append_assoc] at mem
    rcases List.mem_append.mp mem with mem | mem
    · exact stage.unused n (by omega) upper mem
    · obtain ⟨r,hr,same⟩ := List.mem_map.mp mem
      obtain ⟨named,below⟩ := arrived r hr
      rw [named] at same
      exact newIdDiffers (by omega) (by omega) (by omega) (Option.some.inj same)

end Stage

theorem editsRun {index : Nat} {v w : View} {operations : List Operation} {base fresh : List Record}
    {origin : List (Option ItemId)} (word : w.nextId ≤ maxWord64)
    (stage : Stage origin w.nextId base fresh v)
    (edits : ∀ operation ∈ operations, Edit operation)
    (aimed : ∀ operation ∈ operations, ∀ id ∈ operation.aim?, some id ∈ origin)
    (h : v.run index operations = some w) :
    w.records = (base.filter (stays (removed operations))).map (changed operations) ++ fresh ++
      (arrivals index v.nextId operations).map Prod.snd ∧
    (ids w.records).Nodup ∧
    (∀ n < index, w.added.lookup n = v.added.lookup n) ∧
    ∀ a ∈ arrivals index v.nextId operations, w.added.lookup a.1 = a.2.id := by
  induction operations generalizing index v base fresh with
  | nil =>
    cases h
    have none : removed [] = [] := rfl
    have same : changed [] = id := rfl
    refine ⟨?_,stage.distinct,fun _ _ => rfl,by simp [arrivals]⟩
    simp [stage.records,none,same,arrivals]
  | cons operation rest ih =>
    obtain ⟨u,stepped,ran⟩ := Option.bind_eq_some_iff.mp h
    have edit := edits operation List.mem_cons_self
    obtain ⟨-,next,added⟩ := editStep edit stage.distinct stepped
    obtain ⟨final,distinct,lookups,found⟩ := ih
      (stage.next (aimed operation List.mem_cons_self) edit word stepped (runNext ran))
      (fun x hx => edits x (List.mem_cons_of_mem _ hx))
      (fun x hx => aimed x (List.mem_cons_of_mem _ hx)) ran
    refine ⟨?_,distinct,fun n lower => ?_,fun a ha => ?_⟩
    · rw [final,editedCons,arrivalsCons index v.nextId operation rest,next]
      simp only [List.map_append,List.append_assoc]
    · rw [lookups n (by omega),added,arrivalsKept (by omega)]
    · rw [arrivalsCons,List.mem_append] at ha
      rcases ha with ha | ha
      · obtain ⟨rfl,named,-⟩ := arrivalsOne ha
        rw [lookups _ (Nat.lt_succ_self _),added,arrivalsFound ha,named]
      · exact found a (next ▸ ha)

theorem removalsRun {index : Nat} {v w : View} {gone : List ItemId} (distinct : (ids v.records).Nodup)
    (h : v.run index (gone.map .remove) = some w) :
    w.records = v.records.filter (stays gone) ∧ w.nextId = v.nextId := by
  induction gone generalizing index v with
  | nil =>
    cases h
    rw [staysNil]
    simp
  | cons id rest ih =>
    obtain ⟨u,stepped,ran⟩ := Option.bind_eq_some_iff.mp h
    obtain ⟨records,next,-⟩ := editStep (.remove id) distinct stepped
    have one : removed [.remove id] = [id] := rfl
    have same : u.records = v.records.filter (stays [id]) := by
      rw [records,one]
      exact (List.append_nil _).trans (List.map_id _)
    have later : (ids u.records).Nodup := by
      rw [same]; exact distinct.sublist (List.filter_sublist.map _)
    obtain ⟨final,last⟩ := ih later ran
    refine ⟨?_,last.trans next⟩
    rw [final,same,List.filter_filter]
    refine List.filter_congr fun r _ => ?_
    rw [Bool.and_comm,← staysAppend]
    rfl

theorem staysNamed (gone : List ItemId) (r : Record) :
    stays gone r = !(gone.map some).contains r.id := by
  cases h : r.id <;> simp [stays,h]

end View
end RouterReconciler

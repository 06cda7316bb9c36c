import Mathlib.Data.List.Nodup
import RouterReconciler.Criteria

/-! What a key holds after assignments have been carried out, and which assignments a line comes to.
Keys are distinct, so every key is decided by at most one entry. -/
namespace RouterReconciler

namespace Entries
variable {α : Type}

theorem lookupAbsent {key : String} {l : List (String × α)} (h : key ∉ l.map Prod.fst) :
    lookup key l = none := by
  induction l with
  | nil => rfl
  | cons entry rest ih =>
    simp only [List.map_cons,List.mem_cons,not_or] at h
    rw [lookup,if_neg (fun same => h.1 same.symm)]
    exact ih h.2

theorem lookupPresent {key : String} {a : α} {l : List (String × α)} (distinct : (l.map Prod.fst).Nodup)
    (h : (key,a) ∈ l) : lookup key l = some a := by
  induction l with
  | nil => cases h
  | cons entry rest ih =>
    obtain ⟨apart,later⟩ := List.nodup_cons.mp distinct
    rcases List.mem_cons.mp h with rfl | h
    · simp [lookup]
    · have other : entry.1 ≠ key := fun same => apart (same ▸ List.mem_map_of_mem h)
      rw [lookup,if_neg other]
      exact ih later h

theorem lookupMem {key : String} {a : α} {l : List (String × α)} (h : lookup key l = some a) :
    (key,a) ∈ l := by
  induction l with
  | nil => cases h
  | cons entry rest ih =>
    rw [lookup] at h
    split at h
    · rename_i same
      cases h
      subst same
      exact List.mem_cons_self
    · exact List.mem_cons_of_mem _ (ih h)

theorem getMem {e : Entries α} {key : String} {a : α} : e.get? key = some a ↔ (key,a) ∈ e.toList :=
  ⟨lookupMem,lookupPresent e.distinct⟩

theorem getNone {e : Entries α} {key : String} : e.get? key = none ↔ key ∉ e.keys := by
  constructor
  · intro h named
    obtain ⟨entry,mem,rfl⟩ := List.mem_map.mp named
    cases h.symm.trans (getMem.mpr mem)
  · exact lookupAbsent

theorem getFilter (e : Entries α) (p : String → α → Bool) (key : String) :
    (e.filter p).get? key = (e.get? key).filter (p key) := by
  cases h : e.get? key with
  | none =>
    rw [getNone] at h
    refine getNone.mpr fun named => h ?_
    obtain ⟨entry,mem,rfl⟩ := List.mem_map.mp named
    exact List.mem_map_of_mem (List.mem_filter.mp mem).1
  | some a =>
    have mem := getMem.mp h
    cases hp : p key a with
    | true =>
      rw [Option.filter_some_pos hp]
      exact getMem.mpr (List.mem_filter.mpr ⟨mem,hp⟩)
    | false =>
      rw [Option.filter_some_neg (by simp [hp])]
      refine getNone.mpr fun named => ?_
      obtain ⟨entry,kept,same⟩ := List.mem_map.mp named
      obtain ⟨there,passes⟩ := List.mem_filter.mp kept
      have itself : entry = (key,a) := List.inj_on_of_nodup_map e.distinct there mem same
      subst itself
      simp [hp] at passes

@[simp,grind =]
theorem getErase (e : Entries α) (key other : String) :
    (e.erase key).get? other = if other = key then none else e.get? other := by
  rw [erase,getFilter]
  by_cases same : other = key
  · cases h : e.get? other <;> simp [same]
  · cases h : e.get? other <;> simp [same]

theorem getExtend (e other : Entries α) (key : String) :
    (e.extend other).get? key = (other.get? key).or (e.get? key) := by
  obtain ⟨l,distinct⟩ := other
  simp only [extend,get?]
  induction l generalizing e with
  | nil => rfl
  | cons entry rest ih =>
    obtain ⟨apart,later⟩ := List.nodup_cons.mp distinct
    rw [List.foldl_cons,ih _ later,lookup]
    by_cases same : entry.1 = key
    · subst same
      simp [lookupAbsent apart,insert,lookupPut]
    · simp [same,insert,lookupPut,Ne.symm same]

theorem emptyOfGet {e : Entries α} (h : ∀ key, e.get? key = none) : e = ∅ := by
  obtain ⟨l,distinct⟩ := e
  cases l with
  | nil => rfl
  | cons entry rest =>
    have := h entry.1
    simp [get?,lookup] at this

end Entries

def Assignment.result : Assignment → Option Value
  | .value v => some v
  | .unset => none

namespace Record

theorem getAssign (r : Record) (key other : String) (a : Assignment) :
    (r.assign key a).get? other = if other = key then a.result else r.get? other := by
  cases a with
  | value v => exact r.fields.getInsert key other v
  | unset => exact r.fields.getErase key other

theorem getApply (r : Record) (values : Assignments) (key : String) :
    (r.apply values).get? key =
      match values.get? key with
      | some a => a.result
      | none => r.get? key := by
  obtain ⟨l,distinct⟩ := values
  simp only [apply,Entries.get?]
  induction l generalizing r with
  | nil => rfl
  | cons entry rest ih =>
    obtain ⟨apart,later⟩ := List.nodup_cons.mp distinct
    rw [List.foldl_cons,ih _ later,Entries.lookup,getAssign]
    by_cases same : entry.1 = key
    · subst same
      simp [Entries.lookupAbsent apart]
    · simp [same,Ne.symm same]

theorem getNew (n : ItemId) (values : Assignments) (key : String) :
    (Record.apply ⟨some n,∅⟩ values).get? key = (values.get? key).bind Assignment.result := by
  rw [getApply]
  cases values.get? key <;> rfl

end Record

def Record.Each (P : Value → Prop) (r : Record) : Prop := ∀ key v, r.get? key = some v → P v

def Assignments.Each (P : Value → Prop) (values : Assignments) : Prop :=
  ∀ key v, (key,.value v) ∈ values.toList → P v

theorem Record.eachApply {P : Value → Prop} {r : Record} {values : Assignments}
    (fit : values.Each P) (h : r.Each P) : (r.apply values).Each P := by
  intro key v there
  rw [getApply] at there
  split at there
  · rename_i a found
    cases a with
    | value written =>
      cases there
      exact fit key v (Entries.getMem.mp found)
    | unset => cases there
  · exact h key v there

namespace Criteria

def literal? (line : Criteria) (key : String) : Option Value :=
  match line.get? key with
  | some (.literal v) => some v
  | _ => none

theorem literalGiven {line : Criteria} {key : String} {v : Value} (h : line.literal? key = some v) :
    line.get? key = some (.literal v) := by
  unfold literal? at h
  split at h <;> cases h
  assumption

theorem addFromGet {done values : Assignments} {l : List (String × Condition)}
    (distinct : (l.map Prod.fst).Nodup) (h : addFrom done l = .ok values) (key : String) :
    values.get? key =
      match Entries.lookup key l with
      | some (.literal v) => some (.value v)
      | _ => done.get? key := by
  induction l generalizing done with
  | nil => cases h; rfl
  | cons clause rest ih =>
    obtain ⟨k,c⟩ := clause
    obtain ⟨apart,later⟩ := List.nodup_cons.mp distinct
    have skipped (other : addFrom done rest = .ok values) (plain : ∀ v, c ≠ .literal v) :
        values.get? key =
          match Entries.lookup key ((k,c) :: rest) with
          | some (.literal v) => some (.value v)
          | _ => done.get? key := by
      rw [ih later other,Entries.lookup]
      by_cases same : k = key
      · subst same
        rw [Entries.lookupAbsent apart,if_pos rfl]
        cases c <;> first | rfl | exact absurd rfl (plain _)
      · rw [if_neg same]
    cases c with
    | literal v =>
      simp only [addFrom] at h
      split at h
      · rw [ih later h,Entries.lookup]
        by_cases same : k = key
        · subst same
          rw [Entries.lookupAbsent apart,if_pos rfl]
          simp
        · rw [if_neg same]
          simp [Ne.symm same]
      · cases h
    | _ => exact skipped h (by simp)

theorem addValuesGet {line : Criteria} {values : Assignments} (h : line.addValues = .ok values)
    (key : String) : values.get? key = (line.literal? key).map .value := by
  rw [addFromGet line.distinct h,literal?,show Entries.lookup key line.toList = line.get? key from rfl]
  cases line.get? key with
  | none => rfl
  | some c => cases c <;> rfl

def assigned? (line : Criteria) (key : String) : Option Assignment :=
  if key = rawKey then none else (line.get? key).bind Condition.assignment?

theorem setFromGet {done values : Assignments} {l : List (String × Condition)}
    (distinct : (l.map Prod.fst).Nodup) (h : setFrom done l = .ok values) (key : String) :
    values.get? key =
      match (if key = rawKey then none else (Entries.lookup key l).bind Condition.assignment?) with
      | some a => some a
      | none => done.get? key := by
  induction l generalizing done with
  | nil => cases h; simp [Entries.lookup]
  | cons clause rest ih =>
    obtain ⟨k,c⟩ := clause
    obtain ⟨apart,later⟩ := List.nodup_cons.mp distinct
    have written (a : Assignment) (plain : k ≠ rawKey) (assigns : c.assignment? = some a)
        (other : setFrom (done.insert k a) rest = .ok values) :
        values.get? key =
          match (if key = rawKey then none
            else (Entries.lookup key ((k,c) :: rest)).bind Condition.assignment?) with
          | some a => some a
          | none => done.get? key := by
      rw [ih later other,Entries.lookup,Entries.getInsert]
      by_cases same : k = key
      · subst same
        simp [Entries.lookupAbsent apart,plain,assigns]
      · simp [same,Ne.symm same]
    have skipped (nothing : k = rawKey ∨ c.assignment? = none)
        (other : setFrom done rest = .ok values) :
        values.get? key =
          match (if key = rawKey then none
            else (Entries.lookup key ((k,c) :: rest)).bind Condition.assignment?) with
          | some a => some a
          | none => done.get? key := by
      rw [ih later other,Entries.lookup]
      by_cases same : k = key
      · subst same
        rcases nothing with raw | none
        · simp [raw]
        · simp [Entries.lookupAbsent apart,none]
      · simp [same]
    rw [setFrom] at h
    split at h
    · rename_i raw; exact skipped (.inl raw) h
    · rename_i plain
      split at h
      · split at h
        · exact written _ plain (by assumption) h
        · cases h
      · exact written _ plain (by assumption) h
      · exact skipped (.inr (by assumption)) h

theorem setValuesGet {line : Criteria} {values : Assignments} (h : line.setValues = .ok values)
    (key : String) : values.get? key = line.assigned? key := by
  rw [setFromGet line.distinct h,show Entries.lookup key line.toList = line.get? key from rfl,
    show (if key = rawKey then none else (line.get? key).bind Condition.assignment?) =
      line.assigned? key from rfl]
  cases line.assigned? key <;> rfl

theorem setOfAdd {done values : Assignments} {l : List (String × Condition)} (other : Assignments)
    (h : addFrom done l = .ok values) : ∃ desired, setFrom other l = .ok desired := by
  induction l generalizing done other with
  | nil => exact ⟨other,rfl⟩
  | cons clause rest ih =>
    obtain ⟨key,c⟩ := clause
    rw [setFrom]
    split
    · cases c with
      | literal v =>
        simp only [addFrom] at h
        split at h
        · exact ih _ h
        · cases h
      | _ => exact ih _ h
    · cases c with
      | literal v =>
        simp only [addFrom] at h
        split at h
        · rename_i writable
          simp only [Condition.assignment?,writable]
          exact ih _ h
        · cases h
      | _ => exact ih _ h

end Criteria
end RouterReconciler

import Mathlib.Data.List.Perm.Subperm
import Mathlib.Logic.Equiv.Basic
import RouterReconciler.Proofs.Reconcile.Progress

/-! Lines that take records one after the other, each the first that fits it and that no earlier line has
taken. Records are told apart by their places, whatever their ids. That a line has a record left for it
when each line could have one of its own is not so in general: it is where no line fits only a part of what
a later line fits beside. -/
namespace RouterReconciler

theorem memPlacesWhere {p : Record → Bool} {rs : List Record} {j : Nat} :
    j ∈ placesWhere p 0 rs ↔ ∃ r, rs[j]? = some r ∧ p r = true := by
  rw [placesWhere,List.mem_map]
  constructor
  · rintro ⟨x,mem,rfl⟩
    obtain ⟨there,hit⟩ := List.mem_filter.mp mem
    exact ⟨x.1,List.mem_zipIdx_iff_getElem?.mp there,hit⟩
  · rintro ⟨r,there,hit⟩
    exact ⟨(r,j),List.mem_filter.mpr ⟨List.mem_zipIdx_iff_getElem?.mpr there,hit⟩,rfl⟩

theorem placesAscend (p : Record → Bool) (rs : List Record) : (placesWhere p 0 rs).Pairwise (· < ·) := by
  have all : List.Sublist (placesWhere p 0 rs) (List.range' 0 rs.length) := by
    rw [← List.zipIdx_map_snd]
    exact List.filter_sublist.map _
  exact List.Pairwise.sublist all List.pairwise_lt_range'

theorem findAscending {l : List Nat} (ascend : l.Pairwise (· < ·)) {q : Nat → Bool} {j : Nat} :
    l.find? q = some j ↔ (j ∈ l ∧ q j = true) ∧ ∀ i ∈ l, q i = true → j ≤ i := by
  constructor
  · intro found
    refine ⟨⟨List.mem_of_find?_eq_some found,List.find?_some found⟩,fun i mem hit => ?_⟩
    obtain ⟨-,front,back,rfl,early⟩ := List.find?_eq_some_iff_append.mp found
    obtain ⟨-,behind,-⟩ := List.pairwise_append.mp ascend
    rcases List.mem_append.mp mem with before | mem
    · exact absurd hit (by simpa using early i before)
    · rcases List.mem_cons.mp mem with rfl | after
      · exact Nat.le_refl _
      · exact Nat.le_of_lt ((List.pairwise_cons.mp behind).1 i after)
  · rintro ⟨⟨mem,hit⟩,first⟩
    cases found : l.find? q with
    | none => exact absurd hit (List.find?_eq_none.mp found j mem)
    | some i =>
      obtain ⟨-,front,back,rfl,early⟩ := List.find?_eq_some_iff_append.mp found
      obtain ⟨-,behind,-⟩ := List.pairwise_append.mp ascend
      have lower := first i (by simp) (List.find?_some found)
      rcases List.mem_append.mp mem with before | mem
      · exact absurd hit (by simpa using early j before)
      · rcases List.mem_cons.mp mem with rfl | after
        · rfl
        · exact absurd ((List.pairwise_cons.mp behind).1 j after) (by omega)

structure Takes (fits : Record → Bool) (rs : List Record) (taken : List Nat) (j : Nat) : Prop where
  fit : ∃ r, rs[j]? = some r ∧ fits r = true
  free : j ∉ taken
  first : ∀ i r, rs[i]? = some r → fits r = true → i ∉ taken → j ≤ i

namespace Takes
variable {fits : Record → Bool} {rs : List Record} {taken : List Nat} {j : Nat}

theorem search {p : Record → Bool} {passes : Nat → Bool}
    (told : ∀ i r, rs[i]? = some r → ((p r && passes i) = true ↔ fits r = true ∧ i ∉ taken)) :
    (placesWhere p 0 rs).find? passes = some j ↔ Takes fits rs taken j := by
  rw [findAscending (placesAscend p rs),memPlacesWhere]
  constructor
  · rintro ⟨⟨⟨r,there,hit⟩,pass⟩,first⟩
    obtain ⟨fit,free⟩ := (told j r there).mp (by rw [hit,pass]; rfl)
    refine ⟨⟨r,there,fit⟩,free,fun i x place fits loose => ?_⟩
    obtain ⟨hit,pass⟩ := Bool.and_eq_true_iff.mp ((told i x place).mpr ⟨fits,loose⟩)
    exact first i (memPlacesWhere.mpr ⟨x,place,hit⟩) pass
  · rintro ⟨⟨r,there,fit⟩,free,first⟩
    obtain ⟨hit,pass⟩ := Bool.and_eq_true_iff.mp ((told j r there).mpr ⟨fit,free⟩)
    refine ⟨⟨⟨r,there,hit⟩,pass⟩,fun i mem passed => ?_⟩
    obtain ⟨x,place,hit⟩ := memPlacesWhere.mp mem
    obtain ⟨fits,loose⟩ := (told i x place).mp (by rw [hit,passed]; rfl)
    exact first i x place fits loose

theorem unique {i : Nat} (h : Takes fits rs taken i) (h' : Takes fits rs taken j) : i = j := by
  obtain ⟨r,there,fit⟩ := h.fit
  obtain ⟨r',there',fit'⟩ := h'.fit
  exact Nat.le_antisymm (h.first j r' there' fit' h'.free) (h'.first i r there fit h.free)

theorem some {r : Record} (there : rs[j]? = some r) (fit : fits r = true) (free : j ∉ taken) :
    ∃ i, Takes fits rs taken i := by
  cases found : (placesWhere fits 0 rs).find? (fun i => decide (i ∉ taken)) with
  | none =>
    have passed := List.find?_eq_none.mp found j (memPlacesWhere.mpr ⟨r,there,fit⟩)
    exact absurd (decide_eq_true free) passed
  | some i => exact ⟨i,(search fun i r there => by simp).mp found⟩

end Takes

inductive FirstFit (fits : Criteria → Record → Bool) (rs : List Record) :
    List Nat → List Criteria → List Nat → Prop
  | done (taken) : FirstFit fits rs taken [] []
  | line {taken line j rest slots} : Takes (fits line) rs taken j →
      FirstFit fits rs (j :: taken) rest slots → FirstFit fits rs taken (line :: rest) (j :: slots)

structure Assigned (fits : Criteria → Record → Bool) (rs : List Record) (lines : List Criteria)
    (slots : List Nat) : Prop where
  fit : List.Forall₂ (fun line j => ∃ r, rs[j]? = some r ∧ fits line r = true) lines slots
  apart : slots.Nodup

/-- A line that fits some record beside a later one fits none that the later one does not. -/
def Nested (fits : Criteria → Record → Bool) (rs : List Record) (lines : List Criteria) : Prop :=
  lines.Pairwise fun early late => (∃ r ∈ rs, fits early r = true ∧ fits late r = true) →
    ∀ r ∈ rs, fits early r = true → fits late r = true

instance (fits : Criteria → Record → Bool) (rs : List Record) (lines : List Criteria) :
    Decidable (Nested fits rs lines) := inferInstanceAs (Decidable (List.Pairwise _ lines))

def Covers (kind : Record → Bool) (rs : List Record) (slots : List Nat) : Prop :=
  ∀ j r, rs[j]? = some r → kind r = true → j ∈ slots

instance (kind : Record → Bool) (rs : List Record) (slots : List Nat) :
    Decidable (Covers kind rs slots) :=
  decidable_of_iff (∀ j : Fin rs.length, kind rs[j] = true → j.val ∈ slots)
    ⟨fun all j r there hit => by
      obtain ⟨bound,rfl⟩ := List.getElem?_eq_some_iff.mp there
      exact all ⟨j,bound⟩ hit,
    fun covers j hit => covers j rs[j] (List.getElem?_eq_getElem j.isLt) hit⟩

namespace FirstFit
variable {fits : Criteria → Record → Bool} {rs : List Record} {taken slots : List Nat}
  {lines : List Criteria}

theorem assigned (h : FirstFit fits rs taken lines slots) :
    Assigned fits rs lines slots ∧ ∀ j ∈ slots, j ∉ taken := by
  induction h with
  | done => exact ⟨⟨.nil,List.nodup_nil⟩,by simp⟩
  | @line taken line j rest slots takes _ ih =>
    obtain ⟨⟨fit,apart⟩,free⟩ := ih
    refine ⟨⟨.cons takes.fit fit,List.nodup_cons.mpr ⟨fun mem => ?_,apart⟩⟩,fun i mem => ?_⟩
    · exact free j mem List.mem_cons_self
    · rcases List.mem_cons.mp mem with rfl | mem
      · exact takes.free
      · exact fun old => free i mem (List.mem_cons_of_mem _ old)

theorem inPlace {offset : Nat} (fit : ∀ i line, lines[i]? = some line →
      ∃ r, rs[offset + i]? = some r ∧ fits line r = true)
    (passed : ∀ i r line, i < offset → rs[i]? = some r → line ∈ lines → fits line r = true → i ∈ taken)
    (early : ∀ i ∈ taken, i < offset) :
    FirstFit fits rs taken lines (List.range' offset lines.length) := by
  induction lines generalizing offset taken with
  | nil => exact .done _
  | cons line rest ih =>
    obtain ⟨r,there,hit⟩ := fit 0 line rfl
    refine .line ⟨⟨r,there,hit⟩,fun mem => Nat.lt_irrefl _ (early _ mem),fun i x place fits free => ?_⟩ ?_
    · by_contra before
      exact free (passed i x line (by omega) place List.mem_cons_self fits)
    · refine ih (fun i other mem => ?_) (fun i x other before place mem fits => ?_) fun i mem => ?_
      · rw [Nat.add_assoc,Nat.add_comm 1 i]
        exact fit (i + 1) other mem
      · by_cases here : i = offset
        · exact here ▸ List.mem_cons_self
        · exact List.mem_cons_of_mem _
            (passed i x other (by omega) place (List.mem_cons_of_mem _ mem) fits)
      · rcases List.mem_cons.mp mem with rfl | mem
        · exact Nat.lt_succ_self _
        · exact Nat.lt_succ_of_lt (early i mem)

end FirstFit

section
variable {fits : Criteria → Record → Bool} {rs : List Record} {lines : List Criteria}

theorem exchanged {fit : Criteria → Nat → Prop} {slots : List Nat} {x y : Nat} (absent : y ∉ slots)
    (all : List.Forall₂ fit lines slots) (instead : ∀ line ∈ lines, fit line x → fit line y) :
    List.Forall₂ fit lines (slots.map (Equiv.swap x y)) := by
  rw [List.forall₂_iff_zip] at all ⊢
  obtain ⟨size,each⟩ := all
  refine ⟨by rw [List.length_map,size],fun mem => ?_⟩
  rw [List.zip_map_right] at mem
  obtain ⟨⟨line,j⟩,paired,same⟩ := List.mem_map.mp mem
  cases same
  obtain ⟨member,slot⟩ := List.of_mem_zip paired
  have had : fit line j := each paired
  by_cases here : j = x
  · subst here
    simpa using instead line member had
  · have other : j ≠ y := fun same => absent (same ▸ slot)
    simpa [Equiv.swap_apply_of_ne_of_ne here other] using had

-- The record that a line takes may be a later line's, which then gets the one that this line had.
theorem Nested.firstFit (nested : Nested fits rs lines) {slots taken : List Nat}
    (assigned : Assigned fits rs lines slots) (free : ∀ j ∈ slots, j ∉ taken) :
    ∃ found, FirstFit fits rs taken lines found := by
  induction lines generalizing slots taken with
  | nil => exact ⟨[],.done _⟩
  | cons line rest ih =>
    obtain ⟨fit,apart⟩ := assigned
    cases fit with
    | @cons _ y _ others here later =>
      obtain ⟨r,there,hit⟩ := here
      obtain ⟨alone,apart⟩ := List.nodup_cons.mp apart
      obtain ⟨inside,nested⟩ := List.pairwise_cons.mp nested
      obtain ⟨x,takes⟩ := Takes.some there hit (free y List.mem_cons_self)
      obtain ⟨q,place,first⟩ := takes.fit
      have instead : ∀ late ∈ rest, (∃ r, rs[x]? = some r ∧ fits late r = true) →
          ∃ r, rs[y]? = some r ∧ fits late r = true := by
        rintro late mem ⟨q',place',too⟩
        cases place.symm.trans place'
        exact ⟨r,there,inside late mem ⟨q,List.mem_of_getElem? place,first,too⟩ r
          (List.mem_of_getElem? there) hit⟩
      have loose : ∀ j ∈ others.map (Equiv.swap x y), j ∉ x :: taken := by
        intro j mem
        obtain ⟨i,slot,rfl⟩ := List.mem_map.mp mem
        have other : i ≠ y := fun same => alone (same ▸ slot)
        by_cases here : i = x
        · subst here
          rw [Equiv.swap_apply_left,List.mem_cons,not_or]
          exact ⟨Ne.symm other,free y List.mem_cons_self⟩
        · rw [Equiv.swap_apply_of_ne_of_ne here other,List.mem_cons,not_or]
          exact ⟨here,free i (List.mem_cons_of_mem _ slot)⟩
      obtain ⟨found,rest⟩ := ih nested
        ⟨exchanged alone later instead,apart.map (Equiv.swap x y).injective⟩ loose
      exact ⟨x :: found,.line takes rest⟩

-- A kind of record that the lines alone can have: if some places of theirs cover it, so do all.
theorem Assigned.covers {kind : Record → Bool} {slots others : List Nat}
    (only : ∀ line r, fits line r = true → kind r = true) (assigned : Assigned fits rs lines slots)
    (covers : Covers kind rs slots) (again : Assigned fits rs lines others) :
    Covers kind rs others := by
  have inside : others ⊆ slots := by
    intro j mem
    obtain ⟨line,-,r,there,fit⟩ := Reconcile.forallRight again.fit mem
    exact covers j r there (only line r fit)
  have same : others.Perm slots := (List.subperm_of_subset again.apart inside).perm_of_length_le
    (by rw [← assigned.fit.length_eq,← again.fit.length_eq])
  exact fun j r there hit => same.mem_iff.mpr (covers j r there hit)

theorem Assigned.reorder {slots : List Nat} {others : List Criteria} (same : others.Perm lines)
    (assigned : Assigned fits rs lines slots) :
    ∃ moved, moved.Perm slots ∧ Assigned fits rs others moved := by
  obtain ⟨moved,fit,order⟩ := List.perm_comp_forall₂ same assigned.fit
  exact ⟨moved,order,fit,order.nodup_iff.mpr assigned.apart⟩

end
end RouterReconciler

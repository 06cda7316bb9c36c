import Mathlib.Data.List.Nodup
import RouterReconciler.Proofs.Device.View
import RouterReconciler.Proofs.Placement.Carry

/-! The steps of a plan on records whose ids are distinct. Each acts on the one record with its id:
a removal leaves out this record, a modification maps it, a move carries it. -/
namespace RouterReconciler
open Replica Placement

def ids (rs : List Record) : List (Option ItemId) := rs.map Record.id

def amend (id : ItemId) (f : Record → Record) (r : Record) : Record :=
  if r.id = some id then f r else r

theorem positionSplit {id : ItemId} {rs : List Record} {i : Nat} (h : position? id rs = some i) :
    ∃ (front : List Record) (r : Record) (back : List Record), rs = front ++ r :: back ∧
      front.length = i ∧ r.id = some id ∧ ∀ x ∈ front, x.id ≠ some id := by
  simp only [position?,List.findIdx?_eq_some_iff_getElem] at h
  obtain ⟨inside,found,first⟩ := h
  refine ⟨rs.take i,rs[i],rs.drop (i+1),?_,List.length_take_of_le (Nat.le_of_lt inside),
    by simpa using found,fun x hx => ?_⟩
  · rw [← List.drop_eq_getElem_cons inside,List.take_append_drop]
  · obtain ⟨j,hj,rfl⟩ := List.getElem_of_mem hx
    rw [List.length_take] at hj
    rw [List.getElem_take]
    simpa using first j (by omega)

theorem sameRecord {rs : List Record} (distinct : (ids rs).Nodup) {a b : Record} (ha : a ∈ rs)
    (hb : b ∈ rs) (same : a.id = b.id) : a = b := List.inj_on_of_nodup_map distinct ha hb same

theorem samePlace {rs : List Record} (distinct : (ids rs).Nodup) {i j : Nat} {a b : Record}
    (ha : rs[i]? = some a) (hb : rs[j]? = some b) (same : a.id = b.id) : i = j := by
  have atI : (ids rs)[i]? = some a.id := by rw [ids,List.getElem?_map,ha]; rfl
  have atJ : (ids rs)[j]? = some b.id := by rw [ids,List.getElem?_map,hb]; rfl
  obtain ⟨inside,-⟩ := List.getElem?_eq_some_iff.mp atI
  exact (List.getElem?_inj inside distinct).mp (by rw [atI,atJ,same])

theorem idsPerm {a b : List Record} (perm : a.Perm b) : (ids a).Perm (ids b) := perm.map Record.id

theorem apartOfSplit {front back : List Record} {r : Record} (distinct : (ids (front ++ r :: back)).Nodup) :
    (∀ x ∈ front, x.id ≠ r.id) ∧ ∀ x ∈ back, x.id ≠ r.id := by
  simp only [ids,List.map_append,List.map_cons] at distinct
  have parts := List.nodup_append.mp distinct
  refine ⟨fun x hx same => ?_,fun x hx same => ?_⟩
  · exact parts.2.2 x.id (List.mem_map_of_mem hx) r.id List.mem_cons_self same
  · exact (List.nodup_cons.mp parts.2.1).1 (List.mem_map.mpr ⟨x,hx,same⟩)

theorem eraseIdxFilter {id : ItemId} {rs : List Record} {i : Nat} (distinct : (ids rs).Nodup)
    (h : position? id rs = some i) : rs.eraseIdx i = rs.filter (fun r => r.id ≠ some id) := by
  obtain ⟨front,r,back,rfl,rfl,named,-⟩ := positionSplit h
  obtain ⟨before,after⟩ := apartOfSplit distinct
  rw [named] at before after
  have keepFront : front.filter (fun r => decide (r.id ≠ some id)) = front :=
    List.filter_eq_self.mpr fun x hx => by simpa using before x hx
  have keepBack : back.filter (fun r => decide (r.id ≠ some id)) = back :=
    List.filter_eq_self.mpr fun x hx => by simpa using after x hx
  rw [List.filter_append,keepFront,List.filter_cons_of_neg (by simp [named]),keepBack]
  simp [List.eraseIdx_append_of_length_le]

theorem modifyMiddle {α : Type} (f : α → α) (front : List α) (r : α) (back : List α) :
    (front ++ r :: back).modify front.length f = front ++ f r :: back := by
  induction front with
  | nil => rfl
  | cons x front ih => simp [ih]

theorem insertMiddle {α : Type} (r : α) (front back : List α) :
    (front ++ back).insertIdx front.length r = front ++ r :: back := by
  induction front with
  | nil => rfl
  | cons x front ih => simp [ih]

theorem modifyMap {id : ItemId} {f : Record → Record} {rs : List Record} {i : Nat}
    (distinct : (ids rs).Nodup) (h : position? id rs = some i) :
    rs.modify i f = rs.map (amend id f) := by
  obtain ⟨front,r,back,rfl,rfl,named,-⟩ := positionSplit h
  obtain ⟨before,after⟩ := apartOfSplit distinct
  rw [named] at before after
  have keepFront : front.map (amend id f) = front := by
    conv_rhs => rw [← List.map_id front]
    exact List.map_congr_left fun x hx => by simp [amend,before x hx]
  have keepBack : back.map (amend id f) = back := by
    conv_rhs => rw [← List.map_id back]
    exact List.map_congr_left fun x hx => by simp [amend,after x hx]
  rw [modifyMiddle,List.map_append,List.map_cons,keepFront,keepBack,amend,if_pos named]

theorem relocateCarry {id : ItemId} {before : Option ItemId} {rs moved : List Record} {i : Nat}
    {r : Record} (distinct : (ids rs).Nodup) (h : position? id rs = some i) (taken : rs[i]? = some r)
    (arranged : relocate rs i r before = some moved) :
    r ∈ rs ∧ r.id = some id ∧ ∃ anchor : Option Record, anchor.map Record.id = before.map some ∧
      (∀ b ∈ anchor, b ∈ rs) ∧ carry rs (r,anchor) = some moved := by
  obtain ⟨front,first,back,rfl,rfl,named,-⟩ := positionSplit h
  simp only [List.getElem?_append_right (Nat.le_refl _),Nat.sub_self,List.getElem?_cons_zero,
    Option.some.injEq] at taken
  subst first
  have mem : r ∈ front ++ r :: back := by simp
  obtain ⟨early,late⟩ := apartOfSplit distinct
  have outside : r ∉ front := fun hr => early r hr rfl
  have erased : (front ++ r :: back).erase r = front ++ back := by
    rw [List.erase_append_right _ outside,List.erase_cons_head]
  have erasedIdx : (front ++ r :: back).eraseIdx front.length = front ++ back := by
    simp [List.eraseIdx_append_of_length_le]
  simp only [relocate,erasedIdx] at arranged
  refine ⟨mem,named,?_⟩
  cases before with
  | none =>
    cases Option.some.inj arranged
    exact ⟨none,rfl,by simp,by simp [carry,erased]⟩
  | some other =>
    obtain ⟨j,place,rfl⟩ := Option.map_eq_some_iff.mp arranged
    obtain ⟨head,b,tail,split,rfl,bNamed,-⟩ := positionSplit place
    have restDistinct : (ids (front ++ back)).Nodup := by
      rw [← erased]; exact distinct.sublist (List.erase_sublist.map _)
    rw [split] at restDistinct
    have bOutside : b ∉ head := fun hb => (apartOfSplit restDistinct).1 b hb rfl
    have bThere : b ∈ front ++ back := by rw [split]; simp
    refine ⟨some b,by simp [bNamed],?_,?_⟩
    · intro x hx
      cases hx
      rcases List.mem_append.mp bThere with hb | hb <;> simp [hb]
    · have inserted : (front ++ back).insertIdx head.length r = insertBefore r b (front ++ back) := by
        rw [split,insertBeforeAt r b tail bOutside,insertMiddle]
      rw [inserted]
      simp only [carry,erased]
      exact if_pos ⟨mem,bThere⟩

end RouterReconciler

import Mathlib.Data.List.Count
import RouterReconciler.Proofs.Device.Edits
import RouterReconciler.Proofs.Placement.Moves
import RouterReconciler.Reconcile.Basic

/-! Operations in order: each names only records that may be named when its turn comes, those that were
there and have not been removed, and those that an earlier operation has added; and each suits the shape
of the facility. -/
namespace RouterReconciler
open Placement

namespace Operation

def refs : Operation → List ItemRef
  | .add _ before => before.toList
  | .remove id => [.existing id]
  | .set item _ => (item.map ItemRef.existing).toList
  | .move item before => item :: before.toList
  | .enable id => [.existing id]
  | .disable id => [.existing id]

def allowed (shape : Shape) : Operation → Bool
  | .add _ before => shape != .singleton && (before.isNone || shape == .ordered)
  | .set item _ => item.isSome == (shape != .singleton)
  | .move _ _ => shape == .ordered
  | .remove _ => shape != .singleton
  | .enable _ => shape != .singleton
  | .disable _ => shape != .singleton

def leaves (index : Nat) (live : List ItemRef) : Operation → List ItemRef
  | .add _ _ => .added index :: live
  | .remove id => live.erase (.existing id)
  | _ => live

end Operation

def left (index : Nat) (live : List ItemRef) : List Operation → List ItemRef
  | [] => live
  | operation :: rest => left (index + 1) (operation.leaves index live) rest

structure Proper (shape : Shape) (loose : ItemId → Prop) (live : List ItemRef)
    (operation : Operation) : Prop where
  named : ∀ item ∈ operation.refs, item ∈ live
  once : operation.refs.Nodup
  allowed : operation.allowed shape = true
  loose : ∀ id ∈ operation.removedId?, loose id

def Orderly (shape : Shape) (loose : ItemId → Prop) (index : Nat) (live : List ItemRef) :
    List Operation → Prop
  | [] => True
  | operation :: rest => Proper shape loose live operation ∧
      Orderly shape loose (index + 1) (operation.leaves index live) rest

variable {shape : Shape} {loose : ItemId → Prop} {index : Nat} {live : List ItemRef}
  {operation : Operation} {operations : List Operation}

theorem Proper.more {known : List ItemRef} (proper : Proper shape loose known operation)
    (within : known ⊆ live) : Proper shape loose live operation :=
  ⟨fun item mem => within (proper.named item mem),proper.once,proper.allowed,proper.loose⟩

theorem leftAppend (first second : List Operation) : left index live (first ++ second) =
    left (index + first.length) (left index live first) second := by
  induction first generalizing index live with
  | nil => rfl
  | cons operation rest ih =>
    rw [List.cons_append,left,left,ih,List.length_cons,Nat.add_right_comm,Nat.add_assoc]

theorem orderlyAppend {first second : List Operation} :
    Orderly shape loose index live (first ++ second) ↔ Orderly shape loose index live first ∧
      Orderly shape loose (index + first.length) (left index live first) second := by
  induction first generalizing index live with
  | nil => exact (and_iff_right trivial).symm
  | cons operation rest ih =>
    rw [List.cons_append,Orderly,Orderly,ih,and_assoc,left,List.length_cons,Nat.add_right_comm,
      Nat.add_assoc]

theorem Orderly.turn {done rest : List Operation}
    (h : Orderly shape loose index live (done ++ operation :: rest)) :
    Proper shape loose (left index live done) operation := (orderlyAppend.mp h).2.1

theorem Orderly.allowed (h : Orderly shape loose index live operations) :
    ∀ operation ∈ operations, operation.allowed shape = true := by
  intro operation mem
  obtain ⟨done,rest,rfl⟩ := List.append_of_mem mem
  exact h.turn.allowed

theorem addedStays {n : Nat} (h : .added n ∈ live) : .added n ∈ left index live operations := by
  induction operations generalizing index live with
  | nil => exact h
  | cons operation rest ih =>
    refine ih ?_
    cases operation with
    | add values before => exact List.mem_cons_of_mem _ h
    | remove id => exact (List.mem_erase_of_ne (by simp)).mpr h
    | _ => exact h

theorem addedLeft {n : Nat} (h : .added n ∈ left index live operations) : .added n ∈ live ∨
    ∃ k values before, n = index + k ∧ operations[k]? = some (.add values before) := by
  induction operations generalizing index live with
  | nil => exact .inl h
  | cons operation rest ih =>
    rcases ih h with before | ⟨k,values,place,rfl,there⟩
    · cases operation with
      | add values place =>
        rcases List.mem_cons.mp before with same | before
        · cases same
          exact .inr ⟨0,values,place,rfl,rfl⟩
        · exact .inl before
      | remove id => exact .inl (List.mem_of_mem_erase before)
      | _ => exact .inl before
    · exact .inr ⟨k + 1,values,place,by omega,there⟩

theorem addedThere {k : Nat} {values : Assignments} {before : Option ItemRef}
    (h : operations[k]? = some (.add values before)) : .added (index + k) ∈ left index live operations := by
  induction operations generalizing index live k with
  | nil => cases h
  | cons operation rest ih =>
    cases k with
    | zero =>
      cases h
      have there : .added index ∈ left (index + 1) (.added index :: live) rest :=
        addedStays List.mem_cons_self
      exact there
    | succ k =>
      rw [show index + (k + 1) = index + 1 + k by omega]
      exact ih h

-- Each removal takes the record off the list, so it needs a place in it of its own.
theorem Orderly.removedCount (h : Orderly shape loose index live operations) (id : ItemId) :
    (removed operations).count id ≤ live.count (.existing id) := by
  induction operations generalizing index live with
  | nil => exact Nat.zero_le _
  | cons operation rest ih =>
    obtain ⟨proper,later⟩ := h
    have rest := ih later
    cases operation with
    | add values before =>
      rw [Operation.leaves,List.count_cons_of_ne (by simp)] at rest
      exact rest
    | remove other =>
      have there : .existing other ∈ live := proper.named _ (by simp [Operation.refs])
      simp only [removed,List.filterMap_cons,Operation.removedId?,Operation.leaves] at rest ⊢
      by_cases same : other = id
      · subst other
        have one : 0 < live.count (.existing id) := List.count_pos_iff.mpr there
        rw [List.count_erase_self] at rest
        rw [List.count_cons_self]
        omega
      · rw [List.count_erase_of_ne (by simpa using Ne.symm same)] at rest
        rwa [List.count_cons_of_ne same]
    | _ => exact rest

theorem Orderly.removedOnce (h : Orderly shape loose index live operations) (distinct : live.Nodup) :
    (removed operations).Nodup :=
  List.nodup_iff_count_le_one.mpr fun id =>
    Nat.le_trans (h.removedCount id) (List.nodup_iff_count_le_one.mp distinct _)

theorem steadyLeft (keeps : ∀ operation ∈ operations, operation.removedId? = none) :
    live ⊆ left index live operations := by
  induction operations generalizing index live with
  | nil => exact List.Subset.refl _
  | cons operation rest ih =>
    have here := keeps operation List.mem_cons_self
    refine List.Subset.trans ?_ (ih fun x hx => keeps x (List.mem_cons_of_mem _ hx))
    cases operation with
    | add values before => exact List.subset_cons_self _ _
    | remove id => cases here
    | _ => exact List.Subset.refl _

theorem orderlySteady (steady : ∀ operation ∈ operations,
    operation.removedId? = none ∧ Proper shape loose live operation) :
    Orderly shape loose index live operations := by
  suffices all : ∀ more, live ⊆ more → Orderly shape loose index more operations from
    all live (List.Subset.refl _)
  induction operations generalizing index with
  | nil => exact fun _ _ => trivial
  | cons operation rest ih =>
    intro more within
    obtain ⟨keeps,proper⟩ := steady operation List.mem_cons_self
    refine ⟨proper.more within,ih (fun x hx => steady x (List.mem_cons_of_mem _ hx)) _ ?_⟩
    have single : ∀ x ∈ [operation], x.removedId? = none := by simpa using keeps
    exact List.Subset.trans within (steadyLeft single)

theorem orderlyRemovals {gone : List ItemId} (several : shape ≠ .singleton) (distinct : gone.Nodup)
    (there : ∀ id ∈ gone, .existing id ∈ live) (told : ∀ id ∈ gone, loose id) :
    Orderly shape loose index live (gone.map .remove) := by
  induction gone generalizing index live with
  | nil => trivial
  | cons id rest ih =>
    obtain ⟨out,distinct⟩ := List.nodup_cons.mp distinct
    refine ⟨⟨?_,List.nodup_singleton _,by simpa [Operation.allowed] using several,?_⟩,
      ih distinct (fun other mem => ?_) fun other mem => told other (List.mem_cons_of_mem _ mem)⟩
    · simpa [Operation.refs] using there id List.mem_cons_self
    · simpa [Operation.removedId?] using told id List.mem_cons_self
    · have differ : other ≠ id := fun same => out (same ▸ mem)
      exact (List.mem_erase_of_ne (by simpa using differ)).mpr (there other (List.mem_cons_of_mem _ mem))

theorem leftRemovals {gone : List ItemId} {kept : List ItemRef} (inside : kept ⊆ live)
    (stays : ∀ id ∈ gone, .existing id ∉ kept) : kept ⊆ left index live (gone.map .remove) := by
  induction gone generalizing index live with
  | nil => exact inside
  | cons id rest ih =>
    refine ih (fun item mem => ?_) fun other mem => stays other (List.mem_cons_of_mem _ mem)
    have differ : item ≠ .existing id := fun same => stays id List.mem_cons_self (same ▸ mem)
    exact (List.mem_erase_of_ne differ).mpr (inside mem)

theorem movesProper {current block : List ItemRef} {position : Nat} (distinct : current.Nodup)
    (blockDistinct : block.Nodup) (inside : ∀ item ∈ block, item ∈ current) (within : current ⊆ live) :
    ∀ operation ∈ Reconcile.reposition current block position,
      operation.removedId? = none ∧ Proper .ordered loose live operation := by
  intro operation mem
  obtain ⟨m,hm,rfl⟩ := List.mem_map.mp mem
  obtain ⟨stay,walked,-⟩ := movesSource (position - 1) distinct blockDistinct inside
  have perm := targetPerm (position - 1) distinct blockDistinct inside
  rw [walked] at hm
  have anchored := walkAnchored (perm.nodup_iff.mpr distinct) hm
  refine ⟨rfl,fun item mem => ?_,?_,rfl,fun _ gone => by cases gone⟩
  · rcases List.mem_cons.mp mem with rfl | mem
    · exact within (perm.mem_iff.mp (walkMoved hm).1)
    · exact within (perm.mem_iff.mp (anchored item (Option.mem_toList.mp mem)).1)
  · refine List.nodup_cons.mpr ⟨fun mem => ?_,by cases m.2 <;> simp⟩
    exact (anchored m.1 (Option.mem_toList.mp mem)).2 rfl

end RouterReconciler

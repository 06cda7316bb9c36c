import RouterReconciler.Proofs.Device.Orderly
import RouterReconciler.Proofs.Reconcile.Adjust

/-! Operations that may be planned: they are in order, what they name is not dynamic, and what they remove
is neither default nor builtin. Where nothing is removed, each of them may be judged by the records alone. -/
namespace RouterReconciler
open Replica Step Reconcile

def Removable (rs : List Record) (id : ItemId) : Prop := ∃ r ∈ rs, isRemovable r = true ∧ r.id = some id

theorem Removable.named {rs : List Record} {id : ItemId} (h : Removable rs id) :
    .existing id ∈ handles (lasting rs) := by
  obtain ⟨r,hr,loose,named⟩ := h
  exact handleOf (List.mem_filter.mpr ⟨hr,by simp [removableLasts loose]⟩) named

inductive Planned (f : Facility) (d : Replica) : List Operation → Prop
  | nothing : Planned f d []
  | single {values : Assignments} (shape : f.shape = .singleton)
      (alone : ∀ rs, d.facilities.get? f.path.text ≠ some (.items rs)) :
      Planned f d [.set none values]
  | several {operations : List Operation} (shape : f.shape ≠ .singleton) (items : d.HasItems f.path)
      (orderly : Orderly f.shape (Removable (d.records f.path)) 0 (handles (lasting (d.records f.path)))
        operations) : Planned f d operations

theorem Planned.orderly {f : Facility} {d : Replica} {operations : List Operation}
    (h : Planned f d operations) : Orderly f.shape (Removable (d.records f.path)) 0
      (handles (lasting (d.records f.path))) operations := by
  cases h with
  | nothing => trivial
  | single shape alone =>
    exact ⟨⟨by simp [Operation.refs],by simp [Operation.refs],by simp [Operation.allowed,shape],
      by simp [Operation.removedId?]⟩,trivial⟩
  | several _ _ orderly => exact orderly

theorem Planned.items {f : Facility} {d : Replica} {operations : List Operation}
    (h : Planned f d operations) (several : f.shape ≠ .singleton) (some : operations ≠ []) :
    d.HasItems f.path := by
  cases h with
  | nothing => exact absurd rfl some
  | single shape alone => exact absurd shape several
  | several _ items _ => exact items

theorem Planned.removes {f : Facility} {d : Replica} {operations : List Operation} {id : ItemId}
    (h : Planned f d operations) (gone : id ∈ removed operations) : some id ∈ ids (d.records f.path) := by
  have listed : .existing id ∈ handles (lasting (d.records f.path)) :=
    List.count_pos_iff.mp (Nat.lt_of_lt_of_le (List.count_pos_iff.mpr gone) (h.orderly.removedCount id))
  exact (List.filter_sublist.map _).subset (existingHandle.mp listed)

structure Sure (f : Facility) (d : Replica) (operation : Operation) : Prop where
  shape : f.shape ≠ .singleton
  items : d.HasItems f.path
  keeps : operation.removedId? = none
  proper : Proper f.shape (Removable (d.records f.path)) (handles (lasting (d.records f.path))) operation

theorem Planned.sure {f : Facility} {d : Replica} {operations : List Operation}
    (h : ∀ operation ∈ operations, Sure f d operation) : Planned f d operations := by
  cases operations with
  | nil => exact .nothing
  | cons operation rest =>
    have one := h operation List.mem_cons_self
    exact .several one.shape one.items (orderlySteady fun x hx => ⟨(h x hx).keeps,(h x hx).proper⟩)

theorem Sure.add {f : Facility} {d : Replica} (values : Assignments) {before : Option ItemRef}
    (shape : f.shape ≠ .singleton) (items : d.HasItems f.path)
    (anchored : ∀ item ∈ before, item ∈ handles (lasting (d.records f.path)) ∧ f.shape = .ordered) :
    Sure f d (.add values before) := by
  refine ⟨shape,items,rfl,fun item mem => ?_,?_,?_,fun _ gone => by cases gone⟩
  · exact (anchored item (Option.mem_toList.mp mem)).1
  · cases before <;> simp [Operation.refs]
  · cases before with
    | none => simpa [Operation.allowed] using shape
    | some item => simp [Operation.allowed,(anchored item rfl).2]

section One
variable {f : Facility} {d : Replica} {id : ItemId} (shape : f.shape ≠ .singleton)
  (items : d.HasItems f.path) (named : .existing id ∈ handles (lasting (d.records f.path)))
include shape items named

theorem Sure.set (values : Assignments) : Sure f d (.set (some id) values) :=
  ⟨shape,items,rfl,by simpa [Operation.refs] using named,by simp [Operation.refs],
    by simpa [Operation.allowed] using shape,fun _ gone => by cases gone⟩

theorem Sure.enable : Sure f d (.enable id) :=
  ⟨shape,items,rfl,by simpa [Operation.refs] using named,by simp [Operation.refs],
    by simpa [Operation.allowed] using shape,fun _ gone => by cases gone⟩

theorem Sure.disable : Sure f d (.disable id) :=
  ⟨shape,items,rfl,by simpa [Operation.refs] using named,by simp [Operation.refs],
    by simpa [Operation.allowed] using shape,fun _ gone => by cases gone⟩

end One

namespace Reconcile

theorem severalIf (ordered : Bool) : Mode.shapeIf ordered ≠ .singleton := by cases ordered <;> nofun

section Reads
variable {f : Facility} {d d' : Replica}

theorem selectedUnskipped {s : Selector} {rs found : List Record} (h : s.select rs = .ok found)
    {r : Record} (hr : r ∈ found) : r ∈ rs ∧ s.isSkipped r = false := by
  obtain ⟨there,judged⟩ := ((selectFilter h).2 r).mp hr
  refine ⟨there,?_⟩
  unfold Selector.matches? at judged
  split at judged
  · cases judged
  · simpa using ‹¬s.isSkipped r = true›

theorem findOk [PatternEngine] {criteria : Criteria} {found : List Record}
    (h : find f criteria d = (.ok found,d')) :
    d' = d ∧ f.shape ≠ .singleton ∧ d.HasItems f.path ∧ ∀ r ∈ found, r ∈ lasting (d.records f.path) := by
  refine ⟨(findQuiet f d _).state h,?_⟩
  simp only [find,bindOk,liftOk] at h
  obtain ⟨s,_,⟨-,rfl⟩,h⟩ := h
  obtain ⟨shape,items,selected⟩ := readOk h
  refine ⟨shape,items,fun r hr => ?_⟩
  obtain ⟨there,kept⟩ := selectedUnskipped selected hr
  have alive : r.flag "dynamic" = false := by
    cases dynamic : r.flag "dynamic" with
    | false => rfl
    | true => simp [Selector.isSkipped,Selector.excludingDynamic,dynamic] at kept
  exact List.mem_filter.mpr ⟨there,by simp [alive]⟩

theorem repositionSure {block : List ItemRef} {position : Nat} (shape : f.shape = .ordered)
    (items : d.HasItems f.path) (distinct : (ids (d.records f.path)).Nodup)
    (blockDistinct : block.Nodup) (inside : ∀ item ∈ block, item ∈ handles (lasting (d.records f.path))) :
    ∀ operation ∈ reposition (handles (lasting (d.records f.path))) block position,
      Sure f d operation := by
  intro operation mem
  obtain ⟨keeps,proper⟩ : operation.removedId? = none ∧ Proper .ordered (Removable (d.records f.path))
      (handles (lasting (d.records f.path))) operation :=
    movesProper (handlesDistinct (lastingDistinct distinct)) blockDistinct inside (List.Subset.refl _)
      operation mem
  exact ⟨by simp [shape],items,keeps,by rw [shape]; exact proper⟩
end Reads
end Reconcile
end RouterReconciler

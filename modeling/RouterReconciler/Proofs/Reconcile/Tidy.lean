import RouterReconciler.Proofs.Reconcile.Planned
import RouterReconciler.Proofs.Reconcile.Present
import RouterReconciler.Proofs.Reconcile.Replace

/-! Progress on lines keeps the operations in order: a line names a record that stays, or adds one, and the
block names both kinds when it is put in place. -/
namespace RouterReconciler.Reconcile
open Replica Step

structure Tidy (shape : Shape) (loose : ItemId → Prop) (live kept : List ItemRef) (p : Progress) :
    Prop where
  orderly : Orderly shape loose 0 live p.operations
  standing : kept ⊆ left 0 live p.operations
  block : ∀ item ∈ p.block, item ∈ kept ∨
    ∃ n, item = .added n ∧ n < p.operations.length ∧ item ∈ left 0 live p.operations
  distinct : p.block.Nodup

theorem Tidy.start {shape : Shape} {loose : ItemId → Prop} (live : List ItemRef) :
    Tidy shape loose live live .start :=
  ⟨trivial,List.Subset.refl _,by simp [Progress.start],List.nodup_nil⟩

theorem Tidy.removals {shape : Shape} {loose : ItemId → Prop} {live kept : List ItemRef}
    {gone : List ItemId} (several : shape ≠ .singleton) (distinct : gone.Nodup)
    (there : ∀ id ∈ gone, .existing id ∈ live) (told : ∀ id ∈ gone, loose id) (inside : kept ⊆ live)
    (stays : ∀ id ∈ gone, .existing id ∉ kept) :
    Tidy shape loose live kept ⟨[],gone.map .remove,[]⟩ :=
  ⟨orderlyRemovals several distinct there told,leftRemovals inside stays,by simp,List.nodup_nil⟩

namespace Tidy
variable {shape : Shape} {loose : ItemId → Prop} {live kept : List ItemRef} {p : Progress}
  (tidy : Tidy shape loose live kept p)
include tidy

theorem extend {more : List Operation} {block : List ItemRef} {claimed : List Nat}
    (steady : ∀ operation ∈ more, operation.removedId? = none ∧ Proper shape loose kept operation)
    (named : ∀ item ∈ block, item ∈ p.block ∨ item ∈ kept ∨ ∃ n, item = .added n ∧
      n < (p.operations ++ more).length ∧ item ∈ left 0 live (p.operations ++ more))
    (distinct : block.Nodup) : Tidy shape loose live kept ⟨claimed,p.operations ++ more,block⟩ := by
  have stays : left 0 live p.operations ⊆ left 0 live (p.operations ++ more) := by
    rw [leftAppend]
    exact steadyLeft fun operation mem => (steady operation mem).1
  refine ⟨orderlyAppend.mpr ⟨tidy.orderly,orderlySteady fun operation mem => ?_⟩,
    List.Subset.trans tidy.standing stays,fun item mem => ?_,distinct⟩
  · exact ⟨(steady operation mem).1,(steady operation mem).2.more tidy.standing⟩
  · rcases named item mem with old | new
    · refine (tidy.block item old).imp_right ?_
      rintro ⟨n,rfl,before,there⟩
      exact ⟨n,rfl,by rw [List.length_append]; omega,stays there⟩
    · exact new

theorem named {id : ItemId} (several : shape ≠ .singleton) (there : .existing id ∈ kept)
    (changes : Assignments) {more : List Operation}
    (planned : more = [] ∨ more = [.set (some id) changes]) (claimed : List Nat) :
    Tidy shape loose live kept ⟨claimed,p.operations ++ more,appendNew p.block (.existing id)⟩ := by
  refine tidy.extend (fun operation mem => ?_) (fun item mem => ?_) (nodupAppendNew _ tidy.distinct)
  · rcases planned with rfl | rfl
    · cases mem
    · cases List.mem_singleton.mp mem
      exact ⟨rfl,by simpa [Operation.refs] using there,by simp [Operation.refs],
        by simpa [Operation.allowed] using several,fun _ gone => by cases gone⟩
  · rcases memAppendNew.mp mem with mem | rfl
    · exact .inl mem
    · exact .inr (.inl there)

theorem newly (several : shape ≠ .singleton) (values : Assignments) :
    Tidy shape loose live kept ⟨p.claimed,p.operations ++ [.add values none],
      appendNew p.block (.added p.operations.length)⟩ := by
  refine tidy.extend (fun operation mem => ?_) (fun item mem => ?_) (nodupAppendNew _ tidy.distinct)
  · cases List.mem_singleton.mp mem
    exact ⟨rfl,by simp [Operation.refs],by simp [Operation.refs],
      by simpa [Operation.allowed] using several,fun _ gone => by cases gone⟩
  · rcases memAppendNew.mp mem with mem | rfl
    · exact .inl mem
    · refine .inr (.inr ⟨_,rfl,by simp,?_⟩)
      rw [leftAppend,Nat.zero_add]
      exact List.mem_cons_self

theorem arranged {ordered : Bool} {survivors : List Record} {position : Nat} {moves : List Operation}
    (same : kept = handles survivors) (once : kept.Nodup) (suits : shape = Mode.shapeIf ordered)
    (existing : ∀ item ∈ kept, isAdded item = false)
    (h : blockMoves ordered survivors p.block position = .ok moves) :
    Orderly shape loose 0 live (p.operations ++ moves) := by
  unfold blockMoves at h
  split at h
  · subst suits
    rename_i ordered
    split at h <;> cases h
    rename_i refs named
    rw [refsHandles named,← same]
    have new {item : ItemRef} (mem : item ∈ p.block.filter isAdded) : item ∉ kept := fun old => by
      have added := (List.mem_filter.mp mem).2
      rw [existing item old] at added
      cases added
    rw [ordered]
    rw [ordered] at tidy
    refine orderlyAppend.mpr ⟨tidy.orderly,orderlySteady (movesProper ?_ tidy.distinct ?_ ?_)⟩
    · exact List.nodup_append.mpr ⟨once,tidy.distinct.filter _,fun x old y mem eq =>
        new mem (eq ▸ old)⟩
    · intro item mem
      rcases tidy.block item mem with old | ⟨n,rfl,-⟩
      · exact List.mem_append_left _ old
      · exact List.mem_append_right _ (List.mem_filter.mpr ⟨mem,rfl⟩)
    · intro item mem
      rcases List.mem_append.mp mem with old | mem
      · exact tidy.standing old
      · obtain ⟨mem,-⟩ := List.mem_filter.mp mem
        rcases tidy.block item mem with old | ⟨n,rfl,-,there⟩
        · exact tidy.standing old
        · exact there
  · cases h
    rw [List.append_nil]
    exact tidy.orderly

end Tidy

theorem handlesExisting (rs : List Record) : ∀ item ∈ handles rs, isAdded item = false := by
  intro item mem
  obtain ⟨id,rfl,-⟩ := memHandles.mp mem
  rfl

theorem factoryLineNamed {rs : List Record} {identity : Criteria} {values : Assignments}
    {place : Option Nat} {id : ItemId} {operations : List Operation}
    (h : factoryLine rs identity values place = .ok (id,operations)) :
    .existing id ∈ handles rs ∧
      ∃ changes, operations = [] ∨ operations = [.set (some id) changes] := by
  cases found : place.bind (fun j => rs[j]?) with
  | none =>
    rw [factoryLine,found] at h
    cases h
  | some r =>
    obtain ⟨j,rfl,there⟩ := Option.bind_eq_some_iff.mp found
    obtain ⟨named,changes,-,planned⟩ := factoryLineOk there h
    exact ⟨handleOf (List.mem_of_getElem? there) named,changes,planned⟩

section Lines
variable {f : Facility} {loose : ItemId → Prop} {live : List ItemRef} {records : List Record}
  {d d' : Replica} {p p' : Progress} (several : f.shape ≠ .singleton)
include several

theorem presentLineTidy [PatternEngine] {missing : Missing} {line : Criteria}
    (tidy : Tidy f.shape loose live (handles records) p)
    (h : presentLine f records missing line p d = (.ok p',d')) :
    Tidy f.shape loose live (handles records) p' := by
  cases presentLineDone h with
  | factory _ _ written =>
    obtain ⟨named,changes,planned⟩ := factoryLineNamed written
    exact tidy.named several named changes planned _
  | ignored => exact tidy
  | astray => exact tidy
  | @claimed _ j _ _ _ _ _ there named =>
    have claimed := tidy.named several (handleOf (List.mem_of_getElem? there) (idOfOk named)) ∅ (.inl rfl)
      (j :: p.claimed)
    rwa [List.append_nil] at claimed
  | added => exact tidy.newly several _

theorem presentLinesTidy [PatternEngine] {within : Option Nat → Error → Error} {missing : Missing} {index : Nat}
    {lines : List Criteria} (tidy : Tidy f.shape loose live (handles records) p)
    (h : presentLines f within records missing index lines p d = (.ok p',d')) :
    Tidy f.shape loose live (handles records) p' := by
  induction lines generalizing index p d with
  | nil =>
    obtain ⟨rfl,-⟩ := pureOk.mp h
    exact tidy
  | cons line rest ih =>
    obtain ⟨m,_,step,h⟩ := presentLinesNext.mp h
    exact ih (presentLineTidy several tidy step) h

theorem replaceLineTidy [PatternEngine] {line : Criteria} (tidy : Tidy f.shape loose live (handles records) p)
    (h : replaceLine f records line p d = (.ok p',d')) :
    Tidy f.shape loose live (handles records) p' := by
  cases split : line.splitDefault? with
  | some parts =>
    obtain ⟨identity,values⟩ := parts
    obtain ⟨place,id,operations,planned,rfl⟩ := replaceLineDefault split h
    obtain ⟨named,changes,planned⟩ := factoryLineNamed planned
    exact tidy.named several named changes planned _
  | none =>
    obtain ⟨values,operation,-,checked,rfl⟩ := replaceLinePlain split h
    cases additionOk checked
    exact tidy.newly several values

theorem replaceLinesTidy [PatternEngine] {within : Option Nat → Error → Error} {index : Nat} {lines : List Criteria}
    (tidy : Tidy f.shape loose live (handles records) p)
    (h : replaceLines f within records index lines p d = (.ok p',d')) :
    Tidy f.shape loose live (handles records) p' := by
  induction lines generalizing index p d with
  | nil =>
    obtain ⟨rfl,-⟩ := pureOk.mp h
    exact tidy
  | cons line rest ih =>
    obtain ⟨m,_,step,h⟩ := replaceLinesNext.mp h
    exact ih (replaceLineTidy several tidy step) h

end Lines

theorem removalsTidy {shape : Shape} {rs : List Record} {gone : List ItemId}
    (several : shape ≠ .singleton) (once : (ids (lasting rs)).Nodup)
    (named : gone.map some = ids ((lasting rs).filter isRemovable)) :
    Tidy shape (Removable rs) (handles (lasting rs))
      (handles ((lasting rs).filter (fun r => !isRemovable r))) ⟨[],gone.map .remove,[]⟩ := by
  have told : ∀ id ∈ gone, ∃ r ∈ lasting rs, isRemovable r = true ∧ r.id = some id := by
    intro id mem
    have listed : some id ∈ ids ((lasting rs).filter isRemovable) := named ▸ List.mem_map_of_mem mem
    obtain ⟨r,hr,same⟩ := List.mem_map.mp listed
    exact ⟨r,(List.mem_filter.mp hr).1,(List.mem_filter.mp hr).2,same⟩
  have goneOnce : gone.Nodup := by
    refine List.Nodup.of_map some ?_
    rw [named]
    exact once.sublist (List.filter_sublist.map _)
  refine .removals several goneOnce (fun id mem => ?_) (fun id mem => ?_)
    (List.filter_sublist.filterMap _).subset fun id mem stays => ?_ <;>
    obtain ⟨r,hr,loose,named⟩ := told id mem
  · exact handleOf hr named
  · exact ⟨r,(List.mem_filter.mp hr).1,loose,named⟩
  · obtain ⟨x,hx,same⟩ := List.mem_map.mp (existingHandle.mp stays)
    obtain ⟨hx,firm⟩ := List.mem_filter.mp hx
    cases sameRecord once hx hr (same.trans named.symm)
    rw [loose] at firm
    cases firm

section Planned
variable {f : Facility} {within : Option Nat → Error → Error} {d d' : Replica}
  {operations : List Operation} (distinct : (ids (d.records f.path)).Nodup)
include distinct

theorem presentPlanned [PatternEngine] {lines : List Criteria} {ordered : Bool} {position : Nat} {missing : Missing}
    (shape : f.shape = Mode.shapeIf ordered)
    (h : present f within lines ordered position missing d = (.ok operations,d')) :
    Planned f d operations := by
  obtain ⟨records,_,read,p,worked,moves,planned,rfl⟩ := presentEnds.mp h
  obtain ⟨several,items,rfl,-⟩ := snapshotOk read
  have tidy : Tidy f.shape (Removable (d.records f.path)) (handles (lasting (d.records f.path)))
      (handles (lasting (d.records f.path))) p := presentLinesTidy several (.start _) worked
  exact .several several items (tidy.arranged rfl (handlesDistinct (lastingDistinct distinct)) shape
    (handlesExisting _) planned)

theorem replacePlanned [PatternEngine] {lines : List Criteria} {ordered : Bool} {position : Nat}
    (shape : f.shape = Mode.shapeIf ordered)
    (h : replace f within lines ordered position d = (.ok operations,d')) : Planned f d operations := by
  obtain ⟨records,_,same,_,read,-,h⟩ := replaceEnds h
  obtain ⟨several,items,rfl,-⟩ := snapshotOk read
  obtain ⟨-,rfl⟩ | ⟨-,_,p,moves,leave,rebuilt,planned,rfl⟩ := h
  · exact .nothing
  · obtain ⟨gone,rfl,named⟩ := removalsOk leave
    have once := lastingDistinct distinct
    have tidy := replaceLinesTidy several (removalsTidy several once named) rebuilt
    exact .several several items (tidy.arranged rfl
      (handlesDistinct (once.sublist (List.filter_sublist.map _))) shape (handlesExisting _) planned)

end Planned
end RouterReconciler.Reconcile

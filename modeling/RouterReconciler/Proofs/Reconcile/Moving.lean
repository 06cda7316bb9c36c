import RouterReconciler.Proofs.Reconcile.Founded
import RouterReconciler.Proofs.Reconcile.Orderly
import RouterReconciler.Proofs.Reconcile.PresentAgain
import RouterReconciler.Proofs.Reconcile.Turns

/-! What the moves of a plan come from. A task for single records moves each by itself, and only if it does
not stand where it is to go; a task for lines moves one block, after its edits and before its removals, and
counts in it what these leave. -/
namespace RouterReconciler
open Replica Step Reconcile Placement

def MovesSingly (items : List ItemRef) (operations : List Operation) : Prop :=
  ∀ item before, .move item before ∈ operations →
    item ∈ items ∧ (∀ b ∈ before, b ∈ items) ∧ ¬ Precedes items item before

inductive Moving (rs : List Record) : List Operation → Prop
  | singly {operations} (each : MovesSingly (handles (lasting rs)) operations) : Moving rs operations
  | together {first last current block position} (firstStill : MovesNothing first)
      (lastStill : MovesNothing last) (alone : first = [] → last = [] →
        current = handles (lasting rs) ∧ (∀ r ∈ lasting rs, r.id.isSome) ∧ block.Nodup ∧ block ⊆ current) :
      Moving rs (first ++ reposition current block position ++ last)

theorem MovesNothing.none : MovesNothing [] := by simp [MovesNothing]

theorem MovesNothing.singly {items : List ItemRef} {operations : List Operation}
    (h : MovesNothing operations) : MovesSingly items operations := fun item before mem =>
  absurd mem (h item before)

theorem MovesNothing.each {α : Type} {g : α → Operation} (stays : ∀ a item before, g a ≠ .move item before)
    (l : List α) : MovesNothing (l.map g) := by
  intro item before mem
  obtain ⟨a,-,same⟩ := List.mem_map.mp mem
  exact stays a item before same

theorem Moving.still {rs : List Record} {operations : List Operation} (h : MovesNothing operations) :
    Moving rs operations := .singly h.singly

theorem MovesSingly.append {items : List ItemRef} {first second : List Operation}
    (one : MovesSingly items first) (other : MovesSingly items second) :
    MovesSingly items (first ++ second) := fun item before mem =>
  (List.mem_append.mp mem).elim (one item before) (other item before)

namespace Reconcile

theorem repositionSingly {items : List ItemRef} {item : ItemRef} (position : Nat) (distinct : items.Nodup)
    (inside : item ∈ items) : MovesSingly items (reposition items [item] position) := by
  intro moved before mem
  have proper : Proper .ordered (fun _ => True) items (.move moved before) :=
    (movesProper distinct (List.nodup_singleton item)
      (fun x hx => by rwa [List.mem_singleton.mp hx]) (List.Subset.refl items) _ mem).2
  obtain ⟨m,hm,same⟩ := List.mem_map.mp mem
  cases same
  refine ⟨proper.named _ List.mem_cons_self,fun b hb => ?_,(singleMoved distinct inside hm).2⟩
  exact proper.named b (List.mem_cons_of_mem _ (Option.mem_toList.mpr hb))

section Modes
variable {f : Facility} {within : Option Nat → Error → Error} {d d' : Replica}
  {operations : List Operation}

theorem readableRecords (several : f.shape ≠ .singleton) :
    Readable f (· = d) (fun r => Evaluable f d r ∧ r ∈ d.records f.path) where
  all := (readable f d).all
  one := (readable f d).one
  listed := by
    rintro s _ records d' rfl read r mem
    obtain ⟨-,-,selected⟩ := readOk read
    exact ⟨listedEvaluable f _ read r mem,(selectedUnskipped selected mem).1⟩
  single := by
    rintro _ r d' rfl read
    rw [Facility.readOne,if_neg several] at read
    exact absurd read failNotOk
  evaluated known expressions := (readable f d).evaluated known.1 expressions

section Ensure
variable (distinct : (ids (d.records f.path)).Nodup)
include distinct

theorem moveFirstSingly {found : List Record} {position : Option Nat}
    (there : ∀ r ∈ found, r ∈ lasting (d.records f.path))
    (h : moveFirst f found position d = (.ok operations,d')) :
    MovesSingly (handles (lasting (d.records f.path))) operations := by
  cases position with
  | none =>
    obtain ⟨rfl,-⟩ := pureOk.mp h
    exact MovesNothing.none.singly
  | some position =>
    cases found with
    | nil =>
      obtain ⟨rfl,-⟩ := pureOk.mp h
      exact MovesNothing.none.singly
    | cons first rest =>
      simp only [moveFirst,bindOk,liftOk,pureOk] at h
      obtain ⟨id,_,⟨named,rfl⟩,records,_,read,current,_,⟨refs,-⟩,rfl,-⟩ := h
      obtain ⟨-,-,rfl,-⟩ := snapshotOk read
      rw [refsHandles refs]
      exact repositionSingly position (handlesDistinct (lastingDistinct distinct))
        (handleOf (there first List.mem_cons_self) (idOfOk named))

theorem ensureFoundSingly {criteria : Criteria} {found : List Record} {desired : Assignments}
    {position : Option Nat} (there : ∀ r ∈ found, r ∈ lasting (d.records f.path))
    (h : ensureFound f criteria found desired position d = (.ok operations,d')) :
    MovesSingly (handles (lasting (d.records f.path))) operations := by
  unfold ensureFound at h
  split at h
  · exact absurd h failNotOk
  · simp only [bindOk,liftOk,pureOk] at h
    obtain ⟨sets,_,⟨modified,rfl⟩,moves,_,moved,rfl,-⟩ := h
    have settled := modifyAllSettles (fun _ mem => mem) modified
    exact settled.founded.still.singly.append (moveFirstSingly distinct there moved)

theorem ensureOneSingly [PatternEngine] {set : Assignments} {position : Option Nat} {missing : Missing}
    {criteria : Criteria} (h : ensureOne f set position missing criteria d = (.ok operations,d')) :
    MovesSingly (handles (lasting (d.records f.path))) operations := by
  cases ensureOneDone h with
  | settled looked _ done =>
    obtain ⟨still,-,-,there⟩ := findOk looked
    rw [still] at done
    exact ensureFoundSingly distinct there done
  | ignored => exact MovesNothing.none.singly
  | added _ _ _ done =>
    obtain ⟨literals,-,place,-,operation,checked,rfl⟩ := addMissingEnds.mp done
    have added : AllFounded (fun _ => True) [operation] := .one (additionFounded checked)
    exact added.still.singly

theorem ensureEachSingly [PatternEngine] {several : Bool} {set : Assignments} {position : Option Nat}
    {missing : Missing} {index : Nat} {finds : List Criteria}
    (h : ensureEach f within several set position missing index finds d = (.ok operations,d')) :
    MovesSingly (handles (lasting (d.records f.path))) operations := by
  induction finds generalizing index operations with
  | nil =>
    obtain ⟨rfl,-⟩ := pureOk.mp h
    exact MovesNothing.none.singly
  | cons criteria rest ih =>
    obtain ⟨first,_,one,others,later,rfl⟩ := ensureEachNext.mp h
    cases (ensureOneQuiet f d set position missing criteria).state one
    exact (ensureOneSingly distinct one).append (ih later)

theorem moveOnlySingly [PatternEngine] {criteria : Criteria} {position : Nat} {missing : Missing}
    (h : moveOnly f criteria position missing d = (.ok operations,d')) :
    MovesSingly (handles (lasting (d.records f.path))) operations := by
  obtain ⟨records,_,places,_,read,-,⟨-,-,rfl⟩ | ⟨j,current,-,refs,⟨-,rfl⟩ | ⟨item,there,rfl⟩⟩⟩ :=
    moveOnlyEnds h
  · exact MovesNothing.none.singly
  · exact MovesNothing.none.singly
  · obtain ⟨-,-,rfl,-⟩ := snapshotOk read
    rw [refsHandles refs] at there ⊢
    exact repositionSingly position (handlesDistinct (lastingDistinct distinct))
      (List.mem_of_getElem? there)

end Ensure

section Lines
variable {rs survivors : List Record} {shape : Shape} {loose : ItemId → Prop} {live : List ItemRef}
  {p : Progress}

theorem tidyMoving {ordered : Bool} {position : Nat} {moves : List Operation}
    (tidy : Tidy shape loose live (handles survivors) p) (still : MovesNothing p.operations)
    (same : p.operations = [] → survivors = lasting rs)
    (planned : blockMoves ordered survivors p.block position = .ok moves) :
    Moving rs (p.operations ++ moves) := by
  obtain ⟨complete,rfl⟩ := blockMovesOk planned
  cases ordered with
  | false =>
    rw [if_neg (by simp),List.append_nil]
    exact .still still
  | true =>
    rw [if_pos rfl,← List.append_nil (p.operations ++ _)]
    refine .together still .none fun quiet _ => ?_
    have inside : ∀ item ∈ p.block, item ∈ handles survivors := by
      intro item mem
      refine (tidy.block item mem).resolve_right ?_
      rintro ⟨n,-,upper,-⟩
      rw [quiet] at upper
      cases upper
    have noneNew : p.block.filter isAdded = [] := List.filter_eq_nil_iff.mpr fun item mem => by
      simp [handlesExisting _ item (inside item mem)]
    rw [noneNew,List.append_nil,← same quiet]
    exact ⟨rfl,complete rfl,tidy.distinct,inside⟩

theorem presentMoving [PatternEngine] {lines : List Criteria} {ordered : Bool} {position : Nat} {missing : Missing}
    (h : present f within lines ordered position missing d = (.ok operations,d')) :
    Moving (d.records f.path) operations := by
  obtain ⟨records,_,read,p,worked,moves,planned,rfl⟩ := presentEnds.mp h
  have several := (snapshotOk read).1
  have reads := readableRecords (d := d) several
  obtain ⟨known,rfl⟩ := reads.listing _ _ _ _ rfl read
  obtain ⟨-,-,rfl,-⟩ := snapshotOk read
  have founded := (presentLinesFounded reads within missing 0 lines known .none _ _ _ rfl worked).1
  have tidy : Tidy f.shape (fun _ => True) _ _ p := presentLinesTidy several (.start _) worked
  exact tidyMoving tidy founded.still (fun _ => rfl) planned

theorem replaceLinesExtend [PatternEngine] {lines : List Criteria} {index : Nat} {q : Progress}
    (h : replaceLines f within survivors index lines p d = (.ok q,d')) :
    p.operations <+: q.operations := by
  induction lines generalizing index p d with
  | nil =>
    obtain ⟨rfl,-⟩ := pureOk.mp h
    exact List.prefix_refl _
  | cons line rest ih =>
    obtain ⟨m,_,one,later⟩ := replaceLinesNext.mp h
    obtain ⟨first,same,-⟩ := replaceLineAdds one
    refine List.IsPrefix.trans ?_ (ih later)
    rw [same]
    exact List.prefix_append _ _

theorem replaceMoving [PatternEngine] {lines : List Criteria} {ordered : Bool} {position : Nat}
    (distinct : (ids (d.records f.path)).Nodup)
    (h : replace f within lines ordered position d = (.ok operations,d')) :
    Moving (d.records f.path) operations := by
  obtain ⟨records,_,same,_,read,agreed,h⟩ := replaceEnds h
  have several := (snapshotOk read).1
  have reads := readableRecords (d := d) several
  obtain ⟨known,rfl⟩ := reads.listing _ _ _ _ rfl read
  obtain ⟨-,-,rfl,-⟩ := snapshotOk read
  cases (reads.agrees within _ _ _ _).ends rfl agreed
  obtain ⟨-,rfl⟩ | ⟨-,removed,p,moves,leave,rebuilt,planned,rfl⟩ := h
  · exact .still .none
  · have founded := (replaceLinesFounded reads within 0 lines
      (fun r mem => known r (List.mem_filter.mp mem).1) (removalsFounded leave) _ _ _ rfl rebuilt).1
    obtain ⟨gone,rfl,named⟩ := removalsOk leave
    have tidy := replaceLinesTidy several (removalsTidy several (lastingDistinct distinct) named) rebuilt
    refine tidyMoving tidy founded.still (fun quiet => ?_) planned
    have none := replaceLinesExtend rebuilt
    rw [quiet,List.prefix_nil,List.map_eq_nil_iff] at none
    rw [none,List.map_nil,ids,eq_comm,List.map_eq_nil_iff,List.filter_eq_nil_iff] at named
    exact List.filter_eq_self.mpr fun r hr => by simpa using named r hr

end Lines

theorem adjustMoving {lines : List Criteria} {keys : List String} {ordered : Bool} {position : Nat}
    (distinct : (ids (d.records f.path)).Nodup)
    (h : adjust f within lines keys ordered position d = (.ok operations,d')) :
    Moving (d.records f.path) operations := by
  obtain ⟨items,-,planned⟩ := adjustOk h
  have once := lastingDistinct distinct
  obtain ⟨found,gone,kept,-,all,places,goneNamed,named,rfl⟩ := adjustPlan once planned
  have slotted : Slotted (d.records f.path) keys lines found gone :=
    ⟨distinct,all,keptDistinct once all places,goneNamed⟩
  have edits : MovesNothing (slotEdits found) := fun item before mem => by cases slotsEdit _ mem
  have removals : MovesNothing (gone.map Operation.remove) := .each (fun _ _ _ => by simp) gone
  cases ordered with
  | false =>
    rw [if_neg (by simp),List.append_nil]
    exact .singly (edits.singly.append removals.singly)
  | true =>
    refine .together edits removals fun quiet none => ?_
    rw [slotEdits,List.append_eq_nil_iff] at quiet
    rw [List.map_eq_nil_iff] at none
    rw [none,List.map_nil,ids,eq_comm,List.map_eq_nil_iff,List.filter_eq_nil_iff] at goneNamed
    have keepsAll : (lasting (d.records f.path)).filter (fun r => !isGivenUp found r) =
        lasting (d.records f.path) := List.filter_eq_self.mpr fun r hr => by simpa using goneNamed r hr
    have current := handlesNamed named
    rw [keepsAll] at current
    rw [quiet.1,List.length_nil,List.range_zero,List.map_nil,List.append_nil,← current]
    refine ⟨rfl,?_,blockOfDistinct slotted.once,fun item mem => ?_⟩
    · rw [keepsAll] at named
      exact namesComplete named
    · have inside : item ∈ kept.map .existing ++
        (arrivals 0 0 (slotEdits found)).map (fun a => ItemRef.added a.1) := slotted.named named item mem
      rw [← slotReferences,quiet.1] at inside
      simpa [current] using inside

end Modes

theorem planMoving [PatternEngine] {t : FacilityTask} {d d' : Replica} {plan : Plan}
    (distinct : (ids (d.records t.path)).Nodup) (h : t.plan d = (.ok plan,d')) :
    Moving (d.records t.path) plan.operations := by
  have planned := mapErrorOk.mp h
  obtain ⟨path,mode⟩ := t
  cases mode with
  | configure values =>
    obtain ⟨current,-,changes,-,written⟩ := configureEnds.mp (writingOk planned).1
    rcases modificationOk written with ⟨same,-⟩ | ⟨same,-⟩ <;> rw [same]
    · exact .still .none
    · exact .still (by simp [MovesNothing])
  | ensure finds set position missing => exact .singly (ensureEachSingly distinct (writingOk planned).1)
  | present lines ordered position missing => exact presentMoving (writingOk planned).1
  | absent targets =>
    have planned := (writingOk planned).1
    simp only [absent,bindOk,pureOk] at planned
    obtain ⟨names,_,-,same,-⟩ := planned
    rw [← same]
    exact .still (.each (fun _ _ _ => by simp) names)
  | toggle targets enable =>
    have planned := (writingOk planned).1
    simp only [toggle,bindOk,pureOk] at planned
    obtain ⟨names,_,-,same,-⟩ := planned
    rw [← same]
    exact .still (.each (fun _ _ _ => by cases enable <;> simp) names)
  | move criteria position missing => exact .singly (moveOnlySingly distinct (writingOk planned).1)
  | replace lines ordered position => exact replaceMoving distinct (writingOk planned).1
  | adjust lines keys ordered position => exact adjustMoving distinct (writingOk planned).1
  | findOnly targets position | count criteria | check lines ordered position | extract e =>
    rw [(planReads rfl planned).2]
    exact .still .none

end Reconcile
end RouterReconciler

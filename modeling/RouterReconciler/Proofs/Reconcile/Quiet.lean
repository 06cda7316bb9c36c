import RouterReconciler.Device.Replica
import RouterReconciler.Proofs.Reconcile.Reads

/-! Planning on a replica only reads: whatever the mode, and whether it ends in a plan or in an
error, the replica afterwards is the one before. -/
namespace RouterReconciler

def Quiet {ε σ α : Type} (x : Step ε σ α) (d : σ) : Prop := (x d).2 = d

theorem Keeps.quiet {ε σ α : Type} {x : Step ε σ α} {d : σ} (h : Keeps (· = d) x) : Quiet x d := h d rfl

theorem Quiet.keeps {ε σ α : Type} {x : Step ε σ α} {d : σ} (h : Quiet x d) : Keeps (· = d) x := by
  rintro _ rfl
  exact h

theorem Quiet.state {ε σ α : Type} {x : Step ε σ α} {d s : σ} (hx : Quiet x d) {answer : Except ε α}
    (h : x d = (answer,s)) : s = d := by
  unfold Quiet at hx
  rw [h] at hx
  exact hx

namespace Reconcile
open Replica
variable (f : Facility) (d : Replica)

/-- Looking up a record makes the facility when it is not there, so an evaluation is quiet only for
a record that was read from it. -/
def Evaluable (r : Record) : Prop :=
  r.id = none ∨ f.shape = .singleton ∨ (d.facilities.get? f.path.text).isSome

theorem readQuiet (s : Selector) : Quiet (f.read s) d := by
  refine Keeps.quiet (.after (.lift _) fun _ => Quiet.keeps ?_)
  show (Replica.read f.path s d).2 = d
  unfold Replica.read
  split <;> rfl

theorem readOneQuiet : Quiet f.readOne d := by
  unfold Facility.readOne
  split
  · refine Keeps.quiet (.liftStep (Quiet.keeps ?_))
    show (Replica.readOne f.path d).2 = d
    unfold Replica.readOne
    split <;> rfl
  · exact (Keeps.fail _).quiet

theorem locateQuiet (id : ItemId) (there : (d.facilities.get? f.path.text).isSome) :
    Quiet (locate f.path id) d := by
  have listed : Quiet (items f.path) d := by
    obtain ⟨store,found⟩ := Option.isSome_iff_exists.mp there
    cases store <;> simp [Quiet,items,found]
  refine Keeps.quiet (.after listed.keeps fun rs => ?_)
  split
  · exact .pure _
  · exact .fail _

theorem evaluateQuiet {r : Record} (h : Evaluable f d r) (expressions : List (String × String)) :
    Quiet (f.evaluate r.id expressions) d := by
  have reading : ∀ item : Option ItemId,
      (item = none ∨ (d.facilities.get? f.path.text).isSome) →
      Quiet (Device.evaluate f.path item expressions) d := by
    intro item ready
    refine Keeps.quiet (.liftStep (Quiet.keeps ?_))
    show Quiet (Replica.evaluate f.path item expressions) d
    unfold Replica.evaluate
    cases item with
    | none =>
      refine Keeps.quiet (.after (Quiet.keeps ?_) fun _ => .lift _)
      unfold Quiet Replica.readOne
      split <;> rfl
    | some id =>
      refine Keeps.quiet (.after (locateQuiet f d id (ready.resolve_left (by simp))).keeps
        fun found => ?_)
      obtain ⟨rs,i⟩ := found
      simp only
      split
      · exact .lift _
      · exact .fail _
  unfold Facility.evaluate
  cases named : r.id with
  | none => exact reading none (.inl rfl)
  | some id =>
    refine Keeps.quiet (.bind (.lift _) fun _ _ _ same passed => ?_)
    cases same
    have several : f.shape ≠ .singleton := fun single => by
      simp [Facility.requireItems,single] at passed
    exact (reading _ (.inr ((h.resolve_left (by simp [named])).resolve_left several))).keeps

theorem listedEvaluable {s : Selector} {records : List Record} {d' : Replica}
    (h : f.read s d = (.ok records,d')) : ∀ r ∈ records, Evaluable f d r := by
  obtain ⟨_,m,passed,read⟩ := Step.bindOk.mp h
  obtain ⟨-,rfl⟩ := Step.liftOk.mp passed
  intro r mem
  refine .inr (.inr ?_)
  cases there : d.facilities.get? f.path.text with
  | some store => rfl
  | none =>
    have read : Replica.read f.path s d = (.ok records,d') := read
    simp only [Replica.read,there] at read
    cases read
    cases mem

theorem singleEvaluable {r : Record} {d' : Replica} (h : f.readOne d = (.ok r,d')) :
    Evaluable f d r := by
  by_cases single : f.shape = .singleton
  · exact .inr (.inl single)
  · rw [Facility.readOne,if_neg single] at h
    exact absurd h Step.failNotOk

theorem readable : Readable f (· = d) (Evaluable f d) where
  all s := (readQuiet f d s).keeps
  one := (readOneQuiet f d).keeps
  listed same read := listedEvaluable f d (same ▸ read)
  single same read := singleEvaluable f d (same ▸ read)
  evaluated known expressions := (evaluateQuiet f d known expressions).keeps

theorem findIdsQuiet (s : Selector) : Quiet (f.findIds s) d := ((readable f d).findIds s).quiet

theorem snapshotQuiet : Quiet (snapshot f) d := readQuiet f d _

theorem placeAtQuiet (position : Option Nat) : Quiet (placeAt f position) d :=
  ((readable f d).placeAt position).quiet

variable [PatternEngine]

theorem findQuiet (criteria : Criteria) : Quiet (find f criteria) d :=
  ((readable f d).find criteria).quiet

theorem ensureOneQuiet (set : Assignments) (position : Option Nat) (missing : Missing)
    (criteria : Criteria) : Quiet (ensureOne f set position missing criteria) d :=
  ((readable f d).ensureOne set position missing criteria).quiet

theorem presentLineQuiet (records : List Record) (missing : Missing) (line : Criteria)
    (p : Progress) : Quiet (presentLine f records missing line p) d :=
  ((readable f d).presentLine records missing line p).quiet

end Reconcile

theorem planQuiet [PatternEngine] (t : FacilityTask) (d : Replica) : Quiet (FacilityTask.plan t) d :=
  (t.planKeeps (Reconcile.readable t.facility d)).quiet

end RouterReconciler

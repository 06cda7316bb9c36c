import RouterReconciler.Proofs.Reconcile.AdjustAgain
import RouterReconciler.Proofs.Reconcile.PresentAgain
import RouterReconciler.Proofs.Reconcile.Replace

/-! Aligning without an order, twice. The new records stand at the end, where a line looks last, and what
has been written changes nothing that lines look at: so every line claims its record again, and nothing is
left to do. -/
namespace RouterReconciler
open Step Replica Reconcile Text

section
variable [PatternEngine]

namespace Aligns
variable {lines : List Criteria} {ordered : Bool} {position : Nat} {mode : Mode} {a : Alignment}
  (aligns : Aligns lines ordered position mode a)
include aligns

theorem several : mode.shape ≠ .singleton := by
  cases aligns <;> cases ordered <;> simp [Mode.shape,Mode.shapeIf]

variable {f : Facility} {within : Option Nat → Error → Error} {d d' : Replica} {plan : Plan}
  (concrete : ∀ line ∈ lines, line.Concrete)
include concrete

theorem laid (distinct : (ids (d.records f.path)).Nodup)
    (h : planMode f within mode d = (.ok plan,d')) : d.HasItems f.path ∧ ∃ p gone,
      Laid a (lasting (d.records f.path)) lines ordered position p gone plan.operations := by
  cases aligns with
  | present missing =>
    obtain ⟨items,p,laid⟩ := presentLaid concrete distinct (writingOk h).1
    exact ⟨items,p,[],laid⟩
  | adjust keys => exact adjustLaid concrete distinct (writingOk h).1

variable {before before' : Replica} {first : Plan} {block : List Record}
  (planned : planMode f within mode before = (.ok first,before')) (several : f.shape ≠ .singleton)
  (items : d.HasItems f.path) (rests : Rests a (lasting (d.records f.path)) lines ordered block)
  (fit : List.Forall₂ (fun line r => a.fits line r = true) lines block)
  (claims : Claims a.ends (lasting (d.records f.path)) [] lines block)
include planned several items rests fit claims

theorem again (clear : ¬a.jams lines (lasting (d.records f.path))) :
    planMode f within mode d = (.ok (.ofOperations f (if ordered then
      reposition (handles (lasting (d.records f.path))) (handles block) position else [])),d) := by
  cases aligns with
  | present missing => exact writingDone (presentAgain several items concrete rests claims clear)
  | adjust keys =>
    obtain ⟨-,apart,-⟩ := adjustOk (writingOk planned).1
    exact writingDone (adjustAgain several items apart rests claims fit)

theorem jammed (jam : a.jams lines (lasting (d.records f.path))) :
    planMode f within mode d = (.error .brokenOff,d) := by
  cases aligns with
  | present missing => exact writingEnds (presentBreaks several items concrete rests claims jam)
  | adjust keys => cases jam

omit planned several items rests fit claims concrete in
theorem narrows (line : Criteria) (r : Record) (h : a.fits line r = true) : a.ends line r = true := by
  cases aligns with
  | present missing => exact h
  | adjust keys => exact keysMeetEnd h

end Aligns

/-- A live run that aligns without an order and succeeds. Every line claims a record of its own on which
nothing is left to be written; planned again, the task has nothing to do. A plan of presence breaks off
instead if a line has a value that cannot be compared with what a record holds afterwards. -/
theorem unorderedSettles {τ : Type} [FileTransfer Replica τ] {options : RunOptions}
    {path : FacilityPath} {lines : List Criteria} {position : Nat} {mode : Mode} {a : Alignment}
    {s s' : Session Replica τ} {outcome : Outcome} (aligns : Aligns lines false position mode a)
    (sound : s.device.Sound) (concrete : ∀ line ∈ lines, line.Concrete)
    (live : options.dryRun = false)
    (ran : Session.runTask options (.facility ⟨path,mode⟩) s = (.ok outcome,s'))
    (succeeded : outcome.failed = false) (word : s'.device.nextId ≤ maxWord64) :
    (∃ block, Claims a.fits (lasting (s'.device.records path)) [] lines block ∧
      List.Forall₂ a.settled lines block) ∧
    (¬a.jams lines (lasting (s'.device.records path)) → FacilityTask.plan ⟨path,mode⟩ s'.device =
      (.ok (.ofOperations ⟨path,mode.shape⟩ []),s'.device)) ∧
    (a.jams lines (lasting (s'.device.records path)) →
      FacilityTask.plan ⟨path,mode⟩ s'.device = (.error .brokenOff,s'.device)) := by
  obtain ⟨plan,planned,⟨added,reached⟩,away⟩ := Session.liveRun live aligns.several ran succeeded
  have first := mapErrorOk.mp planned
  have distinct := sound.records path
  obtain ⟨items,p,gone,laid⟩ := aligns.laid concrete distinct first
  obtain ⟨block,rests,fit,claims⟩ := laid.unordered distinct
    (fun n lower upper => sound.unused items lower upper) word reached
  refine ⟨⟨block,claims.narrow aligns.narrows fit,rests.settled⟩,fun clear => ?_,fun jam => ?_⟩
  · exact mapErrorOk.mpr (aligns.again concrete first aligns.several (away.items items) rests fit claims clear)
  · exact FacilityTask.planBreaks
      (aligns.jammed concrete first aligns.several (away.items items) rests fit claims jam)

end

open scoped Pattern

theorem unorderedSettlesPools :
    (∃ outcome after, poolRun (.present [poolLine "new",poolLine "lan"] false 1 .add) =
        (.ok outcome,after) ∧ outcome.failed = false ∧
      ¬Clash [poolLine "new",poolLine "lan"] (lasting (after.device.records ⟨"/ip pool"⟩)) ∧
      (∃ block, Claims Alignment.present.fits (lasting (after.device.records ⟨"/ip pool"⟩)) []
          [poolLine "new",poolLine "lan"] block ∧
        List.Forall₂ Alignment.present.settled [poolLine "new",poolLine "lan"] block) ∧
      FacilityTask.plan ⟨⟨"/ip pool"⟩,.present [poolLine "new",poolLine "lan"] false 1 .add⟩
        after.device = (.ok (.ofOperations ⟨⟨"/ip pool"⟩,.unordered⟩ []),after.device)) ∧
    ∃ outcome after, poolRun (.adjust [poolLine "new",poolLine "lan"] ["name"] false 1) =
        (.ok outcome,after) ∧ outcome.failed = false ∧
      (∃ block, Claims (Alignment.adjust ["name"]).fits (lasting (after.device.records ⟨"/ip pool"⟩)) []
          [poolLine "new",poolLine "lan"] block ∧
        List.Forall₂ (Alignment.adjust ["name"]).settled [poolLine "new",poolLine "lan"] block) ∧
      FacilityTask.plan ⟨⟨"/ip pool"⟩,.adjust [poolLine "new",poolLine "lan"] ["name"] false 1⟩
        after.device = (.ok (.ofOperations ⟨⟨"/ip pool"⟩,.unordered⟩ []),after.device) := by
  have concrete : ∀ line ∈ [poolLine "new",poolLine "lan"], line.Concrete := by
    simp [(poolLinePlain _).concrete]
  constructor
  · have clear : ¬Clash [poolLine "new",poolLine "lan"] (lasting
        ((poolRun (.present [poolLine "new",poolLine "lan"] false 1 .add)).2.device.records ⟨"/ip pool"⟩)) := by
      decide +kernel
    obtain ⟨outcome,after,ran,succeeded,word⟩ :=
      poolRan (.present [poolLine "new",poolLine "lan"] false 1 .add) (by decide +kernel)
    rw [ran] at clear
    obtain ⟨claimed,quiet,-⟩ := unorderedSettles (.present _) poolsSound concrete rfl ran succeeded word
    exact ⟨outcome,after,ran,succeeded,clear,claimed,quiet clear⟩
  · obtain ⟨outcome,after,ran,succeeded,word⟩ :=
      poolRan (.adjust [poolLine "new",poolLine "lan"] ["name"] false 1) (by decide +kernel)
    obtain ⟨claimed,quiet,-⟩ := unorderedSettles (.adjust _) poolsSound concrete rfl ran succeeded word
    exact ⟨outcome,after,ran,succeeded,claimed,quiet id⟩

-- The records that are there for these lines can be judged by none of them.
theorem leasesUnclaimed : (∀ line ∈ leaseLines, line.Concrete) ∧
    FacilityTask.make ⟨"/ip pool"⟩ (.present leaseLines false 1 .add) =
      .ok ⟨⟨"/ip pool"⟩,.present leaseLines false 1 .add⟩ ∧
    ∃ outcome after, poolRun (.present leaseLines false 1 .add) = (.ok outcome,after) ∧
      outcome.failed = false ∧
      (FacilityTask.plan ⟨⟨"/ip pool"⟩,.present leaseLines false 1 .add⟩ after.device).1 =
        .error .brokenOff := by
  have broken : (FacilityTask.plan ⟨⟨"/ip pool"⟩,.present leaseLines false 1 .add⟩
      (poolRun (.present leaseLines false 1 .add)).2.device).1 = .error .brokenOff := by decide +kernel
  obtain ⟨outcome,after,ran,succeeded,-⟩ := poolRan (.present leaseLines false 1 .add) (by decide +kernel)
  rw [ran] at broken
  exact ⟨fun line mem => (leaseLinesPlain line mem).concrete,rfl,outcome,after,ran,succeeded,broken⟩

end RouterReconciler

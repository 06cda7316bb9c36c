import RouterReconciler.Proofs.Reconcile.Judgeable
import RouterReconciler.Proofs.Run.Live

/-! An ordered check against what it is to tell. It passes exactly where the removable records are those from
the position on, one for each line and fitting it, though lines claim as they come and may fit several
records. Where the position is held against the end of the snapshot, there are as many records as lines. -/
namespace RouterReconciler
open Step

section
variable [PatternEngine]

theorem Criteria.judgeableIff {line : Criteria} : line.Judgeable ↔
    (Selector.ofCriteria line).isOk = true ∧ line.hasRaw = false ∧ line.namesDefault = false := by
  constructor
  · rintro ⟨⟨s,read⟩,onHand,nameless⟩
    exact ⟨by rw [read]; rfl,onHand,nameless⟩
  · rintro ⟨read,onHand,nameless⟩
    cases found : Selector.ofCriteria line with
    | ok s => exact ⟨⟨s,found⟩,onHand,nameless⟩
    | error e => rw [found] at read; cases read

instance (line : Criteria) : Decidable line.Judgeable := decidable_of_iff' _ Criteria.judgeableIff

namespace Reconcile
variable {σ : Type} [Device σ] {f : Facility} {within : Option Nat → Error → Error} {d d' : σ}
  {records : List Record}

theorem selectPlaces {criteria : Criteria} {places : List Nat}
    (h : select f records criteria d = (.ok places,d')) : ∃ p, places = placesWhere p 0 records := by
  simp only [select,bindOk,liftOk] at h
  obtain ⟨s,_,-,h⟩ := h
  split at h
  · obtain ⟨found,-⟩ := liftOk.mp h
    refine ⟨fun r => (s.excludingDynamic.matches? r).toOption.getD false,
      hitsPlaces (fun r _ hit judged => ?_) found⟩
    rw [judged]
    rfl
  · simp only [bindOk,pureOk] at h
    obtain ⟨names,_,-,rfl,-⟩ := h
    exact ⟨_,placesOfWhere names 0 records⟩

theorem claimsApart {index : Nat} {lines : List Criteria} {claimed slots : List Nat}
    (h : claims f within records index lines claimed d = (.ok (some slots),d')) :
    slots.length = lines.length ∧ slots.Nodup ∧ ∀ j ∈ slots, j < records.length ∧ j ∉ claimed := by
  induction lines generalizing index claimed slots d with
  | nil =>
    obtain ⟨same,-⟩ := pureOk.mp h
    cases same
    exact ⟨rfl,List.nodup_nil,by simp⟩
  | cons line rest ih =>
    simp only [claims,bindOk,mapErrorOk] at h
    obtain ⟨places,m,picked,h⟩ := h
    obtain ⟨p,rfl⟩ := selectPlaces picked
    cases found : claim records claimed (placesWhere p 0 records) line.splitDefault?.isSome with
    | none =>
      simp only [found,pureOk] at h
      cases h.1
    | some j =>
      simp only [found] at h
      simp only [bindOk,pureOk] at h
      obtain ⟨found',_,later,same,rfl⟩ := h
      obtain ⟨others,rfl,rfl⟩ := Option.map_eq_some_iff.mp same
      obtain ⟨size,apart,free⟩ := ih later
      obtain ⟨r,there,-⟩ := memPlacesWhere.mp (List.mem_of_find?_eq_some found)
      have bound : j < records.length := (List.getElem?_eq_some_iff.mp there).1
      have loose : j ∉ claimed := by
        have passed := List.find?_some found
        simp only [Bool.and_eq_true,Bool.not_eq_true',List.contains_eq_mem,
          decide_eq_false_iff_not] at passed
        exact passed.1
      refine ⟨by rw [List.length_cons,List.length_cons,size],
        List.nodup_cons.mpr ⟨fun mem => (free j mem).2 List.mem_cons_self,apart⟩,fun i mem => ?_⟩
      rcases List.mem_cons.mp mem with rfl | mem
      · exact ⟨bound,loose⟩
      · exact ⟨(free i mem).1,fun old => (free i mem).2 (List.mem_cons_of_mem _ old)⟩

def ReachesEnd (f : Facility) (within : Option Nat → Error → Error) (records : List Record)
    (lines : List Criteria) (d : σ) : Prop :=
  ∃ slots d', claims f within records 0 lines [] d = (.ok (some slots),d') ∧
    leavesExtra slots 0 records = false

theorem ReachesEnd.enough {lines : List Criteria} (h : ReachesEnd f within records lines d) :
    lines.length ≤ records.length := by
  obtain ⟨slots,_,found,-⟩ := h
  obtain ⟨size,apart,free⟩ := claimsApart found
  have inside : slots ⊆ List.range records.length := fun j mem => List.mem_range.mpr (free j mem).1
  have few := (List.subperm_of_subset apart inside).length_le
  rwa [size,List.length_range] at few

theorem describesOrdered {lines : List Criteria} {position : Nat} :
    describes records lines true position = true ↔
      Lined records lines (min (position - 1) (records.length - lines.length)) := by
  rw [describesIff,linedIff]
  constructor
  · rintro ⟨slots,found,covers,place⟩
    cases place rfl
    exact ⟨found,covers⟩
  · exact fun ⟨found,covers⟩ => ⟨_,found,covers,fun _ => rfl⟩

theorem checkPlan {path : FacilityPath} {lines : List Criteria} {ordered : Bool} {position : Nat}
    (judgeable : ∀ line ∈ lines, line.Judgeable)
    (seen : snapshot ⟨path,Mode.shapeIf ordered⟩ d = (.ok records,d')) :
    FacilityTask.plan ⟨path,.check lines ordered position⟩ d =
      ((verdict records lines ordered position).map fun same =>
        { Plan.ofOperations ⟨path,Mode.shapeIf ordered⟩ [] with drift := !same },d') := by
  have checked (within : Option Nat → Error → Error) :
      check ⟨path,Mode.shapeIf ordered⟩ within lines ordered position d =
        (verdict records lines ordered position,d') := by
    rw [check,bindAfter seen,agreesJudgeable judgeable]
  cases told : verdict records lines ordered position with
  | ok same => exact mapErrorOk.mpr ((bindAfter (told ▸ checked _) _).trans rfl)
  | error e =>
    obtain ⟨rfl,-⟩ := verdictError told
    exact FacilityTask.planBreaks (bindFailed (told ▸ checked _) _)

end Reconcile
open Reconcile

/-- The verdict of an ordered check, as a function of the snapshot and as a task. There is none only where the
judgement of a line on a record breaks off, and never for a match. -/
theorem orderedCheckExact {σ : Type} [Device σ] (records : List Record) (lines : List Criteria)
    (position : Nat) :
    ((∀ line ∈ lines, line.Judgeable) → ∃ told : Judgement Bool,
      (told = .ok true ↔ Lined records lines (min (position - 1) (records.length - lines.length)) ∧
        ¬Clash lines records) ∧
      (told = .ok false → ¬Lined records lines (min (position - 1) (records.length - lines.length))) ∧
      (∀ e, told = .error e → e = .brokenOff ∧ Clash lines records) ∧
      (∀ f within (d : σ), agrees f within records lines true position d = (told,d)) ∧
      ∀ path (d d' : σ), snapshot ⟨path,.ordered⟩ d = (.ok records,d') →
        FacilityTask.plan ⟨path,.check lines true position⟩ d = (told.map fun same =>
          { Plan.ofOperations ⟨path,.ordered⟩ [] with drift := !same },d')) ∧
    ∀ f within (d : σ), ReachesEnd f within records lines d → lines.length ≤ records.length := by
  refine ⟨fun judgeable => ⟨verdict records lines true position,?_,fun failed lined => ?_,fun e => verdictError,
    fun f within d => agreesJudgeable judgeable,fun path d d' seen => checkPlan judgeable seen⟩,
    fun f within d reached => reached.enough⟩
  · rw [verdictPasses,describesOrdered]
  · cases (verdictTold failed).symm.trans (describesOrdered.mpr lined)

end

def listRecords : List Record := [
  ⟨some "*1",Entries.ofList [("name",.str "all"),("builtin",.bool true)]⟩,
  ⟨some "*2",Entries.ofList [("name",.str "LAN")]⟩,⟨some "*3",Entries.ofList [("name",.str "WAN")]⟩,
  ⟨some "*4",Entries.ofList [("name",.str "none"),("builtin",.bool true)]⟩]

def lists : Replica := ⟨Entries.ofList [("/interface list",.items listRecords)],5,[],0,none⟩

def listLines : List Criteria :=
  [Entries.ofList [("name",.matchesPattern "AN$")],Entries.ofList [("name",.literal (.str "WAN"))]]

open Reconcile
open scoped Pattern

theorem orderedCheckExactLists :
    (∀ line ∈ listLines, line.Judgeable) ∧
    snapshot ⟨⟨"/interface list"⟩,.ordered⟩ lists = (.ok listRecords,lists) ∧
    Lined listRecords listLines 1 ∧ ¬Clash listLines listRecords ∧
    ∃ plan, FacilityTask.plan ⟨⟨"/interface list"⟩,.check listLines true 2⟩ lists = (.ok plan,lists) ∧
      plan.drift = false := by
  have judgeable : ∀ line ∈ listLines, line.Judgeable := by decide +kernel
  have seen : snapshot ⟨⟨"/interface list"⟩,.ordered⟩ lists = (.ok listRecords,lists) := by rfl
  obtain ⟨told,matched,-,-,agreed,planned⟩ :=
    (orderedCheckExact (σ := Replica) listRecords listLines 2).1 judgeable
  have passed : (agrees ⟨⟨"/interface list"⟩,.ordered⟩ (fun _ e => e) listRecords listLines true 2
      lists).1 = .ok true := by decide +kernel
  rw [agreed] at passed
  cases passed
  obtain ⟨lined,clear⟩ := matched.mp rfl
  exact ⟨judgeable,seen,lined,clear,_,planned _ _ _ seen,rfl⟩

-- Each line has its record in its place, but the second cannot be held against the first record.
theorem linedUntold : (∀ line ∈ [poolLine "é00:00:01",clockLine], line.Judgeable) ∧
    snapshot ⟨⟨"/ip pool"⟩,.ordered⟩ clocks = (.ok (clocks.records ⟨"/ip pool"⟩),clocks) ∧
    Lined (clocks.records ⟨"/ip pool"⟩) [poolLine "é00:00:01",clockLine] 0 ∧
    (FacilityTask.plan ⟨⟨"/ip pool"⟩,.check [poolLine "é00:00:01",clockLine] true 1⟩ clocks).1 =
      .error .brokenOff := by
  have described : describes (clocks.records ⟨"/ip pool"⟩) [poolLine "é00:00:01",clockLine] true 1 = true := by
    decide +kernel
  exact ⟨by decide +kernel,by rfl,describesOrdered.mp described,by decide +kernel⟩

end RouterReconciler

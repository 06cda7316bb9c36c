import RouterReconciler.Proofs.Reconcile.Checks

/-! Lines without an order against the assignments of records to lines. A check passes, and a present task
adds nothing, exactly where every line finds a record in turn; so only where each line can have a record of
its own. That this suffices holds of nested lines, and not in general: a line may take the one record that a
later line could have had. -/
namespace RouterReconciler
open Step

section
variable [PatternEngine]

namespace Reconcile

def Matched (records : List Record) (lines : List Criteria) : Prop :=
  ∃ slots, Assigned claimable records lines slots ∧ Covers isRemovable records slots

section
variable {records : List Record} {lines : List Criteria} {position : Nat}

theorem describesUnordered : describes records lines false position = true ↔
    ∃ slots, FirstFit claimable records [] lines slots ∧ Covers isRemovable records slots := by
  rw [describesIff]
  simp

theorem describesMatched (passed : describes records lines false position = true) :
    Matched records lines := by
  obtain ⟨slots,found,covers⟩ := describesUnordered.mp passed
  exact ⟨slots,found.assigned.1,covers⟩

theorem matchedDescribes (nested : Nested claimable records lines) (matched : Matched records lines) :
    describes records lines false position = true := by
  obtain ⟨slots,assigned,covers⟩ := matched
  have free : ∀ j ∈ slots, j ∉ ([] : List Nat) := by simp
  obtain ⟨others,found⟩ := nested.firstFit assigned free
  exact describesUnordered.mpr ⟨others,found,assigned.covers
    (fun line r fits => (Bool.and_eq_true_iff.mp fits).2) covers found.assigned.1⟩

theorem Matched.reorder {others : List Criteria} (same : others.Perm lines)
    (matched : Matched records lines) : Matched records others := by
  obtain ⟨slots,assigned,covers⟩ := matched
  obtain ⟨moved,order,again⟩ := assigned.reorder same
  exact ⟨moved,again,fun j r there removable => order.mem_iff.mpr (covers j r there removable)⟩

theorem Matched.selected (matched : Matched records lines) :
    ∃ slots, Assigned selects records lines slots := by
  obtain ⟨slots,assigned,-⟩ := matched
  refine ⟨slots,assigned.fit.imp fun line j ⟨r,there,fits⟩ => ⟨r,there,?_⟩,assigned.apart⟩
  obtain ⟨met,removable⟩ := Bool.and_eq_true_iff.mp fits
  rw [selects,met,removableLasts removable]
  rfl

end

section
variable {σ : Type} [Device σ] {f : Facility} {within : Option Nat → Error → Error} {d d' : σ}
  {records : List Record} {missing : Missing}

theorem takesFree {line : Criteria} {claimed : List Nat} {j : Nat} :
    (placesWhere (selects line) 0 records).find? (fun j => !claimed.contains j) = some j ↔
      Takes (selects line) records claimed j := Takes.search fun _ _ _ => by simp

theorem presentLineTakes {line : Criteria} {p p' : Progress} (judgeable : line.Judgeable)
    (h : presentLine f records missing line p d = (.ok p',d')) : d' = d ∧
      ((∃ j, Takes (selects line) records p.claimed j ∧ p'.claimed = j :: p.claimed ∧
          p'.operations = p.operations) ∨
        ((∀ j, ¬Takes (selects line) records p.claimed j) ∧
          ∃ values, p'.operations = p.operations ++ [.add values none])) := by
  cases presentLineDone h with
  | factory split => cases judgeable.split.symm.trans split
  | ignored split => cases judgeable.split.symm.trans split
  | astray _ picked free away =>
    obtain ⟨rfl,rfl⟩ := selectTold judgeable.legible picked
    obtain ⟨r,there,-⟩ := (takesFree.mp free).fit
    cases away.symm.trans there
  | claimed _ picked free =>
    obtain ⟨rfl,rfl⟩ := selectTold judgeable.legible picked
    exact ⟨rfl,.inl ⟨_,takesFree.mp free,rfl,rfl⟩⟩
  | added _ picked spent =>
    obtain ⟨rfl,rfl⟩ := selectTold judgeable.legible picked
    refine ⟨rfl,.inr ⟨fun j takes => ?_,_,rfl⟩⟩
    cases spent.symm.trans (takesFree.mpr takes)

theorem presentLinesTake {index : Nat} {lines : List Criteria} {p p' : Progress}
    (judgeable : ∀ line ∈ lines, line.Judgeable)
    (h : presentLines f within records missing index lines p d = (.ok p',d')) : d' = d ∧
      ∃ news, p'.operations = p.operations ++ news ∧
        (AddsNothing news ↔ ∃ slots, FirstFit selects records p.claimed lines slots) := by
  induction lines generalizing index p d with
  | nil =>
    obtain ⟨rfl,rfl⟩ := pureOk.mp h
    exact ⟨rfl,[],by simp,fun _ => ⟨[],.done _⟩,fun _ => by simp [AddsNothing]⟩
  | cons line rest ih =>
    obtain ⟨m,_,one,later⟩ := presentLinesNext.mp h
    obtain ⟨here,others⟩ := List.forall_mem_cons.mp judgeable
    obtain ⟨rfl,⟨j,takes,claimed,same⟩ | ⟨unfit,values,added⟩⟩ := presentLineTakes here one
    · obtain ⟨rfl,news,whole,told⟩ := ih others later
      refine ⟨rfl,news,by rw [whole,same],told.trans ⟨?_,?_⟩⟩ <;> rw [claimed]
      · exact fun ⟨slots,found⟩ => ⟨j :: slots,.line takes found⟩
      · rintro ⟨_,_ | ⟨again,found⟩⟩
        cases takes.unique again
        exact ⟨_,found⟩
    · obtain ⟨rfl,news,whole,-⟩ := ih others later
      refine ⟨rfl,.add values none :: news,by rw [whole,added,List.append_assoc]; rfl,?_,?_⟩
      · exact fun nothing => absurd List.mem_cons_self (nothing values none)
      · rintro ⟨_,_ | ⟨takes,-⟩⟩
        exact absurd takes (unfit _)

theorem presentLinesDone {index : Nat} {lines : List Criteria} {p : Progress} {slots : List Nat}
    (judgeable : ∀ line ∈ lines, line.Judgeable)
    (named : ∀ r ∈ records, r.id.isSome) (clear : ¬Clash lines records)
    (found : FirstFit selects records p.claimed lines slots) : ∃ p', presentLines f within records missing index lines p d = (.ok p',d) := by
  induction lines generalizing index p slots with
  | nil => exact ⟨p,rfl⟩
  | cons line rest ih =>
    obtain ⟨here,others⟩ := List.forall_mem_cons.mp judgeable
    obtain ⟨apart,clear⟩ := not_or.mp (mt clashCons.mpr clear)
    cases found with
    | @line _ _ j _ slots takes later =>
      obtain ⟨r,there,-⟩ := takes.fit
      obtain ⟨id,own⟩ := Option.isSome_iff_exists.mp (named r (List.mem_of_getElem? there))
      have given : idOf r = .ok id := by rw [idOf,own]
      obtain ⟨p',done⟩ : ∃ p', presentLines f within records missing (index + 1) rest
          ⟨j :: p.claimed,p.operations,appendNew p.block (.existing id)⟩ d = (.ok p',d) := ih others clear later
      refine ⟨p',?_⟩
      have one : presentLine f records missing line p d =
          (.ok ⟨j :: p.claimed,p.operations,appendNew p.block (.existing id)⟩,d) := by
        rw [presentLine,here.split]
        simp only
        rw [bindAfter (selectClear here.legible apart),takesFree.mpr takes]
        simp only [there]
        rw [bindAfter (liftOk.mpr ⟨given,rfl⟩)]
        rfl
      rw [presentLines,bindAfter (mapErrorOk.mpr one),done]

variable {path : FacilityPath} {lines : List Criteria} {position : Nat}
  (judgeable : ∀ line ∈ lines, line.Judgeable)
  (seen : snapshot ⟨path,.unordered⟩ d = (.ok records,d'))
include judgeable seen

theorem presentAdds {plan : Plan} {m : σ}
    (h : FacilityTask.plan ⟨path,.present lines false position missing⟩ d = (.ok plan,m)) :
    AddsNothing plan.operations ↔ ∃ slots, FirstFit selects records [] lines slots := by
  obtain ⟨planned,-⟩ := writingOk (mapErrorOk.mp h)
  have from' : present ⟨path,.unordered⟩ (FacilityTask.within ⟨path,.present lines false position missing⟩)
      lines false position missing d = (.ok plan.operations,m) := planned
  rw [present,bindAfter seen] at from'
  simp only [bindOk,liftOk,pureOk,blockMoves,Bool.false_eq_true,if_false] at from'
  obtain ⟨p,_,worked,moves,_,⟨same,rfl⟩,whole,rfl⟩ := from'
  cases same
  obtain ⟨-,news,added,told⟩ := presentLinesTake judgeable worked
  rw [← whole,List.append_nil,added]
  exact told

theorem presentDone (named : ∀ r ∈ records, r.id.isSome) (clear : ¬Clash lines records) {slots : List Nat}
    (found : FirstFit selects records [] lines slots) :
    ∃ plan, FacilityTask.plan ⟨path,.present lines false position missing⟩ d = (.ok plan,d') := by
  obtain ⟨p,worked⟩ : ∃ p, presentLines ⟨path,.unordered⟩
      (FacilityTask.within ⟨path,.present lines false position missing⟩) records missing 0 lines .start d' =
      (.ok p,d') := presentLinesDone judgeable named clear found
  have whole : present ⟨path,.unordered⟩
      (FacilityTask.within ⟨path,.present lines false position missing⟩) lines false position missing d =
      (.ok (p.operations ++ []),d') := by
    rw [present,bindAfter seen,bindAfter worked]
    rfl
  exact ⟨_,mapErrorOk.mpr (writingDone whole)⟩

end
end Reconcile
open Reconcile

/-- Unordered lines. A check passes exactly if the lines, in turn, take all removable records, and a present
task adds nothing exactly if each takes a record. So in either case each line can have one of its own; for
nested lines that is enough, whichever of their orders they come in. There is no verdict, and no plan may come
of the task, only where the judgement of a line on a record breaks off. -/
theorem linesTakeInTurn {σ : Type} [Device σ] (records : List Record) (lines : List Criteria)
    (judgeable : ∀ line ∈ lines, line.Judgeable) :
    (∃ told : Judgement Bool, (∀ f within position (d : σ),
        agrees f within records lines false position d = (told,d)) ∧
      (∀ path position (d d' : σ), snapshot ⟨path,.unordered⟩ d = (.ok records,d') →
        FacilityTask.plan ⟨path,.check lines false position⟩ d = (told.map fun same =>
          { Plan.ofOperations ⟨path,.unordered⟩ [] with drift := !same },d')) ∧
      (told = .ok true ↔ (∃ slots, FirstFit claimable records [] lines slots ∧
        Covers isRemovable records slots) ∧ ¬Clash lines records) ∧
      (∀ e, told = .error e → e = .brokenOff ∧ Clash lines records) ∧
      (told = .ok true → Matched records lines) ∧
      (Nested claimable records lines → Matched records lines → told ≠ .ok false) ∧
      ∀ others, others.Perm lines → Nested claimable records lines → Nested claimable records others →
        ∀ f within position (d : σ) same again, told = .ok same →
          agrees f within records others false position d = (.ok again,d) → again = same) ∧
    ∀ path position missing (d d' : σ), snapshot ⟨path,.unordered⟩ d = (.ok records,d') →
      (∀ plan m, FacilityTask.plan ⟨path,.present lines false position missing⟩ d = (.ok plan,m) →
        (AddsNothing plan.operations ↔ ∃ slots, FirstFit selects records [] lines slots) ∧
        (AddsNothing plan.operations → ∃ slots, Assigned selects records lines slots) ∧
        (Nested selects records lines → (∃ slots, Assigned selects records lines slots) →
          AddsNothing plan.operations)) ∧
      ((∀ r ∈ records, r.id.isSome) → ¬Clash lines records →
        (∃ slots, FirstFit selects records [] lines slots) →
        ∃ plan, FacilityTask.plan ⟨path,.present lines false position missing⟩ d = (.ok plan,d')) := by
  refine ⟨⟨verdict records lines false 0,fun f within position d => agreesJudgeable judgeable,
    fun path position d d' seen => checkPlan judgeable seen,?_,fun e => verdictError,
    fun passed => describesMatched (verdictTold passed),fun nested matched failed => ?_,
    fun others same nested again f within position d first second told agreed => ?_⟩,
    fun path position missing d d' seen => ⟨fun plan m planned => ?_,fun named clear found => ?_⟩⟩
  · rw [verdictPasses,describesUnordered]
  · cases (verdictTold failed).symm.trans (matchedDescribes nested matched)
  · rw [agreesJudgeable fun line mem => judgeable line (same.mem_iff.mp mem)] at agreed
    have described : describes records others false position = second := verdictTold (Prod.mk.inj agreed).1
    rw [← described,← verdictTold told,Bool.eq_iff_iff]
    exact ⟨fun passed => matchedDescribes nested ((describesMatched passed).reorder same.symm),
      fun passed => matchedDescribes again ((describesMatched passed).reorder same)⟩
  · have told := presentAdds judgeable seen planned
    refine ⟨told,fun nothing => ?_,fun nested ⟨slots,assigned⟩ => ?_⟩
    · obtain ⟨slots,found⟩ := told.mp nothing
      exact ⟨slots,found.assigned.1⟩
    · exact told.mpr (nested.firstFit assigned (by simp))
  · obtain ⟨slots,found⟩ := found
    exact presentDone judgeable seen named clear found

end

open Reconcile
open scoped Pattern

theorem linesTakeInTurnLists :
    (∀ line ∈ listLines.reverse, line.Judgeable) ∧
    snapshot ⟨⟨"/interface list"⟩,.unordered⟩ lists = (.ok listRecords,lists) ∧
    Nested claimable listRecords listLines.reverse ∧ Matched listRecords listLines.reverse ∧
    (∃ plan, FacilityTask.plan ⟨⟨"/interface list"⟩,.check listLines.reverse false 1⟩ lists =
      (.ok plan,lists) ∧ plan.drift = false) ∧
    ∃ plan, FacilityTask.plan ⟨⟨"/interface list"⟩,.present listLines.reverse false 1 .add⟩ lists =
      (.ok plan,lists) ∧ AddsNothing plan.operations := by
  have judgeable : ∀ line ∈ listLines.reverse, line.Judgeable := by decide +kernel
  have seen : snapshot ⟨⟨"/interface list"⟩,.unordered⟩ lists = (.ok listRecords,lists) := by rfl
  have nested : Nested claimable listRecords listLines.reverse := by decide +kernel
  have wider : Nested selects listRecords listLines.reverse := by decide +kernel
  have assigned : Assigned claimable listRecords listLines.reverse [2,1] :=
    ⟨.cons ⟨_,rfl,by decide +kernel⟩ (.cons ⟨_,rfl,by decide +kernel⟩ .nil),by decide⟩
  have matched : Matched listRecords listLines.reverse := ⟨_,assigned,by decide⟩
  have clear : ¬Clash listLines.reverse listRecords := by decide +kernel
  obtain ⟨⟨told,-,planned,-,broken,-,enough,-⟩,presented⟩ :=
    linesTakeInTurn (σ := Replica) listRecords listLines.reverse judgeable
  have passed : told = .ok true := by
    cases told with
    | ok same => cases same with
      | true => rfl
      | false => exact absurd rfl (enough nested matched)
    | error e => exact absurd (broken e rfl).2 clear
  subst passed
  have done : ∃ plan, FacilityTask.plan ⟨⟨"/interface list"⟩,
      .present listLines.reverse false 1 .add⟩ lists = (.ok plan,lists) := ⟨_,by rfl⟩
  obtain ⟨plan,done⟩ := done
  exact ⟨judgeable,seen,nested,matched,⟨_,planned _ _ _ _ seen,rfl⟩,plan,done,
    ((presented _ 1 .add _ _ seen).1 plan _ done).2.2 wider matched.selected⟩

def crossedRecords : List Record :=
  [listRecords[0],listRecords[2],listRecords[1],listRecords[3]]

def crossed : Replica := ⟨Entries.ofList [("/interface list",.items crossedRecords)],5,[],0,none⟩

-- The line that fits both takes the only record for the other one.
theorem linesTakeAnothersRecord :
    (∀ line ∈ listLines, line.Judgeable) ∧
    snapshot ⟨⟨"/interface list"⟩,.unordered⟩ crossed = (.ok crossedRecords,crossed) ∧
    Matched crossedRecords listLines ∧ (∃ slots, Assigned selects crossedRecords listLines slots) ∧
    (∃ plan, FacilityTask.plan ⟨⟨"/interface list"⟩,.check listLines false 1⟩ crossed =
      (.ok plan,crossed) ∧ plan.drift = true) ∧
    (∃ plan, FacilityTask.plan ⟨⟨"/interface list"⟩,.check listLines.reverse false 1⟩ crossed =
      (.ok plan,crossed) ∧ plan.drift = false) ∧
    ∃ plan, FacilityTask.plan ⟨⟨"/interface list"⟩,.present listLines false 1 .add⟩ crossed =
      (.ok plan,crossed) ∧
      plan.operations = [.add (Entries.ofList [("name",.value (.str "WAN"))]) none] := by
  have assigned : Assigned claimable crossedRecords listLines [2,1] :=
    ⟨.cons ⟨_,rfl,by decide +kernel⟩ (.cons ⟨_,rfl,by decide +kernel⟩ .nil),by decide⟩
  have matched : Matched crossedRecords listLines := ⟨_,assigned,by decide⟩
  exact ⟨by decide +kernel,by rfl,matched,matched.selected,⟨_,by rfl,by decide +kernel⟩,
    ⟨_,by rfl,by decide +kernel⟩,⟨_,by rfl,by decide +kernel⟩⟩

end RouterReconciler

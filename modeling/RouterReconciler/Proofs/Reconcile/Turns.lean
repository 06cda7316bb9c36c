import RouterReconciler.Proofs.Reconcile.Founded
import RouterReconciler.Proofs.Reconcile.Replace

/-! The turns of lines. A present, replacing or ensuring task plans line by line; what it adds it adds
at the turn of a line, and never for a line that names a factory record. The new record has the literals
of its line, with what is set on matches laid over them. A condition that can only be matched is not
written, so whether a line matches what it adds is a question of its conditions, one by one. -/
namespace RouterReconciler
open Step

def Mode.adding? : Mode → Option (List Criteria × Assignments)
  | .present lines _ _ _ | .replace lines _ _ => some (lines,∅)
  | .ensure finds set _ _ => some (finds,set)
  | _ => none

/-- A record that is added with the literals of criteria and these assignments over them passes the
condition on the parameter. -/
def Condition.Served [PatternEngine] (set : Assignments) (key : String) (c : Condition) : Prop :=
  match set.get? key with
  | some a => ∃ test, Test.ofCondition key c = .ok test ∧ test.passes a.result = .ok true
  | none => (∃ v, c = .literal v) ∨ c = .notSet ∨ ∃ p, c = .avoidsPattern p

namespace Reconcile

theorem overlayGet {values : Assignments} {l : List (String × Assignment)}
    (distinct : (l.map Prod.fst).Nodup) (key : String) : (overlay values l).get? key =
      match Entries.lookup key l with
      | some (.value v) => some (.value v)
      | some .unset => none
      | none => values.get? key := by
  induction l generalizing values with
  | nil => rfl
  | cons entry rest ih =>
    obtain ⟨k,a⟩ := entry
    obtain ⟨apart,later⟩ := List.nodup_cons.mp distinct
    cases a with
    | value v =>
      rw [overlay,ih later,Entries.lookup]
      by_cases same : k = key
      · subst same
        simp [Entries.lookupAbsent apart]
      · simp [same,Ne.symm same]
    | unset =>
      rw [overlay,ih later,Entries.lookup]
      by_cases same : k = key
      · subst same
        simp [Entries.lookupAbsent apart]
      · simp [same,Ne.symm same]

theorem overlaidGet {line : Criteria} {literals set : Assignments} (id : ItemId)
    (added : line.addValues = .ok literals) (key : String) :
    (Record.apply ⟨some id,∅⟩ (overlay literals set.toList)).get? key =
      match set.get? key with
      | some a => a.result
      | none => line.literal? key := by
  rw [Record.getNew,overlayGet set.distinct,show Entries.lookup key set.toList = set.get? key from rfl]
  cases set.get? key with
  | some a => cases a <;> rfl
  | none =>
    simp only
    rw [Criteria.addValuesGet added]
    cases line.literal? key <;> rfl

theorem clauseRead [PatternEngine] {clauses : List (String × Condition)} {tests : List (String × Test)}
    (h : Test.ofClauses clauses = .ok tests) : ∀ clause ∈ clauses,
      ∃ test, Test.ofCondition clause.1 clause.2 = .ok test := by
  induction clauses generalizing tests with
  | nil => simp
  | cons clause rest ih =>
    simp only [Test.ofClauses] at h
    split at h
    · cases h
    · rename_i test read
      split at h
      · rename_i others later
        exact List.forall_mem_cons.mpr ⟨⟨test,read⟩,ih later⟩
      · cases h

theorem passesEach [PatternEngine] {r : Record} {clauses : List (String × Condition)} {tests : List (String × Test)}
    (h : Test.ofClauses clauses = .ok tests) : Selector.passesAll r tests = .ok true ↔
      ∀ clause ∈ clauses, ∀ test, Test.ofCondition clause.1 clause.2 = .ok test →
        test.passes (r.get? clause.1) = .ok true := by
  induction clauses generalizing tests with
  | nil => cases h; simp [Selector.passesAll]
  | cons clause rest ih =>
    obtain ⟨key,c⟩ := clause
    simp only [Test.ofClauses] at h
    split at h
    · cases h
    · rename_i test read
      split at h
      · rename_i others later
        cases h
        rw [Selector.passesAll,List.forall_mem_cons,← ih later]
        cases judged : test.passes (r.get? key) with
        | error e => simp [read,judged]
        | ok hit => cases hit <;> simp [read,judged]
      · cases h

theorem servedOwn [PatternEngine] {set : Assignments} {line : Criteria} {key : String} {c : Condition}
    (clause : line.get? key = some c) {test : Test} (read : Test.ofCondition key c = .ok test)
    {r : Record} (made : r.get? key = match set.get? key with
      | some a => a.result
      | none => line.literal? key) :
    test.passes (r.get? key) = .ok true ↔ c.Served set key := by
  rw [made,Condition.Served]
  cases set.get? key with
  | some a =>
    simp only [read,Except.ok.injEq]
    exact ⟨fun passed => ⟨test,rfl,passed⟩,fun ⟨_,same,passed⟩ => same ▸ passed⟩
  | none =>
    simp only [Criteria.literal?,clause]
    cases c with
    | literal v => cases read; simp [Test.passes,Value.equalSelf,Halt.orBroken]
    | notSet => cases read; simp [Test.passes]
    | isSet | notEqual v | raw e => cases read; simp [Test.passes]
    | matchesPattern p =>
      simp only [Test.ofCondition] at read
      cases parsed : Test.readPattern key p with
      | error e => rw [parsed] at read; cases read
      | ok pattern => rw [parsed] at read; cases read; simp [Test.passes]
    | avoidsPattern p =>
      simp only [Test.ofCondition] at read
      cases parsed : Test.readPattern key p with
      | error e => rw [parsed] at read; cases read
      | ok pattern => rw [parsed] at read; cases read; simp [Test.passes]

theorem matchesMade [PatternEngine] {line : Criteria} {literals set : Assignments} {s : Selector} (id : ItemId)
    (added : line.addValues = .ok literals) (read : Selector.ofCriteria line = .ok s) :
    s.matches? (Record.apply ⟨some id,∅⟩ (overlay literals set.toList)) = .ok true ↔
      ∀ clause ∈ line.toList, clause.2.Served set clause.1 := by
  unfold Selector.ofCriteria at read
  split at read
  · rename_i tests parsed
    cases read
    rw [Selector.matches?,show Selector.isSkipped ⟨line,tests,false,false,false⟩ _ = false from rfl]
    simp only [Bool.false_eq_true,if_false]
    rw [passesEach parsed]
    refine forall₂_congr fun clause mem => ?_
    obtain ⟨test,known⟩ := clauseRead parsed clause mem
    rw [← servedOwn (Entries.getMem.mpr mem) known (overlaidGet id added clause.1)]
    exact ⟨fun passed => passed test known,fun hit _ same => by
      cases known.symm.trans same
      exact hit⟩
  · cases read

theorem AddsNothing.append {first second : List Operation} (one : AddsNothing first)
    (other : AddsNothing second) : AddsNothing (first ++ second) := fun values before mem =>
  (List.mem_append.mp mem).elim (one values before) (other values before)

theorem settlesAddsNothing {known : Record → Prop} {operations : List Operation}
    (h : AllSettle known operations) : AddsNothing operations := by
  intro values before mem
  cases h _ mem

theorem movesAddNothing {operations : List Operation} (h : OnlyMoves operations) :
    AddsNothing operations := by
  intro values before mem
  obtain ⟨_,_,same⟩ := h _ mem
  cases same

theorem factoryLineAddsNothing {records : List Record} {identity : Criteria} {values : Assignments}
    {place : Option Nat} {answer : ItemId × List Operation}
    (h : factoryLine records identity values place = .ok answer) : AddsNothing answer.2 :=
  settlesAddsNothing (factoryLineSettles (fun _ mem => mem) h)

def ForLine (set : Assignments) (line : Criteria) (operations : List Operation) : Prop :=
  ∀ values before, .add values before ∈ operations → line.namesDefault = false ∧
    ∃ literals, line.addValues = .ok literals ∧ values = overlay literals set.toList

theorem AddsNothing.forLine {set : Assignments} {line : Criteria} {operations : List Operation}
    (h : AddsNothing operations) : ForLine set line operations :=
  fun values before mem => (h values before mem).elim

theorem notNamed {line : Criteria} (h : line.splitDefault? = none) : line.namesDefault = false := by
  unfold Criteria.splitDefault? at h
  split at h
  · cases h
  · simpa using ‹¬line.namesDefault = true›

section Turns
variable {σ : Type} [Device σ] {f : Facility} {within : Option Nat → Error → Error} {d d' : σ}

theorem presentLineAdds [PatternEngine] {records : List Record} {missing : Missing} {line : Criteria} {p q : Progress}
    (h : presentLine f records missing line p d = (.ok q,d')) :
    ∃ operations, q.operations = p.operations ++ operations ∧ ForLine ∅ line operations := by
  have unchanged : ∃ operations, p.operations = p.operations ++ operations ∧ ForLine ∅ line operations :=
    ⟨[],by simp,by simp [ForLine]⟩
  cases presentLineDone h with
  | factory _ _ written => exact ⟨_,rfl,(factoryLineAddsNothing written).forLine⟩
  | ignored => exact unchanged
  | astray => exact unchanged
  | claimed => exact unchanged
  | @added _ literals split _ _ _ given =>
    refine ⟨[.add literals none],rfl,fun values before mem => ?_⟩
    cases List.mem_singleton.mp mem
    exact ⟨notNamed split,literals,given,rfl⟩

theorem replaceLineAdds [PatternEngine] {survivors : List Record} {line : Criteria} {p q : Progress}
    (h : replaceLine f survivors line p d = (.ok q,d')) :
    ∃ operations, q.operations = p.operations ++ operations ∧ ForLine ∅ line operations := by
  cases split : line.splitDefault? with
  | some parts =>
    obtain ⟨place,id,operations,written,rfl⟩ := replaceLineDefault split h
    exact ⟨operations,rfl,(factoryLineAddsNothing written).forLine⟩
  | none =>
    obtain ⟨literals,operation,added,checked,rfl⟩ := replaceLinePlain split h
    cases additionOk checked
    refine ⟨[.add literals none],rfl,fun values before mem => ?_⟩
    cases List.mem_singleton.mp mem
    exact ⟨notNamed split,literals,added,rfl⟩

theorem ensureFoundAddsNothing {criteria : Criteria} {found : List Record} {desired : Assignments}
    {position : Option Nat} {operations : List Operation}
    (h : ensureFound f criteria found desired position d = (.ok operations,d')) :
    AddsNothing operations := by
  obtain ⟨⟨sets,moves,rfl,settled,moved⟩,-⟩ := ensureFoundSettles (readableAny f) criteria desired
    position (fun _ _ => trivial) d operations d' trivial h
  exact (settlesAddsNothing settled).append (movesAddNothing moved)

theorem ensureOneAdds [PatternEngine] {set : Assignments} {position : Option Nat} {missing : Missing}
    {criteria : Criteria} {operations : List Operation}
    (h : ensureOne f set position missing criteria d = (.ok operations,d')) :
    ForLine set criteria operations := by
  cases ensureOneDone h with
  | settled _ _ done => exact (ensureFoundAddsNothing done).forLine
  | ignored => simp [ForLine]
  | added plain _ _ done =>
    obtain ⟨literals,given,place,-,operation,checked,rfl⟩ := addMissingEnds.mp done
    cases additionOk checked
    intro values before mem
    cases List.mem_singleton.mp mem
    exact ⟨notNamed plain,literals,given,rfl⟩

inductive Turn [PatternEngine] (σ : Type) [Device σ] (t : FacilityTask) : Criteria → List Operation → Prop
  | present {lines ordered position missing records line p q operations} {d d' : σ}
      (mode : t.mode = .present lines ordered position missing)
      (turn : presentLine t.facility records missing line p d = (.ok q,d'))
      (planned : q.operations = p.operations ++ operations) : Turn σ t line operations
  | replace {lines ordered position survivors line p q operations} {d d' : σ}
      (mode : t.mode = .replace lines ordered position)
      (turn : replaceLine t.facility survivors line p d = (.ok q,d'))
      (planned : q.operations = p.operations ++ operations) : Turn σ t line operations
  | ensure {finds set position missing criteria operations} {d d' : σ}
      (mode : t.mode = .ensure finds set position missing)
      (turn : ensureOne t.facility set position missing criteria d = (.ok operations,d')) :
      Turn σ t criteria operations

theorem Turn.adds [PatternEngine] {t : FacilityTask} {lines : List Criteria} {set : Assignments} {line : Criteria}
    {operations : List Operation} (adding : t.mode.adding? = some (lines,set))
    (turn : Turn σ t line operations) : ForLine set line operations := by
  cases turn with
  | present mode turn planned =>
    rw [mode] at adding
    cases adding
    obtain ⟨_,same,adds⟩ := presentLineAdds turn
    rw [List.append_cancel_left (planned.symm.trans same)]
    exact adds
  | replace mode turn planned =>
    rw [mode] at adding
    cases adding
    obtain ⟨_,same,adds⟩ := replaceLineAdds turn
    rw [List.append_cancel_left (planned.symm.trans same)]
    exact adds
  | ensure mode turn =>
    rw [mode] at adding
    cases adding
    exact ensureOneAdds turn

def InTurn [PatternEngine] (σ : Type) [Device σ] (t : FacilityTask) (lines : List Criteria)
    (operations : List Operation) : Prop :=
  ∃ turns : List (Criteria × List Operation), turns.map Prod.fst = lines ∧
    operations = turns.flatMap Prod.snd ∧ ∀ turn ∈ turns, Turn σ t turn.1 turn.2

theorem InTurn.none [PatternEngine] (t : FacilityTask) : InTurn σ t [] [] := ⟨[],rfl,rfl,by simp⟩

theorem InTurn.line [PatternEngine] {t : FacilityTask} {line : Criteria} {rest : List Criteria}
    {first others : List Operation} (turn : Turn σ t line first) (later : InTurn σ t rest others) :
    InTurn σ t (line :: rest) (first ++ others) := by
  obtain ⟨turns,rfl,rfl,each⟩ := later
  exact ⟨(line,first) :: turns,rfl,rfl,List.forall_mem_cons.mpr ⟨turn,each⟩⟩

theorem ensureInTurn [PatternEngine] {t : FacilityTask} {finds rest : List Criteria} {set : Assignments}
    {position : Option Nat} {missing : Missing} {several : Bool} {index : Nat}
    {operations : List Operation} (mode : t.mode = .ensure finds set position missing)
    (h : ensureEach t.facility within several set position missing index rest d =
      (.ok operations,d')) : InTurn σ t rest operations := by
  induction rest generalizing index operations d with
  | nil =>
    obtain ⟨rfl,-⟩ := pureOk.mp h
    exact .none t
  | cons criteria rest ih =>
    obtain ⟨first,_,one,others,later,rfl⟩ := ensureEachNext.mp h
    exact .line (.ensure mode one) (ih later)

theorem presentInTurn [PatternEngine] {t : FacilityTask} {lines rest : List Criteria} {ordered : Bool}
    {position : Nat} {missing : Missing} {records : List Record} {index : Nat} {p q : Progress}
    (mode : t.mode = .present lines ordered position missing)
    (h : presentLines t.facility within records missing index rest p d = (.ok q,d')) :
    ∃ operations, q.operations = p.operations ++ operations ∧ InTurn σ t rest operations := by
  induction rest generalizing index p d with
  | nil =>
    obtain ⟨rfl,-⟩ := pureOk.mp h
    exact ⟨[],by simp,.none t⟩
  | cons line rest ih =>
    obtain ⟨m,_,one,later⟩ := presentLinesNext.mp h
    obtain ⟨first,planned,-⟩ := presentLineAdds one
    obtain ⟨others,all,worked⟩ := ih later
    exact ⟨first ++ others,by rw [all,planned,List.append_assoc],.line (.present mode one planned) worked⟩

theorem replaceInTurn [PatternEngine] {t : FacilityTask} {lines rest : List Criteria} {ordered : Bool}
    {position : Nat} {survivors : List Record} {index : Nat} {p q : Progress}
    (mode : t.mode = .replace lines ordered position)
    (h : replaceLines t.facility within survivors index rest p d = (.ok q,d')) :
    ∃ operations, q.operations = p.operations ++ operations ∧ InTurn σ t rest operations := by
  induction rest generalizing index p d with
  | nil =>
    obtain ⟨rfl,-⟩ := pureOk.mp h
    exact ⟨[],by simp,.none t⟩
  | cons line rest ih =>
    obtain ⟨m,_,one,later⟩ := replaceLinesNext.mp h
    obtain ⟨first,planned,-⟩ := replaceLineAdds one
    obtain ⟨others,all,worked⟩ := ih later
    exact ⟨first ++ others,by rw [all,planned,List.append_assoc],.line (.replace mode one planned) worked⟩

-- Removals come before the turns, moves after them; a replacement that finds the facility as the
-- lines describe it has no turns at all.
theorem planInTurn [PatternEngine] {t : FacilityTask} {lines : List Criteria} {set : Assignments} {plan : Plan}
    (adding : t.mode.adding? = some (lines,set)) (h : t.plan d = (.ok plan,d')) :
    plan.operations = [] ∨ ∃ first turns last, plan.operations = first ++ turns ++ last ∧
      AddsNothing first ∧ AddsNothing last ∧ InTurn σ t lines turns := by
  have h := mapErrorOk.mp h
  cases mode : t.mode with
  | present own ordered position missing =>
    rw [mode] at adding h
    cases adding
    obtain ⟨records,_,-,p,worked,moves,moved,all⟩ := presentEnds.mp (writingOk h).1
    obtain ⟨operations,same,inTurn⟩ := presentInTurn mode worked
    refine .inr ⟨[],operations,moves,?_,by simp [AddsNothing],movesAddNothing (blockMovesMove moved),inTurn⟩
    rw [← all,same]
    rfl
  | replace own ordered position =>
    rw [mode] at adding h
    cases adding
    obtain ⟨records,_,_,_,-,-,⟨-,none⟩ | ⟨-,gone,p,moves,leave,worked,moved,all⟩⟩ :=
      replaceEnds (writingOk h).1
    · exact .inl none
    · obtain ⟨operations,same,inTurn⟩ := replaceInTurn mode worked
      obtain ⟨names,rfl,-⟩ := removalsOk leave
      refine .inr ⟨_,operations,moves,by rw [all,same],?_,movesAddNothing (blockMovesMove moved),inTurn⟩
      simp [AddsNothing]
  | ensure finds own position missing =>
    rw [mode] at adding h
    cases adding
    have planned := (writingOk h).1
    exact .inr ⟨[],plan.operations,[],by simp,by simp [AddsNothing],by simp [AddsNothing],
      ensureInTurn mode planned⟩
  | _ => rw [mode] at adding; cases adding

end Turns
end Reconcile

open Reconcile

theorem additionsMatchTheirLines [PatternEngine] {σ : Type} [Device σ] {t : FacilityTask} {lines : List Criteria}
    {set : Assignments} {d d' : σ} {plan : Plan} (adding : t.mode.adding? = some (lines,set))
    (planned : t.plan d = (.ok plan,d')) :
    (plan.operations = [] ∨ ∃ first turns last, plan.operations = first ++ turns ++ last ∧
      AddsNothing first ∧ AddsNothing last ∧ InTurn σ t lines turns) ∧
    ∀ line operations, Turn σ t line operations → ∀ values before, .add values before ∈ operations →
      line.namesDefault = false ∧
      ∀ s, Selector.ofCriteria line = .ok s → ∀ id,
        (s.matches? (Record.apply ⟨some id,∅⟩ values) = .ok true ↔
          ∀ clause ∈ line.toList, clause.2.Served set clause.1) := by
  refine ⟨planInTurn adding planned,fun line operations turn values before mem => ?_⟩
  obtain ⟨unnamed,literals,added,rfl⟩ := turn.adds adding values before mem
  exact ⟨unnamed,fun s read id => matchesMade id added read⟩

def wanOnly : Assignments := Entries.ofList [("name",.value (.str "wan"))]

def additive (line : Criteria) : FacilityTask := ⟨⟨"/ip pool"⟩,.present [line] false 1 .add⟩

open scoped Pattern

theorem additionsMatchPools :
    (additive (poolLine "wan")).mode.adding? = some ([poolLine "wan"],∅) ∧
    (additive (poolLine "wan")).plan pools =
      (.ok (.ofOperations ⟨⟨"/ip pool"⟩,.unordered⟩ [.add wanOnly none]),pools) ∧
    Turn Replica (additive (poolLine "wan")) (poolLine "wan") [.add wanOnly none] ∧
    ∀ s, Selector.ofCriteria (poolLine "wan") = .ok s → ∀ id,
      (s.matches? (Record.apply ⟨some id,∅⟩ wanOnly) = .ok true ↔
        ∀ clause ∈ (poolLine "wan").toList, clause.2.Served ∅ clause.1) := by
  have planned : (additive (poolLine "wan")).plan pools =
    (.ok (.ofOperations ⟨⟨"/ip pool"⟩,.unordered⟩ [.add wanOnly none]),pools) := rfl
  have worked : presentLine (additive (poolLine "wan")).facility [pool "*1" "old",pool "*2" "lan"] .add
    (poolLine "wan") .start pools = (.ok ⟨[],[.add wanOnly none],[.added 0]⟩,pools) := rfl
  have turn : Turn Replica (additive (poolLine "wan")) (poolLine "wan") [.add wanOnly none] :=
    .present rfl worked rfl
  exact ⟨rfl,planned,turn,
    ((additionsMatchTheirLines rfl planned).2 _ _ turn wanOnly none List.mem_cons_self).2⟩

-- That the comment is set is not written, so the line matches nothing afterwards and the next run
-- adds another record.
def remarked : Criteria := Entries.ofList [("name",.literal (.str "wan")),("comment",.isSet)]

open scoped Pattern

theorem conditionsStayUnwritten :
    FacilityTask.make ⟨"/ip pool"⟩ (additive remarked).mode = .ok (additive remarked) ∧
    remarked.namesDefault = false ∧ remarked.hasRaw = false ∧
    (additive remarked).plan pools =
      (.ok (.ofOperations ⟨⟨"/ip pool"⟩,.unordered⟩ [.add wanOnly none]),pools) ∧
    Turn Replica (additive remarked) remarked [.add wanOnly none] ∧
    ∃ s, Selector.ofCriteria remarked = .ok s ∧
      s.matches? (Replica.newRecord pools.nextId wanOnly) = .ok false := by
  have worked : presentLine (additive remarked).facility [pool "*1" "old",pool "*2" "lan"] .add
    remarked .start pools = (.ok ⟨[],[.add wanOnly none],[.added 0]⟩,pools) := rfl
  exact ⟨rfl,rfl,rfl,rfl,.present rfl worked rfl,_,rfl,rfl⟩

end RouterReconciler

import RouterReconciler.Proofs.Reconcile.FirstFit

/-! Criteria that are judged by the records alone: their patterns can be read, and no raw expression stands in
them. What lines of a check claim, if they name no factory record either, is a function of the records, on
every device and in each of its states. The judgement breaks off where a line has a value that cannot be
compared with what a record holds. -/
namespace RouterReconciler
open Step

namespace Reconcile

theorem hitsWhere {s : Selector} {p : Record → Bool} {rs : List Record} (index : Nat)
    (judged : ∀ r ∈ rs, s.matches? r = .ok (p r)) : hits s index rs = .ok (placesWhere p index rs) := by
  induction rs generalizing index with
  | nil => rfl
  | cons r rest ih =>
    rw [hits,judged r List.mem_cons_self,placesWhereCons]
    simp only [ih (index + 1) fun x hx => judged x (List.mem_cons_of_mem _ hx)]

theorem hitsEnd {s : Selector} {rs : List Record} (index : Nat) {e : Halt Error}
    (ends : ∀ r ∈ rs, ∀ c, s.matches? r = .error c → c = e)
    (some : ∃ r ∈ rs, ∃ c, s.matches? r = .error c) : hits s index rs = .error e := by
  induction rs generalizing index with
  | nil => obtain ⟨_,mem,-⟩ := some; cases mem
  | cons r rest ih =>
    rw [hits]
    cases judged : s.matches? r with
    | error c => rw [ends r List.mem_cons_self c judged]
    | ok hit =>
      obtain ⟨x,mem,c,broken⟩ := some
      rcases List.mem_cons.mp mem with rfl | mem
      · cases judged.symm.trans broken
      · simp only [ih (index + 1) (fun x hx => ends x (List.mem_cons_of_mem _ hx)) ⟨x,mem,c,broken⟩]

theorem extraCovered {rs : List Record} {slots : List Nat} {index : Nat} : leavesExtra slots index rs = false ↔
    ∀ j r, rs[j]? = some r → isRemovable r = true → index + j ∈ slots := by
  induction rs generalizing index with
  | nil => simp [leavesExtra]
  | cons r rest ih =>
    rw [leavesExtra,Bool.or_eq_false_iff,ih]
    constructor
    · rintro ⟨here,later⟩ j x there removable
      cases j with
      | zero =>
        cases there
        simpa [removable] using here
      | succ j =>
        rw [Nat.add_comm j,← Nat.add_assoc]
        exact later j x there removable
    · refine fun all => ⟨?_,fun j x there removable => ?_⟩
      · cases removable : isRemovable r with
        | false => rfl
        | true => simpa using all 0 r rfl removable
      · rw [Nat.add_assoc,Nat.add_comm 1]
        exact all (j + 1) x there removable

theorem consecutiveRange {slots : List Nat} {offset : Nat} :
    consecutive offset slots = true ↔ slots = List.range' offset slots.length := by
  induction slots generalizing offset with
  | nil => simp [consecutive]
  | cons j rest ih =>
    rw [consecutive,Bool.and_eq_true,beq_iff_eq,ih,List.length_cons,List.range'_succ,List.cons.injEq]

end Reconcile

variable [PatternEngine]

structure Criteria.Legible (c : Criteria) : Prop where
  readable : ∃ s, Selector.ofCriteria c = .ok s
  onHand : c.hasRaw = false

structure Criteria.Judgeable (line : Criteria) : Prop where
  readable : ∃ s, Selector.ofCriteria line = .ok s
  onHand : line.hasRaw = false
  nameless : line.namesDefault = false

def Criteria.judges (c : Criteria) (r : Record) : Judgement Bool :=
  match Selector.ofCriteria c with
  | .ok s => s.excludingDynamic.matches? r
  | .error e => .error (.failed e)

def selects (line : Criteria) (r : Record) : Bool := meets line r && !r.flag "dynamic"

/-- A judgement of the lines on the records breaks off. -/
def Clash (lines : List Criteria) (rs : List Record) : Prop :=
  ∃ line ∈ lines, ∃ r ∈ rs, line.judges r = .error .brokenOff

instance {α : Type} (x : Judgement α) : Decidable (x = .error .brokenOff) :=
  match x with
  | .error .brokenOff => .isTrue rfl
  | .error (.failed _) | .ok _ => .isFalse nofun

instance {lines : List Criteria} {rs : List Record} : Decidable (Clash lines rs) :=
  inferInstanceAs (Decidable (∃ line ∈ lines, ∃ r ∈ rs, line.judges r = .error .brokenOff))

theorem clashCons {line : Criteria} {rest : List Criteria} {rs : List Record} :
    Clash (line :: rest) rs ↔ Clash [line] rs ∨ Clash rest rs := by
  simp [Clash]

theorem Test.unjudged {key : String} {c : Condition} {test : Test} {actual : Option Value} {e : Halt Error}
    (read : Test.ofCondition key c = .ok test) (h : test.passes actual = .error e) :
    c.isRaw = true ∧ e ≠ .brokenOff ∨
    e = .brokenOff ∧ ∃ v w, (c = .literal v ∨ c = .notEqual v) ∧ actual = some w ∧ v.equal? w = none := by
  have pattern {p : String} {make : (String → Bool) → Test} (found : (readPattern key p).map make = .ok test) :
      ∃ search, test = make search := by
    cases reading : readPattern key p with
    | error e => rw [reading] at found; cases found
    | ok search => rw [reading] at found; cases found; exact ⟨search,rfl⟩
  cases c with
  | raw x =>
    cases read
    cases h
    exact .inl ⟨rfl,nofun⟩
  | matchesPattern p => obtain ⟨search,rfl⟩ := pattern read; cases h
  | avoidsPattern p => obtain ⟨search,rfl⟩ := pattern read; cases h
  | isSet => cases read; cases h
  | notSet => cases read; cases h
  | literal v =>
    cases read
    cases actual with
    | none => cases h
    | some w =>
      obtain ⟨broken,rfl⟩ := Halt.orBrokenError.mp h
      exact .inr ⟨rfl,v,w,.inl rfl,rfl,broken⟩
  | notEqual v =>
    cases read
    cases actual with
    | none => cases h
    | some w =>
      obtain ⟨broken,rfl⟩ := Halt.orBrokenError.mp h
      exact .inr ⟨rfl,v,w,.inr rfl,rfl,Option.map_eq_none_iff.mp broken⟩

theorem Test.clausesUnjudged {clauses : List (String × Condition)} {tests : List (String × Test)}
    {r : Record} {e : Halt Error} (read : Test.ofClauses clauses = .ok tests)
    (h : Selector.passesAll r tests = .error e) : ∃ clause ∈ clauses,
    clause.2.isRaw = true ∧ e ≠ .brokenOff ∨
    e = .brokenOff ∧ ∃ v w, (clause.2 = .literal v ∨ clause.2 = .notEqual v) ∧ r.get? clause.1 = some w ∧
      v.equal? w = none := by
  induction clauses generalizing tests with
  | nil => cases read; cases h
  | cons clause rest ih =>
    unfold Test.ofClauses at read
    split at read
    · cases read
    · rename_i test first
      split at read
      · rename_i tests later
        cases read
        rw [Selector.passesAll] at h
        split at h
        · obtain ⟨other,mem,told⟩ := ih later h
          exact ⟨other,List.mem_cons_of_mem _ mem,told⟩
        · cases h
        · rename_i broken
          cases h
          exact ⟨clause,List.mem_cons_self,Test.unjudged first broken⟩
      · cases read

namespace Criteria
variable {c : Criteria} {r : Record}

theorem judgesTests {e : Halt Error} {s : Selector} (read : Selector.ofCriteria c = .ok s)
    (h : c.judges r = .error e) : ∃ tests, Test.ofClauses c.toList = .ok tests ∧
      Selector.passesAll r tests = .error e := by
  rw [judges,read] at h
  unfold Selector.ofCriteria at read
  split at read <;> cases read
  rename_i tests found
  refine ⟨tests,found,?_⟩
  simp only [Selector.matches?] at h
  split at h
  · cases h
  · exact h

theorem metJudged {e : Halt Error} (hit : meets c r = true) : c.judges r ≠ .error e := by
  intro broken
  unfold meets at hit
  split at hit
  · rename_i s read
    obtain ⟨tests,found,ended⟩ := judgesTests read broken
    simp only [Selector.ofCriteria,found] at read
    cases read
    simp [Selector.matches?,Selector.isSkipped,ended] at hit
  · cases hit

theorem clashValues (h : c.judges r = .error .brokenOff) : ∃ key v w,
    (c.get? key = some (.literal v) ∨ c.get? key = some (.notEqual v)) ∧ r.get? key = some w ∧
      v.equal? w = none := by
  cases read : Selector.ofCriteria c with
  | error e => rw [judges,read] at h; cases h
  | ok s =>
    obtain ⟨tests,found,broken⟩ := judgesTests read h
    obtain ⟨⟨key,clause⟩,mem,⟨-,other⟩ | ⟨-,v,w,asked,held,unequal⟩⟩ := Test.clausesUnjudged found broken
    · exact absurd rfl other
    · have there := Entries.getMem.mpr mem
      rcases asked with rfl | rfl
      · exact ⟨key,v,w,.inl there,held,unequal⟩
      · exact ⟨key,v,w,.inr there,held,unequal⟩

theorem judgesSelects {hit : Bool} (h : c.judges r = .ok hit) : selects c r = hit := by
  cases read : Selector.ofCriteria c with
  | error e => rw [judges,read] at h; cases h
  | ok s =>
    rw [judges,read] at h
    cases dynamic : r.flag "dynamic" with
    | false => rw [selects,matchesMeets read dynamic h,dynamic]; simp
    | true =>
      simp only [Selector.matches?,Selector.isSkipped,Selector.excludingDynamic,dynamic] at h
      cases h
      rw [selects,dynamic]
      simp

theorem judgesFleeting (legible : c.Legible) (dynamic : r.flag "dynamic" = true) : c.judges r = .ok false := by
  obtain ⟨s,read⟩ := legible.readable
  rw [judges,read]
  simp [Selector.matches?,Selector.isSkipped,Selector.excludingDynamic,dynamic]

theorem Legible.told (legible : c.Legible) (r : Record) :
    c.judges r = .ok (selects c r) ∨ c.judges r = .error .brokenOff := by
  obtain ⟨s,read⟩ := legible.readable
  cases judged : c.judges r with
  | ok hit => rw [judgesSelects judged]; exact .inl rfl
  | error e =>
    obtain ⟨tests,found,broken⟩ := judgesTests read judged
    obtain ⟨clause,mem,⟨raw,-⟩ | ⟨rfl,-⟩⟩ := Test.clausesUnjudged found broken
    · have onHand := List.any_eq_false.mp legible.onHand clause.2 (List.mem_map_of_mem mem)
      exact absurd raw onHand
    · exact .inr rfl

end Criteria

theorem clashLasting {c : Criteria} (legible : c.Legible) {rs : List Record} :
    Clash [c] rs ↔ Clash [c] (lasting rs) := by
  constructor
  · rintro ⟨_,only,r,mem,broken⟩
    cases List.mem_singleton.mp only
    refine ⟨c,only,r,List.mem_filter.mpr ⟨mem,?_⟩,broken⟩
    cases dynamic : r.flag "dynamic" with
    | false => rfl
    | true => cases (c.judgesFleeting legible dynamic).symm.trans broken
  · rintro ⟨line,only,r,mem,broken⟩
    exact ⟨line,only,r,(List.mem_filter.mp mem).1,broken⟩

namespace Criteria.Judgeable
variable {line : Criteria}

theorem legible (h : line.Judgeable) : line.Legible := ⟨h.readable,h.onHand⟩

theorem split (h : line.Judgeable) : line.splitDefault? = none := by
  simp [splitDefault?,h.nameless]

end Criteria.Judgeable

namespace Reconcile

def claimedPlaces (records : List Record) (claimed : List Nat) : List Criteria → Option (List Nat)
  | [] => some []
  | line :: rest =>
    match claim records claimed (placesWhere (meets line) 0 records) false with
    | none => none
    | some j => (claimedPlaces records (j :: claimed) rest).map (j :: ·)

def describes (records : List Record) (lines : List Criteria) (ordered : Bool) (position : Nat) : Bool :=
  match claimedPlaces records [] lines with
  | none => false
  | some slots => !leavesExtra slots 0 records &&
      (!ordered || consecutive (min (position - 1) (records.length - lines.length)) slots)

def claimsBreak (records : List Record) (claimed : List Nat) : List Criteria → Bool
  | [] => false
  | line :: rest => decide (Clash [line] records) ||
    (claim records claimed (placesWhere (meets line) 0 records) false).any fun j =>
      claimsBreak records (j :: claimed) rest

def verdict (records : List Record) (lines : List Criteria) (ordered : Bool) (position : Nat) : Judgement Bool :=
  if claimsBreak records [] lines then .error .brokenOff else .ok (describes records lines ordered position)

def claimable (line : Criteria) (r : Record) : Bool := meets line r && isRemovable r

theorem claimTakes {p : Record → Bool} {rs : List Record} {line : Criteria} {claimed : List Nat} {j : Nat}
    (told : ∀ r, isRemovable r = true → p r = meets line r) :
    claim rs claimed (placesWhere p 0 rs) false = some j ↔ Takes (claimable line) rs claimed j := by
  refine Takes.search fun i r there => ?_
  simp only [there,claimable,Bool.false_or,Option.any_some,Bool.and_eq_true,Bool.not_eq_true',
    List.contains_eq_mem,decide_eq_false_iff_not]
  exact ⟨fun ⟨hit,free,removable⟩ => ⟨⟨told r removable ▸ hit,removable⟩,free⟩,
    fun ⟨⟨hit,removable⟩,free⟩ => ⟨(told r removable).trans hit,free,removable⟩⟩

section
variable {σ : Type} [Device σ] {f : Facility} {d : σ} {records : List Record}
  {within : Option Nat → Error → Error}

theorem selectHits {line : Criteria} (h : line.Legible) : ∃ s, Selector.ofCriteria line = .ok s ∧
    select f records line d = (hits s.excludingDynamic 0 records,d) := by
  obtain ⟨s,read⟩ := h.readable
  have onHand : s.excludingDynamic.isLocal = true := by
    simp [Selector.isLocal,Selector.excludingDynamic,(plainSelector read).1,h.onHand]
  refine ⟨s,read,?_⟩
  rw [select,bindAfter (liftOk.mpr ⟨read,rfl⟩)]
  simp only [onHand,if_true]
  cases hits s.excludingDynamic 0 records <;> rfl

theorem selectClear {line : Criteria} (h : line.Legible) (clear : ¬Clash [line] records) :
    select f records line d = (.ok (placesWhere (selects line) 0 records),d) := by
  obtain ⟨s,read,same⟩ := selectHits (f := f) (d := d) h
  rw [same,hitsWhere 0 fun r mem => ?_]
  have judged : line.judges r = .ok (selects line r) :=
    (h.told r).resolve_right fun broken => clear ⟨line,List.mem_singleton_self _,r,mem,broken⟩
  rwa [Criteria.judges,read] at judged

theorem selectClash {line : Criteria} (h : line.Legible) (clash : Clash [line] records) :
    select f records line d = (.error .brokenOff,d) := by
  obtain ⟨s,read,same⟩ := selectHits (f := f) (d := d) h
  obtain ⟨_,only,r,mem,broken⟩ := clash
  cases List.mem_singleton.mp only
  rw [Criteria.judges,read] at broken
  rw [same,hitsEnd 0 (fun x _ c ended => ?_) ⟨r,mem,_,broken⟩]
  have told := h.told x
  rw [Criteria.judges,read] at told
  rcases told with judged | judged <;> cases judged.symm.trans ended
  rfl

theorem selectTold {line : Criteria} {places : List Nat} {d' : σ} (h : line.Legible)
    (picked : select f records line d = (.ok places,d')) :
    places = placesWhere (selects line) 0 records ∧ d' = d := by
  by_cases clash : Clash [line] records
  · cases (selectClash (f := f) (d := d) h clash).symm.trans picked
  · cases (selectClear (f := f) (d := d) h clash).symm.trans picked
    exact ⟨rfl,rfl⟩

-- A check leaves dynamic records to themselves twice over: it neither selects nor removes them.
theorem claimSelected {line : Criteria} {claimed : List Nat} :
    claim records claimed (placesWhere (selects line) 0 records) false =
      claim records claimed (placesWhere (meets line) 0 records) false := by
  refine Option.ext fun j => ?_
  rw [claimTakes fun _ _ => rfl]
  exact claimTakes fun r removable => by simp [selects,removableLasts removable]

theorem claimsJudgeable {lines : List Criteria} {claimed : List Nat} {index : Nat}
    (judgeable : ∀ line ∈ lines, line.Judgeable) : claims f within records index lines claimed d =
      (if claimsBreak records claimed lines then .error .brokenOff
        else .ok (claimedPlaces records claimed lines),d) := by
  induction lines generalizing index claimed with
  | nil => rfl
  | cons line rest ih =>
    obtain ⟨here,others⟩ := List.forall_mem_cons.mp judgeable
    rw [claims,claimedPlaces,claimsBreak,here.split]
    by_cases clash : Clash [line] records
    · simp only [clash,decide_true,Bool.true_or,if_true]
      exact bindFailed (mapErrorError.mpr ⟨_,selectClash here.legible clash,rfl⟩) _
    · rw [bindAfter (mapErrorOk.mpr (selectClear here.legible clash))]
      simp only [Option.isSome_none,claimSelected,clash,decide_false,Bool.false_or]
      cases claim records claimed (placesWhere (meets line) 0 records) false with
      | none => rfl
      | some j =>
        simp only [Option.any_some]
        have later : claims f within records (index + 1) rest (j :: claimed) d = _ := ih others
        cases broken : claimsBreak records (j :: claimed) rest with
        | true =>
          rw [broken] at later
          exact bindFailed later _
        | false =>
          rw [broken] at later
          exact bindAfter later _

theorem agreesJudgeable {lines : List Criteria} {ordered : Bool} {position : Nat}
    (judgeable : ∀ line ∈ lines, line.Judgeable) : agrees f within records lines ordered position d =
      (verdict records lines ordered position,d) := by
  rw [agrees,verdict,describes]
  have claimed : claims f within records 0 lines [] d = _ := claimsJudgeable judgeable
  cases broken : claimsBreak records [] lines with
  | true =>
    rw [broken] at claimed
    exact bindFailed claimed _
  | false =>
    rw [broken] at claimed
    rw [bindAfter claimed]
    cases claimedPlaces records [] lines with
    | none => rfl
    | some slots =>
      cases extra : leavesExtra slots 0 records <;> cases ordered <;> simp [extra]

end

variable {rs : List Record} {lines : List Criteria} {slots : List Nat}

theorem claimedFirstFit {claimed : List Nat} :
    claimedPlaces rs claimed lines = some slots ↔ FirstFit claimable rs claimed lines slots := by
  induction lines generalizing claimed slots with
  | nil =>
    constructor
    · rintro ⟨⟩
      exact .done _
    · rintro ⟨⟩
      rfl
  | cons line rest ih =>
    constructor
    · intro found
      rw [claimedPlaces] at found
      split at found
      · cases found
      · rename_i j place
        obtain ⟨others,later,rfl⟩ := Option.map_eq_some_iff.mp found
        exact .line ((claimTakes fun _ _ => rfl).mp place) (ih.mp later)
    · rintro (_ | ⟨takes,later⟩)
      rw [claimedPlaces,(claimTakes fun _ _ => rfl).mpr takes]
      simp only [ih.mpr later,Option.map_some]

theorem describesIff {ordered : Bool} {position : Nat} : describes rs lines ordered position = true ↔
    ∃ slots, FirstFit claimable rs [] lines slots ∧ Covers isRemovable rs slots ∧ (ordered = true →
      slots = List.range' (min (position - 1) (rs.length - lines.length)) lines.length) := by
  have verdict (slots : List Nat) (size : slots.length = lines.length) :
      (!leavesExtra slots 0 rs &&
        (!ordered || consecutive (min (position - 1) (rs.length - lines.length)) slots)) = true ↔
      Covers isRemovable rs slots ∧ (ordered = true →
        slots = List.range' (min (position - 1) (rs.length - lines.length)) lines.length) := by
    rw [Bool.and_eq_true,Bool.not_eq_true',extraCovered,Bool.or_eq_true,consecutiveRange,size]
    simp only [Nat.zero_add,Covers]
    cases ordered <;> simp
  rw [describes]
  constructor
  · intro passed
    split at passed
    · cases passed
    · rename_i slots found
      have fit := claimedFirstFit.mp found
      exact ⟨slots,fit,(verdict slots fit.assigned.1.fit.length_eq.symm).mp passed⟩
  · rintro ⟨slots,fit,passed⟩
    rw [claimedFirstFit.mpr fit]
    exact (verdict slots fit.assigned.1.fit.length_eq.symm).mpr passed

theorem breaksClash {claimed : List Nat} (broken : claimsBreak rs claimed lines = true) : Clash lines rs := by
  induction lines generalizing claimed with
  | nil => cases broken
  | cons line rest ih =>
    rw [claimsBreak,Bool.or_eq_true,decide_eq_true_eq,Option.any_eq_true] at broken
    rcases broken with clash | ⟨j,-,later⟩
    · exact clashCons.mpr (.inl clash)
    · exact clashCons.mpr (.inr (ih later))

-- Where every line claims a record, each has been judged on all of them.
theorem clashBreaks {claimed : List Nat} (found : claimedPlaces rs claimed lines = some slots)
    (clash : Clash lines rs) : claimsBreak rs claimed lines = true := by
  induction lines generalizing claimed slots with
  | nil => obtain ⟨_,mem,-⟩ := clash; cases mem
  | cons line rest ih =>
    rw [claimsBreak,Bool.or_eq_true,decide_eq_true_eq]
    refine (clashCons.mp clash).imp_right fun jam => ?_
    rw [claimedPlaces] at found
    split at found
    · cases found
    · rename_i j place
      obtain ⟨others,later,rfl⟩ := Option.map_eq_some_iff.mp found
      rw [place,Option.any_some]
      exact ih later jam

theorem verdictClear {ordered : Bool} {position : Nat} (clear : ¬Clash lines rs) :
    verdict rs lines ordered position = .ok (describes rs lines ordered position) :=
  if_neg fun broken => clear (breaksClash broken)

theorem verdictClash {ordered : Bool} {position : Nat} (described : describes rs lines ordered position = true)
    (clash : Clash lines rs) : verdict rs lines ordered position = .error .brokenOff := by
  rw [describes] at described
  split at described
  · cases described
  · rename_i found
    exact if_pos (clashBreaks found clash)

theorem verdictError {ordered : Bool} {position : Nat} {e : Halt Error}
    (h : verdict rs lines ordered position = .error e) : e = .brokenOff ∧ Clash lines rs := by
  unfold verdict at h
  split at h <;> cases h
  exact ⟨rfl,breaksClash (by assumption)⟩

theorem verdictTold {ordered : Bool} {position : Nat} {told : Bool}
    (h : verdict rs lines ordered position = .ok told) : describes rs lines ordered position = told := by
  unfold verdict at h
  split at h <;> cases h
  rfl

theorem verdictPasses {ordered : Bool} {position : Nat} : verdict rs lines ordered position = .ok true ↔
    describes rs lines ordered position = true ∧ ¬Clash lines rs := by
  refine ⟨fun passed => ⟨verdictTold passed,fun clash => ?_⟩,fun ⟨described,clear⟩ => ?_⟩
  · cases passed.symm.trans (verdictClash (verdictTold passed) clash)
  · rw [verdictClear clear,described]

structure Lined (rs : List Record) (lines : List Criteria) (offset : Nat) : Prop where
  removable : ∀ j r, rs[j]? = some r →
    (isRemovable r = true ↔ offset ≤ j ∧ j < offset + lines.length)
  fit : ∀ i line, lines[i]? = some line → ∃ r, rs[offset + i]? = some r ∧ meets line r = true

theorem linedIff {offset : Nat} : Lined rs lines offset ↔
    FirstFit claimable rs [] lines (List.range' offset lines.length) ∧
      Covers isRemovable rs (List.range' offset lines.length) := by
  constructor
  · intro lined
    refine ⟨.inPlace (fun i line mem => ?_) (fun i r line before there _ fits => ?_) (by simp),
      fun j r there removable => ?_⟩
    · obtain ⟨r,there,met⟩ := lined.fit i line mem
      have bound := (List.getElem?_eq_some_iff.mp mem).1
      have removable := (lined.removable _ r there).mpr ⟨by omega,by omega⟩
      exact ⟨r,there,by rw [claimable,met,removable]; rfl⟩
    · have inside := (lined.removable i r there).mp (Bool.and_eq_true_iff.mp fits).2
      omega
    · exact List.mem_range'_1.mpr ((lined.removable j r there).mp removable)
  · rintro ⟨found,covers⟩
    obtain ⟨size,each⟩ := List.forall₂_iff_get.mp found.assigned.1.fit
    have taken : ∀ i line, lines[i]? = some line →
        ∃ r, rs[offset + i]? = some r ∧ claimable line r = true := by
      intro i line mem
      obtain ⟨bound,rfl⟩ := List.getElem?_eq_some_iff.mp mem
      have one := each i bound (size ▸ bound)
      simpa using one
    refine ⟨fun j r there => ⟨fun removable => ?_,fun ⟨lower,upper⟩ => ?_⟩,fun i line mem => ?_⟩
    · exact List.mem_range'_1.mp (covers j r there removable)
    · obtain ⟨i,rfl⟩ := Nat.exists_eq_add_of_le lower
      obtain ⟨x,place,fits⟩ := taken i lines[i] (List.getElem?_eq_getElem (by omega))
      cases there.symm.trans place
      exact (Bool.and_eq_true_iff.mp fits).2
    · obtain ⟨r,there,fits⟩ := taken i line mem
      exact ⟨r,there,(Bool.and_eq_true_iff.mp fits).1⟩

end Reconcile
end RouterReconciler

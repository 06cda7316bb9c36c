import RouterReconciler.Proofs.Device.Failures
import RouterReconciler.Proofs.Reconcile.Matches

/-! What each operation of a plan is founded on, moves apart. Values have been checked, so none of them
would read back as a condition; a modification sets what differs on a record that was read, and there is
something that does; a record is enabled because it was disabled, or the other way round. -/
namespace RouterReconciler
open Step

def Yields {ε σ α : Type} (I : σ → Prop) (P : α → Prop) (x : Step ε σ α) : Prop :=
  ∀ d a d', I d → x d = (.ok a,d') → P a ∧ I d'

theorem Keeps.ends {ε σ α : Type} {I : σ → Prop} {x : Step ε σ α} {d d' : σ} {a : α} (keeps : Keeps I x)
    (holds : I d) (ran : x d = (.ok a,d')) : I d' := by
  have last := keeps d holds
  rwa [ran] at last

namespace Yields
variable {ε δ σ α β : Type} {I : σ → Prop} {P : α → Prop} {Q : β → Prop}

theorem pure {a : α} (h : P a) : Yields I P (Pure.pure a : Step ε σ α) := by
  intro d b d' holds ran
  obtain ⟨rfl,rfl⟩ := pureOk.mp ran
  exact ⟨h,holds⟩

theorem fail (e : ε) : Yields I P (Step.fail e : Step ε σ α) :=
  fun _ _ _ _ ran => (failNotOk ran).elim

theorem lift [EndsIn ε δ] {x : Except ε α} (h : ∀ a, x = .ok a → P a) :
    Yields I P (liftM x : Step δ σ α) := by
  intro d a d' holds ran
  obtain ⟨gives,rfl⟩ := liftOk.mp ran
  exact ⟨h a gives,holds⟩

theorem bind {x : Step ε σ α} {g : α → Step ε σ β} (first : Yields I P x)
    (later : ∀ a, P a → Yields I Q (g a)) : Yields I Q (x >>= g) := by
  intro d b d' holds ran
  obtain ⟨a,m,run,ran⟩ := bindOk.mp ran
  obtain ⟨gives,holds⟩ := first d a m holds run
  exact later a gives m b d' holds ran

theorem after {x : Step ε σ α} {g : α → Step ε σ β} (first : Keeps I x)
    (later : ∀ a, Yields I Q (g a)) : Yields I Q (x >>= g) :=
  bind (P := fun _ => True) (fun _ _ _ holds ran => ⟨trivial,first.ends holds ran⟩) fun a _ => later a

theorem mapError {g : ε → δ} {x : Step ε σ α} (h : Yields I P x) :
    Yields I P (x.mapError g) := fun d a d' holds ran => h d a d' holds (mapErrorOk.mp ran)

end Yields

inductive Settles (known : Record → Prop) : Operation → Prop
  | changed {r id desired changes} (read : known r) (named : r.id = some id)
      (compared : differing desired r = .ok changes) (unsettled : changes.isEmpty = false)
      (checked : changes.checkWritable = .ok ()) : Settles known (.set (some id) changes)

inductive Founded (known : Record → Prop) : Operation → Prop
  | added {values before} (checked : values.checkWritable = .ok ()) : Founded known (.add values before)
  | removed (id) : Founded known (.remove id)
  | settled {operation} (settles : Settles known operation) : Founded known operation
  | configured {r desired changes} (read : known r) (compared : differing desired r = .ok changes)
      (unsettled : changes.isEmpty = false) (checked : changes.checkWritable = .ok ()) :
      Founded known (.set none changes)
  | enabled {r id} (read : known r) (named : r.id = some id) (was : r.flag "disabled" = true) :
      Founded known (.enable id)
  | disabled {r id} (read : known r) (named : r.id = some id) (was : r.flag "disabled" = false) :
      Founded known (.disable id)

def AllFounded (known : Record → Prop) (operations : List Operation) : Prop :=
  ∀ operation ∈ operations, Founded known operation

def AllSettle (known : Record → Prop) (operations : List Operation) : Prop :=
  ∀ operation ∈ operations, Settles known operation

def MovesNothing (operations : List Operation) : Prop :=
  ∀ item before, .move item before ∉ operations

def OnlyMoves (operations : List Operation) : Prop :=
  ∀ operation ∈ operations, ∃ item before, operation = .move item before

def FoundedOrMoves (known : Record → Prop) (operations : List Operation) : Prop :=
  ∀ operation ∈ operations, Founded known operation ∨ ∃ item before, operation = .move item before

section Founded
variable {known : Record → Prop} {first second : List Operation}

theorem AllFounded.none : AllFounded known [] := by simp [AllFounded]

theorem AllFounded.one {operation : Operation} (h : Founded known operation) :
    AllFounded known [operation] := by simpa [AllFounded] using h

theorem AllFounded.append (one : AllFounded known first) (other : AllFounded known second) :
    AllFounded known (first ++ second) := fun operation mem =>
  (List.mem_append.mp mem).elim (one operation) (other operation)

theorem AllFounded.map {α : Type} {g : α → Operation} {l : List α}
    (each : ∀ a ∈ l, Founded known (g a)) : AllFounded known (l.map g) := by
  intro operation mem
  obtain ⟨a,there,rfl⟩ := List.mem_map.mp mem
  exact each a there

theorem AllFounded.still (h : AllFounded known first) : MovesNothing first := by
  intro item before mem
  cases h _ mem with
  | settled settles => cases settles

theorem AllSettle.append (one : AllSettle known first) (other : AllSettle known second) :
    AllSettle known (first ++ second) := fun operation mem =>
  (List.mem_append.mp mem).elim (one operation) (other operation)

theorem AllSettle.founded (h : AllSettle known first) : AllFounded known first :=
  fun operation mem => .settled (h operation mem)

theorem AllFounded.weaken (h : AllFounded known first) : FoundedOrMoves known first :=
  fun operation mem => .inl (h operation mem)

theorem OnlyMoves.none : OnlyMoves [] := by simp [OnlyMoves]

theorem OnlyMoves.weaken (h : OnlyMoves first) : FoundedOrMoves known first :=
  fun operation mem => .inr (h operation mem)

theorem FoundedOrMoves.none : FoundedOrMoves known [] := AllFounded.none.weaken

theorem FoundedOrMoves.append (one : FoundedOrMoves known first) (other : FoundedOrMoves known second) :
    FoundedOrMoves known (first ++ second) := fun operation mem =>
  (List.mem_append.mp mem).elim (one operation) (other operation)

theorem Founded.checked {operation : Operation} (h : Founded known operation) :
    operation.values.checkWritable = .ok () := by
  cases h with
  | added checked => exact checked
  | settled settles =>
    cases settles with
    | changed _ _ _ _ checked => exact checked
  | configured _ _ _ checked => exact checked
  | _ => rfl

end Founded

namespace Reconcile

section Pure
variable {known : Record → Prop}

theorem additionFounded {values : Assignments} {before : Option ItemRef} {operation : Operation}
    (h : addition values before = .ok operation) : Founded known operation := by
  unfold addition at h
  split at h <;> cases h
  exact .added (by assumption)

theorem modificationSettles {r : Record} {id : ItemId} {desired changes : Assignments}
    {operations : List Operation} (read : known r) (named : r.id = some id)
    (compared : differing desired r = .ok changes)
    (h : modification (some id) changes = .ok operations) : AllSettle known operations := by
  rcases modificationOk h with ⟨rfl,-⟩ | ⟨rfl,unsettled,checked⟩
  · simp [AllSettle]
  · simpa [AllSettle] using .changed read named compared unsettled checked

theorem repositionMoves (current block : List ItemRef) (position : Nat) :
    OnlyMoves (reposition current block position) := by
  intro operation mem
  obtain ⟨m,-,rfl⟩ := List.mem_map.mp mem
  exact ⟨_,_,rfl⟩

theorem blockMovesMove {ordered : Bool} {survivors : List Record} {block : List ItemRef}
    {position : Nat} {moves : List Operation}
    (h : blockMoves ordered survivors block position = .ok moves) : OnlyMoves moves := by
  unfold blockMoves at h
  split at h
  · split at h <;> cases h
    exact repositionMoves _ _ _
  · cases h
    exact .none

theorem modifyAllSettles {desired : Assignments} {found : List Record} {operations : List Operation}
    (read : ∀ r ∈ found, known r) (h : modifyAll desired found = .ok operations) :
    AllSettle known operations := by
  induction found generalizing operations with
  | nil => cases h; simp [AllSettle]
  | cons r rest ih =>
    obtain ⟨here,later⟩ := List.forall_mem_cons.mp read
    obtain ⟨changes,compared,others,planned,⟨-,rfl⟩ | ⟨-,id,first,named,written,rfl⟩⟩ := modifyAllCons.mp h
    · exact ih later planned
    · exact (modificationSettles here (idOfOk named) compared written).append (ih later planned)

theorem factoryLineSettles {records : List Record} {identity : Criteria} {values : Assignments}
    {place : Option Nat} {answer : ItemId × List Operation} (read : ∀ r ∈ records, known r)
    (h : factoryLine records identity values place = .ok answer) : AllSettle known answer.2 := by
  unfold factoryLine at h
  split at h
  · cases h
  · rename_i r there
    obtain ⟨j,-,there⟩ := Option.bind_eq_some_iff.mp there
    simp only [exceptBindOk,exceptLiftOk] at h
    obtain ⟨id,named,changes,compared,operations,written,h⟩ := h
    cases h
    exact modificationSettles (read r (List.mem_of_getElem? there)) (idOfOk named) compared written

theorem removalsFounded {records : List Record} {operations : List Operation}
    (h : removals records = .ok operations) : AllFounded known operations := by
  induction records generalizing operations with
  | nil => cases h; exact .none
  | cons r rest ih =>
    simp only [removals,exceptBindOk] at h
    obtain ⟨id,-,others,later,h⟩ := h
    cases h
    exact (AllFounded.one (.removed id)).append (ih later)

theorem additionsFounded {within : Option Nat → Error → Error} {index : Nat} {found : List Slot}
    {operations : List Operation} (h : additions within index found = .ok operations) :
    AllFounded known operations := by
  induction found generalizing index operations with
  | nil => cases h; exact .none
  | cons slot rest ih =>
    cases slot with
    | keep j id changes => exact ih h
    | add values =>
      simp only [additions,exceptBindOk,exceptMapErrorOk] at h
      obtain ⟨operation,one,others,later,h⟩ := h
      cases h
      exact (AllFounded.one (additionFounded one)).append (ih later)

theorem modificationsSettle {within : Option Nat → Error → Error} {index : Nat} {found : List Slot}
    {operations : List Operation} (kept : ∀ j id changes, .keep j id changes ∈ found →
      ∃ r desired, known r ∧ r.id = some id ∧ differing desired r = .ok changes)
    (h : modifications within index found = .ok operations) : AllSettle known operations := by
  induction found generalizing index operations with
  | nil => cases h; simp [AllSettle]
  | cons slot rest ih =>
    have later {index : Nat} {others : List Operation} (h : modifications within index rest = .ok others) :
        AllSettle known others :=
      ih (fun j id changes mem => kept j id changes (List.mem_cons_of_mem _ mem)) h
    cases slot with
    | add values => exact later h
    | keep j id changes =>
      simp only [modifications,exceptBindOk,exceptMapErrorOk] at h
      obtain ⟨first,one,others,planned,h⟩ := h
      cases h
      obtain ⟨r,desired,read,named,compared⟩ := kept j id changes List.mem_cons_self
      exact (modificationSettles read named compared one).append (later planned)

theorem adjustOperationsFounded {within : Option Nat → Error → Error} {lines : List Criteria}
    {keys : List String} {ordered : Bool} {position : Nat} {records : List Record}
    {operations : List Operation} (read : ∀ r ∈ records, known r)
    (h : adjustOperations within lines keys ordered position records = .ok operations) :
    FoundedOrMoves known operations := by
  simp only [adjustOperations,exceptBindOk,exceptLiftOk] at h
  obtain ⟨found,claimed,⟨gone,kept⟩,-,added,adding,changed,changing,h⟩ := h
  cases h
  have slots : ∀ j id changes, .keep j id changes ∈ found →
      ∃ r desired, known r ∧ r.id = some id ∧ differing desired r = .ok changes := by
    intro j id changes mem
    obtain ⟨line,-,told⟩ := forallRight (slotsOk claimed).1 mem
    cases told with
    | keep there _ named _ compared =>
      exact ⟨_,_,read _ (List.mem_of_getElem? there),named,compared⟩
  have edits := (additionsFounded adding).append (modificationsSettle slots changing).founded
  refine (edits.weaken.append ?_).append (AllFounded.map fun _ _ => .removed _).weaken
  cases ordered with
  | false => exact .none
  | true => exact (repositionMoves _ _ _).weaken

def Toggled (known : Record → Prop) (disabled : Bool) (id : ItemId) : Prop :=
  ∃ r, known r ∧ r.id = some id ∧ r.flag "disabled" = disabled

theorem idsOfFounded {enable : Bool} {found : List Record} {names : List ItemId}
    (read : ∀ r ∈ found, known r)
    (h : idsOf (found.filter (fun r => r.flag "disabled" == enable)) = .ok names) :
    ∀ id ∈ names, Toggled known enable id := by
  intro id mem
  have listed : some id ∈ ids (found.filter (fun r => r.flag "disabled" == enable)) :=
    idsOfOk h ▸ List.mem_map_of_mem mem
  obtain ⟨r,hr,named⟩ := List.mem_map.mp listed
  obtain ⟨there,was⟩ := List.mem_filter.mp hr
  exact ⟨r,read r there,named,by simpa using was⟩

end Pure

section Modes
variable {σ : Type} [Device σ] {f : Facility} {I : σ → Prop} {known : Record → Prop}
  (reads : Readable f I known) (within : Option Nat → Error → Error)
include reads

theorem Readable.listing (s : Selector) :
    Yields I (fun records => ∀ r ∈ records, known r) (f.read s) := fun _ _ _ holds ran =>
  ⟨reads.listed holds ran,(reads.all s).ends holds ran⟩

theorem Readable.finding [PatternEngine] (criteria : Criteria) :
    Yields I (fun records => ∀ r ∈ records, known r) (Reconcile.find f criteria) :=
  .bind (P := fun _ => True) (.lift fun _ _ => trivial) fun _ _ => reads.listing _

theorem moveFirstMoves (found : List Record) (position : Option Nat) :
    Yields I OnlyMoves (moveFirst f found position) := by
  cases position with
  | none => exact .pure .none
  | some position =>
    cases found with
    | nil => exact .pure .none
    | cons first rest =>
      exact .after (.lift _) fun id => .after reads.snapshot fun records => .after (.lift _) fun current =>
        .pure (repositionMoves _ _ _)

theorem ensureFoundSettles (criteria : Criteria) {found : List Record} (desired : Assignments)
    (position : Option Nat) (read : ∀ r ∈ found, known r) :
    Yields I (fun operations => ∃ sets moves, operations = sets ++ moves ∧ AllSettle known sets ∧
      OnlyMoves moves) (ensureFound f criteria found desired position) := by
  unfold ensureFound
  split
  · exact .fail _
  · exact .bind (.lift fun _ => modifyAllSettles read) fun sets one =>
      .bind (moveFirstMoves reads found position) fun moves other => .pure ⟨sets,moves,rfl,one,other⟩

theorem ensureFoundFounded (criteria : Criteria) {found : List Record} (desired : Assignments)
    (position : Option Nat) (read : ∀ r ∈ found, known r) :
    Yields I (FoundedOrMoves known) (ensureFound f criteria found desired position) := by
  intro d operations d' holds ran
  obtain ⟨⟨sets,moves,rfl,one,other⟩,last⟩ :=
    ensureFoundSettles reads criteria desired position read d operations d' holds ran
  exact ⟨one.founded.weaken.append other.weaken,last⟩

theorem ensureOneFounded [PatternEngine] (set : Assignments) (position : Option Nat) (missing : Missing)
    (criteria : Criteria) :
    Yields I (FoundedOrMoves known) (ensureOne f set position missing criteria) := by
  unfold ensureOne
  split
  · refine .bind (reads.finding _) fun found read => ?_
    split
    · cases missing with
      | ignore => exact .pure .none
      | _ => exact .fail _
    · exact ensureFoundFounded reads _ _ _ read
  · refine .bind (reads.finding _) fun found read => ?_
    split
    · cases missing with
      | ignore => exact .pure .none
      | fail => exact .fail _
      | add =>
        exact .after (.lift _) fun literals => .after (reads.placeAt position) fun before =>
          .bind (P := Founded known) (.lift fun _ => additionFounded) fun operation one =>
            .pure (AllFounded.one one).weaken
    · exact ensureFoundFounded reads _ _ _ read

theorem ensureEachFounded [PatternEngine] (several : Bool) (set : Assignments) (position : Option Nat)
    (missing : Missing) (index : Nat) (finds : List Criteria) :
    Yields I (FoundedOrMoves known) (ensureEach f within several set position missing index finds) := by
  induction finds generalizing index with
  | nil => exact .pure .none
  | cons criteria rest ih =>
    exact .bind (.mapError (ensureOneFounded reads _ _ _ _)) fun first one =>
      .bind (ih (index + 1)) fun others later => .pure (one.append later)

theorem presentLineFounded [PatternEngine] {records : List Record} (missing : Missing) (line : Criteria)
    {p : Progress} (read : ∀ r ∈ records, known r) (h : AllFounded known p.operations) :
    Yields I (fun p : Progress => AllFounded known p.operations)
      (presentLine f records missing line p) := by
  unfold presentLine
  split
  · refine .after (reads.select _ _) fun places => ?_
    split
    · exact .pure h
    · exact .bind (P := fun answer => AllSettle known answer.2) (.lift fun _ => factoryLineSettles read)
        fun answer one => .pure (h.append one.founded)
  · refine .after (reads.select _ _) fun places => ?_
    split
    · split
      · exact .pure h
      · exact .after (.lift _) fun id => .pure h
    · split
      · exact .fail _
      · exact .after (.lift _) fun values => .bind (P := Founded known)
          (.lift fun _ => additionFounded) fun operation one => .pure (h.append (.one one))

theorem presentLinesFounded [PatternEngine] {records : List Record} (missing : Missing) (index : Nat)
    (lines : List Criteria) {p : Progress} (read : ∀ r ∈ records, known r)
    (h : AllFounded known p.operations) : Yields I (fun p : Progress => AllFounded known p.operations)
      (presentLines f within records missing index lines p) := by
  induction lines generalizing index p with
  | nil => exact .pure h
  | cons line rest ih =>
    exact .bind (.mapError (presentLineFounded reads missing line read h)) fun m one =>
      ih (index + 1) one

theorem replaceLineFounded [PatternEngine] {records : List Record} (line : Criteria) {p : Progress}
    (read : ∀ r ∈ records, known r) (h : AllFounded known p.operations) :
    Yields I (fun p : Progress => AllFounded known p.operations) (replaceLine f records line p) := by
  unfold replaceLine
  split
  · exact .after (reads.select _ _) fun places => .bind (P := fun answer => AllSettle known answer.2)
      (.lift fun _ => factoryLineSettles read) fun answer one => .pure (h.append one.founded)
  · exact .after (.lift _) fun values => .bind (P := Founded known)
      (.lift fun _ => additionFounded) fun operation one => .pure (h.append (.one one))

theorem replaceLinesFounded [PatternEngine] {records : List Record} (index : Nat) (lines : List Criteria)
    {p : Progress} (read : ∀ r ∈ records, known r) (h : AllFounded known p.operations) :
    Yields I (fun p : Progress => AllFounded known p.operations)
      (replaceLines f within records index lines p) := by
  induction lines generalizing index p with
  | nil => exact .pure h
  | cons line rest ih =>
    exact .bind (.mapError (replaceLineFounded reads line read h)) fun m one => ih (index + 1) one

theorem replaceFounded [PatternEngine] (lines : List Criteria) (ordered : Bool) (position : Nat) :
    Yields I (FoundedOrMoves known) (replace f within lines ordered position) := by
  refine .bind (reads.listing _) fun records read => .after (reads.agrees within _ _ _ _) fun same => ?_
  split
  · exact .pure .none
  · exact .bind (.lift fun _ => removalsFounded) fun removed gone =>
      .bind (replaceLinesFounded reads within 0 lines
          (fun r mem => read r (List.mem_filter.mp mem).1) gone) fun p done =>
        .bind (.lift fun _ => blockMovesMove) fun moves moved => .pure (done.weaken.append moved.weaken)

theorem moveOnlyFounded [PatternEngine] (criteria : Criteria) (position : Nat) (missing : Missing) :
    Yields I (FoundedOrMoves known) (moveOnly f criteria position missing) := by
  refine .after reads.snapshot fun records => .after (reads.select _ _) fun places => ?_
  split
  · split
    · exact .pure .none
    · exact .fail _
  · refine .after (.lift _) fun current => ?_
    split
    · exact .pure (repositionMoves _ _ _).weaken
    · exact .pure .none
  · exact .fail _

theorem toggleIdsFounded [PatternEngine] (enable : Bool) (index : Nat) {seen : List ItemId} (targets : List Criteria)
    (h : ∀ id ∈ seen, Toggled known enable id) :
    Yields I (fun names => ∀ id ∈ names, Toggled known enable id)
      (toggleIds f within enable index seen targets) := by
  induction targets generalizing index seen with
  | nil => exact .pure h
  | cons target rest ih =>
    refine .bind (P := fun names => ∀ id ∈ names, Toggled known enable id) (.mapError ?_)
      fun names one => ih (index + 1) fun id mem => ?_
    · refine .bind (reads.finding _) fun found read => ?_
      split
      · exact .fail _
      · exact .lift fun _ => idsOfFounded read
    · exact (memAppendIds.mp mem).elim (h id) (one id)

end Modes

section Plans
variable {σ : Type} [Device σ] {f : Facility} {within : Option Nat → Error → Error} {I : σ → Prop}
  {known : Record → Prop}

omit [Device σ] in
theorem writingFounded {operations : Inquiry σ (List Operation)}
    (h : Yields I (FoundedOrMoves known) operations) :
    Yields I (fun plan : Plan => FoundedOrMoves known plan.operations) (writing f operations) :=
  .bind h fun _ one => .pure one

theorem planModeFounded [PatternEngine] (reads : Readable f I known) (mode : Mode) :
    Yields I (fun plan : Plan => FoundedOrMoves known plan.operations) (planMode f within mode) := by
  cases mode with
  | configure values =>
    refine writingFounded (.bind (P := known) (fun _ _ _ holds ran =>
      ⟨reads.single holds ran,reads.one.ends holds ran⟩) fun r read =>
        .bind (P := fun changes => differing values r = .ok changes) (.lift fun _ => id) fun changes compared =>
          .lift fun operations written => ?_)
    rcases modificationOk written with ⟨rfl,-⟩ | ⟨rfl,unsettled,checked⟩
    · exact .none
    · exact (AllFounded.one (.configured read compared unsettled checked)).weaken
  | ensure finds set position missing =>
    exact writingFounded (ensureEachFounded reads within _ _ _ _ _ _)
  | present lines ordered position missing =>
    exact writingFounded (.bind (reads.listing _) fun records read =>
      .bind (presentLinesFounded reads within missing 0 lines read .none) fun p done =>
        .bind (.lift fun _ => blockMovesMove) fun moves moved => .pure (done.weaken.append moved.weaken))
  | absent targets =>
    exact writingFounded (.after (reads.absentIds within _ _ _) fun names =>
      .pure (AllFounded.map fun _ _ => .removed _).weaken)
  | toggle targets enable =>
    refine writingFounded (.bind (toggleIdsFounded reads within enable 0 targets (by simp))
      fun names told => .pure (AllFounded.map fun id mem => ?_).weaken)
    obtain ⟨r,read,named,was⟩ := told id mem
    cases enable with
    | true => exact .enabled read named was
    | false => exact .disabled read named was
  | move criteria position missing => exact writingFounded (moveOnlyFounded reads _ _ _)
  | replace lines ordered position => exact writingFounded (replaceFounded reads within _ _ _)
  | adjust lines keys ordered position =>
    exact writingFounded (.after (.lift _) fun _ => .bind (reads.listing _) fun records read =>
      .lift fun _ => adjustOperationsFounded read)
  | findOnly targets position => exact .after (reads.findOnly within _ _) fun _ => .pure .none
  | count criteria =>
    exact .after (.after (.lift _) fun _ => .after (.after (reads.all _) fun _ => .pure _) fun _ =>
      .pure _) fun _ => .pure .none
  | check lines ordered position =>
    exact .after (.after reads.snapshot fun _ => reads.agrees within _ _ _ _) fun _ => .pure .none
  | extract e => exact .after (reads.extract e) fun _ => .pure .none

theorem readableAny (f : Facility) : Readable f (fun _ : σ => True) (fun _ => True) :=
  ⟨fun _ _ _ => trivial,fun _ _ => trivial,fun _ _ _ _ => trivial,fun _ _ => trivial,
    fun _ _ _ _ => trivial⟩

end Plans
end Reconcile

theorem FacilityTask.planFounded [PatternEngine] {σ : Type} [Device σ] {t : FacilityTask} {I : σ → Prop}
    {known : Record → Prop} (reads : Reconcile.Readable t.facility I known) :
    Yields I (fun plan : Plan => FoundedOrMoves known plan.operations) (t.plan : Inquiry σ Plan) :=
  .mapError (Reconcile.planModeFounded reads t.mode)

theorem FacilityTask.planWritable [PatternEngine] {σ : Type} [Device σ] {t : FacilityTask} {d d' : σ} {plan : Plan}
    (h : t.plan d = (.ok plan,d')) :
    ∀ operation ∈ plan.operations, operation.values.checkWritable = .ok () := by
  intro operation mem
  have told := (t.planFounded (Reconcile.readableAny t.facility) d plan d' trivial h).1 operation mem
  obtain founded | ⟨item,before,rfl⟩ := told
  · exact founded.checked
  · rfl

end RouterReconciler

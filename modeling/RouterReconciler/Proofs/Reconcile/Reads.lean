import RouterReconciler.Reconcile.Planning

/-! Planning uses a device through its readings alone: what the readings of the facility keep of the
device's state, the planning of every mode keeps, whether it ends in a plan or in an error. An
evaluation has to keep it only for a record that was read before. -/
namespace RouterReconciler

def Keeps {ε σ α : Type} (I : σ → Prop) (x : Step ε σ α) : Prop := ∀ d, I d → I (x d).2

namespace Keeps
variable {ε δ σ α β : Type} {I : σ → Prop}

theorem pure (a : α) : Keeps I (Pure.pure a : Step ε σ α) := fun _ holds => holds

theorem fail (e : ε) : Keeps I (Step.fail e : Step ε σ α) := fun _ holds => holds

theorem lift [EndsIn ε δ] (x : Except ε α) : Keeps I (liftM x : Step δ σ α) := fun _ holds => holds

theorem bind {x : Step ε σ α} {g : α → Step ε σ β} (first : Keeps I x)
    (later : ∀ d a d', I d → x d = (.ok a,d') → Keeps I (g a)) : Keeps I (x >>= g) := by
  intro d holds
  have middle := first d holds
  cases h : x d with
  | mk answer m =>
    rw [h] at middle
    cases answer with
    | ok a => rw [Step.bindAfter h]; exact later d a m holds h m middle
    | error e => rw [Step.bindFailed h]; exact middle

theorem after {x : Step ε σ α} {g : α → Step ε σ β} (first : Keeps I x)
    (later : ∀ a, Keeps I (g a)) : Keeps I (x >>= g) := .bind first fun _ a _ _ _ => later a

theorem mapError {g : ε → δ} {x : Step ε σ α} (h : Keeps I x) : Keeps I (x.mapError g) := by
  intro d holds
  have kept := h d holds
  unfold Step.mapError
  cases h : x d with
  | mk answer m =>
    rw [h] at kept
    cases answer <;> exact kept

theorem liftStep {x : Step ε σ α} (h : Keeps I x) : Keeps I (liftM x : Step (Halt ε) σ α) := h.mapError

end Keeps

namespace Reconcile
variable {σ : Type} [Device σ]

structure Readable (f : Facility) (I : σ → Prop) (known : Record → Prop) : Prop where
  all : ∀ s, Keeps I (f.read s)
  one : Keeps I f.readOne
  listed : ∀ {s d records d'}, I d → f.read s d = (.ok records,d') → ∀ r ∈ records, known r
  single : ∀ {d r d'}, I d → f.readOne d = (.ok r,d') → known r
  evaluated : ∀ {r}, known r → ∀ expressions, Keeps I (f.evaluate r.id expressions)

namespace Readable
variable {f : Facility} {I : σ → Prop} {known : Record → Prop} (reads : Readable f I known)
variable (within : Option Nat → Error → Error)
include reads

theorem findIds (s : Selector) : Keeps I (f.findIds s) := .after (reads.all s) fun _ => .pure _

theorem snapshot : Keeps I (snapshot f) := reads.all _

theorem placeAt (position : Option Nat) : Keeps I (placeAt f position) := by
  cases position with
  | none => exact .pure _
  | some position =>
    refine .after reads.snapshot fun records => ?_
    split
    · exact .pure _
    · exact .after (.lift _) fun _ => .pure _

theorem addMissing (criteria : Criteria) (set : Assignments) (position : Option Nat) :
    Keeps I (addMissing f criteria set position) :=
  .after (.lift _) fun _ => .after (reads.placeAt position) fun _ => .after (.lift _) fun _ => .pure _

theorem moveFirst (found : List Record) (position : Option Nat) :
    Keeps I (moveFirst f found position) := by
  cases position with
  | none => exact .pure _
  | some position =>
    cases found with
    | nil => exact .pure _
    | cons first rest =>
      exact .after (.lift _) fun _ => .after reads.snapshot fun _ => .after (.lift _) fun _ => .pure _

theorem ensureFound (criteria : Criteria) (found : List Record) (desired : Assignments)
    (position : Option Nat) : Keeps I (ensureFound f criteria found desired position) := by
  unfold Reconcile.ensureFound
  split
  · exact .fail _
  · exact .after (.lift _) fun _ => .after (reads.moveFirst found position) fun _ => .pure _

theorem rowValues (e : Extraction) {r : Record} (read : known r) : Keeps I (rowValues f e r) := by
  unfold Reconcile.rowValues
  split
  · exact .lift _
  · exact .after (reads.evaluated read _) fun _ => .pure _

theorem keyOf (e : Extraction) {r : Record} (read : known r) (key : String) :
    Keeps I (keyOf f e r key) := by
  unfold Reconcile.keyOf
  split
  · exact .pure _
  · exact .after (reads.evaluated read _) fun _ => .pure _

theorem extractRow (e : Extraction) (values : ReturnValues) {r : Record} (read : known r) :
    Keeps I (extractRow f e values r) := by
  unfold Reconcile.extractRow
  extract_lets fill
  have filled (index : Option (Option String)) : Keeps I (fill index) := by
    cases index with
    | none => exact .pure _
    | some index => exact .after (reads.rowValues e read) fun _ => .lift _
  split
  · exact .after (.pure _) filled
  · exact .after (.pure _) filled
  · refine .after (reads.keyOf e read _) fun key => ?_
    split
    · exact .after (.pure _) filled
    · split
      · exact .after (.fail _) filled
      · exact .after (.pure _) filled

theorem extractRows (e : Extraction) (values : ReturnValues) {records : List Record}
    (read : ∀ r ∈ records, known r) : Keeps I (extractRows f e values records) := by
  induction records generalizing values with
  | nil => exact .pure _
  | cons r rest ih =>
    exact .after (reads.extractRow e values (read r List.mem_cons_self)) fun values =>
      ih values fun x mem => read x (List.mem_cons_of_mem _ mem)

variable [PatternEngine]

theorem find (criteria : Criteria) : Keeps I (find f criteria) :=
  .after (.lift _) fun _ => reads.all _

theorem select (records : List Record) (criteria : Criteria) : Keeps I (select f records criteria) := by
  refine .after (.lift _) fun s => ?_
  simp only
  split
  · exact .lift _
  · exact .after (reads.findIds _) fun _ => .pure _

theorem ensureOne (set : Assignments) (position : Option Nat) (missing : Missing)
    (criteria : Criteria) : Keeps I (ensureOne f set position missing criteria) := by
  unfold Reconcile.ensureOne
  split
  · refine .after (reads.find _) fun found => ?_
    split
    · cases missing with
      | ignore => exact .pure _
      | add => exact .fail _
      | fail => exact .fail _
    · exact reads.ensureFound _ _ _ _
  · refine .after (reads.find _) fun found => ?_
    split
    · cases missing with
      | ignore => exact .pure _
      | add => exact reads.addMissing _ _ _
      | fail => exact .fail _
    · exact reads.ensureFound _ _ _ _

theorem ensureEach (several : Bool) (set : Assignments) (position : Option Nat) (missing : Missing)
    (index : Nat) (finds : List Criteria) :
    Keeps I (ensureEach f within several set position missing index finds) := by
  induction finds generalizing index with
  | nil => exact .pure _
  | cons criteria rest ih =>
    exact .after (.mapError (reads.ensureOne _ _ _ _)) fun _ => .after (ih (index + 1)) fun _ => .pure _

theorem presentLine (records : List Record) (missing : Missing) (line : Criteria) (p : Progress) :
    Keeps I (presentLine f records missing line p) := by
  unfold Reconcile.presentLine
  split
  · refine .after (reads.select _ _) fun places => ?_
    split
    · exact .pure _
    · exact .after (.lift _) fun _ => .pure _
  · refine .after (reads.select _ _) fun places => ?_
    split
    · split
      · exact .pure _
      · exact .after (.lift _) fun _ => .pure _
    · split
      · exact .fail _
      · exact .after (.lift _) fun _ => .after (.lift _) fun _ => .pure _

theorem presentLines (records : List Record) (missing : Missing) (index : Nat)
    (lines : List Criteria) (p : Progress) :
    Keeps I (presentLines f within records missing index lines p) := by
  induction lines generalizing index p with
  | nil => exact .pure _
  | cons line rest ih => exact .after (.mapError (reads.presentLine _ _ _ _)) fun p => ih (index + 1) p

theorem claims (records : List Record) (index : Nat) (lines : List Criteria) (claimed : List Nat) :
    Keeps I (claims f within records index lines claimed) := by
  induction lines generalizing index claimed with
  | nil => exact .pure _
  | cons line rest ih =>
    refine .after (.mapError (reads.select _ _)) fun places => ?_
    split
    · exact .pure _
    · exact .after (ih _ _) fun _ => .pure _

theorem agrees (records : List Record) (lines : List Criteria) (ordered : Bool) (position : Nat) :
    Keeps I (agrees f within records lines ordered position) := by
  refine .after (reads.claims within _ _ _ _) fun slots => ?_
  split
  · exact .pure _
  · split
    · exact .pure _
    · split <;> exact .pure _

theorem replaceLine (survivors : List Record) (line : Criteria) (p : Progress) :
    Keeps I (replaceLine f survivors line p) := by
  unfold Reconcile.replaceLine
  split
  · exact .after (reads.select _ _) fun _ => .after (.lift _) fun _ => .pure _
  · exact .after (.lift _) fun _ => .after (.lift _) fun _ => .pure _

theorem replaceLines (survivors : List Record) (index : Nat) (lines : List Criteria) (p : Progress) :
    Keeps I (replaceLines f within survivors index lines p) := by
  induction lines generalizing index p with
  | nil => exact .pure _
  | cons line rest ih => exact .after (.mapError (reads.replaceLine _ _ _)) fun p => ih (index + 1) p

theorem replace (lines : List Criteria) (ordered : Bool) (position : Nat) :
    Keeps I (replace f within lines ordered position) := by
  refine .after reads.snapshot fun records => .after (reads.agrees within _ _ _ _) fun same => ?_
  split
  · exact .pure _
  · exact .after (.lift _) fun _ => .after (reads.replaceLines within _ _ _ _) fun _ =>
      .after (.lift _) fun _ => .pure _

theorem absentIds (index : Nat) (seen : List ItemId) (targets : List Criteria) :
    Keeps I (absentIds f within index seen targets) := by
  induction targets generalizing index seen with
  | nil => exact .pure _
  | cons target rest ih =>
    exact .after (.mapError (.after (.lift _) fun _ => reads.findIds _)) fun _ => ih _ _

theorem toggleTarget (enable : Bool) (target : Criteria) : Keeps I (toggleTarget f enable target) := by
  refine .after (reads.find _) fun found => ?_
  split
  · exact .fail _
  · exact .lift _

theorem toggleIds (enable : Bool) (index : Nat) (seen : List ItemId) (targets : List Criteria) :
    Keeps I (toggleIds f within enable index seen targets) := by
  induction targets generalizing index seen with
  | nil => exact .pure _
  | cons target rest ih => exact .after (.mapError (reads.toggleTarget _ _)) fun _ => ih _ _

theorem requireEach (index : Nat) (targets : List Criteria) :
    Keeps I (requireEach f within index targets) := by
  induction targets generalizing index with
  | nil => exact .pure _
  | cons target rest ih =>
    refine .after (.mapError (.after (reads.find _) fun found => ?_)) fun _ => ih _
    split
    · exact .fail _
    · exact .pure _

theorem requirePlaces (records : List Record) (expected index : Nat) (targets : List Criteria) :
    Keeps I (requirePlaces f within records expected index targets) := by
  induction targets generalizing index with
  | nil => exact .pure _
  | cons target rest ih =>
    refine .after (.mapError (.after (reads.select _ _) fun places => ?_)) fun _ => ih _
    split
    · exact .fail _
    · split
      · exact .pure _
      · exact .fail _

theorem findOnly (targets : List Criteria) (position : Option Nat) :
    Keeps I (findOnly f within targets position) := by
  cases position with
  | none => exact reads.requireEach within _ _
  | some position => exact .after reads.snapshot fun _ => reads.requirePlaces within _ _ _ _

theorem moveOnly (criteria : Criteria) (position : Nat) (missing : Missing) :
    Keeps I (moveOnly f criteria position missing) := by
  refine .after reads.snapshot fun records => .after (reads.select _ _) fun places => ?_
  split
  · split
    · exact .pure _
    · exact .fail _
  · refine .after (.lift _) fun current => ?_
    split <;> exact .pure _
  · exact .fail _

theorem extractionRecords (e : Extraction) : Keeps I (extractionRecords f e) := by
  unfold Reconcile.extractionRecords
  split
  · exact .after reads.one fun _ => .pure _
  · exact reads.find _

theorem extractionKnown {e : Extraction} {d d' : σ} {records : List Record} (holds : I d)
    (h : Reconcile.extractionRecords f e d = (.ok records,d')) : ∀ r ∈ records, known r := by
  cases sought : e.find with
  | none =>
    simp only [Reconcile.extractionRecords,sought,Step.bindOk,Step.pureOk] at h
    obtain ⟨one,m,read,rfl,-⟩ := h
    intro r mem
    rw [List.mem_singleton.mp mem]
    exact reads.single holds read
  | some criteria =>
    simp only [Reconcile.extractionRecords,sought] at h
    obtain ⟨s,m,picked,read⟩ := Step.bindOk.mp h
    obtain ⟨-,rfl⟩ := Step.liftOk.mp picked
    exact reads.listed holds read

theorem extract (e : Extraction) : Keeps I (extract f e) := by
  refine .bind (reads.extractionRecords e) fun d records d' holds read => ?_
  by_cases unmatched : (records.isEmpty && e.requireMatch) = true
  · rw [if_pos unmatched]
    exact .fail _
  · rw [if_neg unmatched]
    by_cases several : (!e.many && decide (1 < records.length)) = true
    · rw [if_pos several]
      exact .fail _
    · rw [if_neg several]
      exact reads.extractRows e _ (reads.extractionKnown holds read)

theorem planMode (mode : Mode) : Keeps I (planMode f within mode) := by
  cases mode with
  | configure values =>
    exact .after (.after reads.one fun _ => .after (.lift _) fun _ => .lift _) fun _ => .pure _
  | ensure finds set position missing =>
    exact .after (reads.ensureEach within _ _ _ _ _ _) fun _ => .pure _
  | present lines ordered position missing =>
    exact .after (.after reads.snapshot fun _ => .after (reads.presentLines within _ _ _ _ _) fun _ =>
      .after (.lift _) fun _ => .pure _) fun _ => .pure _
  | absent targets =>
    exact .after (.after (reads.absentIds within _ _ _) fun _ => .pure _) fun _ => .pure _
  | toggle targets enable =>
    exact .after (.after (reads.toggleIds within _ _ _ _) fun _ => .pure _) fun _ => .pure _
  | findOnly targets position => exact .after (reads.findOnly within _ _) fun _ => .pure _
  | count criteria =>
    exact .after (.after (.lift _) fun _ => .after (.after (reads.all _) fun _ => .pure _) fun _ =>
      .pure _) fun _ => .pure _
  | move criteria position missing => exact .after (reads.moveOnly _ _ _) fun _ => .pure _
  | check lines ordered position =>
    exact .after (.after reads.snapshot fun _ => reads.agrees within _ _ _ _) fun _ => .pure _
  | replace lines ordered position => exact .after (reads.replace within _ _ _) fun _ => .pure _
  | adjust lines keys ordered position =>
    exact .after (.after (.lift _) fun _ => .after reads.snapshot fun _ => .lift _) fun _ => .pure _
  | extract e => exact .after (reads.extract e) fun _ => .pure _

end Readable
end Reconcile

theorem FacilityTask.planKeeps {σ : Type} [Device σ] [PatternEngine] {t : FacilityTask} {I : σ → Prop}
    {known : Record → Prop} (reads : Reconcile.Readable t.facility I known) : Keeps I t.plan :=
  .mapError (reads.planMode t.within t.mode)

end RouterReconciler

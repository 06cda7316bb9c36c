import RouterReconciler.Proofs.Run.Live
import RouterReconciler.Proofs.Run.Stops

/-! Values without a literal. Planning refuses only text shaped like a condition; the device refuses
the rest when the operation comes up, after the operations before it have been carried out. So a live
run that stops at such a value has changed nothing exactly if planning refused it, or the operation
with the value is the first of the plan. -/
namespace RouterReconciler
open Step Replica Session

def Error.root : Error → Error
  | .partialApply _ _ source => source.root
  | .inTask _ _ _ source => source.root
  | e => e

def Operation.encodable : Operation → Bool
  | .add values _ | .set _ values => (checkEncodable values.toList).isOk
  | _ => true

def Encodes {σ α : Type} (x : Access σ α) : Prop :=
  ∀ d e d', x d = (.error e,d') → e.root.kind ≠ .encodingError

namespace Encodes
variable {σ α β : Type}

theorem bind {x : Access σ α} {f : α → Access σ β} (first : Encodes x) (later : ∀ a, Encodes (f a)) :
    Encodes (x >>= f) := by
  intro d e d' h
  rcases bindError.mp h with h | ⟨a,m,-,h⟩
  · exact first d e d' h
  · exact later a m e d' h

theorem pure (a : α) : Encodes (Pure.pure a : Access σ α) := fun _ _ _ h => (pureError h).elim

theorem fail {e : Error} (other : e.root.kind ≠ .encodingError) : Encodes (.fail e : Access σ α) := by
  intro d cause d' h
  obtain ⟨rfl,-⟩ := failError.mp h
  exact other

theorem lift {x : Except Error α} (other : ∀ e, x = .error e → e.root.kind ≠ .encodingError) :
    Encodes (liftM x : Access σ α) := fun _ e _ h => other e (liftError.mp h).1

end Encodes

namespace Replica

theorem beginWriteEncodes (text : String) : Encodes (beginWrite text) := by
  intro d e d' h
  simp only [beginWrite] at h
  split at h <;> cases h
  rintro ⟨⟩

theorem itemsEncodes (path : FacilityPath) : Encodes (items path) := by
  intro d e d' h
  simp only [items] at h
  split at h <;> cases h
  rintro ⟨⟩

theorem setItemsEncodes (path : FacilityPath) (rs : List Record) : Encodes (setItems path rs) := by
  intro d e d' h
  cases h

theorem locateEncodes (path : FacilityPath) (id : ItemId) : Encodes (locate path id) := by
  refine .bind (itemsEncodes path) fun rs => ?_
  split
  · exact .pure _
  · exact .fail (fun kind => by cases kind)

theorem updateEncodes (path : FacilityPath) (id : ItemId) (f : Record → Record) :
    Encodes (update path id f) :=
  .bind (locateEncodes path id) fun _ => setItemsEncodes path _

theorem removeEncodes (path : FacilityPath) (id : ItemId) : Encodes (remove path id) :=
  .bind (beginWriteEncodes _) fun _ => .bind (locateEncodes path id) fun _ => setItemsEncodes path _

theorem setDisabledEncodes (path : FacilityPath) (id : ItemId) (disabled : Bool) :
    Encodes (setDisabled path id disabled) :=
  .bind (beginWriteEncodes _) fun _ => updateEncodes path id _

theorem moveEncodes (path : FacilityPath) (id : ItemId) (before : Option ItemId) :
    Encodes (move path id before) := by
  refine .bind (beginWriteEncodes _) fun _ => .bind (locateEncodes path id) ?_
  rintro ⟨rs,i⟩
  dsimp only
  split
  · exact .fail (fun kind => by cases kind)
  · split
    · exact setItemsEncodes path _
    · exact .fail (fun kind => by cases kind)

theorem setSingletonEncodes (path : FacilityPath) (values : Assignments) :
    Encodes (setSingleton path values) := by
  intro d e d' h
  simp only [setSingleton] at h
  split at h <;> cases h
  exact fun kind => by cases kind

theorem addRefused {path : FacilityPath} {values : Assignments} {before : Option ItemId}
    {d d' : Replica} {e : Error} (h : add path values before d = (.error e,d'))
    (cause : e.root.kind = .encodingError) : (checkEncodable values.toList).isOk = false ∧ d' = d := by
  rcases bindError.mp h with h | ⟨_,_,-,h⟩
  · obtain ⟨refused,rfl⟩ := liftError.mp h
    exact ⟨by rw [refused]; rfl,rfl⟩
  · refine absurd cause (Encodes.bind (beginWriteEncodes _) (fun _ => ?_) _ _ _ h)
    refine .bind (fun _ _ _ taken => by cases taken) fun id => ?_
    cases before with
    | none =>
      exact .bind (itemsEncodes path) fun _ => .bind (setItemsEncodes path _) fun _ => .pure _
    | some other =>
      exact .bind (locateEncodes path other) fun _ => .bind (setItemsEncodes path _) fun _ => .pure _

theorem setRefused {path : FacilityPath} {item : Option ItemId} {values : Assignments}
    {d d' : Replica} {e : Error} (h : set path item values d = (.error e,d'))
    (cause : e.root.kind = .encodingError) : (checkEncodable values.toList).isOk = false ∧ d' = d := by
  rcases bindError.mp h with h | ⟨_,_,-,h⟩
  · obtain ⟨refused,rfl⟩ := liftError.mp h
    exact ⟨by rw [refused]; rfl,rfl⟩
  · refine absurd cause (Encodes.bind (beginWriteEncodes _) (fun _ => ?_) _ _ _ h)
    cases item with
    | none => exact setSingletonEncodes path values
    | some id => exact updateEncodes path id _

end Replica

theorem unwritable {values : Assignments} {e : Error} (h : values.checkWritable = .error e) :
    (checkEncodable values.toList).isOk = false := by
  unfold Assignments.checkWritable at h
  generalize values.toList = l at h
  induction l with
  | nil => cases h
  | cons entry rest ih =>
    obtain ⟨key,a⟩ := entry
    cases a with
    | unset => exact ih h
    | value v =>
      simp only [Assignments.checkWritable.go] at h
      simp only [checkEncodable,Value.encodeForWrite]
      cases checked : v.checkWritable with
      | error cause => rfl
      | ok done =>
        rw [checked] at h
        simp only
        cases v.encode with
        | error cause => rfl
        | ok text => exact ih h

namespace Session

theorem resolveMissing {added : AddedIds} {item : ItemRef} {e : Error}
    (h : resolve added item = .error e) : ∃ what, e = .notFound what := by
  unfold resolve at h
  split at h
  · cases h
  · split at h <;> cases h
    exact ⟨_,rfl⟩

theorem resolvesMissing {added : AddedIds} {item : Option ItemRef} {e : Error}
    (h : resolve? added item = .error e) : ∃ what, e = .notFound what := by
  cases item with
  | none => cases h
  | some item =>
    cases found : resolve added item with
    | ok id => simp [resolve?,found,Except.map] at h
    | error cause =>
      simp only [resolve?,found,Except.map,Except.error.injEq] at h
      exact resolveMissing (found.trans (congrArg _ h))

theorem resolveEncodes {σ : Type} (added : AddedIds) (item : ItemRef) :
    Encodes (liftM (resolve added item) : Access σ ItemId) :=
  .lift fun _ h => by obtain ⟨_,rfl⟩ := resolveMissing h; exact fun kind => by cases kind

theorem resolvesEncode {σ : Type} (added : AddedIds) (item : Option ItemRef) :
    Encodes (liftM (resolve? added item) : Access σ (Option ItemId)) :=
  .lift fun _ h => by obtain ⟨_,rfl⟩ := resolvesMissing h; exact fun kind => by cases kind

theorem itemsRequired {σ : Type} (f : Facility) (operation : String) :
    Encodes (liftM (f.requireItems operation) : Access σ Unit) := by
  refine .lift fun e h => ?_
  unfold Facility.requireItems at h
  split at h <;> cases h
  exact fun kind => by cases kind

theorem itemChecked {σ : Type} (f : Facility) (item : Option ItemId) :
    Encodes (liftM (f.checkItem item) : Access σ Unit) := by
  refine .lift fun e h => ?_
  unfold Facility.checkItem at h
  split at h <;> cases h <;> exact fun kind => by cases kind

theorem performRefused {f : Facility} {index : Nat} {added : AddedIds} {operation : Operation}
    {d d' : Replica} {e : Error} (h : perform f index added operation d = (.error e,d'))
    (cause : e.root.kind = .encodingError) : operation.encodable = false ∧ d' = d := by
  cases operation with
  | add values before =>
    rcases bindError.mp h with h | ⟨place,_,resolved,h⟩
    · exact absurd cause (resolvesEncode added before _ _ _ h)
    cases (liftOk.mp resolved).2
    rcases bindError.mp (answerFails h) with h | ⟨_,_,passed,h⟩
    · exact absurd cause (itemsRequired f _ _ _ _ h)
    cases (liftOk.mp passed).2
    split at h
    · obtain ⟨rfl,-⟩ := failError.mp h
      cases cause
    · rcases bindError.mp h with h | ⟨_,_,written,h⟩
      · obtain ⟨refused,rfl⟩ := liftError.mp h
        exact ⟨unwritable refused,rfl⟩
      · cases (liftOk.mp written).2
        exact addRefused h cause
  | set item values =>
    rcases bindError.mp (answerFails h) with h | ⟨_,_,addressed,h⟩
    · exact absurd cause (itemChecked f item _ _ _ h)
    cases (liftOk.mp addressed).2
    rcases bindError.mp h with h | ⟨_,_,written,h⟩
    · obtain ⟨refused,rfl⟩ := liftError.mp h
      exact ⟨unwritable refused,rfl⟩
    · cases (liftOk.mp written).2
      exact setRefused h cause
  | remove id =>
    exact absurd cause (Encodes.bind (.bind (itemsRequired f _) fun _ => removeEncodes f.path id)
      (fun _ => .pure _) _ _ _ h)
  | move item before =>
    refine absurd cause (Encodes.bind (resolveEncodes added item) (fun id => ?_) _ _ _ h)
    refine .bind (resolvesEncode added before) fun place => .bind ?_ fun _ => .pure _
    unfold Facility.move
    split
    · exact moveEncodes f.path id place
    · exact .fail (fun kind => by cases kind)
  | enable id =>
    exact absurd cause (Encodes.bind (.bind (itemsRequired f _) fun _ => setDisabledEncodes f.path id _)
      (fun _ => .pure _) _ _ _ h)
  | disable id =>
    exact absurd cause (Encodes.bind (.bind (itemsRequired f _) fun _ => setDisabledEncodes f.path id _)
      (fun _ => .pure _) _ _ _ h)

theorem performEncodable {f : Facility} {index : Nat} {added added' : AddedIds}
    {operation : Operation} {d d' : Replica}
    (h : perform f index added operation d = (.ok added',d')) : operation.encodable = true := by
  cases operation with
  | add values before =>
    simp only [perform,bindOk,liftOk,Facility.add] at h
    obtain ⟨_,_,-,_,_,⟨_,_,-,h⟩,-⟩ := h
    split at h
    · exact absurd h failNotOk
    · simp only [bindOk,liftOk] at h
      obtain ⟨_,_,-,stored⟩ := h
      obtain ⟨_,_,checked,-⟩ := bindOk.mp stored
      rw [Operation.encodable,(liftOk.mp checked).1]
      rfl
  | set item values =>
    simp only [perform,bindOk,liftOk,Facility.set] at h
    obtain ⟨_,_,⟨_,_,-,_,_,-,stored⟩,-⟩ := h
    obtain ⟨_,_,checked,-⟩ := bindOk.mp stored
    rw [Operation.encodable,(liftOk.mp checked).1]
    rfl
  | _ => rfl

variable {τ : Type} {f : Facility}

theorem appliedEncodable {index : Nat} {added : AddedIds} {operations : List Operation}
    {s s' : Session Replica τ} (h : applyFrom f index added operations s = (.ok (),s')) :
    ∀ operation ∈ operations, operation.encodable = true := by
  induction operations generalizing index added s with
  | nil => simp
  | cons operation rest ih =>
    obtain ⟨given,d,performed,later⟩ := applyNext.mp h
    intro other mem
    rcases List.mem_cons.mp mem with rfl | mem
    · exact performEncodable performed
    · exact ih later other mem

theorem appliedRefused {index : Nat} {added : AddedIds} {operations : List Operation}
    {s s' : Session Replica τ} {e : Error}
    (h : applyFrom f index added operations s = (.error e,s')) (cause : e.root.kind = .encodingError) :
    ∃ (done : List Operation) (refused : Operation) (rest : List Operation) (n : Session Replica τ),
      operations = done ++ refused :: rest ∧ refused.encodable = false ∧
      applyFrom f index added done s = (.ok (),n) ∧ s'.device = n.device ∧
      e.appliedWrites = index + done.length := by
  rcases appliedStops h with ⟨_,said,-⟩ | ⟨done,refused,rest,_,n,_,split,carried,stopped,said⟩
  · cases said
  · cases said
    obtain ⟨bad,same⟩ := performRefused stopped cause
    exact ⟨done,refused,rest,n,split,bad,carried.applied,same,rfl⟩

end Session

/-- How a live run stops at a value without a literal: in planning, with nothing done, or at the first
operation of the plan with such a value, with the ones before it carried out. -/
inductive Refusal [PatternEngine] {τ : Type} (t : FacilityTask) (s s' : Session Replica τ) (e : Error) : Prop
  | planning (failed : t.plan s.device = (.error (.failed e),s.device)) (still : s'.device = s.device)
  | applying (plan : Plan) (done rest : List Operation) (refused : Operation) (n : Session Replica τ)
      (planned : t.plan s.device = (.ok plan,s.device))
      (split : plan.operations = done ++ refused :: rest)
      (before : ∀ operation ∈ done, operation.encodable = true)
      (here : refused.encodable = false)
      (carried : applyFrom t.facility 0 [] done (s.observe (.started (.facility t))) = (.ok (),n))
      (still : s'.device = n.device)
      (count : e.appliedWrites = done.length)

/-- A live run that fails for a value without a literal. If it was planned, then nothing has been
applied exactly if the first operation of the plan has such a value. -/
theorem encodingStops [PatternEngine] {τ : Type} [FileTransfer Replica τ] {options : RunOptions} {t : FacilityTask}
    {s s' : Session Replica τ} {outcome : Outcome} {e : Error} (live : options.dryRun = false)
    (ran : runTask options (.facility t) s = (.ok outcome,s')) (failed : outcome.error = some e)
    (cause : e.root.kind = .encodingError) :
    Refusal t s s' e ∧ ∀ plan, t.plan s.device = (.ok plan,s.device) →
      ((e.appliedWrites = 0 ∧ ∀ path, s'.device.records path = s.device.records path) ↔
        plan.operations.head?.any (fun operation => !operation.encodable) = true) := by
  rcases facilityRun live ran with ⟨_,planning,rfl,still⟩ |
    ⟨plan,answer,m,planned,-,applied,last,ended⟩
  · cases failed
    refine ⟨.planning planning still,fun plan planned => ?_⟩
    rw [planning] at planned
    cases planned
  · cases answer with
    | ok done =>
      simp only at ended
      rw [ended] at failed
      cases failed
    | error source =>
      simp only at ended
      rw [ended] at failed
      cases failed
      obtain ⟨done,refused,rest,n,split,bad,carried,same,count⟩ := appliedRefused applied cause
      have encodable := appliedEncodable carried
      have written : (Error.inTask t.path.text t.mode.name none source).appliedWrites = done.length :=
        count.trans (Nat.zero_add _)
      refine ⟨.applying plan done rest refused n planned split encodable bad carried (last.trans same)
        written,fun other again => ?_⟩
      rw [planned] at again
      cases again
      rw [written,split]
      cases done with
      | nil =>
        cases carried
        refine ⟨fun _ => by simp [bad],fun _ => ⟨rfl,fun path => ?_⟩⟩
        rw [last,same]
        rfl
      | cons first others => simp [encodable first List.mem_cons_self]

open scoped Pattern

theorem encodingStopsPools : ∃ outcome after e,
    poolRun (.replace [poolLine "bell\x07"] false 1) = (.ok outcome,after) ∧ outcome.error = some e ∧
    e.root.kind = .encodingError ∧
    Refusal ⟨⟨"/ip pool"⟩,.replace [poolLine "bell\x07"] false 1⟩ ⟨pools,none,Files.empty,[]⟩ after e := by
  have checked : (poolRun (.replace [poolLine "bell\x07"] false 1)).1.toOption.any
      (·.error.any fun e => e.root.kind = .encodingError) = true := by decide +kernel
  obtain ⟨outcome,after,ran,cause⟩ := runAnswers checked
  obtain ⟨e,failed,cause⟩ := (Option.any_eq_true _ _).mp cause
  have cause := of_decide_eq_true cause
  exact ⟨outcome,after,e,ran,failed,cause,(encodingStops rfl ran failed cause).1⟩

-- Both pools are removed before the value comes up.
theorem encodingStopsLate : ∃ outcome after e,
    poolRun (.replace [poolLine "bell\x07"] false 1) = (.ok outcome,after) ∧ outcome.error = some e ∧
    e.root.kind = .encodingError ∧ pools.failAtWrite = none ∧ e.appliedWrites = 2 ∧
    (pools.records ⟨"/ip pool"⟩).length = 2 ∧ after.device.records ⟨"/ip pool"⟩ = [] := by
  refine ⟨_,_,_,(Prod.eta _).symm,rfl,?_⟩
  decide +kernel

end RouterReconciler

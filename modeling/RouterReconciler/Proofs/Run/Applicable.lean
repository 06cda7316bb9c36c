import RouterReconciler.Proofs.Device.Standing
import RouterReconciler.Proofs.Reconcile.Founded
import RouterReconciler.Proofs.Reconcile.Orderly
import RouterReconciler.Proofs.Run.Live
import RouterReconciler.Proofs.Run.Stops

/-! Every plan can be carried out on the device it was made for. What an operation names is there when it
is its turn, so applying the plan stops only at the write that is made to fail, or at a value without a
literal. -/
namespace RouterReconciler
open Replica Step Session Reconcile

structure Applicable {τ : Type} (plan : Plan) (s : Session Replica τ) : Prop where
  earlier : ∀ (m : Nat) (operation : Operation) (n : Nat), plan.operations[m]? = some operation →
    .added n ∈ operation.refs → n < m ∧ ∃ values before, plan.operations[n]? = some (.add values before)
  there : ∀ (done : List Operation) (operation : Operation) (rest : List Operation)
    (n : Session Replica τ), plan.operations = done ++ operation :: rest →
    applyFrom plan.facility 0 [] done s = (.ok (),n) →
    ∀ id, .existing id ∈ operation.refs → some id ∈ ids (n.device.records plan.facility.path)
  once : (removed plan.operations).Nodup
  allowed : ∀ operation ∈ plan.operations, operation.allowed plan.facility.shape = true
  stops : ∀ (e : Error) (s' : Session Replica τ), apply plan s = (.error e,s') →
    ∃ (done : List Operation) (operation : Operation) (rest : List Operation)
      (n : Session Replica τ) (cause : Error), plan.operations = done ++ operation :: rest ∧
      applyFrom plan.facility 0 [] done s = (.ok (),n) ∧
      e = .partialApply done.length (lastBefore done.length) cause ∧
      (Injected n.device cause ∧ n.device.failAtWrite = s.device.failAtWrite ∨
        Unencoded operation.values cause)

theorem carriedOk {τ : Type} {f : Facility} {operations : List Operation} {s n : Session Replica τ}
    (h : applyFrom f 0 [] operations s = (.ok (),n)) : ∃ given, Carried f 0 [] operations s n given := by
  rcases appliedStops h with ⟨given,-,carried⟩ | ⟨_,_,_,_,_,_,-,-,-,said⟩
  · exact ⟨given,carried⟩
  · cases said

theorem onlyOne {α : Type} {x y : α} {front back : List α} (h : [x] = front ++ y :: back) :
    y = x ∧ front = [] := by
  cases front with
  | nil => cases h; exact ⟨rfl,rfl⟩
  | cons z front => simp at h

theorem handlesStand (rs : List Record) (added : AddedIds) :
    ((handles rs).map (View.refId added)).Sublist (ids rs) := by
  induction rs with
  | nil => exact .slnil
  | cons r rest ih =>
    cases named : r.id with
    | none =>
      have skip : handles (r :: rest) = handles rest := by simp [handles,named]
      rw [skip]
      exact ih.cons r.id
    | some id =>
      rw [handlesCons named,ids,List.map_cons,List.map_cons,named]
      exact ih.cons_cons (some id)

theorem Standing.start (d : Replica) (path : FacilityPath) :
    Standing 0 (handles (lasting (d.records path))) (.ofReplica d path []) := by
  refine ⟨fun item mem => ?_,?_,fun n mem => ?_⟩
  · obtain ⟨id,rfl,-⟩ := memHandles.mp mem
    rfl
  · exact ((handlesStand _ _).trans (List.filter_sublist.map _)).subperm
  · obtain ⟨id,same,-⟩ := memHandles.mp mem
    cases same

section Several
variable {τ : Type} {f : Facility} {s n : Session Replica τ} {done rest : List Operation}
  {operation : Operation} {given : AddedIds} (several : f.shape ≠ .singleton)
  (orderly : Orderly f.shape (Removable (s.device.records f.path)) 0
    (handles (lasting (s.device.records f.path))) (done ++ operation :: rest))
  (carried : Carried f 0 [] done s n given)
include several orderly carried

theorem carriedStanding : Standing done.length
    (left 0 (handles (lasting (s.device.records f.path))) done) (.ofReplica n.device f.path given) := by
  have standing := (Standing.start s.device f.path).run (orderlyAppend.mp orderly).1
    (carried.view several)
  rwa [Nat.zero_add] at standing

theorem namedThere {id : ItemId} (mem : .existing id ∈ operation.refs) :
    some id ∈ ids (n.device.records f.path) := by
  obtain ⟨_,same,there⟩ := (carriedStanding several orderly carried).found (orderly.turn.named _ mem)
  cases same
  exact there

theorem stopsInTurn {cause : Error} {d' : Replica} (items : s.device.HasItems f.path)
    (writable : operation.values.checkWritable = .ok ())
    (stopped : perform f done.length given operation n.device = (.error cause,d')) :
    Injected n.device cause ∧ n.device.failAtWrite = s.device.failAtWrite ∨
      Unencoded operation.values cause := by
  have beside := carried.beside several
  refine (performInTurn (carriedStanding several orderly carried) (beside.items items) several
    orderly.turn writable stopped).imp_left fun injected => ⟨injected,beside.failing⟩

end Several

-- What the device holds does not stop a plan: the injected failure does, or a value without a literal.
theorem planStops [PatternEngine] {τ : Type} {t : FacilityTask} {s s' : Session Replica τ} {d : Replica} {plan : Plan}
    {e : Error} (distinct : (ids (s.device.records t.path)).Nodup) (planned : t.plan s.device = (.ok plan,d))
    (stopped : apply plan s = (.error e,s')) :
    ∃ (done : List Operation) (operation : Operation) (rest : List Operation)
      (n : Session Replica τ) (cause : Error), plan.operations = done ++ operation :: rest ∧
      applyFrom plan.facility 0 [] done s = (.ok (),n) ∧
      e = .partialApply done.length (lastBefore done.length) cause ∧
      (Injected n.device cause ∧ n.device.failAtWrite = s.device.failAtWrite ∨
        Unencoded operation.values cause) := by
  have facility : plan.facility = t.facility := Reconcile.planFacility (mapErrorOk.mp planned)
  have writable := FacilityTask.planWritable planned
  have suits := Reconcile.planModePlanned distinct planned
  have orderly := suits.orderly
  rw [apply,facility] at stopped
  rcases appliedStops stopped with ⟨_,said,-⟩ |
    ⟨done,operation,rest,given,n,cause,split,carried,failed,said⟩
  · cases said
  cases said
  rw [Nat.zero_add] at failed ⊢
  refine ⟨done,operation,rest,n,cause,split,by rw [facility]; exact carried.applied,rfl,?_⟩
  have checked := writable operation (by rw [split]; simp)
  rw [split] at orderly
  generalize plan.operations = operations at suits split
  cases suits with
  | nothing => simp at split
  | single shape alone =>
    obtain ⟨rfl,rfl⟩ := onlyOne split
    cases carried.applied
    exact (performSingle shape alone checked failed).imp_left fun injected => ⟨injected,rfl⟩
  | several shape items => exact stopsInTurn shape orderly carried items checked failed

/-- Every plan can be carried out on the device it was made for, in every mode. -/
theorem planApplies [PatternEngine] {τ : Type} {t : FacilityTask} {s : Session Replica τ} {d : Replica} {plan : Plan}
    (distinct : (ids (s.device.records t.path)).Nodup) (planned : t.plan s.device = (.ok plan,d)) :
    Applicable plan s := by
  have facility : plan.facility = t.facility := Reconcile.planFacility (mapErrorOk.mp planned)
  have suits := Reconcile.planModePlanned distinct planned
  have orderly := suits.orderly
  refine ⟨fun m operation n at_ named => ?_,fun done operation rest n split ran id named => ?_,
    orderly.removedOnce (handlesDistinct (lastingDistinct distinct)),
    by rw [facility]; exact orderly.allowed,fun e s' stopped => planStops distinct planned stopped⟩
  · obtain ⟨inside,rfl⟩ := List.getElem?_eq_some_iff.mp at_
    have split : plan.operations = plan.operations.take m ++
        plan.operations[m] :: plan.operations.drop (m + 1) := by
      rw [← List.drop_eq_getElem_cons inside,List.take_append_drop]
    rw [split] at orderly
    rcases addedLeft (orderly.turn.named _ named) with old | ⟨k,values,before,same,there⟩
    · obtain ⟨_,same,-⟩ := memHandles.mp old
      cases same
    · rw [Nat.zero_add] at same
      subst same
      obtain ⟨lower,-⟩ := List.getElem?_eq_some_iff.mp there
      rw [List.length_take] at lower
      rw [List.getElem?_take_of_lt (by omega)] at there
      exact ⟨by omega,values,before,there⟩
  · rw [facility] at ran ⊢
    obtain ⟨given,carried⟩ := carriedOk ran
    rw [split] at orderly
    generalize plan.operations = operations at suits split
    cases suits with
    | nothing => simp at split
    | single shape alone =>
      cases (onlyOne split).1
      cases named
    | several shape items => exact namedThere shape orderly carried named

open scoped Pattern

theorem planAppliesPools : ∃ plan d,
    FacilityTask.plan ⟨⟨"/ip pool"⟩,.adjust [poolLine "new",poolLine "lan"] ["name"] true 1⟩ pools =
      (.ok plan,d) ∧ plan.operations.length = 3 ∧
    Applicable plan (⟨pools,none,Files.empty,[]⟩ : Session Replica RemoteFiles) := by
  let planned := FacilityTask.plan
    ⟨⟨"/ip pool"⟩,.adjust [poolLine "new",poolLine "lan"] ["name"] true 1⟩ pools
  have size : planned.1.toOption.map (·.operations.length) = some 3 := by decide +kernel
  obtain ⟨plan,made,size⟩ := Option.map_eq_some_iff.mp size
  have made : planned.1 = .ok plan := by
    cases h : planned.1 <;> rw [h] at made <;> cases made
    rfl
  exact ⟨plan,planned.2,Prod.ext made rfl,size,
    planApplies (poolsSound.records _) (Prod.ext made rfl : planned = (.ok plan,planned.2))⟩

end RouterReconciler

import RouterReconciler.Proofs.Run.Traces

/-! Whether a task reports a change. A plan without operations leaves the device as it is; one that has any
leaves another state behind, even if the order in which fields were set does not count. So no plan cancels
itself out, whatever it sets, toggles or moves more than once. -/
namespace RouterReconciler
open Step Replica Reconcile Session Text

def Record.Same (r q : Record) : Prop := r.id = q.id ∧ ∀ key, r.get? key = q.get? key

inductive Store.Same : Store → Store → Prop
  | items {rs qs} (each : List.Forall₂ Record.Same rs qs) : Store.Same (.items rs) (.items qs)
  | singleton {r q} (one : r.Same q) : Store.Same (.singleton r) (.singleton q)

def Replica.Same (d d' : Replica) : Prop :=
  ∀ path, Option.Rel Store.Same (d.facilities.get? path) (d'.facilities.get? path)

theorem Record.Same.refl (r : Record) : r.Same r := ⟨rfl,fun _ => rfl⟩

theorem recordsSame (rs : List Record) : List.Forall₂ Record.Same rs rs :=
  List.forall₂_same.mpr fun r _ => .refl r

theorem Replica.Same.ofFacilities {d d' : Replica} (h : d.facilities = d'.facilities) : d.Same d' := by
  intro path
  rw [h]
  cases d'.facilities.get? path with
  | none => exact .none
  | some store =>
    cases store with
    | items rs => exact .some (.items (recordsSame rs))
    | singleton r => exact .some (.singleton (.refl r))

theorem Replica.Same.records {d d' : Replica} (h : d.Same d') (path : FacilityPath) :
    List.Forall₂ Record.Same (d.records path) (d'.records path) := by
  have here := h path.text
  unfold Replica.records
  generalize d.facilities.get? path.text = one at here ⊢
  generalize d'.facilities.get? path.text = other at here ⊢
  cases here with
  | none => exact .nil
  | some same =>
    cases same with
    | items each => exact each
    | singleton one => exact .cons one .nil

theorem idsSame {before after : List Record} (h : List.Forall₂ Record.Same before after) :
    ids after = ids before := by
  induction h with
  | nil => rfl
  | cons one _ ih => rw [ids,ids,List.map_cons,List.map_cons,one.1]; exact congrArg _ ih

theorem Apart.notSame {before after : List Record} (distinct : (ids before).Nodup)
    (h : Apart before after) : ¬ List.Forall₂ Record.Same before after := by
  intro same
  cases h with
  | order differ => exact differ (idsSame same)
  | @field r x key there found own differ =>
    obtain ⟨q,hq,named,holds⟩ := forallRight same found
    cases sameRecord distinct hq there (named.trans own)
    exact differ (holds key).symm

theorem facilitySetOk {f : Facility} {item : Option ItemId} {values : Assignments} {d d' : Replica}
    (h : f.set item values d = (.ok (),d')) : Replica.set f.path item values d = (.ok (),d') := by
  simp only [Facility.set,bindOk,liftOk] at h
  obtain ⟨_,_,⟨-,rfl⟩,_,_,⟨-,rfl⟩,stored⟩ := h
  exact stored

theorem readOneOk {f : Facility} {d d' : Replica} {r : Record} (h : f.readOne d = (.ok r,d')) :
    Replica.readOne f.path d = (.ok r,d') := by
  unfold Facility.readOne at h
  split at h
  · exact liftStepOk.mp h
  · exact absurd h failNotOk

theorem configureShows {f : Facility} {values changes : Assignments} {d d' m : Replica} {current : Record}
    (read : f.readOne d = (.ok current,m)) (compared : differing values current = .ok changes)
    (unsettled : changes.isEmpty = false) (h : f.set none changes d = (.ok (),d')) : ¬ d.Same d' := by
  intro same
  have here := same f.path.text
  obtain ⟨r,stood,stored,-⟩ := setSingletonOk (facilitySetOk h)
  cases (readOneOk read).symm.trans stood
  simp only [Replica.readOne] at stood
  rw [stored] at here
  split at stood
  · rename_i found
    cases stood
    rw [found] at here
    obtain ⟨key,a,sets⟩ := Entries.someGet unsettled
    cases here with
    | some stores =>
      cases stores with
      | singleton one =>
        have holds := one.2 key
        rw [Record.getApply,sets] at holds
        exact differingTells compared sets holds.symm
  · cases stood
  · rename_i absent
    rw [absent] at here
    cases here

theorem planDrift [PatternEngine] {t : FacilityTask} {d d' : Replica} {plan : Plan}
    (other : ∀ lines ordered position, t.mode ≠ .check lines ordered position)
    (h : t.plan d = (.ok plan,d')) : plan.drift = false := by
  have planned := mapErrorOk.mp h
  obtain ⟨path,mode⟩ := t
  cases mode with
  | check lines ordered position => exact absurd rfl (other lines ordered position)
  | findOnly targets position | count criteria | extract e =>
    simp only [planMode,bindOk,pureOk] at planned
    obtain ⟨_,_,-,rfl,-⟩ := planned
    rfl
  | _ =>
    rw [(writingOk planned).2]
    rfl

theorem planSingle [PatternEngine] {t : FacilityTask} {d d' : Replica} {plan : Plan} (single : t.mode.shape = .singleton)
    (planned : plan.operations ≠ []) (h : t.plan d = (.ok plan,d')) :
    ∃ values current changes m, t.facility.readOne d = (.ok current,m) ∧
      differing values current = .ok changes ∧ changes.isEmpty = false ∧
      plan.operations = [.set none changes] := by
  have made := mapErrorOk.mp h
  obtain ⟨path,mode⟩ := t
  cases mode with
  | configure values =>
    have configured := (writingOk made).1
    obtain ⟨current,read,changes,compared,written⟩ := configureEnds.mp configured
    rcases modificationOk written with ⟨none,-⟩ | ⟨one,unsettled,-⟩
    · exact absurd none planned
    · exact ⟨values,current,changes,_,read,compared,unsettled,one⟩
  | extract e =>
    exact absurd (planReads rfl made).2 planned
  | absent targets | toggle targets enable | count criteria | move criteria position missing =>
    cases single
  | _ => exact absurd single (severalIf _)

theorem appliedOne {τ : Type} {f : Facility} {item : Option ItemId} {values : Assignments}
    {s n : Session Replica τ} (h : applyFrom f 0 [] [.set item values] s = (.ok (),n)) :
    f.set item values s.device = (.ok (),n.device) := by
  obtain ⟨added,d,done,ended⟩ := applyNext.mp h
  cases ended
  simp only [perform,bindOk,pureOk] at done
  obtain ⟨_,_,stored,-,rfl⟩ := done
  exact stored

theorem appliedShows [PatternEngine] {τ : Type} {t : FacilityTask} {plan : Plan} {s n : Session Replica τ}
    (sound : s.device.Sound) (planned : t.plan s.device = (.ok plan,s.device))
    (operations : plan.operations ≠ []) (word : n.device.nextId ≤ maxWord64)
    (applied : applyFrom t.facility 0 [] plan.operations s = (.ok (),n)) : ¬ s.device.Same n.device := by
  by_cases single : t.mode.shape = .singleton
  · obtain ⟨values,current,changes,m,read,compared,unsettled,one⟩ := planSingle single operations planned
    rw [one] at applied
    exact configureShows read compared unsettled (appliedOne applied)
  · have distinct := sound.records t.path
    have suits := planModePlanned distinct planned
    obtain ⟨⟨added,reached⟩,-⟩ := View.appliedView single applied
    have founded := (t.planFounded (readableRecords single) s.device plan s.device rfl planned).1
    have seen : Apart (s.device.records t.path) (n.device.records t.path) :=
      View.runShows distinct operations (fun id gone => suits.removes gone)
        (fun k lower upper => sound.unused (suits.items single operations) lower
          (Nat.le_of_lt (Nat.lt_of_lt_of_le upper word)))
        (founded.tells fun _ known => known.2) (planMoving distinct planned) reached
    exact fun same => seen.notSame distinct (same.records t.path)

theorem changedTruthful [PatternEngine] {τ : Type} [FileTransfer Replica τ] {options : RunOptions} {t : FacilityTask}
    {s s' : Session Replica τ} {outcome : Outcome} (sound : s.device.Sound)
    (other : ∀ lines ordered position, t.mode ≠ .check lines ordered position)
    (live : options.dryRun = false) (ran : Session.runTask options (.facility t) s = (.ok outcome,s'))
    (succeeded : outcome.failed = false) (word : s'.device.nextId ≤ maxWord64) :
    (outcome.changed = true ↔ s'.device.facilities ≠ s.device.facilities) ∧
    (outcome.changed = true ↔ ¬ s.device.Same s'.device) := by
  rcases facilityRun live ran with ⟨e,-,rfl,-⟩ | ⟨plan,answer,n,planned,-,applied,last,ended⟩
  · cases succeeded
  · cases answer with
    | error e => cases ended; cases succeeded
    | ok done =>
      subst ended
      have reported : plan.isChanged = true ↔ plan.operations ≠ [] := by
        simp [Plan.isChanged,planDrift other planned]
      simp only [reported]
      by_cases nothing : plan.operations = []
      · rw [nothing] at applied
        obtain ⟨-,rfl⟩ := pureOk.mp applied
        have still : s'.device.facilities = s.device.facilities := by rw [last]; rfl
        simp [nothing,still,Replica.Same.ofFacilities still.symm]
      · have differs : ¬ s.device.Same s'.device := by
          rw [last] at word ⊢
          exact appliedShows (s := s.observe (.started (.facility t))) sound planned nothing word applied
        exact ⟨iff_of_true nothing fun same => differs (.ofFacilities same.symm),
          iff_of_true nothing differs⟩

open scoped Pattern

theorem changedTruthfulPools :
    (∃ outcome after, poolRun (.adjust [poolLine "new",poolLine "lan"] ["name"] true 1) = (.ok outcome,after) ∧
      outcome.changed = true ∧ ¬ pools.Same after.device) ∧
    ∃ outcome after, poolRun (.adjust [poolLine "old",poolLine "lan"] ["name"] true 1) = (.ok outcome,after) ∧
      outcome.changed = false ∧ after.device.facilities = pools.facilities := by
  have other : ∀ lines keys, ∀ checked ordered position,
      Mode.adjust lines keys true 1 ≠ .check checked ordered position := nofun
  constructor
  · obtain ⟨outcome,after,ran,succeeded,word⟩ :=
      poolRan (.adjust [poolLine "new",poolLine "lan"] ["name"] true 1) (by decide +kernel)
    have changes : outcome.changed = true :=
      Option.some.inj ((congrArg (·.1.toOption.map Outcome.changed) ran).symm.trans (by decide +kernel))
    exact ⟨outcome,after,ran,changes,
      (changedTruthful poolsSound (other _ _) rfl ran succeeded word).2.mp changes⟩
  · obtain ⟨outcome,after,ran,succeeded,word⟩ :=
      poolRan (.adjust [poolLine "old",poolLine "lan"] ["name"] true 1) (by decide +kernel)
    have rests : outcome.changed = false :=
      Option.some.inj ((congrArg (·.1.toOption.map Outcome.changed) ran).symm.trans (by decide +kernel))
    have truthful := (changedTruthful poolsSound (other _ _) rfl ran succeeded word).1
    rw [rests] at truthful
    exact ⟨outcome,after,ran,rests,not_not.mp fun differs => nomatch truthful.mpr differs⟩

end RouterReconciler

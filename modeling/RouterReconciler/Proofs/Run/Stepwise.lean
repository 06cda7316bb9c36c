import RouterReconciler.Run.Apply

/-! Applying operations as a trace: which were performed, each on the device as the one before it has
left it, and where it stopped. What stands behind the operation that fails is never looked at. -/
namespace RouterReconciler.Session
open Step
variable {σ τ : Type} [Device σ]

inductive Steps (f : Facility) :
    Nat → AddedIds → List Operation → Session σ τ → Session σ τ → AddedIds → Prop where
  | none (index added s) : Steps f index added [] s s added
  | next {index added operation rest s m n step given}
      (performed : onDevice (perform f index added operation) s = (.ok step,m))
      (later : Steps f (index + 1) step rest (m.observe (.performed f.path operation)) n given) :
      Steps f index added (operation :: rest) s n given

variable {f : Facility} {index : Nat} {added given : AddedIds} {operation : Operation}
  {operations : List Operation} {s n s' : Session σ τ} {cause : Error}

theorem Steps.followed (steps : Steps f index added operations s n given) (rest : List Operation) :
    applyFrom f index added (operations ++ rest) s =
      applyFrom f (index + operations.length) given rest n := by
  induction steps with
  | none => rfl
  | @next index added operation others s m n step given performed later ih =>
    have shift : index + (operation :: others).length = index + 1 + others.length := by
      rw [List.length_cons]; omega
    rw [List.cons_append,applyFrom,bindAfter (mapErrorOk.mpr performed),shift,← ih]
    rfl

theorem Steps.applied (steps : Steps f index added operations s n given) :
    applyFrom f index added operations s = (.ok (),n) := by
  have all := steps.followed []
  rw [List.append_nil] at all
  exact all

theorem Steps.seen (steps : Steps f index added operations s n given) :
    n.events = s.events ++ operations.map (.performed f.path) := by
  induction steps with
  | none => simp
  | next performed later ih =>
    obtain ⟨d,-,rfl⟩ := onDeviceEnds.mp performed
    simpa [observe] using ih

theorem Steps.stopped (steps : Steps f index added operations s n given)
    (failed : onDevice (perform f (index + operations.length) given operation) n = (.error cause,s'))
    (rest : List Operation) :
    applyFrom f index added (operations ++ operation :: rest) s =
      (.error (.partialApply (index + operations.length) (lastBefore (index + operations.length)) cause),
        s') := by
  rw [steps.followed,applyFrom,bindFailed (mapErrorError.mpr ⟨cause,failed,rfl⟩)]

theorem appliedTrace {answer : Except Error Unit}
    (h : applyFrom f index added operations s = (answer,s')) :
    (∃ given, answer = .ok () ∧ Steps f index added operations s s' given) ∨
    ∃ (done : List Operation) (failed : Operation) (rest : List Operation) (given : AddedIds)
      (n : Session σ τ) (cause : Error), operations = done ++ failed :: rest ∧
      Steps f index added done s n given ∧
      onDevice (perform f (index + done.length) given failed) n = (.error cause,s') ∧
      answer = .error (.partialApply (index + done.length) (lastBefore (index + done.length)) cause) := by
  induction operations generalizing index added s with
  | nil =>
    cases h
    exact .inl ⟨added,rfl,.none _ _ _⟩
  | cons operation rest ih =>
    obtain ⟨first,m,performed⟩ : ∃ first m, onDevice (perform f index added operation) s = (first,m) :=
      ⟨_,_,rfl⟩
    cases first with
    | error cause =>
      rw [applyFrom,bindFailed (mapErrorError.mpr ⟨cause,performed,rfl⟩)] at h
      cases h
      exact .inr ⟨[],operation,rest,added,s,cause,rfl,.none _ _ _,performed,rfl⟩
    | ok step =>
      rw [applyFrom,bindAfter (mapErrorOk.mpr performed)] at h
      rcases ih h with ⟨given,rfl,steps⟩ | ⟨done,failed,others,given,n,cause,rfl,steps,stopped,said⟩
      · exact .inl ⟨given,rfl,.next performed steps⟩
      · have shift : index + (operation :: done).length = index + 1 + done.length := by
          rw [List.length_cons]; omega
        rw [← shift] at stopped said
        exact .inr ⟨operation :: done,failed,others,given,n,cause,rfl,.next performed steps,stopped,said⟩

end RouterReconciler.Session

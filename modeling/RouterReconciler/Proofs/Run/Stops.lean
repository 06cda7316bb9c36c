import RouterReconciler.Proofs.Device.Failures
import RouterReconciler.Proofs.Device.View
import RouterReconciler.Proofs.Run.Stepwise

/-! Applying operations, up to where it stops: either all have been carried out, or there is a first one
that fails, and it finds the device as the ones before it have left it. -/
namespace RouterReconciler
open Step Replica

namespace Session
variable {τ : Type} {f : Facility} {index : Nat} {added : AddedIds} {operation : Operation}
  {operations : List Operation} {s s' : Session Replica τ}

structure Carried (f : Facility) (index : Nat) (added : AddedIds) (operations : List Operation)
    (s n : Session Replica τ) (given : AddedIds) : Prop where
  applied : applyFrom f index added operations s = (.ok (),n)
  view : f.shape ≠ .singleton → (View.ofReplica s.device f.path added).run index operations =
    some (View.ofReplica n.device f.path given)
  beside : f.shape ≠ .singleton → Beside f.path s.device n.device

theorem Carried.none (s : Session Replica τ) : Carried f index added [] s s added :=
  ⟨rfl,fun _ => rfl,fun _ => .refl _ _⟩

theorem Carried.after {rest : List Operation} {m n : Session Replica τ} {next given : AddedIds}
    (performed : onDevice (perform f index added operation) s = (.ok next,m))
    (later : Carried f (index + 1) next rest (m.observe (.performed f.path operation)) n given) :
    Carried f index added (operation :: rest) s n given := by
  obtain ⟨d,done,rfl⟩ := onDeviceEnds.mp performed
  refine ⟨?_,fun several => ?_,fun several => ?_⟩
  · rw [applyFrom,bindAfter (mapErrorOk.mpr performed)]
    exact later.applied
  · obtain ⟨stepped,-⟩ := View.performView several done
    simp only [View.run,stepped,Option.bind_some]
    exact later.view several
  · exact (View.performView several done).2.trans (later.beside several)

theorem Steps.carried {given : AddedIds} {n : Session Replica τ}
    (steps : Steps f index added operations s n given) : Carried f index added operations s n given := by
  induction steps with
  | none => exact .none _
  | next performed later ih => exact .after performed ih

theorem appliedStops {answer : Except Error Unit}
    (h : applyFrom f index added operations s = (answer,s')) :
    (∃ given, answer = .ok () ∧ Carried f index added operations s s' given) ∨
    ∃ (done : List Operation) (failed : Operation) (rest : List Operation) (given : AddedIds)
      (n : Session Replica τ) (cause : Error), operations = done ++ failed :: rest ∧
      Carried f index added done s n given ∧
      perform f (index + done.length) given failed n.device = (.error cause,s'.device) ∧
      answer = .error (.partialApply (index + done.length) (lastBefore (index + done.length)) cause) := by
  rcases appliedTrace h with ⟨given,said,steps⟩ | ⟨done,failed,rest,given,n,cause,split,steps,stopped,said⟩
  · exact .inl ⟨given,said,steps.carried⟩
  · obtain ⟨d,here,rfl⟩ := onDeviceEnds.mp stopped
    exact .inr ⟨done,failed,rest,given,n,cause,split,steps.carried,here,said⟩

end Session
end RouterReconciler

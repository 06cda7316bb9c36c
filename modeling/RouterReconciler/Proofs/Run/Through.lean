import RouterReconciler.Proofs.Run.Applicable
import RouterReconciler.Proofs.Run.Endings
import RouterReconciler.Proofs.Value.Literals

/-! Live runs that go through. A plan can be carried out on the device it was made for; so where none of its
writes is made to fail, and its values have literals, it is carried out to the last operation. What is at
other paths stays as it is. -/
namespace RouterReconciler
open Step Replica Session

def Unguarded (d : Replica) (count : Nat) : Prop := ∀ k < count, d.failAtWrite ≠ some (d.writes + k)

theorem Session.Steps.elsewhere {τ : Type} {f : Facility} {index : Nat} {added given : AddedIds}
    {operations : List Operation} {s n : Session Replica τ} (several : f.shape ≠ .singleton)
    (steps : Steps f index added operations s n given) (other : String) (away : other ≠ f.path.text) :
    n.device.facilities.get? other = s.device.facilities.get? other := by
  induction steps with
  | none => rfl
  | next performed later ih =>
    obtain ⟨d,done,rfl⟩ := onDeviceEnds.mp performed
    obtain ⟨-,rs,holds⟩ := View.performHolds several done
    exact ih.trans (holds.elsewhere other away)

section
variable {τ : Type} {t : FacilityTask} {plan : Plan} {s s' : Session Replica τ}
  (distinct : (ids (s.device.records t.path)).Nodup)
include distinct

theorem planGoesThrough [PatternEngine] {d : Replica} (planned : t.plan s.device = (.ok plan,d))
    (spared : Unguarded s.device plan.operations.length)
    (encodable : ∀ operation ∈ plan.operations, checkEncodable operation.values.toList = .ok ()) :
    ∃ n, apply plan s = (.ok (),n) := by
  obtain ⟨answer,n,applied⟩ : ∃ answer n, apply plan s = (answer,n) := ⟨_,_,rfl⟩
  cases answer with
  | ok done => exact ⟨n,applied⟩
  | error e =>
    obtain ⟨done,operation,rest,m,cause,split,ran,-,why⟩ := planStops distinct planned applied
    rcases why with ⟨injected,failing⟩ | ⟨key,v,mem,failed⟩
    · rcases appliedTrace ran with ⟨given,-,steps⟩ | ⟨_,_,_,_,_,_,-,-,-,said⟩
      · have next := injected.next
        rw [failing,steps.entered.writes] at next
        exact absurd next (spared done.length (by simp [split]))
      · cases said
    · obtain ⟨text,encoded⟩ := encodableEach.mp (encodable operation (by simp [split])) key v mem
      cases failed.symm.trans (encodedForWrite.mp encoded).2

structure WentThrough (t : FacilityTask) (plan : Plan) (d d' : Replica) : Prop where
  view : ∃ given, (View.ofReplica d t.path []).run 0 plan.operations = some (View.ofReplica d' t.path given)
  entered : Entered plan.operations.length d d'
  items : d.HasItems t.path → d'.HasItems t.path
  elsewhere : ∀ other, other ≠ t.path.text → d'.facilities.get? other = d.facilities.get? other

theorem runGoesThrough [PatternEngine] [FileTransfer Replica τ] {options : RunOptions} {outcome : Outcome}
    (several : t.mode.shape ≠ .singleton) (planned : t.plan s.device = (.ok plan,s.device))
    (spared : Unguarded s.device plan.operations.length)
    (encodable : ∀ operation ∈ plan.operations, checkEncodable operation.values.toList = .ok ())
    (live : options.dryRun = false) (ran : runTask options (.facility t) s = (.ok outcome,s')) :
    outcome = ⟨plan.isChanged,false,plan.returnValues,none⟩ ∧ WentThrough t plan s.device s'.device := by
  rcases facilityRun live ran with ⟨e,failed,-,-⟩ | ⟨other,answer,n,made,facility,applied,last,ended⟩
  · cases planned.symm.trans failed
  · cases planned.symm.trans made
    obtain ⟨m,whole⟩ := planGoesThrough (s := s.observe (.started (.facility t))) distinct planned spared
      encodable
    rw [apply,facility,applied] at whole
    cases whole
    rcases appliedTrace applied with ⟨given,-,steps⟩ | ⟨_,_,_,_,_,_,-,-,-,said⟩
    · rw [last]
      exact ⟨ended,⟨given,steps.carried.view several⟩,steps.entered,(steps.carried.beside several).items,
        steps.elsewhere several⟩
    · cases said

end
end RouterReconciler

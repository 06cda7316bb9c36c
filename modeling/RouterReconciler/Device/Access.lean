import RouterReconciler.Error

/-!
Steps on a state: a step gives an answer or what has ended it, and in either case the state afterwards. After
the end nothing more is done. An access ends in an error; an inquiry may break off as well, where it compares
or reads values; an unfailing step only breaks off, since it turns errors into outcomes.
-/
namespace RouterReconciler

def Step (ε σ α : Type) : Type := σ → Except ε α × σ

abbrev Access : Type → Type → Type := Step Error
abbrev Inquiry : Type → Type → Type := Step (Halt Error)
abbrev Unfailing : Type → Type → Type := Step (Halt Empty)

class EndsIn (ε δ : Type) where
  toEnd : ε → δ

instance {ε : Type} : EndsIn ε ε := ⟨id⟩
instance {ε : Type} : EndsIn ε (Halt ε) := ⟨.failed⟩

namespace Step
variable {ε δ σ α β : Type}

instance : Monad (Step ε σ) where
  pure a := fun s => (.ok a,s)
  bind x f := fun s =>
    match x s with
    | (.ok a,s) => f a s
    | (.error e,s) => (.error e,s)

def fail (e : ε) : Step ε σ α := fun s => (.error e,s)

def get : Step ε σ σ := fun s => (.ok s,s)

def modify (f : σ → σ) : Step ε σ Unit := fun s => (.ok (),f s)

def mapError (f : ε → δ) (x : Step ε σ α) : Step δ σ α := fun s =>
  match x s with
  | (.ok a,s) => (.ok a,s)
  | (.error e,s) => (.error (f e),s)

instance : MonadLift (Step ε σ) (Step (Halt ε) σ) := ⟨mapError .failed⟩

def ofExcept [EndsIn ε δ] (x : Except ε α) : Step δ σ α := fun s => (x.mapError EndsIn.toEnd,s)

instance [EndsIn ε δ] : MonadLiftT (Except ε) (Step δ σ) := ⟨ofExcept⟩

@[simp]
theorem bindOk {x : Step ε σ α} {f : α → Step ε σ β} {s t : σ} {b : β} :
    (x >>= f) s = (.ok b,t) ↔ ∃ a m, x s = (.ok a,m) ∧ f a m = (.ok b,t) := by
  show (match x s with | (.ok a,s) => f a s | (.error e,s) => (.error e,s)) = _ ↔ _
  rcases x s with ⟨e | a,m⟩
  · simp
  · exact ⟨fun h => ⟨a,m,rfl,h⟩,fun ⟨_,_,same,h⟩ => by cases same; exact h⟩

theorem bindError {x : Step ε σ α} {f : α → Step ε σ β} {s t : σ} {e : ε} :
    (x >>= f) s = (.error e,t) ↔
      x s = (.error e,t) ∨ ∃ a m, x s = (.ok a,m) ∧ f a m = (.error e,t) := by
  show (match x s with | (.ok a,s) => f a s | (.error e,s) => (.error e,s)) = _ ↔ _
  rcases x s with ⟨e | a,m⟩
  · simp
  · exact ⟨fun h => .inr ⟨a,m,rfl,h⟩,fun h => by
      rcases h with h | ⟨_,_,same,h⟩
      · cases h
      · cases same; exact h⟩

theorem bindAfter {x : Step ε σ α} {s t : σ} {a : α} (h : x s = (.ok a,t)) (f : α → Step ε σ β) :
    (x >>= f) s = f a t := by
  show (match x s with | (.ok a,s) => f a s | (.error e,s) => (.error e,s)) = _
  rw [h]

theorem bindFailed {x : Step ε σ α} {s t : σ} {e : ε} (h : x s = (.error e,t))
    (f : α → Step ε σ β) : (x >>= f) s = (.error e,t) := by
  show (match x s with | (.ok a,s) => f a s | (.error e,s) => (.error e,s)) = _
  rw [h]

@[simp]
theorem pureOk {a b : α} {s t : σ} : (pure a : Step ε σ α) s = (.ok b,t) ↔ a = b ∧ s = t := by
  show (Except.ok a,s) = _ ↔ _
  simp

@[simp]
theorem pureError {a : α} {e : ε} {s t : σ} : (pure a : Step ε σ α) s ≠ (.error e,t) := by
  show (Except.ok a,s) ≠ _
  simp

theorem answerFails {x : Step ε σ α} {f : α → β} {e : ε} {s t : σ}
    (h : (x >>= fun a => pure (f a)) s = (.error e,t)) : x s = (.error e,t) := by
  rcases bindError.mp h with h | ⟨_,_,-,h⟩
  · exact h
  · exact (pureError h).elim

@[simp]
theorem liftOk [EndsIn ε δ] {x : Except ε α} {b : α} {s t : σ} :
    (liftM x : Step δ σ α) s = (.ok b,t) ↔ x = .ok b ∧ s = t := by
  show (x.mapError EndsIn.toEnd,s) = _ ↔ _
  rw [Prod.mk.injEq,exceptMapErrorOk]

theorem liftAnswer (x : Except ε α) (s : σ) : (liftM x : Step ε σ α) s = (x,s) := by
  cases x <;> rfl

theorem liftError {x : Except ε α} {e : ε} {s t : σ} :
    (liftM x : Step ε σ α) s = (.error e,t) ↔ x = .error e ∧ s = t := by
  show (x.mapError id,s) = _ ↔ _
  rw [Prod.mk.injEq,exceptMapErrorError]
  simp

theorem liftFailed {x : Except ε α} {e : Halt ε} {s t : σ} :
    (liftM x : Step (Halt ε) σ α) s = (.error e,t) ↔ (∃ c, x = .error c ∧ .failed c = e) ∧ s = t := by
  show (x.mapError Halt.failed,s) = _ ↔ _
  rw [Prod.mk.injEq,exceptMapErrorError]

@[simp]
theorem failNotOk {e : ε} {b : α} {s t : σ} : (fail e : Step ε σ α) s ≠ (.ok b,t) := by
  show (Except.error e,s) ≠ _
  simp

@[simp]
theorem failError {e e' : ε} {s t : σ} :
    (fail e : Step ε σ α) s = (.error e',t) ↔ e = e' ∧ s = t := by
  show (Except.error e,s) = _ ↔ _
  simp

@[simp]
theorem mapErrorOk {f : ε → δ} {x : Step ε σ α} {b : α} {s t : σ} :
    mapError f x s = (.ok b,t) ↔ x s = (.ok b,t) := by
  unfold mapError
  rcases x s with ⟨e | a,m⟩ <;> simp

@[simp]
theorem mapErrorError {f : ε → δ} {x : Step ε σ α} {e : δ} {s t : σ} :
    mapError f x s = (.error e,t) ↔ ∃ cause, x s = (.error cause,t) ∧ f cause = e := by
  unfold mapError
  rcases x s with ⟨c | a,m⟩
  · simp only [Prod.mk.injEq,Except.error.injEq]
    exact ⟨fun ⟨h,g⟩ => ⟨c,⟨rfl,g⟩,h⟩,fun ⟨_,⟨same,g⟩,h⟩ => ⟨same ▸ h,g⟩⟩
  · simp

@[simp]
theorem liftStepOk {x : Step ε σ α} {b : α} {s t : σ} :
    (liftM x : Step (Halt ε) σ α) s = (.ok b,t) ↔ x s = (.ok b,t) :=
  mapErrorOk

theorem liftStepError {x : Step ε σ α} {e : Halt ε} {s t : σ} :
    (liftM x : Step (Halt ε) σ α) s = (.error e,t) ↔ ∃ cause, x s = (.error cause,t) ∧ .failed cause = e :=
  mapErrorError

instance : LawfulMonad (Step ε σ) := LawfulMonad.mk' (Step ε σ)
  (fun x => by
    funext s
    show (match x s with | (.ok a,s) => (Except.ok a,s) | (.error e,s) => (.error e,s)) = x s
    rcases x s with ⟨a | a,t⟩ <;> rfl)
  (fun _ _ => rfl)
  (fun x f g => by
    funext s
    show (match (match x s with | (.ok a,s) => f a s | (.error e,s) => (.error e,s)) with
        | (.ok b,s) => g b s
        | (.error e,s) => (.error e,s)) =
      match x s with
      | (.ok a,s) => (match f a s with | (.ok b,s) => g b s | (.error e,s) => (.error e,s))
      | (.error e,s) => (.error e,s)
    rcases x s with ⟨a | a,t⟩ <;> rfl)

end Step
end RouterReconciler

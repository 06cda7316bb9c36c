import RouterReconciler.Device.Rehearsal
import RouterReconciler.Proofs.Reconcile.Reads

/-! A console reads with three kinds of script, and sends one of them again when it times out. So the
planning of a task sends reading scripts and nothing else, however the device answers. -/
namespace RouterReconciler.Console

inductive Reading : String → Prop where
  | read {path s script} (h : readScript path s = .ok script) : Reading script
  | readOne (path) : Reading (readOneScript path)
  | evaluate {path item expressions script}
      (h : evaluateScript path item expressions = .ok script) : Reading script

variable {τ : Type} [Transport τ]

def sentAll (t : τ) (scripts : List String) : τ :=
  scripts.foldl (fun t script => (Transport.send script t).2) t

-- A transport is known by what was sent through it. Its answers decide what is sent next, so they
-- stay in the state from which each script is sent.
def OnlyRead (before after : τ) : Prop :=
  ∃ scripts, (∀ script ∈ scripts, Reading script) ∧ after = sentAll before scripts

theorem rehearsalSent (r : Rehearsal) (scripts : List String) :
    (sentAll r scripts).sent = r.sent ++ scripts := by
  induction scripts generalizing r with
  | nil => simp [sentAll]
  | cons script rest ih =>
    have one : (Transport.send script r).2.sent = r.sent ++ [script] := by
      show (Rehearsal.send script r).2.sent = _
      unfold Rehearsal.send
      split <;> rfl
    calc (sentAll r (script :: rest)).sent
        = (sentAll (Transport.send script r).2 rest).sent := rfl
      _ = r.sent ++ script :: rest := by rw [ih,one,List.append_assoc]; rfl

theorem OnlyRead.sent {r after : Rehearsal} (h : OnlyRead r after) :
    ∃ scripts, after.sent = r.sent ++ scripts ∧ ∀ script ∈ scripts, Reading script := by
  obtain ⟨scripts,all,rfl⟩ := h
  exact ⟨scripts,rehearsalSent r scripts,all⟩

theorem OnlyRead.start (t : τ) : OnlyRead t t := ⟨[],by simp,rfl⟩

theorem OnlyRead.next {before t : τ} {script : String} (h : OnlyRead before t)
    (reading : Reading script) : OnlyRead before (Transport.send script t).2 := by
  obtain ⟨scripts,all,rfl⟩ := h
  refine ⟨scripts ++ [script],fun x mem => ?_,by simp [sentAll]⟩
  rcases List.mem_append.mp mem with earlier | last
  · exact all x earlier
  · rw [List.mem_singleton.mp last]
    exact reading

variable {before : τ} {script : String}

theorem sendReads (reading : Reading script) :
    Keeps (fun c : Console τ => OnlyRead before c.transport) (send script) :=
  fun _ sent => sent.next reading

theorem repeatedReads (reading : Reading script) (attempts left : Nat) :
    Keeps (fun c : Console τ => OnlyRead before c.transport) (sendRepeatedly script attempts left) := by
  induction left with
  | zero => exact sendReads reading
  | succ left ih =>
    intro c sent
    have first := sendReads reading c sent
    unfold sendRepeatedly
    cases h : send script c with
    | mk answer m =>
      rw [h] at first
      cases answer with
      | ok text => exact first
      | error e =>
        simp only
        split
        · exact ih _ first
        · exact first

theorem queryReads (reading : Reading script) :
    Keeps (fun c : Console τ => OnlyRead before c.transport) (query script) := by
  refine .after (fun _ sent => sent) fun c => .after (.liftStep (repeatedReads reading _ _)) fun response => ?_
  split
  · exact .lift _
  · split <;> exact .fail _

theorem readable (f : Facility) (before : τ) : Reconcile.Readable f
    (fun c : Console τ => OnlyRead before c.transport) (fun _ => True) where
  all s := .after (.lift _) fun _ =>
    .bind (.lift _) fun _ _ _ _ rendered => queryReads (.read (Step.liftOk.mp rendered).1)
  one := by
    unfold Facility.readOne
    split
    · refine .after (queryReads (.readOne f.path)) fun records => ?_
      split
      · exact .pure _
      · exact .fail _
    · exact .fail _
  listed _ _ _ _ := trivial
  single _ _ := trivial
  evaluated _ expressions := by
    have evaluation (item : Option ItemId) : Keeps (fun c : Console τ => OnlyRead before c.transport)
        (Device.evaluate f.path item expressions) :=
      .bind (.lift _) fun _ _ _ _ rendered =>
        .after (queryReads (.evaluate (Step.liftOk.mp rendered).1)) fun _ => .pure _
    unfold Facility.evaluate
    split
    · exact .after (.lift _) fun _ => evaluation _
    · exact evaluation _

end RouterReconciler.Console

import Mathlib.Data.Nat.Find
import Mathlib.Tactic.Choose
import RouterReconciler.Device.Console
import RouterReconciler.Proofs.Device.Requests

/-! What a console sends. A write goes out once, whatever comes back, since one that timed out may have
been carried out. A reading goes out again for as long as it times out and attempts are left; the last
reply alone decides what it gives. A request whose script cannot be written sends nothing. -/
namespace RouterReconciler

structure Line where
  replies : Nat → Except Error String
  sent : List String

namespace Line

instance : Transport Line :=
  ⟨fun script line => (line.replies 0,⟨fun n => line.replies (n + 1),line.sent ++ [script]⟩)⟩

def after (line : Line) (script : String) (k : Nat) : Line :=
  ⟨fun n => line.replies (n + k),line.sent ++ List.replicate k script⟩

end Line

def TimedOut (reply : Except Error String) : Prop :=
  ∃ e, reply = .error e ∧ e.kind = .transportTimeout

inductive Rounds (attempts : Nat) (replies : Nat → Except Error String) : Nat → Prop where
  | answered {j : Nat} (answer : ¬TimedOut (replies j)) (before : ∀ i < j, TimedOut (replies i)) :
      Rounds attempts replies (min attempts (j + 1))
  | never (all : ∀ i, TimedOut (replies i)) : Rounds attempts replies attempts

namespace Rounds
variable {attempts k : Nat} {replies : Nat → Except Error String}

theorem found (attempts : Nat) (replies : Nat → Except Error String) :
    ∃ k, Rounds attempts replies k := by
  classical
  by_cases answers : ∃ j, ¬TimedOut (replies j)
  · exact ⟨_,.answered (Nat.find_spec answers) fun i less => not_not.mp (Nat.find_min answers less)⟩
  · exact ⟨_,.never fun i => not_not.mp fun answer => answers ⟨i,answer⟩⟩

theorem unique {m : Nat} (h : Rounds attempts replies k) (same : Rounds attempts replies m) : k = m := by
  cases h with
  | never all =>
    cases same with
    | never => rfl
    | answered answer => exact absurd (all _) answer
  | @answered i answer before =>
    cases same with
    | never all => exact absurd (all _) answer
    | @answered j other earlier =>
      rcases Nat.lt_trichotomy i j with less | rfl | more
      · exact absurd (earlier i less) answer
      · rfl
      · exact absurd (before j more) other

theorem first (answer : ¬TimedOut (replies 0)) (h : Rounds (attempts + 1) replies k) : k = 1 := by
  cases h with
  | never all => exact absurd (all 0) answer
  | @answered j _ before =>
    cases j with
    | zero => omega
    | succ j => exact absurd (before 0 (Nat.succ_pos j)) answer

theorem next (late : TimedOut (replies 0)) (h : Rounds (attempts + 2) replies k) :
    ∃ m, k = m + 2 ∧ Rounds (attempts + 1) (fun n => replies (n + 1)) (m + 1) := by
  cases h with
  | never all => exact ⟨attempts,rfl,.never fun i => all (i + 1)⟩
  | @answered j answer before =>
    cases j with
    | zero => exact absurd late answer
    | succ j =>
      have shorter : min (attempts + 1) (j + 1) = min attempts j + 1 := by omega
      refine ⟨min attempts j,by omega,?_⟩
      rw [← shorter]
      exact .answered answer fun i less => before (i + 1) (Nat.succ_lt_succ less)

end Rounds

namespace Console

def Sends (rounds : Console Line → Nat → Prop) (script : String) {ε α : Type}
    (x : Step ε (Console Line) α) : Prop :=
  ∃ finish : Except Error String → Except ε α, ∀ c, ∃ k, rounds c k ∧
    (x c).1 = finish (c.transport.replies (k - 1)) ∧ (x c).2.transport = c.transport.after script k

def once (_ : Console Line) (k : Nat) : Prop := k = 1

def untilAnswered (c : Console Line) (k : Nat) : Prop :=
  Rounds (max 1 c.retry.maxAttempts) c.transport.replies k

variable {ε α β : Type} {rounds : Console Line → Nat → Prop} {script : String}

theorem Sends.lift {x : Access (Console Line) α} (h : Sends rounds script x) :
    Sends rounds script (liftM x : Inquiry (Console Line) α) := by
  obtain ⟨finish,each⟩ := h
  refine ⟨fun reply => (finish reply).mapError .failed,fun c => ?_⟩
  obtain ⟨k,times,result,line⟩ := each c
  refine ⟨k,times,?_⟩
  show (Step.mapError Halt.failed x c).1 = (finish (c.transport.replies (k - 1))).mapError .failed ∧
    (Step.mapError Halt.failed x c).2.transport = _
  rw [← result,← line]
  unfold Step.mapError
  rcases x c with ⟨e | a,m⟩ <;> exact ⟨rfl,rfl⟩

theorem Sends.bind {x : Step ε (Console Line) α} {f : α → Step ε (Console Line) β}
    (h : Sends rounds script x) (quiet : ∀ a, ∃ answer : Except ε β, f a = liftM answer) :
    Sends rounds script (x >>= f) := by
  obtain ⟨finish,each⟩ := h
  choose answer same using quiet
  refine ⟨fun reply => finish reply >>= answer,fun c => ?_⟩
  obtain ⟨k,times,result,line⟩ := each c
  refine ⟨k,times,?_⟩
  rcases run : x c with ⟨e | a,m⟩
  · rw [run] at result line
    rw [Step.bindFailed run,← line]
    exact ⟨congrArg (· >>= answer) result,rfl⟩
  · rw [run] at result line
    rw [Step.bindAfter run,same a,← line]
    show ((liftM (answer a) : Step ε (Console Line) β) m).1 = finish (c.transport.replies (k - 1)) >>= answer ∧ _
    rw [← result,Step.liftAnswer]
    exact ⟨rfl,rfl⟩

theorem Sends.map {x : Step ε (Console Line) α} (h : Sends rounds script x) (g : α → β) :
    Sends rounds script (x >>= fun a => pure (g a)) := h.bind fun a => ⟨.ok (g a),rfl⟩

end Console

namespace Request
open Console

def reads : Request → Bool
  | .readOne .. | .read .. | .evaluate .. => true
  | _ => false

def script : Request → Except Error String
  | .readOne path => .ok (readOneScript path)
  | .read path s => readScript path s
  | .evaluate path item expressions => evaluateScript path item expressions
  | .add path values before => do
    let rendered ← renderValues false values.toList
    let place := match before with
      | some id => " place-before=" ++ id
      | none => ""
    return ":put [" ++ path.text ++ " add" ++ rendered ++ place ++ "]"
  | .remove path id => .ok (path.text ++ " remove " ++ id)
  | .set path item values => do
    let rendered ← renderValues true values.toList
    return path.text ++ " set" ++ itemText item ++ rendered
  | .move path id before =>
    let place := match before with
      | some other => " destination=" ++ other
      | none => ""
    .ok (path.text ++ " move " ++ id ++ place)
  | .setDisabled path id disabled =>
    .ok (path.text ++ (if disabled then " disable " else " enable ") ++ id)
  | .run command => .ok command

def rounds (request : Request) : Console Line → Nat → Prop :=
  if request.reads then untilAnswered else once

end Request

end RouterReconciler

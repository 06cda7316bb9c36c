import RouterReconciler.Duration
import RouterReconciler.Proofs.Text.Pieces

/-! The notations of a duration beside the functions that read them: numbers each with its unit behind it,
and the time of day. A text that begins with such numbers is read on behind them from their sum, and any
other text is not read at all. -/
namespace RouterReconciler

namespace Text
variable {n limit : Nat} {cs : List Char}

theorem digitsOnly (h : digits? cs = some n) : ∀ c ∈ cs, c.isDigit = true := by
  unfold digits? at h
  split at h
  · cases h
  · rename_i all
    simp only [Bool.or_eq_true,not_or,Bool.not_eq_true,Bool.not_eq_false'] at all
    exact List.all_eq_true.mp all.2

theorem naturalDigits (all : ∀ c ∈ cs, c.isDigit = true) :
    natural? limit cs = (digits? cs).bind (atMost limit) := by
  unfold natural?
  dsimp only
  split
  · cases all '+' List.mem_cons_self
  · rfl

def Written (n : Nat) (cs : List Char) : Prop :=
  ∃ zeros, cs = List.replicate zeros '0' ++ Nat.toDigits 10 n

theorem Written.digits (written : Written n cs) : digits? cs = some n := by
  obtain ⟨zeros,rfl⟩ := written
  have all : (List.replicate zeros '0' ++ Nat.toDigits 10 n).all Char.isDigit = true := by
    refine List.all_eq_true.mpr fun c mem => ?_
    rcases List.mem_append.mp mem with zero | digit
    · rw [(List.mem_replicate.mp zero).2]
      rfl
    · exact Nat.isDigit_of_mem_toDigits (by decide) (by decide) digit
  have front : ofDigits (List.replicate zeros '0') = 0 := by
    induction zeros with
    | zero => rfl
    | succ zeros ih => exact ih (by simpa [List.replicate_succ] using all)
  have value : ofDigits (Nat.toDigits 10 n) = n := Nat.ofDigitChars_toDigits (by decide) (by decide)
  have sum : ofDigits (List.replicate zeros '0' ++ Nat.toDigits 10 n) = n := by
    unfold ofDigits at front value ⊢
    rw [List.foldl_append,front,value]
  simp [digits?,Nat.toDigits_ne_nil,all,sum]

theorem Written.natural (written : Written n cs) (small : n ≤ limit) : natural? limit cs = some n := by
  rw [naturalDigits (digitsOnly written.digits),written.digits]
  exact if_pos small

theorem trimmedWhole (clean : ∀ c ∈ cs, isBlank c = false) : trimChars cs = cs := by
  have front : cs.dropWhile isBlank = cs := by
    cases cs with
    | nil => rfl
    | cons c rest => rw [List.dropWhile_cons_of_neg (by simp [clean c List.mem_cons_self])]
  rw [trimChars,front,dropEndWhileNone clean]

end Text

namespace Duration
open Text
variable {c : Char} {digits cs rest back : List Char} {total n size : Nat}

/-- A number with its unit at the front of a text, the seconds that it comes to, and what stands behind it.
An `m` counts minutes only where no `s` follows. -/
inductive Counted : List Char → Nat → List Char → Prop
  | unit {digits count c size rest} : count? digits = some count → unitSize? c = some size →
      (c = 'm' → rest.head? ≠ some 's') → Counted (digits ++ c :: rest) (count * size) rest
  | thousandths {digits count rest} : count? digits = some count →
      Counted (digits ++ 'm' :: 's' :: rest) (count / 1000) rest

inductive Runs : List Char → Nat → List Char → Prop
  | none (cs : List Char) : Runs cs 0 cs
  | one {cs n rest m back} : Counted cs n rest → Runs rest m back → Runs cs (n + m) back

theorem plusWithin (word : total + n ≤ maxWord64) : plus total n = .seconds (total + n) := if_pos word

theorem plusBeyond (beyond : maxWord64 < total + n) : plus total n = .overflow :=
  if_neg (Nat.not_le.mpr beyond)

theorem countDigits (h : count? digits = some n) : ∀ c ∈ digits, c.isDigit = true := by
  obtain ⟨m,read,-⟩ := Option.bind_eq_some_iff.mp h
  exact digitsOnly read

theorem unitNoDigit (measured : unitSize? c = some size) : c.isDigit = false := by
  unfold unitSize? at measured
  split at measured <;> first | rfl | cases measured

-- `m` before `s` would be read as thousandths.
theorem unitsNext (total : Nat) (pending : List Char) (apart : c = 'm' → rest.head? ≠ some 's') :
    units total pending (c :: rest) =
      if c.isDigit then units total (pending ++ [c]) rest
      else match count? pending,unitSize? c with
        | some n,some size => (plus total (n * size)).andThen fun total => units total [] rest
        | _,_ => .unreadable := by
  rw [units.eq_def]
  split
  · rename_i same
    cases same
  · rename_i same
    obtain ⟨rfl,rfl⟩ := List.cons.inj same
    exact absurd rfl (apart rfl)
  · rename_i same
    obtain ⟨rfl,rfl⟩ := List.cons.inj same
    rfl

theorem unitsDigits (total : Nat) (pending : List Char) (all : ∀ c ∈ digits, c.isDigit = true) :
    units total pending (digits ++ rest) = units total (pending ++ digits) rest := by
  induction digits generalizing pending with
  | nil => simp
  | cons c digits ih =>
    obtain ⟨digit,others⟩ := List.forall_mem_cons.mp all
    have apart : c = 'm' → (digits ++ rest).head? ≠ some 's' := by
      rintro rfl
      cases digit
    rw [List.cons_append,unitsNext _ _ apart,if_pos digit,ih _ others,List.append_assoc]
    rfl

theorem unitsCounted (counted : Counted cs n rest) :
    units total [] cs = (plus total n).andThen fun total => units total [] rest := by
  cases counted with
  | unit count measured apart =>
    rw [unitsDigits _ _ (countDigits count),List.nil_append,unitsNext _ _ apart,unitNoDigit measured,
      count,measured]
    rfl
  | thousandths count =>
    rw [unitsDigits _ _ (countDigits count),List.nil_append,units,count]

def Expected (total : Nat) (cs : List Char) : Reading → Prop
  | .seconds sum => ∃ n, Runs cs n [] ∧ sum = total + n ∧ sum ≤ maxWord64
  | .overflow => ∃ n back, Runs cs n back ∧ maxWord64 < total + n
  | .unreadable => True
  | .cutInsideCharacter => False

theorem Expected.further {total : Nat} (counted : Counted cs n rest)
    (later : ∀ total, total ≤ maxWord64 → Expected total rest (units total [] rest)) :
    Expected total cs ((plus total n).andThen fun total => units total [] rest) := by
  by_cases word : total + n ≤ maxWord64
  · have expected := later _ word
    rw [plusWithin word]
    simp only [Reading.andThen]
    revert expected
    cases units (total + n) [] rest with
    | seconds sum => exact fun ⟨m,runs,same,word⟩ => ⟨n + m,.one counted runs,by omega,word⟩
    | overflow => exact fun ⟨m,back,runs,beyond⟩ => ⟨n + m,back,.one counted runs,by omega⟩
    | unreadable | cutInsideCharacter => exact id
  · rw [plusBeyond (Nat.lt_of_not_le word)]
    exact ⟨n + 0,rest,.one counted (.none rest),Nat.lt_of_not_le word⟩

theorem unitsExpected (total : Nat) (pending cs : List Char) (word : total ≤ maxWord64) :
    Expected total (pending ++ cs) (units total pending cs) := by
  fun_induction units with
  | case1 total pending none =>
    rw [List.isEmpty_iff.mp none]
    exact ⟨0,.none _,rfl,word⟩
  | case2 | case4 | case7 => trivial
  | case3 total pending rest n count ih => exact .further (.thousandths count) ih
  | case5 total pending c rest apart digit ih =>
    rw [List.append_cons]
    exact ih word
  | case6 total pending c rest apart noDigit n size measured count ih =>
    refine .further (.unit count measured fun minutes next => ?_) ih
    cases rest with
    | nil => cases next
    | cons _ rest => exact apart rest minutes (by rw [Option.some.inj next])

theorem unitsRuns (runs : Runs cs n back) (word : total + n ≤ maxWord64) :
    units total [] cs = units (total + n) [] back := by
  induction runs generalizing total with
  | none => rfl
  | one counted _ ih =>
    rw [← Nat.add_assoc] at word ⊢
    rw [unitsCounted counted,plusWithin (by omega)]
    exact ih word

theorem unitsBeyond (runs : Runs cs n back) (word : total ≤ maxWord64) (beyond : maxWord64 < total + n) :
    units total [] cs = .overflow := by
  induction runs generalizing total with
  | none => omega
  | @one _ n _ m _ counted _ ih =>
    rw [unitsCounted counted]
    by_cases here : total + n ≤ maxWord64
    · rw [plusWithin here]
      exact ih here (by omega)
    · rw [plusBeyond (by omega)]
      rfl

theorem unitsOverflow : units 0 [] cs = .overflow ↔ ∃ n back, Runs cs n back ∧ maxWord64 < n := by
  constructor
  · intro full
    have expected := unitsExpected 0 [] cs (by decide)
    rw [full] at expected
    simpa only [Expected,Nat.zero_add,List.nil_append] using expected
  · exact fun ⟨n,back,runs,beyond⟩ => unitsBeyond runs (by decide) (by rwa [Nat.zero_add])

theorem unitsSeconds : units 0 [] cs = .seconds n ↔ Runs cs n [] ∧ n ≤ maxWord64 := by
  constructor
  · intro read
    have expected := unitsExpected 0 [] cs (by decide)
    rw [read] at expected
    obtain ⟨m,runs,rfl,word⟩ := expected
    rw [Nat.zero_add] at word ⊢
    exact ⟨runs,word⟩
  · rintro ⟨runs,word⟩
    rw [unitsRuns runs (by rwa [Nat.zero_add]),Nat.zero_add]
    rfl

inductive Marked (unit : Char) : Nat → List Char → Prop
  | leftOut : Marked unit 0 []
  | written {m : Nat} {digits : List Char} : Written m digits → Marked unit m (digits ++ [unit])

theorem unitsMarked (marked : Marked c n cs) (measured : unitSize? c = some size)
    (apart : c = 'm' → rest.head? ≠ some 's') (word : total + n * size ≤ maxWord64) :
    units total [] (cs ++ rest) = units (total + n * size) [] rest := by
  cases marked with
  | leftOut => simp
  | @written _ digits written =>
    have large : 1 ≤ size := by
      unfold unitSize? at measured
      split at measured <;> cases measured <;> decide
    have small : n ≤ maxWord64 :=
      Nat.le_trans (Nat.le_trans (Nat.le_mul_of_pos_right _ large) (Nat.le_add_left _ _)) word
    have count : count? digits = some n := by
      rw [count?,written.digits]
      exact if_pos small
    rw [List.append_assoc,List.singleton_append,unitsCounted (.unit count measured apart),plusWithin word]
    rfl

theorem unitsMarkedLast (marked : Marked c n cs) (measured : unitSize? c = some size)
    (word : total + n * size ≤ maxWord64) : units total [] cs = .seconds (total + n * size) := by
  have read : units total [] (cs ++ []) = units (total + n * size) [] [] :=
    unitsMarked marked measured (fun _ => by simp) word
  rwa [List.append_nil] at read

inductive TimeOfDay : List Char → Nat → Prop
  | mk {hours minutes seconds : List Char} {h m s : Nat} : ':' ∉ hours → ':' ∉ minutes → ':' ∉ seconds →
      natural? maxWord64 hours = some h → natural? maxWord64 minutes = some m →
      natural? maxWord64 (seconds.takeWhile (· != '.')) = some s → m < 60 → s < 60 →
      TimeOfDay (hours ++ ':' :: (minutes ++ ':' :: seconds)) (h * 3600 + m * 60 + s)

theorem clockTime (time : TimeOfDay cs n) : clock total cs = plus total n := by
  cases time with
  | @mk hours minutes seconds h m s first next last hour minute second fewMinutes fewSeconds =>
    have cut : pieces (· == ':') (hours ++ ':' :: (minutes ++ ':' :: seconds)) =
        [hours,minutes,seconds] := by
      rw [piecesCut (notSeparator first) rfl,piecesCut (notSeparator next) rfl,
        piecesWhole (notSeparator last)]
    have few : (decide (60 ≤ m) || decide (60 ≤ s)) = false := by
      simp only [Bool.or_eq_false_iff,decide_eq_false_iff_not]
      omega
    simp only [clock,cut,hour,minute,second,few,Bool.false_eq_true,if_false]

theorem clockElse (cs : List Char) : (∃ n, TimeOfDay cs n) ∨ ∀ total, clock total cs = .unreadable := by
  by_cases time : ∃ n, TimeOfDay cs n
  · exact .inl time
  refine .inr fun total => ?_
  unfold clock
  split
  · rename_i hours minutes seconds cut
    split
    · rename_i h m s hour minute second
      split
      · rfl
      · rename_i few
        have clean : ∀ piece ∈ [hours,minutes,seconds], ':' ∉ piece := fun piece mem here => by
          have passed := piecesClean (cut ▸ mem) ':' here
          simp at passed
        simp only [Bool.or_eq_true,decide_eq_true_eq,not_or,Nat.not_le] at few
        have whole : cs = hours ++ ':' :: (minutes ++ ':' :: seconds) := by
          simpa using piecesJoined cut
        subst whole
        exact absurd ⟨_,.mk (clean _ (by simp)) (clean _ (by simp)) (clean _ (by simp)) hour minute
          second few.1 few.2⟩ time
    · rfl
  · rfl

end Duration
end RouterReconciler

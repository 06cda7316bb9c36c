import Mathlib.Data.String.Basic
import RouterReconciler.Proofs.Value.Durations
import RouterReconciler.Value.Literal

/-! Texts on which the reading of a duration breaks off. The clock is cut off at a byte, and where this lies
inside a character there is nothing to cut; the other texts are those that count up to more seconds than
fit. Whatever reads values breaks off exactly where a text is read as a duration on the way. -/
namespace RouterReconciler
open Text

namespace Duration
variable {c : Char} {cs rest : List Char} {n total : Nat}

/-- The byte at which the clock part begins: the one behind the first byte of the last character before
the first colon that is no digit. -/
def clockStart (cs : List Char) : String.Pos.Raw :=
  if (unitPart cs).isEmpty then 0 else ⟨(String.ofList (unitPart cs).dropLast).utf8ByteSize + 1⟩

theorem unitPartAhead (cs : List Char) : unitPart cs <+: cs :=
  (dropEndWhileFront _ _).trans (List.takeWhile_prefix _)

theorem asciiSize : isAscii c = true ↔ c.utf8Size = 1 := by
  rw [Char.utf8Size_eq_one_iff,isAscii,decide_eq_true_eq]
  exact Nat.lt_succ_iff

theorem validIff {k : Nat} : (⟨k⟩ : String.Pos.Raw).IsValid (String.ofList cs) ↔
    ∃ front back, cs = front ++ back ∧ k = String.utf8Len front := by
  rw [String.Pos.Raw.isValid_iff_exists_append]
  constructor
  · rintro ⟨front,back,whole,place⟩
    have same := congrArg String.toList whole
    rw [String.toList_ofList,String.toList_append] at same
    refine ⟨front.toList,back.toList,same,?_⟩
    rw [String.utf8Len_toList]
    exact congrArg String.Pos.Raw.byteIdx place
  · rintro ⟨front,back,rfl,rfl⟩
    exact ⟨String.ofList front,String.ofList back,String.ofList_append,(String.rawEndPos_ofList front).symm⟩

-- One byte behind the beginning of a character something else begins only if that is all of it.
theorem validBehind (front back : List Char) :
    (⟨String.utf8Len front + 1⟩ : String.Pos.Raw).IsValid (String.ofList (front ++ c :: back)) ↔
      c.utf8Size = 1 := by
  rw [validIff]
  constructor
  · rintro ⟨ahead,behind,whole,place⟩
    rcases List.append_eq_append_iff.mp whole with ⟨more,rfl,rest⟩ | ⟨more,rfl,-⟩
    · rw [String.utf8Len_append] at place
      cases more with
      | nil => simp at place
      | cons x more =>
        cases rest
        have positive := c.utf8Size_pos
        rw [String.utf8Len_cons] at place
        omega
    · rw [String.utf8Len_append] at place
      omega
  · intro one
    exact ⟨front ++ [c],back,List.append_cons _ _ _,by rw [String.utf8Len_append,String.utf8Len_cons,one]; rfl⟩

theorem cutsAtByte : cutsCharacter cs = true ↔ ¬(clockStart cs).IsValid (String.ofList cs) := by
  obtain ⟨back,whole⟩ := unitPartAhead cs
  rcases List.eq_nil_or_concat (unitPart cs) with none | ⟨front,c,some⟩
  · simp [cutsCharacter,clockStart,none]
  · have valid := validBehind (c := c) front back
    rw [List.append_cons,← List.concat_eq_append,← some,whole] at valid
    have start : clockStart cs = ⟨String.utf8Len front + 1⟩ := by
      simp [clockStart,some,String.utf8ByteSize_ofList]
    rw [start,valid,← asciiSize]
    simp [cutsCharacter,some]

theorem plusOverflow : plus total n = .overflow ↔ maxWord64 < total + n := by
  unfold plus
  split <;> simp <;> omega

theorem clockOverflow : clock total cs = .overflow ↔ ∃ n, TimeOfDay cs n ∧ maxWord64 < total + n := by
  constructor
  · intro full
    rcases clockElse cs with ⟨n,time⟩ | unreadable
    · exact ⟨n,time,plusOverflow.mp (clockTime time ▸ full)⟩
    · cases (unreadable total).symm.trans full
  · exact fun ⟨n,time,beyond⟩ => (clockTime time).trans (plusOverflow.mpr beyond)

theorem clockWhole : clock total cs ≠ .cutInsideCharacter := by
  rcases clockElse cs with ⟨n,time⟩ | unreadable
  · rw [clockTime time,plus]
    split <;> simp
  · simp [unreadable]

theorem unitsWhole : units 0 [] cs ≠ .cutInsideCharacter := fun cut => by
  have expected := unitsExpected 0 [] cs (by decide)
  rw [cut] at expected
  exact expected

def unitText (cs : List Char) : List Char := if ':' ∈ cs then unitPart cs else cs

inductive Exceeds (cs : List Char) : Prop
  | units {sum : Nat} {back : List Char} : Runs (unitText cs) sum back → maxWord64 < sum → Exceeds cs
  | clock {sum time : Nat} : ':' ∈ cs → Runs (unitPart cs) sum [] →
      TimeOfDay (cs.drop (unitPart cs).length) time → maxWord64 < sum + time → Exceeds cs

theorem notationCut : readNotation cs = .cutInsideCharacter ↔
    ':' ∈ cs ∧ ¬(clockStart cs).IsValid (String.ofList cs) := by
  rw [← cutsAtByte]
  by_cases colon : ':' ∈ cs
  · cases cut : cutsCharacter cs with
    | true => simp [readNotation,colon,cut]
    | false =>
      simp only [readNotation,List.contains_iff_mem.mpr colon,cut,Bool.false_eq_true,if_true,if_false,
        and_false,iff_false]
      cases outcome : units 0 [] (unitPart cs) with
      | seconds sum => exact clockWhole
      | cutInsideCharacter => exact absurd outcome unitsWhole
      | unreadable | overflow => simp [Reading.andThen]
  · simp [readNotation,colon,unitsWhole]

theorem notationOverflow : readNotation cs = .overflow ↔
    (':' ∈ cs → (clockStart cs).IsValid (String.ofList cs)) ∧ Exceeds cs := by
  by_cases colon : ':' ∈ cs
  · cases cut : cutsCharacter cs with
    | true =>
      have broken := cutsAtByte.mp cut
      simp [readNotation,colon,cut,broken]
    | false =>
      have valid : (clockStart cs).IsValid (String.ofList cs) := by
        by_contra broken
        cases cut.symm.trans (cutsAtByte.mpr broken)
      simp only [readNotation,List.contains_iff_mem.mpr colon,cut,Bool.false_eq_true,if_true,if_false,
        valid,implies_true,true_and]
      constructor
      · intro full
        cases outcome : units 0 [] (unitPart cs) with
        | seconds sum =>
          obtain ⟨time,told,beyond⟩ := clockOverflow.mp (by rwa [outcome] at full)
          exact .clock colon (unitsSeconds.mp outcome).1 told beyond
        | overflow =>
          obtain ⟨sum,back,runs,beyond⟩ := unitsOverflow.mp outcome
          exact .units (by rwa [unitText,if_pos colon]) beyond
        | unreadable | cutInsideCharacter => rw [outcome] at full; cases full
      · rintro (⟨runs,beyond⟩ | ⟨-,runs,told,beyond⟩)
        · rw [unitText,if_pos colon] at runs
          rw [unitsOverflow.mpr ⟨_,_,runs,beyond⟩]
          rfl
        · rename_i sum time
          by_cases word : sum ≤ maxWord64
          · rw [unitsSeconds.mpr ⟨runs,word⟩]
            exact clockOverflow.mpr ⟨time,told,beyond⟩
          · rw [unitsOverflow.mpr ⟨_,_,runs,Nat.lt_of_not_le word⟩]
            rfl
  · simp only [readNotation,List.contains_eq_mem,colon,decide_false,Bool.false_eq_true,if_false,
      unitsOverflow,false_implies,true_and]
    constructor
    · rintro ⟨sum,back,runs,beyond⟩
      exact .units (by rwa [unitText,if_neg colon]) beyond
    · rintro (⟨runs,beyond⟩ | ⟨here,-⟩)
      · rw [unitText,if_neg colon] at runs
        exact ⟨_,_,runs,beyond⟩
      · exact absurd here colon

-- Where seconds are counted there is a unit, so that the text is no number.
theorem Counted.letter (counted : Counted cs n rest) : ∃ c ∈ cs, c.isDigit = false ∧ c ≠ '+' := by
  cases counted with
  | @unit _ _ c _ _ _ measured =>
    refine ⟨c,by simp,unitNoDigit measured,?_⟩
    rintro rfl
    cases measured
  | thousandths => exact ⟨'m',by simp,rfl,by decide⟩

theorem Runs.letter (runs : Runs cs n rest) (some : n ≠ 0) : ∃ c ∈ cs, c.isDigit = false ∧ c ≠ '+' := by
  cases runs with
  | none => exact absurd rfl some
  | one counted => exact counted.letter

theorem Exceeds.letter (exceeds : Exceeds cs) : ∃ c ∈ cs, c.isDigit = false ∧ c ≠ '+' := by
  obtain ⟨runs,beyond⟩ | ⟨colon,-⟩ := exceeds
  · obtain ⟨c,mem,letter⟩ := runs.letter (by omega)
    refine ⟨c,?_,letter⟩
    unfold unitText at mem
    split at mem
    · exact (unitPartAhead cs).subset mem
    · exact mem
  · exact ⟨':',colon,rfl,by decide⟩

theorem readStops {s : String} (stops : (read s).stops = true) :
    read s = readNotation (trimChars s.toList) := by
  unfold read readChars at stops ⊢
  dsimp only at stops ⊢
  split at stops
  · cases stops
  · rename_i filled
    rw [if_neg filled]
    split at stops
    · cases stops
    · rfl

variable {s : String}

theorem readCut : read s = .cutInsideCharacter ↔
    ':' ∈ trimChars s.toList ∧ ¬(clockStart (trimChars s.toList)).IsValid (trim s) := by
  constructor
  · intro cut
    exact notationCut.mp (readStops (by rw [cut]; rfl) ▸ cut)
  · intro broken
    rw [readLetter ⟨':',broken.1,rfl,by decide⟩]
    exact notationCut.mpr broken

theorem readOverflow : read s = .overflow ↔
    (':' ∈ trimChars s.toList → (clockStart (trimChars s.toList)).IsValid (trim s)) ∧
      Exceeds (trimChars s.toList) := by
  constructor
  · intro full
    exact notationOverflow.mp (readStops (by rw [full]; rfl) ▸ full)
  · intro exceeds
    rw [readLetter exceeds.2.letter]
    exact notationOverflow.mpr exceeds

example : read "30500568904944w" = .overflow := by decide

end Duration

namespace Value

theorem decodeStops {typeName raw : String} :
    decode? typeName raw = none ↔ typeName = "time" ∧ (Duration.read raw).stops = true := by
  by_cases time : typeName = "time"
  · subst time
    unfold decode?
    cases Duration.read raw <;> simp [Duration.Reading.stops]
  · simp only [time,false_and,iff_false]
    unfold decode?
    repeat' split
    all_goals simp

theorem readingStops {v : Value} :
    v.reading.stops = true ↔ ∃ t, v = .str t ∧ (Duration.read t).stops = true := by
  cases v with
  | str t => simp [reading]
  | int n =>
    simp only [reading]
    split <;> simp [Duration.Reading.stops]
  | _ => simp [reading,Duration.Reading.stops]

theorem equalStops {v w : Value} : v.equal? w = none ↔ ∃ n t, (Duration.read t).stops = true ∧
    (v = .duration n ∧ w = .str t ∨ v = .str t ∧ w = .duration n) := by
  have counted (n : Nat) : ¬(Value.duration n).reading.stops = true := by
    simp [reading,Duration.Reading.stops]
  constructor
  · intro none
    have asked : ((v.isDuration || w.isDuration) && (v.reading.stops || w.reading.stops)) = true := by
      unfold equal? at none
      split at none
      · assumption
      · cases none
    simp only [Bool.and_eq_true,Bool.or_eq_true] at asked
    obtain ⟨here | here,stops⟩ := asked
    · obtain ⟨n,rfl⟩ := durationOnly here
      obtain ⟨t,rfl,broken⟩ := readingStops.mp (stops.resolve_left (counted n))
      exact ⟨n,t,broken,.inl ⟨rfl,rfl⟩⟩
    · obtain ⟨n,rfl⟩ := durationOnly here
      obtain ⟨t,rfl,broken⟩ := readingStops.mp (stops.resolve_right (counted n))
      exact ⟨n,t,broken,.inr ⟨rfl,rfl⟩⟩
  · rintro ⟨n,t,broken,⟨rfl,rfl⟩ | ⟨rfl,rfl⟩⟩ <;> simp [equal?,isDuration,reading,broken]

end Value
open Duration

/-- The reading of a duration breaks off where the clock would begin inside a character, and where the text
counts up to more than fits; the reading of a value, and a comparison, where they read such a text as a
duration. -/
theorem breaksOffExactly (s typeName : String) (v w : Value) :
    (read s = .cutInsideCharacter ↔
      ':' ∈ trimChars s.toList ∧ ¬(clockStart (trimChars s.toList)).IsValid (trim s)) ∧
    (read s = .overflow ↔
      (':' ∈ trimChars s.toList → (clockStart (trimChars s.toList)).IsValid (trim s)) ∧
        Exceeds (trimChars s.toList)) ∧
    (Value.decode? typeName s = none ↔ typeName = "time" ∧ (read s).stops = true) ∧
    (v.equal? w = none ↔ ∃ n t, (read t).stops = true ∧
      (v = .duration n ∧ w = .str t ∨ v = .str t ∧ w = .duration n)) :=
  ⟨readCut,readOverflow,Value.decodeStops,Value.equalStops⟩

-- A text whose clock would begin one byte into its first character, which takes two.
theorem breaksOffInside : read "é00:00:01" = .cutInsideCharacter ∧
    clockStart "é00:00:01".toList = ⟨1⟩ ∧ ¬(⟨1⟩ : String.Pos.Raw).IsValid "é00:00:01" ∧
    Value.decode? "time" "é00:00:01" = none ∧
    (Value.duration 1).equal? (.str "é00:00:01") = none ∧
    (Value.str "é00:00:01").equal? (.duration 1) = none := by
  have broken : read "é00:00:01" = .cutInsideCharacter := by decide
  have start : clockStart "é00:00:01".toList = ⟨1⟩ := by decide
  have inside := (readCut.mp broken).2
  rw [show trimChars "é00:00:01".toList = "é00:00:01".toList by decide,start] at inside
  exact ⟨broken,start,inside,by decide,by decide,by decide⟩

end RouterReconciler

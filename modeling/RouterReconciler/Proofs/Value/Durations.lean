import RouterReconciler.Proofs.Value.Arrays
import RouterReconciler.Proofs.Value.Notations

/-! Durations as they are written. A notation in units reads back as its seconds. -/
namespace RouterReconciler
open Text

namespace Duration

theorem partMarked (count : Nat) (unit : Char) : Marked unit count (part count unit) := by
  unfold part
  split
  · rename_i zero
    exact zero ▸ .leftOut
  · exact .written ⟨0,rfl⟩

theorem partHead (count : Nat) (unit : Char) : (part count unit).head? ≠ some 's' := by
  unfold part
  split
  · simp
  · obtain ⟨first,others,digits⟩ := List.exists_cons_of_ne_nil (Nat.toDigits_ne_nil (n := count) (b := 10))
    have digit : first.isDigit = true :=
      Nat.isDigit_of_mem_toDigits (b := 10) (n := count) (by decide) (by decide) (by simp [digits])
    rw [digits]
    rintro ⟨⟩
    cases digit

theorem unitsRendered {n : Nat} (word : n ≤ maxWord64) (positive : n ≠ 0) :
    units 0 [] (renderChars n) = .seconds n := by
  have other {unit : Char} {cs : List Char} (differs : unit ≠ 'm') : unit = 'm' → cs.head? ≠ some 's' :=
    fun same => absurd same differs
  simp only [renderChars,positive,if_false,List.append_assoc]
  rw [unitsMarked (partMarked _ _) rfl (other (by decide)) (by omega),
    unitsMarked (partMarked _ _) rfl (other (by decide)) (by omega),
    unitsMarked (partMarked _ _) rfl (other (by decide)) (by omega),
    unitsMarked (partMarked _ _) rfl (fun _ => partHead _ _) (by omega),
    unitsMarkedLast (partMarked _ _) rfl (by omega)]
  congr 1
  omega

theorem renderedChars (n : Nat) :
    ∀ c ∈ renderChars n, c.isDigit = true ∨ c ∈ ['w','d','h','m','s'] := by
  have parts {count : Nat} {unit : Char} (listed : unit ∈ ['w','d','h','m','s']) :
      ∀ c ∈ part count unit, c.isDigit = true ∨ c ∈ ['w','d','h','m','s'] := by
    intro c mem
    unfold part at mem
    split at mem
    · cases mem
    · rcases List.mem_append.mp mem with digit | last
      · exact .inl (Nat.isDigit_of_mem_toDigits (by decide) (by decide) digit)
      · exact .inr (List.mem_singleton.mp last ▸ listed)
  unfold renderChars
  split
  · exact List.forall_mem_cons.mpr ⟨.inl rfl,List.forall_mem_singleton.mpr (.inr (by decide))⟩
  · simp only [List.forall_mem_append]
    exact ⟨⟨⟨⟨parts (by decide),parts (by decide)⟩,parts (by decide)⟩,parts (by decide)⟩,
      parts (by decide)⟩

theorem renderedLetter (n : Nat) : ∃ c ∈ renderChars n, c.isDigit = false ∧ c ≠ '+' := by
  have counted {count : Nat} {unit : Char} (letter : unit.isDigit = false ∧ unit ≠ '+')
      (positive : count ≠ 0) : ∃ c ∈ part count unit, c.isDigit = false ∧ c ≠ '+' :=
    ⟨unit,by simp [part,positive],letter⟩
  unfold renderChars
  split
  · exact ⟨'s',by decide,by decide⟩
  · rename_i positive
    have one : (((n / 604800 ≠ 0 ∨ n % 604800 / 86400 ≠ 0) ∨ n % 86400 / 3600 ≠ 0) ∨
      n % 3600 / 60 ≠ 0) ∨ n % 60 ≠ 0 := by omega
    simp only [List.mem_append,or_and_right,exists_or]
    exact one.imp (Or.imp (Or.imp (Or.imp (counted (by decide)) (counted (by decide)))
      (counted (by decide))) (counted (by decide))) (counted (by decide))

theorem digitNoBlank {c : Char} (digit : c.isDigit = true) : isBlank c = false := by
  have bounds : 48 ≤ c.toNat ∧ c.toNat ≤ 57 := by
    simpa [Char.isDigit,UInt32.le_iff_toNat_le] using digit
  simp only [isBlank,Bool.or_eq_false_iff,Bool.and_eq_false_iff,decide_eq_false_iff_not]
  omega

theorem renderedTrimmed (n : Nat) : trimChars (renderChars n) = renderChars n := by
  refine trimmedWhole fun c mem => ?_
  rcases renderedChars n c mem with digit | unit
  · exact digitNoBlank digit
  · have units : ['w','d','h','m','s'].any isBlank = false := rfl
    simpa using List.any_eq_false.mp units c unit

theorem letterNoNumber {cs : List Char} {c : Char} (mem : c ∈ cs) (noDigit : c.isDigit = false)
    (noSign : c ≠ '+') (limit : Nat) : natural? limit cs = none := by
  have refused {body : List Char} (there : c ∈ body) : digits? body = none := by
    have some : body.all Char.isDigit = false := by
      rw [List.all_eq_false]
      exact ⟨c,there,by simp [noDigit]⟩
    simp [digits?,some]
  unfold natural?
  dsimp only
  split
  · rw [refused ((List.mem_cons.mp mem).resolve_left noSign)]
    rfl
  · rw [refused mem]
    rfl

theorem readLetter {s : String} (letter : ∃ c ∈ trimChars s.toList, c.isDigit = false ∧ c ≠ '+') :
    read s = readNotation (trimChars s.toList) := by
  obtain ⟨c,mem,noDigit,noSign⟩ := letter
  have nonempty : (trimChars s.toList).isEmpty = false :=
    List.isEmpty_eq_false_iff.mpr (List.ne_nil_of_mem mem)
  simp only [read,readChars,nonempty,letterNoNumber mem noDigit noSign,Bool.false_eq_true,if_false]

theorem readRendered {n : Nat} (word : n ≤ maxWord64) : read (render n) = .seconds n := by
  by_cases zero : n = 0
  · subst zero
    decide
  have body : trimChars (render n).toList = renderChars n := by
    rw [render,String.toList_ofList,renderedTrimmed]
  have noColon : (renderChars n).contains ':' = false := by
    have others : ∀ c ∈ renderChars n, c ≠ ':' := by
      rintro c mem rfl
      rcases renderedChars n _ mem with digit | unit
      · cases digit
      · revert unit
        decide
    simpa using fun mem => others _ mem rfl
  rw [readLetter (body ▸ renderedLetter n),body,readNotation]
  simp only [noColon,Bool.false_eq_true,if_false]
  exact unitsRendered word zero

theorem secondsRendered {n : Nat} (word : n ≤ maxWord64) : seconds? (render n) = some n := by
  rw [seconds?,readRendered word]

end Duration

theorem Value.durationOnly {v : Value} (h : v.isDuration = true) : ∃ n, v = .duration n := by
  cases v with
  | duration n => exact ⟨n,rfl⟩
  | _ => cases h

end RouterReconciler

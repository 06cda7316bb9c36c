import RouterReconciler.Proofs.Text.Pieces
import RouterReconciler.Proofs.Value.Quoting

/-! Lists as they are written, with commas between their elements, and as they are read, cut at
semicolons. -/
namespace RouterReconciler
open Text

namespace Value

theorem digitKept {c : Char} (digit : c.isDigit = true) : c.toLower = c := by
  have notUpper : ¬(c.val ≥ 'A'.val ∧ c.val ≤ 'Z'.val) := by
    simp [Char.isDigit,UInt32.le_iff_toNat_le] at digit ⊢
    omega
  exact dif_neg notUpper

theorem digitNoWord {s : String} {c : Char} (mem : c ∈ s.toList) (digit : c.isDigit = true) :
    boolWord? s = none := by
  have letters : ∀ w ∈ ["yes","true","on"] ++ ["no","false","off"], w.toList.any Char.isDigit = false := by
    decide
  have there : c ∈ (lowerAscii s).toList := by
    simpa [lowerAscii] using ⟨c,mem,digitKept digit⟩
  have other : ∀ w ∈ ["yes","true","on"] ++ ["no","false","off"], lowerAscii s ≠ w := by
    rintro w listed rfl
    exact absurd digit (List.any_eq_false.mp (letters _ listed) c there)
  simp only [boolWord?]
  rw [if_neg fun listed => other _ (List.mem_append_left _ listed) rfl,
    if_neg fun listed => other _ (List.mem_append_right _ listed) rfl]

theorem digitWritten (n : Nat) : ∃ c ∈ Nat.toDigits 10 n, c.isDigit = true := by
  obtain ⟨c,mem⟩ := List.exists_mem_of_ne_nil (Nat.toDigits 10 n) Nat.toDigits_ne_nil
  exact ⟨c,mem,Nat.isDigit_of_mem_toDigits (by decide) (by decide) mem⟩

theorem numberNoWord (n : Int) : boolWord? (toString n) = none := by
  cases n with
  | ofNat n =>
    obtain ⟨c,mem,digit⟩ := digitWritten n
    exact digitNoWord (s := String.ofList (Nat.toDigits 10 n)) (by simpa using mem) digit
  | negSucc n =>
    obtain ⟨c,mem,digit⟩ := digitWritten (n + 1)
    exact digitNoWord (s := "-" ++ String.ofList (Nat.toDigits 10 (n + 1))) (by simp [mem]) digit

theorem durationNoWord (n : Nat) : boolWord? (Duration.render n) = none := by
  have counted {count : Nat} {unit : Char} (some : count ≠ 0) :
      ∃ c ∈ Duration.part count unit, c.isDigit = true := by
    obtain ⟨c,mem,digit⟩ := digitWritten count
    exact ⟨c,by simp [Duration.part,some,mem],digit⟩
  have digits : ∃ c ∈ Duration.renderChars n, c.isDigit = true := by
    by_cases zero : n = 0
    · exact ⟨'0',by simp [Duration.renderChars,zero],by decide⟩
    have some : (((n / 604800 ≠ 0 ∨ n % 604800 / 86400 ≠ 0) ∨ n % 86400 / 3600 ≠ 0) ∨
      n % 3600 / 60 ≠ 0) ∨ n % 60 ≠ 0 := by omega
    simp only [Duration.renderChars,zero,if_false,List.mem_append,or_and_right,exists_or]
    exact some.imp (Or.imp (Or.imp (Or.imp counted counted) counted) counted) counted
  obtain ⟨c,mem,digit⟩ := digits
  exact digitNoWord (by simpa [Duration.render] using mem) digit

-- Reading gives texts only, but a text means what the value meant whose text it is.
theorem canonicalText {v : Value} (flat : v.isList = false) :
    canonical (.str v.text) = canonical v := by
  cases v with
  | bool b => cases b <;> decide
  | int n => simp only [canonical,text,numberNoWord]
  | str s => rfl
  | list items => cases flat
  | duration n => simp only [canonical,text,durationNoWord]

theorem containsChar (s : String) (c : Char) :
    Text.contains s (String.singleton c) = decide (c ∈ s.toList) := by
  have occurs (cs : List Char) : occursIn [c] cs = decide (c ∈ cs) := by
    induction cs with
    | nil => rfl
    | cons d cs ih => by_cases same : c = d <;> simp [occursIn,ih,same]
  simp [Text.contains,occurs]

def Listable (items : List Value) : Prop := ∀ v ∈ items, v.isList = false ∧ ',' ∉ v.text.toList

theorem elementTextsFlat {v : Value} (flat : v.isList = false) (rest : List Value) :
    elementTexts (v :: rest) =
      if ',' ∈ v.text.toList then
        .error (.encoding ("list element " ++ Text.shown v.text ++ " contains ','"))
      else (elementTexts rest).map (v.text :: ·) := by
  have comma := containsChar v.text ','
  have same : String.singleton ',' = "," := rfl
  rw [same] at comma
  cases v with
  | list items => cases flat
  | _ =>
    simp only [elementTexts,comma,decide_eq_true_eq]
    split
    · rfl
    · cases elementTexts rest <;> rfl

theorem elementTextsOk {items : List Value} {parts : List String} :
    elementTexts items = .ok parts ↔ Listable items ∧ parts = texts items := by
  induction items generalizing parts with
  | nil =>
    constructor
    · rintro ⟨⟩
      exact ⟨by simp [Listable],rfl⟩
    · rintro ⟨-,rfl⟩
      rfl
  | cons v rest ih =>
    rw [Listable,List.forall_mem_cons,← Listable]
    cases flat : v.isList with
    | true => cases v <;> cases flat; simp [elementTexts]
    | false =>
      rw [elementTextsFlat flat]
      by_cases comma : ',' ∈ v.text.toList
      · simp [comma]
      · cases others : elementTexts rest with
        | error e =>
          have none : ¬Listable rest := fun listable => by
            cases others.symm.trans (ih.mpr ⟨listable,rfl⟩)
          simp [comma,none,Except.map]
        | ok parts' =>
          obtain ⟨listable,rfl⟩ := ih.mp others
          simp [comma,listable,texts,Except.map,eq_comm]

theorem elementTextsRefused {items : List Value} {e : Error} (refused : elementTexts items = .error e) :
    e.kind = .encodingError := by
  induction items with
  | nil => cases refused
  | cons v rest ih =>
    cases flat : v.isList with
    | true =>
      cases v <;> cases flat
      cases refused
      rfl
    | false =>
      rw [elementTextsFlat flat] at refused
      split at refused
      · cases refused
        rfl
      · cases others : elementTexts rest with
        | ok parts => rw [others] at refused; cases refused
        | error cause =>
          rw [others] at refused
          cases refused
          exact ih others

-- No element is read as a duration here, so that comparing two lists never breaks off.
theorem equalLists (as bs : List Value) :
    equal? (.list as) (.list bs) = some true ↔ as.map canonical = bs.map canonical := by
  simp [equal?,alike,sameSeconds?,isDuration,isList,elements]

theorem decodeArray (raw : String) : decode? "array" raw =
    some (some (.list (if raw.isEmpty then [] else (splitOn ';' raw).map .str))) := by
  cases empty : raw.isEmpty <;> simp only [decode?,empty] <;> rfl

def printed (items : List Value) : String := ";".intercalate (texts items)

theorem printedChars (items : List Value) :
    (printed items).toList = [';'].intercalate (items.map fun v => v.text.toList) := by
  simp [printed,String.toList_intercalate,Function.comp_def]

def Survives (items : List Value) : Prop :=
  (∀ v ∈ items, ';' ∉ v.text.toList) ∧ texts items ≠ [""]

section
variable {v : Value} {rest : List Value}

theorem splitPrinted (clean : ∀ item ∈ v :: rest, ';' ∉ item.text.toList) :
    splitOn ';' (printed (v :: rest)) = texts (v :: rest) := by
  have cut : pieces (· == ';') ([';'].intercalate
      (v.text.toList :: rest.map fun item => item.text.toList)) = _ :=
    joinedPieces (by simpa using clean)
  rw [splitOn,printedChars,List.map_cons,cut]
  simp [Function.comp_def]

theorem splitPrintedCount (same : (splitOn ';' (printed (v :: rest))).length = (v :: rest).length) :
    ∀ item ∈ v :: rest, ';' ∉ item.text.toList := by
  rw [splitOn,List.length_map,printedChars,List.map_cons,joinedCount] at same
  have none : ((v.text.toList :: rest.map fun item => item.text.toList).flatten).count ';' = 0 := by
    simpa using same
  intro item mem
  have clean := List.count_eq_zero.mp none
  simp only [List.mem_flatten,not_exists,not_and] at clean
  exact clean _ (List.mem_map_of_mem (f := fun item => item.text.toList) mem)

theorem printedEmpty : (printed (v :: rest)).isEmpty = true ↔ texts (v :: rest) = [""] := by
  have chars := printedChars (v :: rest)
  rw [List.map_cons,joinedAgain] at chars
  rw [String.isEmpty_iff,← String.toList_eq_nil_iff,chars]
  cases rest <;> simp [texts]

-- Every semicolon inside an element makes one element more, so the lengths already tell.
theorem readBack (flat : ∀ item ∈ v :: rest, item.isList = false) :
    ∃ back, decode? "array" (printed (v :: rest)) = some (some (.list back)) ∧
      ((v :: rest).map canonical = back.map canonical ↔ Survives (v :: rest)) := by
  refine ⟨_,decodeArray _,?_⟩
  cases empty : (printed (v :: rest)).isEmpty with
  | true =>
    rw [Survives,printedEmpty.mp empty]
    simp
  | false =>
    have several : texts (v :: rest) ≠ [""] := fun same => by
      rw [printedEmpty.mpr same] at empty
      cases empty
    simp only [Survives,several,ne_eq,not_false_eq_true,and_true,Bool.false_eq_true,if_false]
    constructor
    · intro same
      have lengths := congrArg List.length same
      simp only [List.length_map] at lengths
      exact splitPrintedCount lengths.symm
    · intro clean
      rw [splitPrinted clean,textsMap,List.map_map,List.map_map]
      exact List.map_congr_left fun item mem => (canonicalText (flat item mem)).symm

end

theorem listWritten (items : List Value) :
    (∀ e, encode (.list items) = .error e → e.kind = .encodingError) ∧
    ((∃ out, encode (.list items) = .ok out) ↔ Listable items ∧
      ∀ c ∈ unifyLineEnds (",".intercalate (texts items)).toList,
        isControl c = true → c = '\n' ∨ c = '\t') := by
  cases split : elementTexts items with
  | error cause =>
    have answer : encode (.list items) = .error cause := by simp only [encode,split]
    have none : ¬Listable items := fun listable => by
      cases split.symm.trans (elementTextsOk.mpr ⟨listable,rfl⟩)
    rw [answer]
    refine ⟨fun e same => ?_,by simp [none]⟩
    cases same
    exact elementTextsRefused split
  | ok parts =>
    obtain ⟨listable,rfl⟩ := elementTextsOk.mp split
    have quotes := quoteQuotes (",".intercalate (texts items))
    have answer : encode (.list items) =
        (quote (",".intercalate (texts items))).map fun body => "[:toarray " ++ body ++ "]" := by
      simp only [encode,split]
      cases quote (",".intercalate (texts items)) <;> rfl
    rw [answer,and_iff_right listable,← quotes.written]
    cases written : quote (",".intercalate (texts items)) with
    | error cause =>
      refine ⟨fun e same => ?_,by simp [Except.map]⟩
      cases same
      exact quotes.refused _ written
    | ok body => exact ⟨fun e same => (by cases same),by simp [Except.map]⟩

/-- Writing a list is refused for an element that is a list or holds a comma and for a control
character, and for nothing else. What is written compares equal to what it is read back as exactly if no
element holds a semicolon and the list is not of one empty text. -/
theorem listsReadBack (items : List Value) :
    (∀ e, encode (.list items) = .error e → e.kind = .encodingError) ∧
    ((∃ out, encode (.list items) = .ok out) ↔ Listable items ∧
      ∀ c ∈ unifyLineEnds (",".intercalate (texts items)).toList,
        isControl c = true → c = '\n' ∨ c = '\t') ∧
    ((∃ out, encode (.list items) = .ok out) → ∃ back, decode? "array" (printed items) = some (some back) ∧
      (equal? (.list items) back = some true ↔ Survives items) ∧
      (equal? back (.list items) = some true ↔ Survives items)) := by
  obtain ⟨refused,written⟩ := listWritten items
  refine ⟨refused,written,fun accepted => ?_⟩
  have listable := (written.mp accepted).1
  cases items with
  | nil => exact ⟨.list [],by decide,by simp [Survives,texts,equalLists],by simp [Survives,texts,equalLists]⟩
  | cons v rest =>
    obtain ⟨back,read,same⟩ := readBack fun item mem => (listable item mem).1
    exact ⟨.list back,read,(equalLists _ _).trans same,(equalLists _ _).trans (eq_comm.trans same)⟩

theorem listsReadBackPorts :
    (∃ out, encode (.list [.int 22,.str "ON",.duration 60]) = .ok out) ∧
    ∃ back, decode? "array" (printed [.int 22,.str "ON",.duration 60]) = some (some back) ∧
      equal? (.list [.int 22,.str "ON",.duration 60]) back = some true := by
  have facts := listsReadBack [.int 22,.str "ON",.duration 60]
  have accepted : ∃ out, encode (.list [.int 22,.str "ON",.duration 60]) = .ok out :=
    ⟨"[:toarray \"22,ON,1m\"]",rfl⟩
  obtain ⟨back,read,same,-⟩ := facts.2.2 accepted
  exact ⟨accepted,back,read,same.mpr ⟨by decide +kernel,by decide +kernel⟩⟩

-- A semicolon in an element and a single empty text are written and come back as other lists.
theorem listsReadBackOtherwise :
    (encode (.list [.str "a;b"]) = .ok "[:toarray \"a;b\"]" ∧
      decode? "array" (printed [.str "a;b"]) = some (some (.list [.str "a",.str "b"])) ∧
      equal? (.list [.str "a;b"]) (.list [.str "a",.str "b"]) = some false) ∧
    (encode (.list [.str ""]) = .ok "[:toarray \"\"]" ∧
      decode? "array" (printed [.str ""]) = some (some (.list [])) ∧
      equal? (.list [.str ""]) (.list []) = some false) :=
  ⟨⟨rfl,by decide,by decide⟩,rfl,by decide,by decide⟩

end Value
end RouterReconciler

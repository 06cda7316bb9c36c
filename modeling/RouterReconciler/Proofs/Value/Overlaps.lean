import RouterReconciler.Proofs.Value.Clocks
import RouterReconciler.Proofs.Value.Documents

/-! Which values can equal the same value. Away from lists a value is what its canonical text is, except that
a duration equals other notations of its seconds too; beside a list only the elements count. -/
namespace RouterReconciler
open Text

namespace Duration
variable {cs : List Char} {s : String} {n limit : Nat}

theorem naturalDigit (h : natural? limit cs = some n) : ∃ c ∈ cs, c.isDigit = true := by
  have first {body : List Char} (read : (digits? body).bind (atMost limit) = some n) :
      ∃ c ∈ body, c.isDigit = true := by
    obtain ⟨m,digits,-⟩ := Option.bind_eq_some_iff.mp read
    cases body with
    | nil => cases digits
    | cons c rest => exact ⟨c,List.mem_cons_self,digitsOnly digits c List.mem_cons_self⟩
  unfold natural? at h
  dsimp only at h
  split at h
  · obtain ⟨c,mem,digit⟩ := first h
    exact ⟨c,List.mem_cons_of_mem _ mem,digit⟩
  · exact first h

theorem naturalWithin (h : natural? limit cs = some n) : n ≤ limit := by
  obtain ⟨m,-,within⟩ := Option.bind_eq_some_iff.mp h
  unfold atMost at within
  split at within <;> cases within
  assumption

theorem Counted.digit {rest : List Char} (counted : Counted cs n rest) : ∃ c ∈ cs, c.isDigit = true := by
  have first {digits : List Char} {count : Nat} (h : count? digits = some count) :
      ∃ c ∈ digits, c.isDigit = true := by
    cases digits with
    | nil => cases h
    | cons c rest => exact ⟨c,List.mem_cons_self,countDigits h c List.mem_cons_self⟩
  cases counted with
  | unit count | thousandths count =>
    obtain ⟨c,mem,digit⟩ := first count
    exact ⟨c,List.mem_append_left _ mem,digit⟩

theorem clockSeconds {total : Nat} (h : clock total cs = .seconds n) :
    n ≤ maxWord64 ∧ ∃ c ∈ cs, c.isDigit = true := by
  rcases clockElse cs with ⟨m,time⟩ | unreadable
  · rw [clockTime time,plus] at h
    split at h <;> cases h
    refine ⟨by assumption,?_⟩
    obtain ⟨-,-,-,hour,-,-,-,-⟩ := time
    obtain ⟨c,mem,digit⟩ := naturalDigit hour
    exact ⟨c,List.mem_append_left _ mem,digit⟩
  · cases (unreadable total).symm.trans h

theorem notationSeconds (some : cs ≠ []) (h : readNotation cs = .seconds n) :
    n ≤ maxWord64 ∧ ∃ c ∈ cs, c.isDigit = true := by
  unfold readNotation at h
  split at h
  · split at h
    · cases h
    · cases outcome : units 0 [] (unitPart cs) with
      | seconds sum =>
        rw [outcome] at h
        obtain ⟨word,c,mem,digit⟩ := clockSeconds h
        exact ⟨word,c,List.mem_of_mem_drop mem,digit⟩
      | _ => rw [outcome] at h; cases h
  · obtain ⟨runs,word⟩ := unitsSeconds.mp h
    cases runs with
    | none => exact absurd rfl some
    | one counted => exact ⟨word,counted.digit⟩

theorem secondsTold (h : seconds? s = some n) : n ≤ maxWord64 ∧ ∃ c ∈ s.toList, c.isDigit = true := by
  have inside : trimChars s.toList ⊆ s.toList := fun c mem =>
    (List.dropWhile_sublist _).subset ((dropEndWhileFront _ _).subset mem)
  have told : n ≤ maxWord64 ∧ ∃ c ∈ trimChars s.toList, c.isDigit = true := by
    unfold seconds? read readChars at h
    split at h
    · rename_i read
      cases h
      dsimp only at read
      split at read
      · cases read
      · rename_i some
        split at read
        · rename_i number
          cases read
          exact ⟨naturalWithin number,naturalDigit number⟩
        · exact notationSeconds (fun none => some (by rw [none]; rfl)) read
    · cases h
  obtain ⟨word,c,mem,digit⟩ := told
  exact ⟨word,c,inside mem,digit⟩

end Duration

namespace Value
variable {v w a : Value}

section Words
variable {s : String} {b : Bool} (word : boolWord? s = some b)
include word

theorem wordLetters : ∀ c ∈ s.toList, c.toLower.isLower = true := by
  have letters : ∀ w ∈ ["yes","true","on"] ++ ["no","false","off"], w.toList.all Char.isLower = true := by
    decide
  have listed : lowerAscii s ∈ ["yes","true","on"] ++ ["no","false","off"] := by
    unfold boolWord? at word
    dsimp only at word
    split at word
    · exact List.mem_append_left _ (by assumption)
    · split at word
      · exact List.mem_append_right _ (by assumption)
      · cases word
  intro c mem
  refine List.all_eq_true.mp (letters _ listed) _ ?_
  rw [lowerAscii,String.toList_ofList]
  exact List.mem_map_of_mem mem

theorem wordSolid : s.isEmpty = false ∧ ∀ c ∈ s.toList, c ≠ ',' ∧ isBlank c = false := by
  refine ⟨?_,fun c mem => ?_⟩
  · cases empty : s.isEmpty with
    | false => rfl
    | true => rw [String.isEmpty_iff.mp empty] at word; cases word
  · have letter := wordLetters word c mem
    refine ⟨fun comma => ?_,?_⟩
    · subst comma
      cases letter
    · by_contra blank
      have place : c.toNat ≤ 32 ∨ 133 ≤ c.toNat := by
        simp only [isBlank,Bool.not_eq_false,Bool.or_eq_true,Bool.and_eq_true,decide_eq_true_eq] at blank
        omega
      have notUpper : ¬(c.val ≥ 'A'.val ∧ c.val ≤ 'Z'.val) := by
        simp only [ge_iff_le,UInt32.le_iff_toNat_le]
        change ¬(65 ≤ c.toNat ∧ c.toNat ≤ 90)
        omega
      rw [show c.toLower = c from dif_neg notUpper] at letter
      have bounds : 97 ≤ c.toNat ∧ c.toNat ≤ 122 := by
        have letter : (decide (c.val ≥ 'a'.val) && decide (c.val ≤ 'z'.val)) = true := letter
        simpa [UInt32.le_iff_toNat_le] using letter
      omega

theorem wordUntold : Duration.seconds? s = none := by
  cases told : Duration.seconds? s with
  | none => rfl
  | some n =>
    obtain ⟨-,c,mem,digit⟩ := Duration.secondsTold told
    cases word.symm.trans (digitNoWord mem digit)

end Words

theorem digitSolid {c : Char} (digit : c.isDigit = true) : c ≠ ',' ∧ isBlank c = false := by
  refine ⟨?_,Duration.digitNoBlank digit⟩
  rintro rfl
  cases digit

theorem digitsSolid (k : Nat) : ∀ c ∈ Nat.toDigits 10 k, c ≠ ',' ∧ isBlank c = false := fun _ mem =>
  digitSolid (Nat.isDigit_of_mem_toDigits (by decide) (by decide) mem)

theorem numberText : (i : Int) → ∃ k, (toString i = String.ofList (Nat.toDigits 10 k) ∧ i = .ofNat k) ∨
    (toString i = String.ofList ('-' :: Nat.toDigits 10 k) ∧ i < 0)
  | .ofNat k => ⟨k,.inl ⟨rfl,rfl⟩⟩
  | .negSucc k => by
    refine ⟨k + 1,.inr ⟨String.toList_inj.mp ?_,Int.negSucc_lt_zero k⟩⟩
    show ("-" ++ String.ofList (Nat.toDigits 10 (k + 1))).toList = _
    simp

theorem numberSolid (i : Int) :
    (toString i).isEmpty = false ∧ ∀ c ∈ (toString i).toList, c ≠ ',' ∧ isBlank c = false := by
  obtain ⟨k,⟨text,-⟩ | ⟨text,-⟩⟩ := numberText i
  · rw [text,String.toList_ofList]
    exact ⟨by simp [Nat.toDigits_ne_nil],digitsSolid k⟩
  · rw [text,String.toList_ofList]
    exact ⟨by simp,List.forall_mem_cons.mpr ⟨⟨by decide,rfl⟩,digitsSolid k⟩⟩

theorem secondsNumber {i : Int} (range : isInt64 i = true) :
    Duration.seconds? (toString i) = (Value.int i).seconds? := by
  have whole : trimChars (toString i).toList = (toString i).toList :=
    trimmedWhole fun c mem => ((numberSolid i).2 c mem).2
  rw [Duration.seconds?,Duration.read,Duration.readChars,whole]
  obtain ⟨k,⟨text,rfl⟩ | ⟨text,negative⟩⟩ := numberText i
  · have small : k ≤ maxWord64 := by
      simp only [isInt64,Bool.and_eq_true,decide_eq_true_eq] at range
      exact Nat.le_trans (Int.ofNat_le.mp range.2) (by decide)
    have written : natural? maxWord64 (Nat.toDigits 10 k) = some k := Written.natural ⟨0,rfl⟩ small
    rw [text,String.toList_ofList]
    simp [written,Nat.toDigits_ne_nil,seconds?]
  · have noNumber : natural? maxWord64 ('-' :: Nat.toDigits 10 k) = none :=
      Duration.letterNoNumber List.mem_cons_self rfl (by decide) maxWord64
    have noColon : ':' ∉ Nat.toDigits 10 k := fun mem => by
      cases Nat.isDigit_of_mem_toDigits (by decide) (by decide) mem
    have unread : Duration.units 0 [] ('-' :: Nat.toDigits 10 k) = .unreadable := by
      rw [Duration.unitsNext _ _ (fun same => absurd same (by decide))]
      rfl
    rw [text,String.toList_ofList]
    simp [noNumber,Duration.readNotation,noColon,unread,seconds?,negative]

theorem secondsCanonical (flat : v.isList = false) (range : v.InRange) :
    Duration.seconds? v.canonical = v.seconds? := by
  cases v with
  | bool b => cases b <;> decide
  | int i => rw [canonical,secondsNumber range]
  | str s =>
    cases word : boolWord? s with
    | none => simp only [canonical,word,seconds?]
    | some b =>
      simp only [canonical,word,seconds?,wordUntold word]
      cases b <;> decide
  | list items => cases flat
  | duration n => simp only [canonical,seconds?,Duration.secondsRendered range]

theorem renderedSolid (n : Nat) : (Duration.render n).isEmpty = false ∧
    ∀ c ∈ (Duration.render n).toList, c ≠ ',' ∧ isBlank c = false := by
  rw [Duration.render,String.toList_ofList]
  obtain ⟨c,mem,-⟩ := Duration.renderedLetter n
  refine ⟨by simpa using List.ne_nil_of_mem mem,fun c mem => ?_⟩
  rcases Duration.renderedChars n c mem with digit | unit
  · exact digitSolid digit
  · simp only [List.mem_cons,List.not_mem_nil,or_false] at unit
    rcases unit with rfl | rfl | rfl | rfl | rfl <;> exact ⟨by decide,rfl⟩

theorem elementsSolid {s : String} (some : s.isEmpty = false)
    (solid : ∀ c ∈ s.toList, c ≠ ',' ∧ isBlank c = false) :
    (Value.str s).elements = [(Value.str s).canonical] := by
  have whole : splitOn ',' s = [s] := by
    rw [splitOn,piecesWhole fun c mem => beq_eq_false_iff_ne.mpr (solid c mem).1]
    simp
  have trimmed : trim s = s := by
    rw [trim,trimmedWhole fun c mem => (solid c mem).2,String.ofList_toList]
  simp only [elements,some,Bool.false_eq_true,if_false,whole,List.map_cons,List.map_nil,trimmed]

theorem elementsCanonical (flat : v.isList = false) : (Value.str v.canonical).elements = v.elements := by
  cases v with
  | bool b => cases b <;> decide
  | int i =>
    rw [canonical,elementsSolid (numberSolid i).1 (numberSolid i).2]
    simp only [canonical,numberNoWord,elements]
  | str s =>
    cases word : boolWord? s with
    | none => simp only [canonical,word]
    | some b =>
      obtain ⟨some,solid⟩ := wordSolid word
      rw [elementsSolid some solid]
      simp only [canonical,word]
      cases b <;> decide
  | list items => cases flat
  | duration n =>
    rw [canonical,elementsSolid (renderedSolid n).1 (renderedSolid n).2]
    simp only [canonical,durationNoWord,elements]

theorem toldReads {n : Nat} (told : v.seconds? = some n) : v.reading.stops = false := by
  cases v with
  | duration m => rfl
  | int i =>
    simp only [reading]
    split <;> rfl
  | str s =>
    simp only [seconds?,Duration.seconds?] at told
    split at told
    · rename_i read
      simp only [reading,read]
      rfl
    · cases told
  | bool b => cases told
  | list items => cases told

theorem flatAlike (flat : v.isList = false) (flat' : a.isList = false) (range : v.InRange)
    (range' : a.InRange) : v.alike a = true ↔ v.canonical = a.canonical ∨
      (v.isDuration = true ∨ a.isDuration = true) ∧ ∃ n, v.seconds? = some n ∧ a.seconds? = some n := by
  have text (same : v.canonical = a.canonical) : v.seconds? = a.seconds? := by
    rw [← secondsCanonical flat range,← secondsCanonical flat' range',same]
  simp only [alike,sameSeconds?,flat,flat',Bool.or_false,Bool.false_eq_true,if_false,Bool.or_eq_true]
  split
  · rename_i same read
    split at read
    · rename_i timed
      split at read
      · rename_i m n first second
        cases read
        rw [beq_iff_eq,first,second]
        constructor
        · rintro rfl
          exact .inr ⟨timed,_,rfl,rfl⟩
        · rintro (same | ⟨-,k,one,other⟩)
          · exact Option.some.inj (first.symm.trans ((text same).trans second))
          · exact Option.some.inj (one.trans other.symm)
      · cases read
    · cases read
  · rename_i unread
    rw [beq_iff_eq]
    refine ⟨.inl,fun either => either.resolve_right ?_⟩
    rintro ⟨timed,n,first,second⟩
    simp [timed,first,second] at unread

-- Where one of the two is a duration, what they have in common tells the seconds of both, so neither reading
-- breaks off.
theorem flatEqual (flat : v.isList = false) (flat' : a.isList = false) (range : v.InRange)
    (range' : a.InRange) : v.equal? a = some true ↔ v.canonical = a.canonical ∨
      (v.isDuration = true ∨ a.isDuration = true) ∧ ∃ n, v.seconds? = some n ∧ a.seconds? = some n := by
  rw [← flatAlike flat flat' range range']
  refine ⟨equalAlike,fun same => ?_⟩
  have seconds (timed : v.isDuration = true ∨ a.isDuration = true) :
      ∃ n, v.seconds? = some n ∧ a.seconds? = some n := by
    rcases (flatAlike flat flat' range range').mp same with text | ⟨-,told⟩
    · have agree : v.seconds? = a.seconds? := by
        rw [← secondsCanonical flat range,← secondsCanonical flat' range',text]
      rcases timed with timed | timed <;> obtain ⟨n,rfl⟩ := durationOnly timed
      · exact ⟨n,rfl,agree.symm⟩
      · exact ⟨n,agree,rfl⟩
    · exact told
  have reads : ((v.isDuration || a.isDuration) && (v.reading.stops || a.reading.stops)) = false := by
    cases timed : v.isDuration || a.isDuration with
    | false => rfl
    | true =>
      obtain ⟨n,told,told'⟩ := seconds (by simpa using timed)
      rw [toldReads told,toldReads told']
      rfl
  rw [equal?,reads,same]
  rfl

theorem listedEqual (listed : v.isList = true ∨ a.isList = true) :
    v.equal? a = some true ↔ v.elements = a.elements := by
  have unread : sameSeconds? v a = none := by
    cases v <;> cases a <;> simp_all [sameSeconds?,isList,isDuration,seconds?]
  have reads : ((v.isDuration || a.isDuration) && (v.reading.stops || a.reading.stops)) = false := by
    cases v <;> cases a <;> simp_all [isList,isDuration,reading,Duration.Reading.stops]
  simp [equal?,reads,alike,unread,listed]

/-- The elements of a list are those of a text that stands for the seconds of a value; if the value is no
duration itself, of the notation in which a duration is written. -/
def NotedIn (v w : Value) : Prop :=
  w.isList = true ∧ ∃ n s, v.seconds? = some n ∧ Duration.seconds? s = some n ∧
    w.elements = (Value.str s).elements ∧ (v.isDuration = false → s = Duration.render n)

inductive Overlap (v w : Value) : Prop
  | elements (same : v.elements = w.elements)
  | seconds {n : Nat} (first : v.seconds? = some n) (second : w.seconds? = some n)
  | noted (noted : NotedIn v w)
  | notedBy (noted : NotedIn w v)

theorem Overlap.symm (overlap : Overlap v w) : Overlap w v := by
  cases overlap with
  | elements same => exact .elements same.symm
  | seconds first second => exact .seconds second first
  | noted noted => exact .notedBy noted
  | notedBy noted => exact .noted noted

theorem listUntimed (listed : v.isList = true) : v.seconds? = none := by
  cases v with
  | list items => rfl
  | _ => cases listed

theorem secondsFlat {n : Nat} (told : v.seconds? = some n) : v.isList = false := by
  cases listed : v.isList with
  | false => rfl
  | true => cases (listUntimed listed).symm.trans told

theorem secondsWithin {n : Nat} (range : v.InRange) (told : v.seconds? = some n) : n ≤ maxWord64 := by
  rw [← secondsCanonical (secondsFlat told) range] at told
  exact (Duration.secondsTold told).1

theorem timedSeconds {n : Nat} (timed : v.isDuration = true) (told : v.seconds? = some n) :
    v = .duration n := by
  cases v with
  | duration m => cases told; rfl
  | _ => cases timed

-- Beside a list, the value that both equal has its elements; a value that has no elements in common with it
-- is equal by its seconds, and then one of the two is a duration.
theorem overlapBesideList (flat : v.isList = false) (listed : w.isList = true) (flat' : a.isList = false)
    (range : v.InRange) (range' : a.InRange) (first : v.equal? a = some true) (second : w.equal? a = some true) :
    Overlap v w := by
  have elements := (listedEqual (.inl listed)).mp second
  rcases (flatEqual flat flat' range range').mp first with same | ⟨timed,n,told,told'⟩
  · refine .elements ?_
    rw [elements,← elementsCanonical flat,same,elementsCanonical flat']
  · refine .noted ⟨listed,n,a.canonical,told,?_,?_,fun untimed => ?_⟩
    · rw [secondsCanonical flat' range',told']
    · rw [elements,elementsCanonical flat']
    · rw [timedSeconds (timed.resolve_left (by simp [untimed])) told',canonical]

theorem overlapOf (range : v.InRange) (range' : w.InRange) (rangeShared : a.InRange)
    (first : v.equal? a = some true) (second : w.equal? a = some true) : Overlap v w := by
  cases flat : a.isList with
  | true =>
    have one := (listedEqual (.inr flat)).mp first
    exact .elements (one.trans ((listedEqual (.inr flat)).mp second).symm)
  | false =>
    cases listed : v.isList <;> cases listed' : w.isList
    case true.true =>
      have one := (listedEqual (.inl listed)).mp first
      exact .elements (one.trans ((listedEqual (.inl listed')).mp second).symm)
    case true.false => exact (overlapBesideList listed' listed flat range' rangeShared second first).symm
    case false.true => exact overlapBesideList listed listed' flat range rangeShared first second
    case false.false =>
      have text {x : Value} (flat' : x.isList = false) (inRange : x.InRange)
          (same : x.canonical = a.canonical) : x.seconds? = a.seconds? ∧ x.elements = a.elements := by
        rw [← secondsCanonical flat' inRange,← elementsCanonical flat',same]
        exact ⟨secondsCanonical flat rangeShared,elementsCanonical flat⟩
      rcases (flatEqual listed flat range rangeShared).mp first with same | ⟨-,n,told,there⟩ <;>
        rcases (flatEqual listed' flat range' rangeShared).mp second with same' | ⟨-,m,told',there'⟩
      · exact .elements ((text listed range same).2.trans (text listed' range' same').2.symm)
      · exact .seconds ((text listed range same).1.trans there') told'
      · exact .seconds told ((text listed' range' same').1.trans there)
      · cases there.symm.trans there'
        exact .seconds told told'

def asList : Value → List Value
  | .list items => items
  | .str s => if s.isEmpty then [] else (splitOn ',' s).map fun piece => .str (trim piece)
  | v => [v]

theorem asListElements (v : Value) : (Value.list v.asList).elements = v.elements := by
  cases v with
  | str s =>
    cases empty : s.isEmpty <;> simp [elements,asList,empty]
  | _ => simp only [elements,asList,canonicals]

theorem textsInRange (texts : List String) : AllInRange (texts.map .str) := by
  induction texts with
  | nil => simp only [List.map_nil,AllInRange]
  | cons _ _ ih => simpa only [List.map_cons,AllInRange,InRange,true_and] using ih

theorem asListInRange (range : v.InRange) : (Value.list v.asList).InRange := by
  rw [InRange]
  cases v with
  | list items => simpa only [asList,InRange] using range
  | str s =>
    rw [asList]
    split
    · rw [AllInRange]
      trivial
    · have texts := textsInRange ((splitOn ',' s).map trim)
      rwa [List.map_map] at texts
  | _ => simpa only [asList,AllInRange,and_true] using range

theorem timedEqual {n : Nat} (told : v.seconds? = some n) : v.equal? (.duration n) = some true := by
  have own : (Value.duration n).seconds? = some n := rfl
  simp [equal?,alike,sameSeconds?,told,own,isDuration,toldReads told,toldReads own]

theorem notedShared (noted : NotedIn v w) (range : v.InRange) :
    ∃ a : Value, a.InRange ∧ v.equal? a = some true ∧ w.equal? a = some true := by
  obtain ⟨listed,n,s,told,read,elements,written⟩ := noted
  cases timed : v.isDuration with
  | true =>
    refine ⟨.str s,trivial,?_,(listedEqual (.inl listed)).mpr elements⟩
    cases timedSeconds timed told
    rw [equalComm]
    exact timedEqual read
  | false =>
    refine ⟨.duration n,secondsWithin range told,timedEqual told,(listedEqual (.inl listed)).mpr ?_⟩
    rw [elements,written timed,← elementsCanonical (v := .duration n) rfl,canonical]

theorem overlapShared (range : v.InRange) (range' : w.InRange) :
    (∃ a : Value, a.InRange ∧ v.equal? a = some true ∧ w.equal? a = some true) ↔ Overlap v w := by
  constructor
  · rintro ⟨a,rangeShared,first,second⟩
    exact overlapOf range range' rangeShared first second
  · intro overlap
    cases overlap with
    | elements same =>
      refine ⟨.list v.asList,asListInRange range,?_,?_⟩
      · rw [listedEqual (.inr rfl),asListElements]
      · rw [listedEqual (.inr rfl),asListElements,same]
    | seconds first second =>
      exact ⟨.duration _,secondsWithin range first,timedEqual first,timedEqual second⟩
    | noted noted => exact notedShared noted range
    | notedBy noted =>
      obtain ⟨a,rangeShared,second,first⟩ := notedShared noted range'
      exact ⟨a,rangeShared,first,second⟩

end Value
end RouterReconciler

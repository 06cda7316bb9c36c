import RouterReconciler.Proofs.Value.Durations
import RouterReconciler.Value.Basic

/-! The notations of a duration against each other. The text of a clock, as a device prints it, and the
notation in units that is written are read as the same seconds, and a duration equals the texts that are
read as its seconds and no others. -/
namespace RouterReconciler
open Text

namespace Duration
variable {cs front digits more hours minutes seconds : List Char} {w d h m s n : Nat}

inductive ClockText (w d h m s : Nat) : List Char → Prop
  | mk {weeks days hours minutes seconds : List Char} : Marked 'w' w weeks → Marked 'd' d days →
      Written h hours → Written m minutes → Written s seconds →
      ClockText w d h m s (weeks ++ days ++ (hours ++ ':' :: (minutes ++ ':' :: seconds)))

theorem markedChars {unit : Char} (marked : Marked unit n cs) : ∀ c ∈ cs, c.isDigit = true ∨ c = unit := by
  cases marked with
  | leftOut => simp
  | written written =>
    refine List.forall_mem_append.mpr ⟨fun c mem => ?_,List.forall_mem_singleton.mpr (.inr rfl)⟩
    exact .inl (digitsOnly written.digits c mem)

theorem markedLast {unit : Char} (marked : Marked unit n cs) : ∀ c ∈ cs.getLast?, c = unit := by
  cases marked with
  | leftOut => simp
  | written => simp

theorem unitPartFront (noColon : ':' ∉ front) (unit : ∀ c ∈ front.getLast?, c.isDigit = false)
    (all : ∀ c ∈ digits, c.isDigit = true) : unitPart (front ++ (digits ++ ':' :: more)) = front := by
  have before : ∀ c ∈ front ++ digits, (c != ':') = true := by
    refine List.forall_mem_append.mpr ⟨fun c mem => ?_,fun c mem => ?_⟩
    · exact bne_iff_ne.mpr fun same => noColon (same ▸ mem)
    · refine bne_iff_ne.mpr fun same => ?_
      cases same ▸ all c mem
  have ahead : (front ++ (digits ++ ':' :: more)).takeWhile (· != ':') = front ++ digits := by
    rw [← List.append_assoc,List.takeWhile_append_of_pos before]
    simp
  rw [unitPart,ahead,dropEndWhile,List.reverse_append,
    List.dropWhile_append_of_pos fun c mem => all c (List.mem_reverse.mp mem)]
  cases last : front.reverse with
  | nil => simpa using last.symm
  | cons c rest =>
    have noDigit : c.isDigit = false := unit c (by rw [← List.head?_reverse,last]; rfl)
    rw [List.dropWhile_cons_of_neg (by simp [noDigit]),← last,List.reverse_reverse]

theorem readNotationCut (noColon : ':' ∉ front)
    (unit : ∀ c ∈ front.getLast?, isAscii c = true ∧ c.isDigit = false)
    (all : ∀ c ∈ digits, c.isDigit = true) :
    readNotation (front ++ (digits ++ ':' :: more)) =
      (units 0 [] front).andThen fun total => clock total (digits ++ ':' :: more) := by
  have cut : unitPart (front ++ (digits ++ ':' :: more)) = front :=
    unitPartFront noColon (fun c mem => (unit c mem).2) all
  have colon : (front ++ (digits ++ ':' :: more)).contains ':' = true := by simp
  have uncut : cutsCharacter (front ++ (digits ++ ':' :: more)) = false := by
    rw [cutsCharacter,cut]
    split
    · rename_i c last
      rw [(unit c last).1]
      rfl
    · rfl
  simp only [readNotation,colon,uncut,cut,List.drop_left,Bool.false_eq_true,if_true,if_false]

theorem writtenTime (hour : Written h hours) (minute : Written m minutes) (second : Written s seconds)
    (fewMinutes : m < 60) (fewSeconds : s < 60) (word : h ≤ maxWord64) :
    TimeOfDay (hours ++ ':' :: (minutes ++ ':' :: seconds)) (h * 3600 + m * 60 + s) := by
  have noColon {k : Nat} {cs : List Char} (written : Written k cs) : ':' ∉ cs := fun mem => by
    cases digitsOnly written.digits _ mem
  have whole : seconds.takeWhile (· != '.') = seconds := by
    have digits : ∀ c ∈ seconds, (c != '.') = true := fun c mem => bne_iff_ne.mpr fun same => by
      cases same ▸ digitsOnly second.digits c mem
    have all : (seconds ++ []).takeWhile (· != '.') = seconds ++ [] := List.takeWhile_append_of_pos digits
    rwa [List.append_nil] at all
  have small : 59 ≤ maxWord64 := by decide
  refine .mk (noColon hour) (noColon minute) (noColon second) (hour.natural word)
    (minute.natural (by omega)) ?_ fewMinutes fewSeconds
  rw [whole]
  exact second.natural (by omega)

section Front
variable {weeks days : List Char} (week : Marked 'w' w weeks) (day : Marked 'd' d days)
include week day

theorem frontChars : ∀ c ∈ weeks ++ days, c.isDigit = true ∨ c = 'w' ∨ c = 'd' :=
  List.forall_mem_append.mpr ⟨fun c mem => (markedChars week c mem).imp_right .inl,
    fun c mem => (markedChars day c mem).imp_right .inr⟩

theorem frontLast : ∀ c ∈ (weeks ++ days).getLast?, c = 'w' ∨ c = 'd' := by
  intro c mem
  rw [List.getLast?_append] at mem
  cases ending : days.getLast? with
  | none =>
    rw [ending] at mem
    exact .inl (markedLast week c mem)
  | some final =>
    rw [ending] at mem
    exact .inr (markedLast day c (ending.trans mem))

theorem frontRead (word : w * 604800 + d * 86400 ≤ maxWord64) :
    units 0 [] (weeks ++ days) = .seconds (0 + w * 604800 + d * 86400) := by
  rw [unitsMarked week rfl (fun same => absurd same (by decide)) (by omega)]
  exact unitsMarkedLast day rfl (by omega)

end Front

theorem clockTrimmed (text : ClockText w d h m s cs) : trimChars cs = cs := by
  obtain ⟨week,day,hour,minute,second⟩ := text
  have digits {k : Nat} {cs : List Char} (written : Written k cs) : ∀ c ∈ cs, isBlank c = false :=
    fun c mem => digitNoBlank (digitsOnly written.digits c mem)
  refine trimmedWhole (List.forall_mem_append.mpr ⟨fun c mem => ?_,?_⟩)
  · rcases frontChars week day c mem with digit | rfl | rfl
    · exact digitNoBlank digit
    · rfl
    · rfl
  · exact List.forall_mem_append.mpr ⟨digits hour,List.forall_mem_cons.mpr ⟨rfl,
      List.forall_mem_append.mpr ⟨digits minute,List.forall_mem_cons.mpr ⟨rfl,digits second⟩⟩⟩⟩

theorem clockRead (text : ClockText w d h m s cs) (fewMinutes : m < 60) (fewSeconds : s < 60)
    (word : 604800 * w + 86400 * d + 3600 * h + 60 * m + s ≤ maxWord64) :
    read (String.ofList cs) = .seconds (604800 * w + 86400 * d + 3600 * h + 60 * m + s) := by
  have body : trimChars (String.ofList cs).toList = cs := by
    rw [String.toList_ofList,clockTrimmed text]
  obtain ⟨week,day,hour,minute,second⟩ := text
  rename_i weeks days hours minutes seconds
  have noColon : ':' ∉ weeks ++ days := fun mem => by
    have other : ':'.isDigit = true ∨ ':' = 'w' ∨ ':' = 'd' := frontChars week day _ mem
    revert other
    decide
  have unit : ∀ c ∈ (weeks ++ days).getLast?, isAscii c = true ∧ c.isDigit = false := fun c mem => by
    rcases frontLast week day c mem with rfl | rfl <;> exact ⟨rfl,rfl⟩
  have time := writtenTime hour minute second fewMinutes fewSeconds (by omega)
  rw [readLetter ⟨':',by rw [body]; simp,rfl,by decide⟩,body,
    readNotationCut noColon unit (digitsOnly hour.digits),frontRead week day (by omega)]
  simp only [Reading.andThen]
  rw [clockTime time,plusWithin (by omega)]
  congr 1
  omega

example : read "1w2d03:04:05" = .seconds 788645 := by decide

end Duration

namespace Value
variable {n : Nat} {t : String}

theorem renderedOther (word : n ≤ maxWord64) (unread : Duration.read t = .unreadable) :
    canonical (.str t) ≠ Duration.render n := by
  intro same
  have own : Duration.read (canonical (.str t)) = .seconds n := by rw [same,Duration.readRendered word]
  rw [canonical] at own
  split at own
  · rename_i b _
    have none : Duration.read (boolText b) = .unreadable := by cases b <;> decide
    cases none.symm.trans own
  · cases unread.symm.trans own

theorem durationEqual (word : n ≤ maxWord64) (answers : (Duration.read t).stops = false) :
    (Value.duration n).equal? (.str t) = some (decide (Duration.read t = .seconds n)) ∧
    (Value.str t).equal? (.duration n) = some (decide (Duration.read t = .seconds n)) := by
  have whole (n : Nat) : (Duration.Reading.seconds n).stops = false := rfl
  simp only [equal?,isDuration,reading,whole,answers,Bool.or_false,Bool.and_false,Bool.false_eq_true,
    if_false,Option.some.injEq,alike,sameSeconds?,Bool.or_true,if_true,seconds?,
    Duration.seconds?,isList]
  cases read : Duration.read t with
  | seconds m =>
    refine ⟨Bool.eq_iff_iff.mpr ?_,Bool.eq_iff_iff.mpr ?_⟩ <;>
      simp only [beq_iff_eq,decide_eq_true_eq,Duration.Reading.seconds.injEq]
    exact eq_comm
  | unreadable =>
    have other := renderedOther word read
    have written : canonical (.duration n) = Duration.render n := by rw [canonical]
    simp [written,other,Ne.symm other]
  | cutInsideCharacter | overflow => rw [read] at answers; cases answers

end Value
open Duration

/-- A duration in units as it is written, in any text of a clock that comes to it, and as a value beside any
text on which the reading does not break off. -/
theorem notationsAgree {n : Nat} (word : n ≤ maxWord64) :
    read (render n) = .seconds n ∧
    (∀ w d h m s cs, ClockText w d h m s cs → m < 60 → s < 60 →
      604800 * w + 86400 * d + 3600 * h + 60 * m + s = n → read (String.ofList cs) = .seconds n) ∧
    ∀ t, (read t).stops = false →
      (Value.duration n).equal? (.str t) = some (decide (read t = .seconds n)) ∧
      (Value.str t).equal? (.duration n) = some (decide (read t = .seconds n)) := by
  refine ⟨readRendered word,fun w d h m s cs text fewMinutes fewSeconds total => ?_,
    fun t answers => Value.durationEqual word answers⟩
  subst total
  exact clockRead text fewMinutes fewSeconds word

theorem notationsAgreeWeek :
    788645 ≤ maxWord64 ∧ read "1w2d3h4m5s" = .seconds 788645 ∧
    ClockText 1 2 3 4 5 "1w2d03:4:05".toList ∧ read "1w2d03:4:05" = .seconds 788645 ∧
    (read "1w2d03:4:05").stops = false ∧
    (Value.duration 788645).equal? (.str "1w2d03:4:05") = some true ∧
    (Value.str "1w2d03:4:05").equal? (.duration 788645) = some true := by
  have word : 788645 ≤ maxWord64 := by decide
  have text : ClockText 1 2 3 4 5 "1w2d03:4:05".toList :=
    .mk (.written ⟨0,rfl⟩) (.written ⟨0,rfl⟩) ⟨1,rfl⟩ ⟨0,rfl⟩ ⟨1,rfl⟩
  obtain ⟨units,clocks,texts⟩ := notationsAgree word
  have clock : read "1w2d03:4:05" = .seconds 788645 :=
    clocks 1 2 3 4 5 _ text (by decide) (by decide) rfl
  have answers : (read "1w2d03:4:05").stops = false := by rw [clock]; rfl
  have equal := texts _ answers
  simp only [clock,decide_true] at equal
  exact ⟨word,units,text,clock,answers,equal⟩

end RouterReconciler

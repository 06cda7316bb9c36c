import RouterReconciler.Proofs.Record.Fields
import RouterReconciler.Proofs.Text.Pieces
import RouterReconciler.Proofs.Value.Breaks
import RouterReconciler.Response

/-! Read responses as a script prints them, and what is read from them. Records of texts come back as
they are, whatever banner stands before them and whichever way lines end; a response that breaks off
before its end marker is complete is refused. -/
namespace RouterReconciler
open Text (pieces bareLines dropEndWhile)

theorem Entries.putAbsent {α : Type} {key : String} {l : List (String × α)}
    (absent : key ∉ l.map Prod.fst) (value : α) : put key value l = l ++ [(key,value)] := by
  induction l with
  | nil => rfl
  | cons entry rest ih =>
    obtain ⟨k,v⟩ := entry
    rw [List.map_cons,List.mem_cons,not_or] at absent
    simp [put,Ne.symm absent.1,ih absent.2]

theorem Entries.putAgain {α : Type} (key : String) (first second : α) (l : List (String × α)) :
    put key second (put key first l) = put key second l := by
  induction l with
  | nil => simp [put]
  | cons entry rest ih =>
    obtain ⟨k,v⟩ := entry
    by_cases same : k = key <;> simp [put,same,ih]

theorem Record.setAgain (r : Record) (key : String) (first second : Value) :
    (r.set key first).set key second = r.set key second := by
  simp [Record.set,Entries.insert,Entries.putAgain]

namespace Response

structure Printed where
  id : ItemId
  fields : Entries String

namespace Printed

def record (r : Printed) : Record := ⟨some r.id,r.fields.map fun _ text => .str text⟩

def idOutput (id : ItemId) : List Char := ".id|id|".toList ++ id.toList

def fieldOutput (field : String × String) : List Char :=
  field.1.toList ++ "|str|".toList ++ field.2.toList

def outputs (r : Printed) : List (List Char) :=
  recordStart.toList :: idOutput r.id :: r.fields.toList.map fieldOutput

end Printed

def returned (returns : Bool) : List Char := if returns then ['\r'] else []

def lineEnd (returns : Bool) : List Char := returned returns ++ ['\n']

def withEnds (returns : Bool) (cs : List Char) : List Char :=
  cs.flatMap fun c => if c = '\n' then lineEnd returns else [c]

def framed (noise : List (List Char)) (returns : Bool) (rs : List Printed) : List Char :=
  noise.flatMap (· ++ ['\n']) ++
    ((rs.flatMap Printed.outputs).flatMap (fun output => withEnds returns output ++ lineEnd returns) ++
      responseEnd.toList)

def Unmarked (line : List Char) : Prop :=
  ¬recordStart.toList <+: line ∧ ¬responseEnd.toList <+: line

instance (line : List Char) : Decidable (Unmarked line) := inferInstanceAs (Decidable (_ ∧ _))

def FieldShaped (line : List Char) : Prop :=
  ∃ key x y, line = key ++ '|' :: (x ++ '|' :: y) ∧ key ≠ [] ∧ '|' ∉ key

/-- What a field must keep to so that its lines can be told from those of other fields. -/
structure SeparableField (field : String × String) : Prop where
  named : field.1 ≠ "" ∧ field.1 ≠ ".id"
  key : '|' ∉ field.1.toList ∧ '\n' ∉ field.1.toList ∧ '\r' ∉ field.1.toList
  unmarked : Unmarked field.1.toList
  text : '\r' ∉ field.2.toList
  continued : ∀ line ∈ (pieces (· == '\n') field.2.toList).tail, Unmarked line ∧ ¬FieldShaped line

structure Printed.Separable (r : Printed) : Prop where
  id : '\n' ∉ r.id.toList ∧ '\r' ∉ r.id.toList
  fields : ∀ field ∈ r.fields.toList, SeparableField field

section
variable {record : Record} {last : Option String} {key : String} {line : List Char}

theorem Unmarked.notMarker (h : Unmarked line) :
    String.ofList line ≠ recordStart ∧ String.ofList line ≠ responseEnd := by
  have begun {marker : String} (same : String.ofList line = marker) : marker.toList <+: line :=
    ⟨[],by simp [← same]⟩
  exact ⟨fun same => h.1 (begun same),fun same => h.2 (begun same)⟩

def Untimed (line : List Char) : Prop :=
  ∀ key raw, '|' ∉ key → line = key ++ "|time|".toList ++ raw → key = []

namespace Untimed

theorem front {front : List Char} (h : Untimed line) (begins : front <+: line) : Untimed front := by
  rintro key raw clean rfl
  obtain ⟨behind,rfl⟩ := begins
  exact h key (raw ++ behind) clean (List.append_assoc _ _ _)

theorem fronts {lines kept : List (List Char)} (h : ∀ line ∈ kept, Untimed line)
    (fronts : List.Forall₂ (· <+: ·) lines kept) : ∀ line ∈ lines, Untimed line := by
  induction fronts with
  | nil => simp
  | cons begins _ ih =>
    obtain ⟨here,later⟩ := List.forall_mem_cons.mp h
    exact List.forall_mem_cons.mpr ⟨here.front begins,ih later⟩

theorem whole (h : '|' ∉ line) : Untimed line := by
  rintro key raw clean rfl
  simp at h

theorem shapeless (h : ¬FieldShaped line) : Untimed line := by
  rintro key raw clean rfl
  by_contra some
  exact h ⟨key,"time".toList,raw,by simp,some,clean⟩

theorem other {key kind : List Char} (clean : '|' ∉ key) (untimed : ¬"time|".toList <+: kind) :
    Untimed (key ++ '|' :: kind) := by
  intro key' raw clean' same
  have same : key ++ '|' :: kind = key' ++ '|' :: ("time|".toList ++ raw) := by simpa using same
  have cut := congrArg (pieces (· == '|')) same
  rw [Text.piecesCut (Text.notSeparator clean) (beq_self_eq_true '|'),
    Text.piecesCut (Text.notSeparator clean') (beq_self_eq_true '|')] at cut
  obtain ⟨rfl,-⟩ := List.cons.inj cut
  obtain ⟨-,rfl⟩ := List.cons.inj (List.append_cancel_left same)
  exact absurd (List.prefix_append _ _) untimed

theorem returned (h : Untimed line) (returns : Bool) : Untimed (line ++ returned returns) := by
  cases returns with
  | false => simpa [Response.returned] using h
  | true =>
    intro key raw clean same
    rcases List.eq_nil_or_concat raw with rfl | ⟨behind,c,rfl⟩
    · have last := congrArg List.getLast? same
      simp [Response.returned] at last
    · rw [List.concat_eq_append,← List.append_assoc] at same
      exact h key behind clean (List.append_inj_left' same rfl)

theorem told (h : Untimed line) : fieldLine record last line ≠ .error .brokenOff := by
  intro broken
  unfold fieldLine at broken
  dsimp only at broken
  split at broken
  · rename_i key kind raw cut
    split at broken
    · split at broken <;> cases broken
    · rename_i some
      split at broken
      · cases broken
      · split at broken
        · cases broken
        · cases broken
        · rename_i stops
          obtain ⟨shape,clean⟩ := Text.cutTwiceShape cut
          have time : kind = "time".toList := by
            rw [← (Value.decodeStops.mp stops).1,String.toList_ofList]
          subst time
          have empty := h key raw clean (by rw [shape]; simp)
          simp [empty] at some
  · split at broken <;> cases broken

end Untimed

theorem Unmarked.front {front : List Char} (h : Unmarked line) (begins : front <+: line) :
    Unmarked front := ⟨fun marked => h.1 (marked.trans begins),fun marked => h.2 (marked.trans begins)⟩

theorem brokenOff {cut front back : List Char} {c : Char} (part : cut <+: front ++ c :: back) :
    cut <+: front ∨ ∃ later, later <+: back ∧ cut = front ++ c :: later := by
  rcases List.prefix_or_prefix_of_prefix part (List.prefix_append front (c :: back)) with h | h
  · exact .inl h
  · obtain ⟨behind,rfl⟩ := h
    cases behind with
    | nil => exact .inl (by simp)
    | cons d later =>
      rw [List.prefix_append_right_inj] at part
      obtain ⟨rfl,left⟩ := List.cons_prefix_cons.mp part
      exact .inr ⟨later,left,rfl⟩

theorem beginsBefore {marker front back : List Char} {c : Char} (absent : c ∉ marker)
    (begins : marker <+: front ++ c :: back) : marker <+: front := by
  rcases brokenOff begins with h | ⟨later,-,rfl⟩
  · exact h
  · exact absurd (by simp) absent

theorem Unmarked.extended {c : Char} (absent : c = '|' ∨ c = '\r' ∨ c = '\n') (h : Unmarked line)
    (back : List Char) : Unmarked (line ++ c :: back) := by
  have free : c ∉ recordStart.toList ∧ c ∉ responseEnd.toList := by
    rcases absent with rfl | rfl | rfl <;> decide
  exact ⟨fun marked => h.1 (beginsBefore free.1 marked),fun marked => h.2 (beginsBefore free.2 marked)⟩

theorem readNoise (h : Unmarked line) (rest : List (List Char)) :
    readLines none last (line :: rest) = readLines none last rest := by
  simp [readLines,h.notMarker.1,h.notMarker.2]

theorem readField (h : Unmarked line) (rest : List (List Char)) {longer : Record} {key : Option String}
    (field : fieldLine record last line = .ok (longer,key)) :
    readLines (some record) last (line :: rest) = readLines (some longer) key rest := by
  simp [readLines,h.notMarker.1,h.notMarker.2,field]

theorem readStart (current : Option Record) (rest : List (List Char)) :
    readLines current last (recordStart.toList :: rest) =
      match readLines (some Record.empty) none rest with
      | .ok others => .ok (current.toList ++ others)
      | .error e => .error e := by
  exact if_pos String.ofList_toList

theorem readEnd (current : Option Record) (rest : List (List Char)) :
    readLines current last (responseEnd.toList :: rest) = .ok current.toList := by
  have other : responseEnd ≠ recordStart := by decide
  simp [readLines,other]

theorem idLine (id : ItemId) :
    fieldLine record last (Printed.idOutput id) = .ok ({ record with id := some id },none) := by
  have cut : Text.cutTwice '|' _ = _ :=
    Text.cutTwiceCut ".id".toList "id".toList id.toList (by decide) (by decide)
  have same : Printed.idOutput id =
    ".id".toList ++ '|' :: ("id".toList ++ '|' :: id.toList) := rfl
  rw [fieldLine,same,cut]
  simp

theorem keyLine (named : key ≠ "" ∧ key ≠ ".id") (clean : '|' ∉ key.toList) (raw : List Char) :
    fieldLine record last (key.toList ++ "|str|".toList ++ raw) =
      .ok (record.set key (.str (String.ofList raw)),some key) := by
  have cut : Text.cutTwice '|' _ = _ :=
    Text.cutTwiceCut key.toList "str".toList raw clean (by decide)
  have same : key.toList ++ "|str|".toList ++ raw =
      key.toList ++ '|' :: ("str".toList ++ '|' :: raw) := by
    simp
  have decoded : Value.decode? "str" (String.ofList raw) = some (some (.str (String.ofList raw))) := by
    simp [Value.decode?]
  rw [fieldLine,same,cut]
  simp [named.1,named.2,decoded]

theorem continuedLine (plain : ¬FieldShaped line) (text : List Char) :
    fieldLine (record.set key (.str (String.ofList text))) (some key) line =
      .ok (record.set key (.str (String.ofList (text ++ '\n' :: line))),some key) := by
  have there : (record.set key (.str (String.ofList text))).get? key =
      some (.str (String.ofList text)) := by
    simp [Record.get?,Record.set]
  have longer : continueText (record.set key (.str (String.ofList text))) (some key) line =
      some (record.set key (.str (String.ofList (text ++ '\n' :: line)))) := by
    have joined : String.ofList text ++ "\n" ++ String.ofList line =
        String.ofList (text ++ '\n' :: line) := by
      apply String.toList_injective
      simp
    simp [continueText,there,Record.setAgain,joined]
  unfold fieldLine
  simp only [longer]
  split
  · rename_i first second third cut
    obtain ⟨shape,clean⟩ := Text.cutTwiceShape cut
    have empty : first = [] := by
      by_contra nonempty
      exact plain ⟨first,second,third,shape,nonempty,clean⟩
    simp [empty]
  · rfl

theorem readContinued {lines : List (List Char)}
    (plain : ∀ line ∈ lines, Unmarked line ∧ ¬FieldShaped line) (text : List Char)
    (rest : List (List Char)) :
    readLines (some (record.set key (.str (String.ofList text)))) (some key) (lines ++ rest) =
      readLines (some (record.set key (.str (String.ofList (text ++ lines.flatMap ('\n' :: ·))))))
        (some key) rest := by
  induction lines generalizing text with
  | nil => simp
  | cons line lines ih =>
    obtain ⟨⟨unmarked,shape⟩,later⟩ := List.forall_mem_cons.mp plain
    rw [List.cons_append,readField unmarked _ (continuedLine shape text),ih later]
    simp

end

section
variable {rs : List Printed}

def Printed.lines (r : Printed) : List (List Char) := r.outputs.flatMap (pieces (· == '\n'))

theorem Printed.linesShape {r : Printed} (separable : r.Separable) :
    r.lines = recordStart.toList :: idOutput r.id ::
      (r.fields.toList.map fieldOutput).flatMap (pieces (· == '\n')) := by
  have whole : '\n' ∉ recordStart.toList := by decide
  have start : pieces (· == '\n') recordStart.toList = [recordStart.toList] :=
    Text.piecesWhole (Text.notSeparator whole)
  have clean : '\n' ∉ idOutput r.id := by
    intro mem
    rcases List.mem_append.mp mem with mem | mem
    · exact absurd mem (by decide)
    · exact separable.id.1 mem
  have named : pieces (· == '\n') (idOutput r.id) = [idOutput r.id] :=
    Text.piecesWhole (Text.notSeparator clean)
  rw [lines,outputs,List.flatMap_cons,List.flatMap_cons,start,named]
  rfl

theorem Printed.idUnmarked (id : ItemId) : Unmarked (idOutput id) := by
  have begins : Unmarked ".id".toList := by decide
  exact begins.extended (.inl rfl) _

-- Only the first line of a field bears its key, the others continue its text.
theorem SeparableField.lines {field : String × String} (separable : SeparableField field) :
    ∃ first others, pieces (· == '\n') field.2.toList = first :: others ∧
      pieces (· == '\n') (Printed.fieldOutput field) =
        (field.1.toList ++ "|str|".toList ++ first) :: others ∧
      Unmarked (field.1.toList ++ "|str|".toList ++ first) ∧
      ∀ line ∈ others, Unmarked line ∧ ¬FieldShaped line := by
  obtain ⟨first,others,cut⟩ := Text.somePiece (· == '\n') field.2.toList
  have continued := separable.continued
  rw [cut] at continued
  have begins := separable.unmarked.extended (.inl rfl) ("str|".toList ++ first)
  refine ⟨first,others,cut,Text.piecesAppend (Text.notSeparator ?_) cut,by simpa using begins,continued⟩
  simpa using separable.key.2.1

theorem readFields {fields : List (String × String)} (separable : ∀ field ∈ fields, SeparableField field)
    (record : Record) (last : Option String) (rest : List (List Char)) :
    ∃ key, readLines (some record) last
        ((fields.map Printed.fieldOutput).flatMap (pieces (· == '\n')) ++ rest) =
      readLines (some (fields.foldl (fun r field => r.set field.1 (.str field.2)) record)) key rest := by
  induction fields generalizing record last with
  | nil => exact ⟨last,rfl⟩
  | cons field fields ih =>
    obtain ⟨here,later⟩ := List.forall_mem_cons.mp separable
    obtain ⟨first,others,cut,lines,unmarked,plain⟩ := here.lines
    have joined : String.ofList (first ++ others.flatMap ('\n' :: ·)) = field.2 := by
      rw [← Text.piecesJoined cut,String.ofList_toList]
    obtain ⟨key,read⟩ := ih later (record.set field.1 (.str field.2)) (some field.1)
    refine ⟨key,?_⟩
    rw [List.map_cons,List.flatMap_cons,lines,List.append_assoc,List.cons_append,
      readField unmarked _ (keyLine here.named here.key.1 first),readContinued plain,joined,
      List.foldl_cons]
    exact read

theorem setEach (id : Option ItemId) {before whole : Entries Value} {fields : List (String × String)}
    (all : whole.toList = before.toList ++ fields.map fun field => (field.1,.str field.2)) :
    fields.foldl (fun r field => r.set field.1 (.str field.2)) (⟨id,before⟩ : Record) = ⟨id,whole⟩ := by
  induction fields generalizing before with
  | nil =>
    obtain ⟨l,distinct⟩ := before
    obtain ⟨l',distinct'⟩ := whole
    cases all.trans (List.append_nil l)
    rfl
  | cons field fields ih =>
    have absent : field.1 ∉ before.keys := fun mem => by
      have distinct := whole.distinct
      rw [all,List.map_append,List.nodup_append] at distinct
      exact distinct.2.2 _ mem _ List.mem_cons_self rfl
    have added : (before.insert field.1 (.str field.2)).toList =
      before.toList ++ [(field.1,.str field.2)] := Entries.putAbsent absent _
    refine ih ?_
    rw [added,all]
    simp

theorem readRecord {r : Printed} (separable : r.Separable) (current : Option Record)
    (last : Option String) (rest : List (List Char)) :
    ∃ key, readLines current last (r.lines ++ rest) =
      (readLines (some r.record) key rest).map (current.toList ++ ·) := by
  obtain ⟨key,read⟩ := readFields separable.fields ⟨some r.id,∅⟩ none rest
  have whole : r.fields.toList.foldl (fun r field => r.set field.1 (.str field.2)) ⟨some r.id,∅⟩ =
      r.record := setEach (some r.id) rfl
  refine ⟨key,?_⟩
  rw [Printed.linesShape separable,List.cons_append,readStart,List.cons_append,
    readField (Printed.idUnmarked r.id) _ (idLine r.id)]
  simp only [Record.empty]
  rw [read,whole]
  cases readLines (some r.record) key rest <;> rfl

-- Only a field of a time could break off, and scripts print none.
theorem readUntimed {current : Option Record} {last : Option String} {lines : List (List Char)}
    (untimed : ∀ line ∈ lines, Untimed line) : readLines current last lines ≠ .error .brokenOff := by
  induction lines generalizing current last with
  | nil => nofun
  | cons line rest ih =>
    obtain ⟨here,later⟩ := List.forall_mem_cons.mp untimed
    unfold readLines
    split
    · have others : readLines (some .empty) none rest ≠ .error .brokenOff := ih later
      split
      · nofun
      · rename_i e failed
        rintro ⟨⟩
        exact others failed
    · split
      · nofun
      · split
        · exact ih later
        · split
          · exact ih later
          · rename_i e failed
            rintro ⟨⟩
            exact here.told failed

theorem readRecords (separable : ∀ r ∈ rs, r.Separable) (current : Option Record)
    (last : Option String) (rest : List (List Char)) :
    readLines current last (rs.flatMap Printed.lines ++ responseEnd.toList :: rest) =
      .ok (current.toList ++ rs.map Printed.record) := by
  induction rs generalizing current last with
  | nil => simp [readEnd]
  | cons r rs ih =>
    obtain ⟨here,later⟩ := List.forall_mem_cons.mp separable
    obtain ⟨key,read⟩ := readRecord here current last
      (rs.flatMap Printed.lines ++ responseEnd.toList :: rest)
    rw [List.flatMap_cons,List.append_assoc,read,ih later]
    rfl

theorem readBanner {noise : List (List Char)} (quiet : ∀ line ∈ noise, Unmarked line)
    (rest : List (List Char)) : readLines none none (noise ++ rest) = readLines none none rest := by
  induction noise with
  | nil => rfl
  | cons line noise ih =>
    obtain ⟨here,later⟩ := List.forall_mem_cons.mp quiet
    rw [List.cons_append,readNoise here,ih later]

theorem endNeeded {current : Option Record} {last : Option String} {lines : List (List Char)}
    {found : List Record} (read : readLines current last lines = .ok found) :
    responseEnd.toList ∈ lines := by
  induction lines generalizing current last found with
  | nil => cases read
  | cons line rest ih =>
    simp only [readLines] at read
    split at read
    · split at read
      · rename_i others later
        exact List.mem_cons_of_mem _ (ih later)
      · cases read
    · split at read
      · rename_i same
        exact List.mem_cons.mpr (.inl (same ▸ String.toList_ofList))
      · split at read
        · exact List.mem_cons_of_mem _ (ih read)
        · split at read
          · exact List.mem_cons_of_mem _ (ih read)
          · cases read

-- The line that a text breaks off in is its last one, and only a front of what it was.
theorem partEndless {line cut : List Char} (clean : '\n' ∉ line) (part : cut <+: line)
    (none : ¬responseEnd.toList <+: cut) : responseEnd.toList ∉ bareLines cut := by
  intro mem
  rcases Text.bareLinesLast (fun ends => clean (part.subset ends)) with empty | one
  · rw [empty] at mem
    cases mem
  · have same := List.mem_singleton.mp (one ▸ mem)
    exact none (same ▸ Text.dropEndWhileFront _ cut)

theorem cutEndless {lines : List (List Char)} {cut : List Char}
    (none : ∀ line ∈ lines, '\n' ∉ line ∧ ¬responseEnd.toList <+: line)
    (part : cut <+: lines.flatMap (· ++ ['\n']) ++ responseEnd.toList)
    (proper : cut ≠ lines.flatMap (· ++ ['\n']) ++ responseEnd.toList) :
    responseEnd.toList ∉ bareLines cut := by
  induction lines generalizing cut with
  | nil =>
    exact partEndless (by decide) part fun whole =>
      proper (part.eq_of_length_le whole.length_le)
  | cons line lines ih =>
    obtain ⟨⟨clean,other⟩,later⟩ := List.forall_mem_cons.mp none
    have shape : (line :: lines).flatMap (· ++ ['\n']) ++ responseEnd.toList =
      line ++ '\n' :: (lines.flatMap (· ++ ['\n']) ++ responseEnd.toList) := by simp
    rw [shape] at part proper
    rcases brokenOff part with inside | ⟨behind,left,rfl⟩
    · exact partEndless clean inside fun whole => other (whole.trans inside)
    · rw [Text.bareLinesCons clean,List.mem_cons,not_or]
      refine ⟨fun same => other (same ▸ Text.dropEndWhileFront _ line),ih later left fun same => ?_⟩
      exact proper (by rw [same])

theorem partLines {line cut : List Char} (clean : '\n' ∉ line) (inside : cut <+: line)
    (rest : List (List Char)) :
    ∃ kept, kept <+: line :: rest ∧ List.Forall₂ (· <+: ·) (bareLines cut) kept := by
  rcases Text.bareLinesLast (fun ends => clean (inside.subset ends)) with empty | one
  · rw [empty]
    exact ⟨[],List.nil_prefix,.nil⟩
  · rw [one]
    exact ⟨[line],⟨rest,rfl⟩,.cons ((Text.dropEndWhileFront _ cut).trans inside) .nil⟩

theorem cutLines {lines : List (List Char)} {cut : List Char} (clean : ∀ line ∈ lines, '\n' ∉ line)
    (part : cut <+: lines.flatMap (· ++ ['\n']) ++ responseEnd.toList) :
    ∃ kept, kept <+: lines ++ [responseEnd.toList] ∧ List.Forall₂ (· <+: ·) (bareLines cut) kept := by
  induction lines generalizing cut with
  | nil => exact partLines (by decide) part []
  | cons line lines ih =>
    obtain ⟨here,later⟩ := List.forall_mem_cons.mp clean
    have shape : (line :: lines).flatMap (· ++ ['\n']) ++ responseEnd.toList =
      line ++ '\n' :: (lines.flatMap (· ++ ['\n']) ++ responseEnd.toList) := by simp
    rw [shape] at part
    rcases brokenOff part with inside | ⟨behind,left,rfl⟩
    · exact partLines here inside _
    · obtain ⟨kept,begins,fronts⟩ := ih later left
      rw [Text.bareLinesCons here]
      exact ⟨line :: kept,List.cons_prefix_cons.mpr ⟨rfl,begins⟩,
        .cons (Text.dropEndWhileFront _ line) fronts⟩

theorem withEndsLines (returns : Bool) (cs : List Char) :
    withEnds returns cs ++ lineEnd returns =
      (pieces (· == '\n') cs).flatMap (· ++ lineEnd returns) := by
  induction cs with
  | nil => simp [withEnds,pieces]
  | cons c cs ih =>
    obtain ⟨first,others,cut⟩ := Text.somePiece (· == '\n') cs
    rw [cut] at ih
    by_cases ends : c = '\n' <;> simpa [withEnds,pieces,ends,cut] using ih

theorem framedLines (noise : List (List Char)) (returns : Bool) (rs : List Printed) :
    framed noise returns rs =
      (noise ++ (rs.flatMap Printed.lines).map (· ++ returned returns)).flatMap (· ++ ['\n']) ++
        responseEnd.toList := by
  have ended (outputs : List (List Char)) :
      outputs.flatMap (fun output => withEnds returns output ++ lineEnd returns) =
        ((outputs.flatMap (pieces (· == '\n'))).map (· ++ returned returns)).flatMap (· ++ ['\n']) := by
    simp only [withEndsLines]
    simp only [lineEnd,List.flatMap_map,List.flatMap_assoc,List.append_assoc]
  have lined : rs.flatMap Printed.lines = (rs.flatMap Printed.outputs).flatMap (pieces (· == '\n')) := by
    rw [List.flatMap_assoc]
    rfl
  rw [framed,ended,lined,List.flatMap_append,List.append_assoc]

theorem Printed.outputsPlain {r : Printed} (separable : r.Separable) {output : List Char}
    (mem : output ∈ r.outputs) : '\r' ∉ output := by
  rcases List.mem_cons.mp mem with rfl | mem
  · decide
  rcases List.mem_cons.mp mem with rfl | mem
  · intro returns
    rcases List.mem_append.mp returns with returns | returns
    · exact absurd returns (by decide)
    · exact separable.id.2 returns
  · obtain ⟨field,here,rfl⟩ := List.mem_map.mp mem
    have plain := separable.fields field here
    simp [fieldOutput,plain.key.2.2,plain.text]

theorem Printed.linesEndless {r : Printed} (separable : r.Separable) {line : List Char}
    (mem : line ∈ r.lines) : ¬responseEnd.toList <+: line := by
  rw [linesShape separable] at mem
  rcases List.mem_cons.mp mem with rfl | mem
  · decide
  rcases List.mem_cons.mp mem with rfl | mem
  · exact (idUnmarked r.id).2
  · obtain ⟨output,here,mem⟩ := List.mem_flatMap.mp mem
    obtain ⟨field,there,rfl⟩ := List.mem_map.mp here
    obtain ⟨first,others,-,lines,unmarked,later⟩ := (separable.fields field there).lines
    rw [lines] at mem
    rcases List.mem_cons.mp mem with rfl | mem
    · exact unmarked.2
    · exact (later line mem).1.2

theorem Printed.linesPlain {r : Printed} (separable : r.Separable) {line : List Char}
    (mem : line ∈ r.lines) : '\n' ∉ line ∧ '\r' ∉ line ∧ ¬responseEnd.toList <+: line := by
  obtain ⟨output,here,part⟩ := List.mem_flatMap.mp mem
  refine ⟨fun ends => ?_,fun returns => ?_,linesEndless separable mem⟩
  · simpa using Text.piecesClean part _ ends
  · exact outputsPlain separable here (Text.piecesSubset part returns)

theorem Printed.linesUntimed {r : Printed} (separable : r.Separable) {line : List Char}
    (mem : line ∈ r.lines) : Untimed line := by
  rw [linesShape separable] at mem
  rcases List.mem_cons.mp mem with rfl | mem
  · exact .whole (by decide)
  rcases List.mem_cons.mp mem with rfl | mem
  · have shape : idOutput r.id = ".id".toList ++ '|' :: ("id|".toList ++ r.id.toList) := rfl
    rw [shape]
    exact .other (by decide) (by simp)
  · obtain ⟨output,here,mem⟩ := List.mem_flatMap.mp mem
    obtain ⟨field,there,rfl⟩ := List.mem_map.mp here
    obtain ⟨first,others,-,lines,-,later⟩ := (separable.fields field there).lines
    rw [lines] at mem
    rcases List.mem_cons.mp mem with rfl | mem
    · have plain : Untimed (field.1.toList ++ '|' :: ("str|".toList ++ first)) :=
        .other (separable.fields field there).key.1 (by simp)
      simpa using plain
    · exact .shapeless (later line mem).2

theorem readUnbroken {noise rest kept lines : List (List Char)} (quiet : ∀ line ∈ noise, Unmarked line)
    (untimed : ∀ line ∈ rest, Untimed line) (begins : kept <+: noise ++ rest)
    (fronts : List.Forall₂ (· <+: ·) lines kept) : readLines none none lines ≠ .error .brokenOff := by
  induction noise generalizing kept lines with
  | nil =>
    exact readUntimed (.fronts (fun line mem => untimed line (begins.subset mem)) fronts)
  | cons first noise ih =>
    obtain ⟨here,later⟩ := List.forall_mem_cons.mp quiet
    cases fronts with
    | nil => nofun
    | cons front fronts =>
      obtain ⟨rfl,others⟩ := List.cons_prefix_cons.mp begins
      rw [readNoise (here.front front)]
      exact ih later others fronts

theorem lastLine {behind : List Char} (part : behind <+: lineEnd returns) :
    bareLines (responseEnd.toList ++ behind) = [responseEnd.toList] := by
  cases returns <;>
    simp only [lineEnd,returned,List.prefix_cons_iff,List.prefix_nil,if_true,if_false,
      List.nil_append,List.cons_append,Bool.false_eq_true] at part
  · rcases part with rfl | ⟨-,rfl,rfl⟩ <;> decide
  · rcases part with rfl | ⟨-,rfl,rfl | ⟨-,rfl,rfl⟩⟩ <;> decide

theorem returnedLine {line : List Char}
    (plain : '\n' ∉ line ∧ '\r' ∉ line ∧ ¬responseEnd.toList <+: line) (returns : Bool) :
    '\n' ∉ line ++ returned returns ∧ ¬responseEnd.toList <+: line ++ returned returns ∧
      dropEndWhile (· == '\r') (line ++ returned returns) = line := by
  obtain ⟨whole,clean,endless⟩ := plain
  have bare : dropEndWhile (· == '\r') line = line :=
    Text.dropEndWhileNone fun c mem => beq_eq_false_iff_ne.mpr fun same => clean (same ▸ mem)
  cases returns with
  | false => simpa [returned,bare] using ⟨whole,endless⟩
  | true =>
    refine ⟨by simpa [returned] using whole,fun begins => endless (beginsBefore (by decide) begins),?_⟩
    exact (Text.dropEndWhileLast rfl line).trans bare

theorem rawLines (returns : Bool) {noise : List (List Char)}
    (quiet : ∀ line ∈ noise, '\n' ∉ line ∧ Unmarked line) (separable : ∀ r ∈ rs, r.Separable) :
    (∀ line ∈ noise ++ (rs.flatMap Printed.lines).map (· ++ returned returns),
      '\n' ∉ line ∧ ¬responseEnd.toList <+: line) ∧
    (noise ++ (rs.flatMap Printed.lines).map (· ++ returned returns)).map (dropEndWhile (· == '\r')) =
      noise.map (dropEndWhile (· == '\r')) ++ rs.flatMap Printed.lines := by
  have back : ∀ line ∈ rs.flatMap Printed.lines, '\n' ∉ line ++ returned returns ∧
      ¬responseEnd.toList <+: line ++ returned returns ∧
      dropEndWhile (· == '\r') (line ++ returned returns) = line := by
    intro line mem
    obtain ⟨r,here,mem⟩ := List.mem_flatMap.mp mem
    exact returnedLine (Printed.linesPlain (separable r here) mem) returns
  constructor
  · intro line mem
    rcases List.mem_append.mp mem with mem | mem
    · exact ⟨(quiet line mem).1,(quiet line mem).2.2⟩
    · obtain ⟨line,here,rfl⟩ := List.mem_map.mp mem
      exact ⟨(back line here).1,(back line here).2.1⟩
  · rw [List.map_append,List.map_map]
    congr 1
    exact (List.map_congr_left fun line mem => (back line mem).2.2).trans (List.map_id _)

/-- Whatever banner stands before them and whichever way lines end, the records are read as they were
printed; a response that ends before its end marker is complete is refused with an error. -/
theorem framedRead (returns : Bool) {noise : List (List Char)} {rs : List Printed}
    (quiet : ∀ line ∈ noise, '\n' ∉ line ∧ Unmarked line) (separable : ∀ r ∈ rs, r.Separable) :
    (∀ behind, behind <+: lineEnd returns →
      records (String.ofList (framed noise returns rs ++ behind)) = .ok (rs.map Printed.record)) ∧
    ∀ cut, cut <+: framed noise returns rs → cut ≠ framed noise returns rs →
      ∃ e, records (String.ofList cut) = .error (.failed e) := by
  obtain ⟨raw,bared⟩ := rawLines returns quiet separable
  constructor
  · intro behind part
    have lines : bareLines (framed noise returns rs ++ behind) =
        noise.map (dropEndWhile (· == '\r')) ++ (rs.flatMap Printed.lines ++ [responseEnd.toList]) := by
      rw [framedLines,List.append_assoc,Text.bareLinesAppend fun line mem => (raw line mem).1,
        lastLine part,bared,List.append_assoc]
    have bannered : ∀ line ∈ noise.map (dropEndWhile (· == '\r')), Unmarked line := by
      intro line mem
      obtain ⟨line,here,rfl⟩ := List.mem_map.mp mem
      exact (quiet line here).2.front (Text.dropEndWhileFront _ line)
    show readLines none none (bareLines (String.ofList _).toList) = _
    rw [String.toList_ofList,lines,readBanner bannered,readRecords separable]
    rfl
  · intro cut part proper
    rw [framedLines] at part proper
    have endless := cutEndless raw part proper
    have unbroken : records (String.ofList cut) ≠ .error .brokenOff := by
      obtain ⟨kept,begins,fronts⟩ := cutLines (fun line mem => (raw line mem).1) part
      show readLines none none (bareLines (String.ofList cut).toList) ≠ _
      rw [String.toList_ofList]
      rw [List.append_assoc] at begins
      refine readUnbroken (fun line mem => (quiet line mem).2) (fun line mem => ?_) begins fronts
      rcases List.mem_append.mp mem with mem | last
      · obtain ⟨line,here,rfl⟩ := List.mem_map.mp mem
        obtain ⟨r,there,here⟩ := List.mem_flatMap.mp here
        exact (Printed.linesUntimed (separable r there) here).returned returns
      · rw [List.mem_singleton.mp last]
        exact .whole (by decide)
    cases read : records (String.ofList cut) with
    | error e =>
      cases e with
      | brokenOff => exact absurd read unbroken
      | failed e => exact ⟨e,rfl⟩
    | ok found =>
      have ended : responseEnd.toList ∈ bareLines (String.ofList cut).toList := endNeeded read
      rw [String.toList_ofList] at ended
      exact absurd ended endless

end

theorem notFieldShaped {line : List Char} (h : '|' ∉ line ∨ line.head? = some '|') :
    ¬FieldShaped line := by
  rintro ⟨key,x,y,rfl,nonempty,clean⟩
  rcases h with none | front
  · simp at none
  · cases key with
    | nil => exact nonempty rfl
    | cons c key =>
      cases front
      exact clean List.mem_cons_self

def commented : Printed where
  id := "*1"
  fields := ⟨[("comment","lan|a|b\nsecond line\n|third|x\n"),("name","")],by decide⟩

theorem commentedSeparable : commented.Separable where
  id := by decide
  fields := by
    intro field mem
    have checked : ∀ field ∈ commented.fields.toList, (field.1 ≠ "" ∧ field.1 ≠ ".id") ∧
        ('|' ∉ field.1.toList ∧ '\n' ∉ field.1.toList ∧ '\r' ∉ field.1.toList) ∧
        Unmarked field.1.toList ∧ '\r' ∉ field.2.toList ∧
        ∀ line ∈ (pieces (· == '\n') field.2.toList).tail,
          Unmarked line ∧ ('|' ∉ line ∨ line.head? = some '|') := by
      decide
    obtain ⟨named,key,unmarked,text,lines⟩ := checked field mem
    exact ⟨named,key,unmarked,text,fun line later => (lines line later).imp_right notFieldShaped⟩

theorem framedReadComment :
    records (String.ofList (framed ["RouterOS\r".toList] true [commented] ++ lineEnd true)) =
      .ok [commented.record] ∧
    ∃ e, records (String.ofList (framed ["RouterOS\r".toList] true [commented]).dropLast) =
      .error (.failed e) :=
  have quiet : ∀ line ∈ ["RouterOS\r".toList], '\n' ∉ line ∧ Unmarked line := by decide
  have separable : ∀ r ∈ [commented], r.Separable := by simpa using commentedSeparable
  ⟨(framedRead true quiet separable).1 _ (List.prefix_refl _),
    (framedRead true quiet separable).2 _ (List.dropLast_prefix _) (by decide)⟩

example : String.ofList (framed ["RouterOS\r".toList] true [commented] ++ lineEnd true) =
    "RouterOS\r\n<REC>\r\n.id|id|*1\r\ncomment|str|lan|a|b\r\nsecond line\r\n|third|x\r\n\r\n" ++
      "name|str|\r\n<END>\r\n" := by
  decide

end Response
end RouterReconciler

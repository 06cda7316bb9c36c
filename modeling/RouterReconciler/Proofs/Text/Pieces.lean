import RouterReconciler.Text.Basic

/-! Cutting a text into pieces and into lines, told from how the text is put together: what stands
before the first separator is the first piece, and an ended line is the first line. -/
namespace RouterReconciler.Text

section
variable {p : Char → Bool} {front cs : List Char}

theorem somePiece (p : Char → Bool) (cs : List Char) : ∃ first rest, pieces p cs = first :: rest :=
  List.exists_cons_of_ne_nil (piecesNotNil p cs)

theorem notSeparator {separator : Char} (clean : separator ∉ cs) :
    ∀ c ∈ cs, (c == separator) = false :=
  fun _ mem => beq_eq_false_iff_ne.mpr fun same => clean (same ▸ mem)

theorem piecesAppend (clean : ∀ c ∈ front, p c = false) {first : List Char} {rest : List (List Char)}
    (cut : pieces p cs = first :: rest) : pieces p (front ++ cs) = (front ++ first) :: rest := by
  induction front with
  | nil => exact cut
  | cons c front ih =>
    obtain ⟨here,later⟩ := List.forall_mem_cons.mp clean
    simp [pieces,here,ih later]

theorem piecesCut (clean : ∀ c ∈ front, p c = false) {separator : Char} (cuts : p separator = true)
    (rest : List Char) : pieces p (front ++ separator :: rest) = front :: pieces p rest := by
  have behind : pieces p (separator :: rest) = [] :: pieces p rest := by simp [pieces,cuts]
  simpa using piecesAppend clean behind

theorem piecesWhole (clean : ∀ c ∈ cs, p c = false) : pieces p cs = [cs] := by
  have whole : pieces p (cs ++ []) = [cs ++ []] := piecesAppend clean rfl
  simpa using whole

theorem piecesClean {piece : List Char} (mem : piece ∈ pieces p cs) : ∀ c ∈ piece, p c = false := by
  induction cs generalizing piece with
  | nil => cases List.mem_singleton.mp mem; simp
  | cons c rest ih =>
    obtain ⟨first,others,cut⟩ := somePiece p rest
    rw [cut] at ih
    have each : ∀ piece ∈ first :: others, ∀ c ∈ piece, p c = false := fun _ mem => ih mem
    obtain ⟨ahead,behind⟩ := List.forall_mem_cons.mp each
    cases here : p c with
    | true =>
      simp only [pieces,here,cut,if_true] at mem
      rcases List.mem_cons.mp mem with rfl | mem
      · simp
      · exact ih mem
    | false =>
      simp only [pieces,here,cut,Bool.false_eq_true,if_false] at mem
      rcases List.mem_cons.mp mem with rfl | mem
      · exact List.forall_mem_cons.mpr ⟨here,ahead⟩
      · exact behind piece mem

theorem piecesJoined {separator : Char} {first : List Char} {rest : List (List Char)}
    (cut : pieces (· == separator) cs = first :: rest) :
    cs = first ++ rest.flatMap (separator :: ·) := by
  induction cs generalizing first rest with
  | nil => cases cut; rfl
  | cons c cs ih =>
    obtain ⟨ahead,behind,later⟩ := somePiece (· == separator) cs
    have joined := ih later
    by_cases here : c = separator
    · simp only [pieces,here,beq_self_eq_true,if_true,later] at cut
      cases cut
      simp [here,joined]
    · simp only [pieces,beq_eq_false_iff_ne.mpr here,later,Bool.false_eq_true,if_false] at cut
      cases cut
      simp [joined]

theorem piecesSubset {separator : Char} {piece : List Char}
    (mem : piece ∈ pieces (· == separator) cs) : piece ⊆ cs := by
  obtain ⟨first,rest,cut⟩ := somePiece (· == separator) cs
  rw [cut] at mem
  rw [piecesJoined cut]
  rcases List.mem_cons.mp mem with rfl | mem
  · exact List.subset_append_left _ _
  · exact fun c here => List.mem_append_right _
      (List.mem_flatMap.mpr ⟨piece,mem,List.mem_cons_of_mem _ here⟩)

theorem piecesCount (separator : Char) (cs : List Char) :
    (pieces (· == separator) cs).length = cs.count separator + 1 := by
  induction cs with
  | nil => rfl
  | cons c rest ih =>
    obtain ⟨first,others,cut⟩ := somePiece (· == separator) rest
    rw [cut] at ih
    by_cases here : c = separator <;> simp [pieces,here,cut,← ih]

theorem joinedAgain (separator : Char) (first : List Char) (rest : List (List Char)) :
    [separator].intercalate (first :: rest) = first ++ rest.flatMap (separator :: ·) := by
  induction rest generalizing first with
  | nil => simp [List.intercalate]
  | cons next rest ih =>
    have again := ih next
    simp only [List.intercalate,List.intersperse_cons_cons,List.flatten_cons] at again ⊢
    rw [again]
    simp

theorem piecesBetween {p : Char → Bool} {separator : Char} (cuts : p separator = true) {first : List Char}
    {rest : List (List Char)} (clean : ∀ piece ∈ first :: rest, ∀ c ∈ piece, p c = false) :
    pieces p ([separator].intercalate (first :: rest)) = first :: rest := by
  rw [joinedAgain]
  induction rest generalizing first with
  | nil => simpa using piecesWhole (clean first List.mem_cons_self)
  | cons next rest ih =>
    obtain ⟨here,later⟩ := List.forall_mem_cons.mp clean
    rw [List.flatMap_cons,List.cons_append,piecesCut here cuts,ih later]

theorem joinedPieces {separator : Char} {first : List Char} {rest : List (List Char)}
    (clean : ∀ piece ∈ first :: rest, separator ∉ piece) :
    pieces (· == separator) ([separator].intercalate (first :: rest)) = first :: rest :=
  piecesBetween (p := (· == separator)) (beq_self_eq_true separator) fun piece mem =>
    notSeparator (clean piece mem)

theorem wordsAgain (cs : List Char) : words ([' '].intercalate (words cs)) = words cs := by
  have clean : ∀ word ∈ words cs, ∀ c ∈ word, isBlank c = false :=
    fun word mem => piecesClean (List.mem_filter.mp mem).1
  cases found : words cs with
  | nil => rfl
  | cons first rest =>
    rw [found] at clean
    rw [words,piecesBetween (by decide) clean,← found,words,List.filter_filter]
    simp only [Bool.and_self]

theorem joinedCount (separator : Char) (first : List Char) (rest : List (List Char)) :
    (pieces (· == separator) ([separator].intercalate (first :: rest))).length =
      (first :: rest).length + (first :: rest).flatten.count separator := by
  have between : (rest.flatMap (separator :: ·)).count separator =
      rest.length + rest.flatten.count separator := by
    induction rest with
    | nil => rfl
    | cons next rest ih =>
      simp only [List.flatMap_cons,List.count_append,List.count_cons_self,List.length_cons,
        List.flatten_cons,ih]
      omega
  rw [piecesCount,joinedAgain,List.count_append,between,List.flatten_cons,List.count_append,
    List.length_cons]
  omega

theorem cutTwiceCut {separator : Char} (first second rest : List Char) (clean : separator ∉ first)
    (cleanAgain : separator ∉ second) :
    cutTwice separator (first ++ separator :: (second ++ separator :: rest)) = [first,second,rest] := by
  obtain ⟨third,others,cut⟩ := somePiece (· == separator) rest
  simp only [cutTwice,piecesCut (notSeparator clean) (beq_self_eq_true separator),
    piecesCut (notSeparator cleanAgain) (beq_self_eq_true separator),cut,joinedAgain]
  rw [← piecesJoined cut]

theorem cutTwiceShape {separator : Char} {first second third : List Char}
    (h : cutTwice separator cs = [first,second,third]) :
    cs = first ++ separator :: (second ++ separator :: third) ∧ separator ∉ first := by
  unfold cutTwice at h
  split at h
  · rename_i a b c rest cut
    have clean := piecesClean (cut ▸ List.mem_cons_self : a ∈ pieces (· == separator) cs)
    have joined := piecesJoined cut
    cases h
    refine ⟨?_,fun mem => by simpa using clean separator mem⟩
    rw [joinedAgain]
    simpa using joined
  · rename_i short
    exact absurd h (short first second third [])

end

section
variable {line : List Char}

theorem dropEndWhileFront (p : Char → Bool) (cs : List Char) : dropEndWhile p cs <+: cs := by
  rw [dropEndWhile,← List.reverse_suffix,List.reverse_reverse]
  exact List.dropWhile_suffix p

theorem dropEndWhileLast {p : Char → Bool} {c : Char} (last : p c = true) (cs : List Char) :
    dropEndWhile p (cs ++ [c]) = dropEndWhile p cs := by
  simp [dropEndWhile,last]

theorem dropEndWhileNone {p : Char → Bool} {cs : List Char} (none : ∀ c ∈ cs, p c = false) :
    dropEndWhile p cs = cs := by
  unfold dropEndWhile
  cases turned : cs.reverse with
  | nil => rw [List.reverse_eq_nil_iff.mp turned]; rfl
  | cons c rest =>
    have last : p c = false := none c (List.mem_reverse.mp (turned ▸ List.mem_cons_self))
    rw [List.dropWhile_cons_of_neg (by simp [last]),← turned,List.reverse_reverse]

theorem dropReturnAgain (cs : List Char) :
    dropEndWhile (· == '\r') (dropReturn cs) = dropEndWhile (· == '\r') cs := by
  unfold dropReturn
  split
  · rename_i rest turned
    have whole := congrArg List.reverse turned
    rw [List.reverse_reverse,List.reverse_cons] at whole
    rw [whole,dropEndWhileLast rfl]
  · rfl

def bareLines (cs : List Char) : List (List Char) := (lineList cs).map (dropEndWhile (· == '\r'))

theorem bareLinesCons (clean : '\n' ∉ line) (rest : List Char) :
    bareLines (line ++ '\n' :: rest) = dropEndWhile (· == '\r') line :: bareLines rest := by
  cases turned : (pieces (· == '\n') rest).reverse with
  | nil => exact absurd (List.reverse_eq_nil_iff.mp turned) (piecesNotNil _ rest)
  | cons last earlier =>
    simp only [bareLines,lineList,piecesCut (notSeparator clean) (beq_self_eq_true '\n'),List.reverse_cons,
      turned,List.cons_append,List.map_append,List.map_cons,List.map_nil,List.reverse_append,
      List.reverse_nil,List.nil_append]
    split <;> simp [dropReturnAgain]

theorem bareLinesLast (clean : '\n' ∉ line) :
    bareLines line = [] ∨ bareLines line = [dropEndWhile (· == '\r') line] := by
  simp only [bareLines,lineList,piecesWhole (notSeparator clean),List.reverse_cons,List.reverse_nil,
    List.nil_append,List.map_nil]
  split <;> simp

theorem bareLinesAppend {lines : List (List Char)} (clean : ∀ line ∈ lines, '\n' ∉ line)
    (rest : List Char) :
    bareLines (lines.flatMap (· ++ ['\n']) ++ rest) =
      lines.map (dropEndWhile (· == '\r')) ++ bareLines rest := by
  induction lines with
  | nil => rfl
  | cons line lines ih =>
    obtain ⟨here,later⟩ := List.forall_mem_cons.mp clean
    have first := bareLinesCons here (lines.flatMap (· ++ ['\n']) ++ rest)
    simpa [ih later] using first

end
end RouterReconciler.Text

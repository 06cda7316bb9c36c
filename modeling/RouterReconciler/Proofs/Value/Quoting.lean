import RouterReconciler.Value.Literal

/-! Quoted literals, read as the device reads them: from the opening quote to the first quote without
a backslash before it. A text is written so that this reading takes in all of the literal and nothing
of what follows, finds no dollar sign that is not escaped, and gives the text back. -/
namespace RouterReconciler
open Text (isControl unifyLineEnds)

namespace Literal

def unescape? : Char → Option Char
  | '\\' => some '\\'
  | '"' => some '"'
  | '$' => some '$'
  | 'r' => some '\r'
  | 'n' => some '\n'
  | 't' => some '\t'
  | _ => none

structure Piece where
  escaped : Bool
  char : Char
  deriving DecidableEq

def prepend (first : List Piece) (read : List Piece × List Char) : List Piece × List Char :=
  (first ++ read.1,read.2)

def body? : List Char → Option (List Piece × List Char)
  | [] => none
  | '\\' :: c :: rest =>
    match unescape? c with
    | none => none
    | some char => (body? rest).map (prepend [⟨true,char⟩])
  | c :: rest => if c = '"' then some ([],rest) else (body? rest).map (prepend [⟨false,c⟩])

def read? : List Char → Option (List Piece × List Char)
  | '"' :: rest => body? rest
  | _ => none

def pieces (c : Char) : List Piece :=
  if c = '\n' then [⟨true,'\r'⟩,⟨true,'\n'⟩]
  else [⟨c = '\\' || c = '"' || c = '$' || c = '\t',c⟩]

end Literal

def Text.returnLineEnds : List Char → List Char
  | '\r' :: '\n' :: rest => '\r' :: '\n' :: returnLineEnds rest
  | '\n' :: rest => '\r' :: '\n' :: returnLineEnds rest
  | c :: rest => c :: returnLineEnds rest
  | [] => []

namespace Value
open Literal

theorem escapeNone {c : Char} : escape? c = none ↔ isControl c = true ∧ c ≠ '\n' ∧ c ≠ '\t' := by
  by_cases backslash : c = '\\'
  · subst c; decide
  by_cases quote : c = '"'
  · subst c; decide
  by_cases dollar : c = '$'
  · subst c; decide
  by_cases line : c = '\n'
  · subst c; decide
  by_cases tab : c = '\t'
  · subst c; decide
  simp [escape?,backslash,quote,dollar,line,tab]

theorem escapedRead {c : Char} {written : List Char} (h : escape? c = some written)
    (rest : List Char) : body? (written ++ rest) = (body? rest).map (prepend (pieces c)) := by
  by_cases backslash : c = '\\'
  · subst c; cases h; simp [body?,unescape?,pieces]
  by_cases quote : c = '"'
  · subst c; cases h; simp [body?,unescape?,pieces]
  by_cases dollar : c = '$'
  · subst c; cases h; simp [body?,unescape?,pieces]
  by_cases line : c = '\n'
  · subst c; cases h
    cases after : body? rest <;> simp [body?,unescape?,pieces,prepend,after]
  by_cases tab : c = '\t'
  · subst c; cases h; simp [body?,unescape?,pieces]
  simp only [escape?,backslash,quote,dollar,line,tab,if_false] at h
  split at h <;> cases h
  simp [body?,pieces,backslash,quote,dollar,line,tab]

theorem escapeAllOk {cs : List Char} :
    (∃ body, escapeAll cs = .ok body) ↔ ∀ c ∈ cs, isControl c = true → c = '\n' ∨ c = '\t' := by
  induction cs with
  | nil => simp [escapeAll]
  | cons c rest ih =>
    rw [List.forall_mem_cons,← ih]
    cases written : escape? c with
    | none =>
      obtain ⟨control,line,tab⟩ := escapeNone.mp written
      simp [escapeAll,written,control,line,tab]
    | some piece =>
      have fine : isControl c = true → c = '\n' ∨ c = '\t' := by
        intro control
        by_cases line : c = '\n'
        · exact .inl line
        by_cases tab : c = '\t'
        · exact .inr tab
        rw [escapeNone.mpr ⟨control,line,tab⟩] at written
        cases written
      rw [and_iff_right fine]
      cases others : escapeAll rest <;> simp [escapeAll,written,others]

theorem escapedAllRead {cs body : List Char} (h : escapeAll cs = .ok body) (rest : List Char) :
    body? (body ++ '"' :: rest) = some (cs.flatMap pieces,rest) := by
  induction cs generalizing body with
  | nil => cases h; simp [body?]
  | cons c cs ih =>
    cases written : escape? c with
    | none => simp [escapeAll,written] at h
    | some piece =>
      cases others : escapeAll cs with
      | error bad => simp [escapeAll,written,others] at h
      | ok tail =>
        simp only [escapeAll,written,others,Except.ok.injEq] at h
        rw [← h,List.append_assoc,escapedRead written,ih others]
        simp [prepend]

theorem piecesPlain {c : Char} {piece : Piece} (mem : piece ∈ pieces c) (plain : piece.escaped = false) :
    piece.char ≠ '"' ∧ piece.char ≠ '$' := by
  unfold pieces at mem
  split at mem
  · simp only [List.mem_cons,List.not_mem_nil,or_false] at mem
    rcases mem with rfl | rfl <;> cases plain
  · cases List.mem_singleton.mp mem
    simp_all

theorem piecesText (cs : List Char) :
    ((unifyLineEnds cs).flatMap pieces).map Piece.char = Text.returnLineEnds cs := by
  fun_induction Text.returnLineEnds cs with
  | case1 rest ih => simp [unifyLineEnds,pieces,ih]
  | case2 rest ih => simp [unifyLineEnds,pieces,ih]
  | case3 c rest notBoth notLine ih =>
    have kept : unifyLineEnds (c :: rest) = c :: unifyLineEnds rest := by
      rw [unifyLineEnds]
      exact notBoth
    have alone : c ≠ '\n' := notLine
    simp [kept,pieces,alone,ih]
  | case4 => rfl

structure Quotes (s : String) (answer : Except Error String) : Prop where
  written : (∃ out, answer = .ok out) ↔
    ∀ c ∈ unifyLineEnds s.toList, isControl c = true → c = '\n' ∨ c = '\t'
  refused : ∀ e, answer = .error e → e.kind = .encodingError
  readBack : ∀ out, answer = .ok out → ∃ found : List Piece,
    (∀ rest, read? (out.toList ++ rest) = some (found,rest)) ∧
    (∀ piece ∈ found, piece.escaped = false → piece.char ≠ '"' ∧ piece.char ≠ '$') ∧
    found.map Piece.char = Text.returnLineEnds s.toList

theorem quoteQuotes (s : String) : Quotes s (quote s) := by
  cases written : escapeAll (unifyLineEnds s.toList) with
  | error bad =>
    have answer : quote s = .error (.encoding
        ("control character " ++ Text.shownChar bad ++ " in " ++ Text.shown s)) := by
      simp only [quote,written]
    rw [answer]
    refine ⟨?_,fun e h => by cases h; rfl,fun out h => by cases h⟩
    rw [← escapeAllOk,written]
    simp
  | ok body =>
    have answer : quote s = .ok (String.ofList ('"' :: body ++ ['"'])) := by
      simp only [quote,written]
    rw [answer]
    refine ⟨?_,fun e h => (by cases h),fun out h => ?_⟩
    · rw [← escapeAllOk,written]
      simp
    · cases h
      refine ⟨(unifyLineEnds s.toList).flatMap pieces,fun rest => ?_,fun piece mem plain => ?_,
        piecesText s.toList⟩
      · rw [String.toList_ofList,List.append_assoc]
        exact escapedAllRead written rest
      · obtain ⟨c,-,mem⟩ := List.mem_flatMap.mp mem
        exact piecesPlain mem plain

/-- Writing a text between quotes is refused exactly if it has a control character other than an end of
line or a tab; else it gives a literal that stands for the text and ends nowhere but at its end. So
does a value that is a text, unless it is a word for a truth value or an expression. -/
theorem quotedFaithfully (s : String) :
    Quotes s (quote s) ∧
    (boolWord? s = none → (∀ c ∈ s.toList.head?, c ≠ '"' ∧ c ≠ '(' ∧ c ≠ '[') →
      Quotes s (encode (.str s))) := by
  refine ⟨quoteQuotes s,fun word start => ?_⟩
  have text : isExpression s = false := by
    unfold isExpression
    cases chars : s.toList with
    | nil => rfl
    | cons c rest =>
      obtain ⟨quote,paren,bracket⟩ := start c (by rw [chars]; rfl)
      simp [quote,paren,bracket]
  have same : encode (.str s) = quote s := by simp [encode,word,text]
  rw [same]
  exact quoteQuotes s

def wanComment : String := "to \"$wan\\\r\n\t(2)\r\n"

theorem quotedFaithfullyComment : boolWord? wanComment = none ∧
    Quotes wanComment (encode (.str wanComment)) ∧ ∃ out, encode (.str wanComment) = .ok out := by
  have word : boolWord? wanComment = none := by decide +kernel
  have first : wanComment.toList.head? = some 't' := by decide +kernel
  have start : ∀ c ∈ wanComment.toList.head?, c ≠ '"' ∧ c ≠ '(' ∧ c ≠ '[' := by
    rw [first]
    rintro c ⟨⟩
    decide
  have found := (quotedFaithfully wanComment).2 word start
  have plain : (unifyLineEnds wanComment.toList).all
      (fun c => !isControl c || c == '\n' || c == '\t') = true := by decide +kernel
  have accepted := found.written.mpr fun c mem control => by
    simpa [control] using List.all_eq_true.mp plain c mem
  exact ⟨word,found,accepted⟩

end Value
end RouterReconciler

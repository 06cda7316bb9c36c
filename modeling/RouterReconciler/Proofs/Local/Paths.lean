import Mathlib.Data.List.Basic
import RouterReconciler.Local.Files
import RouterReconciler.Proofs.Text.Pieces

/-! Paths that name a file. Such a path can be followed exactly if every place that it passes is a
directory, and then it leads to its levels. With more text behind its last level it passes the same places
and leads to another file of the same directory. -/
namespace RouterReconciler

namespace Text

theorem lastPiece (p : Char → Bool) (cs : List Char) : ∃ front last, pieces p cs = front ++ [last] :=
  (List.eq_nil_or_concat' (pieces p cs)).resolve_left (piecesNotNil p cs)

theorem piecesSplit {p : Char → Bool} {separator : Char} (cuts : p separator = true) (front cs : List Char) :
    pieces p (front ++ separator :: cs) = pieces p front ++ pieces p cs := by
  induction front with
  | nil => simp [pieces,cuts]
  | cons c front ih =>
    obtain ⟨first,rest,cut⟩ := somePiece p front
    rw [cut] at ih
    cases here : p c with
    | true => simp [pieces,here,cut,ih]
    | false => simp [pieces,here,cut,ih]

theorem piecesLonger {p : Char → Bool} {cs tail : List Char} {front : List (List Char)} {last : List Char}
    (clean : ∀ c ∈ tail, p c = false) (cut : pieces p cs = front ++ [last]) :
    pieces p (cs ++ tail) = front ++ [last ++ tail] := by
  induction cs generalizing front last with
  | nil =>
    cases front with
    | nil => cases cut; exact piecesWhole clean
    | cons first front => simp [pieces] at cut
  | cons c cs ih =>
    obtain ⟨ahead,final,later⟩ := lastPiece p cs
    have longer := ih later
    cases here : p c with
    | true =>
      simp only [pieces,here,later,if_true,← List.cons_append] at cut
      obtain ⟨rfl,same⟩ := List.append_inj' cut rfl
      cases same
      simp [pieces,here,longer]
    | false =>
      cases ahead with
      | nil =>
        have cut : [] ++ [c :: final] = front ++ [last] := by simpa [pieces,here,later] using cut
        obtain ⟨rfl,same⟩ := List.append_inj' cut rfl
        cases same
        simp [pieces,here,longer]
      | cons first ahead =>
        have cut : ((c :: first) :: ahead) ++ [final] = front ++ [last] := by
          simpa [pieces,here,later] using cut
        obtain ⟨rfl,same⟩ := List.append_inj' cut rfl
        cases same
        simp [pieces,here,longer]

end Text

namespace LocalPath

theorem namesDirectoryOf {p : String} {front : List (List Char)} {last : List Char}
    (cut : pieces p = front ++ [last]) : namesDirectory p = !isLevel last := by
  simp [namesDirectory,cut]

theorem passedLevels (ps : List (List Char)) (here place : List String) :
    place ∈ (ps.filter isLevel).scanl enter here ↔ place ∈ ps.scanl enter here := by
  induction ps generalizing here with
  | nil => rfl
  | cons piece rest ih =>
    cases level : isLevel piece with
    | true => simp [level,ih,List.scanl_cons]
    | false =>
      have stays : enter here piece = here := by simp [enter,level]
      have start : here ∈ rest.scanl enter here := by cases rest <;> simp [List.scanl_cons]
      simp only [List.filter_cons,level,Bool.false_eq_true,if_false,ih,List.scanl_cons,stays,List.mem_cons]
      exact ⟨.inr,fun h => h.elim (fun same => same ▸ start) id⟩

theorem joinPieces (base p : String) : ∃ front, pieces (join base p) = front ++ pieces p := by
  have split (front : List Char) : Text.pieces (· == '/') (front ++ '/' :: p.toList) =
      Text.pieces (· == '/') front ++ pieces p :=
    Text.piecesSplit (p := (· == '/')) (beq_self_eq_true '/') front p.toList
  unfold join
  split
  · exact ⟨[],rfl⟩
  · split
    · rename_i slash
      obtain ⟨front,ends⟩ := List.getLast?_eq_some_iff.mp (beq_iff_eq.mp slash)
      refine ⟨Text.pieces (· == '/') front,?_⟩
      rw [pieces,String.toList_append,ends,List.append_assoc,List.singleton_append]
      exact split front
    · refine ⟨pieces base,?_⟩
      rw [pieces,String.toList_append,String.toList_append,List.append_assoc]
      exact split base.toList

theorem joinNames (base p : String) : namesDirectory (join base p) = namesDirectory p := by
  obtain ⟨ahead,joined⟩ := joinPieces base p
  obtain ⟨front,last,cut⟩ := Text.lastPiece (· == '/') p.toList
  have cut : pieces p = front ++ [last] := cut
  have whole : pieces (join base p) = (ahead ++ front) ++ [last] := by rw [joined,cut,List.append_assoc]
  rw [namesDirectoryOf cut,namesDirectoryOf whole]

theorem joinLonger {p : String} (base tail : String) (named : p ≠ "") :
    join base (p ++ tail) = join base p ++ tail := by
  have same : isAbsolute (p ++ tail) = isAbsolute p := by
    have some : p.toList ≠ [] := fun none => named (String.toList_eq_nil_iff.mp none)
    obtain ⟨c,rest,chars⟩ := List.exists_cons_of_ne_nil some
    show List.isPrefixOf ['/'] (p ++ tail).toList = List.isPrefixOf ['/'] p.toList
    rw [String.toList_append,chars]
    rfl
  unfold join
  rw [same]
  split
  · rfl
  · split <;> simp [String.append_assoc]

end LocalPath

namespace Files
variable {f g : Files} {p : String}

theorem isDirectoryIff {l : List String} : f.isDirectory l = true ↔
    (∃ d ∈ f.directories, l <+: d) ∨ ∃ entry ∈ f.contents, l <+: entry.1 ∧ l ≠ entry.1 := by
  simp [isDirectory]

theorem directoryAbove {l m : List String} (above : l <+: m) (there : f.isDirectory m = true) :
    f.isDirectory l = true := by
  rw [isDirectoryIff] at there ⊢
  rcases there with ⟨d,mem,lies⟩ | ⟨entry,mem,lies,other⟩
  · exact .inl ⟨d,mem,above.trans lies⟩
  · refine .inr ⟨entry,mem,above.trans lies,fun same => other ?_⟩
    exact lies.eq_of_length_le (same ▸ above.length_le)

theorem followOn {piece : List Char} {rest : List (List Char)} {here : List String}
    (there : f.isDirectory here = true) :
    f.follow (piece :: rest) here = f.follow rest (LocalPath.enter here piece) := by
  cases blank : piece.isEmpty with
  | true => simp [follow,blank,LocalPath.enter,LocalPath.isLevel]
  | false => simp [follow,blank,there]

theorem followStuck {piece : List Char} {rest : List (List Char)} {here l : List String}
    (solid : piece ≠ []) (away : f.isDirectory here = false) : f.follow (piece :: rest) here ≠ .ok l := by
  simp only [follow,List.isEmpty_eq_false_iff.mpr solid,away,Bool.false_eq_true,if_false]
  split <;> simp

theorem scanStart (ps : List (List Char)) (here : List String) : here ∈ ps.scanl LocalPath.enter here := by
  cases ps <;> simp

-- A piece that is no level leads on only in a directory too, unless it is empty; then the place is passed
-- again, at the last piece if not before.
theorem followIff {last : List Char} (level : LocalPath.isLevel last = true) (front : List (List Char))
    (here l : List String) : f.follow (front ++ [last]) here = .ok l ↔
    (∀ place ∈ front.scanl LocalPath.enter here, f.isDirectory place = true) ∧
      l = (front ++ [last]).foldl LocalPath.enter here := by
  have solid : last ≠ [] := by rintro rfl; cases level
  induction front generalizing here with
  | nil =>
    cases there : f.isDirectory here with
    | true =>
      rw [List.nil_append,followOn there]
      simp only [follow,Except.ok.injEq,List.scanl_nil,List.mem_singleton,forall_eq,there,true_and,
        List.foldl_cons,List.foldl_nil]
      exact eq_comm
    | false =>
      refine iff_of_false (followStuck solid there) fun ⟨passed,_⟩ => ?_
      cases there.symm.trans (passed here (scanStart _ _))
  | cons piece rest ih =>
    cases there : f.isDirectory here with
    | true =>
      rw [List.cons_append,followOn there]
      simpa [there] using ih (LocalPath.enter here piece)
    | false =>
      refine iff_of_false ?_ fun ⟨passed,_⟩ => ?_
      · cases piece with
        | cons c chars => exact followStuck (by simp) there
        | nil => exact fun led => by cases there.symm.trans (((ih here).mp led).1 here (scanStart _ _))
      · cases there.symm.trans (passed here (scanStart _ _))

def passed (f : Files) (p : String) : List (List String) := (f.above p).scanl LocalPath.enter []

def Leads (f : Files) (p : String) : Prop := ∀ place ∈ f.passed p, f.isDirectory place = true

theorem lastLevel (f : Files) (file : LocalPath.namesDirectory p = false) :
    ∃ front last, LocalPath.isLevel last = true ∧
      LocalPath.pieces (LocalPath.join f.workingDirectory p) = front ++ [last] := by
  obtain ⟨front,last,cut⟩ := Text.lastPiece (· == '/') (LocalPath.join f.workingDirectory p).toList
  have level := LocalPath.namesDirectoryOf cut
  rw [LocalPath.joinNames,file] at level
  exact ⟨front,last,by simpa using level.symm,cut⟩

theorem namedOf (file : LocalPath.namesDirectory p = false) : p ≠ "" := by
  rintro rfl
  cases file

theorem aboveOf {front : List (List Char)} {last : List Char} (level : LocalPath.isLevel last = true)
    (cut : LocalPath.pieces (LocalPath.join f.workingDirectory p) = front ++ [last]) :
    f.above p = front.filter LocalPath.isLevel := by
  simp [above,cut,level]

theorem levelsOf {front : List (List Char)} {last : List Char}
    (cut : LocalPath.pieces (LocalPath.join f.workingDirectory p) = front ++ [last]) :
    f.levels p = LocalPath.enter (front.foldl LocalPath.enter []) last := by
  simp [levels,LocalPath.levels,cut]

theorem locateIff {l : List String} (file : LocalPath.namesDirectory p = false) :
    f.locate p = .ok l ↔ f.Leads p ∧ l = f.levels p := by
  obtain ⟨front,last,level,cut⟩ := f.lastLevel file
  have named : p.isEmpty = false := by simpa using namedOf file
  unfold locate Leads passed
  rw [named,if_neg Bool.false_ne_true,cut,followIff level,aboveOf level cut,levelsOf cut,List.foldl_append]
  simp only [LocalPath.passedLevels,List.foldl_cons,List.foldl_nil]

theorem openIff {text : String} : f.open? p = .ok text ↔
    LocalPath.namesDirectory p = false ∧ f.Leads p ∧ f.isDirectory (f.levels p) = false ∧
      f.content? p = some text := by
  constructor
  · intro h
    unfold open? at h
    split at h
    · cases h
    · rename_i l led
      split at h
      · cases h
      · rename_i away
        split at h
        · split at h
          · cases h
          · rename_i t found file
            cases h
            have file := Bool.eq_false_iff.mpr file
            obtain ⟨leads,rfl⟩ := (locateIff file).mp led
            exact ⟨file,leads,Bool.eq_false_iff.mpr away,found⟩
        · cases h
  · intro ⟨file,leads,away,found⟩
    have found : lookup (f.levels p) f.contents = some text := found
    simp [open?,(locateIff file).mpr ⟨leads,rfl⟩,away,found,file]

theorem readSome {text : String} : f.read p = .ok (some text) ↔ f.open? p = .ok text := by
  unfold read
  split <;> simp_all

theorem createIff {text : String} : f.create p text = .ok g ↔
    LocalPath.namesDirectory p = false ∧ f.Leads p ∧ f.isDirectory (f.levels p) = false ∧
      f.write p text = g := by
  constructor
  · intro h
    obtain ⟨l,led,h⟩ := exceptBindOk.mp h
    split at h
    · cases h
    · rename_i free
      cases h
      simp only [Bool.or_eq_true,not_or,Bool.not_eq_true] at free
      obtain ⟨leads,rfl⟩ := (locateIff free.2).mp led
      exact ⟨free.2,leads,free.1,rfl⟩
  · intro ⟨file,leads,away,same⟩
    refine exceptBindOk.mpr ⟨_,(locateIff file).mpr ⟨leads,rfl⟩,?_⟩
    rw [away,file,same]
    rfl

theorem scanEnd (ps : List (List Char)) (here : List String) :
    ps.foldl LocalPath.enter here ∈ ps.scanl LocalPath.enter here := by
  induction ps generalizing here with
  | nil => simp
  | cons piece rest ih => simp [ih]

theorem levelLonger {last : List Char} (level : LocalPath.isLevel last = true) (down : last ≠ ['.','.'])
    (tail : List Char) : LocalPath.isLevel (last ++ tail) = true ∧ last ++ tail ≠ ['.','.'] := by
  rcases last with _ | ⟨c,_ | ⟨d,rest⟩⟩
  · cases level
  · have other : c ≠ '.' := by rintro rfl; cases level
    simp [LocalPath.isLevel,other]
  · refine ⟨by simp [LocalPath.isLevel],fun same => down ?_⟩
    simp only [List.cons_append,List.cons.injEq,List.append_eq_nil_iff] at same ⊢
    exact ⟨same.1,same.2.1,same.2.2.1⟩

theorem enterDown {last : List Char} {base : List String} (level : LocalPath.isLevel last = true)
    (down : last ≠ ['.','.']) : LocalPath.enter base last = base ++ [String.ofList last] := by
  simp [LocalPath.enter,level,down]

theorem longerBeside (tail : String) (clean : '/' ∉ tail.toList) (file : LocalPath.namesDirectory p = false)
    (leads : f.Leads p) (away : f.isDirectory (f.levels p) = false) :
    LocalPath.namesDirectory (p ++ tail) = false ∧ f.above (p ++ tail) = f.above p ∧
      ∃ base name, f.levels p = base ++ [name] ∧ f.levels (p ++ tail) = base ++ [name ++ tail] := by
  obtain ⟨front,last,level,cut⟩ := f.lastLevel file
  have longer : LocalPath.pieces (LocalPath.join f.workingDirectory (p ++ tail)) =
      front ++ [last ++ tail.toList] := by
    rw [LocalPath.joinLonger _ _ (namedOf file),LocalPath.pieces,String.toList_append]
    exact Text.piecesLonger (Text.notSeparator clean) cut
  have there : f.isDirectory (front.foldl LocalPath.enter []) = true := by
    refine leads _ ?_
    rw [passed,aboveOf level cut,LocalPath.passedLevels]
    exact scanEnd front []
  have down : last ≠ ['.','.'] := by
    rintro rfl
    rw [levelsOf cut] at away
    cases away.symm.trans (directoryAbove (List.dropLast_prefix _) there)
  obtain ⟨level',down'⟩ := levelLonger level down tail.toList
  refine ⟨?_,?_,front.foldl LocalPath.enter [],String.ofList last,?_,?_⟩
  · rw [← LocalPath.joinNames f.workingDirectory,LocalPath.namesDirectoryOf longer,level']
    rfl
  · rw [aboveOf level' longer,aboveOf level cut]
  · rw [levelsOf cut,enterDown level down]
  · rw [levelsOf longer,enterDown level' down',String.ofList_append,String.ofList_toList]

theorem lookupMem {l : List String} {text : String} {contents : List (List String × String)}
    (found : lookup l contents = some text) : (l,text) ∈ contents := by
  induction contents with
  | nil => cases found
  | cons entry rest ih =>
    obtain ⟨m,t⟩ := entry
    unfold lookup at found
    split at found
    · rename_i same
      cases found
      exact same ▸ List.mem_cons_self
    · exact List.mem_cons_of_mem _ (ih found)

theorem enterBelow {piece : List Char} (down : piece ≠ ['.','.']) (here : List String) :
    here <+: LocalPath.enter here piece := by
  unfold LocalPath.enter
  split
  · exact List.prefix_refl _
  · exact List.prefix_append _ _

theorem placesBelow {ps : List (List Char)} (down : ∀ piece ∈ ps, piece ≠ ['.','.']) (here : List String) :
    ∀ place ∈ ps.scanl LocalPath.enter here, place <+: ps.foldl LocalPath.enter here := by
  induction ps generalizing here with
  | nil => simp
  | cons piece rest ih =>
    obtain ⟨first,later⟩ := List.forall_mem_cons.mp down
    have below := ih later (LocalPath.enter here piece)
    intro place mem
    rw [List.scanl_cons] at mem
    rcases List.mem_cons.mp mem with rfl | mem
    · exact (enterBelow first place).trans (below _ (scanStart _ _))
    · exact below place mem

/-- A path comes to a file, but cannot be followed there: some directory is missing that it leads down to
and up from again. -/
def Strays (f : Files) (p : String) : Prop := f.read p = .ok none ∧ f.content? p ≠ none

theorem strayLeads (strays : f.Strays p) (file : LocalPath.namesDirectory p = false) : ¬f.Leads p := by
  intro leads
  obtain ⟨away,there⟩ := strays
  obtain ⟨text,found⟩ := Option.ne_none_iff_exists'.mp there
  have found : lookup (f.levels p) f.contents = some text := found
  cases there : f.isDirectory (f.levels p) <;>
    simp [read,open?,(locateIff file).mpr ⟨leads,rfl⟩,found,file,there] at away

theorem straysUp (strays : f.Strays p) (file : LocalPath.namesDirectory p = false) :
    ['.','.'] ∈ LocalPath.pieces (LocalPath.join f.workingDirectory p) := by
  by_contra level
  obtain ⟨text,found⟩ := Option.ne_none_iff_exists'.mp strays.2
  obtain ⟨front,last,lasting,cut⟩ := f.lastLevel file
  rw [cut] at level
  have down : ∀ piece ∈ front ++ [last], piece ≠ ['.','.'] := fun piece mem same => level (same ▸ mem)
  have named : f.levels p = front.foldl LocalPath.enter [] ++ [String.ofList last] :=
    (levelsOf cut).trans (enterDown lasting (down last (by simp)))
  refine strayLeads strays file fun place mem => isDirectoryIff.mpr (.inr ⟨_,lookupMem found,?_⟩)
  rw [passed,aboveOf lasting cut,LocalPath.passedLevels] at mem
  have below := placesBelow (fun piece mem => down piece (List.mem_append_left _ mem)) [] place mem
  rw [named]
  refine ⟨below.trans (List.prefix_append _ _),fun same => ?_⟩
  have short := below.length_le
  rw [same,List.length_append] at short
  exact absurd short (by simp)

end Files
end RouterReconciler

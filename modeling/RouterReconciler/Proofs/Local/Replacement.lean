import RouterReconciler.Proofs.Local.Paths
import RouterReconciler.Transfer

/-! Replacing a local file. Directories are made above it, the file that can be read there is renamed, and
the new one is written; no other file is touched. Nothing fails where no file stands for one of the
directories, and no directory for the file or for its backup. -/
namespace RouterReconciler
open Step

namespace Files
variable {f g : Files} {p text : String}

theorem lookupStored (l m : List String) (text : String) (contents : List (List String × String)) :
    lookup m (store l text contents) = if m = l then some text else lookup m contents := by
  induction contents with
  | nil => by_cases h : l = m <;> simp [store,lookup,h,eq_comm]
  | cons entry rest ih =>
    obtain ⟨k,t⟩ := entry
    by_cases same : k = l <;> by_cases found : k = m <;> grind [store,lookup]

theorem lookupRemoved (l m : List String) (contents : List (List String × String)) :
    lookup m (contents.filter fun entry => entry.1 != l) = if m = l then none else lookup m contents := by
  induction contents with
  | nil => simp [lookup]
  | cons entry rest ih =>
    obtain ⟨k,t⟩ := entry
    by_cases same : k = l <;> by_cases found : k = m <;> grind [lookup]

theorem storedKeys {P : List String → Prop} (l : List String) (text : String)
    (contents : List (List String × String)) :
    (∃ entry ∈ store l text contents, P entry.1) ↔ P l ∨ ∃ entry ∈ contents, P entry.1 := by
  induction contents with
  | nil => simp [store]
  | cons entry rest ih =>
    obtain ⟨k,t⟩ := entry
    by_cases same : k = l
    · subst same
      simp [store]
    · simp only [store,same,if_false,List.mem_cons,exists_eq_or_imp,ih]
      exact or_left_comm

theorem writtenDirectory {m : List String} : (f.write p text).isDirectory m = true ↔
    f.isDirectory m = true ∨ (m <+: f.levels p ∧ m ≠ f.levels p) := by
  rw [isDirectoryIff,isDirectoryIff]
  have keys := storedKeys (P := fun key => m <+: key ∧ m ≠ key) (f.levels p) text f.contents
  rw [or_assoc,or_comm (b := m <+: _ ∧ _),← keys]
  rfl

theorem removedDirectory {m : List String} (there : (f.remove p).isDirectory m = true) :
    f.isDirectory m = true := by
  rw [isDirectoryIff] at there ⊢
  exact there.imp_right fun ⟨entry,mem,lies⟩ => ⟨entry,(List.mem_filter.mp mem).1,lies⟩

theorem leftDirectory {m : List String} (there : f.isDirectory m = true) :
    (f.remove p).isDirectory m = true ∨ (m <+: f.levels p ∧ m ≠ f.levels p) := by
  rw [isDirectoryIff] at there ⊢
  rcases there with made | ⟨entry,mem,lies⟩
  · exact .inl (.inl made)
  · by_cases same : entry.1 = f.levels p
    · exact .inr (same ▸ lies)
    · exact .inl (.inr ⟨entry,List.mem_filter.mpr ⟨mem,by simpa using same⟩,lies⟩)

theorem changeOk {edit : Files → Except FileFault Files} : change edit f = (.ok (),g) ↔ edit f = .ok g := by
  unfold change
  split <;> simp_all

structure Grown (f g : Files) : Prop where
  base : g.workingDirectory = f.workingDirectory
  contents : g.contents = f.contents
  stays : ∀ l, f.isDirectory l = true → g.isDirectory l = true

theorem Grown.refl (f : Files) : Grown f f := ⟨rfl,rfl,fun _ there => there⟩

theorem Grown.trans {h : Files} (first : Grown f g) (second : Grown g h) : Grown f h :=
  ⟨second.base.trans first.base,second.contents.trans first.contents,fun l there =>
    second.stays l (first.stays l there)⟩

theorem Grown.levels (grown : Grown f g) (p : String) : g.levels p = f.levels p := by
  simp only [Files.levels,grown.base]

theorem Grown.content (grown : Grown f g) (p : String) : g.content? p = f.content? p := by
  simp only [content?,grown.levels,grown.contents]

theorem Grown.passed (grown : Grown f g) (p : String) : g.passed p = f.passed p := by
  simp only [Files.passed,Files.above,grown.base]

theorem directoryMade {l : List String} (h : makeDirectory l f = .ok g) : Grown f g ∧
    g.isDirectory l = true ∧ ∀ m, g.isDirectory m = true → f.isDirectory m = true ∨ m <+: l := by
  unfold makeDirectory at h
  split at h
  · rename_i there
    cases h
    exact ⟨.refl f,there,fun _ => .inl⟩
  · split at h
    · cases h
    · cases h
      refine ⟨⟨rfl,rfl,fun m there => ?_⟩,isDirectoryIff.mpr (.inl ⟨l,by simp,List.prefix_refl l⟩),fun m there => ?_⟩
      · rw [isDirectoryIff] at there ⊢
        exact there.imp_left fun ⟨d,mem,lies⟩ => ⟨d,List.mem_append_left _ mem,lies⟩
      · rw [isDirectoryIff] at there ⊢
        rcases there with ⟨d,mem,lies⟩ | held
        · rcases List.mem_append.mp mem with mem | mem
          · exact .inl (.inl ⟨d,mem,lies⟩)
          · exact .inr (List.mem_singleton.mp mem ▸ lies)
        · exact .inl (.inr held)

theorem directoryMakeable {l : List String} (free : lookup l f.contents = none) :
    ∃ g, makeDirectory l f = .ok g := by
  unfold makeDirectory
  split
  · exact ⟨_,rfl⟩
  · exact ⟨_,by rw [free]; rfl⟩

theorem wayMade {ps : List (List Char)} {here : List String} (h : makeWay ps here f = (.ok (),g)) :
    Grown f g ∧ (f.isDirectory here = true → ∀ place ∈ ps.scanl LocalPath.enter here, g.isDirectory place = true) ∧
      ∀ m, g.isDirectory m = true → f.isDirectory m = true ∨ ∃ place ∈ ps.scanl LocalPath.enter here, m <+: place := by
  induction ps generalizing here f with
  | nil =>
    cases (pureOk.mp h).2
    exact ⟨.refl _,by simp,fun _ => .inl⟩
  | cons piece rest ih =>
    obtain ⟨_,middle,made,h⟩ := bindOk.mp h
    obtain ⟨first,there,only⟩ := directoryMade (changeOk.mp made)
    obtain ⟨later,passed,onlyLater⟩ := ih h
    refine ⟨first.trans later,fun start place mem => ?_,fun m dir => ?_⟩
    · rw [List.scanl_cons] at mem
      rcases List.mem_cons.mp mem with rfl | mem
      · exact later.stays _ (first.stays _ start)
      · exact passed there place mem
    · rw [List.scanl_cons]
      rcases onlyLater m dir with dir | ⟨place,mem,below⟩
      · exact (only m dir).imp_right fun below =>
          ⟨_,List.mem_cons_of_mem _ (scanStart rest _),below⟩
      · exact .inr ⟨place,List.mem_cons_of_mem _ mem,below⟩

theorem wayMakeable {ps : List (List Char)} {here : List String}
    (free : ∀ place ∈ ps.scanl LocalPath.enter here, lookup place f.contents = none) :
    ∃ g, makeWay ps here f = (.ok (),g) := by
  induction ps generalizing here f with
  | nil => exact ⟨_,rfl⟩
  | cons piece rest ih =>
    rw [List.scanl_cons] at free
    have later := (List.forall_mem_cons.mp free).2
    obtain ⟨middle,made⟩ := directoryMakeable (later _ (scanStart rest _))
    have still : ∀ place ∈ rest.scanl LocalPath.enter (LocalPath.enter here piece),
        lookup place middle.contents = none := fun place mem => by
      rw [(directoryMade made).1.contents]
      exact later place mem
    obtain ⟨g,way⟩ := ih still
    exact ⟨g,bindOk.mpr ⟨(),middle,changeOk.mpr made,way⟩⟩

theorem writtenOpen (written : f.create p text = .ok g) : g.open? p = .ok text := by
  obtain ⟨file,leads,away,rfl⟩ := createIff.mp written
  refine openIff.mpr ⟨file,fun place mem => writtenDirectory.mpr (.inl (leads place mem)),?_,?_⟩
  · refine Bool.eq_false_iff.mpr fun dir => ?_
    rcases writtenDirectory.mp dir with dir | ⟨_,other⟩
    · cases away.symm.trans dir
    · exact other rfl
  · exact (lookupStored _ _ text _).trans (if_pos rfl)

end Files

namespace Exchange
variable {f g : Files} {path text new : String} {old : Option String} {fetched : Fetched}

theorem backupBeside (found : f.open? path = .ok text) :
    LocalPath.namesDirectory (backupPath path) = false ∧ f.passed (backupPath path) = f.passed path ∧
      ∃ base name, f.levels path = base ++ [name] ∧ f.levels (backupPath path) = base ++ [name ++ ".bak"] := by
  obtain ⟨file,leads,away,-⟩ := Files.openIff.mp found
  obtain ⟨named,above,beside⟩ := Files.longerBeside ".bak" (by decide) file leads away
  exact ⟨named,congrArg (List.scanl LocalPath.enter []) above,beside⟩

theorem backupApart (found : f.open? path = .ok text) : f.levels path ≠ f.levels (backupPath path) := by
  obtain ⟨-,-,base,name,here,aside⟩ := backupBeside found
  rw [here,aside]
  intro same
  have names : name = name ++ ".bak" := List.singleton_inj.mp (List.append_cancel_left same)
  have sizes := congrArg String.length names
  rw [String.length_append] at sizes
  exact absurd (Nat.add_eq_left.mp sizes.symm) (by decide)

theorem notBelow (found : f.open? path = .ok text) :
    ¬(f.levels path <+: f.levels (backupPath path)) ∧ ¬(f.levels (backupPath path) <+: f.levels path) := by
  have apart := backupApart found
  obtain ⟨-,-,base,name,here,aside⟩ := backupBeside found
  have sizes : (f.levels path).length = (f.levels (backupPath path)).length := by simp [here,aside]
  exact ⟨fun below => apart (below.eq_of_length sizes),fun below => apart (below.eq_of_length sizes.symm).symm⟩

theorem belowBoth (found : f.open? path = .ok text) {place : List String} (below : place <+: f.levels path)
    (other : place ≠ f.levels path) : place <+: f.levels (backupPath path) ∧ place ≠ f.levels (backupPath path) := by
  obtain ⟨-,-,base,name,here,aside⟩ := backupBeside found
  rw [here] at below other
  have inside := (List.prefix_concat_iff.mp below).resolve_left other
  rw [aside]
  exact ⟨inside.trans (List.prefix_append _ _),fun same => absurd inside.length_le (by simp [same])⟩

theorem renameIff (found : f.open? path = .ok text) : f.rename path (backupPath path) = .ok g ↔
    f.isDirectory (f.levels (backupPath path)) = false ∧ (f.remove path).write (backupPath path) text = g := by
  obtain ⟨named,passed,-⟩ := backupBeside found
  have leads : f.Leads (backupPath path) := fun place mem => (Files.openIff.mp found).2.1 place (passed ▸ mem)
  have led := (Files.locateIff named).mpr ⟨leads,rfl⟩
  show (f.open? path >>= fun text => f.locate (backupPath path) >>= fun l =>
    if f.isDirectory l then .error .isDirectory
    else .ok ((f.remove path).write (backupPath path) text)) = _ ↔ _
  rw [found,led]
  cases dir : f.isDirectory (f.levels (backupPath path)) <;> simp [bind,Except.bind,dir]

structure Replaced (f g : Files) (path new : String) (old : Option String) : Prop where
  here : g.read path = .ok (some new)
  kept : ∀ text, old = some text → g.read (backupPath path) = .ok (some text)
  others : ∀ l, l ≠ f.levels path → (old = none ∨ l ≠ f.levels (backupPath path)) →
    Files.lookup l g.contents = Files.lookup l f.contents

-- What is written first at the backup and then at the path is read from both.
theorem keptOpen (opened : f.open? path = .ok text) (free : f.isDirectory (f.levels (backupPath path)) = false)
    (written : Files.create path new ((f.remove path).write (backupPath path) text) = .ok g) :
    g.open? (backupPath path) = .ok text := by
  obtain ⟨named,passed,-⟩ := backupBeside opened
  obtain ⟨-,leads,-,rfl⟩ := Files.createIff.mp written
  refine Files.openIff.mpr ⟨named,fun place mem => ?_,Bool.eq_false_iff.mpr fun dir => ?_,?_⟩
  · exact Files.writtenDirectory.mpr (.inl (leads place (passed ▸ mem)))
  · rcases Files.writtenDirectory.mp dir with dir | ⟨below,_⟩
    · rcases Files.writtenDirectory.mp dir with dir | ⟨_,other⟩
      · cases free.symm.trans (Files.removedDirectory dir)
      · exact other rfl
    · exact (notBelow opened).2 below
  · refine (Files.lookupStored _ _ new _).trans ((if_neg (backupApart opened).symm).trans ?_)
    exact (Files.lookupStored _ _ text _).trans (if_pos rfl)

theorem setAsideSome {backup : Option String} : setAside path (some text) f = (.ok backup,g) ↔
    f.rename path (backupPath path) = .ok g ∧ some (backupPath path) = backup := by
  unfold setAside
  constructor
  · intro h
    obtain ⟨_,m,renamed,h⟩ := bindOk.mp h
    obtain ⟨rfl,rfl⟩ := pureOk.mp h
    exact ⟨Files.changeOk.mp renamed,rfl⟩
  · intro ⟨renamed,same⟩
    exact bindOk.mpr ⟨(),g,Files.changeOk.mpr renamed,pureOk.mpr ⟨same,rfl⟩⟩

theorem replaceIff {new : Option String} : replace path old new f = (.ok fetched,g) ↔
    ∃ parents aside backup, Files.makeWay (f.above path) [] f = (.ok (),parents) ∧
      setAside path old parents = (.ok backup,aside) ∧ place path new aside = .ok g ∧ ⟨true,backup⟩ = fetched := by
  unfold replace
  constructor
  · intro h
    obtain ⟨_,parents,made,h⟩ := bindOk.mp h
    obtain ⟨backup,aside,kept,h⟩ := bindOk.mp h
    obtain ⟨_,last,placed,h⟩ := bindOk.mp h
    obtain ⟨rfl,rfl⟩ := pureOk.mp h
    exact ⟨parents,aside,backup,made,kept,Files.changeOk.mp placed,rfl⟩
  · intro ⟨parents,aside,backup,made,kept,placed,same⟩
    exact bindOk.mpr ⟨(),parents,made,bindOk.mpr ⟨backup,aside,kept,
      bindOk.mpr ⟨(),g,Files.changeOk.mpr placed,pureOk.mpr ⟨same,rfl⟩⟩⟩⟩

theorem replaced (found : f.read path = .ok old) (h : replace path old (some new) f = (.ok fetched,g)) :
    fetched = ⟨true,old.map fun _ => backupPath path⟩ ∧ Replaced f g path new old := by
  obtain ⟨parents,aside,backup,made,kept,written,rfl⟩ := replaceIff.mp h
  have grown := (Files.wayMade made).1
  have here := Files.readSome.mpr (Files.writtenOpen written)
  obtain ⟨-,-,-,same⟩ := Files.createIff.mp written
  cases old with
  | none =>
    obtain ⟨rfl,rfl⟩ := pureOk.mp kept
    refine ⟨rfl,here,fun _ none => (Option.some_ne_none _ none.symm).elim,fun l other _ => ?_⟩
    rw [← same,← grown.contents]
    exact (Files.lookupStored _ _ _ _).trans (if_neg (grown.levels path ▸ other))
  | some text =>
    obtain ⟨renamed,rfl⟩ := setAsideSome.mp kept
    have opened : parents.open? path = .ok text := by
      obtain ⟨text',still,-⟩ := exceptBindOk.mp renamed
      have before := (Files.openIff.mp (Files.readSome.mp found)).2.2.2
      have after := (Files.openIff.mp still).2.2.2
      cases (grown.content path ▸ after).symm.trans before
      exact still
    obtain ⟨free,rfl⟩ := (renameIff opened).mp renamed
    refine ⟨rfl,here,fun text' there => ?_,fun l other apart => ?_⟩
    · cases there
      exact Files.readSome.mpr (keptOpen opened free written)
    · have apart := apart.resolve_left (Option.some_ne_none text)
      rw [← grown.levels] at other apart
      rw [← same,← grown.contents]
      refine (Files.lookupStored _ _ new _).trans ((if_neg other).trans ?_)
      refine (Files.lookupStored _ _ text _).trans ((if_neg apart).trans ?_)
      exact (Files.lookupRemoved _ _ _).trans (if_neg other)

structure Clear (f : Files) (path : String) : Prop where
  root : f.isDirectory [] = true
  file : LocalPath.namesDirectory path = false
  above : ∀ place ∈ f.passed path, Files.lookup place f.contents = none ∧ ¬f.levels path <+: place
  here : f.isDirectory (f.levels path) = false
  aside : f.isDirectory (f.levels (backupPath path)) = false

theorem asideLeads (opened : f.open? path = .ok text) :
    ((f.remove path).write (backupPath path) text).Leads path := by
  intro place mem
  have there : f.isDirectory place = true := (Files.openIff.mp opened).2.1 place mem
  rcases Files.leftDirectory there with there | ⟨below,other⟩
  · exact Files.writtenDirectory.mpr (.inl there)
  · exact Files.writtenDirectory.mpr (.inr (belowBoth opened below other))

theorem asideAway (opened : f.open? path = .ok text) :
    ((f.remove path).write (backupPath path) text).isDirectory (f.levels path) = false := by
  refine Bool.eq_false_iff.mpr fun dir => ?_
  rcases Files.writtenDirectory.mp dir with dir | ⟨below,_⟩
  · cases (Files.openIff.mp opened).2.2.1.symm.trans (Files.removedDirectory dir)
  · exact (notBelow opened).1 below

theorem replaces (clear : Clear f path) (found : f.read path = .ok old) (new : String) :
    ∃ fetched g, replace path old (some new) f = (.ok fetched,g) := by
  obtain ⟨parents,made⟩ := Files.wayMakeable fun place mem => (clear.above place mem).1
  obtain ⟨grown,passed,only⟩ := Files.wayMade made
  have leads : parents.Leads path := by
    intro place mem
    rw [grown.passed] at mem
    exact passed clear.root place mem
  have away : parents.isDirectory (parents.levels path) = false := by
    refine Bool.eq_false_iff.mpr fun dir => ?_
    rw [grown.levels] at dir
    rcases only _ dir with dir | ⟨place,mem,below⟩
    · cases clear.here.symm.trans dir
    · exact (clear.above place mem).2 below
  cases old with
  | none =>
    have written : place path (some new) parents = .ok (parents.write path new) :=
      Files.createIff.mpr ⟨clear.file,leads,away,rfl⟩
    exact ⟨_,_,replaceIff.mpr ⟨parents,parents,none,made,rfl,written,rfl⟩⟩
  | some text =>
    obtain ⟨-,before,-,content⟩ := Files.openIff.mp (Files.readSome.mp found)
    have opened : parents.open? path = .ok text :=
      Files.openIff.mpr ⟨clear.file,leads,away,(grown.content path).trans content⟩
    have free : parents.isDirectory (parents.levels (backupPath path)) = false := by
      refine Bool.eq_false_iff.mpr fun dir => ?_
      rw [grown.levels] at dir
      rcases only _ dir with dir | ⟨place,mem,below⟩
      · cases clear.aside.symm.trans dir
      · cases clear.aside.symm.trans (Files.directoryAbove below (before place mem))
    have renamed := (renameIff opened).mpr ⟨free,rfl⟩
    let aside := (parents.remove path).write (backupPath path) text
    have written : place path (some new) aside = .ok (aside.write path new) :=
      Files.createIff.mpr ⟨clear.file,asideLeads opened,asideAway opened,rfl⟩
    exact ⟨_,_,replaceIff.mpr ⟨parents,aside,_,made,setAsideSome.mpr ⟨renamed,rfl⟩,written,rfl⟩⟩

end Exchange
end RouterReconciler

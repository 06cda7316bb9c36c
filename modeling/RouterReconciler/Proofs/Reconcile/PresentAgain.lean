import RouterReconciler.Proofs.Reconcile.Alignment
import RouterReconciler.Proofs.Reconcile.Plain

/-! Presence of lines that say what is literal and what is unset: its plan only adds, and where every line
finds a record of its own it plans at most the moves for their block. -/
namespace RouterReconciler.Reconcile
open Replica Step

theorem blockMovesOk {ordered : Bool} {rs : List Record} {block : List ItemRef} {position : Nat}
    {moves : List Operation} (h : blockMoves ordered rs block position = .ok moves) :
    (ordered = true → ∀ r ∈ rs, r.id.isSome) ∧
    moves = if ordered then reposition (handles rs ++ block.filter isAdded) block position else [] := by
  unfold blockMoves at h
  cases ordered with
  | false => cases h; exact ⟨by simp,rfl⟩
  | true =>
    simp only [if_true] at h ⊢
    split at h
    · rename_i refs listed
      cases h
      obtain ⟨names,-,named⟩ := refsOfOk listed
      exact ⟨fun _ => namesComplete named,by rw [refsHandles listed]⟩
    · cases h

variable [PatternEngine]

section First
variable {rs : List Record} {missing : Missing} {lines : List Criteria} {p p' : Progress}
  (concrete : ∀ line ∈ lines, line.Concrete)
include concrete

theorem PresentRun.onlyAdds (h : PresentRun rs missing p lines p') : ∀ operation ∈ p'.operations,
    operation ∈ p.operations ∨ ∃ line ∈ lines, ∃ values, operation = .add values none ∧
      line.addValues = .ok values := by
  induction h with
  | done => exact fun operation mem => .inl mem
  | @line p m p' line rest step _ ih =>
    have here := (concrete line List.mem_cons_self).notSplit
    intro operation mem
    rcases ih (fun other mem => concrete other (List.mem_cons_of_mem _ mem)) operation mem with
      mem | ⟨other,listed,added⟩
    · cases step with
      | ignored => exact .inl mem
      | factory split => cases here.symm.trans split
      | claimed => exact .inl mem
      | added _ _ _ written =>
        rcases List.mem_append.mp mem with mem | mem
        · exact .inl mem
        · exact .inr ⟨line,List.mem_cons_self,_,List.mem_singleton.mp mem,written⟩
    · exact .inr ⟨other,List.mem_cons_of_mem _ listed,added⟩

theorem PresentRun.served (h : PresentRun rs missing p lines p') {next : Nat}
    {record : ItemRef → Record} (taken : List (Option ItemId)) (fit : Fit rs p)
    (pictures : Pictures rs next p' record) (told : ∀ r ∈ rs, taken.contains r.id = mentions p.block r) :
    ∃ items news, p'.block = p.block ++ items ∧
      arrivals 0 next p'.operations = arrivals 0 next p.operations ++ news ∧
      Served meets rs (changed p'.operations) taken lines (items.map record) (news.map Prod.snd) := by
  induction h generalizing taken with
  | done => exact ⟨[],[],by simp,by simp,.done _⟩
  | @line p m p' line rest step run ih =>
    have here := concrete _ List.mem_cons_self
    have others : ∀ other ∈ rest, other.Concrete := fun other mem => concrete other (List.mem_cons_of_mem _ mem)
    have free : ∀ r ∈ rs, (meets line r && outside taken r) = (meets line r && !mentions p.block r) :=
      fun r hr => by rw [outside,told r hr]
    cases step with
    | ignored split => cases here.notSplit.symm.trans split
    | factory split => cases here.notSplit.symm.trans split
    | @claimed j r id split first there named =>
      have hr := List.mem_of_getElem? there
      have new : ItemRef.existing id ∉ p.block := by
        intro mem
        have hit := List.find?_some first
        simp [mentions,named,mem] at hit
      have noted : appendNew p.block (.existing id) = p.block ++ [.existing id] := by
        simp [appendNew,new]
      have named' : some id ∈ ids rs := List.mem_map.mpr ⟨r,hr,named⟩
      have keptFit := fit.named named' ∅ (.inl rfl) (j :: p.claimed)
      rw [List.append_nil] at keptFit
      obtain ⟨items,news,same,arrived,served⟩ := ih others (r.id :: taken) keptFit pictures
        fun x hx => by
          rw [mentionsAppendNew,List.contains_cons,told x hx,named,beq_eq_decide]
      rw [noted] at same
      have shows : record (.existing id) = changed p'.operations r :=
        pictures.old r hr id named (by rw [same]; simp)
      refine ⟨.existing id :: items,news,by simp [same],arrived,?_⟩
      rw [List.map_cons,shows]
      exact .found (by rw [List.find?_congr free]; exact first) served
    | @added values split unmet allowed written =>
      obtain ⟨n,arrives⟩ : ∃ n, arrivals 0 next (p.operations ++ [.add values none]) =
          arrivals 0 next p.operations ++ [(p.operations.length,newRecord n values)] := by
        rw [arrivalsAppend,Nat.zero_add]
        exact ⟨_,rfl⟩
      have new : ItemRef.added p.operations.length ∉ p.block := fun mem =>
        Nat.lt_irrefl _ (fit.numbers mem)
      have noted : appendNew p.block (.added p.operations.length) =
          p.block ++ [.added p.operations.length] := by simp [appendNew,new]
      have early : (p.operations.length,newRecord n values) ∈ arrivals 0 next p'.operations :=
        (arrivalsPrefix run.planned).subset (by rw [arrives]; simp)
      have out := pictures.apart _ early
      obtain ⟨items,news,same,arrived,served⟩ := ih others ((newRecord n values).id :: taken)
        (fit.newly values) pictures fun x hx => by
          have other : x.id ≠ (newRecord n values).id := fun same =>
            out (same ▸ List.mem_map_of_mem hx)
          rw [mentionsAdded,List.contains_cons,told x hx,beq_eq_false_iff_ne.mpr other,Bool.false_or]
      rw [noted] at same
      refine ⟨.added p.operations.length :: items,(p.operations.length,newRecord n values) :: news,
        by simp [same],by rw [arrived,arrives]; simp,?_⟩
      rw [List.map_cons,pictures.new _ early]
      exact .made (by rw [List.find?_congr free]; exact unmet)
        (here.meetsOwn fun key _ => newRecordGet n written key) served

end First

theorem presentLaid {f : Facility} {within : Option Nat → Error → Error} {d d' : Replica}
    {lines : List Criteria} {ordered : Bool} {position : Nat} {missing : Missing}
    {operations : List Operation} (concrete : ∀ line ∈ lines, line.Concrete)
    (distinct : (ids (d.records f.path)).Nodup)
    (h : present f within lines ordered position missing d = (.ok operations,d')) :
    d.HasItems f.path ∧ ∃ p, Laid .present (lasting (d.records f.path)) lines ordered position p []
      operations := by
  obtain ⟨items,p,m,moves,worked,planned,rfl⟩ := presentOk h
  obtain ⟨named,rfl⟩ := blockMovesOk planned
  have run := presentLinesRun distinct (fun line mem raw => by
    rw [(concrete line mem).notRaw] at raw; cases raw) (tracksStart _) worked
  have adds : ∀ operation ∈ p.operations, ∃ line ∈ lines, ∃ values, operation = .add values none ∧
      line.addValues = .ok values :=
    fun operation mem => (run.onlyAdds concrete operation mem).resolve_left (by simp [Progress.start])
  have unchanged : ∀ r, changed p.operations r = r := fun r =>
    changedUnset fun id values mem => by
      obtain ⟨_,-,_,same,-⟩ := adds _ mem
      cases same
  have keepsAll : ∀ r, Alignment.present.givesUp p.block r = false := fun r => Bool.and_false _
  have served : ∀ next record, Pictures (lasting (d.records f.path)) next p record →
      Served meets (lasting (d.records f.path)) (changed p.operations) [] lines (p.block.map record)
        ((arrivals 0 next p.operations).map Prod.snd) := by
    intro next record pictures
    obtain ⟨items,news,block,arrived,served⟩ := run.served concrete [] (Fit.start _) pictures
      fun r _ => by cases hr : r.id <;> simp [Progress.start,mentions,hr]
    rw [show p.block = items from block,show arrivals 0 next p.operations = news from arrived]
    exact served
  refine ⟨items,p,run.fit (List.Subset.refl _) (Fit.start _),run.removed rfl,?_,fun needed => ?_,?_,
    fun r _ line _ => by rw [unchanged],fun r _ => by rw [unchanged],fun next x mem => ?_,served,
    fun next record pictures => (served next record pictures).fit fun r _ line _ => by rw [unchanged],
    fun next record pictures => ?_⟩
  · simp [keepsAll,ids]
  · rw [show Alignment.present.complete = false from rfl,Bool.or_false] at needed
    exact named needed
  · simp [keepsAll]
  · obtain ⟨n,values,_,planned,new⟩ := arrivalAdded mem
    obtain ⟨line,listed,_,same,written⟩ := adds _ planned
    cases same
    rw [new]
    exact Criteria.flagOwn (newRecordGet n written) ((concrete line listed).unreserved _ (by decide))
  · exact ((served next record pictures).fit fun r _ line _ => by rw [unchanged]).imp
      fun _ _ _ => trivial

section Again
variable {f : Facility} {within : Option Nat → Error → Error} {d : Replica} {rs block : List Record}
  {missing : Missing} {lines : List Criteria}

theorem presentLineAgain (missing : Missing) {line : Criteria} {p : Progress} {taken : List (Option ItemId)} {r : Record}
    {id : ItemId} (concrete : line.Concrete) (alive : ∀ r ∈ rs, r.flag "dynamic" = false)
    (marks : Marks rs p.claimed taken)
    (first : rs.find? (fun r => meets line r && outside taken r) = some r) (named : r.id = some id)
    (new : .existing id ∉ p.block) (clear : ¬Clash [line] rs) :
    ∃ j, rs[j]? = some r ∧ presentLine f rs missing line p d =
      (.ok { p with claimed := j :: p.claimed, block := p.block ++ [.existing id] },d) := by
  have picked : select f rs line d = (.ok (placesWhere (meets line) 0 rs),d) := by
    rw [selectClear concrete.judgeable.legible clear,
      placesWhereCongr (q := meets line) 0 fun r mem => by simp [selects,alive r mem]]
  have judged := firstPlace (meets line) (outside taken) (fun j => !p.claimed.contains j)
    fun (r : Record) j (there : rs[j]? = some r) => by rw [outside,marks r j there]
  rcases judged with ⟨j,x,place,there,met⟩ | ⟨-,unmet⟩
  · cases first.symm.trans met
    refine ⟨j,there,?_⟩
    have noted : appendNew p.block (.existing id) = p.block ++ [.existing id] := by
      simp [appendNew,new]
    have given : idOf r = .ok id := by rw [idOf,named]
    simp only [presentLine,concrete.notSplit]
    rw [bindAfter picked]
    simp only [place,there]
    rw [bindAfter (liftOk.mpr ⟨given,rfl⟩),noted]
    rfl
  · cases first.symm.trans unmet

theorem presentLinesAgain (within : Option Nat → Error → Error) (missing : Missing) (index : Nat)
    {p : Progress} {taken : List (Option ItemId)}
    (distinct : (ids rs).Nodup) (concrete : ∀ line ∈ lines, line.Concrete)
    (alive : ∀ r ∈ rs, r.flag "dynamic" = false) (claims : Claims meets rs taken lines block)
    (named : ∀ r ∈ block, r.id.isSome) (marks : Marks rs p.claimed taken)
    (early : ∀ id, .existing id ∈ p.block → some id ∈ taken) :
    (¬Clash lines rs → ∃ p', presentLines f within rs missing index lines p d = (.ok p',d) ∧
      p'.operations = p.operations ∧ p'.block = p.block ++ handles block) ∧
    (Clash lines rs → presentLines f within rs missing index lines p d = (.error .brokenOff,d)) := by
  induction claims generalizing index p with
  | done => exact ⟨fun _ => ⟨p,rfl,rfl,by simp [handles]⟩,fun ⟨_,mem,_⟩ => nomatch mem⟩
  | @line taken line r rest block first _ ih =>
    have here := concrete line List.mem_cons_self
    obtain ⟨id,given⟩ := Option.isSome_iff_exists.mp (named r List.mem_cons_self)
    have new : ItemRef.existing id ∉ p.block := fun mem => by
      have hit := List.find?_some first
      simp [outside,given,early id mem] at hit
    by_cases jam : Clash [line] rs
    · refine ⟨fun clear => absurd (clashCons.mpr (.inl jam)) clear,fun _ => ?_⟩
      have broken : presentLine f rs missing line p d = (.error .brokenOff,d) := by
        simp only [presentLine,here.notSplit]
        exact bindFailed (selectClash here.judgeable.legible jam) _
      rw [presentLines]
      exact bindFailed (mapErrorError.mpr ⟨_,broken,rfl⟩) _
    · obtain ⟨j,there,step⟩ := presentLineAgain (f := f) (d := d) missing here alive marks first given new jam
      obtain ⟨through,broken⟩ := ih (index + 1)
        (p := { p with claimed := j :: p.claimed, block := p.block ++ [.existing id] })
        (fun other mem => concrete other (List.mem_cons_of_mem _ mem))
        (fun x hx => named x (List.mem_cons_of_mem _ hx)) (marks.found distinct there)
        (fun other mem => by
          rcases List.mem_append.mp mem with mem | mem
          · exact List.mem_cons_of_mem _ (early other mem)
          · cases List.mem_singleton.mp mem
            rw [given]
            exact List.mem_cons_self)
      rw [presentLines,bindAfter (mapErrorOk.mpr step)]
      refine ⟨fun clear => ?_,fun clash => broken ((clashCons.mp clash).resolve_left jam)⟩
      obtain ⟨p',later,operations,made⟩ := through fun jam => clear (clashCons.mpr (.inr jam))
      refine ⟨p',later,operations,?_⟩
      rw [made,handlesCons given]
      simp

section Claimed
variable {ordered : Bool} {position : Nat} (several : f.shape ≠ .singleton)
  (items : d.HasItems f.path) (concrete : ∀ line ∈ lines, line.Concrete)
  (rests : Rests .present (lasting (d.records f.path)) lines ordered block)
  (claims : Claims meets (lasting (d.records f.path)) [] lines block)
include several items concrete rests claims

theorem presentAgain (clear : ¬Clash lines (lasting (d.records f.path))) :
    present f within lines ordered position missing d = (.ok (if ordered then
      reposition (handles (lasting (d.records f.path))) (handles block) position else []),d) := by
  obtain ⟨p,worked,operations,made⟩ := (presentLinesAgain (f := f) (d := d) within
    missing 0 (p := .start) rests.distinct concrete
    (fun r hr => aliveOfLasting hr) claims (fun r hr => (rests.there r hr).2) (.start _)
    (by simp [Progress.start])).1 clear
  have named : p.block = handles block := made
  have moved : blockMoves ordered (lasting (d.records f.path)) p.block position = .ok (if ordered then
      reposition (handles (lasting (d.records f.path))) (handles block) position else []) := by
    cases ordered with
    | false => rfl
    | true =>
      simp only [blockMoves,refsThere (rests.named rfl),named,handlesStanding,List.append_nil,if_true]
  rw [present,bindAfter (snapshotThere several items),bindAfter worked,
    bindAfter (liftOk.mpr ⟨moved,rfl⟩),operations]
  rfl

theorem presentBreaks (clash : Clash lines (lasting (d.records f.path))) :
    present f within lines ordered position missing d = (.error .brokenOff,d) := by
  have broken := (presentLinesAgain (f := f) (d := d) within missing 0 (p := .start) rests.distinct
    concrete (fun r hr => aliveOfLasting hr) claims (fun r hr => (rests.there r hr).2) (.start _)
    (by simp [Progress.start])).2 clash
  rw [present,bindAfter (snapshotThere several items)]
  exact bindFailed broken _

end Claimed

end Again
end RouterReconciler.Reconcile

import RouterReconciler.Proofs.Reconcile.Progress
import RouterReconciler.Proofs.Record.Difference
import RouterReconciler.Proofs.Run.Live

/-! Presence in order. Each line names the first record that meets it and that no earlier line has
named, or else a new one; after a run the named records stand together at the position, in the order
of first mention, and nothing else has been touched. -/
namespace RouterReconciler
open Replica Step Text

namespace Reconcile

def mentions (block : List ItemRef) (r : Record) : Bool :=
  r.id.any fun id => block.contains (.existing id)

inductive PresentStep [PatternEngine] (rs : List Record) (missing : Missing) (line : Criteria) (p : Progress) :
    Progress → Prop
  | ignored {identity values} : line.splitDefault? = some (identity,values) → missing = .ignore →
      rs.find? (meets identity) = none → PresentStep rs missing line p p
  | factory {identity values j r id changes operations} :
      line.splitDefault? = some (identity,values) → rs.find? (meets identity) = some r →
      rs[j]? = some r → r.id = some id →
      (operations = [] ∨ operations = [Operation.set (some id) changes]) →
      PresentStep rs missing line p
        ⟨j :: p.claimed,p.operations ++ operations,appendNew p.block (.existing id)⟩
  | claimed {j r id} : line.splitDefault? = none →
      rs.find? (fun r => meets line r && !mentions p.block r) = some r → rs[j]? = some r →
      r.id = some id →
      PresentStep rs missing line p
        { p with claimed := j :: p.claimed, block := appendNew p.block (.existing id) }
  | added {values} : line.splitDefault? = none →
      rs.find? (fun r => meets line r && !mentions p.block r) = none → missing ≠ .fail →
      line.addValues = .ok values →
      PresentStep rs missing line p
        { p with operations := p.operations ++ [.add values none],
                 block := appendNew p.block (.added p.operations.length) }

inductive PresentRun [PatternEngine] (rs : List Record) (missing : Missing) : Progress → List Criteria → Progress → Prop
  | done (p) : PresentRun rs missing p [] p
  | line {p m p' line rest} : PresentStep rs missing line p m → PresentRun rs missing m rest p' →
      PresentRun rs missing p (line :: rest) p'

def Tracks (rs : List Record) (p : Progress) : Prop :=
  ∀ r j, rs[j]? = some r → p.claimed.contains j = mentions p.block r

theorem memMentions {block : List ItemRef} {r : Record} :
    mentions block r = true ↔ ∃ id, r.id = some id ∧ .existing id ∈ block := by
  rw [mentions,Option.any_eq_true]
  exact exists_congr fun id => and_congr_right fun _ => List.contains_iff_mem

theorem mentionsAppendNew {block : List ItemRef} {id : ItemId} (r : Record) :
    mentions (appendNew block (.existing id)) r = (decide (r.id = some id) || mentions block r) := by
  cases named : r.id with
  | none => simp [mentions,named]
  | some other =>
    rw [mentions,mentions,named,Option.any_some,Option.any_some,Bool.eq_iff_iff]
    simp only [List.contains_iff_mem,memAppendNew,Bool.or_eq_true,decide_eq_true_eq,
      Option.some.injEq,ItemRef.existing.injEq]
    exact or_comm

theorem mentionsAdded {block : List ItemRef} {n : Nat} (r : Record) :
    mentions (appendNew block (.added n)) r = mentions block r := by
  cases named : r.id with
  | none => simp [mentions,named]
  | some other =>
    rw [mentions,mentions,named,Option.any_some,Option.any_some,Bool.eq_iff_iff]
    simp only [List.contains_iff_mem,memAppendNew]
    exact ⟨fun h => h.resolve_right (by simp),.inl⟩

theorem tracksNamed {rs : List Record} {p : Progress} (distinct : (ids rs).Nodup)
    (tracks : Tracks rs p) {j : Nat} {r : Record} {id : ItemId} (there : rs[j]? = some r)
    (named : r.id = some id) (operations : List Operation) :
    Tracks rs ⟨j :: p.claimed,operations,appendNew p.block (.existing id)⟩ := by
  intro x i hx
  rw [List.contains_cons,tracks x i hx,mentionsAppendNew]
  congr 1
  rw [Bool.eq_iff_iff]
  simp only [beq_iff_eq,decide_eq_true_eq]
  constructor
  · rintro rfl
    cases there.symm.trans hx
    exact named
  · exact fun same => samePlace distinct hx there (same.trans named.symm)

theorem factoryLineOk {rs : List Record} {identity : Criteria} {values : Assignments} {j : Nat}
    {r : Record} {id : ItemId} {operations : List Operation} (there : rs[j]? = some r)
    (h : factoryLine rs identity values (some j) = .ok (id,operations)) :
    r.id = some id ∧ ∃ changes, differing values r = .ok changes ∧
      (operations = [] ∨ operations = [.set (some id) changes]) := by
  simp only [factoryLine,Option.bind_some,there,exceptBindOk,exceptLiftOk] at h
  obtain ⟨other,given,changes,compared,written,planned,h⟩ := h
  cases h
  exact ⟨idOfOk given,changes,compared,(modificationOk planned).imp And.left And.left⟩

theorem identityRaw {line identity : Criteria} {values : Assignments}
    (split : line.splitDefault? = some (identity,values)) (raw : identity.hasRaw = true) :
    line.hasRaw = true := by
  unfold Criteria.splitDefault? at split
  split at split <;> cases split
  obtain ⟨c,mem,hit⟩ := List.any_eq_true.mp raw
  exact List.any_eq_true.mpr ⟨c,(List.filter_sublist.map _).subset mem,hit⟩

theorem presentLineStep [PatternEngine] {f : Facility} {d d' : Replica} {missing : Missing} {line : Criteria}
    {p p' : Progress} (distinct : (ids (d.records f.path)).Nodup)
    (named : line.hasRaw = true → ∀ r ∈ lasting (d.records f.path), r.id.isSome)
    (tracks : Tracks (lasting (d.records f.path)) p)
    (h : presentLine f (lasting (d.records f.path)) missing line p d = (.ok p',d')) :
    PresentStep (lasting (d.records f.path)) missing line p p' := by
  generalize hrs : lasting (d.records f.path) = rs at *
  have places {criteria : Criteria} {found : List Nat} {m : Replica}
      (raw : criteria.hasRaw = true → line.hasRaw = true)
      (picked : select f rs criteria d = (.ok found,m)) :
      found = placesWhere (meets criteria) 0 rs := by
    rw [← hrs] at picked ⊢
    exact selectOk distinct (fun remote => hrs ▸ named (raw remote)) picked
  have sought {identity : Criteria} {values : Assignments} {found : List Nat}
      (split : line.splitDefault? = some (identity,values))
      (picked : select f rs identity d = (.ok found,d')) :
      (∃ j r, found.head? = some j ∧ rs[j]? = some r ∧ rs.find? (meets identity) = some r) ∨
        found.head? = none ∧ rs.find? (meets identity) = none := by
    have judged := firstPlace (meets identity) (fun _ => true) (fun _ => true)
      fun (r : Record) j (_ : rs[j]? = some r) => rfl
    have first : found.head? = found.find? (fun _ => true) := by cases found <;> rfl
    rw [first,places (identityRaw split) picked]
    simpa only [Bool.and_true] using judged
  have judged := firstPlace (meets line) (fun r => !mentions p.block r) (fun j => !p.claimed.contains j)
    fun (r : Record) j (there : rs[j]? = some r) => by rw [tracks r j there]
  cases presentLineDone h with
  | factory split picked written =>
    obtain ⟨j,r,place,there,met⟩ | ⟨place,-⟩ := sought split picked
    · rw [place] at written ⊢
      obtain ⟨given,changes,-,planned⟩ := factoryLineOk there written
      exact .factory split met there given planned
    · rw [place] at written
      cases written
  | ignored split picked ignores =>
    obtain ⟨_,_,place,-⟩ | ⟨-,unmet⟩ := sought split picked
    · cases place
    · exact .ignored split ignores unmet
  | astray split picked free away =>
    rw [places id picked] at free
    obtain ⟨j,r,place,there,-⟩ | ⟨place,-⟩ := judged <;> cases place.symm.trans free
    cases away.symm.trans there
  | claimed split picked free there named =>
    rw [places id picked] at free
    obtain ⟨j,r,place,here,met⟩ | ⟨place,-⟩ := judged <;> cases place.symm.trans free
    cases here.symm.trans there
    exact .claimed split met there (idOfOk named)
  | added split picked spent allowed given =>
    rw [places id picked] at spent
    obtain ⟨j,r,place,-⟩ | ⟨-,unmet⟩ := judged
    · cases place.symm.trans spent
    · exact .added split unmet allowed given

theorem PresentStep.tracks [PatternEngine] {rs : List Record} {missing : Missing} {line : Criteria}
    {p p' : Progress} (distinct : (ids rs).Nodup) (tracks : Tracks rs p)
    (h : PresentStep rs missing line p p') : Tracks rs p' := by
  cases h with
  | ignored => exact tracks
  | factory _ _ there named _ => exact tracksNamed distinct tracks there named _
  | claimed _ _ there named => exact tracksNamed distinct tracks there named _
  | added =>
    intro r j there
    rw [mentionsAdded]
    exact tracks r j there

theorem PresentStep.fit [PatternEngine] {all rs : List Record} {missing : Missing} {line : Criteria}
    {p p' : Progress} (inside : rs ⊆ all) (fit : Fit all p) (h : PresentStep rs missing line p p') :
    Fit all p' := by
  have there {j r id} (place : rs[j]? = some r) (named : r.id = some id) : some id ∈ ids all :=
    List.mem_map.mpr ⟨r,inside (List.mem_of_getElem? place),named⟩
  cases h with
  | ignored => exact fit
  | factory _ _ place named planned => exact fit.named (there place named) _ planned _
  | @claimed j r id _ _ place named =>
    have kept := fit.named (there place named) ∅ (.inl rfl) (j :: p.claimed)
    rwa [List.append_nil] at kept
  | added => exact fit.newly _

theorem PresentStep.removed [PatternEngine] {rs : List Record} {missing : Missing} {line : Criteria}
    {p p' : Progress} (h : PresentStep rs missing line p p') (none : removed p.operations = []) :
    removed p'.operations = [] := by
  cases h with
  | ignored => exact none
  | factory _ _ _ _ planned =>
    rw [RouterReconciler.removed,List.filterMap_append]
    rcases planned with rfl | rfl
    · rw [List.filterMap_nil,List.append_nil]; exact none
    · exact (List.append_nil _).trans none
  | claimed => exact none
  | added => 
    rw [RouterReconciler.removed,List.filterMap_append]
    exact (List.append_nil _).trans none

theorem presentLinesRun [PatternEngine] {f : Facility} {within : Option Nat → Error → Error} {d d' : Replica}
    {missing : Missing} {index : Nat} {lines : List Criteria} {p p' : Progress}
    (distinct : (ids (d.records f.path)).Nodup)
    (named : ∀ line ∈ lines, line.hasRaw = true → ∀ r ∈ lasting (d.records f.path), r.id.isSome)
    (tracks : Tracks (lasting (d.records f.path)) p)
    (h : presentLines f within (lasting (d.records f.path)) missing index lines p d = (.ok p',d')) :
    PresentRun (lasting (d.records f.path)) missing p lines p' := by
  induction lines generalizing index p with
  | nil =>
    obtain ⟨rfl,-⟩ := pureOk.mp h
    exact .done p
  | cons line rest ih =>
    obtain ⟨m,_,step,h⟩ := presentLinesNext.mp h
    cases (presentLineQuiet f d _ _ _ _).state step
    have step := presentLineStep distinct (named line List.mem_cons_self) tracks step
    exact .line step (ih (fun other mem => named other (List.mem_cons_of_mem _ mem))
      (step.tracks (lastingDistinct distinct) tracks) h)

theorem PresentRun.fit [PatternEngine] {all rs : List Record} {missing : Missing} {lines : List Criteria}
    {p p' : Progress} (inside : rs ⊆ all) (fit : Fit all p) (h : PresentRun rs missing p lines p') :
    Fit all p' := by
  induction h with
  | done => exact fit
  | line step _ ih => exact ih (step.fit inside fit)

theorem PresentRun.removed [PatternEngine] {rs : List Record} {missing : Missing} {lines : List Criteria}
    {p p' : Progress} (h : PresentRun rs missing p lines p') (none : removed p.operations = []) :
    removed p'.operations = [] := by
  induction h with
  | done => exact none
  | line step _ ih => exact ih (step.removed none)

theorem PresentRun.planned [PatternEngine] {rs : List Record} {missing : Missing} {lines : List Criteria}
    {p p' : Progress} (h : PresentRun rs missing p lines p') : p.operations <+: p'.operations := by
  induction h with
  | done => exact List.prefix_refl _
  | line step _ ih =>
    refine List.IsPrefix.trans ?_ ih
    cases step with
    | ignored => exact List.prefix_refl _
    | factory => exact List.prefix_append _ _
    | claimed => exact List.prefix_refl _
    | added => exact List.prefix_append _ _

theorem tracksStart (rs : List Record) : Tracks rs .start := by
  intro r j _
  cases hr : r.id <;> simp [Progress.start,mentions,hr]

theorem presentOk [PatternEngine] {f : Facility} {within : Option Nat → Error → Error} {d d' : Replica}
    {lines : List Criteria} {ordered : Bool} {position : Nat} {missing : Missing}
    {operations : List Operation}
    (h : present f within lines ordered position missing d = (.ok operations,d')) :
    d.HasItems f.path ∧ ∃ p m moves,
      presentLines f within (lasting (d.records f.path)) missing 0 lines .start d = (.ok p,m) ∧
      blockMoves ordered (lasting (d.records f.path)) p.block position = .ok moves ∧
      operations = p.operations ++ moves := by
  obtain ⟨records,_,read,p,worked,moves,planned,rfl⟩ := presentEnds.mp h
  obtain ⟨-,items,rfl,rfl⟩ := snapshotOk read
  exact ⟨items,p,_,moves,worked,planned,rfl⟩

theorem presentPlan [PatternEngine] {f : Facility} {within : Option Nat → Error → Error} {d d' : Replica}
    {lines : List Criteria} {position : Nat} {missing : Missing} {operations : List Operation}
    (distinct : (ids (d.records f.path)).Nodup)
    (h : present f within lines true position missing d = (.ok operations,d')) :
    d.HasItems f.path ∧
    ∃ p, ∃ names : List ItemId, PresentRun (lasting (d.records f.path)) missing .start lines p ∧
      names.map some = ids (lasting (d.records f.path)) ∧
      operations = p.operations ++
        reposition (names.map .existing ++ p.block.filter isAdded) p.block position := by
  obtain ⟨items,p,m,moves,worked,planned,rfl⟩ := presentOk h
  simp only [blockMoves,if_true] at planned
  split at planned
  · rename_i refs named
    cases planned
    obtain ⟨names,rfl,same⟩ := refsOfOk named
    exact ⟨items,p,names,presentLinesRun distinct (fun _ _ _ => namesComplete same) (tracksStart _)
      worked,same,rfl⟩
  · cases planned

end Reconcile

def note (block : List (Option ItemId)) (name : Option ItemId) : List (Option ItemId) :=
  if block.contains name then block else block ++ [name]

/-- The block that lines describe, by the ids of its records, worked out line by line from what has
been named so far. -/
inductive Block [PatternEngine] (before after : List Record) (missing : Missing) :
    List (Option ItemId) → List Criteria → List (Option ItemId) → Prop
  | done (block) : Block before after missing block [] block
  | ignored {block final line rest identity values} :
      line.splitDefault? = some (identity,values) → missing = .ignore →
      (lasting before).find? (meets identity) = none →
      Block before after missing block rest final →
      Block before after missing block (line :: rest) final
  | factory {block final line rest identity values r} :
      line.splitDefault? = some (identity,values) →
      (lasting before).find? (meets identity) = some r →
      Block before after missing (note block r.id) rest final →
      Block before after missing block (line :: rest) final
  | claimed {block final line rest r} : line.splitDefault? = none →
      (lasting before).find? (fun r => meets line r && !block.contains r.id) = some r →
      Block before after missing (block ++ [r.id]) rest final →
      Block before after missing block (line :: rest) final
  | added {block final line rest r} : line.splitDefault? = none →
      (lasting before).find? (fun r => meets line r && !block.contains r.id) = none →
      missing ≠ .fail → r ∈ after → r.id ∉ ids before → (∀ key, r.get? key = line.literal? key) →
      Block before after missing (block ++ [r.id]) rest final →
      Block before after missing block (line :: rest) final

namespace Reconcile

structure Stands (rs before after : List Record) (news : List (Nat × Record))
    (record : ItemRef → Record) : Prop where
  old : ∀ r ∈ rs, ∀ id ∈ r.id, (record (.existing id)).id = some id
  new : ∀ a ∈ news, record (.added a.1) = a.2 ∧ a.2 ∈ after ∧ a.2.id ∉ ids before

theorem Stands.mentions {rs before after : List Record} {next : Nat} {p : Progress}
    {news : List (Nat × Record)} {record : ItemRef → Record}
    (stands : Stands rs before after news record) (inside : rs ⊆ before) (fit : Fit rs p)
    (early : arrivals 0 next p.operations <+: news) {r : Record} (hr : r ∈ rs) (named : r.id.isSome) :
    Reconcile.mentions p.block r = (p.block.map (fun item => (record item).id)).contains r.id := by
  obtain ⟨id,named⟩ := Option.isSome_iff_exists.mp named
  rw [Reconcile.mentions,named,Option.any_some,Bool.eq_iff_iff,List.contains_iff_mem,
    List.contains_iff_mem,List.mem_map]
  constructor
  · exact fun mem => ⟨_,mem,stands.old r hr id named⟩
  · rintro ⟨item,mem,same⟩
    cases item with
    | existing other =>
      obtain ⟨x,hx,other'⟩ := List.mem_map.mp (fit.existing other mem)
      rw [stands.old x hx other other'] at same
      cases same
      exact mem
    | added n =>
      obtain ⟨a,ha⟩ := fit.arrival next mem
      obtain ⟨itself,-,out⟩ := stands.new _ (early.subset ha)
      rw [itself] at same
      exact absurd (List.mem_map.mpr ⟨r,inside hr,named.trans same.symm⟩) out

theorem arrivalsPrefix {next : Nat} {first all : List Operation} (h : first <+: all) :
    arrivals 0 next first <+: arrivals 0 next all := by
  obtain ⟨rest,rfl⟩ := h
  rw [arrivalsAppend]
  exact List.prefix_append _ _

theorem Stands.note {rs before after : List Record} {next : Nat} {p : Progress}
    {news : List (Nat × Record)} {record : ItemRef → Record}
    (stands : Stands rs before after news record) (inside : rs ⊆ before) (fit : Fit rs p)
    (early : arrivals 0 next p.operations <+: news) {r : Record} (hr : r ∈ rs) {id : ItemId}
    (named : r.id = some id) :
    (appendNew p.block (.existing id)).map (fun item => (record item).id) =
      RouterReconciler.note (p.block.map (fun item => (record item).id)) r.id := by
  have same := stands.mentions inside fit early hr (by rw [named]; rfl)
  rw [Reconcile.mentions,named,Option.any_some] at same
  rw [appendNew,RouterReconciler.note,named,← same]
  split
  · rfl
  · rw [List.map_append,List.map_cons,List.map_nil,stands.old r hr id named]

theorem PresentRun.block [PatternEngine] {before after : List Record} {missing : Missing} {lines : List Criteria}
    {p p' : Progress} {next : Nat} {record : ItemRef → Record}
    (complete : ∀ r ∈ lasting before, r.id.isSome)
    (stands : Stands (lasting before) before after (arrivals 0 next p'.operations) record)
    (fit : Fit (lasting before) p) (h : PresentRun (lasting before) missing p lines p') :
    Block before after missing (p.block.map (fun item => (record item).id)) lines
      (p'.block.map (fun item => (record item).id)) := by
  have inside : lasting before ⊆ before := List.filter_subset_self _
  induction h with
  | done p => exact .done _
  | @line p m p' line rest step run ih =>
    have later := run.planned
    have first : arrivals 0 next p.operations <+: arrivals 0 next p'.operations := by
      refine (arrivalsPrefix ?_).trans (arrivalsPrefix later)
      exact (PresentRun.line step (.done m)).planned
    have following := ih stands (step.fit (List.Subset.refl _) fit)
    have same : ∀ r ∈ lasting before, (meets line r && !mentions p.block r) =
        (meets line r && !(p.block.map (fun item => (record item).id)).contains r.id) :=
      fun r hr => by rw [stands.mentions inside fit first hr (complete r hr)]
    cases step with
    | ignored split ignores unmet => exact .ignored split ignores unmet following
    | factory split met there named planned =>
      refine .factory split met ?_
      rw [← stands.note inside fit first (List.mem_of_getElem? there) named]
      exact following
    | @claimed j r id split met there named =>
      have hr := List.mem_of_getElem? there
      have free := List.find?_some met
      rw [same r hr] at free
      rw [List.find?_congr same] at met
      refine .claimed split met ?_
      have noted := stands.note inside fit first hr named
      rw [RouterReconciler.note,if_neg (by simp at free; simpa using free.2)] at noted
      rw [← noted]
      exact following
    | @added values split unmet allowed written =>
      obtain ⟨n,arrived⟩ := arrivalAt next later
      obtain ⟨itself,there,out⟩ := stands.new _ arrived
      have new : ItemRef.added p.operations.length ∉ p.block := fun mem =>
        Nat.lt_irrefl _ (fit.numbers mem)
      have appended : (appendNew p.block (.added p.operations.length)).map
          (fun item => (record item).id) = p.block.map (fun item => (record item).id) ++
            [(newRecord n values).id] := by
        rw [appendNew,if_neg (by simpa using new),List.map_append,List.map_cons,List.map_nil,itself]
      rw [List.find?_congr same] at unmet
      refine .added split unmet allowed there out (newRecordGet n written) ?_
      rw [← appended]
      exact following

end Reconcile
structure Presented [PatternEngine] (before after : List Record) (lines : List Criteria) (missing : Missing)
    (position : Nat) (block : List (Option ItemId)) : Prop where
  described : Block before after missing [] lines block
  distinct : block.Nodup
  kept : ∀ r ∈ before, r.id ∈ ids after
  others : after.filter (outside block) = before.filter (outside block)
  order : ∃ front members back,
    after.filter (outside (ids (fleeting before))) = front ++ members ++ back ∧
    ids members = block ∧ front ++ back = (lasting before).filter (outside block) ∧
    front.length = min (position - 1) (front ++ back).length

namespace Reconcile

theorem Fit.inside {rs : List Record} {p : Progress} {known : List ItemId} (fit : Fit rs p)
    (named : known.map some = ids rs) (next : Nat) : ∀ item ∈ p.block, item ∈ known.map .existing ++
      (arrivals 0 next p.operations).map (fun a => ItemRef.added a.1) := by
  intro item mem
  cases item with
  | existing id => exact List.mem_append_left _ (namesListed named (fit.existing id mem))
  | added n =>
    rw [← fit.added next]
    exact List.mem_append_right _ (List.mem_filter.mpr ⟨mem,rfl⟩)

theorem presentArranges [PatternEngine] {before : List Record} {next position : Nat} {w : View}
    {missing : Missing} {lines : List Criteria} {p : Progress} {known : List ItemId}
    (distinct : (ids before).Nodup)
    (unused : ∀ n, next ≤ n → n ≤ maxWord64 → some (newId n) ∉ ids before)
    (word : w.nextId ≤ maxWord64) (run : PresentRun (lasting before) missing .start lines p)
    (named : known.map some = ids (lasting before))
    (reached : (View.mk before next []).run 0 (p.operations ++
      reposition (known.map .existing ++ p.block.filter isAdded) p.block position) = some w) :
    ∃ block, Presented before w.records lines missing position block := by
  have inside : lasting before ⊆ before := List.filter_subset_self _
  have fit := run.fit (List.Subset.refl _) (Fit.start _)
  have allStay : before.filter (stays (RouterReconciler.removed p.operations)) = before := by
    rw [run.removed rfl,staysNil]; simp
  rw [fit.added next] at reached
  obtain ⟨apart,record,standing,newly,arranged⟩ := View.rearranged (v := ⟨before,next,[]⟩) true
    (lasting before) word distinct (fun n lower upper => unused n lower (by omega)) fit.edits
    (fun operation mem id aim => List.map_subset _ inside (fit.aimed operation mem id aim))
    (by rw [allStay]; exact List.filter_sublist) (namesStand named) fit.distinct
    (fit.inside named next) reached
  rw [View.edited,allStay] at apart arranged
  have told := namesTold named standing
  have stands : Stands (lasting before) before w.records (arrivals 0 next p.operations) record :=
    ⟨fun r hr id same => by rw [told r hr id same,changedId]; exact same,fun a ha =>
      ⟨newly a ha,arranged.perm.mem_iff.mpr (List.mem_append_right _ (List.mem_map_of_mem ha)),
        newOutside apart (List.mem_map_of_mem ha)⟩⟩
  have described := run.block (namesComplete named) stands (Fit.start _)
  rw [show p.block.map (fun item => (record item).id) = ids (p.block.map record) from
    (List.map_map ..).symm] at described
  -- what is written is aimed at the block, what is new belongs to it
  have aimed : ∀ id values, .set (some id) values ∈ p.operations →
      some id ∈ ids (p.block.map record) := by
    intro id values mem
    have wrote := fit.written id values mem
    obtain ⟨r,hr,same⟩ := List.mem_map.mp (fit.existing id wrote)
    exact List.mem_map.mpr ⟨_,List.mem_map_of_mem wrote,stands.old r hr id same⟩
  have newInside : ∀ r ∈ (arrivals 0 next p.operations).map Prod.snd,
      r.id ∈ ids (p.block.map record) := fun r hr => newsListed newly (fit.added next) hr
  obtain ⟨front,back,order,rest,size⟩ := arranged.inOrder aimed newInside
    (fun id => !(ids (fleeting before)).contains id) rfl apart inside
    (fun r hr => (notFleeting distinct hr).symm)
    (fun r hr => by
      have out := apartFleeting (newOutside apart hr)
      simpa using out)
  refine ⟨ids (p.block.map record),described,?_,fun r hr => ?_,arranged.outsiders aimed newInside,
    front,p.block.map record,back,order,rfl,rest,size⟩
  · have distinctNow : (ids w.records).Nodup := (idsPerm arranged.perm).nodup_iff.mpr apart
    have placed : (front ++ p.block.map record ++ back).Sublist w.records :=
      order ▸ List.filter_sublist
    exact distinctNow.sublist (((List.sublist_append_right _ _).trans
      ((List.sublist_append_left _ _).trans placed)).map _)
  · rw [← changedId p.operations r]
    exact List.mem_map_of_mem
      (arranged.perm.mem_iff.mpr (List.mem_append_left _ (List.mem_map_of_mem hr)))

end Reconcile

/-- A live run of an ordered present task that succeeds. -/
theorem presentReproducesBlock [PatternEngine] {τ : Type} [FileTransfer Replica τ] {options : RunOptions}
    {path : FacilityPath} {lines : List Criteria} {position : Nat} {missing : Missing}
    {s s' : Session Replica τ} {outcome : Outcome} (sound : s.device.Sound)
    (live : options.dryRun = false)
    (ran : Session.runTask options (.facility ⟨path,.present lines true position missing⟩) s =
      (.ok outcome,s'))
    (succeeded : outcome.failed = false) (word : s'.device.nextId ≤ maxWord64) :
    (∃ block, Presented (s.device.records path) (s'.device.records path) lines missing position
      block) ∧
    ∀ other, other ≠ path → s'.device.records other = s.device.records other := by
  have several : (Mode.present lines true position missing).shape ≠ .singleton := by
    simp [Mode.shape,Mode.shapeIf]
  obtain ⟨plan,planned,⟨added,reached⟩,away⟩ := Session.liveRun live several ran succeeded
  have distinct := sound.records path
  obtain ⟨items,p,known,run,named,operations⟩ :=
    Reconcile.presentPlan distinct (Reconcile.writingOk (mapErrorOk.mp planned)).1
  rw [operations] at reached
  exact ⟨Reconcile.presentArranges distinct (fun n lower upper => sound.unused items lower upper)
    word run named reached,away.elsewhere⟩

open scoped Pattern

theorem presentReproducesPools : ∃ outcome after,
    poolRun (.present [poolLine "new",poolLine "lan"] true 1 .add) = (.ok outcome,after) ∧
    outcome.failed = false ∧
    (∃ block, Presented (pools.records ⟨"/ip pool"⟩) (after.device.records ⟨"/ip pool"⟩)
      [poolLine "new",poolLine "lan"] .add 1 block) ∧
    ∀ other, other ≠ ⟨"/ip pool"⟩ → after.device.records other = pools.records other := by
  obtain ⟨outcome,after,ran,succeeded,word⟩ :=
    poolRan (.present [poolLine "new",poolLine "lan"] true 1 .add) (by decide +kernel)
  exact ⟨outcome,after,ran,succeeded,presentReproducesBlock poolsSound rfl ran succeeded word⟩

end RouterReconciler

import RouterReconciler.Proofs.Reconcile.Plain
import RouterReconciler.Proofs.Reconcile.Progress
import RouterReconciler.Proofs.Run.Live

/-! Replacement and check agree. After a rebuild each line claims the record that was made for it:
the records of earlier lines are taken, and what stands before them may not be removed. So the check
passes, and a second replacement has nothing to do. -/
namespace RouterReconciler
open Step Replica Text

structure Rebuilt (rs : List Record) (lines : List Criteria) (ordered : Bool) (position : Nat)
    (front news back : List Record) : Prop where
  split : rs = front ++ news ++ back
  own : List.Forall₂ (fun line r => ∀ key, r.get? key = line.literal? key) lines news
  firm : ∀ r ∈ front ++ back, Reconcile.isRemovable r = false
  place : ordered = true → front.length = min (position - 1) (front ++ back).length

namespace Reconcile

theorem placesWhereAppend (p : Record → Bool) (front back : List Record) :
    placesWhere p 0 (front ++ back) = placesWhere p 0 front ++ placesWhere p front.length back := by
  rw [placesWhere,List.zipIdx_append,List.filter_append,List.map_append,Nat.zero_add]
  rfl

theorem ownRemovable {line : Criteria} (plain : line.Plain) {r : Record}
    (own : ∀ key, r.get? key = line.literal? key) : isRemovable r = true := by
  simp [isRemovable,Selector.isSkipped,Selector.removable,
    plain.flagOwn own (show "dynamic" ∈ kindKeys by decide),
    plain.flagOwn own (show "builtin" ∈ kindKeys by decide),
    plain.flagOwn own (show "default" ∈ kindKeys by decide)]

section
variable [PatternEngine]

theorem rebuiltLined {rs front news back : List Record} {lines : List Criteria} {ordered : Bool}
    {position : Nat} (plain : ∀ line ∈ lines, line.Plain)
    (h : Rebuilt rs lines ordered position front news back) : Lined rs lines front.length := by
  obtain ⟨size,own⟩ := List.forall₂_iff_get.mp h.own
  have firm {r : Record} (mem : r ∈ front ++ back) : isRemovable r = true ↔ False := by
    simp [h.firm r mem]
  have mine (i : Nat) (bound : i < news.length) : isRemovable news[i] = true ∧
      ∀ line, lines[i]? = some line → meets line news[i] = true := by
    have inside : i < lines.length := size ▸ bound
    have here := plain lines[i] (List.getElem_mem inside)
    refine ⟨ownRemovable here (own i inside bound),fun line mem => ?_⟩
    cases mem.symm.trans (List.getElem?_eq_getElem inside)
    exact here.concrete.meetsOwn fun key _ => own i inside bound key
  constructor
  · intro j r there
    rw [h.split,List.append_assoc] at there
    by_cases inFront : j < front.length
    · rw [List.getElem?_append_left inFront] at there
      rw [firm (List.mem_append_left _ (List.mem_of_getElem? there)),false_iff]
      omega
    · rw [List.getElem?_append_right (by omega)] at there
      by_cases inNews : j - front.length < news.length
      · rw [List.getElem?_append_left inNews] at there
        obtain ⟨_,rfl⟩ := List.getElem?_eq_some_iff.mp there
        simp only [(mine _ inNews).1,true_iff]
        omega
      · rw [List.getElem?_append_right (by omega)] at there
        rw [firm (List.mem_append_right _ (List.mem_of_getElem? there)),false_iff]
        omega
  · intro i line mem
    have bound : i < news.length := size ▸ (List.getElem?_eq_some_iff.mp mem).1
    refine ⟨news[i],?_,(mine i bound).2 line mem⟩
    rw [h.split,List.append_assoc,List.getElem?_append_right (Nat.le_add_right _ _),
      Nat.add_sub_cancel_left,List.getElem?_append_left bound]
    exact List.getElem?_eq_getElem bound

theorem rebuiltDescribes {rs front news back : List Record} {lines : List Criteria} {ordered : Bool}
    {position : Nat} (plain : ∀ line ∈ lines, line.Plain)
    (h : Rebuilt rs lines ordered position front news back) :
    describes rs lines ordered position = true := by
  obtain ⟨found,covers⟩ := linedIff.mp (rebuiltLined plain h)
  refine describesIff.mpr ⟨_,found,covers,fun inOrder => ?_⟩
  have place := h.place inOrder
  have size := h.own.length_eq
  rw [List.length_append] at place
  rw [h.split,place,size]
  simp only [List.length_append]
  congr 1
  omega

section Described
variable {f : Facility} {within : Option Nat → Error → Error} {d : Replica} {lines : List Criteria}
  {ordered : Bool} {position : Nat} (several : f.shape ≠ .singleton) (items : d.HasItems f.path)
  (plain : ∀ line ∈ lines, line.Plain)
  (described : describes (lasting (d.records f.path)) lines ordered position = true)
include several items plain described

theorem checkDescribed (clear : ¬Clash lines (lasting (d.records f.path))) :
    check f within lines ordered position d = (.ok true,d) := by
  rw [check,bindAfter (snapshotThere several items)]
  rw [agreesJudgeable fun line mem => (plain line mem).judgeable,verdictClear clear,described]

theorem replaceDescribed (clear : ¬Clash lines (lasting (d.records f.path))) :
    replace f within lines ordered position d = (.ok [],d) := by
  rw [replace,bindAfter (snapshotThere several items)]
  have agreed : agrees f within (lasting (d.records f.path)) lines ordered position d = (.ok true,d) := by
    rw [agreesJudgeable fun line mem => (plain line mem).judgeable,verdictClear clear,described]
  rw [bindAfter agreed]
  rfl

theorem checkBreaks (clash : Clash lines (lasting (d.records f.path))) :
    check f within lines ordered position d = (.error .brokenOff,d) := by
  rw [check,bindAfter (snapshotThere several items)]
  rw [agreesJudgeable fun line mem => (plain line mem).judgeable,verdictClash described clash]

theorem replaceBreaks (clash : Clash lines (lasting (d.records f.path))) :
    replace f within lines ordered position d = (.error .brokenOff,d) := by
  rw [replace,bindAfter (snapshotThere several items)]
  have agreed : agrees f within (lasting (d.records f.path)) lines ordered position d =
      (.error .brokenOff,d) := by
    rw [agreesJudgeable fun line mem => (plain line mem).judgeable,verdictClash described clash]
  exact bindFailed agreed _

end Described

end

theorem removalsOk {rs : List Record} {operations : List Operation}
    (h : removals rs = .ok operations) :
    ∃ gone : List ItemId, operations = gone.map .remove ∧ gone.map some = ids rs := by
  induction rs generalizing operations with
  | nil => cases h; exact ⟨[],rfl,rfl⟩
  | cons r rest ih =>
    simp only [removals,exceptBindOk] at h
    obtain ⟨id,named,others,later,h⟩ := h
    cases h
    obtain ⟨gone,rfl,same⟩ := ih later
    exact ⟨id :: gone,rfl,by rw [List.map_cons,same,ids,ids,List.map_cons,idOfOk named]⟩

structure Rebuild (lines : List Criteria) (gone : List ItemId) (values : List Assignments)
    (p : Progress) : Prop where
  written : List.Forall₂ (fun line v => line.addValues = .ok v) lines values
  operations : p.operations = gone.map .remove ++ values.map (Operation.add · none)
  block : ∀ item ∈ p.block, isAdded item = true

theorem rebuildLines [PatternEngine] {f : Facility} {within : Option Nat → Error → Error} {survivors rs : List Record}
    {index : Nat} {lines done : List Criteria} {p p' : Progress} {d d' : Replica}
    {gone : List ItemId} {values : List Assignments} (plain : ∀ line ∈ lines, line.Plain)
    (fit : Fit rs p) (build : Rebuild done gone values p)
    (h : replaceLines f within survivors index lines p d = (.ok p',d')) :
    Fit rs p' ∧ ∃ all, Rebuild (done ++ lines) gone all p' := by
  induction lines generalizing index done values p d with
  | nil =>
    obtain ⟨rfl,-⟩ := pureOk.mp h
    exact ⟨fit,values,by rw [List.append_nil]; exact build⟩
  | cons line rest ih =>
    obtain ⟨q,m,one,later⟩ := replaceLinesNext.mp h
    obtain ⟨value,operation,written,planned,rfl⟩ :=
      replaceLinePlain (plain line List.mem_cons_self).concrete.notSplit one
    cases additionOk planned
    have step : Rebuild (done ++ [line]) gone (values ++ [value])
        { p with operations := p.operations ++ [.add value none],
                 block := appendNew p.block (.added p.operations.length) } := by
      refine ⟨List.rel_append build.written (.cons written .nil),?_,fun item mem => ?_⟩
      · rw [build.operations,List.map_append,List.append_assoc]
        rfl
      · rcases memAppendNew.mp mem with mem | rfl
        · exact build.block item mem
        · rfl
    have whole := ih (fun other mem => plain other (List.mem_cons_of_mem _ mem)) (fit.newly value) step
      later
    rwa [List.append_assoc] at whole

theorem removalsAddNothing (index next : Nat) (gone : List ItemId) :
    arrivals index next (gone.map .remove) = [] := by
  induction gone generalizing index with
  | nil => rfl
  | cons id rest ih => exact ih (index + 1)

theorem removalsFit {rs : List Record} {gone : List ItemId} (there : ∀ id ∈ gone, some id ∈ ids rs) :
    Fit rs ⟨[],gone.map .remove,[]⟩ := by
  refine ⟨?_,?_,?_,by simp,List.nodup_nil,fun next => by rw [removalsAddNothing]; rfl⟩
  · intro operation mem
    obtain ⟨id,-,rfl⟩ := List.mem_map.mp mem
    exact .remove id
  · intro operation mem id aim
    obtain ⟨other,listed,rfl⟩ := List.mem_map.mp mem
    cases aim
    exact there id listed
  · intro id values mem
    obtain ⟨_,-,same⟩ := List.mem_map.mp mem
    cases same

theorem additionsArrive {lines : List Criteria} {values : List Assignments}
    (written : List.Forall₂ (fun line v => line.addValues = .ok v) lines values) (index next : Nat) :
    List.Forall₂ (fun line r => ∀ key, r.get? key = line.literal? key) lines
      ((arrivals index next (values.map (Operation.add · none))).map Prod.snd) := by
  induction written generalizing index next with
  | nil => exact .nil
  | cons one _ ih => exact .cons (newRecordGet next one) (ih _ _)

namespace Rebuild
variable {lines : List Criteria} {gone : List ItemId} {values : List Assignments} {p : Progress}
  (build : Rebuild lines gone values p)
include build

theorem removes : removed p.operations = gone := by
  have adds : removed (values.map (Operation.add · none)) = [] :=
    List.filterMap_eq_nil_iff.mpr fun operation mem => by
      obtain ⟨_,-,rfl⟩ := List.mem_map.mp mem
      rfl
  have leaves : removed (gone.map Operation.remove) = gone := by
    rw [removed,List.filterMap_map]
    exact List.filterMap_some
  rw [build.operations,removed,List.filterMap_append]
  show removed _ ++ removed _ = gone
  rw [adds,leaves,List.append_nil]

theorem changes : changed p.operations = id := by
  funext r
  refine changedUnset fun id values mem => ?_
  rw [build.operations] at mem
  rcases List.mem_append.mp mem with mem | mem <;> obtain ⟨_,-,same⟩ := List.mem_map.mp mem <;>
    cases same

theorem news (next : Nat) : List.Forall₂ (fun line r => ∀ key, r.get? key = line.literal? key) lines
    ((arrivals 0 next p.operations).map Prod.snd) := by
  rw [build.operations,arrivalsAppend,removalsAddNothing]
  exact additionsArrive build.written _ _

end Rebuild

theorem replacePlan [PatternEngine] {f : Facility} {within : Option Nat → Error → Error} {d d' : Replica}
    {lines : List Criteria} {ordered : Bool} {position : Nat} {operations : List Operation}
    (plain : ∀ line ∈ lines, line.Plain)
    (h : replace f within lines ordered position d = (.ok operations,d')) :
    d.HasItems f.path ∧
    (describes (lasting (d.records f.path)) lines ordered position = true ∧ operations = [] ∨
      ∃ p, ∃ gone names : List ItemId, ∃ values, Fit (lasting (d.records f.path)) p ∧
        Rebuild lines gone values p ∧
        gone.map some = ids ((lasting (d.records f.path)).filter isRemovable) ∧
        (ordered = true → names.map some =
          ids ((lasting (d.records f.path)).filter (fun r => !isRemovable r))) ∧
        operations = p.operations ++ if ordered then
          reposition (names.map .existing ++ p.block.filter isAdded) p.block position else []) := by
  obtain ⟨records,_,same,_,read,agreed,h⟩ := replaceEnds h
  obtain ⟨-,items,rfl,still⟩ := snapshotOk read
  rw [still,agreesJudgeable fun line mem => (plain line mem).judgeable] at agreed
  obtain ⟨told,rfl⟩ := Prod.mk.inj agreed
  have described := verdictTold told
  refine ⟨items,?_⟩
  obtain ⟨passed,none⟩ | ⟨-,removed,p,moves,leave,rebuilt,planned,rfl⟩ := h
  · exact .inl ⟨described.trans passed,none⟩
  · obtain ⟨gone,rfl,named⟩ := removalsOk leave
    have first : Fit (lasting (d.records f.path)) ⟨[],gone.map .remove,[]⟩ :=
      removalsFit fun id mem => List.map_subset _ (List.filter_subset_self _)
        (named ▸ List.mem_map_of_mem mem)
    have start : Rebuild [] gone [] ⟨[],gone.map .remove,[]⟩ := ⟨.nil,by simp,by simp⟩
    obtain ⟨fit,values,build⟩ := rebuildLines plain first start rebuilt
    rw [List.nil_append] at build
    unfold blockMoves at planned
    cases ordered with
    | false =>
      cases planned
      exact .inr ⟨p,gone,[],values,fit,build,named,by simp,rfl⟩
    | true =>
      simp only [if_true] at planned
      split at planned
      · rename_i refs listed
        cases planned
        obtain ⟨names,rfl,told⟩ := refsOfOk listed
        exact .inr ⟨p,gone,names,values,fit,build,named,fun _ => told,rfl⟩
      · cases planned

-- What is counted of the records that are not removed: those that may not be.
theorem survivors {before : List Record} {gone : List ItemId} (distinct : (ids before).Nodup)
    (leave : gone.map some = ids ((lasting before).filter isRemovable)) :
    lasting (before.filter (stays gone)) = (lasting before).filter (fun r => !isRemovable r) := by
  rw [lasting,lasting,List.filter_filter,List.filter_filter]
  refine List.filter_congr fun r hr => ?_
  rw [staysUnless distinct leave hr]
  cases r.flag "dynamic" <;> simp

section Rebuild
variable {before news : List Record} {lines : List Criteria} {gone names : List ItemId}
  {position : Nat} (distinct : (ids before).Nodup) (plain : ∀ line ∈ lines, line.Plain)
  (own : List.Forall₂ (fun line r => ∀ key, r.get? key = line.literal? key) lines news)
  (leave : gone.map some = ids ((lasting before).filter isRemovable))
include distinct plain own leave

theorem rebuiltAtEnd :
    Rebuilt (lasting (before.filter (stays gone) ++ news)) lines false position
      ((lasting before).filter (fun r => !isRemovable r)) news [] := by
  refine ⟨?_,own,fun r hr => ?_,by simp⟩
  · rw [lasting,List.filter_append,← survivors distinct leave,List.append_nil]
    congr 1
    refine List.filter_eq_self.mpr fun r hr => ?_
    obtain ⟨line,mem,mine⟩ := forallRight own hr
    simp [(plain line mem).flagOwn mine (show "dynamic" ∈ kindKeys by decide)]
  · rw [List.append_nil] at hr
    simpa using (List.mem_filter.mp hr).2

theorem rebuiltAt {after : List Record} (arranged : Arranged (before.filter (stays gone) ++ news)
      ((lasting before).filter (fun r => !isRemovable r) ++ news) news after true position) :
    ∃ front back, Rebuilt (lasting after) lines true position front news back := by
  obtain ⟨front,back,order,rest,size⟩ := arranged.order rfl
  have alive : ∀ r ∈ news, r.flag "dynamic" = false := fun r hr => by
    obtain ⟨line,mem,mine⟩ := forallRight own hr
    exact (plain line mem).flagOwn mine (by decide)
  refine ⟨front,back,?_,own,fun r hr => ?_,fun _ => size⟩
  · rw [← order]
    refine List.filter_congr fun r hr => ?_
    rw [Bool.eq_iff_iff,List.contains_iff_mem,← survivors distinct leave,List.mem_append]
    rcases List.mem_append.mp (arranged.perm.mem_iff.mp hr) with mem | mem
    · refine ⟨fun lives => .inl (List.mem_filter.mpr ⟨mem,lives⟩),fun part => ?_⟩
      rcases part with part | part
      · exact (List.mem_filter.mp part).2
      · simp [alive r part]
    · exact ⟨fun _ => .inr mem,fun _ => by simp [alive r mem]⟩
  · rw [rest] at hr
    obtain ⟨part,out⟩ := List.mem_filter.mp hr
    rcases List.mem_append.mp part with part | part
    · simpa using (List.mem_filter.mp part).2
    · simp [part] at out

end Rebuild

theorem rebuildArranges {before : List Record} {next position : Nat} {w : View}
    {lines : List Criteria} {ordered : Bool} {p : Progress} {gone names : List ItemId}
    {values : List Assignments} (distinct : (ids before).Nodup)
    (unused : ∀ n, next ≤ n → n ≤ maxWord64 → some (newId n) ∉ ids before)
    (word : w.nextId ≤ maxWord64) (plain : ∀ line ∈ lines, line.Plain) (fit : Fit (lasting before) p)
    (build : Rebuild lines gone values p)
    (leave : gone.map some = ids ((lasting before).filter isRemovable))
    (named : ordered = true →
      names.map some = ids ((lasting before).filter (fun r => !isRemovable r)))
    (reached : (View.mk before next []).run 0 (p.operations ++ if ordered then
      reposition (names.map .existing ++ p.block.filter isAdded) p.block position else []) = some w) :
    ∃ front news back, Rebuilt (lasting w.records) lines ordered position front news back := by
  have own := build.news next
  have whole : View.edited before next p.operations =
      before.filter (stays gone) ++ (arrivals 0 next p.operations).map Prod.snd := by
    rw [View.edited,build.removes,build.changes,List.map_id]
  have aimed : ∀ operation ∈ p.operations, ∀ id ∈ operation.aim?, some id ∈ ids before :=
    fun operation mem id aim =>
      List.map_subset _ (List.filter_subset_self _) (fit.aimed operation mem id aim)
  have free : ∀ n, next ≤ n → n < w.nextId → some (newId n) ∉ ids before :=
    fun n lower upper => unused n lower (by omega)
  cases ordered with
  | false =>
    obtain ⟨-,record,-,-,arranged⟩ := @View.rearranged ⟨before,next,[]⟩ w p.operations [] [] position
      false [] word distinct free fit.edits aimed (List.nil_sublist _) (fun _ => rfl) List.nodup_nil
      (by simp) reached
    have all := arranged.others (fun _ => true) (by simp)
    rw [whole,List.filter_true,List.filter_true] at all
    rw [all]
    exact ⟨_,_,_,rebuiltAtEnd distinct plain own leave⟩
  | true =>
    have only : p.block.filter isAdded = p.block := List.filter_eq_self.mpr build.block
    have numbers := fit.added next
    rw [numbers] at reached
    obtain ⟨-,record,-,newly,arranged⟩ := View.rearranged (v := ⟨before,next,[]⟩) true
      ((lasting before).filter (fun r => !isRemovable r)) word distinct free fit.edits aimed
      (by rw [build.removes,← survivors distinct leave]; exact List.filter_sublist)
      (namesStand (named rfl)) fit.distinct
      (fun item mem => List.mem_append_right _ (by rwa [← numbers,only])) reached
    have block : p.block.map record = (arrivals 0 next p.operations).map Prod.snd := by
      rw [← only,numbers,List.map_map]
      exact List.map_congr_left newly
    rw [whole,build.changes,List.map_id,block] at arranged
    obtain ⟨front,back,rebuilt⟩ := rebuiltAt distinct plain own leave arranged
    exact ⟨front,_,back,rebuilt⟩

end Reconcile

/-- A live run of a replacement that succeeds: planned again, it has nothing to do, and a check passes. Both
break off instead if a line has a value that cannot be compared with what a record holds afterwards. -/
theorem replaceSettles [PatternEngine] {τ : Type} [FileTransfer Replica τ] {options : RunOptions}
    {path : FacilityPath} {lines : List Criteria} {ordered : Bool} {position : Nat}
    {s s' : Session Replica τ} {outcome : Outcome} (sound : s.device.Sound)
    (plain : ∀ line ∈ lines, line.Plain) (live : options.dryRun = false)
    (ran : Session.runTask options (.facility ⟨path,.replace lines ordered position⟩) s =
      (.ok outcome,s'))
    (succeeded : outcome.failed = false) (word : s'.device.nextId ≤ maxWord64) :
    (¬Clash lines (lasting (s'.device.records path)) →
      (∃ plan, FacilityTask.plan ⟨path,.replace lines ordered position⟩ s'.device =
        (.ok plan,s'.device) ∧ plan.operations = []) ∧
      ∃ plan, FacilityTask.plan ⟨path,.check lines ordered position⟩ s'.device =
        (.ok plan,s'.device) ∧ plan.drift = false) ∧
    (Clash lines (lasting (s'.device.records path)) →
      FacilityTask.plan ⟨path,.replace lines ordered position⟩ s'.device = (.error .brokenOff,s'.device) ∧
      FacilityTask.plan ⟨path,.check lines ordered position⟩ s'.device = (.error .brokenOff,s'.device)) := by
  have several : (Mode.replace lines ordered position).shape ≠ .singleton := by
    cases ordered <;> simp [Mode.shape,Mode.shapeIf]
  obtain ⟨plan,planned,⟨added,reached⟩,beside⟩ := Session.liveRun live several ran succeeded
  obtain ⟨items,operations⟩ :=
    Reconcile.replacePlan plain (Reconcile.writingOk (mapErrorOk.mp planned)).1
  have described : Reconcile.describes (lasting (s'.device.records path)) lines ordered position =
      true := by
    rcases operations with ⟨described,nothing⟩ | ⟨p,gone,names,values,fit,build,leave,named,same⟩
    · rw [nothing] at reached
      have still : View.ofReplica s.device path [] = View.ofReplica s'.device path added :=
        Option.some.inj reached
      have records : s.device.records path = s'.device.records path := congrArg View.records still
      rw [← records]
      exact described
    · rw [same] at reached
      obtain ⟨front,news,back,rebuilt⟩ := Reconcile.rebuildArranges (sound.records path)
        (fun n lower upper => sound.unused items lower upper) word plain fit build leave named reached
      exact Reconcile.rebuiltDescribes plain rebuilt
  have left : s'.device.HasItems path := beside.items items
  constructor
  · refine fun clear => ⟨⟨.ofOperations ⟨path,Mode.shapeIf ordered⟩ [],mapErrorOk.mpr ?_,rfl⟩,
      { Plan.ofOperations ⟨path,Mode.shapeIf ordered⟩ [] with drift := false },mapErrorOk.mpr ?_,rfl⟩
    · exact Reconcile.writingDone (Reconcile.replaceDescribed (f := ⟨path,Mode.shapeIf ordered⟩) several
        left plain described clear)
    · exact bindAfter (Reconcile.checkDescribed (f := ⟨path,Mode.shapeIf ordered⟩) several left plain
        described clear) _
  · refine fun clash => ⟨FacilityTask.planBreaks ?_,FacilityTask.planBreaks ?_⟩
    · exact Reconcile.writingEnds (Reconcile.replaceBreaks (f := ⟨path,Mode.shapeIf ordered⟩) several left
        plain described clash)
    · exact bindFailed (Reconcile.checkBreaks (f := ⟨path,Mode.shapeIf ordered⟩) several left plain described
        clash) _

theorem poolLinePlain (name : String) : (poolLine name).Plain := .literal (by decide) _

theorem leaseLinesPlain : ∀ line ∈ leaseLines, line.Plain := by
  simp only [leaseLines,List.forall_mem_cons]
  exact ⟨.literal (by decide) _,.literal (by decide) _,by simp⟩

open scoped Pattern

theorem replaceSettlesPools : ∃ outcome after,
    poolRun (.replace [poolLine "new",poolLine "lan"] true 1) = (.ok outcome,after) ∧
    outcome.failed = false ∧
    ¬Clash [poolLine "new",poolLine "lan"] (lasting (after.device.records ⟨"/ip pool"⟩)) ∧
    (∃ plan, FacilityTask.plan ⟨⟨"/ip pool"⟩,.replace [poolLine "new",poolLine "lan"] true 1⟩
      after.device = (.ok plan,after.device) ∧ plan.operations = []) ∧
    ∃ plan, FacilityTask.plan ⟨⟨"/ip pool"⟩,.check [poolLine "new",poolLine "lan"] true 1⟩
      after.device = (.ok plan,after.device) ∧ plan.drift = false := by
  have clear : ¬Clash [poolLine "new",poolLine "lan"] (lasting
      ((poolRun (.replace [poolLine "new",poolLine "lan"] true 1)).2.device.records ⟨"/ip pool"⟩)) := by
    decide +kernel
  obtain ⟨outcome,after,ran,succeeded,word⟩ :=
    poolRan (.replace [poolLine "new",poolLine "lan"] true 1) (by decide +kernel)
  rw [ran] at clear
  exact ⟨outcome,after,ran,succeeded,clear,
    (replaceSettles poolsSound (by simp [poolLinePlain]) rfl ran succeeded word).1 clear⟩

-- The records that a rebuild has made for these lines can be judged by none of them.
theorem leasesUnsettled : (∀ line ∈ leaseLines, line.Plain) ∧
    ∃ outcome after, poolRun (.replace leaseLines false 1) = (.ok outcome,after) ∧ outcome.failed = false ∧
      (FacilityTask.plan ⟨⟨"/ip pool"⟩,.replace leaseLines false 1⟩ after.device).1 = .error .brokenOff ∧
      (FacilityTask.plan ⟨⟨"/ip pool"⟩,.check leaseLines false 1⟩ after.device).1 = .error .brokenOff := by
  have broken : (FacilityTask.plan ⟨⟨"/ip pool"⟩,.replace leaseLines false 1⟩
        (poolRun (.replace leaseLines false 1)).2.device).1 = .error .brokenOff ∧
      (FacilityTask.plan ⟨⟨"/ip pool"⟩,.check leaseLines false 1⟩
        (poolRun (.replace leaseLines false 1)).2.device).1 = .error .brokenOff := by decide +kernel
  obtain ⟨outcome,after,ran,succeeded,-⟩ := poolRan (.replace leaseLines false 1) (by decide +kernel)
  rw [ran] at broken
  exact ⟨leaseLinesPlain,outcome,after,ran,succeeded,broken⟩

end RouterReconciler

import RouterReconciler.Proofs.Reconcile.Adjust
import RouterReconciler.Proofs.Reconcile.Claims
import RouterReconciler.Proofs.Reconcile.Judgeable
import RouterReconciler.Proofs.Reconcile.Present

/-! What presence and adjustment share: lines are served from the records, what is missing is added, and
what no line claims is kept or removed. A run leaves a record for every line, with nothing left to write,
and nothing else that would be removed. Without an order the same lines claim these records again; with an
order they stand together, in line order. -/
namespace RouterReconciler
open Replica Text Reconcile

def Reconcile.keysEnd (keys : List String) (line : Criteria) (r : Record) : Bool :=
  match keysMatch line r keys with
  | .ok same => same
  | .error _ => true

/-- How records are brought in line with lines. -/
structure Alignment where
  fits : Criteria → Record → Bool
  /-- Whether the search for the record of a line ends at a record: it fits, or it cannot be judged. -/
  ends : Criteria → Record → Bool
  settled : Criteria → Record → Prop
  loose : Record → Bool
  complete : Bool
  jams : List Criteria → List Record → Prop

namespace Alignment

def present [PatternEngine] : Alignment := ⟨meets,meets,fun _ _ => True,fun _ => false,false,Clash⟩

def adjust (keys : List String) : Alignment := ⟨keysMeet keys,keysEnd keys,
  fun line r => ∃ desired, line.setValues = .ok desired ∧ differing desired r = .ok ∅,isRemovable,true,
  fun _ _ => False⟩

def givesUp (a : Alignment) (block : List ItemRef) (r : Record) : Bool :=
  !mentions block r && a.loose r

end Alignment

inductive Aligns [PatternEngine] (lines : List Criteria) (ordered : Bool) (position : Nat) : Mode → Alignment → Prop
  | present (missing : Missing) :
      Aligns lines ordered position (.present lines ordered position missing) .present
  | adjust (keys : List String) :
      Aligns lines ordered position (.adjust lines keys ordered position) (.adjust keys)

structure Pictures (rs : List Record) (next : Nat) (p : Progress) (record : ItemRef → Record) : Prop where
  old : ∀ r ∈ rs, ∀ id ∈ r.id, .existing id ∈ p.block → record (.existing id) = changed p.operations r
  new : ∀ a ∈ arrivals 0 next p.operations, record (.added a.1) = a.2
  apart : ∀ a ∈ arrivals 0 next p.operations, a.2.id ∉ ids rs

structure Laid (a : Alignment) (rs : List Record) (lines : List Criteria) (ordered : Bool)
    (position : Nat) (p : Progress) (gone : List ItemId) (operations : List Operation) : Prop where
  fit : Fit rs p
  keeps : removed p.operations = []
  leaves : gone.map some = ids (rs.filter (a.givesUp p.block))
  named : (ordered || a.complete) = true → ∀ r ∈ rs, r.id.isSome
  operations : operations = p.operations ++ (if ordered then
    reposition (handles (rs.filter fun r => !a.givesUp p.block r) ++ p.block.filter isAdded) p.block
      position else []) ++ gone.map .remove
  same : ∀ r ∈ rs, ∀ line ∈ lines, a.ends line (changed p.operations r) = a.ends line r
  alive : ∀ r ∈ rs, (changed p.operations r).flag "dynamic" = r.flag "dynamic"
  newAlive : ∀ next, ∀ x ∈ arrivals 0 next p.operations, x.2.flag "dynamic" = false
  served : ∀ next record, Pictures rs next p record → Served a.ends rs (changed p.operations) [] lines
    (p.block.map record) ((arrivals 0 next p.operations).map Prod.snd)
  fitting : ∀ next record, Pictures rs next p record →
    List.Forall₂ (fun line r => a.fits line r = true) lines (p.block.map record)
  settled : ∀ next record, Pictures rs next p record →
    List.Forall₂ a.settled lines (p.block.map record)

structure Rests (a : Alignment) (rs : List Record) (lines : List Criteria) (ordered : Bool)
    (block : List Record) : Prop where
  distinct : (ids rs).Nodup
  settled : List.Forall₂ a.settled lines block
  firm : ∀ r ∈ rs, r.id ∉ ids block → a.loose r = false
  named : (ordered || a.complete) = true → ∀ r ∈ rs, r.id.isSome
  there : ∀ r ∈ block, r ∈ rs ∧ r.id.isSome

section Laid
variable {a : Alignment} {before : List Record} {lines : List Criteria} {ordered : Bool}
  {position next : Nat} {p : Progress} {gone : List ItemId} {operations : List Operation}
  {record : ItemRef → Record}
  (laid : Laid a (lasting before) lines ordered position p gone operations)
  (distinct : (ids before).Nodup)
include laid distinct

theorem Laid.untouched {r : Record} (hr : r ∈ before)
    (out : r ∈ lasting before → mentions p.block r = false) : changed p.operations r = r := by
  refine changedUnset fun id values mem named => ?_
  obtain ⟨x,hx,same⟩ := List.mem_map.mp (laid.fit.aimed _ mem id rfl)
  cases sameRecord distinct (List.mem_filter.mp hx).1 hr (same.trans named.symm)
  have there := laid.fit.written id values mem
  have loose := out hx
  simp [mentions,named,there] at loose

theorem Laid.spared {r : Record} (hr : r ∈ lasting before) :
    stays gone r = !a.givesUp p.block r := by
  rw [staysUnless distinct laid.leaves (List.mem_filter.mp hr).1,aliveOfLasting hr]
  rfl

theorem Laid.flagged {r : Record} (hr : r ∈ before) :
    (changed p.operations r).flag "dynamic" = r.flag "dynamic" := by
  by_cases counts : r ∈ lasting before
  · exact laid.alive r counts
  · rw [laid.untouched distinct hr fun there => absurd there counts]

theorem Laid.counted {r : Record}
    (apart : (ids (before.map (changed p.operations) ++
      (arrivals 0 next p.operations).map Prod.snd)).Nodup)
    (hr : r ∈ before.map (changed p.operations) ++ (arrivals 0 next p.operations).map Prod.snd) :
    (!r.flag "dynamic") = !(ids (fleeting before)).contains r.id := by
  rcases List.mem_append.mp hr with mem | mem
  · obtain ⟨x,hx,rfl⟩ := List.mem_map.mp mem
    rw [laid.flagged distinct hx,changedId,Bool.eq_iff_iff,notFleeting distinct hx,lasting,
      List.mem_filter]
    exact ⟨fun alive => ⟨hx,alive⟩,And.right⟩
  · obtain ⟨x,hx,rfl⟩ := List.mem_map.mp mem
    have away := apartFleeting (newOutside apart mem)
    simp [laid.newAlive next x hx,away]

omit distinct in
theorem Laid.newStays {r : Record} (out : r.id ∉ ids before) : stays gone r = true := by
  rw [View.staysNamed,laid.leaves,Bool.not_eq_true',← Bool.not_eq_true,List.contains_iff_mem]
  intro mem
  exact out (List.map_subset _ (List.Subset.trans (List.filter_subset_self _)
    (List.filter_subset_self _)) mem)

end Laid

structure Reached (before : List Record) (next : Nat) (p : Progress) (gone : List ItemId)
    (record : ItemRef → Record) (u after : List Record) : Prop where
  apart : (ids (before.map (changed p.operations) ++
    (arrivals 0 next p.operations).map Prod.snd)).Nodup
  pictures : Pictures (lasting before) next p record
  perm : u.Perm (before.map (changed p.operations) ++ (arrivals 0 next p.operations).map Prod.snd)
  final : after = u.filter (stays gone)

section Reached
variable {a : Alignment} {before u after : List Record} {lines : List Criteria} {ordered : Bool}
  {position next : Nat} {p : Progress} {gone : List ItemId} {operations : List Operation}
  {record : ItemRef → Record}
  (laid : Laid a (lasting before) lines ordered position p gone operations)
  (distinct : (ids before).Nodup) (reached : Reached before next p gone record u after)
include laid distinct reached

theorem Reached.mem {r : Record} : r ∈ lasting after ↔
    (∃ x ∈ lasting before, a.givesUp p.block x = false ∧ r = changed p.operations x) ∨
      r ∈ (arrivals 0 next p.operations).map Prod.snd := by
  rw [lasting,reached.final,List.filter_filter,List.mem_filter,reached.perm.mem_iff,List.mem_append]
  constructor
  · rintro ⟨mem | mem,both⟩
    · obtain ⟨x,hx,rfl⟩ := List.mem_map.mp mem
      rw [laid.counted distinct reached.apart (List.mem_append_left _ mem),changedId,Bool.and_eq_true,
        Bool.not_eq_true',← Bool.not_eq_true,List.contains_iff_mem,← memLasting distinct hx] at both
      refine .inl ⟨x,both.1,?_,rfl⟩
      have stay := both.2
      rw [stays,changedId,← stays,laid.spared distinct both.1] at stay
      simpa using stay
    · exact .inr mem
  · rintro (⟨x,hx,keeps,rfl⟩ | mem)
    · have there := (List.mem_filter.mp hx).1
      have inside : changed p.operations x ∈ before.map (changed p.operations) :=
        List.mem_map_of_mem there
      refine ⟨.inl inside,?_⟩
      rw [laid.alive x hx,aliveOfLasting hx,stays,changedId,← stays,laid.spared distinct hx,keeps]
      rfl
    · obtain ⟨x,hx,rfl⟩ := List.mem_map.mp mem
      have stay := laid.newStays (newOutside reached.apart mem)
      exact ⟨.inr mem,by simp [laid.newAlive next x hx,stay]⟩

omit laid distinct in
theorem Reached.mentioned {r : Record} (hr : r ∈ lasting before)
    (mention : mentions p.block r = true) : changed p.operations r ∈ p.block.map record := by
  obtain ⟨id,named,mem⟩ := memMentions.mp mention
  rw [← reached.pictures.old r hr id named mem]
  exact List.mem_map_of_mem mem

omit laid distinct in
theorem Reached.mention (fit : Fit (lasting before) p) {r : Record} (hr : r ∈ lasting before)
    (mem : changed p.operations r ∈ p.block.map record) : mentions p.block r = true := by
  obtain ⟨item,mem,shows⟩ := List.mem_map.mp mem
  cases item with
  | existing id =>
    obtain ⟨x,hx,named⟩ := List.mem_map.mp (fit.existing id mem)
    have same := congrArg Record.id (shows.symm.trans (reached.pictures.old x hx id named mem))
    rw [changedId,changedId,named] at same
    exact memMentions.mpr ⟨id,same,mem⟩
  | added n =>
    obtain ⟨x,hx⟩ := fit.arrival next mem
    rw [reached.pictures.new _ hx] at shows
    refine absurd ?_ (reached.pictures.apart _ hx)
    rw [shows,changedId]
    exact List.mem_map_of_mem hr

omit laid distinct in
theorem Reached.idsApart : (ids after).Nodup := by
  rw [reached.final]
  exact ((idsPerm reached.perm).nodup_iff.mpr reached.apart).sublist (List.filter_sublist.map _)

theorem Reached.rests : Rests a (lasting after) lines ordered (p.block.map record) := by
  refine ⟨lastingDistinct reached.idsApart,laid.settled next record reached.pictures,fun r hr out => ?_,
    fun needed r hr => ?_,fun r hr => ?_⟩
  · rcases (reached.mem laid distinct).mp hr with ⟨x,hx,keeps,rfl⟩ | mem
    · have loose : mentions p.block x = false := by
        cases mention : mentions p.block x with
        | false => rfl
        | true => exact absurd (List.mem_map_of_mem (reached.mentioned hx mention)) out
      rw [laid.untouched distinct (List.mem_filter.mp hx).1 fun _ => loose]
      simpa [Alignment.givesUp,loose] using keeps
    · exact absurd (newsListed reached.pictures.new (laid.fit.added next) mem) out
  · rcases (reached.mem laid distinct).mp hr with ⟨x,hx,-,rfl⟩ | mem
    · rw [changedId]
      exact laid.named needed x hx
    · obtain ⟨x,hx,rfl⟩ := List.mem_map.mp mem
      obtain ⟨n,values,_,-,same⟩ := arrivalAdded hx
      rw [same,newRecordId]
      rfl
  · obtain ⟨item,mem,rfl⟩ := List.mem_map.mp hr
    cases item with
    | existing id =>
      obtain ⟨x,hx,named⟩ := List.mem_map.mp (laid.fit.existing id mem)
      rw [reached.pictures.old x hx id named mem,changedId,named]
      have mention : mentions p.block x = true := memMentions.mpr ⟨id,named,mem⟩
      exact ⟨(reached.mem laid distinct).mpr (.inl ⟨x,hx,by simp [Alignment.givesUp,mention],rfl⟩),rfl⟩
    | added n =>
      obtain ⟨x,hx⟩ := laid.fit.arrival next mem
      obtain ⟨m,values,_,-,new⟩ := arrivalAdded hx
      rw [reached.pictures.new _ hx]
      refine ⟨(reached.mem laid distinct).mpr (.inr (List.mem_map_of_mem hx)),?_⟩
      rw [new,newRecordId]
      rfl

end Reached

section Run
variable {a : Alignment} {before : List Record} {lines : List Criteria} {ordered : Bool}
  {position next : Nat} {p : Progress} {gone : List ItemId} {operations : List Operation} {w : View}
  (laid : Laid a (lasting before) lines ordered position p gone operations)
  (distinct : (ids before).Nodup)
  (unused : ∀ n, next ≤ n → n ≤ maxWord64 → some (newId n) ∉ ids before)
  (word : w.nextId ≤ maxWord64)
include laid distinct unused word

theorem Laid.carried (moved : Bool) (kept : List Record) (block : List ItemRef)
    (part : kept.Sublist (lasting before)) (complete : ∀ r ∈ kept, r.id.isSome)
    (keeps : ∀ r ∈ lasting before, mentions p.block r = true → r ∈ kept) (once : block.Nodup)
    (inside : block ⊆ handles kept ++ p.block.filter isAdded)
    (ran : (View.mk before next []).run 0 (p.operations ++ (if moved then
      reposition (handles kept ++ p.block.filter isAdded) block position else []) ++
        gone.map .remove) = some w) :
    ∃ u record, Reached before next p gone record u w.records ∧
      Arranged (before.map (changed p.operations) ++ (arrivals 0 next p.operations).map Prod.snd)
        (kept.map (changed p.operations) ++ (arrivals 0 next p.operations).map Prod.snd)
        (block.map record) u moved position := by
  rw [View.runAppend] at ran
  obtain ⟨u,arranging,removal⟩ := Option.bind_eq_some_iff.mp ran
  obtain ⟨names,named⟩ := completeNames complete
  rw [handlesNamed named] at inside arranging
  rw [laid.fit.added next] at inside arranging
  have later : u.nextId ≤ w.nextId := View.runNext removal
  have allStay : before.filter (stays (removed p.operations)) = before := by
    rw [laid.keeps,staysNil]; simp
  have under : lasting before ⊆ before := List.filter_subset_self _
  obtain ⟨apart,record,standing,newly,arranged⟩ := View.rearranged (v := ⟨before,next,[]⟩) moved kept
    (by omega) distinct (fun n lower upper => unused n lower (by omega)) laid.fit.edits
    (fun operation mem id aim => List.map_subset _ under (laid.fit.aimed operation mem id aim))
    (by rw [allStay]; exact part.trans List.filter_sublist) (namesStand named) once
    (fun item mem => inside mem) arranging
  rw [View.edited,allStay] at apart arranged
  have distinctNow : (ids u.records).Nodup := (idsPerm arranged.perm).nodup_iff.mpr apart
  refine ⟨u.records,record,⟨apart,⟨fun r hr id same mem => ?_,newly,fun x hx there => ?_⟩,
    arranged.perm,(View.removalsRun distinctNow removal).1⟩,arranged⟩
  · have mention : mentions p.block r = true := memMentions.mpr ⟨id,same,mem⟩
    exact namesTold named standing r (keeps r hr mention) id same
  · exact newOutside apart (List.mem_map_of_mem hx) (List.map_subset _ under there)

end Run

section Unordered
variable {a : Alignment} {before : List Record} {lines : List Criteria} {position next : Nat}
  {p : Progress} {gone : List ItemId} {operations : List Operation} {w : View}

-- Without an order the lines claim the records that they have been served with.
theorem Laid.unordered (laid : Laid a (lasting before) lines false position p gone operations)
    (distinct : (ids before).Nodup)
    (unused : ∀ n, next ≤ n → n ≤ maxWord64 → some (newId n) ∉ ids before)
    (word : w.nextId ≤ maxWord64) (ran : (View.mk before next []).run 0 operations = some w) :
    ∃ block, Rests a (lasting w.records) lines false block ∧
      List.Forall₂ (fun line r => a.fits line r = true) lines block ∧
      Claims a.ends (lasting w.records) [] lines block := by
  rw [laid.operations] at ran
  obtain ⟨u,record,reached,arranged⟩ := laid.carried distinct unused word false
    ((lasting before).filter (mentions p.block)) [] List.filter_sublist
    (fun r hr => by
      obtain ⟨id,named,-⟩ := memMentions.mp (List.mem_filter.mp hr).2
      rw [named]; rfl)
    (fun r hr mention => List.mem_filter.mpr ⟨hr,mention⟩) List.nodup_nil (List.nil_subset _) ran
  have whole := arranged.others (fun _ => true) (by simp)
  rw [List.filter_true,List.filter_true] at whole
  refine ⟨p.block.map record,reached.rests laid distinct,laid.fitting next record reached.pictures,?_⟩
  have left : lasting w.records = ((lasting before).filter (stays gone)).map (changed p.operations) ++
      (arrivals 0 next p.operations).map Prod.snd := by
    rw [lasting,reached.final,whole,List.filter_filter,List.filter_append,List.filter_map]
    congr 1
    · rw [lasting,List.filter_filter]
      congr 1
      refine List.filter_congr fun r hr => ?_
      rw [Function.comp_apply,laid.flagged distinct hr,stays,changedId,← stays,Bool.and_comm]
    · refine List.filter_eq_self.mpr fun r hr => ?_
      obtain ⟨x,hx,rfl⟩ := List.mem_map.mp hr
      simp [laid.newAlive next x hx,laid.newStays (newOutside reached.apart hr)]
  rw [left]
  refine (laid.served next record reached.pictures).again [] (changedId _) laid.same
    (fun r hr mem => ?_) ?_ (by simp) (by simp)
  · rw [laid.spared distinct hr,Alignment.givesUp,reached.mention laid.fit hr mem]
    rfl
  · have apart := reached.apart
    rw [ids,List.map_append] at apart ⊢
    rw [← ids,idsChanged] at apart
    exact apart.sublist ((List.filter_sublist.map _).append_right _)

theorem Laid.inOrder (laid : Laid a (lasting before) lines true position p gone operations)
    (distinct : (ids before).Nodup)
    (unused : ∀ n, next ≤ n → n ≤ maxWord64 → some (newId n) ∉ ids before)
    (word : w.nextId ≤ maxWord64) (ran : (View.mk before next []).run 0 operations = some w) :
    ∃ front block back, lasting w.records = front ++ block ++ back ∧
      (front ++ back).Sublist (lasting before) ∧
      front.length = min (position - 1) (front ++ back).length ∧
      List.Forall₂ (fun line r => a.fits line r = true) lines block ∧
      Rests a (lasting w.records) lines true block ∧ (ids w.records).Nodup := by
  rw [laid.operations] at ran
  have keeps : ∀ r ∈ lasting before, mentions p.block r = true →
      r ∈ (lasting before).filter (fun r => !a.givesUp p.block r) :=
    fun r hr mention => List.mem_filter.mpr ⟨hr,by simp [Alignment.givesUp,mention]⟩
  obtain ⟨u,record,reached,arranged⟩ := laid.carried distinct unused word true _ p.block
    List.filter_sublist
    (fun r hr => laid.named rfl r (List.mem_filter.mp hr).1) keeps laid.fit.distinct
    (fun item mem => by
      cases item with
      | existing id =>
        obtain ⟨x,hx,named⟩ := List.mem_map.mp (laid.fit.existing id mem)
        exact List.mem_append_left _ (handleOf (keeps x hx (memMentions.mpr ⟨id,named,mem⟩)) named)
      | added n => exact List.mem_append_right _ (List.mem_filter.mpr ⟨mem,rfl⟩)) ran
  have under : lasting before ⊆ before := List.filter_subset_self _
  obtain ⟨front,back,order,rest,size⟩ := arranged.inOrder
    (fun id values mem => by
      have wrote := laid.fit.written id values mem
      obtain ⟨x,hx,named⟩ := List.mem_map.mp (laid.fit.existing id wrote)
      refine List.mem_map.mpr ⟨_,List.mem_map_of_mem wrote,?_⟩
      rw [reached.pictures.old x hx id named wrote,changedId]
      exact named)
    (fun r hr => newsListed reached.pictures.new (laid.fit.added next) hr)
    (fun id => !(ids (fleeting before)).contains id && !(gone.map some).contains id) rfl reached.apart
    (fun r hr => under (List.mem_filter.mp hr).1)
    (fun r hr => by
      rw [List.mem_filter,Bool.and_eq_true,notFleeting distinct hr,← View.staysNamed]
      exact and_congr_right fun counts => by rw [laid.spared distinct counts])
    (fun r hr => by
      have out := newOutside reached.apart hr
      have away := apartFleeting out
      have stay := laid.newStays out
      rw [View.staysNamed] at stay
      rw [Bool.and_eq_true]
      exact ⟨by simp [away],stay⟩)
  have counted : lasting w.records = front ++ p.block.map record ++ back := by
    rw [← order,lasting,reached.final,List.filter_filter]
    refine List.filter_congr fun r hr => ?_
    rw [laid.counted distinct reached.apart (reached.perm.mem_iff.mp hr),View.staysNamed]
  refine ⟨front,p.block.map record,back,counted,?_,size,?_,reached.rests laid distinct,reached.idsApart⟩
  · rw [rest]
    exact List.filter_sublist.trans List.filter_sublist
  · exact laid.fitting next record reached.pictures

end Unordered
end RouterReconciler

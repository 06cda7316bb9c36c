import RouterReconciler.Proofs.Device.Edits
import RouterReconciler.Proofs.Placement.Moves
import RouterReconciler.Reconcile.Basic

/-! The last part of an ordered plan: its moves carry the records that its references stand for, and
bring those of the block together at the position. Records that no reference names may lie anywhere
in between. -/
namespace RouterReconciler
open Replica Placement Reconcile Text

def recordOf (rs : List Record) (added : Session.AddedIds) (item : ItemRef) : Record :=
  (rs.find? (fun r => r.id == View.refId added item)).getD default

theorem recordOfRef {rs : List Record} {added : Session.AddedIds} {item : ItemRef} {r : Record}
    (distinct : (ids rs).Nodup) (mem : r ∈ rs) (h : View.refId added item = r.id) :
    recordOf rs added item = r := by
  have there : (rs.find? (fun r => r.id == View.refId added item)).isSome :=
    List.find?_isSome.mpr ⟨r,mem,by simp [h]⟩
  obtain ⟨x,found⟩ := Option.isSome_iff_exists.mp there
  have same : x.id = r.id := by simpa [h] using List.find?_some found
  rw [recordOf,found,Option.getD_some]
  exact sameRecord distinct (List.mem_of_find?_eq_some found) mem same

theorem recordsOfRefs {rs part : List Record} {added : Session.AddedIds} {items : List ItemRef}
    (distinct : (ids rs).Nodup) (inside : ∀ r ∈ part, r ∈ rs)
    (h : items.map (View.refId added) = ids part) : items.map (recordOf rs added) = part := by
  induction items generalizing part with
  | nil => cases part with
    | nil => rfl
    | cons r rest => cases h
  | cons item items ih =>
    cases part with
    | nil => cases h
    | cons r rest =>
      obtain ⟨first,later⟩ := List.cons.inj h
      rw [List.map_cons,recordOfRef distinct (inside r List.mem_cons_self) first,
        ih (fun x hx => inside x (List.mem_cons_of_mem _ hx)) later]

theorem filterSublist {α : Type} [DecidableEq α] {l part : List α} (distinct : l.Nodup)
    (h : part.Sublist l) : l.filter part.contains = part := by
  have kept : part.Sublist (l.filter part.contains) :=
    List.sublist_filter_iff.mpr ⟨part,h,(List.filter_eq_self.mpr (by simp)).symm⟩
  refine (kept.eq_of_length_le ?_).symm
  refine ((distinct.sublist List.filter_sublist).subperm fun x hx => ?_).length_le
  simpa using (List.mem_filter.mp hx).2

structure Arranged (whole part block after : List Record) (ordered : Bool) (position : Nat) : Prop where
  perm : after.Perm whole
  others : ∀ p : Record → Bool, (∀ r ∈ block, p r = false) → after.filter p = whole.filter p
  order : ordered = true → ∃ front back, after.filter part.contains = front ++ block ++ back ∧
    front ++ back = part.filter (fun r => !block.contains r) ∧
    front.length = min (position - 1) (front ++ back).length

def outside (names : List (Option ItemId)) (r : Record) : Bool := !names.contains r.id

theorem containsNamed {rs part : List Record} (distinct : (ids rs).Nodup) (inside : part ⊆ rs)
    {r : Record} (hr : r ∈ rs) : part.contains r = (ids part).contains r.id := by
  rw [Bool.eq_iff_iff,List.contains_iff_mem,List.contains_iff_mem]
  refine ⟨fun mem => List.mem_map_of_mem mem,fun mem => ?_⟩
  obtain ⟨x,hx,same⟩ := List.mem_map.mp mem
  exact sameRecord distinct (inside hx) hr same ▸ hx

theorem changedOutside {operations : List Operation} {names : List (Option ItemId)}
    (aimed : ∀ id values, .set (some id) values ∈ operations → some id ∈ names) (rs : List Record) :
    (rs.map (changed operations)).filter (outside names) = rs.filter (outside names) := by
  have same : outside names ∘ changed operations = outside names := by
    funext r
    simp only [Function.comp_apply,outside,changedId]
  rw [List.filter_map,same]
  refine (List.map_congr_left fun r hr => ?_).trans (List.map_id _)
  have free := (List.mem_filter.mp hr).2
  refine changedUnset fun id values mem named => ?_
  have there := aimed id values mem
  simp [outside,named,there] at free

theorem newOutside {old news : List Record} {operations : List Operation}
    (distinct : (ids (old.map (changed operations) ++ news)).Nodup) {r : Record} (hr : r ∈ news) :
    r.id ∉ ids old := by
  intro mem
  rw [ids,List.map_append] at distinct
  rw [← idsChanged operations] at mem
  exact (List.nodup_append.mp distinct).2.2 _ mem _ (List.mem_map_of_mem hr) rfl

theorem newsListed {operations : List Operation} {next : Nat} {block : List ItemRef}
    {record : ItemRef → Record} (newly : ∀ a ∈ arrivals 0 next operations, record (.added a.1) = a.2)
    (added : block.filter isAdded = (arrivals 0 next operations).map (fun a => ItemRef.added a.1))
    {r : Record} (hr : r ∈ (arrivals 0 next operations).map Prod.snd) :
    r.id ∈ ids (block.map record) := by
  obtain ⟨a,ha,rfl⟩ := List.mem_map.mp hr
  have mem : ItemRef.added a.1 ∈ block.filter isAdded := by
    rw [added]; exact List.mem_map.mpr ⟨a,ha,rfl⟩
  rw [← newly a ha]
  exact List.mem_map_of_mem (List.mem_map_of_mem (List.mem_filter.mp mem).1)

section Arranged
variable {old kept news block after : List Record} {operations : List Operation} {ordered : Bool}
  {position : Nat}
  (arranged : Arranged (old.map (changed operations) ++ news) (kept.map (changed operations) ++ news)
    block after ordered position)
  (aimed : ∀ id values, .set (some id) values ∈ operations → some id ∈ ids block)
  (newInside : ∀ r ∈ news, r.id ∈ ids block)
include aimed newInside

theorem outsideEdited (rs : List Record) :
    (rs.map (changed operations) ++ news).filter (outside (ids block)) =
      rs.filter (outside (ids block)) := by
  have none : news.filter (outside (ids block)) = [] := by
    refine List.filter_eq_nil_iff.mpr fun r hr => ?_
    have there := newInside r hr
    simp [outside,there]
  rw [List.filter_append,changedOutside aimed,none,List.append_nil]

include arranged

theorem Arranged.outsiders : after.filter (outside (ids block)) = old.filter (outside (ids block)) := by
  rw [arranged.others,outsideEdited aimed newInside]
  intro r hr
  have there : r.id ∈ ids block := List.mem_map_of_mem hr
  simp [outside,there]

theorem Arranged.inOrder (inPart : Option ItemId → Bool) (moved : ordered = true)
    (distinct : (ids (old.map (changed operations) ++ news)).Nodup) (inside : kept ⊆ old)
    (told : ∀ r ∈ old, r ∈ kept ↔ inPart r.id = true) (new : ∀ r ∈ news, inPart r.id = true) :
    ∃ front back, after.filter (fun r => inPart r.id) = front ++ block ++ back ∧
      front ++ back = kept.filter (outside (ids block)) ∧
      front.length = min (position - 1) (front ++ back).length := by
  obtain ⟨front,back,order,rest,size⟩ := arranged.order moved
  have partInside : kept.map (changed operations) ++ news ⊆ old.map (changed operations) ++ news :=
    fun r hr => List.mem_append.mpr ((List.mem_append.mp hr).imp_left fun mem =>
      List.map_subset _ inside mem)
  refine ⟨front,back,?_,?_,size⟩
  · rw [← order]
    refine List.filter_congr fun r hr => ?_
    rw [Bool.eq_iff_iff,List.contains_iff_mem]
    rcases List.mem_append.mp (arranged.perm.mem_iff.mp hr) with mem | mem
    · obtain ⟨x,hx,rfl⟩ := List.mem_map.mp mem
      rw [changedId,← told x hx]
      refine ⟨fun mem => List.mem_append_left _ (List.mem_map_of_mem mem),fun mem => ?_⟩
      refine (told x hx).mpr ?_
      rw [← changedId operations x]
      rcases List.mem_append.mp mem with mem | mem
      · obtain ⟨y,hy,same⟩ := List.mem_map.mp mem
        rw [← same,changedId]
        exact (told y (inside hy)).mp hy
      · exact new _ mem
    · exact ⟨fun _ => List.mem_append_right _ mem,fun _ => new r mem⟩
  · have blockInside : block ⊆ old.map (changed operations) ++ news := by
      intro r hr
      have placed : r ∈ after.filter (kept.map (changed operations) ++ news).contains := by
        rw [order]; simp [hr]
      exact arranged.perm.mem_iff.mp (List.mem_filter.mp placed).1
    have named : ∀ r ∈ kept.map (changed operations) ++ news,
        (!block.contains r) = outside (ids block) r :=
      fun r hr => congrArg not (containsNamed distinct blockInside (partInside hr))
    rw [rest,List.filter_congr named,outsideEdited aimed newInside]

end Arranged

namespace View

theorem moveCarry {index : Nat} {v w : View} {item : ItemRef} {before : Option ItemRef}
    {rs : List Record} (perm : rs.Perm v.records) (distinct : (ids rs).Nodup)
    (h : v.step index (.move item before) = some w) :
    carry v.records (recordOf rs v.added item,before.map (recordOf rs v.added)) = some w.records ∧
      w.nextId = v.nextId ∧ w.added = v.added := by
  obtain ⟨id,named,place,anchored,i,found,r,taken,moved,arranged,rfl⟩ := stepMove.mp h
  have distinctNow : (ids v.records).Nodup := (idsPerm perm).nodup_iff.mp distinct
  obtain ⟨mem,rId,anchor,anchorId,there,carried⟩ := relocateCarry distinctNow found taken arranged
  have itself : recordOf rs v.added item = r :=
    recordOfRef distinct (perm.mem_iff.mpr mem) (named.trans rId.symm)
  have next : before.map (recordOf rs v.added) = anchor := by
    cases before with
    | none =>
      cases anchored
      cases anchor with
      | none => rfl
      | some b => cases anchorId
    | some other =>
      obtain ⟨otherId,hid,rfl⟩ := Option.map_eq_some_iff.mp anchored
      cases anchor with
      | none => cases anchorId
      | some b =>
        have bId : b.id = some otherId := Option.some.inj anchorId
        rw [Option.map_some,recordOfRef distinct (perm.mem_iff.mpr (there b rfl)) (hid.trans bId.symm)]
  rw [itself,next]
  exact ⟨carried,rfl,rfl⟩

theorem movesRun {index : Nat} {v w : View} {ms : List (ItemRef × Option ItemRef)}
    {rs : List Record} (perm : rs.Perm v.records) (distinct : (ids rs).Nodup)
    (h : v.run index (ms.map fun m => .move m.1 m.2) = some w) :
    carryAll v.records (ms.map (Prod.map (recordOf rs v.added) (Option.map (recordOf rs v.added)))) =
      some w.records ∧ w.nextId = v.nextId ∧ w.added = v.added := by
  induction ms generalizing index v with
  | nil => cases h; exact ⟨rfl,rfl,rfl⟩
  | cons m rest ih =>
    obtain ⟨u,stepped,ran⟩ := Option.bind_eq_some_iff.mp h
    obtain ⟨carried,next,added⟩ := moveCarry perm distinct stepped
    obtain ⟨all,lastNext,lastAdded⟩ := ih (perm.trans (carryPerm carried).symm) ran
    rw [added] at all
    refine ⟨?_,lastNext.trans next,lastAdded.trans added⟩
    simp only [List.map_cons,carryAll,Prod.map,carried,Option.bind_some]
    exact all

theorem repositioned {index position : Nat} {v w : View} {current block : List ItemRef}
    {part : List Record} (distinct : (ids v.records).Nodup) (inside : part.Sublist v.records)
    (refs : current.map (refId v.added) = ids part) (blockDistinct : block.Nodup)
    (blockInside : ∀ item ∈ block, item ∈ current)
    (h : v.run index (reposition current block position) = some w) :
    Arranged v.records part (block.map (recordOf v.records v.added)) w.records true position := by
  have plain : v.records.Nodup := distinct.of_map _
  have named : current.map (recordOf v.records v.added) = part :=
    recordsOfRefs distinct inside.subset refs
  have partDistinct : (current.map (recordOf v.records v.added)).Nodup := by
    rw [named]; exact plain.sublist inside
  obtain ⟨carried,-,-⟩ := movesRun (List.Perm.refl _) distinct h
  obtain ⟨l,arrived,order,away⟩ := movesArrive (position - 1) plain partDistinct blockDistinct
    blockInside (by rw [named]; exact filterSublist plain inside)
  cases Option.some.inj (arrived.symm.trans carried)
  refine ⟨carryAllPerm carried,fun p still => away p fun x hx => still _ (List.mem_map_of_mem hx),
    fun _ => ?_⟩
  obtain ⟨front,back,goal,rest,size⟩ := targetSplit current block (position - 1)
  have inj := List.inj_on_of_nodup_map partDistinct
  refine ⟨front.map (recordOf v.records v.added),back.map (recordOf v.records v.added),?_,?_,?_⟩
  · rw [← named,order,goal,List.map_append,List.map_append]
  · rw [← List.map_append,rest,others,← named,List.filter_map]
    congr 1
    refine List.filter_congr fun x hx => ?_
    rw [Function.comp_apply,Bool.eq_iff_iff]
    simp only [Bool.not_eq_true',← Bool.not_eq_true,List.contains_iff_mem,List.mem_map,not_exists,
      not_and]
    exact ⟨fun out y hy same => out (inj (blockInside y hy) hx same ▸ hy),
      fun out hx => out x hx rfl⟩
  · rw [List.length_map,← List.map_append,List.length_map,rest]
    exact size

def edited (rs : List Record) (next : Nat) (operations : List Operation) : List Record :=
  (rs.filter (stays (removed operations))).map (changed operations) ++
    (arrivals 0 next operations).map Prod.snd

theorem rearranged {v w : View} {operations : List Operation} {refs block : List ItemRef}
    {position : Nat} (ordered : Bool) (kept : List Record) (word : w.nextId ≤ maxWord64)
    (distinct : (ids v.records).Nodup)
    (unused : ∀ n, v.nextId ≤ n → n < w.nextId → some (newId n) ∉ ids v.records)
    (edits : ∀ operation ∈ operations, Edit operation)
    (aimed : ∀ operation ∈ operations, ∀ id ∈ operation.aim?, some id ∈ ids v.records)
    (part : kept.Sublist (v.records.filter (stays (removed operations))))
    (named : ∀ added, refs.map (refId added) = ids kept) (blockDistinct : block.Nodup)
    (inside : ∀ item ∈ block,
      item ∈ refs ++ (arrivals 0 v.nextId operations).map (fun a => ItemRef.added a.1))
    (h : v.run 0 (operations ++ if ordered then
      reposition (refs ++ (arrivals 0 v.nextId operations).map (fun a => ItemRef.added a.1)) block
        position else []) = some w) :
    (ids (edited v.records v.nextId operations)).Nodup ∧
    ∃ record : ItemRef → Record, refs.map record = kept.map (changed operations) ∧
      (∀ a ∈ arrivals 0 v.nextId operations, record (.added a.1) = a.2) ∧
      Arranged (edited v.records v.nextId operations)
        (kept.map (changed operations) ++ (arrivals 0 v.nextId operations).map Prod.snd)
        (block.map record) w.records ordered position := by
  rw [runAppend] at h
  obtain ⟨u,done,moved⟩ := Option.bind_eq_some_iff.mp h
  have later : u.nextId ≤ w.nextId := runNext moved
  obtain ⟨records,nodup,-,found⟩ := editsRun (Nat.le_trans later word)
    (.start distinct fun n lower upper => unused n lower (Nat.lt_of_lt_of_le upper later)) edits aimed
    done
  rw [List.append_nil] at records
  have same : edited v.records v.nextId operations = u.records := records.symm
  have news : ∀ a ∈ arrivals 0 v.nextId operations, a.2 ∈ u.records := by
    intro a ha
    rw [records]
    exact List.mem_append_right _ (List.mem_map_of_mem ha)
  have sub : (kept.map (changed operations) ++ (arrivals 0 v.nextId operations).map Prod.snd).Sublist
      u.records := by rw [records]; exact (part.map _).append_right _
  have standing : refs.map (refId u.added) = ids (kept.map (changed operations)) := by
    rw [idsChanged]; exact named u.added
  rw [same]
  refine ⟨nodup,recordOf u.records u.added,?_,?_,?_⟩
  · exact recordsOfRefs nodup (fun r hr => sub.subset (List.mem_append_left _ hr)) standing
  · exact fun a ha => recordOfRef nodup (news a ha) (found a ha)
  · cases ordered with
    | false =>
      cases moved
      exact ⟨List.Perm.refl _,fun _ _ => rfl,by simp⟩
    | true =>
      refine repositioned nodup sub ?_ blockDistinct inside moved
      rw [List.map_append,standing,ids,ids,List.map_append]
      congr 1
      rw [List.map_map,List.map_map]
      exact List.map_congr_left fun a ha => found a ha

end View
end RouterReconciler

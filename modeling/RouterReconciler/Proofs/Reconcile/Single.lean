import RouterReconciler.Proofs.Reconcile.Matches
import RouterReconciler.Proofs.Reconcile.Turns
import RouterReconciler.Proofs.Run.Ordered

/-! One record at a position. A match is moved there, after what differs on it has been set; where there is
no match, a new record is added before the one that stands there, or at the end. Either way it comes to
stand at the position among the records that are not dynamic, which is where the next plan finds it. -/
namespace RouterReconciler
open Step Replica Reconcile Text

structure Positioned (before after : List Record) (r : Record) (position : Nat) : Prop where
  stands : ∃ front back, lasting after = front ++ r :: back ∧
    front ++ back = (lasting before).filter (outside [r.id]) ∧
    front.length = min (position - 1) (front ++ back).length
  others : after.filter (outside [r.id]) = before.filter (outside [r.id])

inductive Subject [PatternEngine] (before : List Record) (find : Criteria) (set : Assignments) : Record → Prop
  | found {q} (only : (lasting before).filter (meets find) = [q]) : Subject before find set (q.settle set)
  | added {r} (unmatched : (lasting before).filter (meets find) = []) (new : r.id ∉ ids before)
      (holds : ∀ key, r.get? key = match set.get? key with
        | some a => a.result
        | none => find.literal? key) : Subject before find set r

def SetsOn (id : ItemId) (changes : Assignments) (sets : List Operation) : Prop :=
  sets = [] ∧ changes.isEmpty ∨ sets = [.set (some id) changes]

inductive Placing [PatternEngine] (before : List Record) (find : Criteria) (set : Assignments) (position : Nat) :
    List Operation → Prop
  | found {q id changes sets} (only : (lasting before).filter (meets find) = [q]) (named : q.id = some id)
      (compared : differing set q = .ok changes) (written : SetsOn id changes sets) :
      Placing before find set position
        (sets ++ reposition (handles (lasting before)) [.existing id] position)
  | before {literals x id} (unmatched : (lasting before).filter (meets find) = [])
      (concrete : find.Concrete) (own : find.addValues = .ok literals) (there : (lasting before)[position - 1]? = some x)
      (named : x.id = some id) :
      Placing before find set position [.add (overlay literals set.toList) (some (.existing id))]
  | last {literals} (unmatched : (lasting before).filter (meets find) = [])
      (concrete : find.Concrete) (own : find.addValues = .ok literals) (short : (lasting before)[position - 1]? = none) :
      Placing before find set position [.add (overlay literals set.toList) none]

namespace Reconcile

section Planned
variable {f : Facility} {within : Option Nat → Error → Error} {find : Criteria} {set : Assignments}
  {position : Nat} {missing : Missing} {d d' : Replica} {operations : List Operation}

theorem meetsNotRaw [PatternEngine] {r : Record} (h : meets find r = true) : find.hasRaw = false := by
  unfold meets at h
  split at h
  · rename_i s read
    split at h
    · rename_i hit judged
      unfold Selector.ofCriteria at read
      split at read
      · rename_i tests parsed
        cases read
        rw [h,Selector.matches?,show Selector.isSkipped ⟨find,tests,false,false,false⟩ r = false from rfl]
          at judged
        simp only [Bool.false_eq_true,if_false] at judged
        refine List.any_eq_false.mpr fun c mem raw => ?_
        obtain ⟨clause,there,rfl⟩ := List.mem_map.mp mem
        cases same : clause.2 with
        | raw e =>
          have passed := (passesEach parsed).mp judged clause there (.raw e) (by rw [same]; rfl)
          cases passed
        | _ => rw [same] at raw; cases raw
      · cases read
    · cases h
  · cases h

theorem modifySingle {q : Record} {id : ItemId} (named : q.id = some id)
    (h : modifyAll set [q] = .ok operations) :
    ∃ changes, differing set q = .ok changes ∧ SetsOn id changes operations := by
  obtain ⟨changes,compared,_,none,written⟩ := modifyAllCons.mp h
  cases none
  refine ⟨changes,compared,?_⟩
  rcases written with ⟨quiet,rfl⟩ | ⟨-,other,first,same,one,rfl⟩
  · exact .inl ⟨rfl,quiet⟩
  · cases (idOfOk same).symm.trans named
    rw [List.append_nil]
    exact (modificationOk one).imp_right And.left

theorem ensurePlacing [PatternEngine] (concrete : find.Concrete)
    (known : missing = .ignore → ∃ r ∈ lasting (d.records f.path), meets find r = true)
    (h : ensure f within [find] set (some position) missing d = (.ok operations,d')) :
    f.shape ≠ .singleton ∧ d.HasItems f.path ∧ ¬Clash [find] (d.records f.path) ∧
      Placing (d.records f.path) find set position operations := by
  simp only [ensure,ensureEach,bindOk,mapErrorOk,pureOk] at h
  obtain ⟨first,m,one,_,_,⟨rfl,-⟩,rfl,-⟩ := h
  rw [List.append_nil]
  simp only [ensureOne,concrete.notSplit] at one
  obtain ⟨found,_,looked,one⟩ := bindOk.mp one
  obtain ⟨-,several,items,-⟩ := findOk looked
  have legible := concrete.judgeable.legible
  have clear : ¬Clash [find] (d.records f.path) := fun clash => by
    rw [findClash legible several items clash] at looked
    cases looked
  refine ⟨several,items,clear,?_⟩
  rw [findClear legible several items clear,selectedLasting] at looked
  obtain ⟨same,rfl⟩ := Prod.mk.inj looked
  cases same
  generalize matched : (lasting (d.records f.path)).filter (meets find) = found at one
  rcases found with - | ⟨q,- | ⟨_,_⟩⟩
  · cases missing with
    | fail => exact absurd one failNotOk
    | ignore =>
      obtain ⟨r,hr,hit⟩ := known rfl
      have there : r ∈ (lasting (d.records f.path)).filter (meets find) := List.mem_filter.mpr ⟨hr,hit⟩
      rw [matched] at there
      cases there
    | add =>
      obtain ⟨literals,own,anchor,placed,operation,checked,rfl⟩ := addMissingEnds.mp one
      cases additionOk checked
      obtain ⟨records,_,read,placed⟩ := bindOk.mp placed
      obtain ⟨-,-,rfl,-⟩ := snapshotOk read
      cases there : (lasting (d.records f.path))[position - 1]? with
      | none =>
        simp only [there,pureOk] at placed
        obtain ⟨rfl,-⟩ := placed
        exact .last matched concrete own there
      | some x =>
        simp only [there,bindOk,liftOk,pureOk] at placed
        obtain ⟨id,_,⟨named,-⟩,rfl,-⟩ := placed
        exact .before matched concrete own there (idOfOk named)
  · simp only [List.isEmpty_cons,Bool.false_eq_true,if_false,ensureFound,Option.isSome_some,
      List.length_singleton,Nat.lt_irrefl,decide_false,Bool.and_false,moveFirst,bindOk,liftOk,pureOk] at one
    obtain ⟨sets,_,⟨modified,rfl⟩,moves,_,⟨id,_,⟨named,rfl⟩,records,_,read,current,_,⟨refs,-⟩,rfl,-⟩,rfl,-⟩ :=
      one
    obtain ⟨-,-,rfl,-⟩ := snapshotOk read
    rw [refsHandles refs]
    obtain ⟨changes,compared,written⟩ := modifySingle (idOfOk named) modified
    exact .found matched (idOfOk named) compared written
  · simp [ensureFound] at one

theorem filterPlaces (p : Record → Bool) (rs : List Record) :
    rs.filter p = ((rs.zipIdx 0).filter (fun x => p x.1)).map Prod.fst := by
  conv_lhs => rw [← List.zipIdx_map_fst 0 rs,List.filter_map]
  rfl

theorem onlyPlace {p : Record → Bool} {rs : List Record} {j : Nat} (h : placesWhere p 0 rs = [j]) :
    ∃ q, rs.filter p = [q] ∧ rs[j]? = some q := by
  obtain ⟨x,only,rfl⟩ := List.map_eq_singleton_iff.mp h
  have there : x ∈ (rs.zipIdx 0).filter (fun x => p x.1) := by rw [only]; exact List.mem_cons_self
  refine ⟨x.1,by rw [filterPlaces,only]; rfl,?_⟩
  exact List.mem_zipIdx_iff_getElem?.mp (List.mem_filter.mp there).1

theorem movePlacing [PatternEngine] (distinct : (ids (d.records f.path)).Nodup)
    (known : missing = .ignore → ∃ r ∈ lasting (d.records f.path), meets find r = true)
    (h : moveOnly f find position missing d = (.ok operations,d')) :
    f.shape ≠ .singleton ∧ d.HasItems f.path ∧
      Placing (d.records f.path) find ∅ position operations := by
  obtain ⟨records,_,places,_,read,picked,⟨rfl,ignores,-⟩ | ⟨j,current,rfl,refs,moved⟩⟩ := moveOnlyEnds h
    <;> obtain ⟨several,items,rfl,rfl⟩ := snapshotOk read
    <;> refine ⟨several,items,?_⟩
  · obtain ⟨r,hr,hit⟩ := known ignores
    have none := selectOk distinct (fun raw => by rw [meetsNotRaw hit] at raw; cases raw) picked
    have there : r ∈ (lasting _).filter (meets find) := List.mem_filter.mpr ⟨hr,hit⟩
    rw [filterPlaces,List.map_eq_nil_iff.mp none.symm] at there
    cases there
  · obtain ⟨names,rfl,named⟩ := refsOfOk refs
    obtain ⟨q,only,there⟩ := onlyPlace (selectOk distinct (fun _ => namesComplete named) picked).symm
    obtain ⟨id,same⟩ := Option.isSome_iff_exists.mp
      (namesComplete named q (List.mem_of_getElem? there))
    have item : (names.map ItemRef.existing)[j]? = some (.existing id) := by
      have listed : (names.map some)[j]? = some (some id) := by
        rw [named,ids,List.getElem?_map,there,Option.map_some,same]
      rw [List.getElem?_map] at listed ⊢
      cases place : names[j]? with
      | none => rw [place] at listed; cases listed
      | some other => rw [place] at listed; cases listed; rfl
    obtain ⟨absent,-⟩ | ⟨other,found,rfl⟩ := moved
    · cases item.symm.trans absent
    cases item.symm.trans found
    rw [← handlesNamed named,← List.nil_append (reposition _ _ _)]
    exact .found only same rfl (.inl ⟨rfl,rfl⟩)

end Planned
end Reconcile

section Reached
variable {find : Criteria} {set : Assignments} {position : Nat} {v w : View}

theorem insertedPositioned {front back : List Record} {r : Record}
    (alive : r.flag "dynamic" = false) (out : r.id ∉ ids (front ++ back))
    (size : (lasting front).length = min (position - 1) (lasting (front ++ back)).length) :
    Positioned (front ++ back) (front ++ r :: back) r position := by
  have others : ∀ x ∈ front ++ back, outside [r.id] x = true := by
    intro x hx
    have apart : x.id ≠ r.id := fun same => out (same ▸ List.mem_map_of_mem hx)
    simp [outside,apart]
  have itself : outside [r.id] r = false := by simp [outside]
  refine ⟨⟨lasting front,lasting back,?_,?_,?_⟩,?_⟩
  · simp [lasting,alive]
  · rw [List.filter_eq_self.mpr fun x (hx : x ∈ lasting (front ++ back)) =>
      others x (List.mem_filter.mp hx).1]
    simp [lasting]
  · rw [size]
    simp [lasting]
  · rw [List.filter_append,List.filter_cons_of_neg (by simp [itself]),List.filter_append]

theorem newlyHolds {literals : Assignments} (own : find.addValues = .ok literals) (n : Nat) (key : String) :
    (newRecord n (overlay literals set.toList)).get? key = match set.get? key with
      | some a => a.result
      | none => find.literal? key := overlaidGet (newId n) own key

namespace SetsOn
variable {q : Record} {id : ItemId} {changes : Assignments} {sets : List Operation}
  (written : SetsOn id changes sets)
include written

theorem alone : ∀ operation ∈ sets, operation = .set (some id) changes := by
  rcases written with ⟨rfl,-⟩ | rfl <;> simp

theorem noneNew (next : Nat) : arrivals 0 next sets = [] := by rcases written with ⟨rfl,-⟩ | rfl <;> rfl

theorem noneGone : removed sets = [] := by rcases written with ⟨rfl,-⟩ | rfl <;> rfl

theorem changed (named : q.id = some id) : RouterReconciler.changed sets q = q.apply changes := by
  rcases written with ⟨rfl,quiet⟩ | rfl
  · exact (Record.applyEmpty quiet q).symm
  · exact if_pos named

theorem keeps {key : String} (free : changes.get? key = none) (r : Record) :
    (RouterReconciler.changed sets r).get? key = r.get? key := by
  rcases written with ⟨rfl,-⟩ | rfl
  · rfl
  · show (amend id (·.apply changes) r).get? key = _
    unfold amend
    split
    · rw [Record.getApply,free]
    · rfl

end SetsOn

section Found
variable {q : Record} {id : ItemId} {changes : Assignments} {sets : List Operation}
  (written : SetsOn id changes sets) (there : q ∈ lasting v.records) (named : q.id = some id)
  (distinct : (ids v.records).Nodup)
include written there named distinct

theorem foundArranged (complete : ∀ r ∈ v.records, r.id.isSome) (word : w.nextId ≤ maxWord64)
    (unused : ∀ n, v.nextId ≤ n → n ≤ maxWord64 → some (newId n) ∉ ids v.records)
    (h : v.run 0 (sets ++ reposition (handles (lasting v.records)) [.existing id] position) = some w) :
    (ids (v.records.map (changed sets) ++ [])).Nodup ∧
      Arranged (v.records.map (changed sets) ++ []) ((lasting v.records).map (changed sets) ++ [])
        [q.apply changes] w.records true position := by
  obtain ⟨names,same⟩ := completeNames fun r (hr : r ∈ lasting v.records) =>
    complete r (List.mem_filter.mp hr).1
  rw [handlesNamed same] at h
  have all : v.records.filter (stays (removed sets)) = v.records := by
    rw [written.noneGone,staysNil]; simp
  obtain ⟨once,record,standing,-,arranged⟩ := View.rearranged true (lasting v.records) word distinct
    (fun n lower upper => unused n lower (by omega))
    (fun operation mem => by rw [written.alone operation mem]; exact .set id _)
    (fun operation mem other aim => by
      rw [written.alone operation mem] at aim
      cases aim
      exact List.mem_map.mpr ⟨q,(List.mem_filter.mp there).1,named⟩)
    (by rw [all]; exact List.filter_sublist) (namesStand same) (List.nodup_singleton (.existing id))
    (fun item mem => by
      cases List.mem_singleton.mp mem
      exact List.mem_append_left _ (namesListed same (List.mem_map.mpr ⟨q,there,named⟩)))
    (by rw [written.noneNew,List.map_nil,List.append_nil]; exact h)
  rw [View.edited,all,written.noneNew] at once arranged
  have itself : [ItemRef.existing id].map record = [q.apply changes] := by
    rw [List.map_singleton,namesTold same standing q there id named,written.changed named]
  rw [itself] at arranged
  exact ⟨once,arranged⟩

omit there in
theorem foundPositioned (lasts : changes.get? "dynamic" = none)
    (once : (ids (v.records.map (changed sets) ++ [])).Nodup)
    (arranged : Arranged (v.records.map (changed sets) ++ []) ((lasting v.records).map (changed sets) ++ [])
      [q.apply changes] w.records true position) :
    Positioned v.records w.records (q.apply changes) position := by
  have kept : (q.apply changes).id = q.id := written.changed named ▸ changedId sets q
  have aimed : ∀ other values, .set (some other) values ∈ sets → some other ∈ ids [q.apply changes] := by
    intro other values mem
    cases written.alone _ mem
    simp [ids,named]
  obtain ⟨front,back,order,rest,size⟩ := arranged.inOrder aimed (by simp)
    (fun id => !(ids (fleeting v.records)).contains id) rfl once (List.filter_subset_self _)
    (fun r hr => (notFleeting distinct hr).symm) (by simp)
  have lastingNow : lasting w.records =
      w.records.filter (fun r => !(ids (fleeting v.records)).contains r.id) := by
    refine List.filter_congr fun r hr => ?_
    have mem := arranged.perm.mem_iff.mp hr
    rw [List.append_nil] at mem
    obtain ⟨x,hx,rfl⟩ := List.mem_map.mp mem
    rw [Record.flag,written.keeps lasts,← Record.flag,changedId,Bool.eq_iff_iff,notFleeting distinct hx,
      lasting,List.mem_filter]
    exact ⟨fun alive => ⟨hx,alive⟩,And.right⟩
  refine ⟨⟨front,back,?_,rest,size⟩,arranged.outsiders aimed (by simp)⟩
  rw [lastingNow,order]
  simp

end Found

structure Placed [PatternEngine] (before after : List Record) (find : Criteria) (set : Assignments)
    (position : Nat) (r : Record) : Prop where
  subject : Subject before find set r
  positioned : Positioned before after r position
  identified : r.id.isSome
  hit : meets find r = true
  settled : differing set r = .ok ∅
  distinct : (ids after).Nodup

theorem newlyPositioned [PatternEngine] {front back : List Record} {literals : Assignments} (n : Nat)
    (unmatched : (lasting (front ++ back)).filter (meets find) = [])
    (concrete : find.Concrete) (lasts : set.get? "dynamic" = none)
    (apart : ∀ key, (find.get? key).isSome → set.get? key = none)
    (own : find.addValues = .ok literals) (distinct : (ids (front ++ back)).Nodup)
    (out : some (newId n) ∉ ids (front ++ back))
    (size : (lasting front).length = min (position - 1) (lasting (front ++ back)).length) :
    ∃ r, Placed (front ++ back) (front ++ newRecord n (overlay literals set.toList) :: back) find set
      position r := by
  have alive : (newRecord n (overlay literals set.toList)).flag "dynamic" = false := by
    rw [Record.flag,newlyHolds own,lasts]
    simp only
    rw [Criteria.literal?,concrete.unreserved _ (by decide)]
  have named := newRecordId n (overlay literals set.toList)
  rw [← named] at out
  refine ⟨_,.added unmatched out (newlyHolds own n),insertedPositioned alive out size,
    by rw [named]; rfl,?_,?_,?_⟩
  · refine concrete.meetsOwn fun key has => ?_
    rw [newlyHolds own,apart key has]
  · refine settledHeld fun key a wanted => ?_
    rw [newlyHolds own,wanted]
  · refine (idsPerm List.perm_middle).nodup_iff.mpr ?_
    exact List.nodup_cons.mpr ⟨out,distinct⟩

section Arranges
variable [PatternEngine] {literals : Assignments} (concrete : find.Concrete) (lasts : set.get? "dynamic" = none)
  (apart : ∀ key, (find.get? key).isSome → set.get? key = none) (own : find.addValues = .ok literals)
  (distinct : (ids v.records).Nodup) (unmatched : (lasting v.records).filter (meets find) = [])
  (fresh : some (newId v.nextId) ∉ ids v.records)
include concrete lasts apart own distinct unmatched fresh

theorem beforeArranges {x : Record} {id : ItemId} (there : (lasting v.records)[position - 1]? = some x)
    (named : x.id = some id)
    (h : v.run 0 [.add (overlay literals set.toList) (some (.existing id))] = some w) :
    ∃ r, Placed v.records w.records find set position r := by
  obtain ⟨u,stepped,ran⟩ := Option.bind_eq_some_iff.mp h
  cases ran
  simp only [View.step,View.refId?,View.refId,Option.map_some,Option.bind_eq_bind,Option.bind_some,
    inserted,Option.bind_eq_some_iff,Option.map_eq_some_iff,Option.some.injEq] at stepped
  obtain ⟨rs,⟨i,place,rfl⟩,rfl⟩ := stepped
  obtain ⟨front,y,back,split,rfl,yNamed,-⟩ := positionSplit place
  have xThere : x ∈ v.records := (List.mem_filter.mp (List.mem_of_getElem? there)).1
  have same : y = x := sameRecord distinct (by rw [split]; simp) xThere (yNamed.trans named.symm)
  subst same
  have alive : y.flag "dynamic" = false := aliveOfLasting (List.mem_of_getElem? there)
  have parts : lasting (front ++ y :: back) = lasting front ++ y :: lasting back := by
    simp [lasting,alive]
  have size : (lasting front).length = position - 1 := by
    refine samePlace (lastingDistinct distinct) (a := y) ?_ there rfl
    rw [split,parts,List.getElem?_append_right (Nat.le_refl _),Nat.sub_self]
    rfl
  rw [split] at unmatched distinct fresh ⊢
  rw [insertMiddle]
  refine newlyPositioned v.nextId unmatched concrete lasts apart own distinct fresh ?_
  rw [parts,List.length_append,List.length_cons]
  omega

theorem lastArranges (short : (lasting v.records)[position - 1]? = none)
    (h : v.run 0 [.add (overlay literals set.toList) none] = some w) :
    ∃ r, Placed v.records w.records find set position r := by
  obtain ⟨u,stepped,ran⟩ := Option.bind_eq_some_iff.mp h
  cases ran
  simp only [View.step,View.refId?,Option.bind_eq_bind,Option.bind_some,inserted,
    Option.some.injEq] at stepped
  subst stepped
  rw [← List.append_nil v.records] at unmatched distinct fresh
  have beyond := List.getElem?_eq_none_iff.mp short
  have size : (lasting v.records).length = min (position - 1) (lasting (v.records ++ [])).length := by
    rw [List.append_nil]
    omega
  have placed := newlyPositioned v.nextId unmatched concrete lasts apart own distinct fresh size
  simpa only [List.append_nil] using placed

end Arranges

theorem Placing.arranges [PatternEngine] {operations : List Operation}
    (placing : Placing v.records find set position operations)
    (lasts : set.get? "dynamic" = none) (apart : ∀ key, (find.get? key).isSome → set.get? key = none)
    (distinct : (ids v.records).Nodup) (complete : ∀ r ∈ v.records, r.id.isSome)
    (word : w.nextId ≤ maxWord64)
    (unused : ∀ n, v.nextId ≤ n → n ≤ maxWord64 → some (newId n) ∉ ids v.records)
    (h : v.run 0 operations = some w) : ∃ r, Placed v.records w.records find set position r := by
  have fresh := unused v.nextId (Nat.le_refl _) (Nat.le_trans (View.runNext h) word)
  cases placing with
  | @found q id changes sets only named compared written =>
    obtain ⟨there,hit⟩ : q ∈ lasting v.records ∧ meets find q = true := by
      rw [← List.mem_filter,only]
      exact List.mem_cons_self
    obtain ⟨once,arranged⟩ := foundArranged written there named distinct complete word unused h
    obtain ⟨comparable,rfl⟩ := differingOk.mp compared
    have untouched : ∀ key, set.get? key = none → (due set q).get? key = none := fun key free => by
      rw [getDue,free]
      rfl
    have positioned := foundPositioned written named distinct (untouched _ lasts) once arranged
    refine ⟨q.settle set,.found only,positioned,?_,?_,Record.settled comparable,
      (idsPerm arranged.perm).nodup_iff.mpr once⟩
    · rw [Record.settle,← written.changed named,changedId,named]
      rfl
    · rw [← hit]
      exact meetsAlike fun key has => Record.settleKeeps fun a wanted => by
        rw [apart key has] at wanted
        cases wanted
  | before unmatched concrete own there named =>
    exact beforeArranges concrete lasts apart own distinct unmatched fresh there named h
  | last unmatched concrete own short =>
    exact lastArranges concrete lasts apart own distinct unmatched fresh short h

end Reached
end RouterReconciler

import RouterReconciler.Proofs.Device.Failures
import RouterReconciler.Proofs.Reconcile.Finds
import RouterReconciler.Proofs.Reconcile.Plain
import RouterReconciler.Proofs.Reconcile.Slots
import RouterReconciler.Proofs.Value.Literals

/-! Finds that have their turns one after the other, each on what the ones before it have made of the
records. Where a find still judges a record as it did at first, and asks of it what it asked at first or
finds this done, the writes that were planned for the record as it stood at first bring it to the same. -/
namespace RouterReconciler
open Replica Reconcile

def Steady (desired : Assignments) (r x : Record) : Prop :=
  ∀ key a, desired.get? key = some a → a.differs (x.get? key) = a.differs (r.get? key) ∨
    a.differs (r.get? key) = .ok true ∧ x.get? key = a.result

theorem putSame {α : Type} {key : String} {v : α} {l : List (String × α)}
    (h : Entries.lookup key l = some v) : Entries.put key v l = l := by
  induction l with
  | nil => cases h
  | cons entry rest ih =>
    obtain ⟨k,w⟩ := entry
    rw [Entries.lookup] at h
    rw [Entries.put]
    split at h
    · rename_i same
      cases h
      rw [if_pos same,same]
    · rename_i other
      rw [if_neg other,ih h]

theorem assignSame {x : Record} {key : String} {a : Assignment} (h : x.get? key = a.result) :
    x.assign key a = x := by
  obtain ⟨id,⟨fields,distinct⟩⟩ := x
  cases a with
  | value v =>
    simp only [Record.assign,Record.set,Entries.insert,Record.mk.injEq,Entries.mk.injEq,true_and]
    exact putSame h
  | unset =>
    simp only [Record.assign,Record.unset,Entries.erase,Entries.filter,Record.mk.injEq,
      Entries.mk.injEq,true_and]
    refine List.filter_eq_self.mpr fun entry mem => ?_
    have absent : key ∉ fields.map Prod.fst := Entries.getNone.mp h
    have other : entry.1 ≠ key := fun same => absent (same ▸ List.mem_map_of_mem mem)
    simpa using other

-- Assignments that do nothing may be left out. The keys are distinct, so none of them undoes another.
theorem assignedSteady {wider narrower : String × Assignment → Bool} {l : List (String × Assignment)}
    (distinct : (l.map Prod.fst).Nodup) {x : Record}
    (h : ∀ entry ∈ l, narrower entry = wider entry ∨
      wider entry = true ∧ x.get? entry.1 = entry.2.result) :
    (l.filter wider).foldl (fun acc entry => acc.assign entry.1 entry.2) x =
      (l.filter narrower).foldl (fun acc entry => acc.assign entry.1 entry.2) x := by
  induction l generalizing x with
  | nil => rfl
  | cons entry rest ih =>
    obtain ⟨apart,later⟩ := List.nodup_cons.mp distinct
    obtain ⟨here,others⟩ := List.forall_mem_cons.mp h
    have next : ∀ other ∈ rest, narrower other = wider other ∨
        wider other = true ∧ (x.assign entry.1 entry.2).get? other.1 = other.2.result := by
      intro other mem
      have differ : other.1 ≠ entry.1 := fun same => apart (same ▸ List.mem_map_of_mem mem)
      rw [Record.getAssign,if_neg differ]
      exact others other mem
    rw [List.filter_cons,List.filter_cons]
    cases hn : narrower entry with
    | true =>
      have hw : wider entry = true := by
        rcases here with same | ⟨hw,-⟩
        · rw [← same,hn]
        · exact hw
      rw [hw]
      exact ih later next
    | false =>
      cases hw : wider entry with
      | false => exact ih later others
      | true =>
        have held : x.get? entry.1 = entry.2.result := by
          rcases here with same | ⟨-,held⟩
          · rw [hn,hw] at same
            cases same
          · exact held
        simp only [if_true,Bool.false_eq_true,if_false,List.foldl_cons,assignSame held]
        exact ih later others

namespace Steady
variable {desired : Assignments} {r x : Record}

theorem comparable (h : Steady desired r x) (comparable : r.Comparable desired) : x.Comparable desired := by
  intro key v w wanted held
  have before : (Assignment.value v).differs (r.get? key) = .ok ((Assignment.value v).isDue (r.get? key)) :=
    Assignment.differsOk.mpr ⟨fun _ w own held => comparable key _ w (own ▸ wanted) held,rfl⟩
  rcases h key _ wanted with same | ⟨-,done⟩
  · rw [before,held] at same
    exact (Assignment.differsOk.mp same).1 v w rfl rfl
  · cases held.symm.trans done
    rw [v.equalSelf]
    rfl

theorem due (h : Steady desired r x) (comparable : r.Comparable desired) {key : String} {a : Assignment}
    (wanted : desired.get? key = some a) : a.isDue (x.get? key) = a.isDue (r.get? key) ∨
      a.isDue (r.get? key) = true ∧ x.get? key = a.result := by
  have before : a.differs (r.get? key) = .ok (a.isDue (r.get? key)) :=
    Assignment.differsOk.mpr ⟨fun v w own held => comparable key v w (own ▸ wanted) held,rfl⟩
  rw [Steady] at h
  rcases h key a wanted with same | ⟨differed,done⟩
  · exact .inl (Assignment.differsOk.mp (same.trans before)).2.symm
  · exact .inr ⟨Except.ok.inj (before.symm.trans differed),done⟩

theorem settles (h : Steady desired r x) (comparable : r.Comparable desired) :
    x.apply (RouterReconciler.due desired r) = x.settle desired :=
  assignedSteady desired.distinct fun _ mem => h.due comparable (Entries.getMem.mpr mem)

theorem fewer (h : Steady desired r x) (comparable : r.Comparable desired) :
    (RouterReconciler.due desired x).toList ⊆ (RouterReconciler.due desired r).toList := by
  intro entry mem
  obtain ⟨there,lacks⟩ := List.mem_filter.mp mem
  refine List.mem_filter.mpr ⟨there,?_⟩
  rcases h.due comparable (Entries.getMem.mpr there) with same | ⟨lacked,-⟩
  · exact same.symm.trans lacks
  · exact lacked

end Steady

def news (next : Nat) (operations : List Operation) : List Record :=
  (arrivals 0 next operations).map Prod.snd

structure Lesser (again operations : List Operation) : Prop where
  size : again.length ≤ operations.length
  values : ∀ operation ∈ again, ∃ whole ∈ operations, operation.values.toList ⊆ whole.values.toList
  news : ∀ next, news next again = news next operations

theorem Lesser.refl (operations : List Operation) : Lesser operations operations :=
  ⟨Nat.le_refl _,fun operation mem => ⟨operation,mem,List.Subset.refl _⟩,fun _ => rfl⟩

theorem changedAppend (first second : List Operation) (x : Record) :
    changed (first ++ second) x = changed second (changed first x) := List.foldl_append ..

section Settings
variable {desired : Assignments} {q r x : Record}

theorem memSettings {operation : Operation} (settable : Settable desired q)
    (h : operation ∈ settings desired q) : ∃ id, q.id = some id ∧
      operation = .set (some id) (due desired q) ∧ (due desired q).isEmpty = false := by
  unfold settings at h
  split at h
  · cases h
  · rename_i some
    have some : (due desired q).isEmpty = false := by simpa using some
    obtain ⟨⟨id,named⟩,-⟩ := settable.writable some
    rw [List.mem_singleton,named] at h
    exact ⟨id,named,h,some⟩

theorem changedOne (settable : Settable desired r) (same : x.id = r.id) :
    changed (settings desired r) x = x.apply (due desired r) := by
  cases empty : (due desired r).isEmpty with
  | true =>
    rw [settings,if_pos empty,Record.applyEmpty empty]
    rfl
  | false =>
    obtain ⟨⟨id,named⟩,-⟩ := settable.writable empty
    rw [settings,if_neg (by simp [empty]),named]
    exact if_pos (same.trans named)

theorem notEmptyOf {values fewer : Assignments} (inside : fewer.toList ⊆ values.toList)
    (h : fewer.isEmpty = false) : values.isEmpty = false := by
  cases empty : values.isEmpty with
  | false => rfl
  | true =>
    rw [Entries.isEmpty,List.isEmpty_iff] at empty
    rw [empty] at inside
    rw [Entries.isEmpty,List.subset_nil.mp inside] at h
    cases h

theorem settingsFewer (inside : (due desired x).toList ⊆ (due desired r).toList) :
    (settings desired x).length ≤ (settings desired r).length := by
  unfold settings
  split
  · exact Nat.zero_le _
  · rename_i differs
    rw [if_neg]
    · exact Nat.le_refl 1
    · simp [notEmptyOf inside (Bool.eq_false_of_not_eq_true differs)]

theorem settingsNone (nothing : differing desired r = .ok ∅) : settings desired r = [] := by
  rw [settings,← (differingOk.mp nothing).2]
  rfl

theorem changedSettings {p : Record → Bool} {rs : List Record} (distinct : (ids rs).Nodup)
    (settable : ∀ q ∈ rs.filter p, Settable desired q) (mem : r ∈ rs) (same : x.id = r.id) :
    changed ((rs.filter p).flatMap (settings desired)) x =
      if p r then x.apply (due desired r) else x := by
  obtain ⟨front,back,rfl⟩ := List.append_of_mem mem
  have away : ∀ part, part ⊆ (front ++ r :: back).filter p → (∀ q ∈ part, q.id ≠ r.id) → ∀ y : Record,
      y.id = r.id → changed (part.flatMap (settings desired)) y = y := by
    intro part inside apart y named
    refine changedUnset fun id values written itself => ?_
    obtain ⟨q,hq,written⟩ := List.mem_flatMap.mp written
    obtain ⟨other,its,told,-⟩ := memSettings (settable q (inside hq)) written
    cases told
    exact apart q hq (its.trans (itself.symm.trans named))
  have differ : ∀ q ∈ front ++ back, q.id ≠ r.id := by
    intro q hq alike
    rw [ids,(List.perm_middle.map _).nodup_iff,List.map_cons,List.nodup_cons] at distinct
    exact distinct.1 (alike ▸ List.mem_map_of_mem hq)
  have before := away (front.filter p) (fun q hq => by
    rw [List.filter_append]; exact List.mem_append_left _ hq)
    (fun q hq => differ q (List.mem_append_left _ (List.mem_filter.mp hq).1)) x same
  rw [List.filter_append,List.flatMap_append,changedAppend,before,List.filter_cons]
  have behind : back.filter p ⊆ (front ++ r :: back).filter p := fun q hq => by
    obtain ⟨hq,passes⟩ := List.mem_filter.mp hq
    exact List.mem_filter.mpr ⟨List.mem_append_right _ (List.mem_cons_of_mem _ hq),passes⟩
  have apart : ∀ q ∈ back.filter p, q.id ≠ r.id := fun q hq =>
    differ q (List.mem_append_right _ (List.mem_filter.mp hq).1)
  cases hit : p r with
  | true =>
    have settled : Settable desired r := settable r (List.mem_filter.mpr ⟨mem,hit⟩)
    rw [if_pos rfl,if_pos rfl,List.flatMap_cons,changedAppend,changedOne settled same]
    exact away _ behind apart _ ((Record.idApply _ _).trans same)
  | false =>
    rw [if_neg (by simp),if_neg (by simp)]
    exact away _ behind apart x same

end Settings

theorem flatMapFewer {α β : Type} {p q : α → Bool} {f g : α → List β} {l : List α}
    (h : ∀ a ∈ l, p a = true → f a ≠ [] → q a = true ∧ (f a).length ≤ (g a).length) :
    ((l.filter p).flatMap f).length ≤ ((l.filter q).flatMap g).length := by
  induction l with
  | nil => exact Nat.le_refl 0
  | cons a rest ih =>
    obtain ⟨here,others⟩ := List.forall_mem_cons.mp h
    have later := ih others
    have first : ((if p a then [a] else []).flatMap f).length ≤
        ((if q a then [a] else []).flatMap g).length := by
      cases hp : p a with
      | false => exact Nat.zero_le _
      | true =>
        by_cases none : f a = []
        · simp [none]
        · obtain ⟨hq,small⟩ := here hp none
          simpa [hq] using small
    have parted (r : α → Bool) : (a :: rest).filter r = (if r a then [a] else []) ++ rest.filter r := by
      rw [List.filter_cons]
      split <;> rfl
    rw [parted,parted,List.flatMap_append,List.flatMap_append,List.length_append,List.length_append]
    exact Nat.add_le_add first later

theorem newsOfSettings {desired : Assignments} {found : List Record}
    (settable : ∀ q ∈ found, Settable desired q) (next : Nat) :
    news next (found.flatMap (settings desired)) = [] := by
  refine List.map_eq_nil_iff.mpr (arrivalsOfSets fun operation mem => ?_)
  obtain ⟨q,hq,written⟩ := List.mem_flatMap.mp mem
  obtain ⟨id,-,rfl,-⟩ := memSettings (settable q hq) written
  exact ⟨_,_,rfl⟩

theorem writableFewer {values fewer : Assignments} (inside : fewer.toList ⊆ values.toList)
    (h : values.checkWritable = .ok ()) : fewer.checkWritable = .ok () :=
  writableEach.mpr fun key v mem => writableEach.mp h key v (inside mem)

variable [PatternEngine]

def turned (set : Assignments) (done : List Criteria) (r : Record) : Record :=
  done.foldl (fun x c => if c.hits x then x.settle (c.asked set) else x) r

theorem turnedNext (set : Assignments) (done : List Criteria) (c : Criteria) (r : Record) :
    turned set (done ++ [c]) r = if c.hits (turned set done r)
      then (turned set done r).settle (c.asked set) else turned set done r := by
  rw [turned,List.foldl_append]
  rfl

@[simp]
theorem turnedId (set : Assignments) (done : List Criteria) (r : Record) :
    (turned set done r).id = r.id := by
  induction done using List.reverseRecOn with
  | nil => rfl
  | append_singleton done c ih =>
    rw [turnedNext]
    split
    · exact (Record.idApply _ _).trans ih
    · exact ih

-- Every find asks what is set on matches, so in turn they ask of a record the same, or it is done.
theorem turnedSteady {set : Assignments} {r : Record} (comparable : r.Comparable set) (done : List Criteria) :
    Steady set r (turned set done r) := by
  intro key a wanted
  have before : a.differs (r.get? key) = .ok (a.isDue (r.get? key)) :=
    Assignment.differsOk.mpr ⟨fun v w own held => comparable key v w (own ▸ wanted) held,rfl⟩
  have moved : (turned set done r).get? key = r.get? key ∨
      a.isDue (r.get? key) = true ∧ (turned set done r).get? key = a.result := by
    induction done using List.reverseRecOn with
    | nil => exact .inl rfl
    | append_singleton done c ih =>
      rw [turnedNext]
      split
      · rw [Record.getSettle,Criteria.askedSet wanted]
        dsimp only
        rcases ih with same | ⟨differed,held⟩
        · rw [same]
          cases differs : a.isDue (r.get? key) with
          | true => exact .inr ⟨rfl,rfl⟩
          | false => exact .inl rfl
        · rw [held,a.dueResult]
          exact .inr ⟨differed,rfl⟩
      · exact ih
  rcases moved with same | ⟨differed,held⟩
  · exact .inl (by rw [same])
  · exact .inr ⟨by rw [before,differed],held⟩

/-- A find that comes after others, on the records as these have left them. It can tell of each record; one
that it judges otherwise than at first has all that it asks. Where it matters whether it matches at all,
it does so if it did at first. Of a factory record it asks what it asked at first, or finds it done. -/
structure Undisturbed (set : Assignments) (missing : Missing) (rs : List Record) (done : List Criteria)
    (c : Criteria) : Prop where
  judged : ∀ r ∈ rs, c.sought.judges (turned set done r) = c.sought.judges r ∨
    (∃ hit, c.sought.judges (turned set done r) = .ok hit) ∧
      differing (c.asked set) (turned set done r) = .ok ∅
  matched : missing ≠ .ignore →
    ((∃ r ∈ rs, c.hits (turned set done r) = true) ↔ ∃ r ∈ rs, c.hits r = true)
  asked : ∀ identity values, c.splitDefault? = some (identity,values) →
    ∀ r ∈ rs, c.hits r = true → Steady (values.extend set) r (turned set done r)

def Spares (set : Assignments) (rs : List Record) (c : Criteria) (new : Record) : Prop :=
  ∃ hit, c.sought.judges new = .ok hit ∧ (hit = true → (∃ r ∈ rs, c.hits r = true) ∧
    ∀ identity values, c.splitDefault? = some (identity,values) → differing (values.extend set) new = .ok ∅)

structure Unaffected (set : Assignments) (missing : Missing) (finds : List Criteria)
    (rs : List Record) : Prop where
  undisturbed : ∀ done c rest, finds = done ++ c :: rest → Undisturbed set missing rs done c
  added : missing = .add → finds.Pairwise fun c later => c.splitDefault? = none →
    (∀ r ∈ rs, c.hits r = false) → ∀ literals, c.addValues = .ok literals →
    ∀ n, Spares set rs later (newRecord n (overlay literals set.toList))

namespace Criteria

theorem judgesAlike {c : Criteria} {r x : Record} (kind : x.flag "dynamic" = r.flag "dynamic")
    (alike : ∀ key, (c.get? key).isSome → x.get? key = r.get? key) : c.judges x = c.judges r := by
  have passed {clauses : List (String × Condition)} {tests : List (String × Test)}
      (read : Test.ofClauses clauses = .ok tests) (alike : ∀ clause ∈ clauses, x.get? clause.1 = r.get? clause.1) :
      Selector.passesAll x tests = Selector.passesAll r tests := by
    induction clauses generalizing tests with
    | nil => cases read; rfl
    | cons clause rest ih =>
      unfold Test.ofClauses at read
      split at read
      · cases read
      · split at read <;> cases read
        rename_i later
        rw [Selector.passesAll,Selector.passesAll,alike clause List.mem_cons_self,
          ih later fun other mem => alike other (List.mem_cons_of_mem _ mem)]
  rw [judges,judges]
  unfold Selector.ofCriteria
  cases read : Test.ofClauses c.toList with
  | error e => rfl
  | ok tests =>
    have same := passed read fun clause mem => alike _ (by rw [Entries.getMem.mpr mem]; rfl)
    simp [Selector.matches?,Selector.isSkipped,Selector.excludingDynamic,kind,same]

namespace Concrete
variable {c : Criteria} {set : Assignments} {r x : Record}

-- Finds that look at nothing that is set do not see what is set.
theorem judgesApart (lasts : set.get? "dynamic" = none)
    (apart : ∀ key, (c.get? key).isSome → set.get? key = none)
    (alike : ∀ key, set.get? key = none → x.get? key = r.get? key) : c.judges x = c.judges r :=
  judgesAlike (by rw [Record.flag,Record.flag,alike _ lasts]) fun key has => alike key (apart key has)

theorem judgesOther (concrete : c.Concrete)
    (compared : ∀ key v w, c.get? key = some (.literal w) → r.get? key = some v → (w.equal? v).isSome)
    {key : String} {v w : Value} (asked : c.get? key = some (.literal w)) (held : r.get? key = some v)
    (differ : w.equal? v = some false) : c.judges r = .ok false := by
  have missed : RouterReconciler.meets c r = false := by
    rw [concrete.meets]
    refine List.all_eq_false.mpr ⟨(key,.literal w),Entries.getMem.mp asked,?_⟩
    simp [Condition.accepts,held,differ]
  rcases concrete.judgeable.legible.told r with told | broken
  · rw [told,selects,missed]
    rfl
  · obtain ⟨key,w,v,clause,held,unequal⟩ := clashValues broken
    rcases clause with clause | clause
    · have told := compared key v w clause held
      rw [unequal] at told
      cases told
    · rcases concrete.written _ _ clause with same | ⟨_,same⟩ <;> cases same

end Concrete
end Criteria

theorem turnedKeeps {set : Assignments} {done : List Criteria} (plain : ∀ c ∈ done, c.Concrete)
    (r : Record) {key : String} (free : set.get? key = none) :
    (turned set done r).get? key = r.get? key := by
  induction done using List.reverseRecOn with
  | nil => rfl
  | append_singleton done c ih =>
    have before := ih fun x mem => plain x (List.mem_append_left _ mem)
    rw [turnedNext]
    split
    · rw [Record.getSettle,Criteria.askedPlain (plain c (by simp)).notSplit,free]
      exact before
    · exact before

theorem Unaffected.ofApart {set : Assignments} {finds : List Criteria} (missing : Missing)
    (rs : List Record) (concrete : ∀ c ∈ finds, c.Concrete) (lasts : set.get? "dynamic" = none)
    (apart : ∀ c ∈ finds, ∀ key, (c.get? key).isSome → set.get? key = none)
    (compared : finds.Pairwise fun c later => ∀ key v w, c.get? key = some (.literal v) →
      later.get? key = some (.literal w) → (w.equal? v).isSome)
    (differ : finds.Pairwise fun c later => ∃ key v w, c.get? key = some (.literal v) ∧
      later.get? key = some (.literal w) ∧ w.equal? v = some false) : Unaffected set missing finds rs := by
  have sought {c : Criteria} (mem : c ∈ finds) : c.sought = c := Criteria.soughtPlain (concrete c mem).notSplit
  refine ⟨fun done c rest split => ?_,fun _ => ?_⟩
  · have mem : c ∈ finds := by simp [split]
    have same (r : Record) : c.sought.judges (turned set done r) = c.sought.judges r := by
      rw [sought mem]
      exact Criteria.Concrete.judgesApart lasts (apart c mem) fun key free =>
        turnedKeeps (fun x hx => concrete x (by simp [split,hx])) r free
    have hits (r : Record) : c.hits (turned set done r) = c.hits r := by
      rw [Criteria.hits,same]
      rfl
    refine ⟨fun r _ => .inl (same r),fun _ => by simp only [hits],fun identity values named => ?_⟩
    cases (concrete c mem).notSplit.symm.trans named
  · refine (compared.and differ).imp_of_mem fun {c later} first second told plain _ literals own n => ?_
    have held (key : String) (looked : (later.get? key).isSome) :
        (newRecord n (overlay literals set.toList)).get? key = c.literal? key := by
      rw [newRecord,overlaidGet (newId n) own,apart later second key looked]
    obtain ⟨compared,key,v,w,clause,asked,differs⟩ := told
    have told : later.judges (newRecord n (overlay literals set.toList)) = .ok false := by
      refine (concrete later second).judgesOther (fun key v w asked there => ?_) asked ?_ differs
      · rw [held key (by rw [asked]; rfl)] at there
        exact compared key v w (Criteria.literalGiven there) asked
      · rw [held key (by rw [asked]; rfl),Criteria.literal?,clause]
    exact ⟨false,by rw [sought second,told],fun hit => by cases hit⟩

section Turn
variable {set : Assignments} {missing : Missing} {c : Criteria} {done : List Criteria}
  {rs : List Record} {operations : List Operation}

theorem Undisturbed.steady (undisturbed : Undisturbed set missing rs done c) {r : Record} (mem : r ∈ rs)
    (hit : c.hits r = true) (comparable : r.Comparable (c.asked set)) : Steady (c.asked set) r (turned set done r) := by
  cases named : c.splitDefault? with
  | none =>
    rw [Criteria.askedPlain named] at comparable ⊢
    exact turnedSteady comparable done
  | some parts =>
    rw [Criteria.askedSplit named]
    exact undisturbed.asked _ _ named r mem hit

-- A record that the find judges otherwise than at first stays as it is, either way.
theorem Undisturbed.settles (undisturbed : Undisturbed set missing rs done c) {r : Record}
    (mem : r ∈ rs) : turned set (done ++ [c]) r =
      if c.hits r then (turned set done r).settle (c.asked set) else turned set done r := by
  rw [turnedNext]
  rcases undisturbed.judged r mem with same | ⟨-,nothing⟩
  · rw [show c.hits (turned set done r) = c.hits r by rw [Criteria.hits,same]; rfl]
  · have still : (turned set done r).settle (c.asked set) = turned set done r := by
      rw [Record.settle,← (differingOk.mp nothing).2]
      rfl
    rw [still,ite_self,ite_self]

theorem changedInTurn (distinct : (ids rs).Nodup)
    (reply : Reply set missing c (rs.filter c.hits) operations)
    (undisturbed : Undisturbed set missing rs done c) {r : Record} (mem : r ∈ rs) :
    changed operations (turned set done r) = turned set (done ++ [c]) r := by
  rw [undisturbed.settles mem]
  generalize matched : rs.filter c.hits = found at reply
  cases reply with
  | found some settable =>
    subst matched
    rw [changedSettings distinct settable mem (turnedId set done r)]
    cases hit : c.hits r with
    | true =>
      have comparable := (settable r (List.mem_filter.mpr ⟨mem,hit⟩)).comparable
      exact (undisturbed.steady mem hit comparable).settles comparable
    | false => rfl
  | _ =>
    rw [if_neg (List.filter_eq_nil_iff.mp matched r mem)]
    rfl

theorem changedInTurns {finds : List Criteria} {replies : List (List Operation)}
    (distinct : (ids rs).Nodup) (unaffected : Unaffected set missing (done ++ finds) rs)
    (each : List.Forall₂ (fun c reply => Reply set missing c (rs.filter c.hits) reply) finds replies)
    {r : Record} (mem : r ∈ rs) :
    changed replies.flatten (turned set done r) = turned set (done ++ finds) r := by
  induction each generalizing done with
  | nil =>
    rw [List.append_nil]
    rfl
  | @cons c reply rest replies one later ih =>
    have first := changedInTurn distinct one (unaffected.undisturbed done c rest rfl) mem
    rw [List.append_cons] at unaffected
    rw [List.flatten_cons,changedAppend,first,ih unaffected,← List.append_cons]

section Again
variable {ys : List Record} (undisturbed : Undisturbed set missing rs done c)
  (spared : ∀ y ∈ ys, Spares set rs c y ∧ differing set y = .ok ∅)

include undisturbed spared in
theorem decidesAgain (decides : c.Decides rs) : c.Decides (rs.map (turned set done) ++ ys) := by
  refine ⟨decides.read,fun x mem => ?_⟩
  rcases List.mem_append.mp mem with mem | mem
  · obtain ⟨r,hr,rfl⟩ := List.mem_map.mp mem
    rcases undisturbed.judged r hr with same | ⟨told,-⟩
    · rw [same]
      exact decides.told r hr
    · exact told
  · obtain ⟨⟨hit,told,-⟩,-⟩ := spared x mem
    exact ⟨hit,told⟩

include spared in
theorem nothingOnNew {y : Record} (mem : y ∈ ys) (hit : c.hits y = true) :
    differing (c.asked set) y = .ok ∅ := by
  obtain ⟨⟨told,said,apart⟩,bare⟩ := spared y mem
  rw [Criteria.hitsIff,said] at hit
  cases named : c.splitDefault? with
  | none => rw [Criteria.askedPlain named,bare]
  | some parts =>
    rw [Criteria.askedSplit named]
    exact (apart (Except.ok.inj hit)).2 _ _ named

include spared in
theorem changedAgain (distinct : (ids (rs.map (turned set done) ++ ys)).Nodup)
    (settable : ∀ x ∈ (rs.map (turned set done) ++ ys).filter c.hits, Settable (c.asked set) x) :
    (rs.map (turned set done) ++ ys).map (changed
        (((rs.map (turned set done) ++ ys).filter c.hits).flatMap (settings (c.asked set)))) =
      rs.map (turned set (done ++ [c])) ++ ys := by
  rw [List.map_append,List.map_map]
  congr 1
  · refine List.map_congr_left fun r mem => ?_
    have there : turned set done r ∈ rs.map (turned set done) ++ ys :=
      List.mem_append_left _ (List.mem_map_of_mem mem)
    rw [Function.comp_apply,changedSettings distinct settable there rfl,turnedNext]
    rfl
  · refine (List.map_congr_left fun y mem => ?_).trans (List.map_id ys)
    rw [changedSettings distinct settable (List.mem_append_right _ mem) rfl]
    split
    · rename_i hit
      rw [← (differingOk.mp (nothingOnNew spared mem hit)).2]
      rfl
    · rfl

theorem hitsAgain : (rs.map (turned set done) ++ ys).filter c.hits =
    (rs.filter (c.hits ∘ turned set done)).map (turned set done) ++ ys.filter c.hits := by
  rw [List.filter_append,List.filter_map]

variable (settable : ∀ r ∈ rs.filter c.hits, Settable (c.asked set) r)

include undisturbed settable in
theorem differsAgain {r : Record} (mem : r ∈ rs) (hit : c.hits (turned set done r) = true) :
    differing (c.asked set) (turned set done r) = .ok ∅ ∨
      c.hits r = true ∧ (turned set done r).Comparable (c.asked set) ∧
      (due (c.asked set) (turned set done r)).toList ⊆ (due (c.asked set) r).toList := by
  rcases undisturbed.judged r mem with same | ⟨-,nothing⟩
  · have hit : c.hits r = true := by rwa [Criteria.hits,same] at hit
    have comparable := (settable r (List.mem_filter.mpr ⟨mem,hit⟩)).comparable
    have steady := undisturbed.steady mem hit comparable
    exact .inr ⟨hit,steady.comparable comparable,steady.fewer comparable⟩
  · exact .inl nothing

include undisturbed spared settable

theorem writtenAgain {x : Record} (mem : x ∈ (rs.map (turned set done) ++ ys).filter c.hits) :
    differing (c.asked set) x = .ok ∅ ∨ ∃ r ∈ rs.filter c.hits, x = turned set done r ∧
      x.Comparable (c.asked set) ∧ (due (c.asked set) x).toList ⊆ (due (c.asked set) r).toList := by
  rw [hitsAgain] at mem
  rcases List.mem_append.mp mem with mem | mem
  · obtain ⟨r,hr,rfl⟩ := List.mem_map.mp mem
    obtain ⟨there,hit⟩ := List.mem_filter.mp hr
    refine (differsAgain undisturbed settable there hit).imp_right fun ⟨first,comparable,fewer⟩ => ?_
    exact ⟨r,List.mem_filter.mpr ⟨there,first⟩,rfl,comparable,fewer⟩
  · obtain ⟨mem,hit⟩ := List.mem_filter.mp mem
    exact .inl (nothingOnNew spared mem hit)

theorem settableAgain : ∀ x ∈ (rs.map (turned set done) ++ ys).filter c.hits, Settable (c.asked set) x := by
  intro x mem
  rcases writtenAgain undisturbed spared settable mem with nothing | ⟨r,hr,rfl,comparable,fewer⟩
  · obtain ⟨comparable,none⟩ := differingOk.mp nothing
    refine ⟨comparable,fun differs => ?_⟩
    rw [← none] at differs
    cases differs
  · refine ⟨comparable,fun differs => ?_⟩
    obtain ⟨named,writable⟩ := (settable r hr).writable (notEmptyOf fewer differs)
    exact ⟨by rw [turnedId]; exact named,writableFewer fewer writable⟩

theorem lesserAgain :
    Lesser (((rs.map (turned set done) ++ ys).filter c.hits).flatMap (settings (c.asked set)))
      ((rs.filter c.hits).flatMap (settings (c.asked set))) := by
  have again := settableAgain undisturbed spared settable
  have unwritten : (ys.filter c.hits).flatMap (settings (c.asked set)) = [] := by
    refine List.flatMap_eq_nil_iff.mpr fun y mem => ?_
    obtain ⟨mem,hit⟩ := List.mem_filter.mp mem
    exact settingsNone (nothingOnNew spared mem hit)
  refine ⟨?_,fun operation mem => ?_,fun next => ?_⟩
  · rw [hitsAgain,List.flatMap_append,unwritten,List.append_nil,List.flatMap_map]
    refine flatMapFewer fun r mem hit some => ?_
    rcases differsAgain undisturbed settable mem hit with nothing | ⟨first,-,fewer⟩
    · exact absurd (settingsNone nothing) some
    · exact ⟨first,settingsFewer fewer⟩
  · obtain ⟨x,hx,written⟩ := List.mem_flatMap.mp mem
    obtain ⟨id,-,rfl,differs⟩ := memSettings (again x hx) written
    rcases writtenAgain undisturbed spared settable hx with nothing | ⟨r,hr,rfl,-,fewer⟩
    · rw [settingsNone nothing] at written
      cases written
    · refine ⟨.set r.id (due (c.asked set) r),List.mem_flatMap.mpr ⟨r,hr,?_⟩,fewer⟩
      rw [settings,if_neg (by simp [notEmptyOf fewer differs])]
      exact List.mem_singleton_self _
  · rw [newsOfSettings again,newsOfSettings settable]

omit settable

theorem unmatchedAgain (adds : missing = .add) (unmatched : rs.filter c.hits = []) :
    (rs.map (turned set done) ++ ys).filter c.hits = [] := by
  have out := List.filter_eq_nil_iff.mp unmatched
  refine List.filter_eq_nil_iff.mpr fun x mem hit => ?_
  rcases List.mem_append.mp mem with mem | mem
  · obtain ⟨r,hr,rfl⟩ := List.mem_map.mp mem
    obtain ⟨q,hq,also⟩ := (undisturbed.matched (by simp [adds])).mp ⟨r,hr,hit⟩
    exact out q hq also
  · obtain ⟨⟨told,said,apart⟩,-⟩ := spared x mem
    rw [Criteria.hitsIff,said] at hit
    obtain ⟨⟨q,hq,also⟩,-⟩ := apart (Except.ok.inj hit)
    exact out q hq also

-- The turn of a find by itself: it comes to no more than what was planned for it at first.
theorem replyAgain (distinct : (ids (rs.map (turned set done) ++ ys)).Nodup)
    (reply : Reply set missing c (rs.filter c.hits) operations) :
    ∃ again, Reply set missing c ((rs.map (turned set done) ++ ys).filter c.hits) again ∧
      Lesser again operations ∧
      (rs.map (turned set done) ++ ys).map (changed again) =
        rs.map (turned set (done ++ [c])) ++ ys := by
  have found (settable : ∀ r ∈ rs.filter c.hits, Settable (c.asked set) r)
      (some : (rs.map (turned set done) ++ ys).filter c.hits = [] → missing = .ignore) :
      ∃ again, Reply set missing c ((rs.map (turned set done) ++ ys).filter c.hits) again ∧
        Lesser again ((rs.filter c.hits).flatMap (settings (c.asked set))) ∧
        (rs.map (turned set done) ++ ys).map (changed again) =
          rs.map (turned set (done ++ [c])) ++ ys := by
    have again := settableAgain undisturbed spared settable
    refine ⟨_,?_,lesserAgain undisturbed spared settable,changedAgain spared distinct again⟩
    by_cases none : (rs.map (turned set done) ++ ys).filter c.hits = []
    · rw [none]
      exact .ignored (some none)
    · exact .found none again
  generalize matched : rs.filter c.hits = asked at reply
  cases reply with
  | found some settable =>
    subst matched
    refine found settable fun none => ?_
    by_contra counts
    obtain ⟨q,hq⟩ := List.exists_mem_of_ne_nil _ some
    obtain ⟨hq,hit⟩ := List.mem_filter.mp hq
    obtain ⟨r,hr,also⟩ := (undisturbed.matched counts).mpr ⟨q,hq,hit⟩
    exact List.filter_eq_nil_iff.mp none _
      (List.mem_append_left _ (List.mem_map_of_mem hr)) also
  | added adds plain own writable =>
    have none := unmatchedAgain undisturbed spared adds matched
    have same := changedAgain spared distinct (by rw [none]; nofun)
    rw [none] at same ⊢
    exact ⟨_,.added adds plain own writable,.refl _,same⟩
  | ignored ignores =>
    have all := found (by rw [matched]; nofun) fun _ => ignores
    rw [matched] at all
    exact all

end Again
end Turn

end RouterReconciler

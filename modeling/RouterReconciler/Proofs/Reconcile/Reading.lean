import Mathlib.Data.List.Find
import RouterReconciler.Proofs.Device.Effects
import RouterReconciler.Proofs.Record.Fields
import RouterReconciler.Proofs.Reconcile.Quiet

/-! What planning reads from a replica: the records that are not dynamic, and of these the ones that
meet criteria, whether they are matched here or by the device. -/
namespace RouterReconciler
open Replica Step

def lasting (rs : List Record) : List Record := rs.filter (fun r => !r.flag "dynamic")

def fleeting (rs : List Record) : List Record := rs.filter (fun r => r.flag "dynamic")

theorem lastingDistinct {rs : List Record} (distinct : (ids rs).Nodup) : (ids (lasting rs)).Nodup :=
  distinct.sublist (List.filter_sublist.map _)

theorem memLasting {rs : List Record} (distinct : (ids rs).Nodup) {r : Record} (hr : r ∈ rs) :
    r ∈ lasting rs ↔ r.id ∉ ids (fleeting rs) := by
  rw [lasting,List.mem_filter]
  constructor
  · rintro ⟨-,alive⟩ mem
    obtain ⟨x,hx,same⟩ := List.mem_map.mp mem
    obtain ⟨hx,dynamic⟩ := List.mem_filter.mp hx
    cases sameRecord distinct hx hr same
    simp [dynamic] at alive
  · intro out
    refine ⟨hr,?_⟩
    cases dynamic : r.flag "dynamic" with
    | false => rfl
    | true => exact absurd (List.mem_map_of_mem (List.mem_filter.mpr ⟨hr,dynamic⟩)) out

theorem notFleeting {rs : List Record} (distinct : (ids rs).Nodup) {r : Record} (hr : r ∈ rs) :
    (!(ids (fleeting rs)).contains r.id) = true ↔ r ∈ lasting rs := by
  rw [memLasting distinct hr]; simp

theorem apartFleeting {rs : List Record} {id : Option ItemId} (out : id ∉ ids rs) :
    id ∉ ids (fleeting rs) := fun mem => out (List.map_subset _ (List.filter_subset_self _) mem)

def meets [PatternEngine] (criteria : Criteria) (r : Record) : Bool :=
  match Selector.ofCriteria criteria with
  | .ok s =>
    match s.matches? r with
    | .ok hit => hit
    | .error _ => false
  | .error _ => false

theorem passesAlike [PatternEngine] {r q : Record} {clauses : List (String × Condition)} {tests : List (String × Test)}
    (read : Test.ofClauses clauses = .ok tests)
    (alike : ∀ clause ∈ clauses, r.get? clause.1 = q.get? clause.1) :
    Selector.passesAll r tests = Selector.passesAll q tests := by
  induction clauses generalizing tests with
  | nil => cases read; rfl
  | cons clause rest ih =>
    obtain ⟨same,others⟩ := List.forall_mem_cons.mp alike
    simp only [Test.ofClauses] at read
    split at read
    · cases read
    · split at read
      · rename_i later
        cases read
        rw [Selector.passesAll,Selector.passesAll,same,ih later others]
      · cases read

theorem meetsAlike [PatternEngine] {criteria : Criteria} {r q : Record}
    (alike : ∀ key, (criteria.get? key).isSome → r.get? key = q.get? key) :
    meets criteria r = meets criteria q := by
  unfold meets Selector.ofCriteria
  cases read : Test.ofClauses criteria.toList with
  | error e => rfl
  | ok tests =>
    have same : Selector.passesAll r tests = Selector.passesAll q tests :=
      passesAlike read fun clause mem => alike clause.1 (by rw [Entries.getMem.mpr mem]; rfl)
    simp only [Selector.matches?,Selector.isSkipped,Bool.false_and,Bool.or_self,Bool.false_eq_true,
      if_false,same]

def placesWhere (p : Record → Bool) (index : Nat) (rs : List Record) : List Nat :=
  ((rs.zipIdx index).filter (fun x => p x.1)).map Prod.snd

theorem placesWhereCons (p : Record → Bool) (index : Nat) (r : Record) (rest : List Record) :
    placesWhere p index (r :: rest) =
      if p r then index :: placesWhere p (index + 1) rest else placesWhere p (index + 1) rest := by
  rw [placesWhere,List.zipIdx_cons,List.filter_cons]
  split <;> rfl

theorem placesWhereCongr {p q : Record → Bool} {rs : List Record} (index : Nat)
    (h : ∀ r ∈ rs, p r = q r) : placesWhere p index rs = placesWhere q index rs := by
  refine congrArg (List.map Prod.snd) (List.filter_congr fun x hx => h x.1 ?_)
  exact List.fst_mem_of_mem_zipIdx hx

-- The first of the places that pass a test on places, when the test tells what `free` tells of the
-- record there.
theorem firstPlace (p free : Record → Bool) (passes : Nat → Bool) {rs : List Record}
    (h : ∀ r j, rs[j]? = some r → passes j = free r) :
    (∃ j r, (placesWhere p 0 rs).find? passes = some j ∧ rs[j]? = some r ∧
      rs.find? (fun r => p r && free r) = some r) ∨
    ((placesWhere p 0 rs).find? passes = none ∧ rs.find? (fun r => p r && free r) = none) := by
  have places : (placesWhere p 0 rs).find? passes =
      (rs.zipIdx.find? (fun x => p x.1 && free x.1)).map Prod.snd := by
    rw [placesWhere,List.find?_map,List.find?_filter]
    refine congrArg (Option.map Prod.snd) (List.find?_congr fun x hx => ?_)
    rw [Function.comp_apply,h x.1 x.2 (List.mem_zipIdx_iff_getElem?.mp hx),Bool.decide_and]
    simp
  have records : rs.find? (fun r => p r && free r) =
      (rs.zipIdx.find? (fun x => p x.1 && free x.1)).map Prod.fst := by
    conv_lhs => rw [← List.zipIdx_map_fst 0 rs,List.find?_map]
    rfl
  rw [places,records]
  cases found : rs.zipIdx.find? (fun x => p x.1 && free x.1) with
  | none => exact .inr ⟨rfl,rfl⟩
  | some x =>
    exact .inl ⟨x.2,x.1,rfl,List.mem_zipIdx_iff_getElem?.mp (List.mem_of_find?_eq_some found),rfl⟩

theorem plainSelector [PatternEngine] {criteria : Criteria} {s : Selector}
    (h : Selector.ofCriteria criteria = .ok s) : s.criteria = criteria ∧
    s.skipDynamic = false ∧ s.skipBuiltin = false ∧ s.skipDefault = false := by
  unfold Selector.ofCriteria at h
  split at h <;> cases h
  exact ⟨rfl,rfl,rfl,rfl⟩

theorem matchesLasting [PatternEngine] {criteria : Criteria} {s : Selector} {r : Record}
    (h : Selector.ofCriteria criteria = .ok s) (alive : r.flag "dynamic" = false) :
    s.excludingDynamic.matches? r = s.matches? r := by
  obtain ⟨-,dynamic,builtin,default⟩ := plainSelector h
  simp [Selector.matches?,Selector.isSkipped,Selector.excludingDynamic,dynamic,builtin,default,alive]

theorem matchesMeets [PatternEngine] {criteria : Criteria} {s : Selector} {r : Record} {hit : Bool}
    (h : Selector.ofCriteria criteria = .ok s) (alive : r.flag "dynamic" = false)
    (judged : s.excludingDynamic.matches? r = .ok hit) : meets criteria r = hit := by
  rw [matchesLasting h alive] at judged
  rw [meets,h]
  simp only [judged]

theorem aliveOfLasting {rs : List Record} {r : Record} (h : r ∈ lasting rs) :
    r.flag "dynamic" = false := by simpa using (List.mem_filter.mp h).2

theorem selectAll (rs : List Record) :
    Selector.all.excludingDynamic.select rs = .ok (lasting rs) := by
  induction rs with
  | nil => rfl
  | cons r rest ih =>
    cases hd : r.flag "dynamic" <;>
      simp [Selector.select,Selector.matches?,Selector.isSkipped,Selector.excludingDynamic,
        Selector.all,Selector.passesAll,lasting,hd] at ih ⊢ <;> simp [ih]

theorem selectFilter {s : Selector} {rs found : List Record} (h : s.select rs = .ok found) :
    (∀ r ∈ rs, ∃ hit, s.matches? r = .ok hit) ∧ ∀ r, r ∈ found ↔ r ∈ rs ∧ s.matches? r = .ok true := by
  induction rs generalizing found with
  | nil => cases h; simp
  | cons r rest ih =>
    simp only [Selector.select] at h
    split at h
    · cases h
    · rename_i hit judged
      split at h
      · rename_i others later
        obtain ⟨all,members⟩ := ih later
        cases h
        refine ⟨fun x hx => ?_,fun x => ?_⟩
        · rcases List.mem_cons.mp hx with rfl | hx
          · exact ⟨hit,judged⟩
          · exact all x hx
        · cases hit with
          | true =>
            simp only [if_true,List.mem_cons,members]
            constructor
            · rintro (rfl | h)
              · exact ⟨.inl rfl,judged⟩
              · exact ⟨.inr h.1,h.2⟩
            · rintro ⟨rfl | h,passes⟩
              · exact .inl rfl
              · exact .inr ⟨h,passes⟩
          | false =>
            simp only [Bool.false_eq_true,if_false,List.mem_cons,members]
            constructor
            · exact fun h => ⟨.inr h.1,h.2⟩
            · rintro ⟨rfl | h,passes⟩
              · rw [judged] at passes; cases passes
              · exact ⟨h,passes⟩
      · cases h

namespace Reconcile

theorem fleetingStays {r : Record} (h : r.flag "dynamic" = true) : isRemovable r = false := by
  simp [isRemovable,Selector.isSkipped,Selector.removable,h]

theorem removableLasts {r : Record} (h : isRemovable r = true) : r.flag "dynamic" = false := by
  cases dynamic : r.flag "dynamic" with
  | false => rfl
  | true => rw [fleetingStays dynamic] at h; cases h

theorem readOk {f : Facility} {s : Selector} {found : List Record} {d d' : Replica}
    (h : f.read s d = (.ok found,d')) :
    f.shape ≠ .singleton ∧ d.HasItems f.path ∧
      s.select (d.records f.path) = .ok found := by
  simp only [Facility.read,bindOk,liftOk] at h
  obtain ⟨_,_,⟨passed,rfl⟩,read⟩ := h
  have several : f.shape ≠ .singleton := by
    intro single
    simp [Facility.requireItems,single] at passed
  refine ⟨several,?_⟩
  have read : Replica.read f.path s d = (.ok found,d') := read
  unfold Replica.read at read
  split at read
  · rename_i rs there
    obtain ⟨selected,-⟩ := Prod.mk.inj read
    exact ⟨by simp [HasItems,there],by rw [Replica.records,there]; exact selected⟩
  · cases read
  · rename_i absent
    cases read
    exact ⟨by simp [HasItems,absent],by simp [Replica.records,absent,Selector.select]⟩

theorem snapshotOk {f : Facility} {records : List Record} {d d' : Replica}
    (h : snapshot f d = (.ok records,d')) :
    f.shape ≠ .singleton ∧ d.HasItems f.path ∧
      records = lasting (d.records f.path) ∧ d' = d := by
  obtain ⟨several,items,read⟩ := readOk h
  rw [selectAll] at read
  exact ⟨several,items,(Except.ok.inj read).symm,(snapshotQuiet f d).state h⟩

theorem hitsPlaces {s : Selector} {index : Nat} {rs : List Record} {places : List Nat}
    {p : Record → Bool} (agree : ∀ r ∈ rs, ∀ hit, s.matches? r = .ok hit → p r = hit)
    (h : hits s index rs = .ok places) : places = placesWhere p index rs := by
  induction rs generalizing index places with
  | nil => cases h; rfl
  | cons r rest ih =>
    simp only [hits] at h
    split at h
    · cases h
    · rename_i hit judged
      split at h
      · rename_i others later
        cases h
        rw [placesWhereCons,agree r List.mem_cons_self hit judged,
          ih (fun x hx => agree x (List.mem_cons_of_mem _ hx)) later]
      · cases h

theorem placesOfWhere (names : List ItemId) (index : Nat) (rs : List Record) :
    placesOf names index rs = placesWhere (fun r => r.id.any names.contains) index rs := by
  induction rs generalizing index with
  | nil => rfl
  | cons r rest ih => rw [placesOf,placesWhereCons,ih]

theorem selectOk [PatternEngine] {f : Facility} {criteria : Criteria} {places : List Nat} {d d' : Replica}
    (distinct : (ids (d.records f.path)).Nodup)
    (named : criteria.hasRaw = true → ∀ r ∈ lasting (d.records f.path), r.id.isSome)
    (h : select f (lasting (d.records f.path)) criteria d = (.ok places,d')) :
    places = placesWhere (meets criteria) 0 (lasting (d.records f.path)) := by
  simp only [select,bindOk,liftOk] at h
  obtain ⟨s,_,⟨read,rfl⟩,h⟩ := h
  split at h
  · obtain ⟨found,-⟩ := liftOk.mp h
    exact hitsPlaces (fun r hr hit judged => matchesMeets read (aliveOfLasting hr) judged) found
  · rename_i remote
    have raw : criteria.hasRaw = true := by
      simpa [Selector.isLocal,Selector.excludingDynamic,(plainSelector read).1] using remote
    simp only [bindOk,pureOk,Facility.findIds] at h
    obtain ⟨names,_,⟨found,_,listed,rfl,rfl⟩,rfl,-⟩ := h
    rw [placesOfWhere]
    refine placesWhereCongr 0 fun r hr => ?_
    obtain ⟨judged,members⟩ := selectFilter (readOk listed).2.2
    have there : r ∈ d.records f.path := (List.mem_filter.mp hr).1
    obtain ⟨hit,told⟩ := judged r there
    rw [matchesMeets read (aliveOfLasting hr) told]
    obtain ⟨id,hid⟩ := Option.isSome_iff_exists.mp (named raw r hr)
    rw [hid,Option.any_some,Bool.eq_iff_iff,List.contains_iff_mem,List.mem_filterMap]
    constructor
    · rintro ⟨x,hx,same⟩
      obtain ⟨hx,passes⟩ := (members x).mp hx
      cases sameRecord distinct hx there (same.trans hid.symm)
      exact Except.ok.inj (told.symm.trans passes)
    · rintro rfl
      exact ⟨r,(members r).mpr ⟨there,told⟩,hid⟩

end Reconcile
end RouterReconciler

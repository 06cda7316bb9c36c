import RouterReconciler.Device.Snapshot
import RouterReconciler.Proofs.Device.Ids

/-! Loading. A record without an id gets one above every number in a given id, so a replica is sound
if the ids given in each of its facilities are distinct. -/
namespace RouterReconciler
open Text

theorem Entries.memPut {α : Type} {key : String} {value : α} {l : List (String × α)}
    {entry : String × α} (h : entry ∈ put key value l) : entry = (key,value) ∨ entry ∈ l := by
  induction l with
  | nil => exact .inl (List.mem_singleton.mp h)
  | cons first rest ih =>
    obtain ⟨k,v⟩ := first
    unfold put at h
    split at h
    · exact (List.mem_cons.mp h).imp_right (List.mem_cons_of_mem _)
    · rcases List.mem_cons.mp h with rfl | h
      · exact .inr List.mem_cons_self
      · exact (ih h).imp_right (List.mem_cons_of_mem _)

theorem Entries.memOfList {α : Type} {l : List (String × α)} {entry : String × α}
    (h : entry ∈ (ofList l).toList) : entry ∈ l := by
  have later : ∀ (done : Entries α), entry ∈ (l.foldl (fun e x => e.insert x.1 x.2) done).toList →
      entry ∈ done.toList ∨ entry ∈ l := by
    clear h
    induction l with
    | nil => exact fun _ => .inl
    | cons first rest ih =>
      intro done mem
      rcases ih _ mem with mem | mem
      · rcases memPut mem with rfl | mem
        · exact .inr List.mem_cons_self
        · exact .inl mem
      · exact .inr (List.mem_cons_of_mem _ mem)
  rcases later empty h with mem | mem
  · cases mem
  · exact mem

theorem okOfToOption {ε α : Type} {x : Except ε α} {a : α} (h : x.toOption = some a) : x = .ok a := by
  cases x <;> cases h
  rfl

namespace Replica

theorem giveIdsNext (next : Nat) (rs : List Record) : next ≤ (giveIds next rs).2 := by
  induction rs generalizing next with
  | nil => exact Nat.le_refl _
  | cons r rest ih =>
    unfold giveIds
    split
    · exact ih next
    · exact Nat.le_of_succ_le (ih (next + 1))

theorem giveIdsOrigin {next : Nat} {rs : List Record} {r : Record} (h : r ∈ (giveIds next rs).1) :
    r ∈ rs ∧ r.id.isSome ∨ ∃ n, r.id = some (newId n) ∧ next ≤ n ∧ n < (giveIds next rs).2 := by
  induction rs generalizing next with
  | nil => cases h
  | cons x rest ih =>
    unfold giveIds at h ⊢
    split at h
    · rename_i id named
      rcases List.mem_cons.mp h with rfl | h
      · exact .inl ⟨List.mem_cons_self,by simp [named]⟩
      · exact (ih h).imp_left fun both => ⟨List.mem_cons_of_mem _ both.1,both.2⟩
    · rcases List.mem_cons.mp h with rfl | h
      · exact .inr ⟨next,rfl,Nat.le_refl _,giveIdsNext (next + 1) rest⟩
      · refine (ih h).imp (fun both => ⟨List.mem_cons_of_mem _ both.1,both.2⟩) ?_
        rintro ⟨n,named,lower,upper⟩
        exact ⟨n,named,by omega,upper⟩

theorem giveIdsDistinct {next : Nat} {rs : List Record} (word : (giveIds next rs).2 ≤ maxWord64)
    (distinct : (rs.filterMap Record.id).Nodup)
    (below : ∀ r ∈ rs, ∀ id ∈ r.id, ∀ n ∈ idNumber? id, n < next) :
    (ids (giveIds next rs).1).Nodup := by
  induction rs generalizing next with
  | nil => exact List.nodup_nil
  | cons x rest ih =>
    unfold giveIds at word ⊢
    cases named : x.id with
    | some id =>
      simp only [named] at word ⊢
      rw [List.filterMap_cons_some named] at distinct
      obtain ⟨apart,later⟩ := List.nodup_cons.mp distinct
      refine List.nodup_cons.mpr ⟨fun mem => ?_,
        ih word later fun r hr => below r (List.mem_cons_of_mem _ hr)⟩
      obtain ⟨r,hr,same⟩ := List.mem_map.mp mem
      rw [named] at same
      rcases giveIdsOrigin hr with ⟨there,-⟩ | ⟨n,fresh,lower,upper⟩
      · exact apart (List.mem_filterMap.mpr ⟨r,there,same⟩)
      · -- the id given here would read as the number of a new one
        cases fresh.symm.trans same
        have := below x List.mem_cons_self _ named n (newIdReads (by omega))
        omega
    | none =>
      simp only [named] at word ⊢
      rw [List.filterMap_cons_none named] at distinct
      have room := giveIdsNext (next + 1) rest
      have above : ∀ r ∈ rest, ∀ id ∈ r.id, ∀ n ∈ idNumber? id, n < next :=
        fun r hr => below r (List.mem_cons_of_mem _ hr)
      refine List.nodup_cons.mpr ⟨fun mem => ?_,ih word distinct fun r hr id hid n hn =>
        Nat.lt_succ_of_lt (above r hr id hid n hn)⟩
      obtain ⟨r,hr,same⟩ := List.mem_map.mp mem
      rcases giveIdsOrigin hr with ⟨there,-⟩ | ⟨n,fresh,lower,upper⟩
      · have := above r there _ same next (newIdReads (by omega))
        omega
      · have := Option.some.inj (fresh.symm.trans same)
        exact newIdDiffers (by omega) (by omega) (by omega) this

theorem giveAllIdsNext (next : Nat) (entries : List (String × Store)) :
    next ≤ (giveAllIds next entries).2 := by
  induction entries generalizing next with
  | nil => exact Nat.le_refl _
  | cons entry rest ih =>
    obtain ⟨path,rs | r⟩ := entry
    · exact Nat.le_trans (giveIdsNext next rs) (ih _)
    · exact ih next

theorem giveAllIdsOrigin {next : Nat} {entries : List (String × Store)} {path : String}
    {given : List Record} (h : (path,.items given) ∈ (giveAllIds next entries).1) :
    ∃ m rs, (path,.items rs) ∈ entries ∧ next ≤ m ∧ given = (giveIds m rs).1 ∧
      (giveIds m rs).2 ≤ (giveAllIds next entries).2 := by
  induction entries generalizing next with
  | nil => cases h
  | cons entry rest ih =>
    obtain ⟨other,rs | r⟩ := entry
    · rcases List.mem_cons.mp h with same | h
      · cases same
        exact ⟨next,rs,List.mem_cons_self,Nat.le_refl _,rfl,giveAllIdsNext _ rest⟩
      · obtain ⟨m,old,mem,lower,same,upper⟩ := ih h
        exact ⟨m,old,List.mem_cons_of_mem _ mem,Nat.le_trans (giveIdsNext next rs) lower,same,upper⟩
    · rcases List.mem_cons.mp h with same | h
      · cases same
      · obtain ⟨m,old,mem,lower,same,upper⟩ := ih h
        exact ⟨m,old,List.mem_cons_of_mem _ mem,lower,same,upper⟩

theorem firstAbove (numbers : List Nat) (start : Nat) :
    start ≤ numbers.foldl (fun n id => max n (id + 1)) start ∧
    ∀ n ∈ numbers, n < numbers.foldl (fun n id => max n (id + 1)) start := by
  induction numbers generalizing start with
  | nil => simp
  | cons number rest ih =>
    obtain ⟨grows,above⟩ := ih (max start (number + 1))
    refine ⟨Nat.le_trans (Nat.le_max_left _ _) grows,fun n mem => ?_⟩
    rcases List.mem_cons.mp mem with rfl | mem
    · exact Nat.lt_of_succ_le (Nat.le_trans (Nat.le_max_right _ _) grows)
    · exact above n mem

def given? (text : String) : Option (Entries Store) :=
  match Json.parse? text with
  | some (.table members) => facilitiesFrom? ∅ members
  | _ => none

theorem loadedGiven {text : String} {d : Replica} (h : ofSnapshot text = .ok d) :
    ∃ facilities, given? text = some facilities ∧ d = ofFacilities facilities := by
  unfold ofSnapshot at h
  split at h <;> cases h
  rename_i read
  obtain ⟨tree,parsed,read⟩ := Option.bind_eq_some_iff.mp read
  unfold ofJson? at read
  split at read
  · obtain ⟨facilities,found,rfl⟩ := Option.map_eq_some_iff.mp read
    exact ⟨facilities,by rw [given?,parsed]; exact found,rfl⟩
  · cases read

theorem loadedOfGiven {text : String} {facilities : Entries Store}
    (given : given? text = some facilities) : ofSnapshot text = .ok (ofFacilities facilities) := by
  unfold given? at given
  split at given
  · rename_i members parsed
    simp [ofSnapshot,parsed,ofJson?,given]
  · cases given

inductive Loaded (text : String) : Replica → Prop where
  | choosing {d : Replica} (failing : Option Nat) (read : ofSnapshot text = .ok d) :
      Loaded text { d with failAtWrite := failing }

theorem Loaded.plain {text : String} {d : Replica} (read : ofSnapshot text = .ok d) : Loaded text d :=
  .choosing d.failAtWrite read

theorem loadedSound {facilities : Entries Store}
    (distinct : ∀ path rs, (path,.items rs) ∈ facilities.toList → (rs.filterMap Record.id).Nodup)
    (word : (ofFacilities facilities).nextId ≤ maxWord64) : (ofFacilities facilities).Sound := by
  refine .ofEntries fun path given mem => ?_
  obtain ⟨m,rs,there,lower,rfl,upper⟩ := giveAllIdsOrigin (Entries.memOfList mem)
  have below : ∀ r ∈ rs, ∀ id ∈ r.id, ∀ n ∈ idNumber? id, n < m := by
    intro r hr id hid n hn
    refine Nat.lt_of_lt_of_le ((firstAbove _ 1).2 n ?_) lower
    refine List.mem_flatMap.mpr ⟨_,there,List.mem_filterMap.mpr ⟨r,hr,?_⟩⟩
    rw [hid]
    exact hn
  refine ⟨giveIdsDistinct (Nat.le_trans upper word) (distinct path rs ?_) below,?_⟩
  · exact (List.mergeSort_perm _ _).mem_iff.mp there
  · intro r hr id hid n hn
    refine Nat.lt_of_lt_of_le ?_ upper
    rcases giveIdsOrigin hr with ⟨old,-⟩ | ⟨k,fresh,-,above⟩
    · exact Nat.lt_of_lt_of_le (below r old id hid n hn) (giveIdsNext m rs)
    · cases fresh.symm.trans hid
      have read := newIdReads (Nat.le_trans (Nat.le_of_lt above) (Nat.le_trans upper word))
      cases read.symm.trans hn
      exact above

theorem loadedIdentified (facilities : Entries Store) : (ofFacilities facilities).Identified := by
  refine .ofEntries fun path given mem r hr => ?_
  obtain ⟨m,rs,-,-,rfl,-⟩ := giveAllIdsOrigin (Entries.memOfList mem)
  rcases giveIdsOrigin hr with ⟨-,named⟩ | ⟨n,named,-⟩
  · exact named
  · rw [named]; rfl

end Replica
end RouterReconciler

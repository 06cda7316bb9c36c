import RouterReconciler.Proofs.Device.Contents
import RouterReconciler.Proofs.Device.Loading

/-! Ids stay distinct, and no id comes back. The counter is above the number in every id that a record
has had, and an id that it gives reads back as its number. Whatever else stands in a loaded id, it is
not what the counter gives. -/
namespace RouterReconciler
open Text

namespace Replica

def GivenApart (text : String) : Prop :=
  ∀ facilities, given? text = some facilities →
    ∀ path rs, (path,.items rs) ∈ facilities.toList → (rs.filterMap Record.id).Nodup

structure Numbered (next : Nat) (names : List (Option ItemId)) : Prop where
  named : none ∉ names
  distinct : names.Nodup
  below : ∀ id, some id ∈ names → ∀ n ∈ idNumber? id, n < next

namespace Numbered
variable {next : Nat} {names others : List (Option ItemId)}

theorem later (h : Numbered next names) {last : Nat} (grows : next ≤ last) : Numbered last names :=
  ⟨h.named,h.distinct,fun id mem n read => Nat.lt_of_lt_of_le (h.below id mem n read) grows⟩

theorem fewer (h : Numbered next names) (fewer : others.Sublist names) : Numbered next others :=
  ⟨fun mem => h.named (fewer.subset mem),h.distinct.sublist fewer,
    fun id mem => h.below id (fewer.subset mem)⟩

theorem perm (h : Numbered next names) (same : others.Perm names) : Numbered next others :=
  ⟨fun mem => h.named (same.mem_iff.mp mem),same.nodup_iff.mpr h.distinct,
    fun id mem => h.below id (same.mem_iff.mp mem)⟩

theorem apart (h : Numbered next names) {n : Nat} (above : next ≤ n) (word : n ≤ maxWord64) :
    some (newId n) ∉ names := fun mem => by
  have := h.below _ mem n (newIdReads word)
  omega

theorem extended (h : Numbered next names) (word : next ≤ maxWord64) :
    Numbered (next + 1) (some (newId next) :: names) := by
  refine ⟨by simpa using h.named,List.nodup_cons.mpr ⟨h.apart (Nat.le_refl _) word,h.distinct⟩,
    fun id mem n read => ?_⟩
  rcases List.mem_cons.mp mem with same | mem
  · cases same
    cases (newIdReads word).symm.trans read
    exact Nat.lt_succ_self _
  · exact Nat.lt_succ_of_lt (h.below id mem n read)

end Numbered

theorem idsAssigned (rs : List Record) (i : Nat) (values : Assignments) :
    ids (rs.modify i (·.apply values)) = ids rs := by
  induction rs generalizing i with
  | nil => simp
  | cons r rest ih =>
    cases i with
    | zero => simp [ids]
    | succ i => simpa [ids] using ih i

-- The counter is a word of 64 bits; nothing is said of one that has run over.
def NumberedStore (next : Nat) (_ : String) : Store → Prop
  | .items rs => next ≤ maxWord64 → Numbered next (ids rs)
  | .singleton _ => True

theorem lastingNumbers : Lasting (fun _ => True) (fun _ => True) NumberedStore where
  later {n m path store} grows h := by
    cases store with
    | items rs => exact fun word => (h (Nat.le_trans grows word)).later grows
    | singleton r => trivial
  made _ _ := ⟨by simp [ids],List.nodup_nil,by simp [ids]⟩
  erased i h word := (h word).fewer ((List.eraseIdx_sublist _ i).map _)
  moved same h word := (h word).perm (same.map _)
  changed {n path rs values} _ i h := by
    intro word
    rw [idsAssigned]
    exact h word
  added {n path rs values} _ i h := by
    intro word
    have old := h (Nat.le_of_succ_le word)
    by_cases inside : i ≤ rs.length
    · have named : (newRecord n values).id = some (newId n) := Record.idApply _ _
      have perm : (ids (rs.insertIdx i (newRecord n values))).Perm (some (newId n) :: ids rs) := by
        rw [← named]
        exact (List.perm_insertIdx _ _ inside).map Record.id
      exact (old.extended (Nat.le_of_succ_le word)).perm perm
    · rw [List.insertIdx_of_length_lt (by omega)]
      exact old.later (Nat.le_succ n)
  kept _ _ := trivial
  begun _ _ := trivial
  switches _ := trivial

theorem historyCounts (requests : List Request) (d : Replica) :
    ∀ m ∈ Request.history requests d, m.nextId ≤ (Request.after requests d).nextId := by
  induction requests generalizing d with
  | nil =>
    intro m mem
    rw [List.mem_singleton.mp mem]
    exact Nat.le_refl _
  | cons request rest ih =>
    intro m mem
    rcases List.mem_cons.mp mem with rfl | mem
    · exact Request.afterKeeps (request :: rest) (fun other _ => requestCounts m.nextId other)
        (Nat.le_refl _)
    · exact ih _ m mem

theorem loadedNumbers {text : String} {d : Replica} (loaded : Loaded text d)
    (apart : GivenApart text) : Stores 0 NumberedStore d := by
  obtain ⟨failing,read⟩ := loaded
  obtain ⟨facilities,given,rfl⟩ := loadedGiven read
  refine ⟨Nat.zero_le _,fun path store there => ?_⟩
  cases store with
  | singleton r => trivial
  | items rs =>
    intro word
    have sound := loadedSound (apart facilities given) word
    have identified := loadedIdentified facilities path rs there
    refine ⟨fun mem => ?_,sound.distinct path rs there,fun id mem n read => ?_⟩
    · obtain ⟨r,hr,none⟩ := List.mem_map.mp mem
      have some := identified r hr
      rw [none] at some
      cases some
    · obtain ⟨r,hr,named⟩ := List.mem_map.mp mem
      exact sound.below path rs there r hr id named n read

end Replica

open Replica in
/-- Ids are distinct within a facility, no record is without one, and the one that an addition gives was
never before that of a record in any facility. -/
theorem idsUniqueAndFresh {text : String} {d : Replica} (loaded : Loaded text d)
    (apart : GivenApart text) (requests : List Request)
    (word : (Request.after requests d).nextId ≤ maxWord64) :
    (∀ path rs, (Request.after requests d).facilities.get? path = some (.items rs) →
      (∀ r ∈ rs, r.id.isSome) ∧ (ids rs).Nodup) ∧
    ∀ path values before id last,
      Replica.add path values before (Request.after requests d) = (.ok id,last) →
      ∀ m ∈ Request.history requests d, ∀ other rs, m.facilities.get? other = some (.items rs) →
        ∀ r ∈ rs, r.id ≠ some id := by
  have kept := Request.historyKeeps requests
    (fun request _ => requestStores lastingNumbers 0 (requestSuits request))
    (loadedNumbers loaded apart)
  refine ⟨fun path rs there => ?_,fun path values before id last added m mem other rs there r hr named => ?_⟩
  · have numbered := (kept _ (Request.afterMem requests d)).each path (.items rs) there word
    refine ⟨fun r hr => Option.isSome_iff_ne_none.mpr fun none => numbered.named ?_,numbered.distinct⟩
    exact none ▸ List.mem_map_of_mem hr
  · obtain ⟨rfl,-⟩ := addOk added
    have past := historyCounts requests d m mem
    have numbered := (kept m mem).each other (.items rs) there (Nat.le_trans past word)
    exact numbered.apart past word (named ▸ List.mem_map_of_mem hr)

def mixedIds : String :=
  "\x7b\"/ip address\": [\x7b\".id\": \"*A\"\x7d], \"/ip pool\": [\x7b\".id\": \"*a\"\x7d, " ++
  "\x7b\".id\": \"*0B\"\x7d, \x7b\"name\": \"lan\"\x7d, \x7b\".id\": \"lease\"\x7d]\x7d"

def mixedGiven : Entries Store := Entries.ofList [
  ("/ip address",.items [⟨some "*A",∅⟩]),
  ("/ip pool",.items [⟨some "*a",∅⟩,⟨some "*0B",∅⟩,⟨none,Entries.ofList [("name",.str "lan")]⟩,
    ⟨some "lease",∅⟩])]

def mixedReplica : Replica :=
  ⟨Entries.ofList [
    ("/ip address",.items [⟨some "*A",∅⟩]),
    ("/ip pool",.items [⟨some "*a",∅⟩,⟨some "*0B",∅⟩,⟨some "*C",Entries.ofList [("name",.str "lan")]⟩,
      ⟨some "lease",∅⟩])],13,[],0,none⟩

def mixedRequests : List Request :=
  [.add ⟨"/ip pool"⟩ ∅ none,.remove ⟨"/ip pool"⟩ "*D",.add ⟨"/ip pool"⟩ ∅ (some "*D")]

open Replica in
-- The sort does not compute; it leaves an ordered list as it is.
theorem mixedLoaded : Loaded mixedIds mixedReplica := by
  have parsed : given? mixedIds = some mixedGiven := by decide +kernel
  have ordered : Json.sortMembers mixedGiven.toList = mixedGiven.toList :=
    List.mergeSort_of_pairwise (by decide)
  have numbered : ofFacilities mixedGiven = mixedReplica := by
    simp only [ofFacilities,ordered]
    decide +kernel
  rw [← numbered]
  exact .plain (loadedOfGiven parsed)

open Replica in
theorem idsUniqueAndFreshMixed : Loaded mixedIds mixedReplica ∧ GivenApart mixedIds ∧
    (ids ((Request.after mixedRequests mixedReplica).records ⟨"/ip pool"⟩)).Nodup ∧
    ∃ last, Replica.add ⟨"/ip address"⟩ ∅ none (Request.after mixedRequests mixedReplica) =
        (.ok "*F",last) ∧
      ∀ m ∈ Request.history mixedRequests mixedReplica, ∀ other rs,
        m.facilities.get? other = some (.items rs) → ∀ r ∈ rs, r.id ≠ some "*F" := by
  have apart : GivenApart mixedIds := by
    have checked : (given? mixedIds).all (fun facilities => facilities.toList.all fun entry =>
        match entry.2 with
        | .items rs => decide (rs.filterMap Record.id).Nodup
        | .singleton _ => true) = true := by decide +kernel
    intro facilities given path rs mem
    rw [given] at checked
    simpa using List.all_eq_true.mp checked _ mem
  have there : (Request.after mixedRequests mixedReplica).facilities.get? "/ip pool" =
      some (.items ((Request.after mixedRequests mixedReplica).records ⟨"/ip pool"⟩)) ∧
      (Request.after mixedRequests mixedReplica).nextId ≤ maxWord64 := by decide +kernel
  have given : (Replica.add ⟨"/ip address"⟩ ∅ none
      (Request.after mixedRequests mixedReplica)).1 = .ok "*F" := okOfToOption (by decide +kernel)
  obtain ⟨last,added⟩ : ∃ last, Replica.add ⟨"/ip address"⟩ ∅ none
      (Request.after mixedRequests mixedReplica) = (.ok "*F",last) := ⟨_,Prod.ext given rfl⟩
  obtain ⟨unique,fresh⟩ := idsUniqueAndFresh mixedLoaded apart mixedRequests there.2
  exact ⟨mixedLoaded,apart,(unique _ _ there.1).2,last,added,fresh _ _ _ _ _ added⟩

end RouterReconciler

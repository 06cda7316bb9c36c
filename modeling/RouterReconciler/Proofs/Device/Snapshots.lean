import RouterReconciler.Proofs.Device.Contents
import RouterReconciler.Proofs.Value.Documents

/-! Snapshots of a replica, written and loaded again. Facilities, records, ids and the order of
parameters come back, and so do values, in whose durations' place their texts stand. The one thing that
does not come back is a parameter by the name under which the id of its record is written. -/
namespace RouterReconciler
open Text

namespace FacilityPath

def Normal (path : FacilityPath) : Prop := parse path.text = .ok path

theorem parsedNormal {s : String} {path : FacilityPath} (h : parse s = .ok path) : path.Normal := by
  unfold parse at h
  split at h
  · rename_i c rest found
    split at h
    · cases h
    · rename_i clean
      cases h
      have again : normalise (String.ofList ('/' :: c :: rest)) = '/' :: c :: rest := by
        rw [← found]
        unfold normalise
        rw [String.toList_ofList,wordsAgain]
      unfold Normal parse
      simp only [again]
      rw [if_neg clean]
  · cases h

end FacilityPath

def Store.shown : Store → Store
  | .items rs => .items (rs.map Record.shown)
  | .singleton r => .singleton r.shown

theorem Store.recordsShown (store : Store) : store.shown.records = store.records.map Record.shown := by
  cases store <;> rfl

namespace Replica

theorem recordsBack {rs : List Record} (range : ∀ r ∈ rs, r.Each Value.InRange)
    (apart : ∀ r ∈ rs, Record.idKey ∉ r.fields.keys) :
    recordsOfJson? (rs.map Record.toJson) = some (rs.map Record.shown) := by
  induction rs with
  | nil => rfl
  | cons r rest ih =>
    obtain ⟨here,later⟩ := List.forall_mem_cons.mp range
    obtain ⟨fresh,others⟩ := List.forall_mem_cons.mp apart
    simp [recordsOfJson?,Record.readBack here fresh,ih later others]

theorem storeBack {store : Store} (range : ∀ r ∈ store.records, r.Each Value.InRange)
    (apart : ∀ r ∈ store.records, Record.idKey ∉ r.fields.keys) :
    storeOfJson? (Store.toJson store) = some store.shown := by
  cases store with
  | items rs =>
    show (recordsOfJson? (rs.map Record.toJson)).map Store.items = _
    exact congrArg (Option.map Store.items) (recordsBack range apart)
  | singleton r =>
    have mem : r ∈ (Store.singleton r).records := List.mem_singleton.mpr rfl
    show (Record.ofJson? r.toJson).map Store.singleton = _
    rw [Record.readBack (range r mem) (apart r mem)]
    rfl

theorem recordsRead {items : List Json} {rs : List Record} (read : recordsOfJson? items = some rs) :
    ∀ r ∈ rs, r.Each Value.InRange ∧ Record.idKey ∉ r.fields.keys := by
  induction items generalizing rs with
  | nil =>
    cases read
    simp
  | cons j rest ih =>
    simp only [recordsOfJson?,Option.bind_eq_bind,Option.bind_eq_some_iff] at read
    obtain ⟨r,first,others,later,same⟩ := read
    cases same
    exact List.forall_mem_cons.mpr ⟨Record.readSound first,ih later⟩

theorem storeRead {j : Json} {store : Store} (read : storeOfJson? j = some store) :
    ∀ r ∈ store.records, r.Each Value.InRange ∧ Record.idKey ∉ r.fields.keys := by
  unfold storeOfJson? at read
  split at read
  · obtain ⟨rs,found,rfl⟩ := Option.map_eq_some_iff.mp read
    exact recordsRead found
  · obtain ⟨r,found,rfl⟩ := Option.map_eq_some_iff.mp read
    intro x mem
    cases List.mem_singleton.mp mem
    exact Record.readSound found
  · cases read

theorem giveIdsFields {next : Nat} {rs : List Record} {r : Record} (h : r ∈ (giveIds next rs).1) :
    ∃ old ∈ rs, r.fields = old.fields := by
  induction rs generalizing next with
  | nil => cases h
  | cons x rest ih =>
    unfold giveIds at h
    split at h <;> rcases List.mem_cons.mp h with rfl | h
    · exact ⟨r,List.mem_cons_self,rfl⟩
    · obtain ⟨old,mem,same⟩ := ih h
      exact ⟨old,List.mem_cons_of_mem _ mem,same⟩
    · exact ⟨x,List.mem_cons_self,rfl⟩
    · obtain ⟨old,mem,same⟩ := ih h
      exact ⟨old,List.mem_cons_of_mem _ mem,same⟩

theorem giveAllIdsFields {next : Nat} {entries : List (String × Store)} {path : String} {store : Store}
    (h : (path,store) ∈ (giveAllIds next entries).1) :
    ∃ old, (path,old) ∈ entries ∧ ∀ r ∈ store.records, ∃ r' ∈ old.records, r.fields = r'.fields := by
  induction entries generalizing next with
  | nil => cases h
  | cons entry rest ih =>
    have later {next : Nat} (h : (path,store) ∈ (giveAllIds next rest).1) :
        ∃ old, (path,old) ∈ entry :: rest ∧
          ∀ r ∈ store.records, ∃ r' ∈ old.records, r.fields = r'.fields := by
      obtain ⟨old,mem,same⟩ := ih h
      exact ⟨old,List.mem_cons_of_mem _ mem,same⟩
    obtain ⟨other,rs | x⟩ := entry
    · rcases List.mem_cons.mp h with same | h
      · cases same
        exact ⟨.items rs,List.mem_cons_self,fun r mem => giveIdsFields mem⟩
      · exact later h
    · rcases List.mem_cons.mp h with same | h
      · cases same
        exact ⟨.singleton x,List.mem_cons_self,fun r mem => ⟨r,mem,rfl⟩⟩
      · exact later h

theorem giveIdsNone {rs : List Record} (named : ∀ r ∈ rs, r.id.isSome) (next : Nat) :
    giveIds next rs = (rs,next) := by
  induction rs with
  | nil => rfl
  | cons r rest ih =>
    obtain ⟨here,later⟩ := List.forall_mem_cons.mp named
    obtain ⟨id,some⟩ := Option.isSome_iff_exists.mp here
    simp only [giveIds,some,ih later]

theorem giveAllIdsNone {entries : List (String × Store)}
    (named : ∀ path rs, (path,.items rs) ∈ entries → ∀ r ∈ rs, r.id.isSome) (next : Nat) :
    (giveAllIds next entries).1 = entries := by
  induction entries generalizing next with
  | nil => rfl
  | cons entry rest ih =>
    have later := ih fun path rs mem => named path rs (List.mem_cons_of_mem _ mem)
    obtain ⟨path,rs | r⟩ := entry
    · simp only [giveAllIds,giveIdsNone (named path rs List.mem_cons_self),later]
    · simp only [giveAllIds,later]

def Legible (r : Record) : Prop := r.Each Value.InRange ∧ r.get? Record.idKey = none

theorem facilitiesRead {done facilities : Entries Store} {members : List (String × Json)}
    (read : facilitiesFrom? done members = some facilities)
    (start : ∀ path store, (path,store) ∈ done.toList → OfRecords FacilityPath.Normal Legible 0 path store) :
    ∀ path store, (path,store) ∈ facilities.toList →
      OfRecords FacilityPath.Normal Legible 0 path store := by
  induction members generalizing done with
  | nil =>
    cases read
    exact start
  | cons member rest ih =>
    obtain ⟨key,j⟩ := member
    unfold facilitiesFrom? at read
    split at read
    · rename_i named store parsed found
      refine ih read fun path other mem => ?_
      rcases Entries.memPut mem with same | old
      · cases same
        refine ⟨FacilityPath.parsedNormal parsed,fun r inside => ?_⟩
        obtain ⟨range,apart⟩ := storeRead found r inside
        exact ⟨range,Entries.getNone.mpr apart⟩
      · exact start path other old
    · cases read

theorem loadedLegible {text : String} {d : Replica} (loaded : Loaded text d) :
    Stores 0 (OfRecords FacilityPath.Normal Legible) d := by
  obtain ⟨failing,read⟩ := loaded
  obtain ⟨facilities,given,rfl⟩ := loadedGiven read
  have read : ∀ path store, (path,store) ∈ facilities.toList →
      OfRecords FacilityPath.Normal Legible 0 path store := by
    unfold given? at given
    split at given
    · exact facilitiesRead given (by rintro path store ⟨⟩)
    · cases given
  refine ⟨Nat.zero_le _,fun path store there => ?_⟩
  obtain ⟨old,mem,same⟩ := giveAllIdsFields (Entries.memOfList (Entries.getMem.mp there))
  obtain ⟨normal,all⟩ := read path old ((List.mergeSort_perm _ _).mem_iff.mp mem)
  refine ⟨normal,fun r inside => ?_⟩
  obtain ⟨r',there,fields⟩ := same r inside
  have legible := all r' there
  simp only [Legible,Record.Each,Record.get?] at legible ⊢
  rw [fields]
  exact legible

def Clear (d : Replica) : Prop :=
  ∀ path store, d.facilities.get? path = some store → ∀ r ∈ store.records, r.get? Record.idKey = none

theorem loadedClear {text : String} {d : Replica} (loaded : Loaded text d) : d.Clear :=
  fun path store there r mem => (((loadedLegible loaded).each path store there).2 r mem).2

theorem namedReloaded {facilities : Entries Store}
    (named : ∀ path rs, (path,.items rs) ∈ facilities.toList → ∀ r ∈ rs, r.id.isSome) (path : String) :
    (ofFacilities facilities).facilities.get? path = facilities.get? path := by
  have sorted : (Json.sortMembers facilities.toList).Perm facilities.toList := List.mergeSort_perm _ _
  have kept (next : Nat) : (giveAllIds next (Json.sortMembers facilities.toList)).1 =
      Json.sortMembers facilities.toList :=
    giveAllIdsNone (fun path rs mem => named path rs (sorted.mem_iff.mp mem)) next
  refine Entries.sameGet (fun entry => ?_) path
  show entry ∈ (Entries.ofList (giveAllIds _ (Json.sortMembers facilities.toList)).1).toList ↔ _
  rw [kept,Entries.ofListDistinct ((sorted.map _).nodup_iff.mpr facilities.distinct)]
  exact sorted.mem_iff

theorem toJsonSorted (d : Replica) : d.toJson =
    .table ((Json.sortMembers d.facilities.toList).map fun entry => (entry.1,Store.toJson entry.2)) := by
  unfold toJson Json.sortMembers
  rw [List.map_mergeSort]
  exact fun _ _ _ _ => rfl

theorem loneToJson {d : Replica} {path : String} {store : Store}
    (lone : d.facilities.toList = [(path,store)]) : d.toJson = .table [(path,Store.toJson store)] := by
  have alone : Json.sortMembers [(path,store)] = [(path,store)] := List.mergeSort_singleton _
  rw [toJsonSorted,lone,alone]
  rfl

theorem snapshotReadsBack {d : Replica} (stores : Stores 0 (OfRecords FacilityPath.Normal (Record.Each Value.InRange)) d)
    (named : d.Identified) (clear : d.Clear) :
    ∃ again, ofJson? d.toJson = some again ∧
      ∀ path, again.facilities.get? path = (d.facilities.get? path).map Store.shown := by
  have sorted : (Json.sortMembers d.facilities.toList).Perm d.facilities.toList := List.mergeSort_perm _ _
  have next : ∀ entry ∈ Json.sortMembers d.facilities.toList, ∀ done rest,
      facilitiesFrom? done ((entry.1,Store.toJson entry.2) :: rest) =
        facilitiesFrom? (done.insert entry.1 entry.2.shown) rest := by
    intro entry mem done rest
    have there := Entries.getMem.mpr (sorted.mem_iff.mp mem)
    obtain ⟨normal,range⟩ := stores.each entry.1 entry.2 there
    have parsed : FacilityPath.parse entry.1 = .ok ⟨entry.1⟩ := normal
    have read := storeBack range fun r mem => Entries.getNone.mp (clear entry.1 entry.2 there r mem)
    simp only [facilitiesFrom?,parsed,read]
  have gathered := Entries.gathered Store.toJson (fun _ => rfl) next
  obtain ⟨facilities,whole⟩ : ∃ facilities, facilities = Entries.ofList
    ((Json.sortMembers d.facilities.toList).map fun entry => (entry.1,entry.2.shown)) := ⟨_,rfl⟩
  have listed : facilities.toList =
      (Json.sortMembers d.facilities.toList).map fun entry => (entry.1,entry.2.shown) := by
    rw [whole]
    refine Entries.ofListDistinct ?_
    rw [List.map_map]
    exact (sorted.map _).nodup_iff.mpr d.facilities.distinct
  have same (path : String) : facilities.get? path = (d.facilities.get? path).map Store.shown := by
    rw [← Entries.getMap d.facilities fun _ store => store.shown]
    refine Entries.sameGet (fun entry => ?_) path
    rw [listed]
    exact (sorted.map _).mem_iff
  refine ⟨ofFacilities facilities,?_,fun path => ?_⟩
  · rw [toJsonSorted,ofJson?,gathered,← whole]
    rfl
  · rw [namedReloaded ?_ path,same path]
    intro path rs mem r inside
    have there := (same path).symm.trans (Entries.getMem.mpr mem)
    obtain ⟨store,found,shown⟩ := Option.map_eq_some_iff.mp there
    cases store with
    | singleton x => cases shown
    | items old =>
      cases shown
      obtain ⟨x,mem,rfl⟩ := List.mem_map.mp inside
      exact named path old found x mem

theorem lastingClear : Lasting (fun _ => True) (fun values => values.get? Record.idKey = none)
    (OfRecords (fun _ => True) fun r => r.get? Record.idKey = none) := by
  refine lastingRecords (fun _ => rfl) (fun r values apart clear => ?_) fun disabled => rfl
  rw [Record.getApply,apart]
  exact clear

def Named (_ : Nat) (_ : String) : Store → Prop
  | .items rs => ∀ r ∈ rs, r.id.isSome
  | .singleton _ => True

theorem lastingNamed : Lasting (fun _ => True) (fun _ => True) Named where
  later {n m path store} _ h := by cases store <;> exact h
  made _ _ mem := nomatch mem
  erased i h r mem := h r (List.mem_of_mem_eraseIdx mem)
  moved same h r mem := h r (same.mem_iff.mp mem)
  changed {n path rs values} _ i h := by
    intro r mem
    rcases memModify mem with there | ⟨old,there,rfl⟩
    · exact h r there
    · rw [Record.idApply]
      exact h old there
  added {n path rs values} _ i h := by
    intro r mem
    rcases List.eq_or_mem_of_mem_insertIdx mem with rfl | there
    · rw [newRecord,Record.idApply]
      rfl
    · exact h r there
  kept _ _ := trivial
  begun _ _ := trivial
  switches _ := trivial

theorem loadedNamed {text : String} {d : Replica} (loaded : Loaded text d) :
    Stores 0 Named d := by
  obtain ⟨failing,read⟩ := loaded
  obtain ⟨facilities,-,rfl⟩ := loadedGiven read
  refine ⟨Nat.zero_le _,fun path store there => ?_⟩
  cases store with
  | items rs => exact loadedIdentified facilities path rs there
  | singleton r => trivial

end Replica

open Replica in
/-- A replica that was loaded and then worked on comes back from its own snapshot exactly if no record
has a parameter by the name of the id. None has one unless it is written. What comes back in a value's
place means the same. -/
theorem snapshotRoundTrip {text : String} {d : Replica} (loaded : Loaded text d)
    (requests : List Request)
    (suits : ∀ request ∈ requests, request.Suits FacilityPath.Normal (Assignments.Each Value.InRange))
    (lossless : Json.parse? (Request.after requests d).toSnapshot = some (Request.after requests d).toJson) :
    ((∃ again, ofSnapshot (Request.after requests d).toSnapshot = .ok again ∧
        ∀ path, again.facilities.get? path =
          ((Request.after requests d).facilities.get? path).map Store.shown) ↔
      (Request.after requests d).Clear) ∧
    ((∀ request ∈ requests,
        request.Suits (fun _ => True) fun values => values.get? Record.idKey = none) →
      (Request.after requests d).Clear) ∧
    ∀ path store, (Request.after requests d).facilities.get? path = some store →
      ∀ r ∈ store.records, ∀ key v, r.get? key = some v →
        v.equal? v.shown = some true ∧ v.shown.equal? v = some true := by
  have legible := loadedLegible loaded
  have range : Stores 0 (OfRecords FacilityPath.Normal (Record.Each Value.InRange))
      (Request.after requests d) := by
    refine Request.afterKeeps requests (fun request mem => requestStores (lastingEach fun _ => trivial) 0
      (suits request mem)) ⟨legible.counter,fun path store there => ?_⟩
    obtain ⟨normal,all⟩ := legible.each path store there
    exact ⟨normal,fun r mem => (all r mem).1⟩
  have named : (Request.after requests d).Identified :=
    fun path rs there => (Request.afterKeeps requests
      (fun request _ => requestStores lastingNamed 0 (requestSuits request))
      (loadedNamed loaded)).each path (.items rs) there
  refine ⟨⟨?_,fun clear => ?_⟩,fun apart => ?_,fun path store there r mem key v found => ?_⟩
  · rintro ⟨again,reloaded,same⟩ path store there r mem
    have back : again.facilities.get? path = some store.shown := by
      rw [same,there]
      rfl
    have inside : r.shown ∈ store.shown.records := by
      rw [Store.recordsShown]
      exact List.mem_map_of_mem mem
    have none := loadedClear (.plain reloaded) path _ back _ inside
    rwa [Record.getShown,Option.map_eq_none_iff] at none
  · obtain ⟨again,read,same⟩ := snapshotReadsBack range named clear
    refine ⟨again,?_,same⟩
    simp [ofSnapshot,lossless,read]
  · have kept := Request.afterKeeps requests
      (fun request mem => requestStores lastingClear 0 (apart request mem))
      (d := d) ⟨legible.counter,fun path store there =>
        ⟨trivial,fun r mem => ((legible.each path store there).2 r mem).2⟩⟩
    exact fun path store there => (kept.each path store there).2
  · exact Value.equalShown ((range.each path store there).2 r mem key v found)

theorem emptyLoaded : Replica.ofSnapshot "\x7b\x7d" = .ok .empty := okOfToOption (by decide +kernel)

def leaseRequest : Request := .add ⟨"/ip pool"⟩
  (Entries.ofList [("lease",.value (.duration 90)),("ranges",.value (.list [.int (-1)]))]) none

def leaseReplica : Replica := Request.after [leaseRequest] .empty

def leaseText : String :=
  "\x7b\n  \"/ip pool\": [\n    \x7b\n      \".id\": \"*1\",\n      \"lease\": \"1m30s\",\n" ++
  "      \"ranges\": [\n        -1\n      ]\n    \x7d\n  ]\n\x7d"

set_option maxRecDepth 10000 in
theorem snapshotRoundTripLease : ∃ again, Replica.ofSnapshot leaseText = .ok again ∧
    ∀ path, again.facilities.get? path = (leaseReplica.facilities.get? path).map Store.shown := by
  have normal : FacilityPath.Normal ⟨"/ip pool"⟩ := okOfToOption (by decide +kernel)
  have suits : ∀ request ∈ [leaseRequest],
      request.Suits FacilityPath.Normal (Assignments.Each Value.InRange) := by
    refine List.forall_mem_singleton.mpr ⟨normal,fun _ key v mem => ?_⟩
    rcases List.mem_cons.mp mem with same | mem
    · cases same
      exact (by decide : 90 ≤ maxWord64)
    · cases List.mem_singleton.mp mem
      exact ⟨rfl,trivial⟩
  have apart : ∀ request ∈ [leaseRequest],
      request.Suits (fun _ => True) fun values => values.get? Record.idKey = none :=
    List.forall_mem_singleton.mpr ⟨trivial,fun _ => by decide⟩
  have text : leaseReplica.toSnapshot = leaseText := by decide +kernel
  have held : leaseReplica.facilities.toList = [("/ip pool",.items [⟨some "*1",
      Entries.ofList [("lease",.duration 90),("ranges",.list [.int (-1)])]⟩])] := by decide +kernel
  have lossless : Json.parse? leaseReplica.toSnapshot = some leaseReplica.toJson := by
    rw [text,Replica.loneToJson held]
    rfl
  obtain ⟨back,clear,-⟩ := snapshotRoundTrip (.plain emptyLoaded) [leaseRequest] suits lossless
  rw [← text]
  exact back.mpr (clear apart)

def idWritten : Assignments := Entries.ofList [(Record.idKey,.value (.str "x"))]

def lanText : String := "\x7b\"/ip pool\": [\x7b\"name\": \"lan\"\x7d]\x7d"

def lanReplica : Replica :=
  ⟨Entries.ofList [("/ip pool",.items [⟨some "*1",Entries.ofList [("name",.str "lan")]⟩])],2,[],0,none⟩

def listedRequest : Request := .set ⟨"/ip pool"⟩ (some "*1") idWritten

def singleRequest : Request := .set ⟨"/system identity"⟩ none idWritten

def listedText : String :=
  "\x7b\n  \"/ip pool\": [\n    \x7b\n      \".id\": \"*1\",\n      \"name\": \"lan\",\n" ++
  "      \".id\": \"x\"\n    \x7d\n  ]\n\x7d"

def singleText : String := "\x7b\n  \"/system identity\": \x7b\n    \".id\": \"x\"\n  \x7d\n\x7d"

open Replica in
-- Two writes that succeed. After the first the snapshot has two ids for one record and is refused; after
-- the second the parameter comes back as the id.
theorem snapshotLosesIdParameter :
    (ofSnapshot lanText = .ok lanReplica ∧
      (∃ d, listedRequest.perform lanReplica = (.ok .done,d)) ∧
      (Request.after [listedRequest] lanReplica).toSnapshot = listedText ∧
      Json.parse? listedText = some (Request.after [listedRequest] lanReplica).toJson ∧
      ofSnapshot listedText = .error .document) ∧
    ofSnapshot "\x7b\x7d" = .ok empty ∧
    (∃ d, singleRequest.perform empty = (.ok .done,d)) ∧
    (Request.after [singleRequest] empty).toSnapshot = singleText ∧
    Json.parse? singleText = some (Request.after [singleRequest] empty).toJson ∧
    (Request.after [singleRequest] empty).facilities.get? "/system identity" =
      some (.singleton ⟨none,Entries.ofList [(Record.idKey,.str "x")]⟩) ∧
    ∃ again, ofSnapshot singleText = .ok again ∧
      again.facilities.get? "/system identity" = some (.singleton ⟨some "x",∅⟩) := by
  have refused : (Json.parse? listedText).bind ofJson? = none := by decide +kernel
  have again : ofSnapshot singleText =
      .ok ⟨Entries.ofList [("/system identity",.singleton ⟨some "x",∅⟩)],1,[],0,none⟩ :=
    okOfToOption (by decide +kernel)
  have listed : (Request.after [listedRequest] lanReplica).facilities.toList =
      [("/ip pool",.items [⟨some "*1",
        Entries.ofList [("name",.str "lan"),(Record.idKey,.str "x")]⟩])] := by decide +kernel
  have single : (Request.after [singleRequest] empty).facilities.toList =
      [("/system identity",.singleton ⟨none,Entries.ofList [(Record.idKey,.str "x")]⟩)] := by
    decide +kernel
  refine ⟨⟨okOfToOption (by decide +kernel),⟨_,rfl⟩,by decide +kernel,?_,?_⟩,emptyLoaded,⟨_,rfl⟩,
    by decide +kernel,?_,by decide +kernel,_,again,by decide +kernel⟩
  · rw [loneToJson listed]
    rfl
  · simp only [ofSnapshot,refused]
  · rw [loneToJson single]
    rfl

end RouterReconciler

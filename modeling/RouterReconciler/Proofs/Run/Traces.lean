import RouterReconciler.Proofs.Device.Standing
import RouterReconciler.Proofs.Reconcile.Moving
import RouterReconciler.Proofs.Run.Ordered

/-! What a run leaves to be seen. A new record is there at the end, under an id that was not there before.
Where none is added, there are fewer records by those that are removed. Where none is added or removed, the
last write to a field stands, and after the last move its record stands before the one it was put before. -/
namespace RouterReconciler
open Replica Reconcile Placement Text

/-- The lists tell apart, by the ids in their order or by what records with the same id hold. It does not
count in which order fields have been set. -/
inductive Apart (before after : List Record) : Prop
  | order (differ : ids after ≠ ids before)
  | field {r x key} (there : r ∈ before) (found : x ∈ after) (same : x.id = r.id)
      (differ : x.get? key ≠ r.get? key)

def toggled (disabled : Bool) : Assignments := Entries.empty.insert "disabled" (.value (.bool disabled))

def Operation.writes? : Operation → Option (ItemId × Assignments)
  | .set (some id) values => some (id,values)
  | .enable id => some (id,toggled false)
  | .disable id => some (id,toggled true)
  | _ => none

def retouch (r : Record) (operation : Operation) : Record :=
  match operation.writes? with
  | some (id,values) => amend id (·.apply values) r
  | none => r

def retouched (operations : List Operation) (r : Record) : Record := operations.foldl retouch r

def Operation.Tells (rs : List Record) (operation : Operation) : Prop :=
  ∀ id values, operation.writes? = some (id,values) → ∃ r ∈ rs, r.id = some id ∧
    (∃ key a, values.get? key = some a) ∧ ∀ key a, values.get? key = some a → a.result ≠ r.get? key

theorem toggledGet (disabled : Bool) (key : String) : (toggled disabled).get? key =
    if key = "disabled" then some (.value (.bool disabled)) else none :=
  Entries.getInsert _ _ _ _

theorem Entries.someGet {α : Type} {e : Entries α} (h : e.isEmpty = false) : ∃ key a, e.get? key = some a := by
  obtain ⟨l,distinct⟩ := e
  cases l with
  | nil => cases h
  | cons entry rest => exact ⟨entry.1,entry.2,Entries.getMem.mpr List.mem_cons_self⟩

theorem differingTells {desired changes : Assignments} {r : Record} {key : String} {a : Assignment}
    (compared : differing desired r = .ok changes) (h : changes.get? key = some a) :
    a.result ≠ r.get? key := by
  obtain ⟨-,rfl⟩ := differingOk.mp compared
  intro same
  rw [getDue,Option.filter_eq_some_iff,← same,a.dueResult] at h
  cases h.2

theorem toggledTells {r : Record} {disabled : Bool} (was : r.flag "disabled" = !disabled) {key : String}
    {a : Assignment} (h : (toggled disabled).get? key = some a) : a.result ≠ r.get? key := by
  rw [toggledGet] at h
  split at h <;> cases h
  rename_i same
  subst same
  intro holds
  rw [Record.flag,← holds] at was
  cases disabled <;> cases was

theorem Founded.tells {known : Record → Prop} {rs : List Record} {operation : Operation}
    (inside : ∀ r, known r → r ∈ rs) (h : Founded known operation) : operation.Tells rs := by
  intro id values written
  cases h with
  | settled settles =>
    cases settles with
    | changed read named compared unsettled =>
      cases written
      exact ⟨_,inside _ read,named,Entries.someGet unsettled,fun _ _ => differingTells compared⟩
  | enabled read named was =>
    cases written
    exact ⟨_,inside _ read,named,⟨"disabled",_,toggledGet _ _⟩,fun _ _ => toggledTells was⟩
  | disabled read named was =>
    cases written
    exact ⟨_,inside _ read,named,⟨"disabled",_,toggledGet _ _⟩,fun _ _ => toggledTells was⟩
  | _ => cases written

theorem FoundedOrMoves.tells {known : Record → Prop} {rs : List Record} {operations : List Operation}
    (inside : ∀ r, known r → r ∈ rs) (h : FoundedOrMoves known operations) :
    ∀ operation ∈ operations, operation.Tells rs := by
  intro operation mem
  obtain founded | ⟨item,before,rfl⟩ := h operation mem
  · exact founded.tells inside
  · intro id values written
    cases written

theorem retouchId (r : Record) (operation : Operation) : (retouch r operation).id = r.id := by
  unfold retouch
  split
  · exact amendId r
  · rfl

theorem retouchedId (operations : List Operation) (r : Record) : (retouched operations r).id = r.id := by
  induction operations generalizing r with
  | nil => rfl
  | cons operation rest ih => exact (ih (retouch r operation)).trans (retouchId r operation)

section Fields
variable {rs : List Record} (distinct : (ids rs).Nodup) {r x : Record} {key : String}
include distinct

theorem strayStays {operation : Operation} (tells : operation.Tells rs) (hr : r ∈ rs) (same : x.id = r.id)
    (stray : x.get? key ≠ r.get? key) : (retouch x operation).get? key ≠ r.get? key := by
  unfold retouch
  split
  · rename_i id values written
    unfold amend
    split
    · rename_i named
      obtain ⟨own,there,ownNamed,-,other⟩ := tells id values written
      cases sameRecord distinct there hr (ownNamed.trans (named.symm.trans same))
      rw [Record.getApply]
      cases sets : values.get? key with
      | none => exact stray
      | some a => exact other key a sets
    · exact stray
  · exact stray

theorem straysStay {operations : List Operation} (tells : ∀ operation ∈ operations, operation.Tells rs)
    (hr : r ∈ rs) (same : x.id = r.id) (stray : x.get? key ≠ r.get? key) :
    (retouched operations x).get? key ≠ r.get? key := by
  induction operations generalizing x with
  | nil => exact stray
  | cons operation rest ih =>
    obtain ⟨here,later⟩ := List.forall_mem_cons.mp tells
    exact ih later ((retouchId x operation).trans same) (strayStays distinct here hr same stray)

theorem writeStands {operations : List Operation} (tells : ∀ operation ∈ operations, operation.Tells rs)
    {operation : Operation} {id : ItemId} {values : Assignments} (mem : operation ∈ operations)
    (written : operation.writes? = some (id,values)) :
    ∃ r ∈ rs, ∃ key, (retouched operations r).get? key ≠ r.get? key := by
  obtain ⟨r,hr,named,⟨key,a,sets⟩,other⟩ := tells operation mem id values written
  obtain ⟨done,rest,rfl⟩ := List.append_of_mem mem
  refine ⟨r,hr,key,?_⟩
  have same := retouchedId done r
  have now : (retouch (retouched done r) operation).get? key = a.result := by
    unfold retouch
    rw [written]
    simp only [amend]
    rw [if_pos (same.trans named),Record.getApply,sets]
  rw [retouched,List.foldl_append,List.foldl_cons]
  refine straysStay distinct (fun x hx => tells x (by simp [hx])) hr
    ((retouchId _ _).trans same) (x := retouch (retouched done r) operation) ?_
  rw [now]
  exact other key a sets

end Fields

theorem samePermIds {rs after : List Record} (distinct : (ids rs).Nodup) (perm : after.Perm rs)
    (same : ids after = ids rs) : after = rs := by
  refine List.ext_getElem perm.length_eq fun i hi hj => ?_
  have named : (ids after)[i]? = (ids rs)[i]? := by rw [same]
  rw [ids,ids,List.getElem?_map,List.getElem?_map,List.getElem?_eq_getElem hi,
    List.getElem?_eq_getElem hj] at named
  exact sameRecord distinct (perm.mem_iff.mp (List.getElem_mem hi)) (List.getElem_mem hj)
    (Option.some.inj named)

theorem addsNothingCons {operation : Operation} {rest : List Operation} :
    AddsNothing (operation :: rest) ↔ AddsNothing [operation] ∧ AddsNothing rest := by
  simp only [AddsNothing,List.mem_cons,List.not_mem_nil,or_false,not_or,forall_and]

theorem removedRest (operation : Operation) (rest : List Operation) :
    removed rest ⊆ removed (operation :: rest) :=
  ((List.sublist_cons_self operation rest).filterMap _).subset

namespace View
variable {index : Nat} {v w : View} {operation : Operation} {operations : List Operation}

theorem stepInPlace (distinct : (ids v.records).Nodup) (writes : operation.writes?.isSome)
    (h : v.step index operation = some w) : w.records = v.records.map (retouch · operation) := by
  have updated {id : ItemId} {f : Record → Record} (h : v.update id f = some w) :
      w.records = v.records.map (amend id f) := by
    obtain ⟨i,place,rfl⟩ := Option.map_eq_some_iff.mp h
    exact modifyMap distinct place
  cases operation with
  | set item values =>
    cases item with
    | none => cases h
    | some id => exact updated h
  | enable id => exact updated h
  | disable id => exact updated h
  | _ => cases writes

theorem runInPlace (distinct : (ids v.records).Nodup)
    (writes : ∀ operation ∈ operations, operation.writes?.isSome) (h : v.run index operations = some w) :
    w.records = v.records.map (retouched operations) := by
  induction operations generalizing index v with
  | nil =>
    cases h
    exact (List.map_id _).symm
  | cons operation rest ih =>
    obtain ⟨u,stepped,ran⟩ := Option.bind_eq_some_iff.mp h
    obtain ⟨here,later⟩ := List.forall_mem_cons.mp writes
    have one := stepInPlace distinct here stepped
    have apart : (ids u.records).Nodup := by
      rw [one,ids,List.map_map,show Record.id ∘ (retouch · operation) = Record.id from
        funext fun r => retouchId r operation]
      exact distinct
    rw [ih apart later ran,one,List.map_map]
    rfl

theorem stepSteady (distinct : (ids v.records).Nodup) (adds : AddsNothing [operation])
    (keeps : operation.removedId? = none) (h : v.step index operation = some w) :
    w.records.Perm (v.records.map (retouch · operation)) := by
  cases operation with
  | add values before => exact absurd List.mem_cons_self (adds values before)
  | remove id => cases keeps
  | set item values =>
    cases item with
    | none => cases h
    | some id => exact .of_eq (stepInPlace distinct rfl h)
  | move item before =>
    obtain ⟨carried,-,-⟩ := moveCarry (List.Perm.refl _) distinct h
    exact (carryPerm carried).trans (.of_eq (List.map_id _).symm)
  | enable id => exact .of_eq (stepInPlace distinct rfl h)
  | disable id => exact .of_eq (stepInPlace distinct rfl h)

theorem runSteady (distinct : (ids v.records).Nodup) (adds : AddsNothing operations)
    (keeps : removed operations = []) (h : v.run index operations = some w) :
    w.records.Perm (v.records.map (retouched operations)) := by
  induction operations generalizing index v with
  | nil =>
    cases h
    exact .of_eq (List.map_id _).symm
  | cons operation rest ih =>
    obtain ⟨u,stepped,ran⟩ := Option.bind_eq_some_iff.mp h
    obtain ⟨adds,laterAdds⟩ := addsNothingCons.mp adds
    obtain ⟨kept,laterKept⟩ := List.forall_mem_cons.mp (List.filterMap_eq_nil_iff.mp keeps)
    have one := stepSteady distinct adds kept stepped
    have same : ids (v.records.map (retouch · operation)) = ids v.records := by
      rw [ids,List.map_map]
      exact List.map_congr_left fun r _ => retouchId r operation
    have later := ih ((idsPerm one).nodup_iff.mpr (by rw [same]; exact distinct)) laterAdds
      (List.filterMap_eq_nil_iff.mpr laterKept) ran
    refine later.trans ((one.map _).trans (.of_eq ?_))
    rw [List.map_map]
    rfl

theorem writesShow (distinct : (ids v.records).Nodup) (adds : AddsNothing operations)
    (keeps : removed operations = []) (tells : ∀ operation ∈ operations, operation.Tells v.records)
    {id : ItemId} {values : Assignments} (mem : operation ∈ operations)
    (written : operation.writes? = some (id,values)) (h : v.run index operations = some w) :
    Apart v.records w.records := by
  obtain ⟨r,hr,key,differ⟩ := writeStands distinct tells mem written
  exact .field hr ((runSteady distinct adds keeps h).mem_iff.mpr (List.mem_map_of_mem hr))
    (retouchedId operations r) differ

theorem stepSize (adds : AddsNothing [operation]) (h : v.step index operation = some w) :
    w.records.length + (removed [operation]).length = v.records.length := by
  have sizes := (stepIds h).length_eq
  rw [ids,List.length_map] at sizes
  have steady (same : idsAfter v.nextId (ids v.records) operation = ids v.records)
      (none : removed [operation] = []) :
      w.records.length + (removed [operation]).length = v.records.length := by
    rw [sizes,same,none,ids,List.length_map]
    rfl
  cases operation with
  | add values before => exact absurd List.mem_cons_self (adds values before)
  | remove id =>
    obtain ⟨i,place,-⟩ := stepRemove.mp h
    obtain ⟨front,r,back,split,-,named,-⟩ := positionSplit place
    have there : some id ∈ ids v.records := List.mem_map.mpr ⟨r,by rw [split]; simp,named⟩
    have one : removed [.remove id] = [id] := rfl
    have size : (ids v.records).length = v.records.length := List.length_map _
    have some := List.length_pos_of_mem there
    rw [idsAfter,List.length_erase_of_mem there] at sizes
    rw [one,List.length_singleton]
    omega
  | _ => exact steady rfl rfl

theorem runSize (adds : AddsNothing operations) (h : v.run index operations = some w) :
    w.records.length + (removed operations).length = v.records.length := by
  induction operations generalizing index v with
  | nil => cases h; rfl
  | cons operation rest ih =>
    obtain ⟨u,stepped,ran⟩ := Option.bind_eq_some_iff.mp h
    obtain ⟨adds,laterAdds⟩ := addsNothingCons.mp adds
    have one := stepSize adds stepped
    have later := ih laterAdds ran
    have parted : removed (operation :: rest) = removed [operation] ++ removed rest := by
      cases operation <;> rfl
    rw [parted,List.length_append]
    omega

theorem removalsShow (adds : AddsNothing operations) (gone : removed operations ≠ [])
    (h : v.run index operations = some w) : Apart v.records w.records := by
  refine .order fun same => ?_
  have size := runSize adds h
  have sizes := congrArg List.length same
  rw [ids,ids,List.length_map,List.length_map] at sizes
  have some := List.length_pos_iff.mpr gone
  omega

theorem stepHolds {name : Option ItemId} (there : name ∈ ids v.records)
    (stays : ∀ id ∈ operation.removedId?, name ≠ some id) (h : v.step index operation = some w) :
    name ∈ ids w.records := by
  rw [(stepIds h).mem_iff]
  cases operation with
  | add values before => exact List.mem_cons_of_mem _ there
  | remove id => exact (List.mem_erase_of_ne (stays id rfl)).mpr there
  | _ => exact there

theorem runHolds {name : Option ItemId} (there : name ∈ ids v.records)
    (stays : ∀ id ∈ removed operations, name ≠ some id) (h : v.run index operations = some w) :
    name ∈ ids w.records := by
  induction operations generalizing index v with
  | nil => cases h; exact there
  | cons operation rest ih =>
    obtain ⟨u,stepped,ran⟩ := Option.bind_eq_some_iff.mp h
    refine ih (stepHolds there (fun id gone => stays id ?_) stepped)
      (fun id gone => stays id (removedRest operation rest gone)) ran
    exact List.mem_filterMap.mpr ⟨operation,List.mem_cons_self,gone⟩

theorem runAdds {values : Assignments} {before : Option ItemRef} (mem : .add values before ∈ operations)
    (stays : ∀ id ∈ removed operations, ∀ n, v.nextId ≤ n → n < w.nextId → newId n ≠ id)
    (h : v.run index operations = some w) :
    ∃ n, v.nextId ≤ n ∧ n < w.nextId ∧ some (newId n) ∈ ids w.records := by
  induction operations generalizing index v with
  | nil => cases mem
  | cons operation rest ih =>
    obtain ⟨u,stepped,ran⟩ := Option.bind_eq_some_iff.mp h
    have first := stepNext stepped
    have last := runNext ran
    have later := removedRest operation rest
    rcases List.mem_cons.mp mem with rfl | mem
    · have next : u.nextId = v.nextId + 1 := (stepTakes stepped).1
      have new : some (newId v.nextId) ∈ ids u.records :=
        (stepIds stepped).mem_iff.mpr List.mem_cons_self
      refine ⟨v.nextId,Nat.le_refl _,by omega,runHolds new (fun id gone same => ?_) ran⟩
      exact stays id (later gone) v.nextId (Nat.le_refl _) (by omega) (Option.some.inj same)
    · obtain ⟨n,lower,upper,there⟩ := ih mem
        (fun id gone n lower upper => stays id (later gone) n (by omega) upper) ran
      exact ⟨n,by omega,upper,there⟩

theorem additionsShow {values : Assignments} {before : Option ItemRef}
    (mem : .add values before ∈ operations) (known : ∀ id ∈ removed operations, some id ∈ ids v.records)
    (unused : ∀ n, v.nextId ≤ n → n < w.nextId → some (newId n) ∉ ids v.records)
    (h : v.run index operations = some w) : Apart v.records w.records := by
  obtain ⟨n,lower,upper,there⟩ := runAdds mem
    (fun id gone n lower upper same => unused n lower upper (same ▸ known id gone)) h
  exact .order fun same => unused n lower upper (same ▸ there)

theorem onlyMovesList (only : OnlyMoves operations) :
    ∃ ms : List (ItemRef × Option ItemRef), operations = ms.map fun m => .move m.1 m.2 := by
  induction operations with
  | nil => exact ⟨[],rfl⟩
  | cons operation rest ih =>
    obtain ⟨⟨item,before,rfl⟩,later⟩ := List.forall_mem_cons.mp only
    obtain ⟨ms,rfl⟩ := ih later
    exact ⟨(item,before) :: ms,rfl⟩

theorem recordOfHandle {rs : List Record} {item : ItemRef} (added : Session.AddedIds)
    (distinct : (ids rs).Nodup) (h : item ∈ handles (lasting rs)) : recordOf rs added item ∈ lasting rs ∧
      (recordOf rs added item).id.map ItemRef.existing = some item := by
  obtain ⟨id,rfl,listed⟩ := memHandles.mp h
  obtain ⟨r,hr,named⟩ := List.mem_map.mp listed
  have same : recordOf rs added (.existing id) = r :=
    recordOfRef distinct (List.mem_filter.mp hr).1 named.symm
  rw [same,named]
  exact ⟨hr,rfl⟩

theorem lastingCons {r : Record} {front back : List Record} {item : ItemRef}
    (alive : r.flag "dynamic" = false) (named : r.id.map ItemRef.existing = some item) :
    handles (lasting (front ++ r :: back)) = handles (lasting front) ++ item :: handles (lasting back) := by
  obtain ⟨id,same,rfl⟩ := Option.map_eq_some_iff.mp named
  rw [lasting,List.filter_append,List.filter_cons_of_pos (by simp [alive]),handlesAppend,handlesCons same]
  rfl

theorem precedesHandles {rs : List Record} {item : ItemRef} {before : Option ItemRef}
    (added : Session.AddedIds) (distinct : (ids rs).Nodup) (inside : item ∈ handles (lasting rs))
    (anchored : ∀ b ∈ before, b ∈ handles (lasting rs))
    (h : Precedes rs (recordOf rs added item) (before.map (recordOf rs added))) :
    Precedes (handles (lasting rs)) item before := by
  obtain ⟨mem,named⟩ := recordOfHandle added distinct inside
  obtain ⟨front,back,split,first⟩ := h
  have next : (handles (lasting back)).head? = before := by
    cases before with
    | none => rw [List.head?_eq_none_iff.mp first]; rfl
    | some b =>
      obtain ⟨there,same⟩ := recordOfHandle added distinct (anchored b rfl)
      obtain ⟨rest,rfl⟩ := List.head?_eq_some_iff.mp first
      rw [← List.nil_append (recordOf rs added b :: rest),lastingCons (aliveOfLasting there) same]
      rfl
  refine ⟨handles (lasting front),handles (lasting back),?_,next⟩
  conv_lhs => rw [split]
  exact lastingCons (aliveOfLasting mem) named

-- Where the records end up as they were, the last record that was moved stood there before.
theorem lastMoveStood {ms : List (ItemRef × Option ItemRef)} {m : ItemRef × Option ItemRef}
    (distinct : (ids v.records).Nodup) (inside : m.1 ∈ handles (lasting v.records))
    (anchored : ∀ b ∈ m.2, b ∈ handles (lasting v.records)) (same : w.records = v.records)
    (h : v.run index ((ms ++ [m]).map fun m => .move m.1 m.2) = some w) :
    Precedes (handles (lasting v.records)) m.1 m.2 := by
  rw [List.map_append,runAppend] at h
  obtain ⟨u,before,last⟩ := Option.bind_eq_some_iff.mp h
  obtain ⟨x,stepped,done⟩ := Option.bind_eq_some_iff.mp last
  cases done
  obtain ⟨carried,-,-⟩ := movesRun (List.Perm.refl _) distinct before
  have perm := carryAllPerm carried
  obtain ⟨moved,-,-⟩ := moveCarry perm.symm distinct stepped
  have stands := carryPrecedes (perm.nodup_iff.mpr (distinct.of_map _)) moved
  rw [same] at stands
  exact precedesHandles u.added distinct inside anchored stands

theorem blockHandles {rs : List Record} {block : List ItemRef} (added : Session.AddedIds)
    (distinct : (ids rs).Nodup) (inside : block ⊆ handles (lasting rs)) :
    handles (block.map (recordOf rs added)) = block := by
  rw [handles,List.filterMap_map]
  refine (List.filterMap_congr fun item mem => ?_).trans List.filterMap_some
  exact (recordOfHandle added distinct (inside mem)).2

-- Where the records end up as they were, the block stood at its position before.
theorem blockStood {block : List ItemRef} {position : Nat} (distinct : (ids v.records).Nodup)
    (complete : ∀ r ∈ lasting v.records, r.id.isSome) (once : block.Nodup)
    (inside : block ⊆ handles (lasting v.records)) (same : w.records = v.records)
    (h : v.run index (reposition (handles (lasting v.records)) block position) = some w) :
    reposition (handles (lasting v.records)) block position = [] := by
  obtain ⟨names,named⟩ := completeNames complete
  have refs : (handles (lasting v.records)).map (refId v.added) = ids (lasting v.records) := by
    rw [handlesNamed named]
    exact namesStand named v.added
  have arranged := repositioned distinct List.filter_sublist refs once (fun _ mem => inside mem) h
  obtain ⟨front,back,order,-,size⟩ := arranged.order rfl
  rw [same,filterSublist (distinct.of_map _) List.filter_sublist] at order
  have order : lasting v.records = front ++ block.map (recordOf v.records v.added) ++ back := order
  have listed := lastingDistinct distinct
  have blockSame := blockHandles v.added distinct inside
  rw [order] at complete inside listed ⊢
  exact (repositionSettled listed complete once inside (List.length_map _).symm size).mpr blockSame.symm

theorem movesShow (distinct : (ids v.records).Nodup) (only : OnlyMoves operations)
    (planned : operations ≠ []) (moving : Moving v.records operations)
    (h : v.run index operations = some w) : ids w.records ≠ ids v.records := by
  obtain ⟨ms,listed⟩ := onlyMovesList only
  intro same
  have perm : w.records.Perm v.records := by
    rw [listed] at h
    exact carryAllPerm (movesRun (List.Perm.refl _) distinct h).1
  have same := samePermIds distinct perm same
  cases moving with
  | singly each =>
    obtain ⟨m,before,rfl⟩ : ∃ m before, ms = before ++ [m] := by
      rcases List.eq_nil_or_concat ms with rfl | ⟨before,m,rfl⟩
      · exact absurd listed planned
      · exact ⟨m,before,List.concat_eq_append⟩
    have mem : .move m.1 m.2 ∈ operations := by
      rw [listed]
      exact List.mem_map_of_mem (f := fun m : ItemRef × Option ItemRef => Operation.move m.1 m.2) (by simp)
    obtain ⟨inside,anchored,elsewhere⟩ := each _ _ mem
    rw [listed] at h
    exact elsewhere (lastMoveStood distinct inside anchored same h)
  | @together first last current block position firstStill lastStill alone =>
    have none {part : List Operation} (still : MovesNothing part)
        (within : part ⊆ first ++ reposition current block position ++ last) : part = [] := by
      refine List.eq_nil_iff_forall_not_mem.mpr fun operation mem => ?_
      obtain ⟨item,before,rfl⟩ := only operation (within mem)
      exact still item before mem
    have noFirst := none firstStill fun x hx => by simp [hx]
    have noLast := none lastStill fun x hx => by simp [hx]
    obtain ⟨rfl,complete,once,inside⟩ := alone noFirst noLast
    subst noFirst noLast
    rw [List.nil_append,List.append_nil] at h planned
    exact planned (blockStood distinct complete once inside same h)

theorem runAimed {values : Assignments} (h : v.run index operations = some w) :
    .set none values ∉ operations := by
  intro mem
  obtain ⟨done,rest,rfl⟩ := List.append_of_mem mem
  rw [runAppend] at h
  obtain ⟨u,-,last⟩ := Option.bind_eq_some_iff.mp h
  cases last

theorem runShows (distinct : (ids v.records).Nodup) (planned : operations ≠ [])
    (known : ∀ id ∈ removed operations, some id ∈ ids v.records)
    (unused : ∀ n, v.nextId ≤ n → n < w.nextId → some (newId n) ∉ ids v.records)
    (tells : ∀ operation ∈ operations, operation.Tells v.records) (moving : Moving v.records operations)
    (h : v.run index operations = some w) : Apart v.records w.records := by
  by_cases adds : AddsNothing operations
  · by_cases gone : removed operations = []
    · by_cases writes : ∃ operation ∈ operations, operation.writes?.isSome
      · obtain ⟨operation,mem,written⟩ := writes
        obtain ⟨⟨id,values⟩,written⟩ := Option.isSome_iff_exists.mp written
        exact writesShow distinct adds gone tells mem written h
      · have only : OnlyMoves operations := by
          intro operation mem
          have silent : operation.writes? = none := by
            rw [← Option.not_isSome_iff_eq_none]
            exact fun written => writes ⟨operation,mem,written⟩
          cases operation with
          | add values before => exact absurd mem (adds values before)
          | remove id => cases List.filterMap_eq_nil_iff.mp gone _ mem
          | set item values =>
            cases item with
            | none => exact absurd mem (runAimed h)
            | some id => cases silent
          | move item before => exact ⟨item,before,rfl⟩
          | enable id => cases silent
          | disable id => cases silent
        exact .order (movesShow distinct only planned moving h)
    · exact removalsShow adds gone h
  · simp only [AddsNothing,not_forall,not_not] at adds
    obtain ⟨values,before,mem⟩ := adds
    exact additionsShow mem known unused h

end View
end RouterReconciler

import RouterReconciler.Proofs.Reconcile.Plain
import RouterReconciler.Proofs.Reconcile.Turns
import RouterReconciler.Proofs.Reconcile.Planned

/-! What an ensuring task without a position plans for a find, told exactly. The find judges every record
of the facility; what it asks of those it matches becomes a write wherever something differs, and where
it matches nothing a record is added, or nothing is done. -/
namespace RouterReconciler
open Replica Step

namespace Criteria

theorem askedSet {c : Criteria} {set : Assignments} {key : String} {a : Assignment}
    (h : set.get? key = some a) : (c.asked set).get? key = some a := by
  cases split : c.splitDefault? with
  | none => rw [askedPlain split,h]
  | some parts => rw [askedSplit split,Entries.getExtend,h,Option.some_or]

section
variable [PatternEngine]

def hits (c : Criteria) (r : Record) : Bool :=
  match c.sought.judges r with
  | .ok hit => hit
  | .error _ => false

structure Decides (c : Criteria) (rs : List Record) : Prop where
  read : ∃ s, Selector.ofCriteria c.sought = .ok s
  told : ∀ r ∈ rs, ∃ hit, c.sought.judges r = .ok hit

theorem hitsIff {c : Criteria} {r : Record} : c.hits r = true ↔ c.sought.judges r = .ok true := by
  unfold hits
  cases c.sought.judges r with
  | ok hit => simp
  | error e => simp

end

end Criteria

theorem selectExactly {s : Selector} {rs found : List Record} : s.select rs = .ok found ↔
    (∀ r ∈ rs, ∃ hit, s.matches? r = .ok hit) ∧
      found = rs.filter fun r => (s.matches? r).toOption.getD false := by
  constructor
  · intro h
    obtain ⟨told,-⟩ := selectFilter h
    refine ⟨told,?_⟩
    have all : ∀ r ∈ rs, s.matches? r = .ok ((s.matches? r).toOption.getD false) := by
      intro r hr
      obtain ⟨hit,same⟩ := told r hr
      rw [same]
      rfl
    rw [Reconcile.selectWhere all] at h
    exact (Except.ok.inj h).symm
  · rintro ⟨told,rfl⟩
    refine Reconcile.selectWhere fun r hr => ?_
    obtain ⟨hit,same⟩ := told r hr
    rw [same]
    rfl

namespace Reconcile

def settings (desired : Assignments) (r : Record) : List Operation :=
  if (due desired r).isEmpty then [] else [.set r.id (due desired r)]

structure Settable (desired : Assignments) (r : Record) : Prop where
  comparable : r.Comparable desired
  writable : (due desired r).isEmpty = false →
    (∃ id, r.id = some id) ∧ (due desired r).checkWritable = .ok ()

inductive Reply (set : Assignments) (missing : Missing) (c : Criteria) :
    List Record → List Operation → Prop where
  | found {found} (some : found ≠ []) (settable : ∀ r ∈ found, Settable (c.asked set) r) :
      Reply set missing c found (found.flatMap (settings (c.asked set)))
  | added {literals} (adds : missing = .add) (plain : c.splitDefault? = none)
      (own : c.addValues = .ok literals)
      (writable : (overlay literals set.toList).checkWritable = .ok ()) :
      Reply set missing c [] [.add (overlay literals set.toList) none]
  | ignored (ignores : missing = .ignore) : Reply set missing c [] []

theorem idOfIff {r : Record} {id : ItemId} : idOf r = .ok id ↔ r.id = some id := by
  unfold idOf
  cases r.id <;> simp

theorem modifyAllExactly {desired : Assignments} {found : List Record} {operations : List Operation} :
    modifyAll desired found = .ok operations ↔
      (∀ r ∈ found, Settable desired r) ∧ operations = found.flatMap (settings desired) := by
  induction found generalizing operations with
  | nil => simp [modifyAll,eq_comm]
  | cons r rest ih =>
    simp only [modifyAllCons,differingOk,ih,List.forall_mem_cons,List.flatMap_cons]
    constructor
    · rintro ⟨_,⟨comparable,rfl⟩,_,⟨later,rfl⟩,⟨empty,rfl⟩ | ⟨some,id,first,named,written,rfl⟩⟩
      · refine ⟨⟨⟨comparable,fun differs => ?_⟩,later⟩,by rw [settings,if_pos empty]; rfl⟩
        cases differs.symm.trans empty
      · rw [idOfIff] at named
        simp only [modification,some,Bool.false_eq_true,if_false] at written
        split at written <;> cases written
        rename_i writable
        exact ⟨⟨⟨comparable,fun _ => ⟨⟨id,named⟩,writable⟩⟩,later⟩,by rw [settings,some,named]; rfl⟩
    · rintro ⟨⟨⟨comparable,writable⟩,later⟩,rfl⟩
      refine ⟨_,⟨comparable,rfl⟩,_,⟨later,rfl⟩,?_⟩
      cases empty : (due desired r).isEmpty with
      | true => exact .inl ⟨rfl,by rw [settings,if_pos empty]; rfl⟩
      | false =>
        obtain ⟨⟨id,named⟩,writable⟩ := writable empty
        refine .inr ⟨rfl,id,_,idOfIff.mpr named,?_,by rw [settings,empty,named]⟩
        simp [modification,empty,writable]

variable {f : Facility} {set : Assignments} {missing : Missing} {c : Criteria} {d d' : Replica}
  {found : List Record} {operations : List Operation}

section
variable [PatternEngine]

theorem findExactly : find f c.sought d = (.ok found,d') ↔ d' = d ∧ f.shape ≠ .singleton ∧
    d.HasItems f.path ∧ c.Decides (d.records f.path) ∧ found = (d.records f.path).filter c.hits := by
  have judged {s : Selector} (read : Selector.ofCriteria c.sought = .ok s) :
      (fun r => s.excludingDynamic.matches? r) = c.sought.judges := by
    funext r
    rw [Criteria.judges,read]
  have same {s : Selector} (read : Selector.ofCriteria c.sought = .ok s) :
      (fun r => (s.excludingDynamic.matches? r).toOption.getD false) = c.hits := by
    funext r
    rw [Criteria.hits,← judged read]
    dsimp only
    cases s.excludingDynamic.matches? r <;> rfl
  constructor
  · intro h
    obtain ⟨rfl,several,items,-⟩ := findOk h
    simp only [find,bindOk,liftOk] at h
    obtain ⟨s,_,⟨read,rfl⟩,h⟩ := h
    obtain ⟨told,rfl⟩ := selectExactly.mp (readOk h).2.2
    rw [same read]
    refine ⟨rfl,several,items,⟨⟨s,read⟩,fun r hr => ?_⟩,rfl⟩
    rw [← judged read]
    exact told r hr
  · rintro ⟨rfl,several,items,⟨⟨s,read⟩,told⟩,rfl⟩
    rw [find,bindAfter (liftOk.mpr ⟨read,rfl⟩)]
    refine readThere several items (selectExactly.mpr ⟨fun r hr => ?_,by rw [same read]⟩)
    rw [← judged read] at told
    exact told r hr

end

theorem foundExactly {desired : Assignments} :
    ensureFound f c found desired none d = (.ok operations,d') ↔ d' = d ∧
      (∀ r ∈ found, Settable desired r) ∧ operations = found.flatMap (settings desired) := by
  simp only [ensureFound,Option.isSome_none,Bool.false_and,Bool.false_eq_true,if_false,moveFirst,
    bindOk,liftOk,pureOk,modifyAllExactly]
  constructor
  · rintro ⟨_,_,⟨⟨settable,rfl⟩,rfl⟩,_,_,⟨rfl,rfl⟩,rfl,rfl⟩
    exact ⟨rfl,settable,List.append_nil _⟩
  · rintro ⟨rfl,settable,rfl⟩
    exact ⟨_,_,⟨⟨settable,rfl⟩,rfl⟩,_,_,⟨rfl,rfl⟩,List.append_nil _,rfl⟩

theorem addExactly : addMissing f c set none d = (.ok operations,d') ↔ d' = d ∧
    ∃ literals, c.addValues = .ok literals ∧ (overlay literals set.toList).checkWritable = .ok () ∧
      operations = [.add (overlay literals set.toList) none] := by
  rw [addMissingEnds]
  constructor
  · rintro ⟨literals,own,before,placed,operation,checked,rfl⟩
    obtain ⟨rfl,rfl⟩ := pureOk.mp placed
    unfold addition at checked
    split at checked
    · cases checked
      exact ⟨rfl,literals,own,by assumption,rfl⟩
    · cases checked
  · rintro ⟨rfl,literals,own,writable,rfl⟩
    exact ⟨literals,own,none,rfl,_,by rw [addition,writable],rfl⟩

theorem replyFound (some : found ≠ []) : Reply set missing c found operations ↔
    (∀ r ∈ found, Settable (c.asked set) r) ∧ operations = found.flatMap (settings (c.asked set)) := by
  constructor
  · intro h
    cases h with
    | found _ settable => exact ⟨settable,rfl⟩
    | added => exact absurd rfl some
    | ignored => exact absurd rfl some
  · rintro ⟨settable,rfl⟩
    exact .found some settable

theorem replySplit {identity : Criteria} {values : Assignments}
    (split : c.splitDefault? = some (identity,values)) :
    Reply set missing c [] operations ↔ missing = .ignore ∧ operations = [] := by
  constructor
  · intro h
    cases h with
    | found some => exact absurd rfl some
    | added _ plain => cases split.symm.trans plain
    | ignored ignores => exact ⟨ignores,rfl⟩
  · rintro ⟨ignores,rfl⟩
    exact .ignored ignores

theorem replyPlain (plain : c.splitDefault? = none) : Reply set missing c [] operations ↔
    missing = .ignore ∧ operations = [] ∨ missing = .add ∧
      ∃ literals, c.addValues = .ok literals ∧ (overlay literals set.toList).checkWritable = .ok () ∧
        operations = [.add (overlay literals set.toList) none] := by
  constructor
  · intro h
    cases h with
    | found some => exact absurd rfl some
    | added adds _ own writable => exact .inr ⟨adds,_,own,writable,rfl⟩
    | ignored ignores => exact .inl ⟨ignores,rfl⟩
  · rintro (⟨ignores,rfl⟩ | ⟨adds,literals,own,writable,rfl⟩)
    · exact .ignored ignores
    · exact .added adds plain own writable

theorem nothingPlanned :
    (pure [] : Inquiry Replica (List Operation)) d = (.ok operations,d') ↔ d' = d ∧ operations = [] := by
  rw [pureOk]
  exact ⟨fun ⟨empty,same⟩ => ⟨same.symm,empty.symm⟩,fun ⟨same,empty⟩ => ⟨empty.symm,same.symm⟩⟩

variable [PatternEngine]

theorem lookedUp {sought : Criteria} {desired : Assignments} (looking : c.sought = sought)
    (asking : c.asked set = desired) {unmatched : Inquiry Replica (List Operation)}
    (alone : ∀ {e e' : Replica} {operations : List Operation}, unmatched e = (.ok operations,e') ↔
      e' = e ∧ Reply set missing c [] operations) :
    (find f sought >>= fun found =>
      if found.isEmpty then unmatched else ensureFound f c found desired none) d =
        (.ok operations,d') ↔
    d' = d ∧ f.shape ≠ .singleton ∧ d.HasItems f.path ∧ c.Decides (d.records f.path) ∧
      Reply set missing c ((d.records f.path).filter c.hits) operations := by
  subst looking asking
  have answered (found : List Record) (m : Replica) :
      (if found.isEmpty then unmatched else ensureFound f c found (c.asked set) none) m =
        (.ok operations,d') ↔ d' = m ∧ Reply set missing c found operations := by
    cases found with
    | nil => exact alone
    | cons r rest => rw [replyFound (by simp)]; exact foundExactly (c := c)
  constructor
  · intro h
    obtain ⟨found,m,looked,h⟩ := bindOk.mp h
    obtain ⟨rfl,several,items,decides,rfl⟩ := findExactly.mp looked
    obtain ⟨same,reply⟩ := (answered _ m).mp h
    exact ⟨same,several,items,decides,reply⟩
  · rintro ⟨same,several,items,decides,reply⟩
    exact bindOk.mpr ⟨_,d,findExactly.mpr ⟨rfl,several,items,decides,rfl⟩,(answered _ d).mpr ⟨same,reply⟩⟩

theorem ensureOneExactly : ensureOne f set none missing c d = (.ok operations,d') ↔
    d' = d ∧ f.shape ≠ .singleton ∧ d.HasItems f.path ∧ c.Decides (d.records f.path) ∧
      Reply set missing c ((d.records f.path).filter c.hits) operations := by
  cases split : c.splitDefault? with
  | some parts =>
    obtain ⟨identity,values⟩ := parts
    simp only [ensureOne,split]
    refine lookedUp (Criteria.soughtSplit split) (Criteria.askedSplit split set) fun {e e' operations} => ?_
    rw [replySplit split]
    cases missing with
    | ignore => rw [nothingPlanned]; simp
    | _ => simp
  | none =>
    simp only [ensureOne,split]
    refine lookedUp (Criteria.soughtPlain split) (Criteria.askedPlain split set) fun {e e' operations} => ?_
    rw [replyPlain split]
    cases missing with
    | add => simp [addExactly]
    | fail => simp
    | ignore => rw [nothingPlanned]; simp

theorem ensureEachOk {within : Option Nat → Error → Error} {several : Bool} {index : Nat}
    {finds : List Criteria}
    (h : ensureEach f within several set none missing index finds d = (.ok operations,d')) :
    ∃ replies, operations = replies.flatten ∧ List.Forall₂ (fun c reply => f.shape ≠ .singleton ∧
      d.HasItems f.path ∧ c.Decides (d.records f.path) ∧
      Reply set missing c ((d.records f.path).filter c.hits) reply) finds replies := by
  induction finds generalizing index operations d' with
  | nil =>
    obtain ⟨rfl,-⟩ := pureOk.mp h
    exact ⟨[],rfl,.nil⟩
  | cons c rest ih =>
    obtain ⟨first,_,one,others,later,rfl⟩ := ensureEachNext.mp h
    obtain ⟨rfl,turn⟩ := ensureOneExactly.mp one
    obtain ⟨replies,rfl,each⟩ := ih later
    exact ⟨first :: replies,rfl,.cons turn each⟩

end Reconcile
end RouterReconciler

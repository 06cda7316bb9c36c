import RouterReconciler.Proofs.Reconcile.Adjust
import RouterReconciler.Proofs.Value.Overlaps

/-! Adjusted lines that one record fits. Lines are told apart by the canonical texts of their key values, and
records are matched by what these values equal, so two lines that are told apart can still fit one record:
where their values overlap at every key. -/
namespace RouterReconciler

theorem Entries.chosen {α : Type} (f : String → Option α) (keys : List String) :
    ∃ e : Entries α, (∀ key ∈ keys, e.get? key = f key) ∧ ∀ key a, e.get? key = some a → f key = some a := by
  induction keys with
  | nil => exact ⟨∅,by simp,fun key a there => by cases there⟩
  | cons first rest ih =>
    obtain ⟨e,known,only⟩ := ih
    cases given : f first with
    | some a =>
      have got (key : String) := e.getInsert first key a
      refine ⟨e.insert first a,fun key mem => ?_,fun key b there => ?_⟩
      · rw [got]
        split
        · rename_i here; rw [here,given]
        · exact known key ((List.mem_cons.mp mem).resolve_left (by assumption))
      · rw [got] at there
        split at there
        · rename_i here; rw [here,given,there]
        · exact only key b there
    | none =>
      refine ⟨e.erase first,fun key mem => ?_,fun key b there => ?_⟩
      · rw [getErase]
        split
        · rename_i here; rw [here,given]
        · exact known key ((List.mem_cons.mp mem).resolve_left (by assumption))
      · rw [getErase] at there
        split at there
        · cases there
        · exact only key b there

def Value.Scalar (v : Value) : Prop := v.isList = false ∧ v.isDuration = false

theorem Value.scalarEqual {v a : Value} (scalar : v.Scalar) (scalar' : a.Scalar) :
    v.equal? a = some true ↔ v.canonical = a.canonical := by
  simp [equal?,alike,sameSeconds?,scalar.1,scalar.2,scalar'.1,scalar'.2]

namespace Reconcile
variable {keys : List String} {line l m : Criteria} {r : Record} {lines : List Criteria}

theorem tupleEntries (keys : List String) (line : Criteria) :
    keyTuple keys line = keys.map fun key => (line.literal? key).map Value.canonical := by
  refine List.map_congr_left fun key _ => ?_
  unfold Criteria.literal?
  cases line.get? key with
  | none => rfl
  | some c => cases c <;> rfl

theorem keysMeetIff : keysMeet keys line r = true ↔
    ∀ key ∈ keys, Option.Rel (fun v a => v.equal? a = some true) (line.literal? key) (r.get? key) := by
  refine keysMeetAll.trans (forall₂_congr fun key _ => keyTestPasses.trans ?_)
  cases line.literal? key with
  | none => cases r.get? key <;> simp
  | some v => cases r.get? key <;> simp

theorem tuplesChecked {within : Option Nat → Error → Error} {seen : List (List (Option String))} {index : Nat}
    (checked : checkTuples within keys seen index lines = .ok ()) :
    (lines.map (keyTuple keys)).Nodup ∧ ∀ line ∈ lines, keyTuple keys line ∉ seen := by
  induction lines generalizing seen index with
  | nil => simp
  | cons line rest ih =>
    unfold checkTuples at checked
    dsimp only at checked
    split at checked
    · cases checked
    · rename_i fresh
      obtain ⟨distinct,apart⟩ := ih checked
      rw [List.contains_iff_mem] at fresh
      refine ⟨List.nodup_cons.mpr ⟨fun mem => ?_,distinct⟩,List.forall_mem_cons.mpr ⟨fresh,fun other mem =>
        fun early => apart other mem (List.mem_cons_of_mem _ early)⟩⟩
      obtain ⟨other,there,same⟩ := List.mem_map.mp mem
      exact apart other there (same ▸ List.mem_cons_self)

def LiteralsInRange (line : Criteria) : Prop := ∀ key v, line.literal? key = some v → v.InRange

def FitsOneLine (keys : List String) (lines : List Criteria) (r : Record) : Prop :=
  lines.Pairwise fun l m => ¬(keysMeet keys l r = true ∧ keysMeet keys m r = true)

section
variable {p q : Option Value}

theorem sharedValue (range : ∀ v ∈ p, v.InRange) (range' : ∀ w ∈ q, w.InRange) :
    (∃ x : Option Value, (∀ a ∈ x, a.InRange) ∧ Option.Rel (fun v a => v.equal? a = some true) p x ∧
      Option.Rel (fun w a => w.equal? a = some true) q x) ↔ Option.Rel Value.Overlap p q := by
  constructor
  · rintro ⟨x,inRange,one,other⟩
    cases one with
    | none => cases other; exact .none
    | some first =>
      cases other with
      | some second =>
        exact .some (Value.overlapOf (range _ rfl) (range' _ rfl) (inRange _ rfl) first second)
  · intro overlaps
    cases overlaps with
    | none => exact ⟨none,by simp,.none,.none⟩
    | some overlap =>
      obtain ⟨a,inRange,first,second⟩ := (Value.overlapShared (range _ rfl) (range' _ rfl)).mpr overlap
      exact ⟨some a,by simpa using inRange,.some first,.some second⟩

end

instance (keys : List String) (lines : List Criteria) (r : Record) : Decidable (FitsOneLine keys lines r) :=
  inferInstanceAs (Decidable (List.Pairwise _ _))

theorem sharedIff (range : LiteralsInRange l) (range' : LiteralsInRange m) :
    (∃ r : Record, r.Each Value.InRange ∧ keysMeet keys l r = true ∧ keysMeet keys m r = true) ↔
      ∀ key ∈ keys, Option.Rel Value.Overlap (l.literal? key) (m.literal? key) := by
  have shared (key : String) := sharedValue (p := l.literal? key) (q := m.literal? key)
    (fun v there => range key v there) fun w there => range' key w there
  simp only [keysMeetIff]
  constructor
  · rintro ⟨r,inRange,first,second⟩ key mem
    exact (shared key).mp ⟨r.get? key,fun a there => inRange key a there,first key mem,second key mem⟩
  · intro overlaps
    have each (key : String) : ∃ x : Option Value, (∀ a ∈ x, a.InRange) ∧ (key ∈ keys →
        Option.Rel (fun v a => v.equal? a = some true) (l.literal? key) x ∧
        Option.Rel (fun w a => w.equal? a = some true) (m.literal? key) x) := by
      by_cases mem : key ∈ keys
      · obtain ⟨x,inRange,both⟩ := (shared key).mpr (overlaps key mem)
        exact ⟨x,inRange,fun _ => both⟩
      · exact ⟨none,by simp,fun there => absurd there mem⟩
    choose value inRange fits using each
    obtain ⟨fields,known,only⟩ := Entries.chosen value keys
    have got {key : String} (mem : key ∈ keys) : (⟨none,fields⟩ : Record).get? key = value key := known key mem
    refine ⟨⟨none,fields⟩,fun key a there => inRange key a (only key a there),fun key mem => ?_,fun key mem => ?_⟩
    · rw [got mem]; exact (fits key mem).1
    · rw [got mem]; exact (fits key mem).2

theorem scalarTuple (scalar : ∀ key ∈ keys, ∀ v, line.literal? key = some v → v.Scalar)
    (scalar' : ∀ key ∈ keys, ∀ a, r.get? key = some a → a.Scalar) (matching : keysMeet keys line r = true) :
    keyTuple keys line = keys.map fun key => (r.get? key).map Value.canonical := by
  rw [tupleEntries]
  refine List.map_congr_left fun key mem => ?_
  have own := scalar key mem
  have there := scalar' key mem
  have fit := keysMeetIff.mp matching key mem
  generalize line.literal? key = wanted at own fit ⊢
  generalize r.get? key = actual at there fit ⊢
  cases fit with
  | none => rfl
  | some same => exact congrArg some ((Value.scalarEqual (own _ rfl) (there _ rfl)).mp same)

/-- What the check for duplicates comes to for lines that pass it. Their tuples differ; no record fits two of
them exactly if the values of any two of them do not overlap at some key; and this is so for every record
that has scalars under the keys, if the lines have. -/
theorem identityExactly {within : Option Nat → Error → Error} {keys : List String} {lines : List Criteria}
    (checked : checkTuples within keys [] 0 lines = .ok ()) (range : ∀ line ∈ lines, LiteralsInRange line) :
    (lines.map (keyTuple keys)).Nodup ∧
    ((∀ r : Record, r.Each Value.InRange → FitsOneLine keys lines r) ↔ lines.Pairwise fun l m =>
      ∃ key ∈ keys, ¬Option.Rel Value.Overlap (l.literal? key) (m.literal? key)) ∧
    ((∀ line ∈ lines, ∀ key ∈ keys, ∀ v, line.literal? key = some v → v.Scalar) →
      ∀ r : Record, (∀ key ∈ keys, ∀ a, r.get? key = some a → a.Scalar) → FitsOneLine keys lines r) := by
  have distinct := (tuplesChecked checked).1
  have apart {l m : Criteria} (mem : l ∈ lines) (mem' : m ∈ lines) :
      (∀ r : Record, r.Each Value.InRange → ¬(keysMeet keys l r = true ∧ keysMeet keys m r = true)) ↔
        ∃ key ∈ keys, ¬Option.Rel Value.Overlap (l.literal? key) (m.literal? key) := by
    have shared : (∃ r : Record, r.Each Value.InRange ∧ keysMeet keys l r = true ∧ keysMeet keys m r = true) ↔
        ∀ key ∈ keys, Option.Rel Value.Overlap (l.literal? key) (m.literal? key) :=
      sharedIff (range l mem) (range m mem')
    have unshared := not_congr shared
    push Not at unshared ⊢
    exact unshared
  refine ⟨distinct,⟨fun fits => ?_,fun overlaps r inRange => ?_⟩,fun scalar r scalar' => ?_⟩
  · refine List.pairwise_iff_getElem.mpr fun i j hi hj before => ?_
    refine (apart (List.getElem_mem hi) (List.getElem_mem hj)).mp fun r inRange => ?_
    exact List.pairwise_iff_getElem.mp (fits r inRange) i j hi hj before
  · exact overlaps.imp_of_mem fun mem mem' differs => (apart mem mem').mpr differs r inRange
  · refine (List.pairwise_map.mp distinct).imp_of_mem fun mem mem' differs => ?_
    rintro ⟨first,second⟩
    exact differs ((scalarTuple (scalar _ mem) scalar' first).trans (scalarTuple (scalar _ mem') scalar' second).symm)

def taggedLine (ports : String) : Criteria := Entries.ofList [("tagged",.literal (.str ports))]

def taggedLines : List Criteria := [taggedLine "ether1,ether2",taggedLine "ether1, ether2"]

theorem taggedGiven (ports : String) : (taggedLine ports).literal? "tagged" = some (.str ports) := rfl

theorem taggedElements : (Value.str "ether1,ether2").elements = (Value.str "ether1, ether2").elements := by
  decide +kernel

theorem taggedLiteral {ports : String} {v : Value} {key : String}
    (given : (taggedLine ports).literal? key = some v) : v = .str ports := by
  unfold Criteria.literal? at given
  split at given
  · rename_i there
    cases given
    cases List.mem_singleton.mp (Entries.getMem.mp there)
    rfl
  · cases given

theorem identityExactlyTagged : checkTuples (fun _ e => e) ["tagged"] [] 0 taggedLines = .ok () ∧
    (∀ line ∈ taggedLines, LiteralsInRange line) ∧
    (∃ r : Record, r.Each Value.InRange ∧ ¬FitsOneLine ["tagged"] taggedLines r) ∧
    ∀ r : Record, (∀ a, r.get? "tagged" = some a → a.Scalar) → FitsOneLine ["tagged"] taggedLines r := by
  have checked : checkTuples (fun _ e => e) ["tagged"] [] 0 taggedLines = .ok () := rfl
  have texts : ∀ line ∈ taggedLines, ∀ key v, line.literal? key = some v → ∃ s, v = .str s :=
    List.forall_mem_cons.mpr ⟨fun _ _ given => ⟨_,taggedLiteral given⟩,
      List.forall_mem_singleton.mpr fun _ _ given => ⟨_,taggedLiteral given⟩⟩
  have range : ∀ line ∈ taggedLines, LiteralsInRange line := fun line mem key v given => by
    obtain ⟨s,rfl⟩ := texts line mem key v given
    trivial
  obtain ⟨-,shared,scalar⟩ := identityExactly checked range
  refine ⟨checked,range,?_,fun r scalar' => scalar (fun line mem key _ v given => ?_) r ?_⟩
  · by_contra none
    push Not at none
    obtain ⟨key,mem,apart⟩ := List.pairwise_pair.mp (shared.mp none)
    rw [List.mem_singleton.mp mem,taggedGiven,taggedGiven] at apart
    exact apart (.some (.elements taggedElements))
  · obtain ⟨s,rfl⟩ := texts line mem key v given
    exact ⟨rfl,rfl⟩
  · simpa using scalar'

def hourLines : List Criteria :=
  [Entries.ofList [("lease-time",.literal (.str "1h"))],Entries.ofList [("lease-time",.literal (.str "60m"))]]

-- Lines that differ by a blank between two elements pass the check and fit one list; so do two notations of
-- one duration.
theorem linesShareRecord :
    (∃ t, FacilityTask.make ⟨"/interface bridge vlan"⟩ (.adjust taggedLines ["tagged"] false 1) = .ok t ∧
      checkTuples t.within ["tagged"] [] 0 taggedLines = .ok () ∧
      ¬FitsOneLine ["tagged"] taggedLines
        ⟨some "*1",Entries.ofList [("tagged",.list [.str "ether1",.str "ether2"])]⟩) ∧
    ∃ t, FacilityTask.make ⟨"/ip dhcp-server"⟩ (.adjust hourLines ["lease-time"] false 1) = .ok t ∧
      checkTuples t.within ["lease-time"] [] 0 hourLines = .ok () ∧
      ¬FitsOneLine ["lease-time"] hourLines ⟨some "*1",Entries.ofList [("lease-time",.duration 3600)]⟩ :=
  ⟨⟨_,rfl,rfl,by decide +kernel⟩,_,rfl,rfl,by decide +kernel⟩

end Reconcile
end RouterReconciler

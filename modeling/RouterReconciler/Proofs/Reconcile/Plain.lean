import RouterReconciler.Proofs.Reconcile.Judgeable
import RouterReconciler.Proofs.Record.Difference

/-! Lines that say what is literal and what is unset, and nothing of the kind of a record. They are judged by
the records alone. -/
namespace RouterReconciler
open Step Replica

def kindKeys : List String := ["dynamic","builtin","default","default-name"]

def Condition.accepts : Condition → Option Value → Bool
  | .literal v,actual => actual.any fun held => v.equal? held = some true
  | .notSet,actual => actual.isNone
  | _,_ => false

namespace Criteria

structure Plain (line : Criteria) : Prop where
  written : ∀ key c, line.get? key = some c → c = .notSet ∨ ∃ v, c = .literal v
  unreserved : ∀ key ∈ kindKeys, line.get? key = none

structure Concrete (line : Criteria) : Prop where
  written : ∀ key c, line.get? key = some c → c = .notSet ∨ ∃ v, c = .literal v
  unreserved : ∀ key ∈ ["dynamic","default","default-name"], line.get? key = none

variable {line : Criteria}

theorem Plain.concrete (plain : line.Plain) : line.Concrete := by
  refine ⟨plain.written,fun key mem => plain.unreserved key ?_⟩
  have kinds : ["dynamic","default","default-name"] ⊆ kindKeys := by decide
  exact kinds mem

theorem Plain.literal {key : String} (free : key ∉ kindKeys) (v : Value) :
    Plain (Entries.ofList [(key,.literal v)]) := by
  refine ⟨fun other c there => ?_,fun other kind => ?_⟩
  · cases List.mem_singleton.mp (Entries.getMem.mp there)
    exact .inr ⟨_,rfl⟩
  · refine Entries.getNone.mpr fun mem => free ?_
    cases List.mem_singleton.mp mem
    exact kind

theorem Concrete.notRaw (concrete : line.Concrete) : line.hasRaw = false := by
  refine List.any_eq_false.mpr fun c mem => ?_
  obtain ⟨clause,there,rfl⟩ := List.mem_map.mp mem
  rcases concrete.written _ _ (Entries.getMem.mpr there) with same | ⟨v,same⟩ <;>
    simp [same,Condition.isRaw]

theorem Concrete.nameless (concrete : line.Concrete) : line.namesDefault = false := by
  refine List.any_eq_false.mpr fun key mem named => ?_
  have reserved : key ∈ ["dynamic","default","default-name"] := by
    simp only [defaultNameKeys,List.contains_iff_mem,List.mem_cons,List.not_mem_nil,or_false] at named
    rcases named with rfl | rfl <;> decide
  exact Entries.getNone.mp (concrete.unreserved key reserved) mem

theorem Concrete.notSplit (concrete : line.Concrete) : line.splitDefault? = none := by
  simp [splitDefault?,concrete.nameless]

section
variable [PatternEngine]

theorem plainTests {clauses : List (String × Condition)}
    (plain : ∀ clause ∈ clauses, clause.2 = .notSet ∨ ∃ v, clause.2 = .literal v) :
    ∃ tests, Test.ofClauses clauses = .ok tests ∧ ∀ r, Selector.passesAll r tests = .ok true ↔
      clauses.all (fun clause => clause.2.accepts (r.get? clause.1)) = true := by
  induction clauses with
  | nil => exact ⟨[],rfl,fun _ => by simp [Selector.passesAll]⟩
  | cons clause rest ih =>
    obtain ⟨tests,read,judged⟩ := ih fun other mem => plain other (List.mem_cons_of_mem _ mem)
    obtain ⟨key,c⟩ := clause
    rcases plain _ List.mem_cons_self with same | ⟨v,same⟩ <;> simp only at same <;> subst same
    · refine ⟨(key,.notSet) :: tests,by simp [Test.ofClauses,Test.ofCondition,read],fun r => ?_⟩
      rw [Selector.passesAll,List.all_cons,Bool.and_eq_true,← judged]
      cases (r.get? key) <;> simp [Test.passes,Condition.accepts]
    · refine ⟨(key,.literal v) :: tests,by simp [Test.ofClauses,Test.ofCondition,read],fun r => ?_⟩
      rw [Selector.passesAll,List.all_cons,Bool.and_eq_true,← judged]
      cases r.get? key with
      | none => simp [Test.passes,Condition.accepts]
      | some held =>
        cases told : v.equal? held with
        | none => simp [Test.passes,Condition.accepts,told,Halt.orBroken]
        | some same => cases same <;> simp [Test.passes,Condition.accepts,told,Halt.orBroken]

theorem Concrete.judged (concrete : line.Concrete) :
    ∃ s, Selector.ofCriteria line = .ok s ∧ s.criteria = line ∧ ∀ r, s.matches? r = .ok true ↔
      line.toList.all (fun clause => clause.2.accepts (r.get? clause.1)) = true := by
  obtain ⟨tests,read,judged⟩ := plainTests fun clause mem =>
    concrete.written clause.1 clause.2 (Entries.getMem.mpr mem)
  exact ⟨⟨line,tests,false,false,false⟩,by simp [Selector.ofCriteria,read],rfl,judged⟩

theorem Concrete.judgeable (concrete : line.Concrete) : line.Judgeable := by
  obtain ⟨s,read,-⟩ := concrete.judged
  exact ⟨⟨s,read⟩,concrete.notRaw,concrete.nameless⟩

theorem Plain.judgeable (plain : line.Plain) : line.Judgeable := plain.concrete.judgeable

theorem Concrete.meets (concrete : line.Concrete) (r : Record) : meets line r =
    line.toList.all fun clause => clause.2.accepts (r.get? clause.1) := by
  obtain ⟨s,read,-,judged⟩ := concrete.judged
  rw [RouterReconciler.meets,read,Bool.eq_iff_iff,← judged r]
  simp only
  split <;> rename_i told <;> simp [told]

theorem Concrete.meetsOwn (concrete : line.Concrete) {r : Record}
    (own : ∀ key, (line.get? key).isSome → r.get? key = line.literal? key) :
    RouterReconciler.meets line r = true := by
  rw [concrete.meets]
  refine List.all_eq_true.mpr fun clause mem => ?_
  have there := Entries.getMem.mpr mem
  rw [own _ (by rw [there]; rfl),literal?,there]
  rcases concrete.written _ _ there with same | ⟨v,same⟩ <;> rw [same]
  · rfl
  · simp [Condition.accepts,v.equalSelf]

end

theorem flagOwn {r : Record} (own : ∀ key, r.get? key = line.literal? key) {key : String}
    (absent : line.get? key = none) : r.flag key = false := by
  rw [Record.flag,own,literal?,absent]

theorem Plain.flagOwn (plain : line.Plain) {r : Record}
    (own : ∀ key, r.get? key = line.literal? key) {key : String} (kind : key ∈ kindKeys) :
    r.flag key = false := Criteria.flagOwn own (plain.unreserved key kind)

end Criteria

namespace Reconcile
variable {f : Facility} {d : Replica}

theorem readDevice (s : Selector) (several : f.shape ≠ .singleton) : f.read s d = Replica.read f.path s d := by
  have passed : f.requireItems "find" = .ok () := by simp [Facility.requireItems,several]
  rw [Facility.read,passed]
  rfl

theorem readThere {s : Selector} {found : List Record} (several : f.shape ≠ .singleton)
    (items : d.HasItems f.path) (selected : s.select (d.records f.path) = .ok found) :
    f.read s d = (.ok found,d) := by
  rw [readDevice s several]
  unfold Replica.read
  split
  · rename_i rs there
    rw [Replica.records,there] at selected
    rw [selected]
  · rename_i r there
    exact absurd there (items r)
  · rename_i absent
    rw [Replica.records,absent] at selected
    cases selected
    rfl

theorem snapshotThere (several : f.shape ≠ .singleton) (items : d.HasItems f.path) :
    snapshot f d = (.ok (lasting (d.records f.path)),d) := readThere several items (selectAll _)

theorem selectWhere {s : Selector} {p : Record → Bool} {rs : List Record}
    (judged : ∀ r ∈ rs, s.matches? r = .ok (p r)) : s.select rs = .ok (rs.filter p) := by
  induction rs with
  | nil => rfl
  | cons r rest ih =>
    rw [Selector.select,judged r List.mem_cons_self,List.filter_cons]
    simp only [ih fun x hx => judged x (List.mem_cons_of_mem _ hx)]

theorem selectEnd {s : Selector} {rs : List Record} {e : Halt Error}
    (ends : ∀ r ∈ rs, ∀ c, s.matches? r = .error c → c = e)
    (some : ∃ r ∈ rs, ∃ c, s.matches? r = .error c) : s.select rs = .error e := by
  induction rs with
  | nil => obtain ⟨_,mem,-⟩ := some; cases mem
  | cons r rest ih =>
    rw [Selector.select]
    cases judged : s.matches? r with
    | error c => rw [ends r List.mem_cons_self c judged]
    | ok hit =>
      obtain ⟨x,mem,c,broken⟩ := some
      rcases List.mem_cons.mp mem with rfl | mem
      · cases judged.symm.trans broken
      · simp only [ih (fun x hx => ends x (List.mem_cons_of_mem _ hx)) ⟨x,mem,c,broken⟩]

theorem readStops {s : Selector} {e : Halt Error} (several : f.shape ≠ .singleton)
    (items : d.HasItems f.path) (stopped : s.select (d.records f.path) = .error e) :
    f.read s d = (.error e,d) := by
  rw [readDevice s several]
  unfold Replica.read
  split
  · rename_i rs there
    rw [Replica.records,there] at stopped
    rw [stopped]
  · rename_i r there
    exact absurd there (items r)
  · rename_i absent
    rw [Replica.records,absent] at stopped
    cases stopped

section
variable [PatternEngine]

theorem findClear {c : Criteria} (legible : c.Legible) (several : f.shape ≠ .singleton)
    (items : d.HasItems f.path) (clear : ¬Clash [c] (d.records f.path)) :
    find f c d = (.ok ((d.records f.path).filter (selects c)),d) := by
  obtain ⟨s,read⟩ := legible.readable
  rw [find,bindAfter (liftOk.mpr ⟨read,rfl⟩)]
  refine readThere several items (selectWhere fun r mem => ?_)
  have judged : c.judges r = .ok (selects c r) :=
    (legible.told r).resolve_right fun broken => clear ⟨c,List.mem_singleton_self _,r,mem,broken⟩
  rwa [Criteria.judges,read] at judged

theorem findClash {c : Criteria} (legible : c.Legible) (several : f.shape ≠ .singleton)
    (items : d.HasItems f.path) (clash : Clash [c] (d.records f.path)) :
    find f c d = (.error .brokenOff,d) := by
  obtain ⟨s,read⟩ := legible.readable
  obtain ⟨_,only,r,mem,broken⟩ := clash
  cases List.mem_singleton.mp only
  rw [Criteria.judges,read] at broken
  rw [find,bindAfter (liftOk.mpr ⟨read,rfl⟩)]
  refine readStops several items (selectEnd (fun x _ c ended => ?_) ⟨r,mem,_,broken⟩)
  have told := legible.told x
  rw [Criteria.judges,read] at told
  rcases told with judged | judged <;> cases judged.symm.trans ended
  rfl

theorem selectedLasting (c : Criteria) (rs : List Record) :
    rs.filter (selects c) = (lasting rs).filter (meets c) := by
  rw [lasting,List.filter_filter]
  rfl

end

end Reconcile
end RouterReconciler

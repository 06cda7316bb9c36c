import RouterReconciler.Difference
import RouterReconciler.Proofs.Record.Fields

/-! Comparing breaks off exactly where an assigned value cannot be compared with the one that is held. Writing
what differs leaves nothing that differs, and every key at which nothing differed holds what it held. -/
namespace RouterReconciler

namespace Value

theorem equalAlike {v w : Value} {same : Bool} (h : v.equal? w = some same) : v.alike w = same := by
  rw [equal?] at h
  split at h <;> cases h
  rfl

theorem equalSome {v w : Value} (h : (v.equal? w).isSome) : v.equal? w = some (v.alike w) := by
  obtain ⟨same,h⟩ := Option.isSome_iff_exists.mp h
  rw [h,equalAlike h]

theorem equalSelf (v : Value) : v.equal? v = some true := by
  have alikeSelf : v.alike v = true := by
    rw [alike]
    cases h : sameSeconds? v v with
    | none => simp
    | some same =>
      simp only [sameSeconds?] at h
      split at h
      · split at h
        · rename_i a b seconds again
          cases h
          rw [seconds] at again
          cases again
          simp
        · cases h
      · cases h
  rw [equal?,alikeSelf]
  cases v <;> rfl

theorem equalComm (v w : Value) : v.equal? w = w.equal? v := by
  have turned : sameSeconds? v w = sameSeconds? w v := by
    simp only [sameSeconds?,Bool.or_comm w.isDuration]
    split
    · cases v.seconds? <;> cases w.seconds? <;> simp only [BEq.comm]
    · rfl
  rw [equal?,equal?,alike,alike,turned,Bool.or_comm v.isDuration,Bool.or_comm v.reading.stops,Bool.or_comm v.isList,
    BEq.comm (a := v.elements),BEq.comm (a := v.canonical)]

def Alike (v w : Value) : Prop := v.equal? w = some true ∧ w.equal? v = some true

theorem Alike.refl (v : Value) : v.Alike v := ⟨v.equalSelf,v.equalSelf⟩

theorem alikeSelf : (held : Option Value) → Option.Rel Alike held held
  | none => .none
  | some v => .some (.refl v)

end Value

namespace Entries
variable {ε α : Type} {p : String → α → Except ε Bool} {q : String → α → Bool}

theorem keepOk (answers : ∀ key a kept, p key a = .ok kept → q key a = kept) {l kept : List (String × α)} :
    keep p l = .ok kept ↔
      (∀ key a, (key,a) ∈ l → p key a = .ok (q key a)) ∧ kept = l.filter fun entry => q entry.1 entry.2 := by
  induction l generalizing kept with
  | nil => simp [keep,eq_comm]
  | cons entry rest ih =>
    obtain ⟨key,a⟩ := entry
    have both : (∀ other b, (other,b) ∈ (key,a) :: rest → p other b = .ok (q other b)) ↔
        p key a = .ok (q key a) ∧ ∀ other b, (other,b) ∈ rest → p other b = .ok (q other b) := by
      simp only [List.mem_cons,Prod.mk.injEq]
      exact ⟨fun all => ⟨all _ _ (.inl ⟨rfl,rfl⟩),fun _ _ mem => all _ _ (.inr mem)⟩,fun all other b => by
        rintro (⟨rfl,rfl⟩ | mem)
        · exact all.1
        · exact all.2 _ _ mem⟩
    rw [keep,both]
    cases judged : p key a with
    | error e => simp
    | ok passes =>
      rw [answers _ _ _ judged,List.filter_cons,answers _ _ _ judged]
      cases found : keep p rest with
      | error e =>
        have unread : ¬∀ other b, (other,b) ∈ rest → p other b = .ok (q other b) := fun all =>
          nomatch found.symm.trans (ih.mpr ⟨all,rfl⟩)
        simp only [reduceCtorEq,unread,and_false,false_and]
      | ok others =>
        obtain ⟨all,rfl⟩ := ih.mp found
        simp only [Except.ok.injEq,true_and,eq_comm]
        exact ⟨fun same => ⟨all,same⟩,And.right⟩

theorem keepWhereOk (answers : ∀ key a kept, p key a = .ok kept → q key a = kept) {e kept : Entries α} :
    e.keepWhere p = .ok kept ↔
      (∀ key a, e.get? key = some a → p key a = .ok (q key a)) ∧ kept = e.filter q := by
  have listed : e.keepWhere p = .ok kept ↔ keep p e.toList = .ok kept.toList := by
    rw [keepWhere]
    obtain ⟨list,distinct⟩ := kept
    split <;> rename_i found <;> simp [found]
  rw [listed,keepOk answers]
  simp only [getMem]
  obtain ⟨list,distinct⟩ := kept
  simp [filter]

theorem keepError {l : List (String × α)} {ending : ε} (h : keep p l = .error ending) :
    ∃ key a, (key,a) ∈ l ∧ p key a = .error ending := by
  induction l with
  | nil => cases h
  | cons entry rest ih =>
    rw [keep] at h
    cases judged : p entry.1 entry.2 with
    | error e =>
      simp only [judged] at h
      cases h
      exact ⟨_,_,List.mem_cons_self,judged⟩
    | ok passes =>
      simp only [judged] at h
      split at h
      · cases h
      · rename_i found
        cases h
        obtain ⟨key,a,mem,broken⟩ := ih found
        exact ⟨key,a,List.mem_cons_of_mem _ mem,broken⟩

theorem keepWhereError {e : Entries α} {ending : ε} (h : e.keepWhere p = .error ending) :
    ∃ key a, e.get? key = some a ∧ p key a = .error ending := by
  rw [keepWhere] at h
  split at h
  · cases h
  · rename_i found
    cases h
    obtain ⟨key,a,mem,broken⟩ := keepError found
    exact ⟨key,a,getMem.mpr mem,broken⟩

end Entries

def Assignment.isDue (a : Assignment) (held : Option Value) : Bool :=
  match a, held with
  | .value v, some other => !v.alike other
  | .value _, none => true
  | .unset, some _ => true
  | .unset, none => false

def due (desired : Assignments) (r : Record) : Assignments :=
  desired.filter fun key a => a.isDue (r.get? key)

namespace Assignment

theorem differsOk {a : Assignment} {held : Option Value} {changes : Bool} :
    a.differs held = .ok changes ↔
      (∀ v w, a = .value v → held = some w → (v.equal? w).isSome) ∧ changes = a.isDue held := by
  rw [eq_comm (a := changes)]
  cases a with
  | unset => cases held <;> simp [differs,isDue]
  | value v =>
    cases held with
    | none => simp [differs,isDue]
    | some w =>
      simp only [differs,isDue,Halt.orBrokenOk,Option.map_eq_some_iff]
      constructor
      · rintro ⟨same,compared,rfl⟩
        refine ⟨fun v w own held => ?_,by rw [Value.equalAlike compared]⟩
        cases own
        cases held
        rw [compared]
        rfl
      · rintro ⟨compared,rfl⟩
        exact ⟨_,Value.equalSome (compared v w rfl rfl),rfl⟩

theorem differsError {a : Assignment} {held : Option Value} {e : Halt Error} (h : a.differs held = .error e) :
    e = .brokenOff ∧ ∃ v w, a = .value v ∧ held = some w ∧ v.equal? w = none := by
  cases a with
  | unset => cases held <;> cases h
  | value v =>
    cases held with
    | none => cases h
    | some w =>
      obtain ⟨broken,rfl⟩ := Halt.orBrokenError.mp h
      exact ⟨rfl,v,w,rfl,rfl,Option.map_eq_none_iff.mp broken⟩

theorem dueResult (a : Assignment) : a.isDue a.result = false := by
  cases a with
  | value v => simp [isDue,result,Value.equalAlike v.equalSelf]
  | unset => rfl

theorem differsNot {a : Assignment} {held : Option Value} :
    a.differs held = .ok false ↔ Option.Rel Value.Alike a.result held := by
  cases a with
  | value v =>
    cases held with
    | none => simp [differs,result]
    | some w => simp [differs,result,Value.Alike,Value.equalComm w,Halt.orBrokenOk]
  | unset => cases held <;> simp [differs,result]

end Assignment

theorem getDue (desired : Assignments) (r : Record) (key : String) :
    (due desired r).get? key = (desired.get? key).filter (fun a => a.isDue (r.get? key)) :=
  desired.getFilter _ key

theorem nothingDue {desired : Assignments} {r : Record}
    (h : ∀ key a, desired.get? key = some a → a.isDue (r.get? key) = false) : due desired r = ∅ := by
  refine Entries.emptyOfGet fun key => ?_
  rw [getDue]
  cases wanted : desired.get? key with
  | none => rfl
  | some a => exact Option.filter_some_neg (by simp [h key a wanted])

namespace Record

def Comparable (desired : Assignments) (r : Record) : Prop :=
  ∀ key v w, desired.get? key = some (.value v) → r.get? key = some w → (v.equal? w).isSome

end Record

theorem differingOk {desired changes : Assignments} {r : Record} :
    differing desired r = .ok changes ↔ r.Comparable desired ∧ changes = due desired r := by
  have answers (key : String) (a : Assignment) (kept : Bool) (h : a.differs (r.get? key) = .ok kept) :
      a.isDue (r.get? key) = kept := (Assignment.differsOk.mp h).2.symm
  rw [differing,Entries.keepWhereOk answers]
  refine and_congr_left fun _ => ⟨fun all key v w wanted held => ?_,fun all key a wanted => ?_⟩
  · exact (Assignment.differsOk.mp (all key _ wanted)).1 v w rfl held
  · exact Assignment.differsOk.mpr ⟨fun v w own held => all key v w (own ▸ wanted) held,rfl⟩

theorem differingError {desired : Assignments} {r : Record} {e : Halt Error}
    (h : differing desired r = .error e) : e = .brokenOff ∧
      ∃ key v w, desired.get? key = some (.value v) ∧ r.get? key = some w ∧ v.equal? w = none := by
  obtain ⟨key,a,wanted,broken⟩ := Entries.keepWhereError h
  obtain ⟨rfl,v,w,rfl,held,none⟩ := Assignment.differsError broken
  exact ⟨rfl,key,v,w,wanted,held,none⟩

theorem differingBreaks {desired : Assignments} {r : Record} (apart : ¬r.Comparable desired) :
    differing desired r = .error .brokenOff := by
  cases compared : differing desired r with
  | ok changes => exact absurd (differingOk.mp compared).1 apart
  | error e => rw [(differingError compared).1]

namespace Record

def settle (r : Record) (desired : Assignments) : Record := r.apply (due desired r)

theorem applyEmpty {values : Assignments} (h : values.isEmpty = true) (r : Record) : r.apply values = r := by
  rw [apply,List.isEmpty_iff.mp h]
  rfl

theorem getSettle (r : Record) (desired : Assignments) (key : String) :
    (r.settle desired).get? key = match desired.get? key with
      | some a => if a.isDue (r.get? key) then a.result else r.get? key
      | none => r.get? key := by
  rw [settle,getApply,getDue]
  cases desired.get? key with
  | none => rfl
  | some a => cases due : a.isDue (r.get? key) <;> simp [Option.filter,due]

theorem settleKeeps {r : Record} {desired : Assignments} {key : String}
    (h : ∀ a, desired.get? key = some a → a.isDue (r.get? key) = false) :
    (r.settle desired).get? key = r.get? key := by
  rw [getSettle]
  cases wanted : desired.get? key with
  | none => rfl
  | some a => simp [h a wanted]

theorem settleComparable {desired : Assignments} {r : Record} (h : r.Comparable desired) :
    (r.settle desired).Comparable desired := by
  intro key v w wanted held
  rw [getSettle,wanted] at held
  dsimp only at held
  split at held
  · cases held
    rw [v.equalSelf]
    rfl
  · exact h key v w wanted held

theorem settledDue (r : Record) (desired : Assignments) : due desired (r.settle desired) = ∅ := by
  refine nothingDue fun key a wanted => ?_
  rw [getSettle,wanted]
  dsimp only
  split
  · exact a.dueResult
  · exact Bool.eq_false_iff.mpr (by assumption)

theorem settled {r : Record} {desired : Assignments} (h : r.Comparable desired) :
    differing desired (r.settle desired) = .ok ∅ :=
  differingOk.mpr ⟨settleComparable h,(r.settledDue desired).symm⟩

end Record

-- Nothing that differs can be left out: what is not written keeps its value, and differs still.
theorem differingLeast {desired fewer changes : Assignments} {r : Record}
    (differs : differing desired r = .ok changes) (part : fewer.toList ⊆ desired.toList)
    (settles : differing desired (r.apply fewer) = .ok ∅) : changes.toList ⊆ fewer.toList := by
  obtain ⟨-,rfl⟩ := differingOk.mp differs
  obtain ⟨-,settles⟩ := differingOk.mp settles
  rintro ⟨key,a⟩ mem
  have differs := Entries.getMem.mpr mem
  rw [getDue,Option.filter_eq_some_iff] at differs
  obtain ⟨wanted,differs⟩ := differs
  cases written : fewer.get? key with
  | some b =>
    have mem := Entries.getMem.mp written
    cases wanted.symm.trans (Entries.getMem.mpr (part mem))
    exact mem
  | none =>
    have still : (due desired (r.apply fewer)).get? key = some a := by
      rw [getDue,Record.getApply,written,wanted]
      exact Option.filter_some_pos differs
    rw [← settles] at still
    cases still

namespace Record

theorem settleAlike {r : Record} {desired : Assignments} (comparable : r.Comparable desired) (key : String) :
    Option.Rel Value.Alike ((r.apply desired).get? key) ((r.settle desired).get? key) := by
  rw [getApply,getSettle]
  cases wanted : desired.get? key with
  | none => exact Value.alikeSelf _
  | some a =>
    dsimp only
    split
    · exact Value.alikeSelf _
    · rename_i stays
      refine Assignment.differsNot.mp (Assignment.differsOk.mpr ⟨fun v w own held => ?_,?_⟩)
      · exact comparable key v w (own ▸ wanted) held
      · exact (Bool.eq_false_iff.mpr stays).symm

end Record

theorem settledHeld {desired : Assignments} {r : Record}
    (held : ∀ key a, desired.get? key = some a → r.get? key = a.result) : differing desired r = .ok ∅ := by
  refine differingOk.mpr ⟨fun key v w wanted there => ?_,(nothingDue fun key a wanted => ?_).symm⟩
  · cases (held key _ wanted).symm.trans there
    rw [v.equalSelf]
    rfl
  · rw [held key a wanted,a.dueResult]

theorem Criteria.newSettled {line : Criteria} {values desired : Assignments} {r : Record}
    (added : line.addValues = .ok values) (set : line.setValues = .ok desired)
    (new : ∀ key, r.get? key = (values.get? key).bind Assignment.result) :
    differing desired r = .ok ∅ := by
  refine settledHeld fun key a wanted => ?_
  rw [setValuesGet set,assigned?] at wanted
  split at wanted
  · cases wanted
  · rw [new,addValuesGet added,literal?]
    cases clause : line.get? key with
    | none => rw [clause] at wanted; cases wanted
    | some c =>
      rw [clause] at wanted
      cases c <;> cases wanted <;> rfl

end RouterReconciler

import Mathlib.Algebra.BigOperators.Group.List.Basic
import Mathlib.Data.List.Forall2
import RouterReconciler.Proofs.Record.Fields
import RouterReconciler.Proofs.TaskFile.Sources
import RouterReconciler.Proofs.Value.Documents

/-! Criteria that are iterated over lists of values against the same criteria written out, one table for
each combination of the values. What is read is told beside what it is read from, entry by entry, and then
key by key, where the order in which a table is written does not show. -/
namespace RouterReconciler

section
variable {α β : Type} {P Q : α → β → Prop} {x x' : Option α} {y y' : Option β}

theorem relImp (h : Option.Rel P x y) (weaker : ∀ a b, P a b → Q a b) : Option.Rel Q x y := by
  cases h with
  | none => exact .none
  | some fit => exact .some (weaker _ _ fit)

theorem relOr (first : Option.Rel P x y) (second : Option.Rel P x' y') :
    Option.Rel P (x.or x') (y.or y') := by
  cases first with
  | none => exact second
  | some fit => exact .some fit

theorem relUnique (unique : ∀ a b c, P a b → P a c → b = c) (one : Option.Rel P x y)
    (other : Option.Rel P x y') : y = y' := by
  cases one with
  | none => cases other; rfl
  | some fit =>
    cases other with
    | some same => rw [unique _ _ _ fit same]

end

namespace Entries
variable {α β : Type}

def overridden (e : Entries α) (others : List (String × α)) : Entries α :=
  others.foldl (fun e entry => e.insert entry.1 entry.2) e

theorem overriddenGet (e : Entries α) {others : List (String × α)}
    (distinct : (others.map Prod.fst).Nodup) (key : String) :
    (e.overridden others).get? key = (lookup key others).or (e.get? key) :=
  getExtend e ⟨others,distinct⟩ key

def Keyed (P : String → α → β → Prop) (a : String × α) (b : String × β) : Prop := b.1 = a.1 ∧ P a.1 a.2 b.2

section
variable {P : String → α → β → Prop} {l : List (String × α)} {m : List (String × β)} {key : String}

theorem keyedKeys (h : List.Forall₂ (Keyed P) l m) : m.map Prod.fst = l.map Prod.fst := by
  induction h with
  | nil => rfl
  | cons head _ ih => rw [List.map_cons,List.map_cons,head.1,ih]

theorem keyedLookup (h : List.Forall₂ (Keyed P) l m) (key : String) :
    Option.Rel (P key) (lookup key l) (lookup key m) := by
  induction h with
  | nil => exact .none
  | @cons a b _ _ head _ ih =>
    obtain ⟨same,fit⟩ := head
    rw [lookup,lookup,same]
    split
    · rename_i here
      exact .some (here ▸ fit)
    · exact ih

end
end Entries
open Entries

section
variable {α β : Type}

def combinations : List (String × List α) → List (List (String × α))
  | [] => [[]]
  | (key,values) :: rest => values.flatMap fun v => (combinations rest).map ((key,v) :: ·)

theorem combinationsMem {axes : List (String × List α)} {choice : List (String × α)} :
    choice ∈ combinations axes ↔ List.Forall₂ (Keyed fun _ values v => v ∈ values) axes choice := by
  induction axes generalizing choice with
  | nil => simp [combinations]
  | cons axis rest ih =>
    obtain ⟨key,values⟩ := axis
    simp only [combinations,List.mem_flatMap,List.mem_map,ih,List.forall₂_cons_left_iff]
    constructor
    · rintro ⟨v,mem,others,fit,rfl⟩
      exact ⟨(key,v),others,⟨rfl,mem⟩,fit,rfl⟩
    · rintro ⟨⟨k,v⟩,others,⟨rfl,mem⟩,fit,rfl⟩
      exact ⟨v,mem,others,fit,rfl⟩

theorem combinationsKeys {axes : List (String × List α)} {choice : List (String × α)}
    (h : choice ∈ combinations axes) : choice.map Prod.fst = axes.map Prod.fst :=
  keyedKeys (combinationsMem.mp h)

theorem combinationsLength (axes : List (String × List α)) :
    (combinations axes).length = (axes.map fun axis => axis.2.length).prod := by
  induction axes with
  | nil => rfl
  | cons axis rest ih => simp [combinations,List.length_flatMap,ih]

theorem combinationsKeyed {P : String → α → β → Prop} {l : List (String × List α)} {m : List (String × List β)}
    (h : List.Forall₂ (Keyed fun key => List.Forall₂ (P key)) l m) :
    List.Forall₂ (List.Forall₂ (Keyed P)) (combinations l) (combinations m) := by
  induction h with
  | nil => exact .cons .nil .nil
  | @cons a b _ _ head _ ih =>
    obtain ⟨key,values⟩ := a
    obtain ⟨_,chosen⟩ := b
    obtain ⟨rfl,fit⟩ := head
    refine List.rel_flatMap fit fun v w same => ?_
    exact List.rel_map (fun _ _ others => .cons ⟨rfl,same⟩ others) ih

end

namespace Criteria

def clausesOf (choice : List (String × Value)) : List (String × Condition) :=
  choice.map fun entry => (entry.1,.ofValue (some entry.2))

-- The axes are gone through with all combinations so far, so these are generalised.
theorem iterateFrom (axes : List (String × List Value)) (combos : List Criteria) :
    axes.foldl (fun combos axis => combos.flatMap (alongAxis axis.1 axis.2)) combos =
      combos.flatMap fun base => (combinations axes).map fun choice => base.overridden (clausesOf choice) := by
  induction axes generalizing combos with
  | nil => simp [combinations,clausesOf,overridden]
  | cons axis rest ih =>
    rw [List.foldl_cons,ih,List.flatMap_assoc]
    refine List.flatMap_congr fun base _ => ?_
    simp [combinations,alongAxis,List.flatMap_map,List.map_flatMap,List.map_map,Function.comp_def,clausesOf,
      overridden]

theorem iterateCombinations (base : Criteria) (axes : List (String × List Value)) :
    base.iterate axes = (combinations axes).map fun choice => base.overridden (clausesOf choice) := by
  rw [iterate,iterateFrom,List.flatMap_singleton]

end Criteria

namespace TaskFile
open Criteria

section
variable {α β : Type} {read : String → α → Except Fault β} {l : List (String × α)} {m : List (String × β)}

theorem readEachOk : readEach read l = .ok m ↔
    List.Forall₂ (Keyed fun key a b => read key a = .ok b) l m := by
  induction l generalizing m with
  | nil => cases m <;> simp [readEach]
  | cons entry rest ih =>
    obtain ⟨key,a⟩ := entry
    simp only [readEach,exceptBindOk,Except.ok.injEq,List.forall₂_cons_left_iff,← ih]
    constructor
    · rintro ⟨b,one,others,each,rfl⟩
      exact ⟨(key,b),others,⟨rfl,one⟩,each,rfl⟩
    · rintro ⟨⟨_,b⟩,others,⟨rfl,one⟩,each,rfl⟩
      exact ⟨b,one,others,each,rfl⟩

theorem readEachReadable (each : ∀ key a, (key,a) ∈ l → ∃ b, read key a = .ok b) :
    ∃ m, readEach read l = .ok m := by
  induction l with
  | nil => exact ⟨[],rfl⟩
  | cons entry rest ih =>
    obtain ⟨b,one⟩ := each _ _ List.mem_cons_self
    obtain ⟨others,later⟩ := ih fun key a mem => each key a (List.mem_cons_of_mem _ mem)
    exact ⟨_,exceptBindOk.mpr ⟨b,one,exceptBindOk.mpr ⟨others,later,rfl⟩⟩⟩

end

theorem axisValuesOk {key : String} {items : List Json} {values : List Value} :
    axisValues key items = .ok values ↔ List.Forall₂ (fun j v => valueOf key j = .ok (some v)) items values := by
  induction items generalizing values with
  | nil => cases values <;> simp [axisValues]
  | cons j rest ih =>
    rw [List.forall₂_cons_left_iff]
    simp only [axisValues,← ih]
    cases read : valueOf key j with
    | error fault => simp
    | ok value =>
      cases value with
      | none => simp
      | some v =>
        rw [exceptMapOk]
        simp [eq_comm]

def Ranged (key : String) (j : Json) (c : Condition) : Prop :=
  ∃ v, valueOf key j = .ok (some v) ∧ c = .ofValue (some v)

theorem criteriaOfOk {table : Entries Json} {c : Criteria} : criteriaOf table = .ok c ↔
    List.Forall₂ (Keyed fun key j c => conditionOf key j = .ok c) table.toList c.toList := by
  simp only [criteriaOf,exceptMapOk,readEachOk]
  constructor
  · rintro ⟨clauses,each,rfl⟩
    rwa [ofListDistinct (by rw [keyedKeys each]; exact table.distinct)]
  · exact fun each => ⟨c.toList,each,ofListAgain c⟩

-- A table and null are no values of an axis, so what is left is read alike under every key but one.
theorem rangedWritten {key : String} {j : Json} {c : Condition} (ranged : Ranged key j c)
    (plain : key ≠ rawKey) : conditionOf key j = .ok c := by
  obtain ⟨v,read,rfl⟩ := ranged
  cases j with
  | table => cases read
  | _ => simp only [conditionOf,if_neg plain,read,Except.map]

theorem ofTextNotRaw (s expression : String) : Condition.ofText s ≠ .raw expression := by
  unfold Condition.ofText
  repeat' split
  all_goals simp

theorem rangedNotWritten {j : Json} {c : Condition} (ranged : Ranged rawKey j c) :
    conditionOf rawKey j ≠ .ok c := by
  obtain ⟨v,read,rfl⟩ := ranged
  cases j with
  | str s =>
    cases read
    simp only [conditionOf,if_true,Condition.ofValue]
    exact fun same => ofTextNotRaw s s (Except.ok.inj same).symm
  | _ => simp [conditionOf]

structure WrittenOut (named : List String) (table : Entries Json) (spec : Criteria) : Prop where
  once : spec.keys.Nodup
  read : (∃ written, criteriaOf table = .ok written ∧ ∀ key, spec.get? key = written.get? key) ↔
    rawKey ∉ named
  others : ∀ key ≠ rawKey, Option.Rel (fun j c => conditionOf key j = .ok c) (table.get? key) (spec.get? key)
  raw : rawKey ∈ named → ∃ j v, table.get? rawKey = some j ∧ valueOf rawKey j = .ok (some v) ∧
    spec.get? rawKey = some (.ofValue (some v)) ∧ conditionOf rawKey j ≠ .ok (.ofValue (some v))

theorem criteriaJudged {table : Entries Json} {c : Criteria} (read : criteriaOf table = .ok c) (key : String) :
    Option.Rel (fun j c => conditionOf key j = .ok c) (table.get? key) (c.get? key) :=
  keyedLookup (criteriaOfOk.mp read) key

theorem criteriaReadable {table : Entries Json} {c : Criteria}
    (each : ∀ key, Option.Rel (fun j c => conditionOf key j = .ok c) (table.get? key) (c.get? key)) :
    ∃ written, criteriaOf table = .ok written ∧ ∀ key, c.get? key = written.get? key := by
  obtain ⟨clauses,read⟩ : ∃ clauses, readEach conditionOf table.toList = .ok clauses := by
    refine readEachReadable fun key j mem => ?_
    have fit := each key
    rw [getMem.mpr mem] at fit
    generalize c.get? key = found at fit
    cases fit with
    | some fit => exact ⟨_,fit⟩
  have read : criteriaOf table = .ok (.ofList clauses) := by rw [criteriaOf,read]; rfl
  refine ⟨_,read,fun key => relUnique (fun j c c' one other => ?_) (each key) (criteriaJudged read key)⟩
  exact Except.ok.inj (one.symm.trans other)

section
variable {table overriding : Entries Json} {base : Criteria} {choice : List (String × Json)}
  {clauses : List (String × Condition)} (readTable : criteriaOf table = .ok base)
  (distinct : (choice.map Prod.fst).Nodup) (chosen : List.Forall₂ (Keyed Ranged) choice clauses)
  (same : ∀ key, overriding.get? key = (table.overridden choice).get? key)
include distinct chosen same

-- The value of the choice decides, whatever the table has under the key.
theorem rawChosen (named : rawKey ∈ choice.map Prod.fst) :
    ∃ j v, overriding.get? rawKey = some j ∧ valueOf rawKey j = .ok (some v) ∧
      (base.overridden clauses).get? rawKey = some (.ofValue (some v)) ∧
      conditionOf rawKey j ≠ .ok (.ofValue (some v)) := by
  obtain ⟨⟨_,j⟩,mem,rfl⟩ := List.mem_map.mp named
  have there := lookupPresent distinct mem
  have both := keyedLookup chosen rawKey
  rw [there] at both
  generalize clause : lookup rawKey clauses = found at both
  cases both with
  | some ranged =>
    obtain ⟨v,read,rfl⟩ := id ranged
    refine ⟨j,v,?_,read,?_,rangedNotWritten ranged⟩
    · rw [same,overriddenGet _ distinct,there,Option.some_or]
    · rw [overriddenGet _ (by rwa [keyedKeys chosen]),clause,Option.some_or]

include readTable

theorem judgedAlike {key : String} (plain : key = rawKey → key ∉ choice.map Prod.fst) :
    Option.Rel (fun j c => conditionOf key j = .ok c) (overriding.get? key)
      ((base.overridden clauses).get? key) := by
  rw [same,overriddenGet _ distinct,overriddenGet _ (by rwa [keyedKeys chosen])]
  refine relOr ?_ (criteriaJudged readTable key)
  by_cases raw : key = rawKey
  · rw [lookupAbsent (plain raw),lookupAbsent (by rw [keyedKeys chosen]; exact plain raw)]
    exact .none
  · exact relImp (keyedLookup chosen key) fun _ _ ranged => rangedWritten ranged raw

theorem writtenOut : WrittenOut (choice.map Prod.fst) overriding (base.overridden clauses) := by
  have judged {key : String} (plain : key = rawKey → key ∉ choice.map Prod.fst) :=
    judgedAlike readTable distinct chosen same plain
  refine ⟨(base.overridden clauses).distinct,⟨?_,fun unnamed => ?_⟩,
    fun key plain => judged fun raw => absurd raw plain,rawChosen distinct chosen same⟩
  · rintro ⟨written,read,agree⟩ named
    obtain ⟨j,v,there,-,clause,other⟩ : ∃ j v, overriding.get? rawKey = some j ∧ valueOf rawKey j = .ok (some v) ∧
        (base.overridden clauses).get? rawKey = some (.ofValue (some v)) ∧
        conditionOf rawKey j ≠ .ok (.ofValue (some v)) := rawChosen distinct chosen same named
    have fit := criteriaJudged read rawKey
    rw [there,← agree,clause] at fit
    cases fit with
    | some fit => exact other fit
  · exact criteriaReadable fun key => judged fun raw => raw ▸ unnamed

end

theorem axesOfOk {axes : Entries (List Json)} {ranges : List (String × List Value)}
    (h : axesOf axes = .ok ranges) :
    List.Forall₂ (Keyed fun key => List.Forall₂ fun j v => valueOf key j = .ok (some v)) axes.toList ranges :=
  (readEachOk.mp h).imp fun _ _ read => ⟨read.1,axisValuesOk.mp read.2⟩

end TaskFile
open TaskFile

/-- Criteria that are iterated over lists of values come to one for each choice of a value for each key, in
nested loops with the first key outermost. Each has a key once and the conditions that are read from the table
with the choice written over it, in whatever order, exactly if the raw filter is not iterated over: its texts
are read there like those of any other key and never as an expression. -/
theorem iteratedWrittenOut {table : Entries Json} {axes : Entries (List Json)} {base : Criteria}
    {ranges : List (String × List Value)} (readTable : criteriaOf table = .ok base)
    (readAxes : axesOf axes = .ok ranges) :
    (base.iterate ranges).length = (axes.toList.map fun axis => axis.2.length).prod ∧
    List.Forall₂ (fun choice spec => ∀ overriding : Entries Json,
      (∀ key, overriding.get? key = (table.overridden choice).get? key) →
        WrittenOut axes.keys overriding spec)
      (combinations axes.toList) (base.iterate ranges) := by
  have chosen := combinationsKeyed (axesOfOk readAxes)
  have lengths := chosen.length_eq
  rw [Criteria.iterateCombinations,List.length_map,← lengths,combinationsLength,List.forall₂_map_right_iff]
  refine ⟨rfl,((List.forall₂_and_left _ _).mpr ⟨fun _ => combinationsKeys,chosen⟩).imp ?_⟩
  rintro choice values ⟨keys,chosen⟩ overriding same
  have ranged : List.Forall₂ (Keyed Ranged) choice (Criteria.clausesOf values) := by
    rw [Criteria.clausesOf,List.forall₂_map_right_iff]
    exact chosen.imp fun _ _ value => ⟨value.1,_,value.2,rfl⟩
  have out := writtenOut readTable (keys ▸ axes.distinct) ranged same
  rwa [keys] at out

def acceptTable : Entries Json := Entries.ofList [("chain",.str "input"),("action",.str "accept")]

def rejectAxes : Entries (List Json) :=
  Entries.ofList [("protocol",[.str "tcp",.str "udp"]),("action",[.str "drop",.str "! reject"])]

theorem iteratedWrittenOutReject : ∃ base ranges, criteriaOf acceptTable = .ok base ∧
    axesOf rejectAxes = .ok ranges ∧ (base.iterate ranges).length = 4 ∧
    ∃ spec written, (base.iterate ranges)[1]? = some spec ∧
      criteriaOf (acceptTable.overridden [("protocol",.str "tcp"),("action",.str "! reject")]) = .ok written ∧
      ∀ key, spec.get? key = written.get? key := by
  have readTable : criteriaOf acceptTable = .ok _ := rfl
  have readAxes : axesOf rejectAxes = .ok _ := rfl
  obtain ⟨size,pairs⟩ := iteratedWrittenOut readTable readAxes
  have second := pairs.get (i := 1) (by decide) (by decide +kernel) _ fun _ => rfl
  obtain ⟨written,read,agree⟩ := second.read.mpr (by decide)
  exact ⟨_,_,readTable,readAxes,size,_,written,List.getElem?_eq_getElem _,read,agree⟩

-- An expression that is iterated over becomes a literal, where the table has it as an expression.
theorem iteratedExpression : ∃ base ranges choice written spec,
    criteriaOf (Entries.ofList [("list",.str "WAN")]) = .ok base ∧
    axesOf (Entries.ofList [(rawKey,[.str "disabled=yes"])]) = .ok ranges ∧
    combinations (Entries.ofList [(rawKey,[Json.str "disabled=yes"])]).toList = [choice] ∧
    criteriaOf ((Entries.ofList [("list",.str "WAN")]).overridden choice) = .ok written ∧
    base.iterate ranges = [spec] ∧
    written.get? rawKey = some (.raw "disabled=yes") ∧
    spec.get? rawKey = some (.literal (.str "disabled=yes")) :=
  ⟨_,_,_,_,_,rfl,rfl,rfl,rfl,rfl,rfl,rfl⟩

end RouterReconciler

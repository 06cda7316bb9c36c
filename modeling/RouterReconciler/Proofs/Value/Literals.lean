import RouterReconciler.Criteria
import RouterReconciler.Device.Replica
import RouterReconciler.Proofs.Record.Fields

/-! Text that is no condition. The test before a write and the reader of task files agree on every text:
what the one lets through the other takes for the text itself. -/
namespace RouterReconciler

namespace Text

theorem afterPrefixNone (start cs : List Char) :
    afterPrefix? start cs = none ↔ start.isPrefixOf cs = false := by
  induction start generalizing cs with
  | nil => simp [afterPrefix?]
  | cons a start ih =>
    cases cs with
    | nil => simp [afterPrefix?]
    | cons c cs => by_cases same : a = c <;> simp [afterPrefix?,List.isPrefixOf,same,ih]

theorem dropPrefixNone (s start : String) : dropPrefix? s start = none ↔ startsWith s start = false := by
  rw [dropPrefix?,Option.map_eq_none_iff,afterPrefixNone]
  rfl

end Text

namespace Condition

theorem literalText (s : String) :
    ofText s = .literal (.str s) ↔ Value.isConditionShaped s = false := by
  have avoids := Text.dropPrefixNone s "!~ "
  have differs := Text.dropPrefixNone s "! "
  have matching := Text.dropPrefixNone s "~ "
  unfold ofText Value.isConditionShaped
  split
  · rename_i unset
    simp [unset]
  · rename_i text
    split
    · rename_i found
      simp [← avoids,found]
    · rename_i none
      rw [avoids.mp none]
      split
      · rename_i found
        simp [← differs,found]
      · rename_i none
        rw [differs.mp none]
        split
        · rename_i found
          simp [← matching,found]
        · rename_i none
          simp [matching.mp none,text]

end Condition

namespace Value

mutual
def strings : Value → List String
  | .str s => [s]
  | .list items => stringsIn items
  | _ => []

def stringsIn : List Value → List String
  | [] => []
  | v :: rest => strings v ++ stringsIn rest
end

def Literal (v : Value) : Prop := ∀ s ∈ v.strings, Condition.ofText s = .literal (.str s)

mutual
theorem writableLiteral : (v : Value) → (v.checkWritable = .ok () ↔ v.Literal)
  | .bool _ | .int _ | .duration _ => by simp [checkWritable,Literal,strings]
  | .str s => by
    cases shaped : isConditionShaped s <;>
      simp [checkWritable,Literal,strings,Condition.literalText,shaped]
  | .list items => by
    simpa [checkWritable,Literal,strings] using allWritableLiteral items

theorem allWritableLiteral : (items : List Value) → (checkAllWritable items = .ok () ↔
    ∀ s ∈ stringsIn items, Condition.ofText s = .literal (.str s))
  | [] => by simp [checkAllWritable,stringsIn]
  | v :: rest => by
    have first := writableLiteral v
    have others := allWritableLiteral rest
    simp only [Literal] at first
    cases checked : v.checkWritable with
    | error e =>
      rw [checked] at first
      simp only [checkAllWritable,checked,stringsIn,List.forall_mem_append,← first]
      simp
    | ok done =>
      simp only [checkAllWritable,checked,stringsIn,List.forall_mem_append,← first,others]
      simp
end

end Value

section
variable {P : Value → Prop} {key : String} {l : List (String × Assignment)}

theorem assignedUnset : (∀ k v, (k,.value v) ∈ (key,Assignment.unset) :: l → P v) ↔
    ∀ k v, (k,.value v) ∈ l → P v := by simp

theorem assignedValue {w : Value} : (∀ k v, (k,.value v) ∈ (key,Assignment.value w) :: l → P v) ↔
    P w ∧ ∀ k v, (k,.value v) ∈ l → P v := by
  constructor
  · exact fun each => ⟨each key w List.mem_cons_self,fun k v mem => each k v (List.mem_cons_of_mem _ mem)⟩
  · rintro ⟨first,others⟩ k v mem
    rcases List.mem_cons.mp mem with same | mem
    · cases same
      exact first
    · exact others k v mem

end

theorem writableEach {values : Assignments} : values.checkWritable = .ok () ↔
    values.Each fun v => v.checkWritable = .ok () := by
  unfold Assignments.checkWritable Assignments.Each
  induction values.toList with
  | nil => simp [Assignments.checkWritable.go]
  | cons entry rest ih =>
    obtain ⟨key,a⟩ := entry
    cases a with
    | unset => rw [Assignments.checkWritable.go,assignedUnset,ih]
    | value v =>
      rw [assignedValue,← ih,Assignments.checkWritable.go]
      cases v.checkWritable <;> simp

theorem encodableEach {values : Assignments} : Replica.checkEncodable values.toList = .ok () ↔
    values.Each fun v => ∃ text, v.encodeForWrite = .ok text := by
  unfold Assignments.Each
  induction values.toList with
  | nil => simp [Replica.checkEncodable]
  | cons entry rest ih =>
    obtain ⟨key,a⟩ := entry
    cases a with
    | unset => rw [Replica.checkEncodable,assignedUnset,ih]
    | value v =>
      rw [assignedValue,← ih,Replica.checkEncodable]
      cases v.encodeForWrite <;> simp

theorem encodedForWrite {v : Value} {text : String} :
    v.encodeForWrite = .ok text ↔ v.checkWritable = .ok () ∧ v.encode = .ok text := by
  unfold Value.encodeForWrite
  cases v.checkWritable <;> simp

theorem Assignments.writableLiteral {values : Assignments} (h : values.checkWritable = .ok ()) :
    values.Each Value.Literal :=
  fun key v mem => (Value.writableLiteral v).mp (writableEach.mp h key v mem)

theorem Replica.encodableWritable {values : Assignments} (h : checkEncodable values.toList = .ok ()) :
    values.checkWritable = .ok () := by
  refine writableEach.mpr fun key v mem => ?_
  obtain ⟨text,encoded⟩ := encodableEach.mp h key v mem
  exact (encodedForWrite.mp encoded).1

end RouterReconciler

import RouterReconciler.Proofs.Device.Loading
import RouterReconciler.Proofs.Record.Difference
import RouterReconciler.Proofs.Value.Durations
import RouterReconciler.Value.Document

/-! Values and records as documents. What is read back is what was written, with the text of a duration in
the duration's place, unless a parameter goes by the name under which a record's id stands. -/
namespace RouterReconciler
open Text

namespace Value

mutual
def InRange : Value → Prop
  | .int n => isInt64 n = true
  | .duration n => n ≤ maxWord64
  | .list items => AllInRange items
  | _ => True

def AllInRange : List Value → Prop
  | [] => True
  | v :: rest => InRange v ∧ AllInRange rest
end

mutual
def shown : Value → Value
  | .duration n => .str (Duration.render n)
  | .list items => .list (allShown items)
  | v => v

def allShown : List Value → List Value
  | [] => []
  | v :: rest => shown v :: allShown rest
end

mutual
theorem readShown : {v : Value} → v.InRange → ofJson? v.toJson = some v.shown
  | .bool b, _ => rfl
  | .int n, range => by simp [toJson,Json.int,ofJson?,show isInt64 n = true from range,shown]
  | .str s, _ => rfl
  | .list items, range => by simp [toJson,ofJson?,allReadShown range,shown]
  | .duration n, _ => rfl

theorem allReadShown : {items : List Value} → AllInRange items →
    listOfJson? (listToJson items) = some (allShown items)
  | [], _ => rfl
  | v :: rest, range => by
    simp [listToJson,listOfJson?,readShown range.1,allReadShown range.2,allShown]
end

mutual
theorem readInRange : {j : Json} → {v : Value} → ofJson? j = some v → v.InRange
  | .bool b, _, read => by cases read; trivial
  | .number (.whole n), _, read => by
    unfold ofJson? at read
    split at read
    · rename_i range
      cases read
      exact range
    · cases read
  | .str s, _, read => by cases read; trivial
  | .list items, _, read => by
    obtain ⟨values,found,rfl⟩ := Option.map_eq_some_iff.mp read
    exact allReadInRange found

theorem allReadInRange : {items : List Json} → {values : List Value} →
    listOfJson? items = some values → AllInRange values
  | [], _, read => by cases read; trivial
  | j :: rest, _, read => by
    simp only [listOfJson?,Option.bind_eq_bind,Option.bind_eq_some_iff] at read
    obtain ⟨v,first,others,later,same⟩ := read
    cases same
    exact ⟨readInRange first,allReadInRange later⟩
end

mutual
theorem canonicalShown : (v : Value) → v.shown.canonical = v.canonical
  | .bool _ | .int _ | .str _ => rfl
  | .list items => by simp only [shown,canonical,canonicalsShown items]
  | .duration n => by simp only [shown,canonical,durationNoWord]

theorem canonicalsShown : (items : List Value) → canonicals (allShown items) = canonicals items
  | [] => rfl
  | v :: rest => by simp only [allShown,canonicals,canonicalShown v,canonicalsShown rest]
end

theorem equalShown {v : Value} (range : v.InRange) :
    v.equal? v.shown = some true ∧ v.shown.equal? v = some true := by
  cases v with
  | bool b => exact ⟨equalSelf _,equalSelf _⟩
  | int n => exact ⟨equalSelf _,equalSelf _⟩
  | str s => exact ⟨equalSelf _,equalSelf _⟩
  | list items =>
    have same := canonicalsShown items
    simp only [canonicalsMap] at same
    exact ⟨(equalLists _ _).mpr same.symm,(equalLists _ _).mpr same⟩
  | duration n =>
    have read : Duration.read (Duration.render n) = .seconds n := Duration.readRendered range
    constructor <;> simp [shown,equal?,alike,sameSeconds?,isDuration,reading,seconds?,Duration.seconds?,read,
      Duration.Reading.stops]

end Value

namespace Entries
variable {α β γ : Type}

theorem putNew {key : String} {a : α} {l : List (String × α)} (absent : key ∉ l.map Prod.fst) :
    put key a l = l ++ [(key,a)] := by
  induction l with
  | nil => rfl
  | cons first rest ih =>
    obtain ⟨other,later⟩ := not_or.mp (mt List.mem_cons.mpr absent)
    simp [put,Ne.symm other,ih later]

theorem ofListDistinct {l : List (String × α)} (distinct : (l.map Prod.fst).Nodup) :
    (ofList l).toList = l := by
  have later : ∀ done : Entries α, ((done.toList ++ l).map Prod.fst).Nodup →
      (l.foldl (fun e x => e.insert x.1 x.2) done).toList = done.toList ++ l := by
    clear distinct
    induction l with
    | nil => simp
    | cons first rest ih =>
      intro done distinct
      have absent : first.1 ∉ done.toList.map Prod.fst := by
        rw [List.map_append,List.nodup_append] at distinct
        exact fun mem => distinct.2.2 _ mem _ List.mem_cons_self rfl
      have put : (done.insert first.1 first.2).toList = done.toList ++ [first] := putNew absent
      rw [List.foldl_cons,ih _ (by simpa [put] using distinct),put,List.append_assoc]
      rfl
  exact later empty distinct

theorem ofListAgain (e : Entries α) : ofList e.toList = e := by
  have same := ofListDistinct e.distinct
  cases h : ofList e.toList
  rw [h] at same
  cases e
  cases same
  rfl

theorem gathered {read : Entries β → List (String × γ) → Option (Entries β)} (write : α → γ)
    {value : α → β} {l : List (String × α)} (none : ∀ done, read done [] = some done)
    (next : ∀ entry ∈ l, ∀ done rest, read done ((entry.1,write entry.2) :: rest) =
      read (done.insert entry.1 (value entry.2)) rest) :
    read ∅ (l.map fun entry => (entry.1,write entry.2)) =
      some (ofList (l.map fun entry => (entry.1,value entry.2))) := by
  unfold ofList
  show read empty _ = _
  generalize (empty : Entries β) = done
  induction l generalizing done with
  | nil => exact none done
  | cons entry rest ih =>
    rw [List.map_cons,next entry List.mem_cons_self,
      ih fun entry mem => next entry (List.mem_cons_of_mem _ mem)]
    rfl

theorem sameGet {e e' : Entries α} (same : ∀ entry, entry ∈ e.toList ↔ entry ∈ e'.toList) (key : String) :
    e.get? key = e'.get? key :=
  Option.ext fun a => getMem.trans ((same (key,a)).trans getMem.symm)

theorem getMap (e : Entries α) (f : String → α → β) (key : String) :
    (e.map f).get? key = (e.get? key).map (f key) := by
  show lookup key (e.toList.map fun entry => (entry.1,f entry.1 entry.2)) =
    (lookup key e.toList).map (f key)
  generalize e.toList = l
  induction l with
  | nil => rfl
  | cons entry rest ih =>
    by_cases here : entry.1 = key
    · simp [lookup,here]
    · simpa [lookup,here] using ih

end Entries

namespace Record

def shown (r : Record) : Record := ⟨r.id,r.fields.map fun _ v => v.shown⟩

theorem getShown (r : Record) (key : String) : r.shown.get? key = (r.get? key).map Value.shown :=
  r.fields.getMap _ key

theorem readBack {r : Record} (range : r.Each Value.InRange) (apart : idKey ∉ r.fields.keys) :
    ofJson? r.toJson = some r.shown := by
  have others : ∀ entry ∈ r.fields.toList, entry.1 ≠ idKey :=
    fun entry mem same => apart (same ▸ List.mem_map_of_mem mem)
  have fields : fieldsFrom? ∅ (r.fields.toList.map fun entry => (entry.1,entry.2.toJson)) =
      some r.shown.fields := by
    have next : ∀ entry ∈ r.fields.toList, ∀ done rest,
        fieldsFrom? done ((entry.1,entry.2.toJson) :: rest) =
          fieldsFrom? (done.insert entry.1 entry.2.shown) rest := by
      intro entry mem done rest
      have value : Value.ofJson? entry.2.toJson = some entry.2.shown :=
        Value.readShown (range entry.1 entry.2 (Entries.getMem.mpr mem))
      simp only [fieldsFrom?,others entry mem,if_false,value]
    exact (Entries.gathered Value.toJson (fun _ => rfl) next).trans
      (congrArg some (Entries.ofListAgain r.shown.fields))
  have noId : (r.fields.toList.map fun entry => (entry.1,entry.2.toJson)).filter
      (fun m => m.1 == idKey) = [] := by
    rw [List.filter_eq_nil_iff]
    intro member mem
    obtain ⟨entry,there,rfl⟩ := List.mem_map.mp mem
    simpa using others entry there
  obtain ⟨id,_⟩ := r
  cases id with
  | none => simp [toJson,ofJson?,idOf?,noId,fields,shown]
  | some id => simp [toJson,ofJson?,idOf?,noId,fields,fieldsFrom?,shown]

-- A member under the name of the id is the id, never a parameter.
theorem readFields {done fields : Entries Value} {members : List (String × Json)}
    (read : fieldsFrom? done members = some fields)
    (start : ∀ entry ∈ done.toList, entry.1 ≠ idKey ∧ entry.2.InRange) :
    ∀ entry ∈ fields.toList, entry.1 ≠ idKey ∧ entry.2.InRange := by
  induction members generalizing done with
  | nil =>
    cases read
    exact start
  | cons member rest ih =>
    obtain ⟨key,j⟩ := member
    unfold fieldsFrom? at read
    split at read
    · exact ih read start
    · rename_i other
      split at read
      · rename_i v value
        refine ih read fun entry mem => ?_
        rcases Entries.memPut mem with rfl | old
        · exact ⟨other,Value.readInRange value⟩
        · exact start entry old
      · cases read

theorem readSound {j : Json} {r : Record} (read : ofJson? j = some r) :
    r.Each Value.InRange ∧ idKey ∉ r.fields.keys := by
  cases j with
  | table members =>
    simp only [ofJson?,Option.bind_eq_bind,Option.bind_eq_some_iff] at read
    obtain ⟨id,-,fields,found,same⟩ := read
    cases same
    have all := readFields found (by rintro _ ⟨⟩)
    refine ⟨fun key v there => (all (key,v) (Entries.getMem.mp there)).2,fun mem => ?_⟩
    obtain ⟨entry,there,same⟩ := List.mem_map.mp mem
    exact (all entry there).1 same
  | _ => cases read

end Record
end RouterReconciler

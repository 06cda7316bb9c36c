import Mathlib.Data.List.Duplicate
import RouterReconciler.Proofs.Reconcile.Plain
import RouterReconciler.Proofs.Run.Live
import RouterReconciler.Proofs.TaskFile.Sources
import RouterReconciler.Proofs.Value.Documents

/-! Values of many records. Each alias has a column, to which every record adds at most one entry: its value
under the parameter, or null. Columns grow row by row, so they stay abreast of each other; with an index,
rows go under their index, and the first index to come up again ends it. -/
namespace RouterReconciler
open Step Replica

def Replica.found [PatternEngine] (d : Replica) (path : FacilityPath) (criteria : Criteria) : List Record :=
  (d.records path).filter (selects criteria)

def cell (field : String) (r : Record) : Json := ((r.get? field).map Value.toJson).getD .null

namespace IndexBy

def of? : IndexBy → Record → Option String
  | .key name,r => (r.get? name).map Value.text
  | .literal index,_ => some index

def all (way : IndexBy) (rs : List Record) : List String := rs.filterMap way.of?

section
variable {way : IndexBy} {done rest : List Record} {r : Record} {i : String}

theorem allMiddle : way.all (done ++ r :: rest) = way.all done ++ (way.of? r).toList ++ way.all rest := by
  rw [all,List.filterMap_append,List.filterMap_cons]
  cases way.of? r <;> simp [all]

theorem allTwice (own : way.of? r = some i) (again : i ∈ way.all done) :
    List.Duplicate i (way.all (done ++ r :: rest)) := by
  have once := List.one_le_count_iff.mpr again
  rw [List.duplicate_iff_two_le_count,allMiddle,own,List.count_append,List.count_append]
  simp
  omega

theorem allApart (apart : (way.all done).Nodup) (fresh : ∀ i, way.of? r = some i → i ∉ way.all done) :
    (way.all (done ++ [r])).Nodup := by
  rw [allMiddle,show way.all [] = [] from rfl,List.append_nil]
  cases own : way.of? r with
  | none => simpa using apart
  | some i => simpa [List.nodup_append'] using ⟨apart,fresh i own⟩

end
end IndexBy

def column (index : Option IndexBy) (rs : List Record) (field : String) : Json :=
  match index with
  | none => .list (rs.map (cell field))
  | some way => .table (rs.filterMap fun r => (way.of? r).map fun i => (i,cell field r))

def Columns (fields : List (String × String)) (index : Option IndexBy) (rs : List Record)
    (values : ReturnValues) : Prop := values.toList = fields.map fun p => (p.1,column index rs p.2)

structure Extraction.Lists (e : Extraction) (criteria : Criteria) : Prop where
  find : e.find = some criteria
  source : e.source = .fields
  many : e.many = true
  anyMatch : e.requireMatch = false
  anyFields : e.requireFields = false
  aliases : (e.fields.map Prod.fst).Nodup

inductive Listed (e : Extraction) (rs : List Record) : Judgement ReturnValues → Prop
  | columns {values} (apart : ∀ way, e.indexBy = some way → (way.all rs).Nodup)
      (filled : Columns e.fields e.indexBy rs values) : Listed e rs (.ok values)
  | repeated {way p i} (indexed : e.indexBy = some way) (first : e.fields.head? = some p)
      (again : List.Duplicate i (way.all rs)) :
    Listed e rs (.error (.failed (.duplicateKey (p.1 ++ "[" ++ i ++ "]"))))

namespace Entries
variable {α : Type} {key : String} {old new : α} {before after : List (String × α)}

theorem putMiddle (fresh : key ∉ before.map Prod.fst) :
    put key new (before ++ (key,old) :: after) = before ++ (key,new) :: after := by
  induction before with
  | nil => simp [put]
  | cons entry rest ih =>
    obtain ⟨other,later⟩ := not_or.mp (mt List.mem_cons.mpr fresh)
    rw [List.cons_append,put,if_neg (Ne.symm other),ih later,List.cons_append]

theorem insertMiddle {e : Entries α} (h : e.toList = before ++ (key,old) :: after) :
    (e.insert key new).toList = before ++ (key,new) :: after := by
  have distinct := e.distinct
  rw [h,List.map_append,List.nodup_append'] at distinct
  have fresh : key ∉ before.map Prod.fst := fun mem => distinct.2.2 mem (by simp)
  rw [show (e.insert key new).toList = put key new e.toList from rfl,h,putMiddle fresh]

end Entries

namespace Reconcile

section Rows
variable {many : Bool} {index : Option String} {values : ReturnValues} {shownAs : String} {v : Json}

theorem addRowFirst {rest : List (String × Json)} : addRow many index values ((shownAs,v) :: rest) =
    (addRow many index values [(shownAs,v)]).bind (addRow many index · rest) := by
  cases index with
  | none => rfl
  | some i =>
    simp only [addRow]
    cases addIndexed i values shownAs v <;> rfl

theorem listGrows {items : List Json} (there : values.get? shownAs = some (.list items)) :
    addRow true none values [(shownAs,v)] = .ok (values.insert shownAs (.list (items ++ [v]))) := by
  simp [addRow,addPlain,there]

theorem tableGrows {i : String} {members : List (String × Json)} (fresh : i ∉ members.map Prod.fst)
    (there : values.get? shownAs = some (.table members)) :
    addRow many (some i) values [(shownAs,v)] =
      .ok (values.insert shownAs (.table (members ++ [(i,v)]))) := by
  have new : members.any (fun m => m.1 == i) = false := by
    refine List.any_eq_false.mpr fun m mem same => fresh ?_
    exact beq_iff_eq.mp same ▸ List.mem_map_of_mem mem
  simp [addRow,addIndexed,there,new]

theorem tableRepeats {i : String} {members : List (String × Json)} {rest : List (String × Json)}
    (again : i ∈ members.map Prod.fst) (there : values.get? shownAs = some (.table members)) :
    addRow many (some i) values ((shownAs,v) :: rest) =
      .error (.duplicateKey (shownAs ++ "[" ++ i ++ "]")) := by
  obtain ⟨m,mem,rfl⟩ := List.mem_map.mp again
  have old : members.any (fun n => n.1 == m.1) = true := List.any_eq_true.mpr ⟨m,mem,beq_self_eq_true _⟩
  simp [addRow,addIndexed,there,old]

theorem addRowFills {fields done : List (String × String)} {was now : String → Json} {cells : String → Json}
    (grows : ∀ (values : ReturnValues) (shownAs field : String), values.get? shownAs = some (was field) →
      addRow many index values [(shownAs,cells field)] = .ok (values.insert shownAs (now field)))
    (columns : values.toList =
      done.map (fun p => (p.1,now p.2)) ++ fields.map (fun p => (p.1,was p.2))) :
    ∃ filled, addRow many index values (fields.map fun p => (p.1,cells p.2)) = .ok filled ∧
      filled.toList = (done ++ fields).map fun p => (p.1,now p.2) := by
  induction fields generalizing done values with
  | nil => exact ⟨values,rfl,by simpa using columns⟩
  | cons p rest ih =>
    rw [List.map_cons] at columns
    have there : values.get? p.1 = some (was p.2) := Entries.getMem.mpr (by simp [columns])
    have wrote : (values.insert p.1 (now p.2)).toList =
        (done ++ [p]).map (fun q => (q.1,now q.2)) ++ rest.map (fun q => (q.1,was q.2)) := by
      rw [Entries.insertMiddle columns]
      simp
    obtain ⟨filled,added,held⟩ := ih wrote
    refine ⟨filled,?_,by rw [held,List.append_assoc]; rfl⟩
    rw [List.map_cons,addRowFirst,grows _ _ _ there]
    exact added

def addRecord (fields : List (String × String)) (index : Option IndexBy) (values : ReturnValues) (r : Record) :
    Except Error ReturnValues :=
  match index with
  | none => addRow true none values (fields.map fun p => (p.1,cell p.2 r))
  | some way =>
    match way.of? r with
    | none => .ok values
    | some i => addRow true (some i) values (fields.map fun p => (p.1,cell p.2 r))

end Rows

section Columns
variable {fields : List (String × String)} {index : Option IndexBy} {way : IndexBy} {values : ReturnValues}
  {done : List Record} {r : Record} {i : String}

theorem columnMembers {field : String} :
    (done.filterMap fun r => (way.of? r).map fun i => (i,cell field r)).map Prod.fst = way.all done := by
  rw [List.map_filterMap]
  refine List.filterMap_congr fun r _ => ?_
  cases way.of? r <;> rfl

theorem columnsGrow {now : String → Json} {shown : Option String} (columns : Columns fields index done values)
    (grows : ∀ (values : ReturnValues) (shownAs field : String),
      values.get? shownAs = some (column index done field) →
      addRow true shown values [(shownAs,cell field r)] = .ok (values.insert shownAs (now field)))
    (next : ∀ field, now field = column index (done ++ [r]) field) :
    ∃ filled, addRow true shown values (fields.map fun p => (p.1,cell p.2 r)) = .ok filled ∧
      Columns fields index (done ++ [r]) filled := by
  have start : values.toList = ([] : List (String × String)).map (fun p => (p.1,now p.2)) ++
      fields.map fun p => (p.1,column index done p.2) := columns
  obtain ⟨filled,added,held⟩ := addRowFills grows start
  exact ⟨filled,added,by simpa [Columns,next] using held⟩

theorem recordAdds (columns : Columns fields index done values)
    (fresh : ∀ way i, index = some way → way.of? r = some i → i ∉ way.all done) :
    ∃ filled, addRecord fields index values r = .ok filled ∧ Columns fields index (done ++ [r]) filled := by
  cases index with
  | none =>
    exact columnsGrow columns (fun values shownAs field there => listGrows there) fun field => by simp [column]
  | some way =>
    simp only [addRecord]
    cases own : way.of? r with
    | none => exact ⟨values,rfl,by simpa [Columns,column,own] using columns⟩
    | some i =>
      exact columnsGrow columns (fun values shownAs field there => tableGrows
        (by rw [columnMembers]; exact fresh way i rfl own) there) fun field => by simp [column,own]

theorem recordRepeats {p : String × String} (columns : Columns fields (some way) done values)
    (first : fields.head? = some p) (own : way.of? r = some i) (again : i ∈ way.all done) :
    addRecord fields (some way) values r = .error (.duplicateKey (p.1 ++ "[" ++ i ++ "]")) := by
  obtain ⟨rest,rfl⟩ := List.head?_eq_some_iff.mp first
  have there : values.get? p.1 = some (column (some way) done p.2) :=
    Entries.getMem.mpr (by rw [columns]; exact List.mem_cons_self)
  simp only [addRecord,own]
  exact tableRepeats (by rwa [columnMembers]) there

end Columns

section Run
variable {e : Extraction} {criteria : Criteria} (lists : e.Lists criteria)
include lists

theorem emptyColumnsStart : Columns e.fields e.indexBy [] (emptyColumns e) := by
  have start (field : String) : column e.indexBy [] field =
      if e.indexBy.isSome then .table [] else .list [] := by
    cases e.indexBy <;> rfl
  simp only [Columns,start]
  rw [← Entries.ofListDistinct (l := e.fields.map _) (by simpa [Function.comp_def] using lists.aliases),
    Entries.ofList,List.foldl_map,emptyColumns,lists.many]
  rfl

variable {σ : Type} [Device σ] {f : Facility} {d : σ}

theorem fieldCells {r : Record} (fields : List (String × String)) :
    fieldValues f e.requireFields r fields = .ok (fields.map fun p => (p.1,cell p.2 r)) := by
  rw [lists.anyFields]
  induction fields with
  | nil => rfl
  | cons p rest ih =>
    rw [fieldValues,ih,List.map_cons,cell]
    cases r.get? p.2 <;> rfl

theorem extractRowAdds (values : ReturnValues) (r : Record) :
    extractRow f e values r d = (liftM (addRecord e.fields e.indexBy values r) : Inquiry σ ReturnValues) d := by
  have cells : rowValues f e r d = (.ok (e.fields.map fun p => (p.1,cell p.2 r)),d) := by
    rw [rowValues,lists.source]
    exact liftOk.mpr ⟨fieldCells lists e.fields,rfl⟩
  have row (index : Option String) :
      (rowValues f e r >>= fun row => liftM (addRow e.many index values row) : Inquiry σ ReturnValues) d =
        (liftM (addRow true index values (e.fields.map fun p => (p.1,cell p.2 r))) :
          Inquiry σ ReturnValues) d := by
    rw [bindAfter cells,lists.many]
  have keyed (key : String) : keyOf f e r key d = (.ok ((r.get? key).map Value.text),d) := by
    rw [keyOf,lists.source]
    rfl
  unfold extractRow addRecord
  cases e.indexBy with
  | none => exact row none
  | some way =>
    cases way with
    | literal i => exact row (some i)
    | key key =>
      have found := keyed key
      simp only [IndexBy.of?]
      cases own : r.get? key with
      | none =>
        rw [own] at found
        exact (bindAfter found _).trans (by rw [lists.anyFields]; rfl)
      | some v =>
        rw [own] at found
        exact (bindAfter found _).trans (row (some v.text))

theorem extractRowsEnd (rest : List Record) {done : List Record} {values : ReturnValues} (asked : e.fields ≠ [])
    (columns : Columns e.fields e.indexBy done values)
    (apart : ∀ way, e.indexBy = some way → (way.all done).Nodup) :
    ∃ answer, extractRows f e values rest d = (answer,d) ∧ Listed e (done ++ rest) answer := by
  induction rest generalizing done values with
  | nil =>
    rw [List.append_nil]
    exact ⟨_,rfl,.columns apart columns⟩
  | cons r rest ih =>
    by_cases clash : ∃ way i, e.indexBy = some way ∧ way.of? r = some i ∧ i ∈ way.all done
    · obtain ⟨way,i,indexed,own,again⟩ := clash
      obtain ⟨p,others,first⟩ := List.exists_cons_of_ne_nil asked
      have first : e.fields.head? = some p := by rw [first,List.head?_cons]
      rw [indexed] at columns
      have refused := recordRepeats columns first own again
      refine ⟨.error (.failed (.duplicateKey (p.1 ++ "[" ++ i ++ "]"))),?_,
        .repeated indexed first (IndexBy.allTwice own again)⟩
      refine bindFailed ?_ _
      rw [extractRowAdds lists,indexed]
      exact liftFailed.mpr ⟨⟨_,refused,rfl⟩,rfl⟩
    · have fresh : ∀ way i, e.indexBy = some way → way.of? r = some i → i ∉ way.all done :=
        fun way i indexed own again => clash ⟨way,i,indexed,own,again⟩
      obtain ⟨filled,added,held⟩ := recordAdds columns fresh
      obtain ⟨answer,ended,listed⟩ := ih held fun way indexed =>
        IndexBy.allApart (apart way indexed) fun i => fresh way i indexed
      rw [List.append_assoc] at listed
      refine ⟨answer,(bindAfter ?_ _).trans ended,listed⟩
      rw [extractRowAdds lists]
      exact liftOk.mpr ⟨added,rfl⟩

end Run

section Planned
variable {path : FacilityPath} {e : Extraction} {criteria : Criteria} {d : Replica}

theorem listSeveral : (Facility.mk path .unordered).shape ≠ .singleton := Shape.noConfusion

variable [PatternEngine]

theorem extractListed (lists : e.Lists criteria) (asked : e.fields ≠ []) (legible : criteria.Legible)
    (items : d.HasItems path) (clear : ¬Clash [criteria] (d.records path)) :
    ∃ answer, extract ⟨path,.unordered⟩ e d = (answer,d) ∧ Listed e (d.found path criteria) answer := by
  obtain ⟨answer,ended,listed⟩ := extractRowsEnd (f := ⟨path,.unordered⟩) (d := d) lists (d.found path criteria)
    asked (emptyColumnsStart lists) fun way _ => List.nodup_nil
  refine ⟨answer,?_,listed⟩
  have found : extractionRecords ⟨path,.unordered⟩ e d = (.ok (d.found path criteria),d) := by
    rw [extractionRecords,lists.find]
    exact findClear legible listSeveral items clear
  rw [extract,bindAfter found]
  simpa [lists.anyMatch,lists.many] using ended

theorem extractBreaks (lists : e.Lists criteria) (legible : criteria.Legible) (items : d.HasItems path)
    (clash : Clash [criteria] (d.records path)) :
    extract ⟨path,.unordered⟩ e d = (.error .brokenOff,d) := by
  rw [extract,extractionRecords,lists.find]
  exact bindFailed (findClash legible listSeveral items clash) _

theorem patternFault {clauses : List (String × Condition)} {fault : Error}
    (h : Test.ofClauses clauses = .error fault) : fault.kind = .invalidTask := by
  have pattern {key p : String} {make : (String → Bool) → Test} (h : (Test.readPattern key p).map make = .error fault) :
      fault.kind = .invalidTask := by
    unfold Test.readPattern at h
    split at h <;> cases h
    rfl
  induction clauses with
  | nil => cases h
  | cons clause rest ih =>
    obtain ⟨key,c⟩ := clause
    unfold Test.ofClauses at h
    split at h
    · rename_i wrong
      cases h
      cases c with
      | matchesPattern p => exact pattern wrong
      | avoidsPattern p => exact pattern wrong
      | _ => cases wrong
    · split at h <;> cases h
      exact ih (by assumption)

theorem extractRefused (lists : e.Lists criteria)
    (h : ¬ ((∃ s, Selector.ofCriteria criteria = .ok s) ∧ d.HasItems path)) :
    ∃ fault, extract ⟨path,.unordered⟩ e d = (.error (.failed fault),d) ∧ fault.kind ≠ .duplicateKey := by
  have refused {fault : Error} (failed : find ⟨path,.unordered⟩ criteria d = (.error (.failed fault),d)) :
      extract ⟨path,.unordered⟩ e d = (.error (.failed fault),d) := by
    rw [extract,extractionRecords,lists.find]
    exact bindFailed failed _
  cases read : Selector.ofCriteria criteria with
  | error fault =>
    refine ⟨fault,refused (bindFailed (liftFailed.mpr ⟨⟨_,read,rfl⟩,rfl⟩) _),?_⟩
    unfold Selector.ofCriteria at read
    split at read <;> cases read
    rw [patternFault (by assumption)]
    decide
  | ok s =>
    have single : ¬ d.HasItems path := fun items => h ⟨⟨s,read⟩,items⟩
    simp only [HasItems,not_forall,not_not] at single
    obtain ⟨r,there⟩ := single
    have other : ErrorKind.unsupportedOperation ≠ .duplicateKey := by decide
    refine ⟨.unsupportedOperation (path.text ++ " find") "facility is a singleton",refused ?_,other⟩
    rw [find,bindAfter (liftOk.mpr ⟨read,rfl⟩),readDevice _ listSeveral,Replica.read,there]

end Planned
end Reconcile

section
variable [PatternEngine]

def Gives (path : FacilityPath) (e : Extraction) (d : Replica) (column : String → Json) : Prop :=
  ∃ values, FacilityTask.plan ⟨path,.extract e⟩ d =
      (.ok { Plan.ofOperations ⟨path,.unordered⟩ [] with returnValues := values },d) ∧
    values.toList = e.fields.map fun p => (p.1,column p.2)

def Clashes (path : FacilityPath) (e : Extraction) (d : Replica) : Prop :=
  ∃ fault, FacilityTask.plan ⟨path,.extract e⟩ d = (.error (.failed fault),d) ∧ fault.kind = .duplicateKey

variable {path : FacilityPath} {e : Extraction} {criteria : Criteria} {d : Replica}

theorem planExtract {answer : Judgement ReturnValues} (lists : e.Lists criteria)
    (h : Reconcile.extract ⟨path,.unordered⟩ e d = (answer,d)) :
    FacilityTask.plan ⟨path,.extract e⟩ d = match answer with
      | .ok values => (.ok { Plan.ofOperations ⟨path,.unordered⟩ [] with returnValues := values },d)
      | .error e' => (.error (Reconcile.named (FacilityTask.within ⟨path,.extract e⟩) none e'),d) := by
  have same : FacilityTask.facility ⟨path,.extract e⟩ = ⟨path,.unordered⟩ := by
    simp [FacilityTask.facility,Mode.shape,lists.find]
  rw [FacilityTask.plan,same]
  cases answer with
  | ok values => exact mapErrorOk.mpr ((bindAfter h _).trans rfl)
  | error fault => exact mapErrorError.mpr ⟨fault,bindFailed h _,rfl⟩

theorem planListed (lists : e.Lists criteria) (asked : e.fields ≠ []) (legible : criteria.Legible)
    (items : d.HasItems path) (clear : ¬Clash [criteria] (d.records path)) :
    (Clashes path e d ↔ ∃ way, e.indexBy = some way ∧
      ¬ (way.all (d.found path criteria)).Nodup) ∧
    ((∀ way, e.indexBy = some way → (way.all (d.found path criteria)).Nodup) →
      Gives path e d (column e.indexBy (d.found path criteria))) := by
  obtain ⟨answer,ended,listed⟩ := Reconcile.extractListed lists asked legible items clear
  have planned := planExtract lists ended
  cases listed with
  | columns apart filled =>
    refine ⟨⟨fun ⟨fault,failed,_⟩ => ?_,fun ⟨way,indexed,twice⟩ => absurd (apart way indexed) twice⟩,
      fun _ => ⟨_,planned,filled⟩⟩
    cases planned.symm.trans failed
  | @repeated way p i indexed first again =>
    have twice := List.exists_duplicate_iff_not_nodup.mp ⟨i,again⟩
    exact ⟨⟨fun _ => ⟨way,indexed,twice⟩,fun _ => ⟨_,planned,rfl⟩⟩,fun apart => absurd (apart way indexed) twice⟩

end

def TellApart (key : String) (rs : List Record) : Prop :=
  rs.Pairwise fun r q => ∀ v w, r.get? key = some v → q.get? key = some w → v.text ≠ w.text

section
variable {key index : String} {rs : List Record}

theorem keysApart : ((IndexBy.key key).all rs).Nodup ↔ TellApart key rs := by
  rw [IndexBy.all,List.Nodup,List.pairwise_filterMap,TellApart]
  refine List.Pairwise.iff fun r q => ?_
  simp only [IndexBy.of?]
  cases r.get? key <;> cases q.get? key <;> simp

theorem keyColumn : column (some (.key key)) rs = fun field =>
    .table (rs.filterMap fun r => (r.get? key).map fun v => (v.text,cell field r)) := by
  funext field
  simp only [column,IndexBy.of?,Option.map_map]
  rfl

theorem literalsApart : ((IndexBy.literal index).all rs).Nodup ↔ rs.length ≤ 1 := by
  have same : (IndexBy.literal index).all rs = List.replicate rs.length index := by
    rw [IndexBy.all,show (IndexBy.literal index).of? = some ∘ fun _ => index from rfl,List.filterMap_eq_map,
      List.map_const']
  rw [same,List.nodup_replicate]

theorem literalColumn : column (some (.literal index)) rs = fun field =>
    .table (rs.map fun r => (index,cell field r)) := by
  funext field
  simp [column,IndexBy.of?]

end

/-- A list of parameters gives back columns that stay abreast of each other: as long as the list of matches
without an index, and with one entry for each match that has an index otherwise. It fails over a key that
comes up twice exactly if two matches have one index. If the find has a value that cannot be compared with what
a record holds, planning breaks off, and where the records cannot be listed at all, it fails for another
reason. -/
theorem listsAbreast [PatternEngine] {path : FacilityPath} {e : Extraction} {criteria : Criteria} {d : Replica}
    (made : FacilityTask.make path (.extract e) = .ok ⟨path,.extract e⟩) (lists : e.Lists criteria)
    (onHand : criteria.hasRaw = false) :
    ((∃ s, Selector.ofCriteria criteria = .ok s) → d.HasItems path → ¬Clash [criteria] (d.records path) →
      (e.indexBy = none → Gives path e d fun field => .list ((d.found path criteria).map (cell field))) ∧
      (∀ key, e.indexBy = some (.key key) →
        (Clashes path e d ↔ ¬ TellApart key (d.found path criteria)) ∧
        (TellApart key (d.found path criteria) → Gives path e d fun field =>
          .table ((d.found path criteria).filterMap fun r =>
            (r.get? key).map fun v => (v.text,cell field r)))) ∧
      ∀ index, e.indexBy = some (.literal index) →
        (Clashes path e d ↔ 1 < (d.found path criteria).length) ∧
        ((d.found path criteria).length ≤ 1 → Gives path e d fun field =>
          .table ((d.found path criteria).map fun r => (index,cell field r)))) ∧
    ((∃ s, Selector.ofCriteria criteria = .ok s) → d.HasItems path → Clash [criteria] (d.records path) →
      FacilityTask.plan ⟨path,.extract e⟩ d = (.error .brokenOff,d)) ∧
    (¬ ((∃ s, Selector.ofCriteria criteria = .ok s) ∧ d.HasItems path) →
      ∃ fault, FacilityTask.plan ⟨path,.extract e⟩ d = (.error (.failed fault),d) ∧
        fault.kind ≠ .duplicateKey) := by
  have asked : e.fields ≠ [] := by
    intro none
    have sound := (TaskFile.makeOk.mp made).1
    simp [FacilityTask.fault?,FacilityTask.partFault?,FacilityTask.contentFault?,FacilityTask.extractionFault?,
      none,Mode.position?] at sound
  refine ⟨fun readable items clear => ?_,fun readable items clash => ?_,fun unlisted => ?_⟩
  · obtain ⟨clashes,gives⟩ := planListed lists asked ⟨readable,onHand⟩ items clear
    refine ⟨fun plain => ?_,fun key indexed => ?_,fun index indexed => ?_⟩
    · rw [plain] at gives
      exact gives fun way indexed => absurd indexed.symm (Option.some_ne_none way)
    · simp only [indexed,Option.some.injEq,exists_eq_left',forall_eq',keysApart] at clashes gives
      exact ⟨clashes,fun apart => keyColumn ▸ gives apart⟩
    · simp only [indexed,Option.some.injEq,exists_eq_left',forall_eq',literalsApart,Nat.not_le] at clashes gives
      exact ⟨clashes,fun single => literalColumn ▸ gives single⟩
  · exact planExtract lists (Reconcile.extractBreaks lists ⟨readable,onHand⟩ items clash)
  · obtain ⟨fault,failed,other⟩ := Reconcile.extractRefused lists unlisted
    refine ⟨_,planExtract lists failed,?_⟩
    rw [FacilityTask.within,Error.kindWithin]
    exact other

open scoped Pattern

def notedPools : Replica :=
  ⟨Entries.ofList [("/ip pool",.items [pool "*1" "old",
    ⟨some "*2",Entries.ofList [("name",.str "lan"),("comment",.str "home")]⟩,
    ⟨some "*3",Entries.ofList [("name",.str "old"),("dynamic",.bool true)]⟩])],4,[],0,none⟩

def notes (index : Option IndexBy) : Extraction :=
  ⟨some ∅,[("pool","name"),("note","comment")],.fields,true,index,false,false,false⟩

theorem listsAbreastPools :
    Gives ⟨"/ip pool"⟩ (notes none) notedPools
      (fun field => .list ((notedPools.found ⟨"/ip pool"⟩ ∅).map (cell field))) ∧
    Gives ⟨"/ip pool"⟩ (notes (some (.key "name"))) notedPools
      (fun field => .table ((notedPools.found ⟨"/ip pool"⟩ ∅).filterMap fun r =>
        (r.get? "name").map fun v => (v.text,cell field r))) ∧
    Clashes ⟨"/ip pool"⟩ (notes (some (.literal "one"))) notedPools := by
  have items : notedPools.HasItems ⟨"/ip pool"⟩ :=
    .ofStored (by decide +kernel)
  have apart : ["pool","note"].Nodup := by decide
  have lists (index : Option IndexBy) : (notes index).Lists ∅ := ⟨rfl,rfl,rfl,rfl,rfl,apart⟩
  have made (index : Option IndexBy) : FacilityTask.make ⟨"/ip pool"⟩ (.extract (notes index)) =
    .ok ⟨⟨"/ip pool"⟩,.extract (notes index)⟩ := rfl
  have clear : ¬Clash [∅] (notedPools.records ⟨"/ip pool"⟩) := by decide +kernel
  have listed (index : Option IndexBy) :=
    (listsAbreast (d := notedPools) (made index) (lists index) rfl).1 ⟨_,rfl⟩ items clear
  refine ⟨(listed none).1 rfl,?_,?_⟩
  · exact ((listed (some (.key "name"))).2.1 "name" rfl).2 (keysApart.mp (by decide +kernel))
  · exact ((listed (some (.literal "one"))).2.2 "one" rfl).1.mpr (by decide +kernel)

def namesOf (criteria : Criteria) : Extraction :=
  ⟨some criteria,[("pool","name")],.fields,true,none,false,false,false⟩

-- There is no column where one of the records cannot be compared with the find.
theorem columnsBreakOff : FacilityTask.make ⟨"/ip pool"⟩ (.extract (namesOf clockLine)) =
      .ok ⟨⟨"/ip pool"⟩,.extract (namesOf clockLine)⟩ ∧
    (namesOf clockLine).Lists clockLine ∧ clockLine.Legible ∧ clocks.HasItems ⟨"/ip pool"⟩ ∧
    (FacilityTask.plan ⟨⟨"/ip pool"⟩,.extract (namesOf clockLine)⟩ clocks).1 = .error .brokenOff :=
  ⟨rfl,⟨rfl,rfl,rfl,rfl,rfl,by decide⟩,⟨⟨_,rfl⟩,rfl⟩,.ofStored (by decide +kernel),by decide +kernel⟩

end RouterReconciler

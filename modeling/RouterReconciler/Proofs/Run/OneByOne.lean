import RouterReconciler.Proofs.Reconcile.Steady
import RouterReconciler.Proofs.Run.Positions
import RouterReconciler.Proofs.Run.Through

/-! An ensuring task with several finds beside tasks with one find each. All finds of a task are planned
before anything is written, so a find does not see what the ones before it write. -/
namespace RouterReconciler
open Replica Step Session Reconcile Text

theorem stepCounts {index : Nat} {v w : View} {operation : Operation}
    (h : v.step index operation = some w) :
    w.nextId = v.nextId + (arrivals index v.nextId [operation]).length := by
  have takes := View.stepTakes h
  cases operation <;> exact takes.1

theorem newsFrom (index next : Nat) (operations : List Operation) :
    (arrivals index next operations).map Prod.snd = news next operations := by
  unfold news
  generalize 0 = other
  induction operations generalizing index other next with
  | nil => rfl
  | cons operation rest ih =>
    cases operation with
    | add values before => exact congrArg (newRecord next values :: ·) (ih _ _ _)
    | _ => exact ih _ _ _

theorem runCounts {index : Nat} {v w : View} {operations : List Operation}
    (h : v.run index operations = some w) :
    w.nextId = v.nextId + (news v.nextId operations).length := by
  rw [← newsFrom index,List.length_map]
  induction operations generalizing index v with
  | nil => cases h; rfl
  | cons operation rest ih =>
    obtain ⟨u,stepped,ran⟩ := Option.bind_eq_some_iff.mp h
    rw [ih ran,stepCounts stepped,arrivalsCons index v.nextId operation rest,List.length_append,
      Nat.add_assoc]

theorem newsAppend (next : Nat) (first second : List Operation) : news next (first ++ second) =
    news next first ++ news (next + (news next first).length) second := by
  rw [news,arrivalsAppend,List.map_append,newsFrom,newsFrom,news,List.length_map]

theorem newsMade {next : Nat} {operations : List Operation} {y : Record} (h : y ∈ news next operations) :
    ∃ n values before, next ≤ n ∧ n < next + (news next operations).length ∧
      .add values before ∈ operations ∧ y = newRecord n values := by
  induction operations generalizing next with
  | nil => cases h
  | cons operation rest ih =>
    have parted := newsAppend next [operation] rest
    rw [List.singleton_append] at parted
    rw [parted] at h ⊢
    rw [List.length_append]
    rcases List.mem_append.mp h with here | later
    · cases operation <;> simp [news,arrivals] at here
      subst here
      exact ⟨next,_,_,Nat.le_refl _,by simp [news,arrivals],List.mem_cons_self,rfl⟩
    · obtain ⟨n,values,before,lower,upper,mem,same⟩ := ih later
      exact ⟨n,values,before,by omega,by omega,List.mem_cons_of_mem _ mem,same⟩

def Onto (rs : List Record) (operation : Operation) : Prop :=
  (∃ values, operation = .add values none) ∨
    ∃ id values, operation = .set (some id) values ∧ some id ∈ ids rs

namespace Onto
variable {rs : List Record} {operation : Operation}

theorem edit (h : Onto rs operation) : Edit operation := by
  rcases h with ⟨values,rfl⟩ | ⟨id,values,rfl,-⟩
  · exact .add values
  · exact .set id values

theorem aimed (h : Onto rs operation) : ∀ id ∈ operation.aim?, some id ∈ ids rs := by
  rcases h with ⟨values,rfl⟩ | ⟨id,values,rfl,there⟩
  · nofun
  · intro other aim
    cases aim
    exact there

theorem keeps (h : Onto rs operation) : operation.removedId? = none := by
  rcases h with ⟨values,rfl⟩ | ⟨id,values,rfl,-⟩ <;> rfl

end Onto

theorem replyOnto {set : Assignments} {missing : Missing} {c : Criteria} {rs : List Record}
    {p : Record → Bool} {operations : List Operation}
    (reply : Reply set missing c (rs.filter p) operations) : ∀ operation ∈ operations, Onto rs operation := by
  generalize matched : rs.filter p = found at reply
  intro operation mem
  cases reply with
  | found _ settable =>
    obtain ⟨q,hq,written⟩ := List.mem_flatMap.mp mem
    obtain ⟨id,named,rfl,-⟩ := memSettings (settable q hq) written
    rw [← matched] at hq
    exact .inr ⟨id,_,rfl,named ▸ List.mem_map_of_mem (List.mem_filter.mp hq).1⟩
  | added => exact .inl ⟨_,List.mem_singleton.mp mem⟩
  | ignored => cases mem

theorem View.onto {v w : View} {operations : List Operation} (word : w.nextId ≤ maxWord64)
    (distinct : (ids v.records).Nodup)
    (free : ∀ n, v.nextId ≤ n → n ≤ maxWord64 → some (newId n) ∉ ids v.records)
    (onto : ∀ operation ∈ operations, Onto v.records operation) (h : v.run 0 operations = some w) :
    w.records = v.records.map (changed operations) ++ news v.nextId operations ∧
      (ids w.records).Nodup := by
  have stage : Stage (ids v.records) w.nextId v.records [] v := .start distinct fun n lower upper =>
    free n lower (Nat.le_of_lt (Nat.lt_of_lt_of_le upper word))
  obtain ⟨final,apart,-⟩ := editsRun word stage (fun x hx => (onto x hx).edit)
    (fun x hx => (onto x hx).aimed) h
  have none : removed operations = [] :=
    List.filterMap_eq_nil_iff.mpr fun x hx => (onto x hx).keeps
  refine ⟨?_,apart⟩
  rw [final,none,staysNil,List.filter_true,List.append_nil,newsFrom]

theorem performedSpared {f : Facility} {index : Nat} {added given : AddedIds} {rs : List Record}
    {operation : Operation} {d d' : Replica} (onto : Onto rs operation)
    (h : perform f index added operation d = (.ok given,d')) :
    d.failAtWrite ≠ some d.writes ∧ checkEncodable operation.values.toList = .ok () := by
  have begun {text : String} {m m' : Replica} (h : beginWrite text m = (.ok (),m')) :
      m.failAtWrite ≠ some m.writes := by
    unfold beginWrite at h
    split at h
    · cases h
    · assumption
  rcases onto with ⟨values,rfl⟩ | ⟨id,values,rfl,-⟩
  · simp only [perform,Facility.add,bindOk,liftOk] at h
    obtain ⟨_,_,⟨resolved,rfl⟩,_,_,⟨_,_,⟨-,rfl⟩,h⟩,-⟩ := h
    cases resolved
    simp only [Option.isSome_none,Bool.false_and,Bool.false_eq_true,if_false,bindOk,liftOk] at h
    obtain ⟨_,_,⟨-,rfl⟩,h⟩ := h
    have h : Replica.add f.path values none _ = _ := h
    simp only [Replica.add,bindOk,liftOk] at h
    obtain ⟨_,_,⟨encodable,rfl⟩,_,_,first,-⟩ := h
    exact ⟨begun first,encodable⟩
  · simp only [perform,Facility.set,bindOk,liftOk] at h
    obtain ⟨_,_,⟨_,_,⟨-,rfl⟩,_,_,⟨-,rfl⟩,h⟩,-⟩ := h
    have h : Replica.set f.path (some id) values _ = _ := h
    simp only [Replica.set,bindOk,liftOk] at h
    obtain ⟨_,_,⟨encodable,rfl⟩,_,_,first,-⟩ := h
    exact ⟨begun first,encodable⟩

theorem stepsSpared {τ : Type} {f : Facility} {index : Nat} {added given : AddedIds}
    {operations : List Operation} {s n : Session Replica τ} (several : f.shape ≠ .singleton)
    {rs : List Record} (onto : ∀ operation ∈ operations, Onto rs operation)
    (steps : Steps f index added operations s n given) : Unguarded s.device operations.length ∧
      ∀ operation ∈ operations, checkEncodable operation.values.toList = .ok () := by
  induction steps with
  | none => exact ⟨nofun,nofun⟩
  | @next index added operation rest s m n step given performed later ih =>
    obtain ⟨here,others⟩ := List.forall_mem_cons.mp onto
    obtain ⟨d,done,rfl⟩ := onDeviceEnds.mp performed
    obtain ⟨first,encodable⟩ := performedSpared here done
    obtain ⟨next,encodables⟩ := ih others
    have counted := (performEnters f index added operation _ _ _ done).writes
    have failing := (View.performView several done).2.failing
    refine ⟨fun k small => ?_,List.forall_mem_cons.mpr ⟨encodable,encodables⟩⟩
    cases k with
    | zero => exact first
    | succ k =>
      have away : d.failAtWrite ≠ some (d.writes + k) := next k (by simpa using small)
      rw [failing,counted] at away
      rw [show s.device.writes + (k + 1) = s.device.writes + 1 + k by omega]
      exact away

structure AtTurn (path : FacilityPath) (xs : List Record) (ahead : List Operation) (d : Replica) :
    Prop where
  records : d.records path = xs
  items : d.HasItems path
  distinct : (ids xs).Nodup
  free : ∀ n, d.nextId ≤ n → n ≤ maxWord64 → some (newId n) ∉ ids xs
  word : d.nextId + (news d.nextId ahead).length ≤ maxWord64
  spared : Unguarded d ahead.length
  encodable : ∀ operation ∈ ahead, checkEncodable operation.values.toList = .ok ()

def ensuring (path : FacilityPath) (set : Assignments) (missing : Missing) (finds : List Criteria) : Task :=
  .facility ⟨path,.ensure finds set none missing⟩

section OneTurn
variable {path : FacilityPath} {set : Assignments} {missing : Missing} {c : Criteria}
  {operations again later : List Operation} {xs : List Record} {d : Replica}

theorem AtTurn.next {d' : Replica} {given : AddedIds} (at_ : AtTurn path xs (operations ++ later) d)
    (onto : ∀ operation ∈ again, Onto xs operation) (lesser : Lesser again operations)
    (ran : (View.ofReplica d path []).run 0 again = some (View.ofReplica d' path given))
    (beside : Beside path d d') (entered : Entered again.length d d') :
    AtTurn path (xs.map (changed again) ++ news d.nextId operations) later d' ∧
      d'.nextId = d.nextId + (news d.nextId operations).length := by
  have counted : d'.nextId = d.nextId + (news d.nextId operations).length := by
    rw [← lesser.news]
    exact runCounts ran
  have word := at_.word
  rw [newsAppend,List.length_append,← Nat.add_assoc,← counted] at word
  obtain ⟨records,distinct⟩ := View.onto (Nat.le_trans (Nat.le_add_right _ _) word)
    (by rw [View.ofReplica,at_.records]; exact at_.distinct)
    (by rw [View.ofReplica,at_.records]; exact at_.free)
    (by rw [View.ofReplica,at_.records]; exact onto) ran
  simp only [View.ofReplica,at_.records,lesser.news] at records distinct
  refine ⟨⟨records,beside.items at_.items,records ▸ distinct,fun n lower upper mem => ?_,word,
    fun k small failing => ?_,fun x hx => at_.encodable x (List.mem_append_right _ hx)⟩,counted⟩
  · rw [ids,List.map_append] at mem
    rcases List.mem_append.mp mem with old | new
    · rw [← ids,idsChanged] at old
      exact at_.free n (by omega) upper old
    · obtain ⟨y,hy,named⟩ := List.mem_map.mp new
      obtain ⟨m,values,before,-,below,-,rfl⟩ := newsMade hy
      rw [newRecordId] at named
      exact newIdDiffers (by omega) upper (by omega) (Option.some.inj named)
  · have small' := lesser.size
    rw [beside.failing,entered.writes,Nat.add_assoc] at failing
    exact at_.spared (again.length + k) (by rw [List.length_append]; omega) failing

variable [PatternEngine]

theorem planOne (items : d.HasItems path) (decides : c.Decides (d.records path))
    (reply : Reply set missing c ((d.records path).filter c.hits) operations) :
    FacilityTask.plan ⟨path,.ensure [c] set none missing⟩ d =
      (.ok (.ofOperations ⟨path,.unordered⟩ operations),d) := by
  refine mapErrorOk.mpr (writingDone ?_)
  have one : ensureOne ⟨path,.unordered⟩ set none missing c d = (.ok operations,d) :=
    ensureOneExactly.mpr ⟨rfl,nofun,items,decides,reply⟩
  have all : ensure ⟨path,.unordered⟩ (FacilityTask.within ⟨path,.ensure [c] set none missing⟩) [c] set
      none missing d = (.ok (operations ++ []),d) := by
    rw [ensure,ensureEach,bindAfter (mapErrorOk.mpr one)]
    rfl
  rwa [List.append_nil] at all

variable {τ : Type} {s s' : Session Replica τ}

theorem turnGoesThrough {plan : Plan} {e : Error} (at_ : AtTurn path xs (operations ++ later) s.device)
    (lesser : Lesser again operations)
    (planned : FacilityTask.plan ⟨path,.ensure [c] set none missing⟩ s.device = (.ok plan,d))
    (same : plan.operations = again) : apply plan s ≠ (.error e,s') := by
  have smaller := lesser.size
  obtain ⟨n,went⟩ := planGoesThrough (s := s) (by rw [at_.records]; exact at_.distinct) planned
    (fun k small => at_.spared k (by rw [same] at small; rw [List.length_append]; omega))
    fun operation mem => by
      obtain ⟨whole,there,inside⟩ := lesser.values operation (same ▸ mem)
      have each := encodableEach.mp (at_.encodable whole (List.mem_append_left _ there))
      exact encodableEach.mpr fun key v mem => each key v (inside mem)
  rw [went]
  nofun

theorem oneTurn [FileTransfer Replica τ] {options : RunOptions} (live : options.dryRun = false)
    (at_ : AtTurn path xs (operations ++ later) s.device) (decides : c.Decides xs)
    (reply : Reply set missing c (xs.filter c.hits) again) (lesser : Lesser again operations) :
    ∃ outcome s', runTask options (ensuring path set missing [c]) s = (.ok outcome,s') ∧
      outcome.failed = false ∧
      AtTurn path (xs.map (changed again) ++ news s.device.nextId operations) later s'.device ∧
      s'.device.nextId = s.device.nextId + (news s.device.nextId operations).length := by
  rw [← at_.records] at decides
  have replied := reply
  rw [← at_.records] at replied
  have planned := planOne at_.items decides replied
  obtain ⟨said,s',h⟩ : ∃ said s', runTask options (ensuring path set missing [c]) s = (said,s') := ⟨_,_,rfl⟩
  obtain ⟨outcome,rfl⟩ := answeredRun (by rw [planned]; nofun) h
  refine ⟨outcome,s',h,?_⟩
  rcases facilityRun live h with ⟨e,failed,-,-⟩ | ⟨plan,answer,n,made,facility,applied,last,ended⟩
  · cases planned.symm.trans failed
  · cases planned.symm.trans made
    cases answer with
    | error e =>
      refine absurd applied (turnGoesThrough (s := s.observe _) at_ lesser planned rfl)
    | ok done =>
      rw [ended,last]
      rcases appliedTrace applied with ⟨given,-,steps⟩ | ⟨_,_,_,_,_,_,-,-,-,said⟩
      · exact ⟨rfl,at_.next (replyOnto reply) lesser (steps.carried.view nofun)
          (steps.carried.beside nofun) steps.entered⟩
      · cases said

end OneTurn

section Turns
variable {path : FacilityPath} {set : Assignments} {missing : Missing} {rs : List Record}

theorem newSettled {c : Criteria} {literals : Assignments} (own : c.addValues = .ok literals) (n : Nat) :
    differing set (newRecord n (overlay literals set.toList)) = .ok ∅ := by
  refine settledHeld fun key a wanted => ?_
  rw [newRecord,overlaidGet (newId n) own,wanted]

variable [PatternEngine]

theorem newSpared {c : Criteria} {done rest : List Criteria} {operations : List Operation}
    (unaffected : Unaffected set missing (done ++ c :: rest) rs)
    (reply : Reply set missing c (rs.filter c.hits) operations) {next : Nat} {y : Record}
    (mem : y ∈ news next operations) :
    differing set y = .ok ∅ ∧ ∀ later ∈ rest, Spares set rs later y := by
  generalize matched : rs.filter c.hits = found at reply
  cases reply with
  | found _ settable =>
    rw [newsOfSettings settable] at mem
    cases mem
  | added adds plain own _ =>
    obtain rfl : y = newRecord next _ := List.mem_singleton.mp mem
    refine ⟨newSettled own next,fun later there => ?_⟩
    have pairs := (List.pairwise_append.mp (unaffected.added adds)).2.1
    exact (List.pairwise_cons.mp pairs).1 later there plain
      (fun r hr => Bool.eq_false_of_not_eq_true (List.filter_eq_nil_iff.mp matched r hr)) _ own next
  | ignored => cases mem

def Planning (set : Assignments) (missing : Missing) (rs : List Record) :
    List Criteria → List (List Operation) → Prop :=
  List.Forall₂ fun c reply => c.Decides rs ∧ Reply set missing c (rs.filter c.hits) reply

variable {τ : Type} [FileTransfer Replica τ] {options : RunOptions}

theorem turnsRun (live : options.dryRun = false) {finds done : List Criteria}
    {replies : List (List Operation)} {ys : List Record} (completed : Nat) (merged : Outcome)
    (tally : Tally) {s : Session Replica τ} (each : Planning set missing rs finds replies)
    (unaffected : Unaffected set missing (done ++ finds) rs)
    (at_ : AtTurn path (rs.map (turned set done) ++ ys) replies.flatten s.device)
    (spared : ∀ y ∈ ys, differing set y = .ok ∅ ∧ ∀ c ∈ finds, Spares set rs c y)
    (going : merged.failed = false) :
    ∃ outcome counted s', runFrom options (fun _ => false) completed merged tally
        (finds.map fun c => ensuring path set missing [c]) s = (.ok (outcome,counted),s') ∧
      outcome.failed = false ∧ s'.device.records path =
        rs.map (turned set (done ++ finds)) ++ (ys ++ news s.device.nextId replies.flatten) := by
  induction each generalizing done ys completed merged tally s with
  | nil =>
    refine ⟨merged,tally,s,rfl,going,?_⟩
    rw [at_.records,List.append_nil]
    exact congrArg _ (List.append_nil ys).symm
  | @cons c operations rest replies one later ih =>
    obtain ⟨decides,reply⟩ := one
    have undisturbed := unaffected.undisturbed done c rest rfl
    have alone : ∀ y ∈ ys, Spares set rs c y ∧ differing set y = .ok ∅ := fun y mem =>
      ⟨(spared y mem).2 c List.mem_cons_self,(spared y mem).1⟩
    obtain ⟨again,replied,lesser,left⟩ := replyAgain undisturbed alone at_.distinct reply
    rw [List.flatten_cons] at at_
    obtain ⟨outcome,m,ran,went,next,counted⟩ :=
      oneTurn live at_ (decidesAgain undisturbed alone decides) replied lesser
    rw [left,List.append_assoc] at next
    have onward : ∀ y ∈ ys ++ news s.device.nextId operations,
        differing set y = .ok ∅ ∧ ∀ c ∈ rest, Spares set rs c y := by
      intro y mem
      rcases List.mem_append.mp mem with mem | mem
      · exact ⟨(spared y mem).1,fun x hx => (spared y mem).2 x (List.mem_cons_of_mem _ hx)⟩
      · exact newSpared unaffected reply mem
    obtain ⟨last,total,s',finished,good,records⟩ := ih (completed + 1) (merged.merge outcome)
      (tally.record outcome) (by rwa [← List.append_cons]) next onward (by simp [Outcome.merge,going,went])
    refine ⟨last,total,s',?_,good,?_⟩
    · rw [List.map_cons,runFrom,if_neg (by simp),bindAfter ran]
      simp only [went,Bool.false_eq_true,if_false]
      exact finished
    · rw [records,List.flatten_cons,newsAppend,counted,← List.append_cons,List.append_assoc]

omit [FileTransfer Replica τ] in
theorem planningOnto {finds : List Criteria} {replies : List (List Operation)}
    (each : Planning set missing rs finds replies) :
    ∀ operation ∈ replies.flatten, Onto rs operation := by
  induction each with
  | nil => nofun
  | cons one later ih =>
    intro operation mem
    rcases List.mem_append.mp mem with mem | mem
    · exact replyOnto one.2 operation mem
    · exact ih operation mem

/-- An ensuring task without a position, whose finds are not affected by what the ones before them
write, leaves the facility as its finds do when each is a task of its own, one after the other. -/
theorem findsOneByOne (live : options.dryRun = false) {finds : List Criteria}
    {s s' : Session Replica τ} {outcome : Outcome} (sound : s.device.Sound)
    (unaffected : Unaffected set missing finds (s.device.records path))
    (h : runTask options (ensuring path set missing finds) s = (.ok outcome,s'))
    (succeeded : outcome.failed = false) (word : s'.device.nextId ≤ maxWord64) :
    ∃ merged tally after, runTasks options (fun _ => false)
        (finds.map fun c => ensuring path set missing [c]) s = (.ok (merged,tally),after) ∧
      merged.failed = false ∧ after.device.records path = s'.device.records path := by
  rcases facilityRun live h with ⟨e,-,rfl,-⟩ | ⟨plan,answer,n,planned,-,applied,last,ended⟩
  · cases succeeded
  cases answer with
  | error e => rw [ended] at succeeded; cases succeeded
  | ok done =>
    rw [last] at word ⊢
    obtain ⟨replies,same,each⟩ := ensureEachOk (writingOk (mapErrorOk.mp planned)).1
    rw [same] at applied
    cases finds with
    | nil =>
      cases each
      obtain ⟨-,rfl⟩ := pureOk.mp applied
      exact ⟨_,_,s,rfl,rfl,rfl⟩
    | cons c rest =>
      have items : s.device.HasItems path := by
        cases each with
        | cons one later => exact one.2.1
      have each : Planning set missing (s.device.records path) (c :: rest) replies :=
        each.imp fun _ _ told => told.2.2
      rcases appliedTrace applied with ⟨given,-,steps⟩ | ⟨_,_,_,_,_,_,-,-,-,said⟩
      · have ran := steps.carried.view (severalIf false)
        have distinct := sound.records path
        have free := fun n lower upper => sound.unused items (n := n) lower upper
        obtain ⟨records,-⟩ := View.onto word distinct free (planningOnto each) ran
        obtain ⟨spared,encodable⟩ := stepsSpared (severalIf false) (planningOnto each) steps
        have counted := runCounts ran
        have start : (s.device.records path).map (turned set []) ++ [] = s.device.records path := by
          rw [List.append_nil]
          exact List.map_id _
        have begun : AtTurn path ((s.device.records path).map (turned set []) ++ []) replies.flatten s.device :=
          ⟨by rw [start],items,by rw [start]; exact distinct,by rw [start]; exact free,
            counted ▸ word,spared,encodable⟩
        obtain ⟨merged,tally,after,finished,good,left⟩ :=
          turnsRun live 0 .unchanged .zero each unaffected begun (by simp) rfl
        have whole : ∀ r ∈ s.device.records path,
            changed replies.flatten (turned set [] r) = turned set ([] ++ c :: rest) r := fun r mem =>
          changedInTurns distinct unaffected (each.imp fun _ _ told => told.2) mem
        refine ⟨merged,tally,after,finished,good,?_⟩
        rw [left]
        refine .trans ?_ records.symm
        exact congrArg (· ++ _) (List.map_congr_left fun r mem => (whole r mem).symm)
      · cases said

end Turns

open scoped Pattern

def poolRemarks : List Criteria := [poolLine "lan",poolLine "wan"]

theorem findsOneByOnePools : ∃ outcome after merged tally last,
    poolRun (.ensure poolRemarks remark none .add) = (.ok outcome,after) ∧ outcome.failed = false ∧
    runTasks ⟨false,false⟩ (fun _ => false)
      (poolRemarks.map fun c => ensuring ⟨"/ip pool"⟩ remark .add [c])
      (⟨pools,none,Files.empty,[]⟩ : Session Replica RemoteFiles) = (.ok (merged,tally),last) ∧
    merged.failed = false ∧ last.device.records ⟨"/ip pool"⟩ = after.device.records ⟨"/ip pool"⟩ := by
  obtain ⟨outcome,after,ran,succeeded,word⟩ :=
    poolRan (.ensure poolRemarks remark none .add) (by decide +kernel)
  have named : ∀ c ∈ poolRemarks, ∃ name, c = poolLine name := by
    simp [poolRemarks]
  have concrete : ∀ c ∈ poolRemarks, c.Concrete := by
    intro c mem
    obtain ⟨name,rfl⟩ := named c mem
    exact (poolLinePlain name).concrete
  have apart : ∀ c ∈ poolRemarks, ∀ key, (c.get? key).isSome → remark.get? key = none := by
    intro c mem key has
    obtain ⟨name,rfl⟩ := named c mem
    obtain ⟨condition,there⟩ := Option.isSome_iff_exists.mp has
    cases List.mem_singleton.mp (Entries.getMem.mp there)
    rfl
  have differ : poolRemarks.Pairwise fun c later => ∃ key v w, c.get? key = some (.literal v) ∧
      later.get? key = some (.literal w) ∧ w.equal? v = some false := by
    refine List.pairwise_pair.mpr ⟨"name",.str "lan",.str "wan",rfl,rfl,by decide⟩
  have compared : poolRemarks.Pairwise fun c later => ∀ key v w, c.get? key = some (.literal v) →
      later.get? key = some (.literal w) → (w.equal? v).isSome := by
    refine List.pairwise_pair.mpr fun key v w first second => ?_
    cases List.mem_singleton.mp (Entries.getMem.mp first)
    cases List.mem_singleton.mp (Entries.getMem.mp second)
    decide
  have ran : runTask ⟨false,false⟩ (ensuring ⟨"/ip pool"⟩ remark .add poolRemarks)
      (⟨pools,none,Files.empty,[]⟩ : Session Replica RemoteFiles) = (.ok outcome,after) := ran
  obtain ⟨merged,tally,last,parts,good,same⟩ := findsOneByOne rfl poolsSound
    (.ofApart .add _ concrete rfl apart compared differ) ran succeeded word
  exact ⟨outcome,after,merged,tally,last,ran,succeeded,parts,good,same⟩

def ports : Replica :=
  ⟨Entries.ofList [("/interface ethernet",.items [⟨some "*1",Entries.ofList
    [("default-name",.str "ether1"),("comment",.str "uplink")]⟩])],2,[],0,none⟩

def portRemark (comment : String) : Criteria :=
  Entries.ofList [("default-name",.literal (.str "ether1")),("comment",.literal (.str comment))]

def ComesApart (d : Replica) (path : String) (set : Assignments) (finds : List Criteria) : Prop :=
  let s : Session Replica RemoteFiles := ⟨d,none,Files.empty,[]⟩
  let whole := runTask ⟨false,false⟩ (ensuring ⟨path⟩ set .add finds) s
  let apiece := runTasks ⟨false,false⟩ (fun _ => false) (finds.map fun c => ensuring ⟨path⟩ set .add [c]) s
  whole.1.toOption.any (!·.failed) = true ∧ apiece.1.toOption.any (!·.1.failed) = true ∧
    (whole.2.device.records ⟨path⟩).map Record.fields ≠ (apiece.2.device.records ⟨path⟩).map Record.fields

-- A pool is added twice; a pool is added beside the one that gets the name; a comment is set and not set back.
theorem findsSeeNoWrites : pools.Sound ∧ ports.Sound ∧
    ComesApart pools "/ip pool" ∅ [poolLine "wan",poolLine "wan"] ∧
    ComesApart pools "/ip pool" (Entries.ofList [("name",.value (.str "new"))])
      [poolLine "old",poolLine "new"] ∧
    ComesApart ports "/interface ethernet" ∅ [portRemark "spare",portRemark "uplink"] := by
  refine ⟨poolsSound,.ofEntries fun path rs mem => ?_,?_⟩
  · cases List.mem_singleton.mp mem
    decide
  · unfold ComesApart
    decide +kernel

end RouterReconciler

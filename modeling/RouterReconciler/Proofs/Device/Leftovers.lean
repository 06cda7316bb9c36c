import RouterReconciler.Proofs.Device.Failures
import RouterReconciler.Proofs.Device.Snapshots
import RouterReconciler.Proofs.Reconcile.Quiet

/-! What a request that fails leaves behind. No record is touched, but a write is in the journal as soon as
it is begun, and whatever looks for a record by its id makes the facility that it looks in. -/
namespace RouterReconciler
open Step Replica

namespace Replica
variable {α β : Type} {path : FacilityPath} {sought : Option FacilityPath} {d d' : Replica} {e : Error}

def visited (facilities : Entries Store) (path : FacilityPath) : Entries Store :=
  match facilities.get? path.text with
  | some _ => facilities
  | none => facilities.insert path.text (.items [])

theorem itemsVisits (path : FacilityPath) (d : Replica) :
    (items path d).2 = { d with facilities := visited d.facilities path } := by
  unfold items visited
  split <;> simp_all

theorem locateVisits {id : ItemId} {answer : Except Error (List Record × Nat)}
    (h : locate path id d = (answer,d')) : d' = { d with facilities := visited d.facilities path } := by
  have visits := itemsVisits path d
  cases answer with
  | ok found =>
    obtain ⟨rs,m,read,h⟩ := bindOk.mp h
    rw [read] at visits
    cases place : position? id rs with
    | none => simp only [place] at h; exact (failNotOk h).elim
    | some i =>
      simp only [place] at h
      rw [← (pureOk.mp h).2,← visits]
  | error e =>
    rcases bindError.mp h with h | ⟨rs,m,read,h⟩
    · rw [← visits,h]
    · rw [read] at visits
      cases place : position? id rs with
      | some i => simp only [place] at h; exact (pureError h).elim
      | none =>
        simp only [place] at h
        rw [← (failError.mp h).2,← visits]

def Leaves (sought : Option FacilityPath) (x : Access Replica α) : Prop :=
  ∀ d e d', x d = (.error e,d') →
    d'.facilities = sought.elim d.facilities (visited d.facilities) ∧ d'.journal = d.journal

namespace Leaves

theorem never {x : Access Replica α} (h : ∀ d e d', x d ≠ (.error e,d')) : Leaves sought x :=
  fun d e d' failed => (h d e d' failed).elim

theorem located {id : ItemId} {f : List Record × Nat → Access Replica α}
    (stays : ∀ found d e d', f found d = (.error e,d') → d' = d) : Leaves (some path) (locate path id >>= f) := by
  intro d e d' failed
  have visits : d' = { d with facilities := visited d.facilities path } := by
    rcases bindError.mp failed with failed | ⟨found,m,read,failed⟩
    · exact locateVisits failed
    · rw [stays found m e d' failed,locateVisits read]
  rw [visits]
  exact ⟨rfl,rfl⟩

theorem taking {f : ItemId → Access Replica α} (leaves : ∀ id, Leaves sought (f id)) :
    Leaves sought (takeId >>= f) := by
  intro d e d' failed
  rcases bindError.mp failed with failed | ⟨given,m,taken,failed⟩
  · cases failed
  · cases taken
    exact leaves (newId d.nextId) { d with nextId := d.nextId + 1 } e d' failed

end Leaves

theorem updateLeaves (id : ItemId) (f : Record → Record) : Leaves (some path) (update path id f) :=
  .located fun _ _ _ _ h => (setItemsNeverFails h).elim

theorem setSingletonLeaves (values : Assignments) : Leaves none (setSingleton path values) := by
  intro d e d' failed
  simp only [setSingleton] at failed
  split at failed <;> cases failed
  exact ⟨rfl,rfl⟩

end Replica

namespace Request

def sought? : Request → Option FacilityPath
  | .evaluate path (some _) _ | .add path _ (some _) | .remove path _ | .set path (some _) _
  | .move path _ _ | .setDisabled path _ _ => some path
  | _ => none

def isWrite : Request → Bool
  | .readOne _ | .read _ _ | .evaluate _ _ _ => false
  | _ => true

def values : Request → Assignments
  | .add _ values _ | .set _ _ values => values
  | _ => ∅

structure Begins (d : Replica) (r : Request) : Prop where
  write : r.isWrite = true
  encodable : checkEncodable r.values.toList = .ok ()
  spared : d.failAtWrite ≠ some d.writes

structure Opens (d : Replica) (r : Request) (path : FacilityPath) : Prop where
  sought : r.sought? = some path
  absent : d.facilities.get? path.text = none
  begins : r.isWrite = true → r.Begins d

inductive Failed (d d' : Replica) (r : Request) : Prop
  | begun (line : String) (begins : r.Begins d)
      (facilities : d'.facilities = r.sought?.elim d.facilities (visited d.facilities))
      (journal : d'.journal = d.journal ++ [line])
  | stopped (write : r.isWrite = true) (unbegun : ¬r.Begins d) (facilities : d'.facilities = d.facilities)
      (journal : d'.journal = d.journal)
  | reading (write : r.isWrite = false)
      (facilities : d'.facilities = r.sought?.elim d.facilities (visited d.facilities))
      (journal : d'.journal = d.journal)

section Ends
variable {α : Type} {r : Request} {d d' : Replica} {e : Error} {x : Access Replica α} {text : String}

theorem Failed.ofBegin (write : r.isWrite = true) (encodable : checkEncodable r.values.toList = .ok ())
    (leaves : Leaves r.sought? x) (failed : (beginWrite text >>= fun _ => x) d = (.error e,d')) :
    Failed d d' r := by
  by_cases injected : d.failAtWrite = some d.writes
  · have stop : beginWrite text d =
        (.error (.commandFailed text "failure: injected"),{ d with writes := d.writes + 1 }) := by
      simp only [beginWrite,injected,if_true]
    rw [bindFailed stop] at failed
    cases failed
    exact .stopped write (fun begins => begins.spared injected) rfl rfl
  · rcases bindError.mp failed with failed | ⟨_,m,begun,failed⟩
    · exact absurd (beginWriteFails failed).next injected
    · cases beginWriteOk begun
      obtain ⟨facilities,journal⟩ := leaves _ e d' failed
      exact .begun text ⟨write,encodable,injected⟩ facilities journal

theorem Failed.ofWrite (write : r.isWrite = true) (leaves : Leaves r.sought? x)
    (failed : ((liftM (checkEncodable r.values.toList) : Access Replica Unit) >>= fun _ =>
      beginWrite text >>= fun _ => x) d = (.error e,d')) : Failed d d' r := by
  rcases bindError.mp failed with failed | ⟨_,m,checked,failed⟩
  · obtain ⟨refused,rfl⟩ := liftError.mp failed
    refine .stopped write (fun begins => ?_) rfl rfl
    cases refused.symm.trans begins.encodable
  · obtain ⟨encodable,rfl⟩ := liftOk.mp checked
    exact .ofBegin write encodable leaves failed

theorem unansweredLift {β : Type} {e : Halt Error} {f : α → β}
    (failed : ((liftM x : Inquiry Replica α) >>= fun a => Pure.pure (f a)) d = (.error e,d')) :
    ∃ cause, x d = (.error cause,d') := by
  obtain ⟨cause,failed,-⟩ := liftStepError.mp (answerFails failed)
  exact ⟨cause,failed⟩

theorem Failed.ofQuiet {ε : Type} {x : Step ε Replica α} {e : ε} (write : r.isWrite = false)
    (nowhere : r.sought? = none) (quiet : Quiet x d) (failed : x d = (.error e,d')) : Failed d d' r := by
  cases quiet.state failed
  exact .reading write (by rw [nowhere]; rfl) rfl

theorem readOneStill (path : FacilityPath) (d : Replica) : Quiet (Replica.readOne path) d := by
  unfold Quiet Replica.readOne
  split <;> rfl

theorem performFailed {e : Halt Error} (failed : r.perform d = (.error e,d')) : Failed d d' r := by
  cases r with
  | readOne path =>
    obtain ⟨_,failed⟩ := unansweredLift failed
    exact .ofQuiet rfl rfl (readOneStill path d) failed
  | read path s =>
    refine .ofQuiet rfl rfl ?_ (answerFails failed)
    show (Replica.read path s d).2 = d
    unfold Replica.read
    split <;> rfl
  | evaluate path item expressions =>
    obtain ⟨e,failed⟩ := unansweredLift failed
    cases item with
    | none =>
      exact .ofQuiet rfl rfl (Keeps.quiet (.after (readOneStill path d).keeps fun _ => .lift _)) failed
    | some id =>
      have leaves : Leaves (some path) (Replica.evaluate path (some id) expressions) := by
        refine .located fun found d e d' h => ?_
        obtain ⟨rs,i⟩ := found
        cases there : rs[i]? with
        | none => simp only [there] at h; exact (failError.mp h).2.symm
        | some r => simp only [there] at h; exact (liftError.mp h).2.symm
      obtain ⟨facilities,journal⟩ := leaves d e d' failed
      exact .reading rfl facilities journal
  | add path values before =>
    obtain ⟨_,failed⟩ := unansweredLift failed
    refine .ofWrite rfl (.taking fun id => ?_) failed
    cases before with
    | none =>
      intro d e d' failed
      rcases bindError.mp failed with failed | ⟨rs,m,-,failed⟩
      · simp only [items] at failed
        split at failed <;> cases failed
        exact ⟨rfl,rfl⟩
      · exact absurd (answerFails failed) setItemsNeverFails
    | some other => exact .located fun _ _ _ _ h => absurd (answerFails h) setItemsNeverFails
  | remove path id =>
    obtain ⟨_,failed⟩ := unansweredLift failed
    exact .ofBegin rfl rfl (.located fun _ _ _ _ h => (setItemsNeverFails h).elim) failed
  | set path item values =>
    obtain ⟨_,failed⟩ := unansweredLift failed
    refine .ofWrite rfl ?_ failed
    cases item with
    | none => exact setSingletonLeaves values
    | some id => exact updateLeaves id _
  | move path id before =>
    obtain ⟨_,failed⟩ := unansweredLift failed
    refine .ofBegin rfl rfl (.located fun found d e d' h => ?_) failed
    obtain ⟨rs,i⟩ := found
    cases there : rs[i]? with
    | none => simp only [there] at h; exact (failError.mp h).2.symm
    | some record =>
      cases arranged : relocate rs i record before with
      | none => simp only [there,arranged] at h; exact (failError.mp h).2.symm
      | some moved => simp only [there,arranged] at h; exact (setItemsNeverFails h).elim
  | setDisabled path id disabled =>
    obtain ⟨_,failed⟩ := unansweredLift failed
    exact .ofBegin rfl rfl (updateLeaves id _) failed
  | run command =>
    obtain ⟨_,failed⟩ := unansweredLift failed
    exact .ofBegin rfl rfl (.never fun _ _ _ => pureError) failed

theorem visitedOpens (reached : r.isWrite = true → r.Begins d)
    (facilities : d'.facilities = r.sought?.elim d.facilities (visited d.facilities)) :
    (∀ path, r.Opens d path → d'.facilities = d.facilities.insert path.text (.items [])) ∧
    ((∀ path, ¬r.Opens d path) → d'.facilities = d.facilities) := by
  refine ⟨fun path opens => ?_,fun closed => ?_⟩
  · rw [facilities,opens.sought]
    simp only [Option.elim,visited,opens.absent]
  · rw [facilities]
    cases sought : r.sought? with
    | none => rfl
    | some path =>
      simp only [Option.elim,visited]
      split
      · rfl
      · exact absurd ⟨sought,‹_›,reached⟩ (closed path)

theorem Failed.opens (failed : Failed d d' r) :
    (∀ path, r.Opens d path → d'.facilities = d.facilities.insert path.text (.items [])) ∧
    ((∀ path, ¬r.Opens d path) → d'.facilities = d.facilities) := by
  cases failed with
  | begun line begins facilities => exact visitedOpens (fun _ => begins) facilities
  | stopped write unbegun facilities =>
    exact ⟨fun _ opens => absurd (opens.begins write) unbegun,fun _ => facilities⟩
  | reading write facilities => exact visitedOpens (fun writes => by rw [write] at writes; cases writes) facilities

theorem Failed.enters (failed : Failed d d' r) : (r.Begins d → ∃ line, d'.journal = d.journal ++ [line]) ∧
    (¬r.Begins d → d'.journal = d.journal) := by
  cases failed with
  | begun line begins _ journal => exact ⟨fun _ => ⟨line,journal⟩,absurd begins⟩
  | stopped _ unbegun _ journal => exact ⟨fun begins => absurd begins unbegun,fun _ => journal⟩
  | reading write _ journal =>
    refine ⟨fun begins => ?_,fun _ => journal⟩
    cases write.symm.trans begins.write

end Ends
end Request

theorem Replica.recordsVisited {d d' : Replica} {path : FacilityPath}
    (absent : d.facilities.get? path.text = none)
    (made : d'.facilities = d.facilities.insert path.text (.items [])) (other : FacilityPath) :
    d'.records other = d.records other := by
  have same : d'.records other =
      { d with facilities := d.facilities.insert path.text (.items []) }.records other := by
    simp only [Replica.records,made]
  rw [same,recordsInserted]
  split
  · rename_i same
    rw [same,Replica.records,absent]
  · rfl

/-- A request that fails changes no record. It makes a facility exactly if it comes as far as to look for a
record in one that is not there, and it leaves a line in the journal exactly if it is a write that has been
begun. -/
theorem failedLeaves {r : Request} {d d' : Replica} {e : Halt Error} (failed : r.perform d = (.error e,d')) :
    (∀ path, d'.records path = d.records path) ∧
    (∀ path, r.Opens d path → d'.facilities = d.facilities.insert path.text (.items [])) ∧
    (d'.facilities = d.facilities ↔ ∀ path, ¬r.Opens d path) ∧
    (r.Begins d → ∃ line, d'.journal = d.journal ++ [line]) ∧
    (d'.journal = d.journal ↔ ¬r.Begins d) := by
  have ended := Request.performFailed failed
  obtain ⟨opened,closed⟩ := ended.opens
  obtain ⟨entered,silent⟩ := ended.enters
  refine ⟨fun path => ?_,opened,⟨fun same path opens => ?_,closed⟩,entered,⟨fun same begins => ?_,silent⟩⟩
  · by_cases opens : ∃ made, r.Opens d made
    · obtain ⟨made,opens⟩ := opens
      exact Replica.recordsVisited opens.absent (opened made opens) path
    · simp only [Replica.records,closed fun made here => opens ⟨made,here⟩]
  · have there := congrArg (·.get? path.text) (same.symm.trans (opened path opens))
    simp [opens.absent] at there
  · obtain ⟨line,longer⟩ := entered begins
    have size := congrArg List.length (same.symm.trans longer)
    simp at size

theorem failedLeavesLan : ∃ e d', (Request.move ⟨"/ip pool"⟩ "*1" (some "*9")).perform lanReplica = (.error e,d') ∧
    (∀ path, d'.records path = lanReplica.records path) ∧ d'.facilities = lanReplica.facilities ∧
    ∃ line, d'.journal = lanReplica.journal ++ [line] := by
  have failed : (Request.move ⟨"/ip pool"⟩ "*1" (some "*9")).perform lanReplica = (.error _,_) := rfl
  obtain ⟨records,-,closed,entered,-⟩ := failedLeaves failed
  refine ⟨_,_,failed,records,closed.mpr fun path opens => ?_,entered ⟨rfl,rfl,by decide⟩⟩
  cases opens.sought
  exact absurd opens.absent (by decide)

-- A removal that finds nothing is in the journal, and an evaluation that finds nothing makes the facility a
-- list, so that it is no longer read as a singleton and stands in the snapshot.
theorem failuresLeaveTraces :
    (∃ e d', (Request.remove ⟨"/ip pool"⟩ "*9").perform lanReplica = (.error e,d') ∧
      lanReplica.journal = [] ∧ d'.journal = ["/ip pool remove *9"]) ∧
    ∃ e d', (Request.evaluate ⟨"/system identity"⟩ (some "*1") [("n","name")]).perform empty = (.error e,d') ∧
      (Request.readOne ⟨"/system identity"⟩).perform empty = (.ok (.record .empty),empty) ∧
      (∃ e, (Request.readOne ⟨"/system identity"⟩).perform d' = (.error e,d')) ∧
      d'.toSnapshot ≠ Replica.empty.toSnapshot :=
  ⟨⟨_,_,rfl,rfl,rfl⟩,_,_,rfl,rfl,⟨_,rfl⟩,by decide +kernel⟩

end RouterReconciler

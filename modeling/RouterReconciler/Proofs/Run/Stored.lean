import RouterReconciler.Proofs.Device.Contents
import RouterReconciler.Proofs.Reconcile.Founded
import RouterReconciler.Proofs.Reconcile.Quiet
import RouterReconciler.Proofs.Run.Live
import RouterReconciler.Proofs.Run.Moments
import RouterReconciler.Proofs.Value.Literals

/-! What a run stores. On a replica without a text that reads as a condition none is there at any later
moment of a run: a plan holds none, and the device itself takes none. -/
namespace RouterReconciler
open Step Session

def Record.strings (r : Record) : List String := r.fields.values.flatMap Value.strings

def Replica.strings (d : Replica) : List String :=
  d.facilities.values.flatMap fun store => store.records.flatMap Record.strings

def Assignment.strings : Assignment → List String
  | .value v => v.strings
  | .unset => []

def Operation.strings (operation : Operation) : List String :=
  operation.values.values.flatMap Assignment.strings

theorem Record.literalStrings (r : Record) :
    r.Each Value.Literal ↔ ∀ s ∈ r.strings, Condition.ofText s = .literal (.str s) := by
  simp only [Each,strings,get?,Entries.getMem,Entries.values,List.mem_flatMap,List.mem_map]
  constructor
  · rintro all s ⟨_,⟨⟨key,v⟩,there,rfl⟩,mem⟩
    exact all key v there s mem
  · exact fun all key v there s mem => all s ⟨v,⟨(key,v),there,rfl⟩,mem⟩

namespace Replica

def Literal : Nat → String → Store → Prop := OfRecords (fun _ => True) (Record.Each Value.Literal)

theorem literalStrings (d : Replica) :
    Stores 0 Literal d ↔ ∀ s ∈ d.strings, Condition.ofText s = .literal (.str s) := by
  simp only [strings,Entries.values,List.mem_flatMap,List.mem_map]
  constructor
  · rintro stores s ⟨_,⟨⟨path,store⟩,there,rfl⟩,r,inside,mem⟩
    have held := (stores.each path store (Entries.getMem.mpr there)).2 r inside
    exact r.literalStrings.mp held s mem
  · intro all
    refine ⟨Nat.zero_le _,fun path store there => ⟨trivial,fun r inside => ?_⟩⟩
    exact r.literalStrings.mpr fun s mem =>
      all s ⟨store,⟨(path,store),Entries.getMem.mp there,rfl⟩,r,inside,mem⟩

section Operations
variable {named : FacilityPath → Prop} {fits : Assignments → Prop} {Q : Nat → String → Store → Prop}

theorem performStores (lasting : Lasting named fits Q) (least : Nat) {f : Facility} (here : named f.path)
    (index : Nat) (added : AddedIds) {operation : Operation}
    (fit : checkEncodable operation.values.toList = .ok () → fits operation.values) :
    Keeps (Stores least Q) (perform f index added operation : Access Replica AddedIds) := by
  cases operation with
  | add values before =>
    refine .after (.lift _) fun place => .after ?_ fun _ => .pure _
    refine .after (.lift _) fun _ => ?_
    split
    · exact .fail _
    · exact .after (.lift _) fun _ => addStores lasting here fit
  | remove id =>
    exact .after (.after (.lift _) fun _ => removeStores lasting here id) fun _ => .pure _
  | set item values =>
    refine .after (.after (.lift _) fun _ => ?_) fun _ => .pure _
    exact .after (.lift _) fun _ => setStores lasting here fit
  | move item before =>
    refine .after (.lift _) fun id => .after (.lift _) fun place => .after ?_ fun _ => .pure _
    unfold Facility.move
    split
    · exact moveStores lasting here id place
    · exact .fail _
  | enable id =>
    exact .after (.after (.lift _) fun _ => setDisabledStores lasting here id false) fun _ => .pure _
  | disable id =>
    exact .after (.after (.lift _) fun _ => setDisabledStores lasting here id true) fun _ => .pure _

end Operations
end Replica

structure Session.Aside (σ τ : Type) [FileTransfer σ τ] : Prop where
  upload (path : String) (content : Option String) (remote : String) (s : σ × τ) :
    (FileTransfer.upload path content remote s).2.1 = s.1
  download (remote path : String) (s : σ × τ) : (FileTransfer.download remote path s).2.1 = s.1

theorem literalUpheld [PatternEngine] {τ : Type} [FileTransfer Replica τ] (aside : Aside Replica τ) :
    Upheld τ (Replica.Stores 0 Replica.Literal) where
  planned t d stores := by
    rw [planQuiet t d]
    exact stores
  performed f index added operation :=
    Replica.performStores (Replica.lastingEach fun _ => by rintro s ⟨⟩) 0 trivial index added
      fun encodable => Assignments.writableLiteral (Replica.encodableWritable encodable)
  commanded text := .after (Replica.beginWriteStores _) fun _ => .pure _
  uploaded path content remote s stores := by
    show Replica.Stores 0 Replica.Literal (FileTransfer.upload path content remote s).2.1
    rw [aside.upload path content remote s]
    exact stores
  downloaded remote path s stores := by
    show Replica.Stores 0 Replica.Literal (FileTransfer.download remote path s).2.1
    rw [aside.download remote path s]
    exact stores

/-- No plan holds a text that reads as a condition. A replica without one gets none from a run, whatever
the tasks are: not in between, not at its end, and not when it fails. -/
theorem conditionsNeverStored [PatternEngine] :
    (∀ {σ : Type} [Device σ] (t : FacilityTask) (d d' : σ) (plan : Plan), t.plan d = (.ok plan,d') →
      ∀ operation ∈ plan.operations, ∀ s ∈ operation.strings, Condition.ofText s = .literal (.str s)) ∧
    ∀ {τ : Type} [FileTransfer Replica τ], Aside Replica τ →
      ∀ (options : RunOptions) (stop : Nat → Bool) (tasks : List Task) (s : Session Replica τ),
        (∀ text ∈ s.device.strings, Value.isConditionShaped text = false) →
        ∀ d, (Passes options stop 0 tasks s d ∨ d = (runTasks options stop tasks s).2.device) →
          ∀ text ∈ d.strings, Condition.ofText text = .literal (.str text) := by
  constructor
  · intro σ _ t d d' plan planned operation mem s text
    have writable := t.planWritable planned operation mem
    simp only [Operation.strings,Entries.values,List.mem_flatMap,List.mem_map] at text
    obtain ⟨_,⟨⟨key,a⟩,there,rfl⟩,text⟩ := text
    cases a with
    | value v => exact Assignments.writableLiteral writable key v there s text
    | unset => cases text
  · intro τ _ aside options stop tasks s start d passes
    have stores : Replica.Stores 0 Replica.Literal s.device :=
      s.device.literalStrings.mpr fun text mem => (Condition.literalText text).mpr (start text mem)
    have passes : Passes options stop 0 tasks s d := passes.elim id fun last => last ▸ passesLast _ _
    exact d.literalStrings.mp ((literalUpheld aside).holds stores passes)

theorem remoteAside : Aside Replica RemoteFiles := ⟨fun _ _ _ _ => rfl,fun _ _ _ => rfl⟩

def halfway : Session Replica RemoteFiles := ⟨{ pools with failAtWrite := some 1 },none,Files.empty,[]⟩

def halfwayTask : FacilityTask := ⟨⟨"/ip pool"⟩,.present
  [Entries.ofList [("ranges",.literal (.list [.str "!a",.str "~"]))],poolLine "new"] false 1 .add⟩

open scoped Pattern

def halfwayRun : Except (Halt Empty) (Outcome × Tally) × Session Replica RemoteFiles :=
  runTasks ⟨false,false⟩ (fun _ => false) [.facility halfwayTask] halfway

theorem conditionsNeverStoredHalfway :
    (∃ plan d, halfwayTask.plan halfway.device = (.ok plan,d) ∧ plan.operations.length = 2 ∧
      ∀ operation ∈ plan.operations, ∀ s ∈ operation.strings,
        Condition.ofText s = .literal (.str s)) ∧
    halfwayRun.1.toOption.map (·.1.failed) = some true ∧ "~" ∈ halfwayRun.2.device.strings ∧
    ∀ text ∈ halfwayRun.2.device.strings, Condition.ofText text = .literal (.str text) := by
  have start : ∀ text ∈ halfway.device.strings, Value.isConditionShaped text = false := by
    decide +kernel
  have ran : halfwayRun.1.toOption.map (·.1.failed) = some true ∧ "~" ∈ halfwayRun.2.device.strings := by decide +kernel
  have made : ((halfwayTask.plan halfway.device).1.toOption.map fun plan =>
      plan.operations.length) = some 2 := by decide +kernel
  obtain ⟨plan,d,planned,two⟩ : ∃ plan d, halfwayTask.plan halfway.device = (.ok plan,d) ∧
      plan.operations.length = 2 := by
    rcases planned : halfwayTask.plan halfway.device with ⟨e | plan,d⟩
    · rw [planned] at made
      cases made
    · rw [planned] at made
      exact ⟨plan,d,rfl,Option.some.inj made⟩
  exact ⟨⟨plan,d,planned,two,conditionsNeverStored.1 halfwayTask halfway.device d plan planned⟩,
    ran.1,ran.2,conditionsNeverStored.2 remoteAside ⟨false,false⟩ (fun _ => false)
      [.facility halfwayTask] halfway start _ (.inr rfl)⟩

end RouterReconciler

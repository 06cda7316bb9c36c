import RouterReconciler.Proofs.Run.Changed
import RouterReconciler.Proofs.Run.Endings

/-! Setting what differs. Once it is set nothing differs any more, and with any less of it something still
would. So a singleton takes at most one write, and none when its task is planned again. -/
namespace RouterReconciler
open Step Replica Session Reconcile

structure Record.InLine (desired changes : Assignments) (r r' : Record) : Prop where
  id : r'.id = r.id
  settled : differing desired r' = .ok ∅
  kept : ∀ key, changes.get? key = none → r'.get? key = r.get? key
  alike : ∀ key, Option.Rel Value.Alike ((r.apply desired).get? key) (r'.get? key)

theorem Record.inLine {desired changes : Assignments} {r : Record} (compared : differing desired r = .ok changes) :
    r.InLine desired changes (r.apply changes) := by
  obtain ⟨comparable,rfl⟩ := differingOk.mp compared
  exact ⟨r.idApply _,Record.settled comparable,fun key none => by rw [getApply,none],settleAlike comparable⟩

section
variable {path : FacilityPath} {values : Assignments}

theorem configureQuiet [PatternEngine] {d : Replica} {r : Record} (stored : readOne path d = (.ok r,d))
    (settled : differing values r = .ok ∅) : FacilityTask.plan ⟨path,.configure values⟩ d =
      (.ok (.ofOperations ⟨path,.singleton⟩ []),d) := by
  have read : Facility.readOne ⟨path,.singleton⟩ d = (.ok r,d) := liftStepOk.mpr stored
  have made : configure ⟨path,.singleton⟩ values d = (.ok [],d) := by
    rw [configure,bindAfter read,bindAfter (liftOk.mpr ⟨settled,rfl⟩)]
    rfl
  exact mapErrorOk.mpr (writingDone made)

structure Configured [PatternEngine] (path : FacilityPath) (values changes : Assignments) (current : Record)
    (operations : List Operation) (d d' : Replica) : Prop where
  stood : readOne path d = (.ok current,d)
  compared : differing values current = .ok changes
  planned : FacilityTask.plan ⟨path,.configure values⟩ d = (.ok (.ofOperations ⟨path,.singleton⟩ operations),d)
  once : operations = [] ∨ operations = [.set none changes]
  entered : Entered operations.length d d'
  stands : readOne path d' = (.ok (current.apply changes),d')
  elsewhere : ∀ other, other ≠ path.text → d'.facilities.get? other = d.facilities.get? other
  again : FacilityTask.plan ⟨path,.configure values⟩ d' = (.ok (.ofOperations ⟨path,.singleton⟩ []),d')

theorem configured [PatternEngine] {τ : Type} [FileTransfer Replica τ] {options : RunOptions} {s s' : Session Replica τ}
    {outcome : Outcome} (live : options.dryRun = false)
    (ran : runTask options (.facility ⟨path,.configure values⟩) s = (.ok outcome,s'))
    (succeeded : outcome.failed = false) :
    ∃ current changes operations, Configured path values changes current operations s.device s'.device := by
  rcases facilityRun live ran with ⟨e,-,rfl,-⟩ | ⟨plan,answer,n,planned,-,applied,last,ended⟩
  · cases succeeded
  cases answer with
  | error e => cases ended; cases succeeded
  | ok done =>
    obtain ⟨made,whole⟩ := writingOk (mapErrorOk.mp planned)
    generalize plan.operations = operations at made whole applied
    subst whole
    obtain ⟨current,stood,changes,compared,written⟩ := configureEnds.mp made
    have stood : readOne path s.device = (.ok current,s.device) := liftStepOk.mp stood
    have stands : readOne path s'.device = (.ok (current.apply changes),s'.device) ∧
        ∀ other, other ≠ path.text → s'.device.facilities.get? other = s.device.facilities.get? other := by
      rw [last]
      rcases modificationOk written with ⟨rfl,quiet⟩ | ⟨rfl,-⟩
      · obtain ⟨-,rfl⟩ := pureOk.mp applied
        rw [Record.applyEmpty quiet]
        exact ⟨stood,fun _ _ => rfl⟩
      · obtain ⟨r,found,stored,elsewhere⟩ := setSingletonOk (facilitySetOk (appliedOne applied))
        cases stood.symm.trans found
        exact ⟨readStored stored,elsewhere⟩
    refine ⟨current,changes,operations,stood,compared,planned,(modificationOk written).imp And.left And.left,?_,
      stands.1,stands.2,configureQuiet stands.1 (Record.inLine compared).settled⟩
    rcases appliedTrace applied with ⟨given,-,steps⟩ | ⟨_,_,_,_,_,_,-,-,-,said⟩
    · rw [last]
      exact steps.entered
    · cases said

end

/-- Writing what differs brings a record in line, and no part of it would be enough; unless a value that is desired
cannot be compared with what the record holds, where comparing them breaks off. A live run that sets a singleton
and succeeds has made at most one write, and planned again has nothing to do. -/
theorem differencesSettle [PatternEngine] :
    (∀ (r : Record) (desired : Assignments),
      (r.Comparable desired → ∃ changes, differing desired r = .ok changes ∧
        r.InLine desired changes (r.apply changes) ∧
        ∀ fewer : Assignments, fewer.toList ⊆ changes.toList →
          differing desired (r.apply fewer) = .ok ∅ → changes.toList ⊆ fewer.toList) ∧
      (¬r.Comparable desired → differing desired r = .error .brokenOff)) ∧
    ∀ {τ : Type} [FileTransfer Replica τ] (path : FacilityPath) (values : Assignments) (options : RunOptions)
      (s s' : Session Replica τ) (outcome : Outcome), options.dryRun = false →
      runTask options (.facility ⟨path,.configure values⟩) s = (.ok outcome,s') → outcome.failed = false →
      ∃ current changes operations, Configured path values changes current operations s.device s'.device := by
  refine ⟨fun r desired => ⟨fun comparable => ?_,differingBreaks⟩,
    fun path values options s s' outcome => configured⟩
  have compared : differing desired r = .ok (due desired r) := differingOk.mpr ⟨comparable,rfl⟩
  refine ⟨_,compared,Record.inLine compared,fun fewer part => ?_⟩
  exact differingLeast compared (List.Subset.trans part List.filter_sublist.subset)

def resolver : Replica :=
  ⟨Entries.ofList [("/ip dns",.singleton ⟨none,Entries.ofList [("servers",.str "1.1.1.1,9.9.9.9"),
    ("cache-max-ttl",.str "7d"),("allow-remote-requests",.str "yes")]⟩)],1,[],0,none⟩

def resolverValues : Assignments :=
  Entries.ofList [("servers",.value (.list [.str "1.1.1.1",.str "9.9.9.9"])),
    ("cache-max-ttl",.value (.duration 604800)),("allow-remote-requests",.value (.bool false))]

open scoped Pattern

theorem differencesSettleResolver : ∃ outcome after current changes operations,
    runTask ⟨false,false⟩ (.facility ⟨⟨"/ip dns"⟩,.configure resolverValues⟩)
      (⟨resolver,none,Files.empty,[]⟩ : Session Replica RemoteFiles) = (.ok outcome,after) ∧
    outcome.failed = false ∧
    Configured ⟨"/ip dns"⟩ resolverValues changes current operations resolver after.device ∧
    after.device.writes = 1 := by
  have checked : (runTask ⟨false,false⟩ (.facility ⟨⟨"/ip dns"⟩,.configure resolverValues⟩)
      (⟨resolver,none,Files.empty,[]⟩ : Session Replica RemoteFiles)).1.toOption.any (!·.failed) = true := by
    decide +kernel
  obtain ⟨outcome,after,ran,unfailed⟩ := runAnswers checked
  have succeeded : outcome.failed = false := by simpa using unfailed
  obtain ⟨current,changes,operations,done⟩ := differencesSettle.2 ⟨"/ip dns"⟩ resolverValues ⟨false,false⟩
    _ _ outcome rfl ran succeeded
  have once : (runTask ⟨false,false⟩ (.facility ⟨⟨"/ip dns"⟩,.configure resolverValues⟩)
      (⟨resolver,none,Files.empty,[]⟩ : Session Replica RemoteFiles)).2.device.writes = 1 := by decide +kernel
  rw [ran] at once
  exact ⟨outcome,after,current,changes,operations,ran,succeeded,done,once⟩

theorem differingUnsettled : differing (Entries.ofList [("lease-time",.value (.duration 1))])
    ⟨none,Entries.ofList [("lease-time",.str "é00:00:01")]⟩ = .error .brokenOff := by decide +kernel

end RouterReconciler

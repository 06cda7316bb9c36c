import RouterReconciler.Proofs.TaskFile.Sources

/-! Which parameters of an entry its task depends on. A parameter that is given is used or refused, with
three exceptions: a command or a transfer passes over `keys`, `index_by` and `position`, lines pass over
`iterate`, and modes that name no position pass over `position` where they do not refuse it. -/
namespace RouterReconciler.TaskFile

inductive Parameter where
  | find | iterate | lines | ordered | keys | set | position
  | get | getList | getExpr | getExprList | indexBy

namespace Parameter

def Value : Parameter → Type
  | find | set => Entries Json
  | iterate => Entries (List Json)
  | lines | ordered => List (Entries Json)
  | keys => List String
  | position => Nat
  | get | getList | getExpr | getExprList => FieldsEntry
  | indexBy => String

def read : (p : Parameter) → Json → Option p.Value
  | find | set => Json.entries?
  | iterate => axesOfJson?
  | lines | ordered => Json.listOf? Json.entries?
  | keys => Json.listOf? Json.text?
  | position => Json.natural? Text.maxWord64
  | get | getList | getExpr | getExprList => FieldsEntry.ofJson?
  | indexBy => Json.text?

end Parameter

namespace Entry

def given (e : Entry) : (p : Parameter) → Option p.Value
  | .find => e.find
  | .iterate => e.iterate
  | .lines => e.lines
  | .ordered => e.ordered
  | .keys => e.keys
  | .set => e.set
  | .position => e.position
  | .get => e.get
  | .getList => e.getList
  | .getExpr => e.getExpr
  | .getExprList => e.getExprList
  | .indexBy => e.indexBy

def giving (e : Entry) : (p : Parameter) → p.Value → Entry
  | .find,table => { e with find := some table }
  | .iterate,table => { e with iterate := some table }
  | .lines,rows => { e with lines := some rows }
  | .ordered,rows => { e with ordered := some rows }
  | .keys,keys => { e with keys := some keys }
  | .set,table => { e with set := some table }
  | .position,n => { e with position := some n }
  | .get,fields => { e with get := some fields }
  | .getList,fields => { e with getList := some fields }
  | .getExpr,fields => { e with getExpr := some fields }
  | .getExprList,fields => { e with getExprList := some fields }
  | .indexBy,raw => { e with indexBy := some raw }

theorem givingGiven {e : Entry} {p : Parameter} {v : p.Value} (h : e.given p = some v) :
    e.giving p v = e := by
  cases p <;> cases e <;> cases h <;> rfl

end Entry

def Parameter.overlooked (e : Entry) (task : Task) : Parameter → Prop
  | .keys | .indexBy => task.mode? = none
  | .iterate => (e.lines.isSome || e.ordered.isSome) = true
  | .position => task.mode?.bind Mode.position? = none
  | _ => False

def Entry.leadsElsewhere (resolve : String → String) (os : Generation) (e : Entry) (task : Task) : Prop :=
  ∀ made, build resolve os e = .ok made → ∃ t, made = some t ∧ t ≠ task

/-! Values that no task comes from. -/

theorem sortedSingle {α : Type} (key : String) (value : α) :
    (Entries.ofList [(key,value)]).sorted = Entries.ofList [(key,value)] := by
  simp [Entries.sorted,Entries.ofList,Entries.insert,Entries.empty,Entries.put]

theorem entriesOfSingle (key : String) (j : Json) :
    Json.entriesOf [(key,j)] = Entries.ofList [(key,j.finite)] := sortedSingle key j.finite

theorem criteriaRefused : ∃ j table, Json.entries? j = some table ∧ ∀ find, criteriaOf table ≠ .ok find := by
  have refused : criteriaOf (Json.entriesOf [(rawKey,.bool true)]) =
      .error (.badValue rawKey "raw filter must be a string") := by rw [entriesOfSingle]; rfl
  exact ⟨.table [(rawKey,.bool true)],_,rfl,by simp [refused]⟩

theorem rowsRefused : ∃ j rows, Json.listOf? Json.entries? j = some rows ∧
    ∀ lines, criteriaOfEach rows ≠ .ok lines := by
  obtain ⟨j,table,read,refused⟩ := criteriaRefused
  refine ⟨.list [j],[table],by simp [Json.listOf?,Json.each?,read],?_⟩
  intro lines readLines
  obtain ⟨line,readLine,-⟩ := exceptBindOk.mp readLines
  exact refused line readLine

theorem axesRefused : ∃ j table, axesOfJson? j = some table ∧ ∀ axes, axesOf table ≠ .ok axes := by
  have refused : axesOf (Entries.ofList [("vlan",[Json.null.finite])]).sorted =
      .error (.badValue "vlan" "iterate values cannot be null") := by rw [sortedSingle]; rfl
  exact ⟨.table [("vlan",.list [.null])],_,rfl,by simp [refused]⟩

theorem assignmentsRefused : ∃ j table, Json.entries? j = some table ∧
    ∀ values, assignmentsOf table ≠ .ok values := by
  have refused : assignmentsOf (Json.entriesOf [("comment",.null)]) =
      .error (.badValue "comment" "set needs a value") := by rw [entriesOfSingle]; rfl
  exact ⟨.table [("comment",.null)],_,rfl,by simp [refused]⟩

theorem textsRead (texts : List String) : Json.each? Json.text? (texts.map .str) = some texts := by
  induction texts with
  | nil => rfl
  | cons text rest ih => simp [Json.each?,Json.text?,ih]

section
variable {resolve : String → String} {os : Generation} {e : Entry} {task : Task}

theorem refusedOf (shared : e.hasFacilityParameters = true)
    (unmade : ∀ mode, Taken e mode → FacilityTask.fault? mode ≠ none) :
    build resolve os e ≠ .ok (some task) := by
  intro built
  cases (buildOk.mp built).2 with
  | special wanted made =>
    rw [(buildSpecialUnshared made).1] at shared
    cases shared
  | facility unwanted given resolved read made sound => exact unmade _ (buildModeTaken made) sound

theorem nothingToGet (source : Source) (many : Bool) (asked : ⟨source,many,.names []⟩ ∈ e.requests) :
    build resolve os e ≠ .ok (some task) := by
  refine refusedOf ?_ fun mode taken => ?_
  · cases requests : e.requests with
    | nil => rw [requests] at asked; cases asked
    | cons => simp [Entry.hasFacilityParameters,requests]
  · obtain ⟨x,rfl,pairs⟩ := taken.fields _ asked
    have none : x.fields = [] := by simpa [FieldsEntry.pairs] using pairs.symm
    simp [FacilityTask.fault?,FacilityTask.partFault?,Mode.position?,FacilityTask.contentFault?,
      FacilityTask.extractionFault?,none]

theorem facilityTaken {t : FacilityTask} (built : build resolve os e = .ok (some (.facility t))) :
    Taken e t.mode ∧ FacilityTask.fault? t.mode = none := by
  cases (buildOk.mp built).2 with
  | special wanted made => cases (buildSpecialUnshared made).2
  | facility unwanted given resolved read made sound => exact ⟨buildModeTaken made,sound⟩

theorem positionSound {mode : Mode} (sound : FacilityTask.fault? mode = none) : mode.position? ≠ some 0 := by
  intro zero
  unfold FacilityTask.fault? at sound
  split at sound
  · cases sound
  · simp [zero] at sound

theorem facilityOfMode (h : task.mode? ≠ none) : ∃ t, task = .facility t := by
  cases task with
  | facility t => exact ⟨t,rfl⟩
  | command | put | fetch => exact absurd rfl h

theorem otherShows {p : Parameter} {v : p.Value} (built : build resolve os e = .ok (some task))
    (h : e.given p = some v) (used : ¬ p.overlooked e task) :
    ∃ j other, p.read j = some other ∧ build resolve os (e.giving p other) ≠ .ok (some task) := by
  cases p with
  | find =>
    obtain ⟨j,table,read,refused⟩ := criteriaRefused
    refine ⟨j,table,read,refusedOf (by simp [Entry.hasFacilityParameters,Entry.giving]) fun mode taken => ?_⟩
    obtain ⟨find,readFind⟩ := taken.find table rfl
    exact absurd readFind (refused find)
  | iterate =>
    obtain ⟨j,table,read,refused⟩ := axesRefused
    refine ⟨j,table,read,refusedOf (by simp [Entry.hasFacilityParameters,Entry.giving]) fun mode taken => ?_⟩
    obtain ⟨axes,readAxes⟩ := taken.iterate table rfl (Bool.eq_false_iff.mpr used)
    exact absurd readAxes (refused axes)
  | lines =>
    obtain ⟨j,rows,read,refused⟩ := rowsRefused
    refine ⟨j,rows,read,refusedOf (by simp [Entry.hasFacilityParameters,Entry.giving]) fun mode taken => ?_⟩
    obtain ⟨lines,readLines⟩ := taken.lines rows rfl
    exact absurd readLines (refused lines)
  | ordered =>
    obtain ⟨j,rows,read,refused⟩ := rowsRefused
    refine ⟨j,rows,read,refusedOf (by simp [Entry.hasFacilityParameters,Entry.giving]) fun mode taken => ?_⟩
    obtain ⟨lines,readLines⟩ := taken.ordered rows rfl
    exact absurd readLines (refused lines)
  | set =>
    obtain ⟨j,table,read,refused⟩ := assignmentsRefused
    refine ⟨j,table,read,refusedOf (by simp [Entry.hasFacilityParameters,Entry.giving]) fun mode taken => ?_⟩
    obtain ⟨values,written⟩ := taken.set table rfl
    exact absurd written (refused values)
  | get => exact ⟨.list [],.names [],rfl,nothingToGet .fields false (by simp [Entry.requests,Entry.giving])⟩
  | getList =>
    exact ⟨.list [],.names [],rfl,nothingToGet .fields true (by simp [Entry.requests,Entry.giving])⟩
  | getExpr =>
    exact ⟨.list [],.names [],rfl,nothingToGet .expressions false (by simp [Entry.requests,Entry.giving])⟩
  | getExprList =>
    exact ⟨.list [],.names [],rfl,nothingToGet .expressions true (by simp [Entry.requests,Entry.giving])⟩
  | keys =>
    obtain ⟨t,rfl⟩ := facilityOfMode used
    obtain ⟨lines,ordered,position,mode⟩ := (facilityTaken built).1.keys v h
    -- one key more than those that the lines are identified by
    refine ⟨.list (("" :: identityKeys (some v) lines).map .str),"" :: identityKeys (some v) lines,
      textsRead _,fun again => ?_⟩
    obtain ⟨lines',ordered',position',mode'⟩ := (facilityTaken again).1.keys _ rfl
    have longer := (Mode.adjust.inj (mode.symm.trans mode')).2.1
    simpa [identityKeys] using congrArg List.length longer
  | position =>
    have placed : task.mode?.bind Mode.position? ≠ none := used
    obtain ⟨t,rfl⟩ := facilityOfMode (fun none => placed (by rw [none]; rfl))
    have read : Json.natural? Text.maxWord64 (.number (.whole 0)) = some 0 := by decide
    refine ⟨.number (.whole 0),(0 : Nat),read,fun again => ?_⟩
    obtain ⟨taken,sound⟩ := facilityTaken again
    exact (taken.position 0 rfl).elim (positionSound sound) placed
  | indexBy =>
    obtain ⟨t,rfl⟩ := facilityOfMode used
    obtain ⟨x,mode,indexed⟩ := (facilityTaken built).1.indexBy v h
    have ⟨other,different⟩ : ∃ other, IndexBy.parse other ≠ IndexBy.parse v := by
      by_cases same : IndexBy.parse "a" = IndexBy.parse v
      · exact ⟨"b",same ▸ by decide⟩
      · exact ⟨"a",same⟩
    refine ⟨.str other,other,rfl,fun again => ?_⟩
    obtain ⟨x',mode',indexed'⟩ := (facilityTaken again).1.indexBy other rfl
    obtain rfl := Mode.extract.inj (mode.symm.trans mode')
    exact different (Option.some.inj (indexed'.symm.trans indexed))

/-! Where a parameter is passed over, every value of it gives the same task. -/

theorem linesModeOfUnplaced {state : DesiredState} {keys : Option (List String)} {lines : List Criteria}
    {ordered : Bool} {m : Nat} {mode : Mode} (h : linesModeOf state keys lines ordered m = .ok mode)
    (unplaced : mode.position? = none) (n : Nat) : linesModeOf state keys lines ordered n = .ok mode := by
  cases state <;> cases h
  case findOnly => cases ordered <;> first | rfl | cases unplaced
  all_goals first | rfl | cases unplaced

theorem buildModeUnplaced {m : Nat} {mode : Mode} (given : e.position = some m)
    (h : buildMode e = .ok mode) (unplaced : mode.position? = none) (n : Nat) :
    buildMode (e.giving .position n) = .ok mode := by
  obtain ⟨state,parsed,⟨single,indexed,keyed,placed⟩,source⟩ := buildModeSource.mp h
  have still : e.iterate.isSome ≠ true := fun varied => by simp [placed varied] at given
  refine buildModeSource.mpr ⟨state,parsed,⟨single,indexed,keyed,fun varied => absurd varied still⟩,?_⟩
  cases source with
  | extracted asked made => simp [(extractionModeOk made).1.2] at given
  | listed unasked some made =>
    refine .listed unasked some ?_
    obtain ⟨rows,ordered,listed⟩ := listedOk made
    obtain ⟨apart,needed,lines,readLines,made⟩ := (linesModeOk listed).mp made
    have listed' : Listed (e.giving .position n) rows ordered := by
      cases listed with
      | lines given alone => exact .lines given alone
      | ordered given alone => exact .ordered given alone
    exact (linesModeOk listed').mpr ⟨apart,fun _ => needed (by simp [given]),lines,readLines,
      linesModeOfUnplaced made unplaced n⟩
  | found unasked unlisted some made =>
    refine .found unasked unlisted some ?_
    obtain ⟨finds,readFinds,source⟩ := findModeOk.mp made
    refine findModeOk.mpr ⟨finds,readFinds,?_⟩
    cases source with
    | ensure | findOnly => cases given.symm.trans unplaced
    | absent unset free => cases given.symm.trans free
    | enabled unset => exact .enabled unset
    | disabled unset => exact .disabled unset
    | count unset alone => exact .count unset alone
    | move => cases unplaced
  | single unasked unlisted unsought made => exact .single unasked unlisted unsought made

theorem buildModeListed {axes : Entries (List Json)} {mode : Mode} (given : e.iterate = some axes)
    (listed : (e.lines.isSome || e.ordered.isSome) = true) (h : buildMode e = .ok mode)
    (other : Entries (List Json)) : buildMode (e.giving .iterate other) = .ok mode := by
  obtain ⟨state,parsed,⟨single,indexed,keyed,placed⟩,source⟩ := buildModeSource.mp h
  refine buildModeSource.mpr ⟨state,parsed,⟨single,indexed,keyed,fun _ => placed (by simp [given])⟩,?_⟩
  cases source with
  | extracted asked made => simp [(extractionModeOk made).2.1.2.2] at given
  | listed unasked some made => exact .listed unasked some made
  | found unasked unlisted => simp [listed] at unlisted
  | single unasked unlisted => simp [listed] at unlisted

theorem overlookedUnread {p : Parameter} {v : p.Value} (built : build resolve os e = .ok (some task))
    (h : e.given p = some v) (passed : p.overlooked e task) (other : p.Value) :
    build resolve os (e.giving p other) = .ok (some task) := by
  obtain ⟨here,source⟩ := buildOk.mp built
  cases p with
  | keys | indexBy =>
    refine buildOk.mpr ⟨here,?_⟩
    cases source with
    | special wanted made => exact .special wanted made
    | facility => cases passed
  | position =>
    refine buildOk.mpr ⟨here,?_⟩
    cases source with
    | special wanted made => exact .special wanted made
    | facility unwanted given resolved read made sound =>
      exact .facility unwanted given resolved read (buildModeUnplaced h made passed other) sound
  | iterate =>
    refine buildOk.mpr ⟨here,?_⟩
    cases source with
    | special wanted made =>
      have varied : e.iterate.isSome = true := Option.isSome_of_mem h
      have unshared := (buildSpecialUnshared made).1
      simp [Entry.hasFacilityParameters,varied] at unshared
    | facility unwanted given resolved read made sound =>
      exact .facility unwanted given resolved read (buildModeListed h passed made other) sound
  | _ => cases passed

-- whether an entry is for the generation at all does not depend on these parameters
theorem leadsElsewhereOf {p : Parameter} {other : p.Value} (built : build resolve os e = .ok (some task))
    (differs : build resolve os (e.giving p other) ≠ .ok (some task)) :
    (e.giving p other).leadsElsewhere resolve os task := by
  intro made again
  cases made with
  | some t => exact ⟨t,rfl,fun same => differs (same ▸ again)⟩
  | none =>
    have same : (e.giving p other).os = e.os ∧ (e.giving p other).specialCount = e.specialCount ∧
        (e.giving p other).path = e.path := by cases p <;> exact ⟨rfl,rfl,rfl⟩
    obtain ⟨here,source⟩ := buildOk.mp built
    rcases buildNoneOk again with elsewhere | ⟨unwanted,path,given,unresolved⟩
    · rw [same.1,here] at elsewhere
      cases elsewhere
    · cases source with
      | special wanted made => omega
      | facility _ given' resolved =>
        rw [same.2.2,given'] at given
        cases given
        cases unresolved.symm.trans resolved

/-- Some other value of a given parameter, one that a file can hold, leads to another task or to a fault,
unless the parameter is passed over; then none does. -/
theorem givenUsedUnlessOverlooked {p : Parameter} {v : p.Value}
    (built : build resolve os e = .ok (some task)) (h : e.given p = some v) :
    (∃ j other, p.read j = some other ∧ other ≠ v ∧ (e.giving p other).leadsElsewhere resolve os task) ↔
      ¬ p.overlooked e task := by
  constructor
  · rintro ⟨j,other,-,-,elsewhere⟩ passed
    obtain ⟨t,same,different⟩ := elsewhere _ (overlookedUnread built h passed other)
    exact different (Option.some.inj same).symm
  · intro used
    obtain ⟨j,other,read,differs⟩ := otherShows built h used
    refine ⟨j,other,read,?_,leadsElsewhereOf built differs⟩
    rintro rfl
    rw [Entry.givingGiven h] at differs
    exact differs built

end

def Entry.blank : Entry :=
  ⟨none,none,none,none,none,none,none,none,none,none,none,none,none,none,none,none,none,none,none⟩

def lanMoved : Entry := { Entry.blank with
  path := some (.plain "/ip pool")
  state := some "move-only"
  find := some (Entries.ofList [("name",.str "lan")])
  position := some 2 }

theorem lanPositionUsed : ∃ task, build id .v7 lanMoved = .ok (some task) ∧
    lanMoved.given .position = some (2 : Nat) ∧ ∃ j other, Parameter.position.read j = some other ∧
      other ≠ (2 : Nat) ∧ (lanMoved.giving .position other).leadsElsewhere id .v7 task := by
  have built : build id .v7 lanMoved =
      .ok (some (.facility ⟨⟨"/ip pool"⟩,.move (Entries.ofList [("name",.literal (.str "lan"))]) 2 .fail⟩)) := rfl
  refine ⟨_,built,rfl,(givenUsedUnlessOverlooked built rfl).mpr ?_⟩
  rintro ⟨⟩

def Parameter.ignoredIn (e : Entry) (p : Parameter) : Prop := (e.given p).isSome = true ∧
  ∃ task, build id .v7 e = .ok (some task) ∧ ∀ other, build id .v7 (e.giving p other) = .ok (some task)

def rebooting : Entry := { Entry.blank with
  command := some "/system reboot"
  keys := some ["name"]
  indexBy := some "name"
  position := some 2 }

def lanDisabled : Entry := { lanMoved with state := some "disabled" }

def lanListed : Entry := { Entry.blank with
  path := some (.plain "/ip pool")
  lines := some [Entries.ofList [("name",.str "lan")]]
  iterate := some (Entries.ofList [("name",[.str "guest"])]) }

def identitySet : Entry := { Entry.blank with
  path := some (.plain "/system identity")
  set := some (Entries.ofList [("name",.str "gw")])
  position := some 2 }

-- a command with what only a facility can use, a state and a singleton without a place, and lines
theorem givenParametersIgnored : Parameter.keys.ignoredIn rebooting ∧ Parameter.indexBy.ignoredIn rebooting ∧
    Parameter.position.ignoredIn rebooting ∧ Parameter.position.ignoredIn lanDisabled ∧
      Parameter.position.ignoredIn identitySet ∧ Parameter.iterate.ignoredIn lanListed := by
  have reboot : build id .v7 rebooting = .ok (some (.command "/system reboot")) := rfl
  have disabled : build id .v7 lanDisabled = .ok (some (.facility ⟨⟨"/ip pool"⟩,
      .toggle [Entries.ofList [("name",.literal (.str "lan"))]] false⟩)) := rfl
  have identity : build id .v7 identitySet = .ok (some (.facility ⟨⟨"/system identity"⟩,
      .configure (Entries.ofList [("name",.value (.str "gw"))])⟩)) := rfl
  have listed : build id .v7 lanListed = .ok (some (.facility ⟨⟨"/ip pool"⟩,
      .present [Entries.ofList [("name",.literal (.str "lan"))]] false 1 .add⟩)) := rfl
  exact ⟨⟨rfl,_,reboot,overlookedUnread reboot rfl rfl⟩,⟨rfl,_,reboot,overlookedUnread reboot rfl rfl⟩,
    ⟨rfl,_,reboot,overlookedUnread reboot rfl rfl⟩,⟨rfl,_,disabled,overlookedUnread disabled rfl rfl⟩,
    ⟨rfl,_,identity,overlookedUnread identity rfl rfl⟩,⟨rfl,_,listed,overlookedUnread listed rfl rfl⟩⟩

end RouterReconciler.TaskFile

import RouterReconciler.Device.Access
import RouterReconciler.TaskFile.Build

/-! What the task of an entry is built from. Each builder gives a mode exactly if the parameters that it
reads can be read and those that it refuses are absent. -/
namespace RouterReconciler

def Task.mode? : Task → Option Mode
  | .facility t => some t.mode
  | _ => none

namespace TaskFile

theorem refuseIfOk {condition : Bool} {message : String} {u : Unit} :
    refuseIf condition message = .ok u ↔ condition = false := by
  cases condition <;> simp [refuseIf]

theorem exceptMapOk {ε α β : Type} {x : Except ε α} {f : α → β} {b : β} :
    x.map f = .ok b ↔ ∃ a, x = .ok a ∧ f a = b := by
  cases x <;> simp [Except.map]

theorem readOptionalOk {α β : Type} {read : α → Except Fault β} {a : α} {b : Option β}
    (h : readOptional read (some a) = .ok b) : ∃ c, read a = .ok c := by
  obtain ⟨c,hr,-⟩ := exceptMapOk.mp h
  exact ⟨c,hr⟩

theorem asFaultOk {α : Type} {x : Except Error α} {a : α} : asFault x = .ok a ↔ x = .ok a := by
  cases x <;> simp [asFault]

theorem makeOk {path : FacilityPath} {mode : Mode} {t : FacilityTask} :
    FacilityTask.make path mode = .ok t ↔ FacilityTask.fault? mode = none ∧ t = ⟨path,mode⟩ := by
  unfold FacilityTask.make
  cases FacilityTask.fault? mode <;> simp [eq_comm]

structure Combined (e : Entry) (state : DesiredState) : Prop where
  single : e.requests.length ≤ 1
  indexed : e.indexBy.isSome = true → e.requests ≠ []
  keyed : e.keys.isSome = true → state = .adjust
  placed : e.iterate.isSome = true → e.position = none

inductive ModeSource (e : Entry) (state : DesiredState) (mode : Mode) : Prop where
  | extracted {request rest} (asked : e.requests = request :: rest)
      (made : extractionMode e state request = .ok mode)
  | listed (unasked : e.requests = []) (given : (e.lines.isSome || e.ordered.isSome) = true)
      (made : linesMode e state = .ok mode)
  | found (unasked : e.requests = []) (unlisted : (e.lines.isSome || e.ordered.isSome) = false)
      (given : (e.find.isSome || e.iterate.isSome) = true) (made : findMode e state = .ok mode)
  | single (unasked : e.requests = []) (unlisted : (e.lines.isSome || e.ordered.isSome) = false)
      (unsought : (e.find.isSome || e.iterate.isSome) = false) (made : singletonMode e state = .ok mode)

theorem buildModeSource {e : Entry} {mode : Mode} : buildMode e = .ok mode ↔
    ∃ state, DesiredState.parse (e.state.getD "present") = .ok state ∧ Combined e state ∧
      ModeSource e state mode := by
  simp only [buildMode,exceptBindOk,refuseIfOk,exists_const]
  refine exists_congr fun state => and_congr_right fun _ => ?_
  constructor
  · rintro ⟨single,indexed,keyed,placed,made⟩
    refine ⟨⟨?_,?_,?_,?_⟩,?_⟩
    · simpa using single
    · intro given none
      simp [given,none] at indexed
    · intro given
      simpa [given] using keyed
    · intro given
      simpa [given] using placed
    · split at made
      · rename_i asked
        exact .extracted asked made
      · rename_i unasked
        split at made
        · exact .listed unasked ‹_› made
        · rename_i unlisted
          have unlisted := Bool.eq_false_iff.mpr unlisted
          split at made
          · exact .found unasked unlisted ‹_› made
          · exact .single unasked unlisted (Bool.eq_false_iff.mpr ‹_›) made
  · rintro ⟨⟨single,indexed,keyed,placed⟩,source⟩
    refine ⟨by simpa using single,?_,?_,?_,?_⟩
    · cases given : e.indexBy.isSome with
      | false => rfl
      | true => simpa [given] using indexed given
    · cases given : e.keys.isSome with
      | false => rfl
      | true => simp [keyed given]
    · cases given : e.iterate.isSome with
      | false => rfl
      | true => simp [placed given]
    · cases source with
      | extracted asked made => rw [asked]; exact made
      | listed unasked given made => simp only [unasked,given,if_true]; exact made
      | found unasked unlisted given made => simpa [unasked,unlisted,given] using made
      | single unasked unlisted unsought made => simpa [unasked,unlisted,unsought] using made

theorem extractionModeOk {e : Entry} {state : DesiredState} {request : Request} {mode : Mode}
    (h : extractionMode e state request = .ok mode) :
    (e.set = none ∧ e.position = none) ∧ (e.lines = none ∧ e.ordered = none ∧ e.iterate = none) ∧
      state.allowsExtraction = true ∧ (∃ find, readOptional criteriaOf e.find = .ok find) ∧
        ∃ x : Extraction, mode = .extract x ∧ request.fields.pairs = .ok x.fields ∧
          x.indexBy = e.indexBy.map IndexBy.parse := by
  simp only [extractionMode,exceptBindOk,refuseIfOk,exists_const,Bool.or_eq_false_iff,
    Option.isSome_eq_false_iff,Option.isNone_iff_eq_none,Bool.not_eq_false',and_assoc] at h
  obtain ⟨unset,unplaced,unlisted,unordered,unvaried,allowed,find,readFind,fields,readFields,made⟩ := h
  cases made
  exact ⟨⟨unset,unplaced⟩,⟨unlisted,unordered,unvaried⟩,allowed,⟨find,readFind⟩,_,rfl,readFields,rfl⟩

inductive Listed (e : Entry) : List (Entries Json) → Bool → Prop where
  | lines {rows} (given : e.lines = some rows) (alone : e.ordered = none) : Listed e rows false
  | ordered {rows} (given : e.ordered = some rows) (alone : e.lines = none) : Listed e rows true

theorem listedOk {e : Entry} {state : DesiredState} {mode : Mode} (h : linesMode e state = .ok mode) :
    ∃ rows ordered, Listed e rows ordered := by
  unfold linesMode at h
  split at h
  · cases h
  · exact ⟨_,_,.lines ‹_› ‹_›⟩
  · exact ⟨_,_,.ordered ‹_› ‹_›⟩
  · cases h

theorem linesModeOk {e : Entry} {state : DesiredState} {mode : Mode} {rows : List (Entries Json)}
    {ordered : Bool} (listed : Listed e rows ordered) : linesMode e state = .ok mode ↔
      (e.find = none ∧ e.set = none) ∧ (e.position.isSome = true → ordered = true) ∧
        ∃ lines, criteriaOfEach rows = .ok lines ∧
          linesModeOf state e.keys lines ordered (e.position.getD 1) = .ok mode := by
  have placed : (e.position.isSome && !ordered) = false ↔ (e.position.isSome = true → ordered = true) := by
    cases e.position <;> cases ordered <;> simp
  rw [← placed]
  cases listed with
  | lines given alone | ordered given alone =>
    simp only [linesMode,given,alone,exceptBindOk,refuseIfOk,exists_const,Bool.or_eq_false_iff,
      Option.isSome_eq_false_iff,Option.isNone_iff_eq_none,Except.ok.injEq,exists_eq_left']

inductive FindSource (e : Entry) (finds : List Criteria) : DesiredState → Mode → Prop where
  | ensure {state set} (wanted : state = .present ∨ state = .notFoundIsFailed ∨ state = .notFoundIsOk)
      (written : readOptional assignmentsOf e.set = .ok set) :
      FindSource e finds state (.ensure finds (set.getD ∅) e.position state.missing)
  | absent (unset : e.set = none) (unplaced : e.position = none) :
      FindSource e finds .absent (.absent finds)
  | enabled (unset : e.set = none) : FindSource e finds .enabled (.toggle finds true)
  | disabled (unset : e.set = none) : FindSource e finds .disabled (.toggle finds false)
  | findOnly (unset : e.set = none) : FindSource e finds .findOnly (.findOnly finds e.position)
  | count {find} (unset : e.set = none) (alone : finds = [find]) :
      FindSource e finds .countOnly (.count find)
  | move {find position} (unset : e.set = none) (placed : e.position = some position)
      (alone : finds = [find]) : FindSource e finds .moveOnly (.move find position .fail)

theorem singleOk {what : String} {finds : List Criteria} {find : Criteria} :
    single what finds = .ok find ↔ finds = [find] := by
  rcases finds with - | ⟨f,- | ⟨g,rest⟩⟩ <;> simp [single]

theorem findModeOk {e : Entry} {state : DesiredState} {mode : Mode} : findMode e state = .ok mode ↔
    ∃ finds, findsOf e = .ok finds ∧ FindSource e finds state mode := by
  simp only [findMode,exceptBindOk]
  refine exists_congr fun finds => and_congr_right fun _ => ?_
  constructor
  · intro h
    cases state <;> simp only [exceptBindOk,refuseIfOk,exists_const,Option.isSome_eq_false_iff,
      Option.isNone_iff_eq_none,singleOk,reduceCtorEq,Except.ok.injEq] at h
    case present | notFoundIsFailed | notFoundIsOk =>
      obtain ⟨set,written,rfl⟩ := h
      exact .ensure (by simp) written
    case absent =>
      obtain ⟨unset,unplaced,rfl⟩ := h
      exact .absent unset unplaced
    case enabled =>
      obtain ⟨unset,rfl⟩ := h
      exact .enabled unset
    case disabled =>
      obtain ⟨unset,rfl⟩ := h
      exact .disabled unset
    case findOnly =>
      obtain ⟨unset,rfl⟩ := h
      exact .findOnly unset
    case countOnly =>
      obtain ⟨unset,find,alone,rfl⟩ := h
      exact .count unset alone
    case moveOnly =>
      obtain ⟨unset,h⟩ := h
      cases placed : e.position with
      | none => rw [placed] at h; cases h
      | some position =>
        rw [placed] at h
        simp only [exceptBindOk,singleOk,Except.ok.injEq] at h
        obtain ⟨find,alone,rfl⟩ := h
        exact .move unset placed alone
  · intro source
    cases source with
    | @ensure state set wanted written =>
      rcases wanted with rfl | rfl | rfl <;> exact exceptBindOk.mpr ⟨set,written,rfl⟩
    | absent unset unplaced => simp [unset,unplaced,refuseIf,bind,Except.bind]
    | enabled unset => simp [unset,refuseIf,bind,Except.bind]
    | disabled unset => simp [unset,refuseIf,bind,Except.bind]
    | findOnly unset => simp [unset,refuseIf,bind,Except.bind]
    | count unset alone => simp [unset,alone,refuseIf,single,bind,Except.bind]
    | move unset placed alone => simp [unset,placed,alone,refuseIf,single,bind,Except.bind]

theorem singletonModeOk {e : Entry} {state : DesiredState} {mode : Mode}
    (h : singletonMode e state = .ok mode) :
    state = .present ∧ ∃ table values, e.set = some table ∧ assignmentsOf table = .ok values ∧
      mode = .configure values := by
  unfold singletonMode at h
  split at h
  · cases h
  · rename_i table given
    split at h
    · obtain ⟨values,written,rfl⟩ := exceptMapOk.mp h
      exact ⟨‹_›,table,values,given,written,rfl⟩
    · cases h

structure Taken (e : Entry) (mode : Mode) : Prop where
  find : ∀ table ∈ e.find, ∃ find, criteriaOf table = .ok find
  iterate : ∀ table ∈ e.iterate, (e.lines.isSome || e.ordered.isSome) = false →
    ∃ axes, axesOf table = .ok axes
  lines : ∀ rows ∈ e.lines, ∃ lines, criteriaOfEach rows = .ok lines
  ordered : ∀ rows ∈ e.ordered, ∃ lines, criteriaOfEach rows = .ok lines
  set : ∀ table ∈ e.set, ∃ values, assignmentsOf table = .ok values
  keys : ∀ keys ∈ e.keys, ∃ lines ordered position,
    mode = .adjust lines (identityKeys (some keys) lines) ordered position
  position : ∀ n ∈ e.position, mode.position? = some n ∨ mode.position? = none
  fields : ∀ request ∈ e.requests, ∃ x, mode = .extract x ∧ request.fields.pairs = .ok x.fields
  indexBy : ∀ raw ∈ e.indexBy, ∃ x, mode = .extract x ∧ x.indexBy = some (IndexBy.parse raw)

section
variable {e : Entry} {state : DesiredState} {mode : Mode}

theorem extractedTaken {request : Request} {rest : List Request} (together : Combined e state)
    (asked : e.requests = request :: rest) (h : extractionMode e state request = .ok mode) :
    Taken e mode := by
  obtain ⟨⟨unset,unplaced⟩,⟨unlisted,unordered,unvaried⟩,allowed,⟨find,readFind⟩,x,rfl,fields,indexed⟩ :=
    extractionModeOk h
  have alone : rest = [] := by
    have := together.single
    rw [asked,List.length_cons] at this
    exact List.eq_nil_of_length_eq_zero (by omega)
  refine ⟨?_,by simp [unvaried],by simp [unlisted],by simp [unordered],by simp [unset],?_,
    by simp [unplaced],?_,?_⟩
  · rintro table given
    exact readOptionalOk (Option.mem_def.mp given ▸ readFind)
  · rintro keys given
    rw [together.keyed (by simp [Option.mem_def.mp given])] at allowed
    cases allowed
  · intro other wanted
    rw [asked,alone,List.mem_singleton] at wanted
    exact ⟨x,rfl,wanted ▸ fields⟩
  · intro raw given
    exact ⟨x,rfl,by rw [indexed,Option.mem_def.mp given]; rfl⟩

theorem linesModeOfTaken {keys : Option (List String)} {lines : List Criteria} {ordered : Bool}
    {position : Nat} (h : linesModeOf state keys lines ordered position = .ok mode) :
    (state = .adjust → mode = .adjust lines (identityKeys keys lines) ordered position) ∧
      (ordered = true → mode.position? = some position ∨ mode.position? = none) := by
  cases state <;> cases h
  case findOnly => exact ⟨by simp,fun given => by simp [Mode.position?,given]⟩
  all_goals simp [Mode.position?]

theorem listedTaken (together : Combined e state) (unasked : e.requests = [])
    (h : linesMode e state = .ok mode) : Taken e mode := by
  obtain ⟨rows,ordered,listed⟩ := listedOk h
  obtain ⟨⟨unsought,unset⟩,placed,lines,readLines,made⟩ := (linesModeOk listed).mp h
  obtain ⟨adjusted,positioned⟩ := linesModeOfTaken made
  refine ⟨by simp [unsought],?_,?_,?_,by simp [unset],?_,?_,by simp [unasked],?_⟩
  · cases listed with
    | lines given alone | ordered given alone => simp [given]
  · intro others given
    cases listed with
    | lines same alone => rw [same,Option.mem_some_iff] at given; exact ⟨lines,given ▸ readLines⟩
    | ordered same alone => simp [alone] at given
  · intro others given
    cases listed with
    | lines same alone => simp [alone] at given
    | ordered same alone => rw [same,Option.mem_some_iff] at given; exact ⟨lines,given ▸ readLines⟩
  · intro keys given
    have given := Option.mem_def.mp given
    exact ⟨lines,ordered,_,given ▸ adjusted (together.keyed (by simp [given]))⟩
  · intro n given
    have given := Option.mem_def.mp given
    simpa [given] using positioned (placed (by simp [given]))
  · intro raw given
    exact absurd unasked (together.indexed (by simp [Option.mem_def.mp given]))

theorem findsOfOk {finds : List Criteria} (h : findsOf e = .ok finds) :
    (∃ base, readOptional criteriaOf e.find = .ok base) ∧
      ∀ table ∈ e.iterate, ∃ axes, axesOf table = .ok axes := by
  simp only [findsOf,exceptBindOk] at h
  obtain ⟨base,readBase,h⟩ := h
  refine ⟨⟨base,readBase⟩,?_⟩
  intro table given
  rw [Option.mem_def.mp given] at h
  obtain ⟨axes,readAxes,-⟩ := exceptBindOk.mp h
  exact ⟨axes,readAxes⟩

theorem foundTaken (together : Combined e state) (unasked : e.requests = [])
    (unlisted : (e.lines.isSome || e.ordered.isSome) = false) (h : findMode e state = .ok mode) :
    Taken e mode := by
  obtain ⟨finds,readFinds,source⟩ := findModeOk.mp h
  obtain ⟨⟨base,readBase⟩,axes⟩ := findsOfOk readFinds
  obtain ⟨noLines,noOrdered⟩ := Bool.or_eq_false_iff.mp unlisted
  simp only [Option.isSome_eq_false_iff,Option.isNone_iff_eq_none] at noLines noOrdered
  refine ⟨?_,fun table given _ => axes table given,by simp [noLines],by simp [noOrdered],?_,?_,?_,
    by simp [unasked],?_⟩
  · rintro table given
    exact readOptionalOk (Option.mem_def.mp given ▸ readBase)
  · intro table given
    cases source with
    | ensure wanted written => exact readOptionalOk (Option.mem_def.mp given ▸ written)
    | absent unset | enabled unset | disabled unset | findOnly unset | count unset | move unset =>
      simp [unset] at given
  · intro keys given
    rw [together.keyed (by simp [Option.mem_def.mp given])] at source
    cases source with
    | ensure wanted => simp at wanted
  · intro n given
    cases source with
    | ensure | findOnly => exact .inl given
    | move unset placed => exact .inl (placed.symm.trans given)
    | absent | enabled | disabled | count => exact .inr rfl
  · intro raw given
    exact absurd unasked (together.indexed (by simp [Option.mem_def.mp given]))

theorem singleTaken (together : Combined e state) (unasked : e.requests = [])
    (unlisted : (e.lines.isSome || e.ordered.isSome) = false)
    (unsought : (e.find.isSome || e.iterate.isSome) = false) (h : singletonMode e state = .ok mode) :
    Taken e mode := by
  obtain ⟨rfl,table,values,given,written,rfl⟩ := singletonModeOk h
  simp only [Bool.or_eq_false_iff,Option.isSome_eq_false_iff,Option.isNone_iff_eq_none] at unlisted unsought
  refine ⟨by simp [unsought.1],by simp [unsought.2],by simp [unlisted.1],by simp [unlisted.2],?_,?_,
    fun _ _ => .inr rfl,by simp [unasked],?_⟩
  · intro other same
    rw [given,Option.mem_some_iff] at same
    exact ⟨values,same ▸ written⟩
  · intro keys given
    cases together.keyed (by simp [Option.mem_def.mp given])
  · intro raw given
    exact absurd unasked (together.indexed (by simp [Option.mem_def.mp given]))

theorem buildModeTaken (h : buildMode e = .ok mode) : Taken e mode := by
  obtain ⟨state,-,together,source⟩ := buildModeSource.mp h
  cases source with
  | extracted asked made => exact extractedTaken together asked made
  | listed unasked given made => exact listedTaken together unasked made
  | found unasked unlisted given made => exact foundTaken together unasked unlisted made
  | single unasked unlisted unsought made => exact singleTaken together unasked unlisted unsought made

end

inductive BuildSource (resolve : String → String) (os : Generation) (e : Entry) : Task → Prop where
  | special {task} (wanted : 0 < e.specialCount) (made : buildSpecial resolve e = .ok task) :
      BuildSource resolve os e task
  | facility {path text parsed mode} (unwanted : e.specialCount = 0) (given : e.path = some path)
      (resolved : path.resolve? os = some text) (read : FacilityPath.parse text = .ok parsed)
      (made : buildMode e = .ok mode) (sound : FacilityTask.fault? mode = none) :
      BuildSource resolve os e (.facility ⟨parsed,mode⟩)

theorem buildOk {resolve : String → String} {os : Generation} {e : Entry} {task : Task} :
    build resolve os e = .ok (some task) ↔
      e.os.any (· != os) = false ∧ BuildSource resolve os e task := by
  unfold build
  constructor
  · intro h
    split at h
    · cases h
    · refine ⟨Bool.eq_false_iff.mpr ‹_›,?_⟩
      split at h
      · obtain ⟨made,built,same⟩ := exceptMapOk.mp h
        cases same
        exact .special ‹_› built
      · rename_i unwanted
        split at h
        · cases h
        · rename_i path given
          split at h
          · cases h
          · rename_i text resolved
            simp only [exceptBindOk,asFaultOk,makeOk] at h
            obtain ⟨parsed,read,mode,made,t,⟨sound,rfl⟩,same⟩ := h
            cases same
            exact .facility (by omega) given resolved read made sound
  · rintro ⟨here,source⟩
    rw [if_neg (by simp [here])]
    cases source with
    | special wanted made => rw [if_pos wanted,made]; rfl
    | facility unwanted given resolved read made sound =>
      rw [if_neg (by omega)]
      simp only [given,resolved,exceptBindOk,asFaultOk,makeOk]
      exact ⟨_,read,_,made,_,⟨sound,rfl⟩,rfl⟩

theorem buildNoneOk {resolve : String → String} {os : Generation} {e : Entry}
    (h : build resolve os e = .ok none) : e.os.any (· != os) = true ∨
      e.specialCount = 0 ∧ ∃ path, e.path = some path ∧ path.resolve? os = none := by
  unfold build at h
  split at h
  · exact .inl ‹_›
  · split at h
    · obtain ⟨made,-,same⟩ := exceptMapOk.mp h
      cases same
    · rename_i unwanted
      split at h
      · cases h
      · rename_i path given
        split at h
        · exact .inr ⟨by omega,path,given,‹_›⟩
        · simp at h

theorem buildSpecialUnshared {resolve : String → String} {e : Entry} {task : Task}
    (h : buildSpecial resolve e = .ok task) : e.hasFacilityParameters = false ∧ task.mode? = none := by
  simp only [buildSpecial,exceptBindOk,refuseIfOk,exists_const] at h
  obtain ⟨-,unshared,h⟩ := h
  refine ⟨unshared,?_⟩
  split at h
  · simp only [exceptBindOk,refuseIfOk,exists_const] at h
    obtain ⟨-,h⟩ := h
    cases h
    rfl
  all_goals cases h
  all_goals rfl

end TaskFile
end RouterReconciler

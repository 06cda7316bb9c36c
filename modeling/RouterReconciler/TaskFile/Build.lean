import RouterReconciler.TaskFile.Entry
import RouterReconciler.TaskFile.Parameter

/-!
Building the task that an entry describes, for one generation. An entry for another generation, or
without a path for this one, describes none. Parameters that do not go together are a fault, and so
is a state that does not go with the parameters.
-/
namespace RouterReconciler.TaskFile

inductive DesiredState where
  | present
  | absent
  | enabled
  | disabled
  | findOnly
  | countOnly
  | moveOnly
  | notFoundIsFailed
  | notFoundIsOk
  | skipEmpty
  | check
  | replace
  | adjust
  deriving DecidableEq

namespace DesiredState

def parse : String → Except Fault DesiredState
  | "present" => .ok present
  | "absent" => .ok absent
  | "enabled" => .ok enabled
  | "disabled" => .ok disabled
  | "find-only" => .ok findOnly
  | "count-only" => .ok countOnly
  | "move-only" => .ok moveOnly
  | "notfound-is-failed" => .ok notFoundIsFailed
  | "notfound-is-ok" => .ok notFoundIsOk
  | "skip-empty" => .ok skipEmpty
  | "check" => .ok check
  | "replace" => .ok replace
  | "adjust" => .ok adjust
  | other => .error (.invalid ("unknown state '" ++ other ++ "'"))

def missing : DesiredState → Missing
  | notFoundIsFailed => .fail
  | notFoundIsOk => .ignore
  | _ => .add

end DesiredState

def refuseIf (condition : Bool) (message : String) : Except Fault Unit :=
  if condition then .error (.invalid message) else .ok ()

def readOptional {α β : Type} (read : α → Except Fault β) : Option α → Except Fault (Option β)
  | none => .ok none
  | some a => (read a).map some

structure Request where
  source : Source
  many : Bool
  fields : FieldsEntry

namespace Entry

def requests (e : Entry) : List Request :=
  (e.get.map (Request.mk .fields false)).toList ++ (e.getList.map (Request.mk .fields true)).toList ++
    (e.getExpr.map (Request.mk .expressions false)).toList ++
    (e.getExprList.map (Request.mk .expressions true)).toList

def specialCount (e : Entry) : Nat :=
  [e.command.isSome,e.put.isSome,e.fetch.isSome].countP id

def hasFacilityParameters (e : Entry) : Bool :=
  e.path.isSome || e.state.isSome || e.find.isSome || e.iterate.isSome || e.lines.isSome ||
    e.ordered.isSome || e.set.isSome || !e.requests.isEmpty

end Entry

def buildSpecial (resolve : String → String) (e : Entry) : Except Fault Task := do
  refuseIf (1 < e.specialCount) "cmd, put and fetch are separate tasks"
  refuseIf e.hasFacilityParameters "cmd, put and fetch take no facility parameters"
  match e.command, e.put, e.fetch with
  | some command, _, _ => do
    refuseIf (Text.trim command).isEmpty "cmd is empty"
    .ok (.command command)
  | none, some put, _ => .ok (.put (resolve put.src) put.dest)
  | none, none, some fetch => .ok (.fetch fetch.src (resolve fetch.dest))
  | none, none, none => .error (.invalid "nothing to do")

def FieldsEntry.pairs : FieldsEntry → Except Fault (List (String × String))
  | .names list => .ok (list.map (fun n => (n,n)))
  | .aliased fields => readEach fieldOf fields.toList

def DesiredState.allowsExtraction (s : DesiredState) : Bool :=
  s = .present || s = .notFoundIsFailed || s = .notFoundIsOk || s = .skipEmpty

def extractionMode (e : Entry) (state : DesiredState) (request : Request) : Except Fault Mode := do
  refuseIf (e.set.isSome || e.position.isSome) "get* cannot be combined with set or position"
  refuseIf (e.lines.isSome || e.ordered.isSome || e.iterate.isSome)
    "get* cannot be combined with lines, ordered or iterate"
  refuseIf (!state.allowsExtraction)
    "get* only supports present, notfound-is-failed, notfound-is-ok and skip-empty"
  let find ← readOptional criteriaOf e.find
  let fields ← request.fields.pairs
  .ok (.extract {
    find := find
    fields := fields
    source := request.source
    many := request.many
    indexBy := e.indexBy.map IndexBy.parse
    skipEmpty := state = .skipEmpty
    requireMatch := if state = .notFoundIsOk then false
      else if state = .notFoundIsFailed then true else !request.many
    requireFields := state != .notFoundIsOk })

def allKeys (lines : List Criteria) : List String :=
  ((lines.flatMap Entries.keys).filter (· != rawKey)).mergeSort.eraseDups

def identityKeys (given : Option (List String)) (lines : List Criteria) : List String :=
  match given with
  | some (key :: others) => key :: others
  | _ => allKeys lines

def linesModeOf (state : DesiredState) (keys : Option (List String)) (lines : List Criteria)
    (ordered : Bool) (position : Nat) : Except Fault Mode :=
  match state with
  | .present | .notFoundIsFailed | .notFoundIsOk =>
    .ok (.present lines ordered position state.missing)
  | .absent => .ok (.absent lines)
  | .enabled => .ok (.toggle lines true)
  | .disabled => .ok (.toggle lines false)
  | .findOnly => .ok (.findOnly lines (if ordered then some position else none))
  | .check => .ok (.check lines ordered position)
  | .replace => .ok (.replace lines ordered position)
  | .adjust => .ok (.adjust lines (identityKeys keys lines) ordered position)
  | .countOnly | .moveOnly | .skipEmpty => .error (.invalid "this state needs find, not lines")

def linesMode (e : Entry) (state : DesiredState) : Except Fault Mode := do
  let (rows,ordered) ← match e.lines, e.ordered with
    | some _, some _ => .error (.invalid "use either lines or ordered")
    | some rows, none => .ok (rows,false)
    | none, some rows => .ok (rows,true)
    | none, none => .error (.invalid "lines or ordered is required")
  refuseIf (e.find.isSome || e.set.isSome) "lines and ordered cannot be combined with find or set"
  refuseIf (e.position.isSome && !ordered) "position needs ordered"
  let lines ← criteriaOfEach rows
  linesModeOf state e.keys lines ordered (e.position.getD 1)

def findsOf (e : Entry) : Except Fault (List Criteria) := do
  let base ← readOptional criteriaOf e.find
  match e.iterate with
  | some table => do
    let axes ← axesOf table
    .ok (Criteria.iterate (base.getD ∅) axes)
  | none => .ok [base.getD ∅]

def single (what : String) : List Criteria → Except Fault Criteria
  | [find] => .ok find
  | _ => .error (.invalid (what ++ " cannot be combined with iterate"))

def findMode (e : Entry) (state : DesiredState) : Except Fault Mode := do
  let finds ← findsOf e
  let noSet (what : String) := refuseIf e.set.isSome (what ++ " cannot be combined with set")
  match state with
  | .present | .notFoundIsFailed | .notFoundIsOk => do
    let set ← readOptional assignmentsOf e.set
    .ok (.ensure finds (set.getD ∅) e.position state.missing)
  | .absent => do
    noSet "absent"
    refuseIf e.position.isSome "absent takes no position"
    .ok (.absent finds)
  | .enabled => do
    noSet "enabled/disabled"
    .ok (.toggle finds true)
  | .disabled => do
    noSet "enabled/disabled"
    .ok (.toggle finds false)
  | .findOnly => do
    noSet "find-only"
    .ok (.findOnly finds e.position)
  | .countOnly => do
    noSet "count-only"
    let find ← single "count-only" finds
    .ok (.count find)
  | .moveOnly => do
    noSet "move-only"
    match e.position with
    | none => .error (.invalid "move-only needs position")
    | some position => do
      let find ← single "move-only" finds
      .ok (.move find position .fail)
  | .check | .replace | .adjust =>
    .error (.invalid "check, replace and adjust need lines or ordered")
  | .skipEmpty => .error (.invalid "skip-empty needs get_expr or get_expr_list")

def singletonMode (e : Entry) (state : DesiredState) : Except Fault Mode :=
  match e.set with
  | none => .error (.invalid "nothing to do: give set, find, lines, ordered or get*")
  | some table =>
    if state = .present then (assignmentsOf table).map Mode.configure
    else .error (.invalid "a singleton set only supports state present")

def buildMode (e : Entry) : Except Fault Mode := do
  let state ← DesiredState.parse (e.state.getD "present")
  refuseIf (1 < e.requests.length) "use only one of get, get_list, get_expr and get_expr_list"
  refuseIf (e.indexBy.isSome && e.requests.isEmpty)
    "index_by needs get, get_list, get_expr or get_expr_list"
  refuseIf (e.keys.isSome && state != .adjust) "keys are only used with state adjust"
  refuseIf (e.iterate.isSome && e.position.isSome) "position cannot be combined with iterate"
  match e.requests with
  | request :: _ => extractionMode e state request
  | [] =>
    if e.lines.isSome || e.ordered.isSome then linesMode e state
    else if e.find.isSome || e.iterate.isSome then findMode e state
    else singletonMode e state

def asFault {α : Type} : Except Error α → Except Fault α
  | .ok a => .ok a
  | .error e => .error (.task e)

def build (resolve : String → String) (os : Generation) (e : Entry) : Except Fault (Option Task) :=
  if e.os.any (· != os) then .ok none
  else if 0 < e.specialCount then (buildSpecial resolve e).map some
  else match e.path with
    | none => .error (.invalid "path is required")
    | some path =>
      match path.resolve? os with
      | none => .ok none
      | some path => do
        let path ← asFault (FacilityPath.parse path)
        let mode ← buildMode e
        let task ← asFault (FacilityTask.make path mode)
        .ok (some (.facility task))

end RouterReconciler.TaskFile

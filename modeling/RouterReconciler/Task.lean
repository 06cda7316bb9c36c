import RouterReconciler.Criteria
import RouterReconciler.Facility

/-!
Tasks: what to do with a facility, by modes that each carry just what they need; raw commands; and
file transfers. A facility task is made by a check of what must hold of its mode.
-/
namespace RouterReconciler

inductive Missing where
  | add
  | fail
  | ignore
  deriving DecidableEq

inductive Source where
  | fields
  | expressions
  deriving DecidableEq

inductive IndexBy where
  | key (name : String)
  | literal (index : String)
  deriving DecidableEq

def IndexBy.parse (raw : String) : IndexBy :=
  match (Text.dropPrefix? raw "\"").bind (Text.dropSuffix? · "\"") with
  | some index => .literal index
  | none => .key raw

structure Extraction where
  find : Option Criteria
  fields : List (String × String)
  source : Source
  many : Bool
  indexBy : Option IndexBy
  skipEmpty : Bool
  requireMatch : Bool
  requireFields : Bool
  deriving DecidableEq

inductive Mode where
  | configure (values : Assignments)
  | ensure (finds : List Criteria) (set : Assignments) (position : Option Nat) (missing : Missing)
  | present (lines : List Criteria) (ordered : Bool) (position : Nat) (missing : Missing)
  | absent (targets : List Criteria)
  | toggle (targets : List Criteria) (enable : Bool)
  | findOnly (targets : List Criteria) (position : Option Nat)
  | count (find : Criteria)
  | move (find : Criteria) (position : Nat) (missing : Missing)
  | check (lines : List Criteria) (ordered : Bool) (position : Nat)
  | replace (lines : List Criteria) (ordered : Bool) (position : Nat)
  | adjust (lines : List Criteria) (keys : List String) (ordered : Bool) (position : Nat)
  | extract (extraction : Extraction)
  deriving DecidableEq

namespace Mode

def missingName : Missing → String
  | .add => "present"
  | .fail => "notfound-is-failed"
  | .ignore => "notfound-is-ok"

def name : Mode → String
  | configure _ => "present"
  | ensure _ _ _ missing => missingName missing
  | present _ _ _ missing => missingName missing
  | absent _ => "absent"
  | toggle _ enable => if enable then "enabled" else "disabled"
  | findOnly _ _ => "find-only"
  | count _ => "count-only"
  | move _ _ _ => "move-only"
  | check _ _ _ => "check"
  | replace _ _ _ => "replace"
  | adjust _ _ _ _ => "adjust"
  | extract e =>
    match e.source, e.many with
    | .fields, false => "get"
    | .fields, true => "get_list"
    | .expressions, false => "get_expr"
    | .expressions, true => "get_expr_list"

def shapeIf (ordered : Bool) : Shape := if ordered then .ordered else .unordered

def shape : Mode → Shape
  | configure _ => .singleton
  | ensure _ _ position _ => shapeIf position.isSome
  | present _ ordered _ _ => shapeIf ordered
  | absent _ => .unordered
  | toggle _ _ => .unordered
  | findOnly _ position => shapeIf position.isSome
  | count _ => .unordered
  | move _ _ _ => .ordered
  | check _ ordered _ => shapeIf ordered
  | replace _ ordered _ => shapeIf ordered
  | adjust _ _ ordered _ => shapeIf ordered
  | extract e => if e.find.isNone then .singleton else .unordered

def position? : Mode → Option Nat
  | ensure _ _ position _ => position
  | present _ _ position _ => some position
  | findOnly _ position => position
  | move _ position _ => some position
  | check _ _ position => some position
  | replace _ _ position => some position
  | adjust _ _ _ position => some position
  | _ => none

end Mode

structure FacilityTask where
  path : FacilityPath
  mode : Mode
  deriving DecidableEq

namespace FacilityTask

def isPlainKey (line : Criteria) (key : String) : Bool :=
  match line.get? key with
  | none => true
  | some (.literal _) => true
  | some .notSet => true
  | _ => false

def adjustFault? (keys : List String) (index : Nat) : List Criteria → Option String
  | [] => none
  | line :: rest =>
    match keys.find? (fun k => !isPlainKey line k) with
    | some key => some ("line " ++ toString index ++ ": key " ++ key ++ " must be a plain value")
    | none =>
      if line.namesDefault then
        some ("line " ++ toString index ++ ": default-name lines cannot be adjusted")
      else adjustFault? keys (index + 1) rest

def extractionFault? (e : Extraction) : Option String :=
  if e.fields.isEmpty then some "nothing to get"
  else if e.skipEmpty && e.source != .expressions then
    some "skip-empty requires get_expr or get_expr_list"
  else if e.many && e.find.isNone then some "list extraction requires find"
  else none

def contentFault? : Mode → Option String
  | .move _ _ .add => some "move-only cannot add records"
  | .absent targets =>
    if targets.any Criteria.namesDefault then some "default objects cannot be removed" else none
  | .adjust lines keys _ _ =>
    if keys.isEmpty then some "keys must not be empty" else adjustFault? keys 0 lines
  | .extract e => extractionFault? e
  | _ => none

def partFault? : Mode → Option String
  | .configure values => if values.isEmpty then some "nothing to set" else none
  | .ensure finds _ position _ =>
    if position.isSome && finds.length != 1 then
      some "position cannot be combined with iterate"
    else if finds.isEmpty then some "find is required"
    else none
  | _ => none

def fault? (mode : Mode) : Option String :=
  match partFault? mode with
  | some fault => some fault
  | none => if mode.position? = some 0 then some "positions start at 1" else contentFault? mode

def make (path : FacilityPath) (mode : Mode) : Except Error FacilityTask :=
  match fault? mode with
  | some fault => .error (.invalidTask (path.text ++ " [" ++ mode.name ++ "]: " ++ fault))
  | none => .ok ⟨path,mode⟩

def text (t : FacilityTask) : String := "(" ++ t.mode.name ++ ") " ++ t.path.text

def facility (t : FacilityTask) : Facility := ⟨t.path,t.mode.shape⟩

def within (t : FacilityTask) (record : Option Nat) (e : Error) : Error :=
  e.within t.path.text t.mode.name record

end FacilityTask

inductive Task where
  | facility (task : FacilityTask)
  | command (text : String)
  | put (localPath remotePath : String)
  | fetch (remotePath localPath : String)
  deriving DecidableEq

namespace Task

def path? : Task → Option FacilityPath
  | facility t => some t.path
  | _ => none

def modeName : Task → String
  | facility t => t.mode.name
  | command _ => "cmd"
  | put _ _ => "put"
  | fetch _ _ => "fetch"

def text : Task → String
  | facility t => t.text
  | command c => "(cmd) " ++ c
  | put src dest => "(put) " ++ src ++ " -> " ++ dest
  | fetch src dest => "(fetch) " ++ src ++ " -> " ++ dest

end Task
end RouterReconciler

import RouterReconciler.Facility
import RouterReconciler.Json.Basic
import RouterReconciler.Record

/-!
Plans: the writes that a task comes to, in order. A record that a plan adds has no id yet; later
operations of the plan refer to it by the number of the operation that adds it.
-/
namespace RouterReconciler

inductive ItemRef where
  | existing (id : ItemId)
  | added (operation : Nat)
  deriving DecidableEq

def ItemRef.text : ItemRef → String
  | .existing id => id
  | .added n => "<new #" ++ toString n ++ ">"

inductive Operation where
  | add (values : Assignments) (before : Option ItemRef)
  | remove (id : ItemId)
  | set (item : Option ItemId) (values : Assignments)
  | move (item : ItemRef) (before : Option ItemRef)
  | enable (id : ItemId)
  | disable (id : ItemId)
  deriving DecidableEq

namespace Operation

def verb : Operation → String
  | add _ _ => "add"
  | remove _ => "remove"
  | set _ _ => "set"
  | move _ _ => "move"
  | enable _ => "enable"
  | disable _ => "disable"

def assignmentText (key : String) : Assignment → String
  | .value v => " " ++ key ++ "=" ++ v.canonical
  | .unset => " !" ++ key

def valuesText (values : Assignments) : String :=
  String.join (values.toList.map (fun entry => assignmentText entry.1 entry.2))

def text : Operation → String
  | add values before =>
    "add" ++ valuesText values ++
      (match before with
        | some item => " place-before=" ++ item.text
        | none => "")
  | remove id => "remove " ++ id
  | set item values =>
    "set" ++
      (match item with
        | some id => " " ++ id
        | none => "") ++ valuesText values
  | move item (some before) => "move " ++ item.text ++ " destination=" ++ before.text
  | move item none => "move " ++ item.text ++ " to end"
  | enable id => "enable " ++ id
  | disable id => "disable " ++ id

end Operation

abbrev ReturnValues := Entries Json

structure Plan where
  facility : Facility
  operations : List Operation
  drift : Bool
  returnValues : ReturnValues

namespace Plan

def ofOperations (f : Facility) (operations : List Operation) : Plan := ⟨f,operations,false,∅⟩

def isChanged (p : Plan) : Bool := p.drift || !p.operations.isEmpty

end Plan

structure ChangeCount where
  additions : Nat
  removals : Nat
  modifications : Nat
  moves : Nat
  toggles : Nat
  deriving DecidableEq

namespace ChangeCount

def zero : ChangeCount := ⟨0,0,0,0,0⟩

def record (c : ChangeCount) : Operation → ChangeCount
  | .add _ _ => { c with additions := c.additions + 1 }
  | .remove _ => { c with removals := c.removals + 1 }
  | .set _ _ => { c with modifications := c.modifications + 1 }
  | .move _ _ => { c with moves := c.moves + 1 }
  | .enable _ => { c with toggles := c.toggles + 1 }
  | .disable _ => { c with toggles := c.toggles + 1 }

def ofOperations (operations : List Operation) : ChangeCount := operations.foldl record zero

def total (c : ChangeCount) : Nat := c.additions + c.removals + c.modifications + c.moves + c.toggles

def merge (a b : ChangeCount) : ChangeCount :=
  ⟨a.additions + b.additions,a.removals + b.removals,a.modifications + b.modifications,
    a.moves + b.moves,a.toggles + b.toggles⟩

end ChangeCount
end RouterReconciler

/-!
Putting a block of items together at a position of an ordered list, by single moves of the form
"take this item out and put it just before that one". The items outside the block keep their
places; of the block, as many stay as the order allows. To this end an increasing run of the target
(by present position) is kept whose weight is greatest, where an item outside the block outweighs
the whole block.
-/
namespace RouterReconciler.Placement
variable {α : Type} [DecidableEq α]

def target (current block : List α) (offset : Nat) : List α :=
  let others := current.filter (fun x => !block.contains x)
  others.take offset ++ block ++ others.drop offset

def lastIndex (x : α) (l : List α) : Nat :=
  match l.reverse.findIdx? (· == x) with
  | some i => l.length - 1 - i
  | none => l.length

/-- An increasing run of the target: the indices of its items, last first, the present position of
the last one, and the weight of all. -/
structure Run where
  members : List Nat
  position : Nat
  weight : Nat

def Run.extend (runs : List Run) (index position weight : Nat) : Run :=
  runs.foldl
    (fun best run =>
      if run.position < position && best.weight < run.weight + weight then
        ⟨index :: run.members,position,run.weight + weight⟩
      else best)
    ⟨[index],position,weight⟩

def Run.collect (runs : List Run) (index : Nat) : List (Nat × Nat) → List Run
  | [] => runs
  | (position,weight) :: rest =>
    Run.collect (runs ++ [Run.extend runs index position weight]) (index + 1) rest

def Run.heaviest : List Run → Option Run
  | [] => none
  | run :: rest =>
    match Run.heaviest rest with
    | some other => if run.weight < other.weight then some other else some run
    | none => some run

def kept (current block goal : List α) : List Nat :=
  let items := goal.map fun x =>
    (lastIndex x current,if block.contains x then 1 else block.length + 1)
  match Run.heaviest (Run.collect [] 0 items) with
  | some run => run.members
  | none => []

def withSuccessors : List α → List (α × Option α)
  | [] => []
  | [x] => [(x,none)]
  | x :: y :: rest => (x,some y) :: withSuccessors (y :: rest)

/-- The moves that turn `current` into the target, each an item and the one it goes before; none
means the end. They are made from the end of the target to its start, so that the item named is
already in place. -/
def moves (current block : List α) (offset : Nat) : List (α × Option α) :=
  let goal := target current block offset
  let stay := kept current block goal
  (((withSuccessors goal).zipIdx.filter (fun m => !stay.contains m.2)).map Prod.fst).reverse

example : moves ["a","b","x","y"] ["x","y"] 0 = [("y",some "a"),("x",some "y")] := by
  decide

end RouterReconciler.Placement

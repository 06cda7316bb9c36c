/-!
The difference of two texts by lines. The lines that stay are found by the greedy search for a
shortest script of deletions and insertions, run from both ends until the two searches meet; then
each insertion is moved up and down to where it runs into its neighbours. Between lines that stay,
deletions come first.
-/
namespace RouterReconciler.LineDiff

def linesFrom (done : List Char) : List Char → List (List Char)
  | [] => if done.isEmpty then [] else [done.reverse]
  | '\r' :: '\n' :: rest => ('\n' :: '\r' :: done).reverse :: linesFrom [] rest
  | c :: rest =>
    if c = '\r' || c = '\n' then (c :: done).reverse :: linesFrom [] rest
    else linesFrom (c :: done) rest

def lines (s : String) : List String := (linesFrom [] s.toList).map String.ofList

inductive Edit where
  | keep (old new count : Nat)
  | delete (old new count : Nat)
  | insert (old new count : Nat)
  deriving DecidableEq

structure Sides where
  old : Array String
  new : Array String

structure Window where
  oldStart : Nat
  oldEnd : Nat
  newStart : Nat
  newEnd : Nat

namespace Window

def oldCount (w : Window) : Nat := w.oldEnd - w.oldStart
def newCount (w : Window) : Nat := w.newEnd - w.newStart

end Window

namespace Sides

def same (s : Sides) (i j : Nat) : Bool :=
  match s.old[i]?, s.new[j]? with
  | some a, some b => a == b
  | _, _ => false

def agreeFrom (s : Sides) (i j : Nat) : (limit : Nat) → Nat
  | 0 => 0
  | limit + 1 => if s.same i j then s.agreeFrom (i + 1) (j + 1) limit + 1 else 0

def agreeBefore (s : Sides) (i j : Nat) : (limit : Nat) → Nat
  | 0 => 0
  | limit + 1 =>
    if i ≠ 0 ∧ j ≠ 0 ∧ s.same (i - 1) (j - 1) then s.agreeBefore (i - 1) (j - 1) limit + 1 else 0

end Sides

structure Frontier where
  reached : Array Nat
  centre : Nat

namespace Frontier

def make (limit : Nat) : Frontier := ⟨Array.replicate (2 * limit + 3) 0,limit + 1⟩

def get (f : Frontier) (k : Int) : Nat := f.reached.getD (k + f.centre).toNat 0

def set (f : Frontier) (k : Int) (x : Nat) : Frontier :=
  { f with reached := f.reached.setIfInBounds (k + f.centre).toNat x }

def enter (f : Frontier) (d : Nat) (k : Int) : Nat :=
  if k = -(d : Int) || (k != (d : Int) && f.get (k - 1) < f.get (k + 1)) then f.get (k + 1)
  else f.get (k - 1) + 1

end Frontier

def diagonals (d : Nat) : List Int := (List.range (d + 1)).map (fun (i : Nat) => (d : Int) - 2 * i)

inductive Search where
  | going (forward backward : Frontier)
  | met (old new : Nat)

variable (s : Sides) (w : Window)

def difference : Int := (w.oldCount : Int) - w.newCount

def isOdd : Bool := difference w % 2 != 0

def forwardOn (d : Nat) (k : Int) : Search → Search
  | .met x y => .met x y
  | .going forward backward =>
    let x := forward.enter d k
    let y : Int := x - k
    let run :=
      if x < w.oldCount ∧ 0 ≤ y ∧ y < w.newCount then
        s.agreeFrom (w.oldStart + x) (w.newStart + y.toNat)
          (min (w.oldCount - x) (w.newCount - y.toNat))
      else 0
    let forward := forward.set k (x + run)
    let opposite := -(k - difference w)
    if isOdd w && decide (opposite.natAbs + 1 ≤ d) &&
        decide (w.oldCount ≤ forward.get k + backward.get opposite) then
      .met (w.oldStart + x) (w.newStart + y.toNat)
    else .going forward backward

def backwardOn (d : Nat) (k : Int) : Search → Search
  | .met x y => .met x y
  | .going forward backward =>
    let x := backward.enter d k
    let y : Int := x - k
    let run :=
      if x < w.oldCount ∧ 0 ≤ y ∧ y < w.newCount then
        s.agreeBefore (w.oldEnd - x) (w.newEnd - y.toNat)
          (min (w.oldCount - x) (w.newCount - y.toNat))
      else 0
    let backward := backward.set k (x + run)
    let opposite := -(k - difference w)
    if !isOdd w && decide (opposite.natAbs ≤ d) &&
        decide (w.oldCount ≤ backward.get k + forward.get opposite) then
      .met (w.oldEnd - (x + run)) (w.newEnd - (y + run).toNat)
    else .going forward backward

def oneEdit (d : Nat) (search : Search) : Search :=
  let search := (diagonals d).foldl (fun search k => forwardOn s w d k search) search
  (diagonals d).foldl (fun search k => backwardOn s w d k search) search

def editLimit : Nat := (w.oldCount + w.newCount + 1) / 2 + 1

def middle? : Option (Nat × Nat) :=
  let limit := editLimit w
  let start := Search.going (Frontier.make limit) (Frontier.make limit)
  match (List.range limit).foldl (fun search d => oneEdit s w d search) start with
  | .met x y => some (x,y)
  | .going _ _ => none

def block (make : Nat → Nat → Nat → Edit) (old new count : Nat) : List Edit :=
  if count = 0 then [] else [make old new count]

/-- The script for a part of both sequences: lines that agree at its ends stay, and what is between
them is cut where the searches meet. -/
def script : (depth : Nat) → Window → List Edit
  | 0, _ => []
  | depth + 1, w =>
    let head := s.agreeFrom w.oldStart w.newStart (min w.oldCount w.newCount)
    let w₁ : Window := ⟨w.oldStart + head,w.oldEnd,w.newStart + head,w.newEnd⟩
    let tail := s.agreeBefore w₁.oldEnd w₁.newEnd (min w₁.oldCount w₁.newCount)
    let w₂ : Window := ⟨w₁.oldStart,w₁.oldEnd - tail,w₁.newStart,w₁.newEnd - tail⟩
    let inner :=
      if w₂.oldCount = 0 ∨ w₂.newCount = 0 then
        block .delete w₂.oldStart w₂.newStart w₂.oldCount ++
          block .insert w₂.oldStart w₂.newStart w₂.newCount
      else match middle? s w₂ with
        | some (x,y) =>
          script depth ⟨w₂.oldStart,x,w₂.newStart,y⟩ ++ script depth ⟨x,w₂.oldEnd,y,w₂.newEnd⟩
        | none =>
          [.delete w₂.oldStart w₂.newStart w₂.oldCount,.insert w₂.oldStart w₂.newStart w₂.newCount]
    block .keep w.oldStart w.newStart head ++ inner ++ block .keep w₂.oldEnd w₂.newEnd tail

structure Place where
  before : List Edit
  here : Edit
  after : List Edit

def moveUp : (fuel : Nat) → Place → Place
  | 0, p => p
  | fuel + 1, p =>
    match p.before, p.here with
    | .keep o n count :: earlier, .insert io i inserted =>
      let run := s.agreeBefore (o + count) (i + inserted) (min count inserted)
      if run = 0 then
        if count = 0 then moveUp fuel { p with before := earlier } else p
      else
        let after := match p.after with
          | .keep ao an ac :: later => .keep (ao - run) (an - run) (ac + run) :: later
          | after => .keep (o + count - run) (i + inserted - run) run :: after
        let before := if count = run then earlier else .keep o n (count - run) :: earlier
        moveUp fuel ⟨before,.insert (io - run) (i - run) inserted,after⟩
    | .keep _ _ count :: earlier, .delete _ _ _ =>
      if count = 0 then moveUp fuel { p with before := earlier } else p
    | .delete o n c :: earlier, .insert io i ic =>
      moveUp fuel ⟨earlier,.insert io i ic,.delete o n c :: p.after⟩
    | .insert io i ic :: earlier, .delete o n c =>
      moveUp fuel ⟨earlier,.delete o n c,.insert io i ic :: p.after⟩
    | .insert io i ic :: earlier, .insert _ _ more =>
      moveUp fuel ⟨earlier,.insert io i (ic + more),p.after⟩
    | .delete o n c :: earlier, .delete _ _ more =>
      moveUp fuel ⟨earlier,.delete o n (c + more),p.after⟩
    | _, _ => p

def moveDown : (fuel : Nat) → Place → Place
  | 0, p => p
  | fuel + 1, p =>
    match p.after, p.here with
    | .keep o n count :: later, .insert io i inserted =>
      let run := s.agreeFrom o i (min count inserted)
      if run = 0 then
        if count = 0 then moveDown fuel { p with after := later } else p
      else
        let before := match p.before with
          | .keep bo bn bc :: earlier => .keep bo bn (bc + run) :: earlier
          | before => .keep o i run :: before
        let after := if count = run then later else .keep (o + run) (n + run) (count - run) :: later
        moveDown fuel ⟨before,.insert (io + run) (i + run) inserted,after⟩
    | .keep _ _ count :: later, .delete _ _ _ =>
      if count = 0 then moveDown fuel { p with after := later } else p
    | .delete o n c :: later, .insert io i ic =>
      moveDown fuel ⟨.delete o n c :: p.before,.insert io i ic,later⟩
    | .insert io i ic :: later, .delete o n c =>
      moveDown fuel ⟨.insert io i ic :: p.before,.delete o n c,later⟩
    | .insert _ _ more :: later, .insert io i ic =>
      moveDown fuel ⟨p.before,.insert io i (ic + more),later⟩
    | .delete _ _ more :: later, .delete o n c =>
      moveDown fuel ⟨p.before,.delete o n (c + more),later⟩
    | _, _ => p

def Edit.isDelete : Edit → Bool
  | .delete _ _ _ => true
  | _ => false

def Edit.isInsert : Edit → Bool
  | .insert _ _ _ => true
  | _ => false

def moveAll (chosen : Edit → Bool) : (fuel : Nat) → (before after : List Edit) → List Edit
  | 0, before, after => before.reverse ++ after
  | _, before, [] => before.reverse
  | fuel + 1, before, here :: after =>
    if chosen here then
      let bound := 4 * (s.old.size + s.new.size) + 4
      let p := moveDown s bound (moveUp s bound ⟨before,here,after⟩)
      moveAll chosen fuel (p.here :: p.before) p.after
    else moveAll chosen fuel (here :: before) after

def settled (edits : List Edit) : List Edit :=
  let bound := 4 * (s.old.size + s.new.size) + 4
  moveAll s Edit.isInsert bound [] (moveAll s Edit.isDelete bound [] edits)

def shownLine (mark : String) (line : String) : String :=
  mark ++ String.ofList ((line.toList.reverse.dropWhile (· == '\n')).reverse)

def part (lines : Array String) (start count : Nat) : List String :=
  (lines.extract start (start + count)).toList

def render (gone come : List String) : List Edit → List String
  | [] => gone ++ come
  | .keep _ _ _ :: rest => gone ++ come ++ render [] [] rest
  | .delete o _ c :: rest => render (gone ++ (part s.old o c).map (shownLine "- ")) come rest
  | .insert _ n c :: rest => render gone (come ++ (part s.new n c).map (shownLine "+ ")) rest

def changes (old new : String) : List String :=
  let s : Sides := ⟨(lines old).toArray,(lines new).toArray⟩
  let whole : Window := ⟨0,s.old.size,0,s.new.size⟩
  render s [] [] (settled s (script s (s.old.size + s.new.size + 1) whole))

end RouterReconciler.LineDiff

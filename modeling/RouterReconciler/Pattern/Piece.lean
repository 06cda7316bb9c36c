import RouterReconciler.Pattern.Basic

/-!
Pieces of a pattern's notation: the pattern that each stands for, how deep the notation nests, and
about how much memory an automaton for it takes. A repetition of what matches the empty text alone
is the same as one occurrence, and a repetition without a limit is the same when it is repeated.
-/
namespace RouterReconciler.Pattern

def next : Pattern → Pattern → Pattern
  | empty, b => b
  | a, empty => a
  | a, b => seq a b

def starOf : Pattern → Pattern
  | star a => star a
  | plus a => star a
  | a => star a

def plusOf : Pattern → Pattern
  | star a => star a
  | plus a => plus a
  | a => plus a

structure Piece where
  pattern : Pattern
  depth : Nat
  size : Nat
  isEmptyOnly : Bool

namespace Piece

def stateSize : Nat := 32

def choiceSize : Nat := 40

def empty : Piece := ⟨.empty,0,0,true⟩

def edge (kind : Edge) : Piece := ⟨.edge kind,0,stateSize,true⟩

def literal (c : Char) : Piece := ⟨.one (.one c),0,stateSize * c.utf8Size,false⟩

def ofSet (set : CharClass) (depth : Nat) : Piece :=
  ⟨.one set,depth,2 * stateSize + set.weight,false⟩

def group (captures : Bool) (a : Piece) : Piece :=
  { a with
    depth := a.depth + 1
    size := if captures then a.size + 2 * stateSize else a.size }

def either (a b : Piece) : Piece :=
  ⟨.alt a.pattern b.pattern,max a.depth b.depth,a.size + b.size + choiceSize,
    a.isEmptyOnly && b.isEmptyOnly⟩

def atLeast (a : Piece) (low : Nat) : Piece :=
  let pattern := match low with
    | 0 => starOf a.pattern
    | 1 => plusOf a.pattern
    | n + 2 => .seq (.times (n + 1) a.pattern) (plusOf a.pattern)
  ⟨pattern,a.depth + 1,max 1 low * a.size + choiceSize,false⟩

def within (a : Piece) (low high : Nat) : Piece :=
  let more := high - low
  let fixed : Pattern := match low with
    | 0 => .empty
    | 1 => a.pattern
    | n => .times n a.pattern
  let free : Pattern := if more = 0 then .empty else .atMost more a.pattern
  ⟨next fixed free,a.depth + 1,low * a.size + more * (a.size + choiceSize),high = 0⟩

def repeated (a : Piece) : Nat × Option Nat → Piece
  | (low,high) =>
    if a.isEmptyOnly then { a.within (min low 1) (min (high.getD 1) 1) with isEmptyOnly := true }
    else match high with
      | none => a.atLeast low
      | some high => a.within low high

end Piece

structure Sequence where
  joined : Piece
  count : Nat

namespace Sequence

def none : Sequence := ⟨.empty,0⟩

def add (s : Sequence) (a : Piece) : Sequence :=
  { joined :=
      ⟨next s.joined.pattern a.pattern,max s.joined.depth a.depth,s.joined.size + a.size,
        s.joined.isEmptyOnly && a.isEmptyOnly⟩
    count := s.count + 1 }

def addMark (s : Sequence) : Sequence := { s with count := s.count + 1 }

def close (s : Sequence) : Piece :=
  if s.count ≤ 1 then s.joined else { s.joined with depth := s.joined.depth + 1 }

end Sequence
end RouterReconciler.Pattern

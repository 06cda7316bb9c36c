import RouterReconciler.Text.Basic
import RouterReconciler.Text.CaseVariants
import RouterReconciler.Text.WordCharacters

/-!
Search patterns and where they match. A pattern is matched from a place in a text; the answer is
the list of places where a match can end, each place once. A search asks whether some place of the
text begins a match.
-/
namespace RouterReconciler

inductive CharClass where
  | nothing
  | range (low high : Nat)
  | digit
  | space
  | word
  | union (a b : CharClass)
  | inter (a b : CharClass)
  | complement (a : CharClass)
  | folded (a : CharClass)
  deriving DecidableEq

namespace CharClass

def holds : CharClass → Nat → Bool
  | nothing, _ => false
  | range low high, n => low ≤ n && n ≤ high
  | digit, n => Text.isDecimalDigit (Char.ofNat n)
  | space, n => Text.isBlank (Char.ofNat n)
  | word, n => Text.isWordCharacter (Char.ofNat n)
  | union a b, n => a.holds n || b.holds n
  | inter a b, n => a.holds n && b.holds n
  | complement a, n => !a.holds n
  | folded a, n => (Text.caseVariants n).any a.holds

def one (c : Char) : CharClass := range c.toNat c.toNat

def unionAll : List CharClass → CharClass
  | [] => nothing
  | [a] => a
  | a :: rest => union a (unionAll rest)

def weight : CharClass → Nat
  | nothing => 0
  | range _ high => if high < 128 then 8 else 128
  | digit => 4600
  | space => 620
  | word => 48100
  | union a b => a.weight + b.weight
  | inter a b => max a.weight b.weight
  | complement a => a.weight + 900
  | folded a => 2 * a.weight

end CharClass

inductive Edge where
  | textStart
  | textEnd
  | lineStart (crlf : Bool)
  | lineEnd (crlf : Bool)
  | wordEdge
  | noWordEdge
  | wordStart
  | wordEnd
  | afterNoWord
  | beforeNoWord
  deriving DecidableEq

inductive Pattern where
  | empty
  | one (set : CharClass)
  | edge (kind : Edge)
  | seq (a b : Pattern)
  | alt (a b : Pattern)
  | star (a : Pattern)
  | plus (a : Pattern)
  | times (n : Nat) (a : Pattern)
  | atMost (n : Nat) (a : Pattern)
  deriving DecidableEq

namespace Pattern

structure Place where
  before : Option Char
  after : List Char
  deriving DecidableEq

def distinct (places : List Place) : List Place := places.eraseDups

def wordAt : Option Char → Bool
  | some c => Text.isWordCharacter c
  | none => false

def isEdge (before after : Option Char) : Edge → Bool
  | .textStart => before.isNone
  | .textEnd => after.isNone
  | .lineStart false => before.isNone || before == some '\n'
  | .lineStart true =>
    before.isNone || before == some '\n' || (before == some '\r' && after != some '\n')
  | .lineEnd false => after.isNone || after == some '\n'
  | .lineEnd true =>
    after.isNone || after == some '\r' || (after == some '\n' && before != some '\r')
  | .wordEdge => wordAt before != wordAt after
  | .noWordEdge => wordAt before == wordAt after
  | .wordStart => !wordAt before && wordAt after
  | .wordEnd => wordAt before && !wordAt after
  | .afterNoWord => !wordAt before
  | .beforeNoWord => !wordAt after

def closure (step : Place → List Place) : (fuel : Nat) → (seen frontier : List Place) → List Place
  | 0, seen, _ => seen
  | fuel + 1, seen, frontier =>
    let fresh := (distinct (frontier.flatMap step)).filter (fun p => !seen.contains p)
    if fresh.isEmpty then seen else closure step fuel (seen ++ fresh) fresh

def power (step : Place → List Place) : (n : Nat) → List Place → List Place
  | 0, places => places
  | _, [] => []
  | n + 1, places => power step n (distinct (places.flatMap step))

def ends : Pattern → Place → List Place
  | empty, p => [p]
  | one set, p =>
    match p.after with
    | c :: rest => if set.holds c.toNat then [⟨some c,rest⟩] else []
    | [] => []
  | edge kind, p => if isEdge p.before p.after.head? kind then [p] else []
  | seq a b, p => distinct ((ends a p).flatMap (ends b))
  | alt a b, p => distinct (ends a p ++ ends b p)
  | star a, p => closure (ends a) (p.after.length + 1) [p] [p]
  | plus a, p =>
    let once := ends a p
    closure (ends a) (p.after.length + 1) once once
  | times n a, p => power (ends a) n [p]
  | atMost n a, p => closure (ends a) n [p] [p]

def foundFrom (a : Pattern) (before : Option Char) : List Char → Bool
  | [] => !(ends a ⟨before,[]⟩).isEmpty
  | c :: rest => !(ends a ⟨before,c :: rest⟩).isEmpty || foundFrom a (some c) rest

def occursIn (a : Pattern) (s : String) : Bool := foundFrom a none s.toList

end Pattern
end RouterReconciler

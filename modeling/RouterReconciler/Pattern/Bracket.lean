import RouterReconciler.Pattern.Escape
import RouterReconciler.Pattern.Piece

/-!
Classes of characters in brackets: characters, ranges, named classes, nested classes and the
operators between sets. A class that is never closed is a fault of its opening.
-/
namespace RouterReconciler.Pattern.Parser

def ascii (names : List (Char × Char)) : CharClass :=
  .unionAll (names.map (fun r => .range r.1.toNat r.2.toNat))

def namedClass? (name : String) : Option CharClass :=
  match name with
  | "alnum" => some (ascii [('0','9'),('A','Z'),('a','z')])
  | "alpha" => some (ascii [('A','Z'),('a','z')])
  | "ascii" => some (.range 0 127)
  | "blank" => some (ascii [('\t','\t'),(' ',' ')])
  | "cntrl" => some (.union (.range 0 31) (.range 127 127))
  | "digit" => some (ascii [('0','9')])
  | "graph" => some (ascii [('!','~')])
  | "lower" => some (ascii [('a','z')])
  | "print" => some (ascii [(' ','~')])
  | "punct" => some (ascii [('!','/'),(':','@'),('[','`'),('\x7b','~')])
  | "space" => some (.union (.range 9 13) (.one ' '))
  | "upper" => some (ascii [('A','Z')])
  | "word" => some (ascii [('0','9'),('A','Z'),('_','_'),('a','z')])
  | "xdigit" => some (ascii [('0','9'),('A','F'),('a','f')])
  | _ => none

def namedRange? : List Char → Option (CharClass × List Char)
  | ':' :: rest =>
    let (negated,body) := match rest with
      | '^' :: tail => (true,tail)
      | _ => (false,rest)
    let name := body.takeWhile (· != ':')
    match body.drop name.length with
    | ':' :: ']' :: rest =>
      (namedClass? (String.ofList name)).map
        (fun set => (if negated then .complement set else set,rest))
    | _ => none
  | _ => none

def bracketAtom (cs : List Char) : Except Fault (WithRest Primitive) :=
  match cs with
  | '\\' :: _ => escape cs
  | c :: rest => .ok (.literal c,rest)
  | [] => .error (.first .unclosedClass [])

def opensRange (f : Flags) (cs : List Char) : Bool :=
  match f.skip cs with
  | ']' :: _ => false
  | '-' :: _ => false
  | _ => true

def itemSet (start stop : List Char) : Primitive → Except Fault CharClass
  | .literal c => .ok (.one c)
  | .set s => .ok s
  | .edge _ => .error (.between .escapeInClass start stop)

def rangeFrom (start stop cs : List Char) (low : Primitive) :
    Except Fault (WithRest CharClass) := do
  let (high,rest) ← bracketAtom cs
  match low, high with
  | .literal a, .literal b =>
    if a ≤ b then .ok (.range a.toNat b.toNat,rest) else .error (.between .emptyRange start rest)
  | .literal _, _ => .error (.between .classAsBoundary cs rest)
  | _, _ => .error (.between .classAsBoundary start stop)

def bracketItem (f : Flags) (unclosed : Fault) (cs : List Char) :
    Except Fault (WithRest CharClass) := do
  let (item,stop) ← bracketAtom cs
  match f.skip stop with
  | [] => .error unclosed
  | '-' :: tail =>
    if opensRange f tail then
      match f.skip tail with
      | [] => .error unclosed
      | other => rangeFrom cs stop other item
    else (itemSet cs stop item).map (fun set => (set,'-' :: tail))
  | rest => (itemSet cs stop item).map (fun set => (set,rest))

structure WrittenSet where
  set : CharClass
  depth : Nat

structure SetItems where
  union : CharClass
  count : Nat
  depth : Nat

namespace SetItems

def none : SetItems := ⟨.nothing,0,0⟩

def add (items : SetItems) (set : CharClass) (depth : Nat) : SetItems :=
  ⟨match items.union with
    | .nothing => set
    | union => .union union set,
    items.count + 1,max items.depth depth⟩

def close (items : SetItems) : WrittenSet :=
  ⟨items.union,if items.count ≤ 1 then items.depth else items.depth + 1⟩

end SetItems

structure BracketStart where
  negated : Bool
  first : SetItems
  unclosed : Fault

def bracketLeading (f : Flags) (start : List Char) (negated : Bool) (cs : List Char) :
    Except Fault (WithRest BracketStart) :=
  let dashes := cs.takeWhile (· == '-')
  let begun (first : SetItems) (rest : List Char) : Except Fault (WithRest BracketStart) :=
    .ok (⟨negated,first,.between .unclosedClass start rest⟩,rest)
  let itself (c : Char) (count : Nat) : SetItems := ⟨f.fold (.one c),count,0⟩
  match dashes, f.skip (cs.drop dashes.length) with
  | [], [] => .error (.between .unclosedClass start [])
  | [], ']' :: tail =>
    match f.skip tail with
    | [] => .error (.between .unclosedClass start [])
    | rest => begun (itself ']' 1) rest
  | [], rest => begun .none rest
  | _, [] => .error (.first .unclosedClass start)
  | _, rest => begun (itself '-' dashes.length) rest

def bracketStart (f : Flags) (start cs : List Char) : Except Fault (WithRest BracketStart) :=
  match f.skip cs with
  | '^' :: tail => bracketLeading f start true (f.skip tail)
  | rest => bracketLeading f start false rest

inductive SetOperator where
  | inter
  | minus
  | symmetric

def SetOperator.apply : SetOperator → CharClass → CharClass → CharClass
  | inter, a, b => .inter a b
  | minus, a, b => .inter a (.complement b)
  | symmetric, a, b => .union (.inter a (.complement b)) (.inter b (.complement a))

def setOperator? : List Char → Option (SetOperator × List Char)
  | '&' :: '&' :: rest => some (.inter,rest)
  | '-' :: '-' :: rest => some (.minus,rest)
  | '~' :: '~' :: rest => some (.symmetric,rest)
  | _ => none

def combine (pending : Option (SetOperator × WrittenSet)) (items : SetItems) : WrittenSet :=
  let right := items.close
  match pending with
  | some (operator,left) =>
    ⟨operator.apply left.set right.set,max left.depth right.depth + 1⟩
  | none => right

def closed (start : BracketStart) (written : WrittenSet) : WrittenSet :=
  ⟨if start.negated then .complement written.set else written.set,written.depth + 1⟩

def bracketItems (f : Flags) : (fuel : Nat) → (unclosed : Fault) →
    (pending : Option (SetOperator × WrittenSet)) → (items : SetItems) → List Char →
    Except Fault (WithRest WrittenSet)
  | 0, unclosed, _, _, _ => .error unclosed
  | fuel + 1, unclosed, pending, items, cs =>
    match f.skip cs with
    | [] => .error unclosed
    | ']' :: rest => .ok (combine pending items,rest)
    | '[' :: rest =>
      match namedRange? rest with
      | some (named,rest) =>
        bracketItems f fuel unclosed pending (items.add (f.fold named) 0) rest
      | none => do
        let (start,body) ← bracketStart f ('[' :: rest) rest
        let (inner,rest) ← bracketItems f fuel start.unclosed none start.first body
        let inner := closed start inner
        bracketItems f fuel unclosed pending (items.add inner.set inner.depth) rest
    | cs =>
      match setOperator? cs with
      | some (operator,rest) =>
        bracketItems f fuel unclosed (some (operator,combine pending items)) .none rest
      | none => do
        let (item,rest) ← bracketItem f unclosed cs
        bracketItems f fuel unclosed pending (items.add (f.fold item) 0) rest

def bracketed (f : Flags) (rest : List Char) : Except Fault (WithRest Piece) := do
  let (start,body) ← bracketStart f ('[' :: rest) rest
  let (written,rest) ← bracketItems f (2 * rest.length + 2) start.unclosed none start.first body
  let whole := closed start written
  .ok (.ofSet whole.set whole.depth,rest)

end RouterReconciler.Pattern.Parser

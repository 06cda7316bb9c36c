import RouterReconciler.Text.Numeral

/-!
The texts of a TOML document: blanks and comments, the four kinds of quoted text, and keys. Each
reader gives what it read and the characters that follow it.
-/
namespace RouterReconciler.Toml

def isSpace (c : Char) : Bool := c == ' ' || c == '\t'

def isForbidden (c : Char) : Bool := (c.toNat < 32 && c != '\t') || c.toNat = 127

def skipSpace (cs : List Char) : List Char := cs.dropWhile isSpace

def skipLines (inComment : Bool) : List Char → Option (List Char)
  | [] => some []
  | '\n' :: rest => skipLines false rest
  | '\r' :: '\n' :: rest => skipLines false rest
  | c :: rest =>
    if inComment then
      if isForbidden c then none else skipLines true rest
    else if c = '#' then skipLines true rest
    else if isSpace c then skipLines false rest
    else some (c :: rest)

def endLine (inComment : Bool) : List Char → Option (List Char)
  | [] => some []
  | '\n' :: rest => some rest
  | '\r' :: '\n' :: rest => some rest
  | c :: rest =>
    if inComment then
      if isForbidden c then none else endLine true rest
    else if c = '#' then endLine true rest
    else if isSpace c then endLine false rest
    else none

def charOfHex? (digits : List Char) : Option Char :=
  (Text.hexFrom? 0 digits).bind fun n =>
    if n < 0xD800 ∨ (0xDFFF < n ∧ n ≤ 0x10FFFF) then some (Char.ofNat n) else none

def simpleEscape? : Char → Option Char
  | '"' => some '"'
  | '\\' => some '\\'
  | 'b' => some '\x08'
  | 'e' => some '\x1b'
  | 'f' => some '\x0c'
  | 'n' => some '\n'
  | 'r' => some '\r'
  | 't' => some '\t'
  | _ => none

def escape? (cs : List Char) : Option (Char × List Char) :=
  match cs with
  | 'x' :: rest => (charOfHex? (rest.take 2)).bind (after rest 2)
  | 'u' :: rest => (charOfHex? (rest.take 4)).bind (after rest 4)
  | 'U' :: rest => (charOfHex? (rest.take 8)).bind (after rest 8)
  | c :: rest => (simpleEscape? c).map (·,rest)
  | [] => none
where
  after (rest : List Char) (count : Nat) (c : Char) : Option (Char × List Char) :=
    if rest.length < count then none else some (c,rest.drop count)

def quotedBody : (bound : Nat) → List Char → Option (List Char × List Char)
  | _, [] => none
  | 0, _ => none
  | _ + 1, '"' :: rest => some ([],rest)
  | bound + 1, '\\' :: rest => do
    let (c,rest) ← escape? rest
    let (body,rest) ← quotedBody bound rest
    some (c :: body,rest)
  | bound + 1, c :: rest =>
    if isForbidden c then none
    else (quotedBody bound rest).map (fun r => (c :: r.1,r.2))

def literalBody : List Char → Option (List Char × List Char)
  | [] => none
  | c :: rest =>
    if c.toNat = 39 then some ([],rest)
    else if isForbidden c then none
    else (literalBody rest).map (fun r => (c :: r.1,r.2))

def longEnd? (quote : Char) (cs : List Char) : Option (List Char × List Char) :=
  let count := min 5 (cs.takeWhile (· == quote)).length
  if count < 3 then none else some (List.replicate (count - 3) quote,cs.drop count)

def afterFoldedLine? (cs : List Char) : Option (List Char) :=
  match skipSpace cs with
  | '\n' :: rest => some (dropMargin rest)
  | '\r' :: '\n' :: rest => some (dropMargin rest)
  | _ => none
where
  dropMargin : List Char → List Char
    | '\n' :: rest => dropMargin rest
    | '\r' :: '\n' :: rest => dropMargin rest
    | c :: rest => if isSpace c then dropMargin rest else c :: rest
    | [] => []

def longBody (literal : Bool) : (bound : Nat) → List Char → Option (List Char × List Char)
  | 0, _ => none
  | bound + 1, cs =>
    let quote := if literal then Char.ofNat 39 else '"'
    match longEnd? quote cs with
    | some ending => some ending
    | none =>
      match cs with
      | [] => none
      | '\n' :: rest => (longBody literal bound rest).map (fun r => ('\n' :: r.1,r.2))
      | '\r' :: '\n' :: rest =>
        (longBody literal bound rest).map (fun r => ('\r' :: '\n' :: r.1,r.2))
      | c :: rest =>
        if c = '\\' && !literal then
          match afterFoldedLine? rest with
          | some rest => longBody literal bound rest
          | none => do
            let (c,rest) ← escape? rest
            let (body,rest) ← longBody literal bound rest
            some (c :: body,rest)
        else if isForbidden c then none
        else (longBody literal bound rest).map (fun r => (c :: r.1,r.2))

def dropFirstLineEnd : List Char → List Char
  | '\n' :: rest => rest
  | '\r' :: '\n' :: rest => rest
  | cs => cs

def shortText (cs : List Char) : Option (List Char × List Char) :=
  match cs with
  | '"' :: rest => quotedBody (rest.length + 1) rest
  | c :: rest => if c.toNat = 39 then literalBody rest else none
  | [] => none

def isQuote (c : Char) : Bool := c == '"' || c.toNat = 39

def anyText (cs : List Char) : Option (List Char × List Char) :=
  match cs with
  | a :: b :: c :: rest =>
    if isQuote a && a == b && b == c then
      longBody (a != '"') (rest.length + 1) (dropFirstLineEnd rest)
    else shortText cs
  | _ => shortText cs

def isBare (c : Char) : Bool := c.isAlphanum || c == '-' || c == '_'

def keyPart (cs : List Char) : Option (String × List Char) :=
  match cs with
  | [] => none
  | c :: _ =>
    if isQuote c then (shortText cs).map (fun r => (String.ofList r.1,r.2))
    else
      let bare := cs.takeWhile isBare
      if bare.isEmpty then none else some (String.ofList bare,cs.dropWhile isBare)

def maxParts : Nat := 80

def keyPath : (bound : Nat) → List Char → Option (List String × List Char)
  | 0, _ => none
  | bound + 1, cs => do
    let (part,rest) ← keyPart (skipSpace cs)
    match skipSpace rest with
    | '.' :: rest => do
      let (others,rest) ← keyPath bound rest
      some (part :: others,rest)
    | rest => some ([part],rest)

end RouterReconciler.Toml

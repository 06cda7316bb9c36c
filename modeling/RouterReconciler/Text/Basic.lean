/-!
Text as lists of characters: blanks, pieces between separators, lines, and the search for one
text inside another. Everything is stated on `List Char`; the `String` functions only convert.
-/
namespace RouterReconciler.Text

def isBlank (c : Char) : Bool :=
  let n := c.toNat
  (9 ≤ n && n ≤ 13) || n = 32 || n = 0x85 || n = 0xA0 || n = 0x1680 ||
  (0x2000 ≤ n && n ≤ 0x200A) || n = 0x2028 || n = 0x2029 || n = 0x202F || n = 0x205F || n = 0x3000

def isControl (c : Char) : Bool :=
  c.toNat < 32 || (127 ≤ c.toNat && c.toNat < 160)

def isAscii (c : Char) : Bool := c.toNat < 128

def dropEndWhile (p : Char → Bool) (cs : List Char) : List Char :=
  (cs.reverse.dropWhile p).reverse

def trimChars (cs : List Char) : List Char := dropEndWhile isBlank (cs.dropWhile isBlank)

def trim (s : String) : String := String.ofList (trimChars s.toList)

def trimEnd (s : String) : String := String.ofList (dropEndWhile isBlank s.toList)

def trimStartOf (c : Char) (s : String) : String := String.ofList (s.toList.dropWhile (· == c))

def pieces (isSeparator : Char → Bool) : List Char → List (List Char)
  | [] => [[]]
  | c :: rest =>
    if isSeparator c then [] :: pieces isSeparator rest
    else match pieces isSeparator rest with
      | [] => [[c]]
      | piece :: others => (c :: piece) :: others

def splitOn (separator : Char) (s : String) : List String :=
  (pieces (· == separator) s.toList).map String.ofList

def cutTwice (separator : Char) (cs : List Char) : List (List Char) :=
  match pieces (· == separator) cs with
  | a :: b :: c :: rest => [a,b,[separator].intercalate (c :: rest)]
  | short => short

def words (cs : List Char) : List (List Char) :=
  (pieces isBlank cs).filter (fun word => !word.isEmpty)

def dropReturn (cs : List Char) : List Char :=
  match cs.reverse with
  | '\r' :: rest => rest.reverse
  | _ => cs

def lineList (cs : List Char) : List (List Char) :=
  match (pieces (· == '\n') cs).reverse with
  | [] => []
  | last :: earlier =>
    let ended := (earlier.map dropReturn).reverse
    if last.isEmpty then ended else ended ++ [last]

def lines (s : String) : List String := (lineList s.toList).map String.ofList

def occursIn (needle : List Char) : List Char → Bool
  | [] => needle.isEmpty
  | c :: rest => needle.isPrefixOf (c :: rest) || occursIn needle rest

def contains (s needle : String) : Bool := occursIn needle.toList s.toList

def startsWith (s start : String) : Bool := start.toList.isPrefixOf s.toList

def afterPrefix? : (start cs : List Char) → Option (List Char)
  | [], cs => some cs
  | _ :: _, [] => none
  | a :: start, c :: cs => if a = c then afterPrefix? start cs else none

def dropPrefix? (s start : String) : Option String :=
  (afterPrefix? start.toList s.toList).map String.ofList

def dropSuffix? (s ending : String) : Option String :=
  (afterPrefix? ending.toList.reverse s.toList.reverse).map (fun cs => String.ofList cs.reverse)

def unifyLineEnds : List Char → List Char
  | '\r' :: '\n' :: rest => '\n' :: unifyLineEnds rest
  | c :: rest => c :: unifyLineEnds rest
  | [] => []

def lowerAscii (s : String) : String := String.ofList (s.toList.map Char.toLower)

def joinWith (separator : String) (parts : List String) : String := separator.intercalate parts

theorem piecesNotNil (p : Char → Bool) (cs : List Char) : pieces p cs ≠ [] := by
  induction cs with
  | nil => simp [pieces]
  | cons c rest ih =>
    unfold pieces
    split
    · simp
    · split <;> simp

end RouterReconciler.Text

import RouterReconciler.Text.Basic

/-!
Paths of local files, as texts with slashes: joining, the parent, and the name's extension. Empty
levels and `.` do not count as levels.
-/
namespace RouterReconciler.LocalPath

def isAbsolute (p : String) : Bool := Text.startsWith p "/"

def join (base p : String) : String :=
  if isAbsolute p || base.isEmpty then p
  else if base.toList.getLast? == some '/' then base ++ p
  else base ++ "/" ++ p

def isLevel (piece : List Char) : Bool := !piece.isEmpty && piece != ['.']

def pieces (p : String) : List (List Char) := Text.pieces (· == '/') p.toList

def enter (above : List String) (piece : List Char) : List String :=
  if !isLevel piece then above
  else if piece = ['.','.'] then above.dropLast
  else above ++ [String.ofList piece]

def levels (p : String) : List String := (pieces p).foldl enter []

def namesDirectory (p : String) : Bool :=
  match (pieces p).getLast? with
  | some piece => !isLevel piece
  | none => true

def dropDots : (fuel : Nat) → List Char → List Char
  | 0, cs => cs
  | fuel + 1, cs =>
    match cs with
    | '/' :: rest => dropDots fuel rest
    | '.' :: '/' :: rest => dropDots fuel rest
    | _ => cs

def lastLevel (p : String) : List Char × List Char :=
  let body := dropDots p.length p.toList.reverse
  (body.takeWhile (· != '/'),body.dropWhile (· != '/'))

def parent? (p : String) : Option String :=
  let (name,above) := lastLevel p
  if name.isEmpty then none
  else
    let dir := (dropDots p.length above).reverse
    if dir.isEmpty && isAbsolute p then some "/" else some (String.ofList dir)

def fileName? (p : String) : Option String :=
  let name := (lastLevel p).1.reverse
  if name.isEmpty || name = ['.','.'] then none else some (String.ofList name)

def extension? (p : String) : Option String :=
  match fileName? p with
  | none => none
  | some name =>
    let reversed := name.toList.reverse
    let extension := reversed.takeWhile (· != '.')
    match reversed.drop extension.length with
    | '.' :: _ :: _ => some (String.ofList extension.reverse)
    | _ => none

def fileStem? (p : String) : Option String :=
  (fileName? p).map fun name =>
    match extension? p with
    | some extension => String.ofList (name.toList.take (name.length - extension.length - 1))
    | none => name

end RouterReconciler.LocalPath

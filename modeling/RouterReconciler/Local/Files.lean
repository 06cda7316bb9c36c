import RouterReconciler.Device.Access
import RouterReconciler.Local.Path

/-!
Local files: texts by path, in directories that are there as soon as something lies in them. A path
is followed from the root down, and what it passes has to be a directory, also where it leads up
again; one that does not begin with a slash is seen from the working directory.
-/
namespace RouterReconciler

structure Files where
  contents : List (List String × String)
  directories : List (List String)
  workingDirectory : String
  deriving DecidableEq

inductive FileFault where
  | missing
  | isDirectory
  | notDirectory
  | taken
  deriving DecidableEq

def FileFault.text : FileFault → String
  | missing => "No such file or directory (os error 2)"
  | isDirectory => "Is a directory (os error 21)"
  | notDirectory => "Not a directory (os error 20)"
  | taken => "File exists (os error 17)"

def FileFault.toError (fault : FileFault) : Error := .file fault.text

namespace Files

def empty : Files := ⟨[],[[]],"/"⟩

def inDirectory (directory : String) : Files := ⟨[],[[],LocalPath.levels directory],directory⟩

def levels (f : Files) (p : String) : List String :=
  LocalPath.levels (LocalPath.join f.workingDirectory p)

def lookup (levels : List String) : List (List String × String) → Option String
  | [] => none
  | (l,text) :: rest => if l = levels then some text else lookup levels rest

def store (levels : List String) (text : String) :
    List (List String × String) → List (List String × String)
  | [] => [(levels,text)]
  | (l,t) :: rest => if l = levels then (l,text) :: rest else (l,t) :: store levels text rest

def content? (f : Files) (p : String) : Option String := lookup (f.levels p) f.contents

def isDirectory (f : Files) (levels : List String) : Bool :=
  f.directories.any levels.isPrefixOf ||
    f.contents.any (fun entry => levels.isPrefixOf entry.1 && levels != entry.1)

def follow (f : Files) : List (List Char) → (here : List String) → Except FileFault (List String)
  | [], here => .ok here
  | piece :: rest, here =>
    if piece.isEmpty then f.follow rest here
    else if f.isDirectory here then f.follow rest (LocalPath.enter here piece)
    else if (lookup here f.contents).isSome then .error .notDirectory
    else .error .missing

def locate (f : Files) (p : String) : Except FileFault (List String) :=
  if p.isEmpty then .error .missing
  else f.follow (LocalPath.pieces (LocalPath.join f.workingDirectory p)) []

def open? (f : Files) (p : String) : Except FileFault String :=
  match f.locate p with
  | .error fault => .error fault
  | .ok levels =>
    if f.isDirectory levels then .error .isDirectory
    else match lookup levels f.contents with
      | some text => if LocalPath.namesDirectory p then .error .notDirectory else .ok text
      | none => .error .missing

def read (f : Files) (p : String) : Except Error (Option String) :=
  match f.open? p with
  | .ok text => .ok (some text)
  | .error .missing => .ok none
  | .error fault => .error fault.toError

def exists? (f : Files) (p : String) : Bool :=
  match f.locate p with
  | .error _ => false
  | .ok levels =>
    f.isDirectory levels || (!LocalPath.namesDirectory p && (lookup levels f.contents).isSome)

def write (f : Files) (p text : String) : Files :=
  { f with contents := store (f.levels p) text f.contents }

def remove (f : Files) (p : String) : Files :=
  { f with contents := f.contents.filter (fun entry => entry.1 != f.levels p) }

def change (edit : Files → Except FileFault Files) : Access Files Unit := fun f =>
  match edit f with
  | .ok g => (.ok (),g)
  | .error fault => (.error fault.toError,f)

def rename (source target : String) (f : Files) : Except FileFault Files := do
  let text ← f.open? source
  let levels ← f.locate target
  if f.isDirectory levels then .error .isDirectory
  else .ok ((f.remove source).write target text)

def create (p text : String) (f : Files) : Except FileFault Files := do
  let levels ← f.locate p
  if f.isDirectory levels || LocalPath.namesDirectory p then .error .isDirectory
  else .ok (f.write p text)

def makeDirectory (levels : List String) (f : Files) : Except FileFault Files :=
  if f.isDirectory levels then .ok f
  else if (lookup levels f.contents).isSome then .error .taken
  else .ok { f with directories := f.directories ++ [levels] }

def makeWay : List (List Char) → (here : List String) → Access Files Unit
  | [], _ => pure ()
  | piece :: rest, here => do
    change (makeDirectory (LocalPath.enter here piece))
    makeWay rest (LocalPath.enter here piece)

def above (f : Files) (p : String) : List (List Char) :=
  ((LocalPath.pieces (LocalPath.join f.workingDirectory p)).filter LocalPath.isLevel).dropLast

def makeParents (p : String) : Access Files Unit := fun f => makeWay (f.above p) [] f

def below (f : Files) (dir : String) : List (String × String) :=
  let top := LocalPath.levels dir
  f.contents.filterMap fun entry =>
    if top.isPrefixOf entry.1 && top != entry.1 then
      some ("/".intercalate (entry.1.drop top.length),entry.2)
    else none

end Files
end RouterReconciler

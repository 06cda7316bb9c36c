import RouterReconciler.Local.Path
import RouterReconciler.Text.Alphanumeric

/-!
The variables of the environment, and the texts that are expanded by them: a tilde at the start of
a path stands for the home directory, `$NAME` and the form with braces for variables.
-/
namespace RouterReconciler

abbrev Environment := List (String × String)

namespace Environment

def get? (e : Environment) (name : String) : Option String := e.lookup name

def home? (e : Environment) : Option String := (e.get? "HOME").filter (!·.isEmpty)

def isNameCharacter (c : Char) : Bool := Text.isAlphanumeric c || c == '_'

def names (s : String) : List String :=
  ((Text.pieces (fun c => !isNameCharacter c) s.toList).filter (fun run => !run.isEmpty)).map
    String.ofList

def cutAt? (needle : List Char) : List Char → Option (List Char × List Char)
  | [] => if needle.isEmpty then some ([],[]) else none
  | c :: rest =>
    if needle.isPrefixOf (c :: rest) then some ([],(c :: rest).drop needle.length)
    else (cutAt? needle rest).map (fun cut => (c :: cut.1,cut.2))

def braced? (e : Environment) (inner : List Char) : Option (List Char) :=
  let (name,fallback) := match cutAt? [':','-'] inner with
    | some ([],_) => (inner,none)
    | some (name,fallback) => (name,some fallback)
    | none => (inner,none)
  match e.get? (String.ofList name) with
  | some value => some value.toList
  | none => fallback

/-- Replaces variables; an unknown one without a fallback makes the whole text unreadable. Two
dollar signs stand for one, and a dollar sign that begins no name for itself. -/
def substitute? (e : Environment) : (bound : Nat) → List Char → Option (List Char)
  | _, [] => some []
  | 0, _ => none
  | bound + 1, '$' :: '\x7b' :: rest =>
    match cutAt? ['\x7d'] rest with
    | some (inner,after) => do
      let value ← e.braced? inner
      let others ← e.substitute? bound after
      some (value ++ others)
    | none => (e.substitute? bound rest).map (fun others => '$' :: '\x7b' :: others)
  | bound + 1, '$' :: '$' :: rest => (e.substitute? bound rest).map ('$' :: ·)
  | bound + 1, '$' :: rest =>
    let name := rest.takeWhile isNameCharacter
    if name.isEmpty then (e.substitute? bound rest).map ('$' :: ·)
    else do
      let value ← e.get? (String.ofList name)
      let others ← e.substitute? bound (rest.dropWhile isNameCharacter)
      some (value.toList ++ others)
  | bound + 1, c :: rest => (e.substitute? bound rest).map (c :: ·)

def expandTilde (e : Environment) (cs : List Char) : List Char :=
  match cs, e.home? with
  | ['~'], some home => home.toList
  | '~' :: '/' :: rest, some home => home.toList ++ '/' :: rest
  | _, _ => cs

/-- Expands a path. A text with an unknown variable stays as it is, and a tilde that comes out of a
variable is not expanded. -/
def expand (e : Environment) (path : String) : String :=
  match e.substitute? (path.length + 1) path.toList with
  | none => path
  | some cs =>
    if Text.startsWith path "~" then String.ofList (e.expandTilde cs) else String.ofList cs

def resolveRelative (e : Environment) (base path : String) : String :=
  let expanded := e.expand path
  if LocalPath.isAbsolute expanded then expanded
  else match LocalPath.parent? base with
    | some directory => LocalPath.join directory expanded
    | none => expanded

def configVariable : String := "TIKCONF_CONFIG_DIR"

def configDirectory? (e : Environment) : Option String :=
  match e.get? configVariable with
  | some directory => some (e.expand directory)
  | none =>
    match e.get? "XDG_CONFIG_HOME" with
    | some directory => some (LocalPath.join directory "tikconf")
    | none => e.home?.map (fun home => LocalPath.join (LocalPath.join home ".config") "tikconf")

def inventoryPath? (e : Environment) : Option String :=
  e.configDirectory?.map (LocalPath.join · "inventory.toml")

end Environment
end RouterReconciler

import RouterReconciler.Facility
import RouterReconciler.TaskFile.Entry
import RouterReconciler.Text.Basic
import RouterReconciler.Text.Numeral

/-!
The arguments of the program: a command with its options and operands. Options may stand anywhere
after the command; those that every command has may also stand before it.
-/
namespace RouterReconciler.CommandLine

inductive Taking where
  | nothing
  | nothingRepeatedly
  | value
  | values
  deriving DecidableEq

structure OptionSpec where
  name : String
  letter : Option Char
  taking : Taking

structure CommandSpec where
  name : String
  options : List OptionSpec
  leastOperands : Nat
  mostOperands : Option Nat

def globalOptions : List OptionSpec :=
  [⟨"verbose",some 'v',.nothingRepeatedly⟩,⟨"quiet",some 'q',.nothing⟩,
    ⟨"json",none,.nothing⟩,⟨"inventory",some 'i',.value⟩]

def commands : List CommandSpec :=
  [⟨"apply",[⟨"device",some 'd',.values⟩,⟨"dry-run",some 'n',.nothing⟩,
      ⟨"jobs",some 'j',.value⟩,⟨"force-transfers",none,.nothing⟩,⟨"yes",some 'y',.nothing⟩],
      1,some 1⟩,
    ⟨"plan",[⟨"device",some 'd',.value⟩,⟨"snapshot",some 's',.value⟩,⟨"os",none,.value⟩],
      1,some 1⟩,
    ⟨"get",[⟨"device",some 'd',.value⟩,⟨"snapshot",some 's',.value⟩,
      ⟨"find",some 'f',.values⟩,⟨"all",some 'a',.nothing⟩],1,none⟩,
    ⟨"cmd",[⟨"device",some 'd',.values⟩,⟨"jobs",some 'j',.value⟩,
      ⟨"yes",some 'y',.nothing⟩],1,some 1⟩,
    ⟨"check-config",[],1,some 1⟩]

structure Arguments where
  given : List (String × String)
  operands : List String

namespace Arguments

def none : Arguments := ⟨[],[]⟩

def option (name value : String) (a : Arguments) : Arguments :=
  { a with given := a.given ++ [(name,value)] }

def operand (text : String) (a : Arguments) : Arguments :=
  { a with operands := a.operands ++ [text] }

def has (a : Arguments) (name : String) : Bool := a.given.any (fun g => g.1 == name)

def all (a : Arguments) (name : String) : List String :=
  (a.given.filter (fun g => g.1 == name)).map Prod.snd

def last? (a : Arguments) (name : String) : Option String := (a.all name).getLast?

end Arguments

def takesValue (o : OptionSpec) : Bool := o.taking = .value || o.taking = .values

def looksLikeOption (arg : String) : Bool := Text.startsWith arg "-" && arg != "-"

def followingValue? : List String → Option (String × List String)
  | [] => none
  | value :: rest => if looksLikeOption value then none else some (value,rest)

def cutEquals (s : String) : String × Option String :=
  let before := s.toList.takeWhile (· != '=')
  match s.toList.drop before.length with
  | [] => (s,none)
  | _ :: after => (String.ofList before,some (String.ofList after))

def longOption? (specs : List OptionSpec) (body : String) (rest : List String) (a : Arguments) :
    Option (Arguments × List String) := do
  let (name,attached) := cutEquals body
  let spec ← specs.find? (fun o => o.name == name)
  if takesValue spec then
    match attached with
    | some value => some (a.option spec.name value,rest)
    | none => do
      let (value,rest) ← followingValue? rest
      some (a.option spec.name value,rest)
  else if attached.isSome then none
  else some (a.option spec.name "",rest)

def letters? (specs : List OptionSpec) (rest : List String) :
    List Char → Arguments → Option (Arguments × List String)
  | [], a => some (a,rest)
  | c :: others, a => do
    let spec ← specs.find? (fun o => o.letter == some c)
    if takesValue spec then
      match others with
      | [] => do
        let (value,rest) ← followingValue? rest
        some (a.option spec.name value,rest)
      | '=' :: value => some (a.option spec.name (String.ofList value),rest)
      | value => some (a.option spec.name (String.ofList value),rest)
    else letters? specs rest others (a.option spec.name "")

def option? (specs : List OptionSpec) (arg : String) (rest : List String) (a : Arguments) :
    Option (Arguments × List String) :=
  match arg.toList with
  | '-' :: '-' :: name => longOption? specs (String.ofList name) rest a
  | '-' :: chars => letters? specs rest chars a
  | _ => none

def readArguments (specs : List OptionSpec) :
    (bound : Nat) → List String → Arguments → Option Arguments
  | _, [], a => some a
  | 0, _, _ => none
  | bound + 1, arg :: rest, a =>
    if arg = "--" then some { a with operands := a.operands ++ rest }
    else if looksLikeOption arg then do
      let (a,rest) ← option? specs arg rest a
      readArguments specs bound rest a
    else readArguments specs bound rest (a.operand arg)

def readCommand : (bound : Nat) → List String → Arguments →
    Option (CommandSpec × Arguments × List String)
  | _, [], _ => none
  | 0, _, _ => none
  | bound + 1, arg :: rest, a =>
    if looksLikeOption arg then do
      let (a,rest) ← option? globalOptions arg rest a
      readCommand bound rest a
    else (commands.find? (fun c => c.name == arg)).map (·,a,rest)

def isSingleGiven (specs : List OptionSpec) (a : Arguments) : Bool :=
  specs.all fun o =>
    o.taking = .values || o.taking = .nothingRepeatedly || (a.all o.name).length ≤ 1

def fits (spec : CommandSpec) (a : Arguments) : Bool :=
  isSingleGiven (spec.options ++ globalOptions) a && spec.leastOperands ≤ a.operands.length &&
    (match spec.mostOperands with
      | some most => a.operands.length ≤ most
      | none => true)

structure Settings where
  quiet : Bool
  json : Bool
  inventory : Option String
  deriving DecidableEq

def Settings.isTalkative (s : Settings) : Bool := !s.quiet && !s.json

inductive Request where
  | apply (tasks : String) (devices : List String) (dryRun forceTransfers yes : Bool)
  | plan (tasks : String) (device snapshot : Option String) (os : Option Generation)
  | get (path : String) (fields : List String) (device snapshot : Option String)
      (find : List (String × String)) (all : Bool)
  | cmd (command : String) (devices : List String) (yes : Bool)
  | checkConfig (tasks : String)

def Request.documents : Request → List String
  | .apply tasks _ _ _ _ => [tasks]
  | .plan tasks _ snapshot _ => tasks :: snapshot.toList
  | .get _ _ _ snapshot _ _ => snapshot.toList
  | .cmd _ _ _ => []
  | .checkConfig tasks => [tasks]

def keyValue? (s : String) : Option (String × String) :=
  match cutEquals s with
  | (key,some value) => if key.isEmpty then none else some (key,value)
  | (_,none) => none

def path? : Option String → Option (Option String)
  | none => some none
  | some p => if p.isEmpty then none else some (some p)

def generation? : Option String → Option (Option Generation)
  | none => some none
  | some name => (TaskFile.generationOf? name).map some

def jobs? : Option String → Option Unit
  | none => some ()
  | some n => (Text.natural? Text.maxWord64 n.toList).map (fun _ => ())

def request? (name : String) (a : Arguments) : Option Request := do
  let snapshot ← path? (a.last? "snapshot")
  let device := a.last? "device"
  let operand ← a.operands.head?
  jobs? (a.last? "jobs")
  match name with
  | "apply" => do
    let tasks ← path? (some operand)
    some (.apply (tasks.getD "") (a.all "device") (a.has "dry-run") (a.has "force-transfers")
      (a.has "yes"))
  | "plan" => do
    let tasks ← path? (some operand)
    let os ← generation? (a.last? "os")
    if device.isSome && snapshot.isSome then none
    else some (.plan (tasks.getD "") device snapshot os)
  | "get" => do
    let find ← (a.all "find").mapM keyValue?
    if device.isSome && snapshot.isSome then none
    else some (.get operand (a.operands.drop 1) device snapshot find (a.has "all"))
  | "cmd" => some (.cmd operand (a.all "device") (a.has "yes"))
  | _ => do
    let tasks ← path? (some operand)
    some (.checkConfig (tasks.getD ""))

def read? (inventory : Option String) (args : List String) : Option (Settings × Request) := do
  let (spec,a,rest) ← readCommand (args.length + 1) args .none
  if isSingleGiven globalOptions a then
    let own ← readArguments (spec.options ++ globalOptions) (rest.length + 1) rest .none
    if fits spec own then
      let request ← request? spec.name own
      let all : Arguments := ⟨a.given ++ own.given,own.operands⟩
      let inventory ← path? ((all.last? "inventory").orElse fun _ => inventory)
      some (⟨all.has "quiet",all.has "json",inventory⟩,request)
    else none
  else none

end RouterReconciler.CommandLine

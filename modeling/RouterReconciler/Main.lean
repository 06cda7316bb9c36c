import RouterReconciler.CommandLine.Run
import RouterReconciler.Pattern.Engine

/-!
The program as it runs: it gathers the variables and the documents that its arguments ask for, and
writes what the commands give. It starts no other program, so that devices are planned for and read
from their snapshots.
-/
namespace RouterReconciler.Main
open scoped Pattern

def gatherVariables (names : List String) : IO Environment :=
  names.filterMapM fun name => do
    let value ← IO.getEnv name
    return value.map fun text => (name,text)

def readDocument (path : String) : IO (Option String) := do
  try
    let text ← IO.FS.readFile path
    return some text
  catch _ => return none

def ownVariables : List String :=
  ["HOME","XDG_CONFIG_HOME",Environment.configVariable,CommandLine.inventoryVariable]

def documentsFor (env : Environment) (args : List String) : List String :=
  match CommandLine.read? (env.get? CommandLine.inventoryVariable) args with
  | some (settings,request) =>
    request.documents ++ (settings.inventory.orElse fun _ => env.inventoryPath?).toList
  | none => []

def holding (path text : String) (f : Files) : Files := (Files.makeParents path f).2.write path text

def start (args : List String) : IO UInt32 := do
  let own ← gatherVariables ownVariables
  let env := own ++ (← gatherVariables (own.flatMap fun v => Environment.names v.2))
  let directory ← IO.currentDir
  let paths := documentsFor env args
  let texts ← paths.mapM readDocument
  let found := (paths.zip texts).filterMap fun d => d.2.map fun text => (d.1,text)
  let files := found.foldl (fun f d => holding d.1 d.2 f) (Files.inDirectory directory.toString)
  let mentioned ← gatherVariables (found.flatMap fun d => Environment.names d.2)
  let (code,host) := CommandLine.run args (Host.make (env ++ mentioned) files NoPrograms.mk)
  IO.print host.output
  IO.eprint host.errors
  return code.toUInt32

end RouterReconciler.Main

def main (args : List String) : IO UInt32 := RouterReconciler.Main.start args

import RouterReconciler.Local.Document
import RouterReconciler.Local.Environment
import RouterReconciler.TaskFile.Build

/-!
Task files: entries in the order in which they run, and the directory from which their local paths
are seen.
-/
namespace RouterReconciler

structure TaskFile where
  path : String
  entries : List TaskFile.Entry

namespace TaskFile

def load (files : Files) (path : String) : Except Failure TaskFile :=
  match files.load path .whole (fun _ => entriesOfJson?) with
  | .ok entries => .ok ⟨path,entries⟩
  | .error f => .error (f.within ("Could not load task file " ++ path))

def labelsFrom (index : Nat) : List Entry → List String
  | [] => []
  | e :: rest => e.label index :: labelsFrom (index + 1) rest

def labels (file : TaskFile) : List String := labelsFrom 0 file.entries

def buildEntry (env : Environment) (file : TaskFile) (os : Generation) (index : Nat) (e : Entry) :
    Except Fault (Option Task) :=
  match build (env.resolveRelative file.path) os e with
  | .ok task => .ok task
  | .error fault => .error (.inEntry (e.label index) fault)

def tasksFrom (env : Environment) (file : TaskFile) (os : Generation) (index : Nat) :
    List Entry → Except Fault (List Task)
  | [] => .ok []
  | e :: rest => do
    let task ← file.buildEntry env os index e
    let others ← tasksFrom env file os (index + 1) rest
    .ok (task.toList ++ others)

def tasksFor (env : Environment) (file : TaskFile) (os : Generation) : Except Fault (List Task) :=
  tasksFrom env file os 0 file.entries

def faultsFrom (env : Environment) (file : TaskFile) (os : Generation) (index : Nat) :
    List Entry → List Fault
  | [] => []
  | e :: rest =>
    let others := faultsFrom env file os (index + 1) rest
    match file.buildEntry env os index e with
    | .ok _ => others
    | .error fault => fault :: others

def check (env : Environment) (file : TaskFile) : List (Generation × Fault) :=
  [Generation.v6,Generation.v7].flatMap fun os =>
    (faultsFrom env file os 0 file.entries).map (os,·)

end TaskFile
end RouterReconciler

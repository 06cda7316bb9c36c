import RouterReconciler.Device.Access
import RouterReconciler.Failure
import RouterReconciler.Local.Environment
import RouterReconciler.Local.Files
import RouterReconciler.Text.Basic

/-!
The host that commands run on: its environment and files, the programs it can run, and what has
been written to its two outputs.
-/
namespace RouterReconciler

structure Host (ρ : Type) where
  environment : Environment
  files : Files
  programs : ρ
  output : String
  errors : String
  warns : Bool

abbrev Command (ρ : Type) := Step (Halt Failure) (Host ρ)

namespace Host
variable {ρ : Type}

def make (environment : Environment) (files : Files) (programs : ρ) : Host ρ :=
  ⟨environment,files,programs,"","",true⟩

def put (text : String) (h : Host ρ) : Host ρ := { h with output := h.output ++ text }

def putError (line : String) (h : Host ρ) : Host ρ := { h with errors := h.errors ++ line ++ "\n" }

def warn (part message : String) (h : Host ρ) : Host ρ :=
  if h.warns then
    h.putError ("[WARN  " ++ part ++ "] " ++ "\n    ".intercalate (Text.splitOn '\n' message))
  else h

end Host

namespace Command
variable {ρ α : Type}

def print (text : String) : Command ρ Unit := Step.modify (Host.put text)

def printLine (line : String) : Command ρ Unit := print (line ++ "\n")

def printError (line : String) : Command ρ Unit := Step.modify (Host.putError line)

def fail (f : Failure) : Command ρ α := Step.fail (.failed f)

end Command
end RouterReconciler

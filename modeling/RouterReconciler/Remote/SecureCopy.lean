import RouterReconciler.Remote.SecureShell
import RouterReconciler.Transfer

/-!
Files copied by the system's copy program, over the connection that the device's scripts use.
-/
namespace RouterReconciler

structure SecureCopy where
  target : Target
  timeoutMilliseconds : Nat
  deriving DecidableEq

namespace SecureCopy

def remoteName (c : SecureCopy) (path : String) : String :=
  c.target.destination ++ ":" ++ Text.trimStartOf '/' path

def invocation (c : SecureCopy) (source dest : String) (uploaded : Option (Option String)) :
    Invocation :=
  { program := "scp"
    destination := c.target.destination
    arguments := ["-q"] ++ c.target.options "-P" c.timeoutMilliseconds ++ [source,dest]
    timeoutMilliseconds := c.timeoutMilliseconds
    uploaded := uploaded }

def failure (c : SecureCopy) (source errors : String) : Error :=
  let told := Text.trim errors
  if Text.contains (Text.lowerAscii told) "no such file" then .notFound source
  else .transport c.target.host told

variable {ρ : Type} [Programs ρ]

def onConsole {α : Type} (x : Access ρ α) : Access (Console (SecureShell ρ) × SecureCopy) α := fun s =>
  match x s.1.transport.programs with
  | (answer,p) =>
    (answer,({ s.1 with transport := { s.1.transport with programs := p } },s.2))

def copy (source dest : String) (uploaded : Option (Option String)) (c : SecureCopy) :
    Access ρ (Option String) := do
  let (code,_,errors,file) ← SecureShell.call c.target (c.invocation source dest uploaded)
  if code = 0 then return file else .fail (c.failure source errors)

instance : FileTransfer (Console (SecureShell ρ)) SecureCopy where
  upload localPath content remote := do
    let (_,c) ← Step.get
    let _ ← onConsole (copy localPath (c.remoteName remote) (some content) c)
    return ()
  download remote localPath := do
    let (_,c) ← Step.get
    onConsole (copy (c.remoteName remote) localPath none c)

end SecureCopy
end RouterReconciler

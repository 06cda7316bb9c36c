import RouterReconciler.Device.Console
import RouterReconciler.Remote.Program
import RouterReconciler.Remote.Target
import RouterReconciler.Text.Shown
import RouterReconciler.Value.Literal

/-!
Scripts sent through the system's login program, one run for each round trip. A script for a device
behind an agent is passed on as a quoted command.
-/
namespace RouterReconciler

structure SecureShell (ρ : Type) where
  target : Target
  timeoutMilliseconds : Nat
  programs : ρ

namespace SecureShell

def throughAgent (id script : String) : Except Error String :=
  (Value.quote script).map fun literal => "/tool romon ssh " ++ id ++ " command=" ++ literal

variable {ρ : Type} [Programs ρ]

def notStarted (target : Target) (i : Invocation) (reason : String) : Error :=
  .transport target.host ("failed to start " ++ Text.shown i.program ++ ": " ++ reason)

def call (target : Target) (i : Invocation) : Access ρ (Int × String × String × Option String) :=
  fun p =>
    if i.arguments.any (fun a => a.toList.contains '\x00') then
      (.error (notStarted target i "nul byte found in provided data"),p)
    else match Programs.run i p with
      | (.notStarted reason,p) => (.error (notStarted target i reason),p)
      | (.timedOut,p) => (.error (.transportTimeout target.host i.timeoutMilliseconds),p)
      | (.exited code output errors file,p) => (.ok (code,output,errors,file),p)

def onPrograms {α : Type} (x : Access ρ α) : Access (SecureShell ρ) α := fun c =>
  match x c.programs with
  | (answer,p) => (answer,{ c with programs := p })

def rendered (t : Target) (script : String) : Except Error String :=
  match t.romonHostId with
  | some id => throughAgent id script
  | none => .ok script

def invocation (c : SecureShell ρ) (script : String) : Invocation :=
  { program := "ssh"
    destination := c.target.destination
    arguments := c.target.options "-p" c.timeoutMilliseconds ++ [c.target.destination,script]
    timeoutMilliseconds := c.timeoutMilliseconds
    uploaded := none }

def failureText (code : Int) (errors : String) : String :=
  let told := Text.trim errors
  if told.isEmpty then "ssh exited with status " ++ toString code else told

def send (script : String) : Access (SecureShell ρ) String := do
  let c ← Step.get
  let script ← (rendered c.target script : Except Error String)
  let (code,output,errors,_) ← onPrograms (call c.target (c.invocation script))
  if code = 0 then return output
  else .fail (.transport c.target.host (failureText code errors))

instance : Transport (SecureShell ρ) := ⟨send⟩

end SecureShell
end RouterReconciler

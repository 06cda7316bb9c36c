import RouterReconciler.Device.Generation
import RouterReconciler.Device.Rehearsal
import RouterReconciler.Device.Snapshot
import RouterReconciler.Fleet.Run
import RouterReconciler.Remote.SecureCopy

/-!
Reaching a device: live, over a login to its host, or offline, as a replica of a snapshot.
-/
namespace RouterReconciler

namespace Session

def offlineContext : String := "Snapshot has no /system resource version; pass --os"

def loadSnapshot (files : Files) (path : String) : Except Error Replica :=
  match files.open? path with
  | .error fault => .error fault.toError
  | .ok text => Replica.ofSnapshot text

def offline (files : Files) (path : String) (os : Option Generation) :
    Except (Halt Failure) (Opened Replica RemoteFiles) :=
  match loadSnapshot files path with
  | .error e => .error (.failed ((Failure.ofError e).within ("Could not load snapshot " ++ path)))
  | .ok d =>
    match Generation.resolve os d with
    | (.error e,_) => .error (e.map fun cause => (Failure.ofError cause).within offlineContext)
    | (.ok os,d) => .ok ⟨(LocalPath.fileStem? path).getD "snapshot",os,⟨d,none,files,[]⟩⟩

variable {ρ : Type} [Programs ρ]

def consoleOf (target : Target) (timeoutMilliseconds : Nat) (programs : ρ) : Console (SecureShell ρ) :=
  ⟨⟨target,timeoutMilliseconds,programs⟩,.standard,[]⟩

def connect (env : Environment) (files : Files) (defaults : DeviceDefaults) (d : DeviceEntry)
    (programs : ρ) :
    Except (Halt Failure × Console (SecureShell ρ)) (Opened (Console (SecureShell ρ)) SecureCopy) :=
  let target := d.target env defaults
  let timeout := 1000 * d.timeout defaults
  match Generation.resolve d.os (consoleOf target timeout programs) with
  | (.error e,console) =>
    .error (e.map fun cause =>
      (Failure.ofError cause).within ("Could not reach " ++ d.name ++ " (" ++ d.host ++ ")"),console)
  | (.ok os,console) => .ok ⟨d.name,os,⟨console,some ⟨target,timeout⟩,files,[]⟩⟩

end Session
end RouterReconciler

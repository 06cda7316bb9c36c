import RouterReconciler.Device.Console
import RouterReconciler.Transfer

/-!
The far end of a device for rehearsals: answers to scripts that are given in advance, and files
held in memory, some of which refuse to be copied.
-/
namespace RouterReconciler

structure Rehearsal where
  replies : List (Except Error String)
  sent : List String

namespace Rehearsal

def send (script : String) : Access Rehearsal String := fun r =>
  match r.replies with
  | [] => (.ok "",{ r with sent := r.sent ++ [script] })
  | reply :: rest => (reply,⟨rest,r.sent ++ [script]⟩)

instance : Transport Rehearsal := ⟨send⟩

end Rehearsal

inductive RemoteFile where
  | content (text : String)
  | refusesUpload (message : String)
  | refusesDownload (message : String)
  deriving DecidableEq

structure RemoteFiles where
  host : String
  files : Entries RemoteFile
  log : List String

namespace RemoteFiles

def note (line : String) (r : RemoteFiles) : RemoteFiles := { r with log := r.log ++ [line] }

def download (name : String) : Access RemoteFiles (Option String) := fun r =>
  let noted := r.note ("download " ++ name)
  match r.files.get? name with
  | some (.content text) => (.ok (some text),noted)
  | some (.refusesDownload m) => (.error (.transport r.host m),noted)
  | _ => (.error (.notFound name),noted)

def upload (content : Option String) (name : String) : Access RemoteFiles Unit := fun r =>
  let noted := r.note ("upload " ++ name)
  match r.files.get? name, content with
  | some (.refusesUpload m), _ => (.error (.transport r.host m),noted)
  | _, some text => (.ok (),{ noted with files := noted.files.insert name (.content text) })
  | _, none => (.error FileFault.missing.toError,noted)

def besides {σ α : Type} (x : Access RemoteFiles α) : Access (σ × RemoteFiles) α := fun s =>
  match x s.2 with
  | (answer,r) => (answer,(s.1,r))

instance {σ : Type} : FileTransfer σ RemoteFiles where
  upload _ content remote := besides (upload content remote)
  download remote _ := besides (download remote)

end RemoteFiles
end RouterReconciler

import RouterReconciler.Device.Access
import RouterReconciler.Local.Files

/-!
Files to and from the device. Both directions compare first: the device's copy is staged next to,
not over, the local one, and bytes move on only when the two differ. They are compared whole, as
digests would be that are equal exactly when the contents are. A local file that is replaced is kept
with `.bak` after its name.
-/
namespace RouterReconciler

class FileTransfer (σ τ : Type) where
  upload : (localPath : String) → (content : Option String) → (remote : String) →
    Access (σ × τ) Unit
  download : (remote localPath : String) → Access (σ × τ) (Option String)

structure Exchange (σ τ : Type) where
  device : σ
  transfer : τ
  files : Files

namespace Exchange
variable {σ τ α : Type}

def step (x : Access (σ × τ) α) : Access (Exchange σ τ) α := fun e =>
  match x (e.device,e.transfer) with
  | (answer,(d,t)) => (answer,⟨d,t,e.files⟩)

def onFiles (x : Access Files α) : Access (Exchange σ τ) α := fun e =>
  match x e.files with
  | (answer,files) => (answer,{ e with files := files })

variable [FileTransfer σ τ]

def staging : String := "<staging>"

def upload (localPath remote : String) : Access (Exchange σ τ) Unit := fun x =>
  step (FileTransfer.upload localPath (x.files.open? localPath).toOption remote) x

def download (remote localPath : String) : Access (Exchange σ τ) Unit := fun x =>
  match step (FileTransfer.download remote localPath) x with
  | (.ok (some text),x) => (.ok (),{ x with files := x.files.write localPath text })
  | (.ok none,x) => (.ok (),x)
  | (.error e,x) => (.error e,x)

def stage (remote : String) : Access (Exchange σ τ) (Option String) :=
  step (FileTransfer.download remote staging)

def remoteCopy (remote : String) : Access (Exchange σ τ) (Option String) := fun x =>
  match stage remote x with
  | (.error e,x) => if e.kind = .notFound then (.ok none,x) else (.error e,x)
  | other => other

def localCopy (localPath : String) : Access (Exchange σ τ) (Option String) := fun x =>
  (x.files.read localPath,x)

def put (localPath remote : String) (apply : Bool) : Access (Exchange σ τ) Bool := do
  match ← localCopy localPath with
  | none => .fail (.notFound localPath)
  | some text => do
    let copy ← remoteCopy remote
    if copy = some text then return false
    else do
      if apply then upload localPath remote
      return true

structure Fetched where
  changed : Bool
  backup : Option String
  deriving DecidableEq

def backupPath (localPath : String) : String := localPath ++ ".bak"

def setAside (localPath : String) : (old : Option String) → Access Files (Option String)
  | none => pure none
  | some _ => do
    Files.change (Files.rename localPath (backupPath localPath))
    return some (backupPath localPath)

def place (localPath : String) : (new : Option String) → Files → Except FileFault Files
  | some text, f => f.create localPath text
  | none, _ => .error .missing

def replace (localPath : String) (old new : Option String) : Access Files Fetched := do
  Files.makeParents localPath
  let backup ← setAside localPath old
  Files.change (place localPath new)
  return ⟨true,backup⟩

def fetch (remote localPath : String) (apply : Bool) : Access (Exchange σ τ) Fetched := do
  let new ← stage remote
  let old ← localCopy localPath
  if new = old then return ⟨false,none⟩
  else if !apply then return ⟨true,none⟩
  else onFiles (replace localPath old new)

end Exchange
end RouterReconciler

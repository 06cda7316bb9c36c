import Mathlib.Logic.Function.Basic
import RouterReconciler.Device.Rehearsal
import RouterReconciler.Proofs.Local.Replacement

/-! Files put to and fetched from a device, by any transfer that does what it says. Each direction moves bytes
exactly where the two sides differ, and then they are equal and the replaced file is kept; where nothing is
to be done or something fails, both sides stay. A local path that leads down to a directory that is not there
and up again is the exception: what it comes to is taken for missing and is not kept. -/
namespace RouterReconciler

/-- A transfer moves files as it says: `held` tells what the files of the device hold, and `file` which of
them a remote path names. -/
structure FileTransfer.Faithful {σ τ ν : Type} [FileTransfer σ τ] [DecidableEq ν] (file : String → ν)
    (held : σ × τ → ν → Option String) : Prop where
  downloaded (remote path : String) (s t : σ × τ) (copy : Option String) :
    FileTransfer.download remote path s = (.ok copy,t) →
      held t = held s ∧ copy = held s (file remote) ∧ copy ≠ none
  notDownloaded (remote path : String) (s t : σ × τ) (e : Error) :
    FileTransfer.download remote path s = (.error e,t) →
      held t = held s ∧ (e.kind = .notFound → held s (file remote) = none)
  uploaded (path text remote : String) (s t : σ × τ) :
    FileTransfer.upload path (some text) remote s = (.ok (),t) →
      held t = Function.update (held s) (file remote) (some text)
  notUploaded (path : String) (content : Option String) (remote : String) (s t : σ × τ) (e : Error) :
    FileTransfer.upload path content remote s = (.error e,t) → held t = held s

namespace Exchange
open Step FileTransfer
variable {σ τ ν : Type} {path remote : String} {x y : Exchange σ τ} {apply : Bool}
variable {file : String → ν} {held : σ × τ → ν → Option String}

def remoteFiles (held : σ × τ → ν → Option String) (x : Exchange σ τ) : ν → Option String :=
  held (x.device,x.transfer)

section Steps
variable [FileTransfer σ τ]

def compared (remote : String) (x : Exchange σ τ) : Exchange σ τ := (stage remote x).2

def Reached (remote : String) (x : Exchange σ τ) : Prop :=
  ∀ e, (stage remote x).1 = .error e → e.kind = .notFound

theorem comparedFiles (remote : String) (x : Exchange σ τ) : (compared remote x).files = x.files := rfl

theorem unreached (fails : ¬Reached remote x) :
    ∃ e, stage remote x = (.error e,compared remote x) ∧ e.kind ≠ .notFound := by
  unfold Reached at fails
  push Not at fails
  obtain ⟨e,answer,kind⟩ := fails
  exact ⟨e,Prod.ext answer rfl,kind⟩

theorem putAbsent (absent : x.files.read path = .ok none) :
    put path remote apply x = (.error (.notFound path),x) := by
  have read : localCopy path x = (.ok none,x) := by rw [localCopy,absent]
  unfold put
  rw [bindAfter read]
  rfl

theorem putAfter {text : String} (there : x.files.read path = .ok (some text)) :
    put path remote apply x = (remoteCopy remote >>= fun copy =>
      if copy = some text then pure false
      else if apply then upload path remote >>= fun _ => pure true else pure true) x := by
  have read : localCopy path x = (.ok (some text),x) := by rw [localCopy,there]
  unfold put
  rw [bindAfter read]

theorem fetchAfter {copy old : Option String} (stages : stage remote x = (.ok copy,compared remote x))
    (here : x.files.read path = .ok old) : fetch remote path apply x =
      if copy = old then (.ok ⟨false,none⟩,compared remote x)
      else if apply then onFiles (replace path old copy) (compared remote x)
      else (.ok ⟨true,none⟩,compared remote x) := by
  have read : localCopy path (compared remote x) = (.ok old,compared remote x) := by
    rw [localCopy,comparedFiles,here]
  unfold fetch
  rw [bindAfter stages,bindAfter read]
  split
  · rfl
  · cases apply <;> rfl

variable [DecidableEq ν] (faithful : Faithful file held)
include faithful

theorem comparedRemote (remote : String) (x : Exchange σ τ) :
    remoteFiles held (compared remote x) = remoteFiles held x := by
  cases down : FileTransfer.download remote staging (x.device,x.transfer) with
  | mk answer t =>
    have after : remoteFiles held (compared remote x) = held t := by
      simp only [remoteFiles,compared,stage,step,down]
    rw [after]
    cases answer with
    | ok copy => exact (faithful.downloaded _ _ _ _ _ down).1
    | error e => exact (faithful.notDownloaded _ _ _ _ _ down).1

theorem staged (remote : String) (x : Exchange σ τ) :
    (∃ text, remoteFiles held x (file remote) = some text ∧ stage remote x = (.ok (some text),compared remote x)) ∨
    ∃ e, stage remote x = (.error e,compared remote x) ∧
      (e.kind = .notFound → remoteFiles held x (file remote) = none) := by
  cases down : FileTransfer.download remote staging (x.device,x.transfer) with
  | mk answer t =>
    have stages : stage remote x = (answer,compared remote x) := by simp only [compared,stage,step,down]
    cases answer with
    | ok copy =>
      obtain ⟨-,same,some⟩ := faithful.downloaded _ _ _ _ _ down
      obtain ⟨text,rfl⟩ := Option.ne_none_iff_exists'.mp some
      exact .inl ⟨text,same.symm,stages⟩
    | error e => exact .inr ⟨e,stages,(faithful.notDownloaded _ _ _ _ _ down).2⟩

theorem remoteCopied (reached : Reached remote x) :
    remoteCopy remote x = (.ok (remoteFiles held x (file remote)),compared remote x) := by
  unfold remoteCopy
  rcases staged faithful remote x with ⟨text,there,stages⟩ | ⟨e,stages,missing⟩
  · rw [stages,there]
  · have kind := reached e (by rw [stages])
    simp only [stages,kind,if_true,missing kind]

theorem putReached {text : String} (there : x.files.read path = .ok (some text)) (reached : Reached remote x) :
    put path remote apply x =
      if remoteFiles held x (file remote) = some text then (.ok false,compared remote x)
      else if apply then (upload path remote >>= fun _ => pure true) (compared remote x)
      else (.ok true,compared remote x) := by
  rw [putAfter there,bindAfter (remoteCopied faithful reached)]
  split
  · rfl
  · cases apply <;> rfl

theorem uploadDone {text : String} (there : x.files.read path = .ok (some text))
    (h : upload path remote x = (.ok (),y)) : y.files = x.files ∧
      remoteFiles held y = Function.update (remoteFiles held x) (file remote) (some text) := by
  unfold upload step at h
  rw [Files.readSome.mp there] at h
  cases up : FileTransfer.upload path (some text) remote (x.device,x.transfer) with
  | mk answer t =>
    simp only [Except.toOption,up] at h
    cases h
    exact ⟨rfl,faithful.uploaded _ _ _ _ _ up⟩

theorem uploadFailed {e : Error} (h : upload path remote x = (.error e,y)) :
    y.files = x.files ∧ remoteFiles held y = remoteFiles held x := by
  unfold upload step at h
  cases up : FileTransfer.upload path (x.files.open? path).toOption remote (x.device,x.transfer) with
  | mk answer t =>
    simp only [up] at h
    cases h
    exact ⟨rfl,faithful.notUploaded _ _ _ _ _ _ up⟩

theorem fetchedAgain {new : String} (there : remoteFiles held x (file remote) = some new)
    (here : x.files.read path = .ok (some new)) (reached : Reached remote x) (apply : Bool) :
    fetch remote path apply x = (.ok ⟨false,none⟩,compared remote x) := by
  rcases staged faithful remote x with ⟨text,found,stages⟩ | ⟨e,stages,missing⟩
  · cases found.symm.trans there
    rw [fetchAfter stages here,if_pos rfl]
  · cases (missing (reached e (by rw [stages]))).symm.trans there

end Steps

section Ends
variable [FileTransfer σ τ] [DecidableEq ν]

inductive PutEnds (file : String → ν) (held : σ × τ → ν → Option String) (path remote : String) (x : Exchange σ τ) :
    (apply : Bool) → Except Error Bool → Exchange σ τ → Prop
  | failed (apply e y) (disk : y.files = x.files) (device : remoteFiles held y = remoteFiles held x) :
      PutEnds file held path remote x apply (.error e) y
  | same (apply text) (here : x.files.read path = .ok (some text))
      (there : remoteFiles held x (file remote) = some text) :
      PutEnds file held path remote x apply (.ok false) (compared remote x)
  | differs (text) (here : x.files.read path = .ok (some text))
      (unlike : remoteFiles held x (file remote) ≠ some text) :
      PutEnds file held path remote x false (.ok true) (compared remote x)
  | uploaded (text y) (here : x.files.read path = .ok (some text)) (reached : Reached remote x)
      (up : (upload path remote (compared remote x)).1 = .ok ()) (disk : y.files = x.files)
      (device : remoteFiles held y = Function.update (remoteFiles held x) (file remote) (some text)) :
      PutEnds file held path remote x true (.ok true) y

inductive FetchEnds (file : String → ν) (held : σ × τ → ν → Option String) (remote path : String) (x : Exchange σ τ) :
    (apply : Bool) → Except Error Fetched → Exchange σ τ → Prop
  | unread (apply e) (cause : (stage remote x).1 = .error e ∨ x.files.read path = .error e) :
      FetchEnds file held remote path x apply (.error e) (compared remote x)
  | same (apply new) (there : remoteFiles held x (file remote) = some new)
      (here : x.files.read path = .ok (some new)) :
      FetchEnds file held remote path x apply (.ok ⟨false,none⟩) (compared remote x)
  | differs (new old) (there : remoteFiles held x (file remote) = some new) (here : x.files.read path = .ok old)
      (unlike : old ≠ some new) : FetchEnds file held remote path x false (.ok ⟨true,none⟩) (compared remote x)
  | replaced (new old y) (arrived : (stage remote x).1 = .ok (some new))
      (there : remoteFiles held x (file remote) = some new) (here : x.files.read path = .ok old)
      (device : remoteFiles held y = remoteFiles held x) (disk : Replaced x.files y.files path new old) :
      FetchEnds file held remote path x true (.ok ⟨true,old.map fun _ => backupPath path⟩) y
  | stuck (new old e y) (arrived : (stage remote x).1 = .ok (some new)) (here : x.files.read path = .ok old)
      (fails : (replace path old (some new) x.files).1 = .error e) :
      FetchEnds file held remote path x true (.error e) y

variable (faithful : Faithful file held)
include faithful

theorem putEnds {answer : Except Error Bool} (h : put path remote apply x = (answer,y)) :
    PutEnds file held path remote x apply answer y := by
  cases here : x.files.read path with
  | error e =>
    have read : localCopy path x = (.error e,x) := by rw [localCopy,here]
    unfold put at h
    rw [bindFailed read] at h
    cases h
    exact .failed _ _ _ rfl rfl
  | ok copy =>
    cases copy with
    | none =>
      rw [putAbsent here] at h
      cases h
      exact .failed _ _ _ rfl rfl
    | some text =>
      have device := comparedRemote faithful remote x
      by_cases reached : Reached remote x
      · rw [putReached faithful here reached] at h
        split at h
        · rename_i there
          cases h
          exact .same _ _ here there
        · rename_i unlike
          cases apply with
          | false => cases h; exact .differs _ here unlike
          | true =>
            -- Only the upload is left, and it decides the answer.
            have here' : (compared remote x).files.read path = .ok (some text) := here
            cases answer with
            | ok changed =>
              obtain ⟨_,m,up,h⟩ := bindOk.mp h
              obtain ⟨rfl,rfl⟩ := pureOk.mp h
              obtain ⟨disk,update⟩ := uploadDone faithful here' up
              exact .uploaded _ _ here reached (by rw [up]) disk (device ▸ update)
            | error e =>
              obtain ⟨disk,same⟩ := uploadFailed faithful (answerFails h)
              exact .failed _ _ _ disk (same.trans device)
      · obtain ⟨e,stages,kind⟩ := unreached reached
        have copies : remoteCopy remote x = (.error e,compared remote x) := by
          simp only [remoteCopy,stages,kind,if_false]
        rw [putAfter here,bindFailed copies] at h
        cases h
        exact .failed _ _ _ rfl device

theorem fetchEnds {answer : Except Error Fetched} (h : fetch remote path apply x = (answer,y)) :
    FetchEnds file held remote path x apply answer y := by
  rcases staged faithful remote x with ⟨new,there,stages⟩ | ⟨e,stages,-⟩
  · cases here : x.files.read path with
    | error e =>
      have read : localCopy path (compared remote x) = (.error e,compared remote x) := by
        rw [localCopy,comparedFiles,here]
      unfold fetch at h
      rw [bindAfter stages,bindFailed read] at h
      cases h
      exact .unread _ _ (.inr here)
    | ok old =>
      rw [fetchAfter stages here] at h
      split at h
      · rename_i equal
        cases h
        exact .same _ _ there (equal ▸ here)
      · rename_i unlike
        cases apply with
        | false => cases h; exact .differs _ _ there here (Ne.symm unlike)
        | true =>
          simp only [if_true,onFiles,comparedFiles] at h
          cases done : replace path old (some new) x.files with
          | mk result g =>
            rw [done] at h
            cases h
            cases result with
            | error e => exact .stuck _ _ _ _ (by rw [stages]) here (by rw [done])
            | ok fetched =>
              obtain ⟨rfl,disk⟩ := replaced here done
              exact .replaced _ _ _ (by rw [stages]) there here (comparedRemote faithful remote x) disk
  · unfold fetch at h
    rw [bindFailed stages] at h
    cases h
    exact .unread _ _ (.inl (by rw [stages]))

end Ends

structure PutSettles [FileTransfer σ τ] [DecidableEq ν] (file : String → ν) (held : σ × τ → ν → Option String)
    (path remote : String) (x : Exchange σ τ) : Prop where
  absent (read : x.files.read path = .ok none) (apply : Bool) :
    put path remote apply x = (.error (.notFound path),x)
  reports (text : String) (read : x.files.read path = .ok (some text)) (reached : Reached remote x) (apply : Bool)
    (uploads : apply = true → remoteFiles held x (file remote) ≠ some text →
      (upload path remote (compared remote x)).1 = .ok ()) :
    (put path remote apply x).1 = .ok (decide (remoteFiles held x (file remote) ≠ some text))
  equals (y : Exchange σ τ) (ran : put path remote true x = (.ok true,y)) :
    ∃ text, x.files.read path = .ok (some text) ∧ y.files = x.files ∧
      remoteFiles held y = Function.update (remoteFiles held x) (file remote) (some text)
  stays (apply : Bool) (answer : Except Error Bool) (y : Exchange σ τ) (ran : put path remote apply x = (answer,y)) :
    apply = false ∨ answer ≠ .ok true ∨ ¬Reached remote x ∨
        (∃ e, (upload path remote (compared remote x)).1 = .error e) →
      y.files = x.files ∧ remoteFiles held y = remoteFiles held x
  again (changed : Bool) (y : Exchange σ τ) (ran : put path remote true x = (.ok changed,y))
    (reached : Reached remote y) (apply : Bool) : put path remote apply y = (.ok false,compared remote y)

structure FetchSettles [FileTransfer σ τ] (file : String → ν) (held : σ × τ → ν → Option String)
    (remote path : String) (x : Exchange σ τ) : Prop where
  reports (old : Option String) (read : x.files.read path = .ok old) (reached : Reached remote x) (apply : Bool)
    (works : apply = true → ∀ new, remoteFiles held x (file remote) = some new → old ≠ some new →
      ∃ fetched, (replace path old (some new) x.files).1 = .ok fetched) :
    match remoteFiles held x (file remote) with
      | none => ∃ e, (fetch remote path apply x).1 = .error e ∧ e.kind = .notFound
      | some new => ∃ backup, (fetch remote path apply x).1 = .ok ⟨decide (old ≠ some new),backup⟩
  works (clear : Clear x.files path) (old : Option String) (read : x.files.read path = .ok old) (new : String) :
    ∃ fetched, (replace path old (some new) x.files).1 = .ok fetched
  equals (backup : Option String) (y : Exchange σ τ) (ran : fetch remote path true x = (.ok ⟨true,backup⟩,y)) :
    remoteFiles held y = remoteFiles held x ∧ ∃ new old, remoteFiles held x (file remote) = some new ∧
      x.files.read path = .ok old ∧ backup = old.map (fun _ => backupPath path) ∧
      Replaced x.files y.files path new old
  keeps (backup : Option String) (y : Exchange σ τ) (ran : fetch remote path true x = (.ok ⟨true,backup⟩,y))
    (text : String) (stood : x.files.content? path = some text) :
    backup = some (backupPath path) ∧ y.files.read (backupPath path) = .ok (some text) ∨
    backup = none ∧ x.files.Strays path ∧
      ['.','.'] ∈ LocalPath.pieces (LocalPath.join x.files.workingDirectory path)
  stays (apply : Bool) (answer : Except Error Fetched) (y : Exchange σ τ)
    (ran : fetch remote path apply x = (answer,y)) :
    apply = false ∨ (∃ backup, answer = .ok ⟨false,backup⟩) ∨ (∃ e, (stage remote x).1 = .error e) →
      y.files = x.files ∧ remoteFiles held y = remoteFiles held x
  again (fetched : Fetched) (y : Exchange σ τ) (ran : fetch remote path true x = (.ok fetched,y))
    (reached : Reached remote y) (apply : Bool) : fetch remote path apply y = (.ok ⟨false,none⟩,compared remote y)

section Claims
variable [FileTransfer σ τ] [DecidableEq ν] (faithful : Faithful file held)
include faithful

theorem putSettles (path remote : String) (x : Exchange σ τ) : PutSettles file held path remote x where
  absent read apply := putAbsent read
  reports text read reached apply uploads := by
    rw [putReached faithful read reached]
    by_cases there : remoteFiles held x (file remote) = some text
    · simp [there]
    · rw [if_neg there]
      cases apply with
      | false => simp [there]
      | true =>
        have up : upload path remote (compared remote x) = (.ok (),_) := Prod.ext (uploads rfl there) rfl
        rw [if_pos rfl,bindAfter up]
        simp [pure,there]
  equals y ran := by
    cases putEnds faithful ran with
    | uploaded text _ here _ _ disk device => exact ⟨text,here,disk,device⟩
  stays apply answer y ran still := by
    cases putEnds faithful ran with
    | failed _ _ _ disk device => exact ⟨disk,device⟩
    | same | differs => exact ⟨rfl,comparedRemote faithful remote x⟩
    | uploaded _ _ _ reached up =>
      rcases still with dry | other | fails | ⟨e,fails⟩
      · cases dry
      · exact (other rfl).elim
      · exact (fails reached).elim
      · cases up.symm.trans fails
  again changed y ran reached apply := by
    cases putEnds faithful ran with
    | same _ text here there =>
      have equal := comparedRemote faithful remote x ▸ there
      have here : (compared remote x).files.read path = .ok (some text) := here
      rw [putReached faithful here reached,if_pos equal]
    | uploaded text _ here _ _ disk device =>
      have equal : remoteFiles held y (file remote) = some text := by rw [device,Function.update_self]
      rw [putReached faithful (disk ▸ here) reached,if_pos equal]

theorem fetchSettles (remote path : String) (x : Exchange σ τ) : FetchSettles file held remote path x where
  reports old read reached apply works := by
    rcases staged faithful remote x with ⟨new,there,stages⟩ | ⟨e,stages,missing⟩
    · rw [there,fetchAfter stages read]
      by_cases same : some new = old
      · exact ⟨none,by simp [same]⟩
      · rw [if_neg same]
        have unlike := Ne.symm same
        cases apply with
        | false => exact ⟨none,by simp [unlike]⟩
        | true =>
          obtain ⟨fetched,answer⟩ := works rfl new there unlike
          refine ⟨old.map fun _ => backupPath path,?_⟩
          cases done : replace path old (some new) x.files with
          | mk result g =>
            rw [done] at answer
            cases answer
            obtain ⟨rfl,-⟩ := replaced read done
            simp only [if_true,onFiles,comparedFiles,done]
            simp [unlike]
    · have kind := reached e (by rw [stages])
      rw [missing kind]
      refine ⟨e,?_,kind⟩
      unfold fetch
      rw [bindFailed stages]
  works clear old read new := by
    obtain ⟨fetched,g,done⟩ := replaces clear read new
    exact ⟨fetched,by rw [done]⟩
  equals backup y ran := by
    cases fetchEnds faithful ran with
    | replaced new old _ _ there here device disk => exact ⟨device,new,old,there,here,rfl,disk⟩
  keeps backup y ran text stood := by
    cases fetchEnds faithful ran with
    | replaced new old _ _ there here device disk =>
      -- Where something stood though nothing was read, the path strays.
      cases old with
      | some before =>
        have same := (Files.openIff.mp (Files.readSome.mp here)).2.2.2
        cases same.symm.trans stood
        exact .inl ⟨rfl,disk.kept _ rfl⟩
      | none =>
        have strays : x.files.Strays path := ⟨here,by simp [stood]⟩
        have named := (Files.openIff.mp (Files.readSome.mp disk.here)).1
        exact .inr ⟨rfl,strays,Files.straysUp strays named⟩
  stays apply answer y ran still := by
    cases fetchEnds faithful ran with
    | unread | same | differs => exact ⟨rfl,comparedRemote faithful remote x⟩
    | replaced _ _ _ arrived | stuck _ _ _ _ arrived =>
      rcases still with dry | ⟨_,answered⟩ | ⟨e,fails⟩
      · cases dry
      · cases answered
      · cases arrived.symm.trans fails
  again fetched y ran reached apply := by
    cases fetchEnds faithful ran with
    | same _ new there here =>
      have there := comparedRemote faithful remote x ▸ there
      exact fetchedAgain faithful there here reached apply
    | replaced new old _ _ there here device disk =>
      exact fetchedAgain faithful (device ▸ there) disk.here reached apply

/-- Putting and fetching report a change exactly where the two sides differ, make them equal and touch nothing
else. A second run does nothing, and both sides stay where a run is not applied or a copy fails. What a fetch
replaces is kept, unless the path strays. -/
theorem transfersSettle (path remote : String) (x : Exchange σ τ) :
    PutSettles file held path remote x ∧ FetchSettles file held remote path x :=
  ⟨putSettles faithful path remote x,fetchSettles faithful remote path x⟩

end Claims
end Exchange

namespace RemoteFiles
variable {σ : Type} {path remote : String} {s t : σ × RemoteFiles}

def held (s : σ × RemoteFiles) (name : String) : Option String :=
  match s.2.files.get? name with
  | some (.content text) => some text
  | _ => none

theorem heldAgain (same : t.2.files = s.2.files) : held t = held s := by
  funext name
  simp only [held,same]

theorem downloadRan {answer : Except Error (Option String)} (h : FileTransfer.download remote path s = (answer,t)) :
    t.2.files = s.2.files ∧ ((∃ text, answer = .ok (some text) ∧ held s remote = some text) ∨
      ∃ e, answer = .error e ∧ (e.kind = .notFound → held s remote = none)) := by
  change besides (download remote) s = _ at h
  unfold besides download at h
  cases h
  dsimp only
  split
  · rename_i text found
    exact ⟨rfl,.inl ⟨text,rfl,by simp [held,found]⟩⟩
  · exact ⟨rfl,.inr ⟨_,rfl,fun kind => by cases kind⟩⟩
  · exact ⟨rfl,.inr ⟨_,rfl,fun _ => by simp [held]⟩⟩

theorem uploadRan {content : Option String} {answer : Except Error Unit}
    (h : FileTransfer.upload path content remote s = (answer,t)) :
    (∃ text, content = some text ∧ answer = .ok () ∧ t.2.files = s.2.files.insert remote (.content text)) ∨
      ∃ e, answer = .error e ∧ t.2.files = s.2.files := by
  change besides (upload content remote) s = _ at h
  unfold besides upload at h
  cases h
  dsimp only
  split
  · exact .inr ⟨_,rfl,rfl⟩
  · exact .inl ⟨_,rfl,rfl,rfl⟩
  · exact .inr ⟨_,rfl,rfl⟩

theorem faithful : FileTransfer.Faithful id (held : σ × RemoteFiles → String → Option String) where
  downloaded remote path s t copy h := by
    obtain ⟨same,⟨text,answer,found⟩ | ⟨e,answer,-⟩⟩ := downloadRan h
    · cases answer
      exact ⟨heldAgain same,found.symm,by simp⟩
    · cases answer
  notDownloaded remote path s t e h := by
    obtain ⟨same,⟨text,answer,-⟩ | ⟨e',answer,missing⟩⟩ := downloadRan h
    · cases answer
    · cases answer
      exact ⟨heldAgain same,missing⟩
  uploaded path text remote s t h := by
    obtain ⟨text',content,-,files⟩ | ⟨e,answer,-⟩ := uploadRan h
    · cases content
      funext name
      simp only [held,files,Entries.getInsert,Function.update_apply,id]
      by_cases same : name = remote <;> simp [same]
    · cases answer
  notUploaded path content remote s t e h := by
    obtain ⟨text,-,answer,-⟩ | ⟨e',-,same⟩ := uploadRan h
    · cases answer
    · exact heldAgain same

end RemoteFiles

namespace Exchange

def exports : Exchange Unit RemoteFiles :=
  ⟨(),⟨"r1",Entries.ofList [("export.rsc",.content "new")],[]⟩,(Files.inDirectory "/base").write "/base/x" "old"⟩

theorem transfersSettleExports :
    Clear exports.files "/base/x" ∧
    (∃ y z, fetch "export.rsc" "/base/x" true exports = (.ok ⟨true,some "/base/x.bak"⟩,y) ∧
      y.files.read "/base/x" = .ok (some "new") ∧ y.files.read "/base/x.bak" = .ok (some "old") ∧
      fetch "export.rsc" "/base/x" true y = (.ok ⟨false,none⟩,z) ∧ z.files = y.files) ∧
    ∃ y z, put "/base/x" "export.rsc" true exports = (.ok true,y) ∧
      remoteFiles RemoteFiles.held y "export.rsc" = some "old" ∧
      put "/base/x" "export.rsc" true y = (.ok false,z) ∧ z.files = exports.files := by
  obtain ⟨puts,fetches⟩ := transfersSettle RemoteFiles.faithful "/base/x" "export.rsc" exports
  have reaches : ∀ {x : Exchange Unit RemoteFiles} {copy : Option String},
      (stage "export.rsc" x).1 = .ok copy → Reached "export.rsc" x :=
    fun arrived e fails => by cases arrived.symm.trans fails
  have held : remoteFiles RemoteFiles.held exports "export.rsc" = some "new" := by decide +kernel
  have here : exports.files.read "/base/x" = .ok (some "old") := by decide +kernel
  have clear : Clear exports.files "/base/x" :=
    ⟨by decide +kernel,by decide +kernel,by decide +kernel,by decide +kernel,by decide +kernel⟩
  refine ⟨clear,?_,?_⟩
  · have ran : fetch "export.rsc" "/base/x" true exports = (.ok ⟨true,some "/base/x.bak"⟩,_) :=
      Prod.ext (by decide +kernel) rfl
    obtain ⟨-,new,old,there,before,-,disk⟩ := fetches.equals _ _ ran
    cases held.symm.trans there
    cases here.symm.trans before
    have copies : (stage "export.rsc" (fetch "export.rsc" "/base/x" true exports).2).1 = .ok (some "new") := by
      decide +kernel
    exact ⟨_,_,ran,disk.here,disk.kept _ rfl,fetches.again _ _ ran (reaches copies) true,rfl⟩
  · have ran : put "/base/x" "export.rsc" true exports = (.ok true,_) := Prod.ext (by decide +kernel) rfl
    obtain ⟨text,before,disk,device⟩ := puts.equals _ ran
    cases here.symm.trans before
    have copies : (stage "export.rsc" (put "/base/x" "export.rsc" true exports).2).1 = .ok (some "old") := by
      decide +kernel
    exact ⟨_,_,ran,by rw [device]; rfl,puts.again _ _ ran (reaches copies) true,disk⟩

-- A path that goes down to a directory that is not there and up again comes to a file that is replaced and
-- not kept.
theorem strayedUnkept : exports.files.contents = [(["base","x"],"old")] ∧
    exports.files.content? "/base/gone/../x" = some "old" ∧
    (fetch "export.rsc" "/base/gone/../x" true exports).1 = .ok ⟨true,none⟩ ∧
    (fetch "export.rsc" "/base/gone/../x" true exports).2.files.contents = [(["base","x"],"new")] :=
  ⟨by decide +kernel,by decide +kernel,by decide +kernel,by decide +kernel⟩

end Exchange
end RouterReconciler

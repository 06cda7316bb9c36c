import RouterReconciler.Entries
import RouterReconciler.Remote.Program

/-!
Programs for rehearsals: every login has its answers given in advance, which its calls take in turn,
and every call is kept.
-/
namespace RouterReconciler

structure ProgramReply where
  output : String
  errors : String
  code : Int
  sleepMilliseconds : Nat
  file : Option String

structure ProgramRehearsal where
  replies : Option (Entries (List ProgramReply))
  sent : Entries (List Invocation)

namespace ProgramRehearsal

def start (replies : Option (Entries (List ProgramReply))) : ProgramRehearsal :=
  ⟨replies,match replies with
    | some table => table.map (fun _ _ => [])
    | none => ∅⟩

def note (i : Invocation) (p : ProgramRehearsal) : ProgramRehearsal :=
  { p with sent := p.sent.insert i.destination ((p.sent.get? i.destination).getD [] ++ [i]) }

def run (i : Invocation) (p : ProgramRehearsal) : Ending × ProgramRehearsal :=
  match p.replies with
  | none => (.notStarted "No such file or directory (os error 2)",p)
  | some table =>
    let noted := p.note i
    match table.get? i.destination with
    | some (reply :: rest) =>
      let noted := { noted with replies := some (table.insert i.destination rest) }
      if i.timeoutMilliseconds < reply.sleepMilliseconds then (.timedOut,noted)
      else (.exited reply.code reply.output reply.errors reply.file,noted)
    | _ => (.exited 255 "" "no reply left" none,noted)

instance : Programs ProgramRehearsal := ⟨run⟩

end ProgramRehearsal
end RouterReconciler

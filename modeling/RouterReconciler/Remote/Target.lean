/-!
Where a device is reached: its host, how to log in there, and the device behind it when the host
only passes commands on.
-/
namespace RouterReconciler

structure Target where
  host : String
  port : Option Nat
  user : Option String
  identityFile : Option String
  romonHostId : Option String
  deriving DecidableEq

namespace Target

def destination (t : Target) : String :=
  match t.user with
  | some user => user ++ "@" ++ t.host
  | none => t.host

def options (t : Target) (portOption : String) (timeoutMilliseconds : Nat) : List String :=
  ["-o","BatchMode=yes","-o",
      "ConnectTimeout=" ++ toString (max (timeoutMilliseconds / 1000) 1)] ++
    (match t.port with
      | some port => [portOption,toString port]
      | none => []) ++
    (match t.identityFile with
      | some file => ["-i",file]
      | none => [])

end Target
end RouterReconciler

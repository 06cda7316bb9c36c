/-!
Programs that run outside: what is asked of one, and how it ends. The state of whatever runs them
passes from one call to the next.
-/
namespace RouterReconciler

structure Invocation where
  program : String
  destination : String
  arguments : List String
  timeoutMilliseconds : Nat
  uploaded : Option (Option String)

inductive Ending where
  | notStarted (reason : String)
  | timedOut
  | exited (code : Int) (output errors : String) (file : Option String)

class Programs (ρ : Type) where
  run : Invocation → ρ → Ending × ρ

structure NoPrograms where
  deriving DecidableEq

instance : Programs NoPrograms where
  run _ p := (.notStarted "No such file or directory (os error 2)",p)

end RouterReconciler

import RouterReconciler.Error
import RouterReconciler.Text.Basic

/-!
Failures as they are told to the user: a message, and its causes down to the first one. Each layer
that gives up adds a message in front.
-/
namespace RouterReconciler

structure Failure where
  message : String
  causes : List String
  deriving DecidableEq

def Error.causes : Error → List String
  | .partialApply _ _ source => source.message :: source.causes
  | .inTask _ _ _ source => source.message :: source.causes
  | .file m => [m]
  | .document => [Error.documentFault]
  | _ => []

namespace Failure

def of (message : String) : Failure := ⟨message,[]⟩

def ofError (e : Error) : Failure := ⟨e.message,e.causes⟩

def within (message : String) (f : Failure) : Failure := ⟨message,f.message :: f.causes⟩

def summary (f : Failure) : String := ": ".intercalate (f.message :: f.causes)

def causeText (lead margin cause : String) : String :=
  "\n" ++ lead ++ ("\n" ++ margin).intercalate (Text.splitOn '\n' cause)

def numbered (index : Nat) : List String → String
  | [] => ""
  | cause :: rest =>
    let number := toString index
    let lead := String.ofList (List.replicate (5 - number.length) ' ') ++ number ++ ": "
    causeText lead "       " cause ++ numbered (index + 1) rest

def report (f : Failure) : String :=
  match f.causes with
  | [] => f.message
  | [cause] => f.message ++ "\n\nCaused by:" ++ causeText "    " "    " cause
  | causes => f.message ++ "\n\nCaused by:" ++ numbered 0 causes

end Failure
end RouterReconciler

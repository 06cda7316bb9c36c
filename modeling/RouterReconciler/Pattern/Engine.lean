import RouterReconciler.Pattern.Parser
import RouterReconciler.Selector

/-!
An engine that runs. It refuses classes named by a Unicode property and passes over the flag `u`; what
is proved of selectors and plans is proved for every engine.
-/
namespace RouterReconciler.Pattern

scoped instance engine : PatternEngine where
  compile text :=
    match parse text with
    | .ok pattern => .ok pattern.occursIn
    | .error refusal => .error (refusal.message text)

end RouterReconciler.Pattern

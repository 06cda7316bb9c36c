import RouterReconciler.Text.Basic

/-!
Short phrases for display: counted nouns, and texts cut to a length.
-/
namespace RouterReconciler.Text

def plural (count : Nat) (noun : String) : String :=
  toString count ++ " " ++ noun ++ (if count = 1 then "" else "s")

def truncate (limit : Nat) (s : String) : String :=
  let line := (lineList s.toList).headD []
  if line.length ≤ limit && !s.toList.contains '\n' then String.ofList line
  else if limit ≤ 3 then "..."
  else String.ofList (line.take (limit - 3)) ++ "..."

end RouterReconciler.Text

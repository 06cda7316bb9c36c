import RouterReconciler.Error
import RouterReconciler.Text.Shown
import RouterReconciler.Value.Basic

/-!
Values as script literals. Writing gives text that the device reads back as the value: words for
truth values, quoted text with escapes, arrays. Text that opens with a quote, a parenthesis or a
bracket is an expression of the user's own and passes as it is. Reading takes the device's type
name and text.
-/
namespace RouterReconciler.Value

def isConditionShaped (s : String) : Bool :=
  s == "!" || Text.startsWith s "! " || Text.startsWith s "~ " || Text.startsWith s "!~ "

mutual
def checkWritable : Value → Except Error Unit
  | .str s =>
    if isConditionShaped s then
      .error (.encoding (Text.shown s ++ " looks like a condition and cannot be written as a value"))
    else .ok ()
  | .list items => checkAllWritable items
  | _ => .ok ()

def checkAllWritable : List Value → Except Error Unit
  | [] => .ok ()
  | v :: rest =>
    match checkWritable v with
    | .ok () => checkAllWritable rest
    | .error e => .error e
end

def escape? (c : Char) : Option (List Char) :=
  if c = '\\' then some ['\\','\\']
  else if c = '"' then some ['\\','"']
  else if c = '$' then some ['\\','$']
  else if c = '\n' then some ['\\','r','\\','n']
  else if c = '\t' then some ['\\','t']
  else if Text.isControl c then none
  else some [c]

def escapeAll : List Char → Except Char (List Char)
  | [] => .ok []
  | c :: rest =>
    match escape? c with
    | none => .error c
    | some piece =>
      match escapeAll rest with
      | .ok others => .ok (piece ++ others)
      | .error bad => .error bad

def quote (raw : String) : Except Error String :=
  match escapeAll (Text.unifyLineEnds raw.toList) with
  | .ok body => .ok (String.ofList ('"' :: body ++ ['"']))
  | .error bad =>
    .error (.encoding ("control character " ++ Text.shownChar bad ++ " in " ++ Text.shown raw))

def isExpression (s : String) : Bool :=
  match s.toList with
  | c :: _ => c == '"' || c == '(' || c == '['
  | [] => false

def elementTexts : List Value → Except Error (List String)
  | [] => .ok []
  | .list _ :: _ => .error (.encoding "nested lists cannot be written")
  | v :: rest =>
    let part := v.text
    if Text.contains part "," then
      .error (.encoding ("list element " ++ Text.shown part ++ " contains ','"))
    else
      match elementTexts rest with
      | .ok others => .ok (part :: others)
      | .error e => .error e

def encode : Value → Except Error String
  | .bool b => .ok (boolText b)
  | .int n => .ok (toString n)
  | .duration n => .ok (Duration.render n)
  | .str s =>
    match boolWord? s with
    | some b => .ok (boolText b)
    | none => if isExpression s then .ok s else quote s
  | .list items =>
    match elementTexts items with
    | .error e => .error e
    | .ok parts =>
      match quote (",".intercalate parts) with
      | .ok body => .ok ("[:toarray " ++ body ++ "]")
      | .error e => .error e

def encodeForWrite (v : Value) : Except Error String :=
  match v.checkWritable with
  | .ok () => v.encode
  | .error e => .error e

/-- Reads a value of the device from its type name and text; the empty types mean that the
parameter is absent. There is no answer if the reading of a time breaks off. -/
def decode? (typeName raw : String) : Option (Option Value) :=
  if typeName = "nothing" || typeName = "nil" then some none
  else if typeName = "bool" then some (some (.bool (raw == "true" || raw == "yes")))
  else if typeName = "num" then
    match Text.integer? raw.toList with
    | some n => some (some (.int n))
    | none => some (some (.str raw))
  else if typeName = "time" then
    match Duration.read raw with
    | .seconds n => some (some (.duration n))
    | .unreadable => some (some (.str raw))
    | .cutInsideCharacter | .overflow => none
  else if typeName = "array" then
    some (some (.list (if raw.isEmpty then [] else (Text.splitOn ';' raw).map .str)))
  else some (some (.str raw))

end RouterReconciler.Value

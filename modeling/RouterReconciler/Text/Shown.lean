import RouterReconciler.Text.Unprintable

/-!
Text as it is shown inside messages: between quotes, on one line, every character either itself
or an escape.
-/
namespace RouterReconciler.Text

def codePointEscape (c : Char) : List Char :=
  ['\\','u','\x7b'] ++ Nat.toDigits 16 c.toNat ++ ['\x7d']

def shownCharacter (quote c : Char) : List Char :=
  if c = quote || c = '\\' then ['\\',c]
  else if c = '\x00' then ['\\','0']
  else if c = '\t' then ['\\','t']
  else if c = '\r' then ['\\','r']
  else if c = '\n' then ['\\','n']
  else if isUnprintable c then codePointEscape c
  else [c]

def shown (s : String) : String :=
  String.ofList ('"' :: s.toList.flatMap (shownCharacter '"') ++ ['"'])

def shownChar (c : Char) : String :=
  let quote := Char.ofNat 39
  String.ofList (quote :: shownCharacter quote c ++ [quote])

end RouterReconciler.Text

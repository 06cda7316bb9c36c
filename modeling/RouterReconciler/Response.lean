import RouterReconciler.Record
import RouterReconciler.Value.Literal

/-!
Read responses. Each record is announced by `<REC>` and given as lines `key|type|text`; `<END>`
closes the response. A line of another form continues the text before it, which is how a value of
several lines comes back. A response without its end is refused, so that a part of the records is
never taken for all of them. Failures are reported inside a response, by words.
-/
namespace RouterReconciler.Response

def recordStart : String := "<REC>"
def responseEnd : String := "<END>"

def malformed (line : List Char) : Error :=
  .encoding ("malformed response line: " ++ Text.shown (String.ofList line))

def continueText (record : Record) (key : Option String) (line : List Char) : Option Record := do
  let key ← key
  match record.get? key with
  | some (.str s) => some (record.set key (.str (s ++ "\n" ++ String.ofList line)))
  | _ => none

/-- What one line does to the record being read and to the key of the text that the next line may
continue. -/
def fieldLine (record : Record) (last : Option String) (line : List Char) :
    Judgement (Record × Option String) :=
  let continued :=
    match continueText record last line with
    | some longer => .ok (longer,last)
    | none => .error (.failed (malformed line))
  match Text.cutTwice '|' line with
  | [key,typeName,raw] =>
    if key.isEmpty then continued
    else if String.ofList key = ".id" then
      .ok ({ record with id := some (String.ofList raw) },none)
    else
      let key := String.ofList key
      match Value.decode? (String.ofList typeName) (String.ofList raw) with
      | some (some v) => .ok (record.set key v,some key)
      | some none => .ok (record,some key)
      | none => .error .brokenOff
  | _ => continued

def readLines (current : Option Record) (last : Option String) :
    List (List Char) → Judgement (List Record)
  | [] => .error (.failed (.encoding "response ended without an end marker"))
  | line :: rest =>
    if String.ofList line = recordStart then
      match readLines (some Record.empty) none rest with
      | .ok others => .ok (current.toList ++ others)
      | .error e => .error e
    else if String.ofList line = responseEnd then .ok current.toList
    else match current with
      | none => readLines none last rest
      | some record =>
        match fieldLine record last line with
        | .ok (longer,key) => readLines (some longer) key rest
        | .error e => .error e

def records (response : String) : Judgement (List Record) :=
  readLines none none
    ((Text.lineList response.toList).map (Text.dropEndWhile (· == '\r')))

def failureMarkers : List String :=
  ["<failed>","failure: ","syntax error","input does not match","expected ","bad command",
   "invalid value","no such item","missing value","invalid internal item number",
   "ambiguous value"]

def failure? (command response : String) : Option Error :=
  let lowered := Text.lowerAscii response
  if failureMarkers.any (Text.contains lowered) then
    some (.commandFailed command (Text.trim response))
  else none

end RouterReconciler.Response

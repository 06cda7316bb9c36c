import RouterReconciler.Device.Basic
import RouterReconciler.Response
import RouterReconciler.Retry

/-!
A device reached by scripts. Reads are scripts that print records in frames and are sent again
after a timeout; writes are sent exactly once, since one that timed out may still have been
carried out.
-/
namespace RouterReconciler

class Transport (τ : Type) where
  send : String → Access τ String

structure Console (τ : Type) where
  transport : τ
  retry : RetryPolicy
  reports : List String

namespace Console

def renderValues (allowUnset : Bool) : List (String × Assignment) → Except Error String
  | [] => .ok ""
  | (key,.value v) :: rest =>
    match v.encodeForWrite with
    | .error e => .error e
    | .ok literal =>
      match renderValues allowUnset rest with
      | .ok others => .ok (" " ++ key ++ "=" ++ literal ++ others)
      | .error e => .error e
  | (key,.unset) :: rest =>
    match renderValues allowUnset rest with
    | .ok others => .ok ((if allowUnset then " !" ++ key else "") ++ others)
    | .error e => .error e

def dumpRecord : String :=
  ":foreach k,v in=$r do=\x7b:put (\"$k|\" . [:typeof $v] . \"|\" . [:tostr $v])\x7d"

def startMark : String := ":put \"" ++ Response.recordStart ++ "\"; "
def endMark : String := "; :put \"" ++ Response.responseEnd ++ "\""

def readScript (path : FacilityPath) (s : Selector) : Except Error String :=
  match s.filter with
  | .error e => .error e
  | .ok filter =>
    let find :=
      if filter.isEmpty then "[" ++ path.text ++ " find]"
      else "[" ++ path.text ++ " find where " ++ filter ++ "]"
    .ok (":foreach i in=" ++ find ++ " do=\x7b:local r [" ++ path.text ++ " get $i]; " ++ startMark ++
      ":put \".id|id|$i\"; " ++ dumpRecord ++ "\x7d" ++ endMark)

def readOneScript (path : FacilityPath) : String :=
  ":local r [" ++ path.text ++ " get]; " ++ startMark ++ dumpRecord ++ endMark

def expressionTable : List (String × String) → Except Error (List String)
  | [] => .ok []
  | (shownAs,expression) :: rest =>
    match Value.quote shownAs, Value.quote expression with
    | .ok a, .ok e =>
      match expressionTable rest with
      | .ok others => .ok ((a ++ "=" ++ e) :: others)
      | .error e => .error e
    | .error e, _ => .error e
    | .ok _, .error e => .error e

def itemText : Option ItemId → String
  | some id => " " ++ id
  | none => ""

def evaluateScript (path : FacilityPath) (item : Option ItemId)
    (expressions : List (String × String)) : Except Error String :=
  match expressionTable expressions with
  | .error e => .error e
  | .ok table =>
    .ok (":local s [" ++ path.text ++ " get" ++ itemText item ++ "]; :local p \"\"; " ++
      ":foreach k,v in=$s do=\x7b:set p ($p . \" :local \\\"$k\\\" \\\"$v\\\";\")\x7d; " ++ startMark ++
      ":foreach n,e in=\x7b" ++ ";".intercalate table ++
      "\x7d do=\x7b:local r [[:parse \"$p :return $e\"]]; :put (\"$n|str|\" . [:tostr $r])\x7d" ++
      endMark)

def retryReport (attempt attempts : Nat) (e : Error) (delaySeconds : Nat) : String :=
  "attempt " ++ toString attempt ++ "/" ++ toString attempts ++ " failed: " ++ e.message ++
    ". Retrying in " ++ toString delaySeconds ++ "s..."

variable {τ : Type} [Transport τ]

def send (script : String) : Access (Console τ) String := fun c =>
  match Transport.send script c.transport with
  | (answer,t) => (answer,{ c with transport := t })

def sendRepeatedly (script : String) (attempts : Nat) : (left : Nat) → Access (Console τ) String
  | 0 => send script
  | left + 1 => fun c =>
    match send script c with
    | (.ok answer,c) => (.ok answer,c)
    | (.error e,c) =>
      if e.isRetryable then
        let attempt := attempts - (left + 1)
        let delay := (c.retry.delay? (attempt - 1)).getD 0 / 1000000000
        sendRepeatedly script attempts left
          { c with reports := c.reports ++ [retryReport attempt attempts e delay] }
      else (.error e,c)

def query (script : String) : Inquiry (Console τ) (List Record) := do
  let c ← Step.get
  let attempts := max c.retry.maxAttempts 1
  let response ← (sendRepeatedly script attempts (attempts - 1) : Access (Console τ) String)
  if Text.contains response Response.responseEnd then Response.records response
  else match Response.failure? script response with
    | some e => .fail (.failed e)
    | none => .fail (.failed (.commandFailed script ("unexpected response: " ++ Text.trim response)))

def command (script : String) : Access (Console τ) String := do
  let response ← send script
  match Response.failure? script response with
  | some e => .fail e
  | none => return response

def execute (script : String) : Access (Console τ) Unit := do
  let _ ← command script

def readOne (path : FacilityPath) : Inquiry (Console τ) Record := do
  let records ← query (readOneScript path)
  match records with
  | [r] => return r
  | _ => .fail (.failed (.commandFailed (path.text ++ " get")
      ("expected one record, got " ++ toString records.length)))

def read (path : FacilityPath) (s : Selector) : Inquiry (Console τ) (List Record) := do
  let script ← (readScript path s : Except Error String)
  query script

def lastLine? (response : String) : Option String :=
  ((Text.lines response).map Text.trim).reverse.find? (fun line => !line.isEmpty)

def add (path : FacilityPath) (values : Assignments) (before : Option ItemId) :
    Access (Console τ) ItemId := do
  let rendered ← (renderValues false values.toList : Except Error String)
  let place := match before with
    | some id => " place-before=" ++ id
    | none => ""
  let script := ":put [" ++ path.text ++ " add" ++ rendered ++ place ++ "]"
  let response ← command script
  let failed : Access (Console τ) ItemId :=
    .fail (.commandFailed script ("add did not return an item id: " ++ Text.trim response))
  match lastLine? response with
  | some id => if Text.startsWith id "*" then return id else failed
  | none => failed

def remove (path : FacilityPath) (id : ItemId) : Access (Console τ) Unit :=
  execute (path.text ++ " remove " ++ id)

def set (path : FacilityPath) (item : Option ItemId) (values : Assignments) :
    Access (Console τ) Unit := do
  let rendered ← (renderValues true values.toList : Except Error String)
  execute (path.text ++ " set" ++ itemText item ++ rendered)

def move (path : FacilityPath) (id : ItemId) (before : Option ItemId) : Access (Console τ) Unit :=
  let place := match before with
    | some other => " destination=" ++ other
    | none => ""
  execute (path.text ++ " move " ++ id ++ place)

def setDisabled (path : FacilityPath) (id : ItemId) (disabled : Bool) : Access (Console τ) Unit :=
  execute (path.text ++ (if disabled then " disable " else " enable ") ++ id)

def evaluate (path : FacilityPath) (item : Option ItemId) (expressions : List (String × String)) :
    Inquiry (Console τ) (List (String × String)) := do
  let script ← (evaluateScript path item expressions : Except Error String)
  let records ← query script
  let record := records.headD Record.empty
  return expressions.map fun e =>
    (e.1,match record.get? e.1 with
      | some v => v.text
      | none => "")

instance : Device (Console τ) where
  readOne := readOne
  read := read
  add := add
  remove := remove
  set := set
  move := move
  setDisabled := setDisabled
  evaluate := evaluate
  run := command

end Console
end RouterReconciler

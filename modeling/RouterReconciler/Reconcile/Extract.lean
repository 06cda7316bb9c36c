import RouterReconciler.Reconcile.Basic
import RouterReconciler.Value.Document

/-!
Reading values. Without an index, one record gives each alias its value and a list of records gives
each alias a list. With an index, each alias gets a table from index to value, and an index that
comes twice is refused.
-/
namespace RouterReconciler.Reconcile
variable {σ : Type} [Device σ] [PatternEngine]

def extractionName (f : Facility) (e : Extraction) : String :=
  match e.find with
  | some criteria => f.path.text ++ " where " ++ criteria.text
  | none => f.path.text

def extractionRecords (f : Facility) (e : Extraction) : Inquiry σ (List Record) :=
  match e.find with
  | none => do
    let r ← f.readOne
    return [r]
  | some criteria => find f criteria

def fieldValues (f : Facility) (required : Bool) (r : Record) :
    List (String × String) → Except Error (List (String × Json))
  | [] => .ok []
  | (shownAs,field) :: rest =>
    match r.get? field with
    | none =>
      if required then .error (.notFound ("field " ++ field ++ " in " ++ f.path.text))
      else
        match fieldValues f required r rest with
        | .ok others => .ok ((shownAs,.null) :: others)
        | .error e => .error e
    | some v =>
      match fieldValues f required r rest with
      | .ok others => .ok ((shownAs,v.toJson) :: others)
      | .error e => .error e

def rowValues (f : Facility) (e : Extraction) (r : Record) : Inquiry σ (List (String × Json)) :=
  match e.source with
  | .fields => (fieldValues f e.requireFields r e.fields : Except Error (List (String × Json)))
  | .expressions => do
    let texts ← f.evaluate r.id e.fields
    return (texts.filter (fun t => !(e.skipEmpty && t.2.isEmpty))).map (fun t => (t.1,.str t.2))

def keyOf (f : Facility) (e : Extraction) (r : Record) (key : String) : Inquiry σ (Option String) :=
  match e.source with
  | .fields => return (r.get? key).map Value.text
  | .expressions => do
    let texts ← f.evaluate r.id [(key,key)]
    return texts.head?.map Prod.snd

def addPlain (many : Bool) (values : ReturnValues) (shownAs : String) (v : Json) : ReturnValues :=
  if many then
    match values.get? shownAs with
    | some (.list items) => values.insert shownAs (.list (items ++ [v]))
    | _ => values
  else values.insert shownAs v

def addIndexed (index : String) (values : ReturnValues) (shownAs : String) (v : Json) :
    Except Error ReturnValues :=
  match values.get? shownAs with
  | none => .ok (values.insert shownAs (.table [(index,v)]))
  | some (.table members) =>
    if members.any (fun m => m.1 == index) then
      .error (.duplicateKey (shownAs ++ "[" ++ index ++ "]"))
    else .ok (values.insert shownAs (.table (members ++ [(index,v)])))
  | some _ => .ok values

def addRow (many : Bool) (index : Option String) (values : ReturnValues) :
    List (String × Json) → Except Error ReturnValues
  | [] => .ok values
  | (shownAs,v) :: rest =>
    match index with
    | none => addRow many none (addPlain many values shownAs v) rest
    | some i =>
      match addIndexed i values shownAs v with
      | .ok values => addRow many (some i) values rest
      | .error e => .error e

def emptyColumns (e : Extraction) : ReturnValues :=
  if e.many then
    e.fields.foldl
      (fun values field =>
        values.insert field.1 (if e.indexBy.isSome then .table [] else .list [])) ∅
  else ∅

def extractRow (f : Facility) (e : Extraction) (values : ReturnValues) (r : Record) :
    Inquiry σ ReturnValues := do
  let index ← match e.indexBy with
    | none => pure (some none)
    | some (.literal i) => pure (some (some i))
    | some (.key key) => do
      match ← keyOf f e r key with
      | some i => pure (some (some i))
      | none =>
        if e.requireFields then
          Step.fail (.failed (.notFound ("index " ++ key ++ " of " ++ extractionName f e)))
        else pure none
  match index with
  | none => return values
  | some index => do
    let row ← rowValues f e r
    (addRow e.many index values row : Except Error ReturnValues)

def extractRows (f : Facility) (e : Extraction) (values : ReturnValues) :
    List Record → Inquiry σ ReturnValues
  | [] => pure values
  | r :: rest => do
    let values ← extractRow f e values r
    extractRows f e values rest

def extract (f : Facility) (e : Extraction) : Inquiry σ ReturnValues := do
  let records ← extractionRecords f e
  if records.isEmpty && e.requireMatch then Step.fail (.failed (.notFound (extractionName f e)))
  else if !e.many && 1 < records.length then
    Step.fail (.failed (.ambiguousMatch (extractionName f e) records.length))
  else extractRows f e (emptyColumns e) records

end RouterReconciler.Reconcile

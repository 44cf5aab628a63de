import Resumption.Failure
import Resumption.Run

/-
  This file defines what can be read of a value: its fields,
  its items, and the text it becomes inside a message.

  Key definitions include:
    * `Session.itemsOf`
    * `Session.property?`
    * `Value.textWith`
    * `Session.textInside`
    * `Session.text`
    * `Run.field`
    * `Run.hasField`
    * `Run.itemsOf`
    * `Run.unwrap`
-/

namespace Resumption

------------------------------------------------------------
-- Fields
------------------------------------------------------------

/- The number of units a text has in the 16-bit encoding. -/
def units16 (s : String) : Nat :=
  s.foldl (fun n c => n + if c.val < 0x10000 then 1 else 2) 0

namespace Session

/- The label count of a machine. -/
def labelCount
    (s : Session)
    (m : Value) : Nat :=
  match m with
  | .machine r => (s.machines.getD r default).labels.size
  | _ => 0

/- The status and the result under which a future is read. -/
def futureFields
    (s : Session)
    (f : Ref) : Fields :=
  match (s.futures.getD f default).settlement with
  | none =>
      [("status", .str "pending"), ("result", .undefined)]
  | some t =>
      let status :=
        match t.outcome with
        | .fulfilled _ => "fulfilled"
        | .rejected _ => "rejected"
      [("status", .str status), ("result", t.value)]

/- The field that an error's cause is read from, if it has one. -/
def causeField (cause : Option Value) : Fields :=
  (cause.map fun c => ("cause", c)).toList

/- The tag that the instances of a class carry. -/
def tagOf
    (s : Session)
    (cls : ErrorClass) : Value :=
  match cls with
  | .custom c => (s.classes.getD c default).tag
  | _ => .str (cls.tag?.getD "")

/- The fields of a value that is neither undefined nor null. -/
def fieldsOf
    (s : Session)
    (v : Value) : Fields :=
  match v with
  | .str t => [("length", .int (units16 t))]
  | .list r => [("length", .int (s.lists.getD r #[]).size)]
  | .record _ fields => fields
  | .error _ kind message cause =>
      [("name", .str kind.name), ("message", .str message)]
        ++ causeField cause
  | .tagged _ _ tag message props cause =>
      [("name", tag), ("message", .str message),
       ("_tag", tag), ("props", props)]
        ++ causeField cause
  | .errorClass cls => [("tag", s.tagOf cls)]
  | .future f => s.futureFields f
  | .label l =>
      let cell := s.labels.getD l default
      [("id", cell.id), ("machine", cell.machine)]
  | .machine _ => [("labelCount", .int (s.labelCount v))]
  | .builder b =>
      let cell := s.builders.getD b default
      [("machine", cell.machine),
       ("continueOnCapturedContext", cell.captured)]
  | .context c =>
      let cell := s.contexts.getD c default
      ("name", cell.name) ::
        match cell.posting with
        | .recording posts => [("posts", .int posts)]
        | .custom _ => []
  | .deferred d =>
      match s.deferreds.getD d default with
      | .future f => [("future", .future f)]
      | .promise p _ => [("future", .promise p)]
  | .controlled c =>
      let cell := s.controlled.getD c default
      [("awaitable", .awaitable cell.awaitable),
       ("stats", .usage c)]
  | .counting i =>
      [("iterable", .iterable i), ("stats", .iteration i)]
  | .usage c => (s.controlled.getD c default).stats
  | .iteration i =>
      match s.iterables.getD i default with
      | .counting _ count => count.stats
      | .custom _ _ _ => []
  | .resource r =>
      match s.resources.getD r default with
      | .tracked name _ count =>
          [("name", name), ("disposeCount", .int count)]
      | .custom _ => []
  | .collector c =>
      [("events", .list (s.collectors.getD c 0))]
  | _ => []

/-
  The items of a list, or the characters of a text, as they
  are now.  Other values have no items.
-/
def itemsOf
    (s : Session)
    (v : Value) : Array Value :=
  match v with
  | .list r => s.lists.getD r #[]
  | .str t =>
      (t.toList.map fun ch => .str (String.singleton ch)).toArray
  | _ => #[]

/-
  The item under a number that is written as a text.  There
  is one way to write each number.
-/
def item?
    (s : Session)
    (v : Value)
    (key : String) : Option Value := do
  let n ← key.toNat?
  if toString n = key then (s.itemsOf v)[n]? else none

/- A field of a value, or one of its items. -/
def property?
    (s : Session)
    (v : Value)
    (key : String) : Option Value :=
  (s.fieldsOf v).lookup key <|> s.item? v key

/- A record has no fields but its own. -/
theorem property?_record
    (s : Session)
    (id : Stamp)
    (fields : Fields)
    (key : String) :
    s.property? (.record id fields) key =
      fields.lookup key := by
  have none_item : s.item? (.record id fields) key = none := by
    unfold item?
    cases key.toNat? <;> simp [itemsOf]
  simp [property?, none_item, fieldsOf]

end Session

------------------------------------------------------------
-- Texts
------------------------------------------------------------

/-
  A name and a message as one text: joined by a colon,
  unless one of them is blank.
-/
def titled (name message : String) : String :=
  if message = "" then name
  else if name = "" then message
  else name ++ ": " ++ message

/-
  The text that a value becomes inside a message, given the
  texts of lists.  An error is named by its tag, or as
  though it had none where the tag is undefined.
-/
def Value.textWith (listText : Ref → String) : Value → String
  | .undefined => "undefined"
  | .null => "null"
  | .bool b => if b then "true" else "false"
  | .int n => toString n
  | .str t => t
  | .list r => listText r
  | .error _ kind message _ => titled kind.name message
  | .tagged _ _ .undefined message _ _ =>
      titled ErrorKind.plain.name message
  | .tagged _ _ tag message _ _ =>
      titled (tag.textWith listText) message
  | .promise _ => "[object Promise]"
  | _ => "[object Object]"

namespace Session

/-
  The text that a value becomes inside the given lists, with
  as many more lists in one another as the number says.
  Items are joined by commas; undefined and null items are
  left blank, and so is a list inside itself.
-/
def textInside
    (s : Session) : Nat → List Ref → Value → String
  | 0, _, v => v.textWith fun _ => ""
  | n + 1, outer, v =>
      v.textWith fun r =>
        let items := (s.lists.getD r #[]).toList
        if outer.contains r then ""
        else
          ",".intercalate <| items.map fun item =>
            if item.isMissing then ""
            else s.textInside n (r :: outer) item

/- A list inside itself is left blank. -/
theorem textInside_list_of_mem
    (s : Session)
    (n : Nat)
    (outer : List Ref)
    (r : Ref)
    (h : r ∈ outer) :
    s.textInside n outer (.list r) = "" := by
  cases n with
  | zero => simp [textInside, Value.textWith]
  | succ n => simp [textInside, Value.textWith, h]

/-
  The text that a value becomes inside a message.  No list
  is entered twice on the way down, so that there are no
  more levels than lists.
-/
def text
    (s : Session)
    (v : Value) : String :=
  s.textInside s.lists.size [] v

end Session

------------------------------------------------------------
-- Reading Fields in Runs
------------------------------------------------------------

namespace Run

/- The text of a value. -/
def text (v : Value) : Run String :=
  return (← get).text v

/-
  Read a field; an absent one is undefined, and undefined
  and null have none to read.
-/
def field
    (v : Value)
    (key : String) : Run Value := do
  if v.isMissing then typeError
  else return ((← get).property? v key).getD .undefined

/- The field of a builder that says whether it keeps contexts. -/
def capturedKey : String :=
  "continueOnCapturedContext"

/- Remember who is asked whether it keeps contexts. -/
def inspecting
    (v : Value)
    (key : String) : Run Unit :=
  match v with
  | .builder b =>
      if key = capturedKey then chronicle (.inspects b)
      else return ()
  | _ => return ()

/- Tell whether an object has a field. -/
def hasField
    (v : Value)
    (key : String) : Run Bool := do
  if v.isObject then
    return ((← get).property? v key).isSome
  else typeError

/- The value of a result, or its error thrown. -/
def unwrap (result : Value) : Run Value := do
  if (← field result "ok").truthy then
    field result "value"
  else
    raise (← field result "error")

------------------------------------------------------------
-- Reading Items in Runs
------------------------------------------------------------

/- The items of a value; undefined and null cannot be asked. -/
def itemsOf (v : Value) : Run (Array Value) := do
  if v.isMissing then typeError
  else return (← get).itemsOf v

/- The list that a value is; nothing else can be added to. -/
def listOf (l : Value) : Run Ref :=
  match l with
  | .list r => return r
  | _ => typeError

end Run

end Resumption

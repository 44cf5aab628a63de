import Resumption.Property

/-
  This file defines the pictures of values: the data trees
  under which answers and log entries show them.

  Plain data is its own picture.  Everything else is marked
  with what kind of thing it is, and with its name or its
  identifier where it has one.  However deep a value is, all
  of it is shown.

  Key definitions include:
    * `Session.pictureWith`
    * `Session.pictureWithin`
    * `Session.population`
    * `Session.picture`
    * `Run.picture`
    * `Run.pictureFields`
-/

namespace Resumption

------------------------------------------------------------
-- Pictures
------------------------------------------------------------

/-
  What a record is shown as when one of its own fields is a
  function: the capability that the function gives it.
-/
def Value.capability? (fields : Fields) : Option String :=
  let offers key :=
    ((fields.lookup key).filter Value.isFunction).isSome
  if offers "onCompleted" then some "awaiter"
  else if offers "getAwaiter" then some "awaitable"
  else if offers "post" then some "context"
  else if fields.any (·.2.isFunction) then some "host"
  else none

/-
  What is shown of an error's name and message, given the
  picture of the name.  The name of what the language itself
  raises hides the message.
-/
def shownTitle
    (name : Value)
    (shown : Datum)
    (message : String) : List (String × Datum) :=
  ("name", shown) ::
    if name.same (.str ErrorKind.native.name) then []
    else [("message", .str message)]

/- Has an object a name that is anything but undefined? -/
def isNamed (fields : Fields) : Bool :=
  match fields.lookup "name" with
  | some .undefined => false
  | some _ => true
  | none => false

/- The pictures of fields that are reached through a reference. -/
def through
    (inner : Value → Datum)
    (fields : Fields) : List (String × Datum) :=
  fields.map fun (key, v) => (key, inner v)

namespace Session

mutual

/-
  The picture of a value, given the pictures of what its
  references lead to.
-/
def pictureWith
    (s : Session)
    (inner : Value → Datum) : Value → Datum
  | .undefined => .marked "undefined" []
  | .null => .null
  | .bool b => .bool b
  | .int i => .int i
  | .str t => .str t
  | .list r => .list ((s.lists.getD r #[]).toList.map inner)
  | .record _ fields =>
      let shown := s.fieldsWith inner fields
      match Value.capability? fields with
      | some "context" =>
          .marked "context"
            (if isNamed fields then
              shown.filter (·.1 == "name") |>.take 1
            else [])
      | some kind => .marked kind []
      | none => .record shown
  | .error _ kind message cause =>
      .marked "error"
        (shownTitle (.str kind.name) (.str kind.name) message
          ++ s.causeWith inner cause)
  | .tagged _ _ tag message props cause =>
      let shownTag := s.pictureWith inner tag
      .marked "error"
        (shownTitle tag shownTag message
          ++ [("tag", shownTag),
              ("props", s.pictureWith inner props)]
          ++ s.causeWith inner cause)
  | .errorClass _ => .marked "function" []
  | .function _ => .marked "function" []
  | .future f => .marked "future" (through inner (s.futureFields f))
  | .promise _ => .marked "promise" []
  | .label l =>
      .marked "label"
        (through inner
          (Fields.given "id" (s.labels.getD l default).id))
  | .machine m =>
      .marked "machine" [("labels", .int (s.labelCount (.machine m)))]
  | .builder b =>
      let cell := s.builders.getD b default
      .marked "builder"
        [("labels", .int (s.labelCount cell.machine)),
         ("captured", inner cell.captured)]
  | .awaiter _ => .marked "awaiter" []
  | .awaitable _ => .marked "awaitable" []
  | .context c =>
      .marked "context"
        (through inner
          (Fields.given "name" (s.contexts.getD c default).name))
  | .counting i => .record (through inner (s.fieldsOf (.counting i)))
  | .usage c => .record (through inner (s.fieldsOf (.usage c)))
  | .iteration i =>
      .record (through inner (s.fieldsOf (.iteration i)))
  | .deferred _ => .marked "host" []
  | .controlled _ => .marked "host" []
  | .resource _ => .marked "host" []
  | .iterable _ => .marked "host" []
  | .collector _ => .marked "host" []
  | .thenable _ => .marked "host" []

/- The pictures of an object's own fields. -/
def fieldsWith
    (s : Session)
    (inner : Value → Datum) : Fields → List (String × Datum)
  | [] => []
  | field :: rest =>
      s.fieldWith inner field :: s.fieldsWith inner rest

/- The picture of one field. -/
def fieldWith
    (s : Session)
    (inner : Value → Datum) : String × Value → String × Datum
  | (key, v) => (key, s.pictureWith inner v)

/- The picture of an error's cause, if it has one. -/
def causeWith
    (s : Session)
    (inner : Value → Datum) :
    Option Value → List (String × Datum)
  | none => []
  | some cause => [("cause", s.pictureWith inner cause)]

end

/- The picture of a value, through so many references. -/
def pictureWithin
    (s : Session) : Nat → Value → Datum
  | 0, _ => .null
  | n + 1, v => s.pictureWith (s.pictureWithin n) v

/-
  The number of things that hold values which can change, or
  were there before.  No stamp is counted: what a value is
  made of, it holds itself.
-/
def population (s : Session) : Nat :=
  s.lists.size + s.futures.size + s.labels.size
    + s.contexts.size + s.builders.size

/-
  The picture of a value.  A value that does not hold itself
  leads through no reference twice on the way down.  Below
  the last of them there are three levels at most: an
  iterable, its counters, and their numbers.
-/
def picture
    (s : Session)
    (v : Value) : Datum :=
  s.pictureWithin (s.population + 3) v

end Session

------------------------------------------------------------
-- Pictures in Runs
------------------------------------------------------------

namespace Run

/- The picture of a value as it is now. -/
def picture (v : Value) : Run Datum :=
  return (← get).picture v

/- The pictures of fields, each of them by itself. -/
def pictureFields
    (fields : Fields) : Run (List (String × Datum)) := do
  let s ← get
  return fields.map fun (key, v) => (key, s.picture v)

end Run

end Resumption

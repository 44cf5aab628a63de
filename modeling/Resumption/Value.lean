/-
  This file defines the values that client code and the
  library exchange.

  A value is a primitive, an immutable object that carries
  its own fields, or a reference into one of a session's
  tables.  Two immutable objects are the same object when
  they carry the same stamp.

  Key definitions include:
    * `Value`
    * `Value.same`
    * `Value.truthy`
    * `Value.isObject`
    * `Outcome`
    * `StepView`
    * `Value.step?`
-/

namespace Resumption

------------------------------------------------------------
-- References
------------------------------------------------------------

/- A position in one of a session's tables. -/
abbrev Ref :=
  Nat

/-
  What tells immutable objects apart: a serial number of
  their own.  Events are numbered apart, so that listening
  to a task does not renumber what the task makes.
-/
inductive Stamp where
  | object (n : Nat)
  | event (n : Nat)
  deriving DecidableEq, Repr, Inhabited

------------------------------------------------------------
-- Error Classes
------------------------------------------------------------

/-
  The classes of tagged errors: three for misuse of the
  protocol, and those that client code defines.
-/
inductive ErrorClass where
  | labelError
  | stepShape
  | notCompleted
  | custom (c : Ref)
  deriving DecidableEq, Repr

/- A defect is an error of one of the protocol's own classes. -/
def ErrorClass.isDefect : ErrorClass → Bool
  | .custom _ => false
  | _ => true

/-
  An untagged error is plain, or raised by the language
  itself.
-/
inductive ErrorKind where
  | plain
  | native
  deriving DecidableEq, Repr

/- The name under which an untagged error is shown. -/
def ErrorKind.name : ErrorKind → String
  | .plain => "Error"
  | .native => "TypeError"

------------------------------------------------------------
-- Values
------------------------------------------------------------

/-
  The values of client code.  The tag of a tagged error is
  any value that its class was defined with.  The counters
  of a controlled awaitable and of an iterable are objects
  of their own, whose fields change as the thing they count
  is used.
-/
inductive Value where
  | undefined
  | null
  | bool (b : Bool)
  | int (n : Int)
  | str (s : String)
  | list (r : Ref)
  | record (id : Stamp) (fields : List (String × Value))
  | error
      (id : Stamp)
      (kind : ErrorKind)
      (message : String)
      (cause : Option Value)
  | tagged
      (id : Stamp)
      (cls : ErrorClass)
      (tag : Value)
      (message : String)
      (props : Value)
      (cause : Option Value)
  | errorClass (cls : ErrorClass)
  | function (r : Ref)
  | future (r : Ref)
  | promise (r : Ref)
  | label (r : Ref)
  | machine (r : Ref)
  | builder (r : Ref)
  | awaiter (r : Ref)
  | awaitable (r : Ref)
  | context (r : Ref)
  | deferred (r : Ref)
  | controlled (r : Ref)
  | resource (r : Ref)
  | iterable (r : Ref)
  | counting (r : Ref)
  | usage (controlled : Ref)
  | iteration (iterable : Ref)
  | collector (r : Ref)
  | thenable (r : Ref)
  deriving Inhabited

/- The fields of an object, in order. -/
abbrev Fields :=
  List (String × Value)

namespace Value

/-
  Identity: primitives are compared by content, objects by
  reference or stamp.
-/
def same : Value → Value → Bool
  | .undefined, .undefined => true
  | .null, .null => true
  | .bool a, .bool b => a == b
  | .int a, .int b => a == b
  | .str a, .str b => a == b
  | .list a, .list b => a == b
  | .record a _, .record b _ => a == b
  | .error a _ _ _, .error b _ _ _ => a == b
  | .tagged a _ _ _ _ _, .tagged b _ _ _ _ _ => a == b
  | .errorClass a, .errorClass b => a == b
  | .function a, .function b => a == b
  | .future a, .future b => a == b
  | .promise a, .promise b => a == b
  | .label a, .label b => a == b
  | .machine a, .machine b => a == b
  | .builder a, .builder b => a == b
  | .awaiter a, .awaiter b => a == b
  | .awaitable a, .awaitable b => a == b
  | .context a, .context b => a == b
  | .deferred a, .deferred b => a == b
  | .controlled a, .controlled b => a == b
  | .resource a, .resource b => a == b
  | .iterable a, .iterable b => a == b
  | .counting a, .counting b => a == b
  | .usage a, .usage b => a == b
  | .iteration a, .iteration b => a == b
  | .collector a, .collector b => a == b
  | .thenable a, .thenable b => a == b
  | _, _ => false

/- Undefined, null, false, zero and the empty text are falsy. -/
def truthy : Value → Bool
  | .undefined => false
  | .null => false
  | .bool b => b
  | .int n => n != 0
  | .str s => s != ""
  | _ => true

/- Neither undefined nor null has fields to read. -/
def isMissing : Value → Bool
  | .undefined => true
  | .null => true
  | _ => false

/- Functions are the values that can be called or constructed. -/
def isFunction : Value → Bool
  | .function _ => true
  | .errorClass _ => true
  | _ => false

/- Objects are all values but the primitives. -/
def isObject : Value → Bool
  | .undefined => false
  | .null => false
  | .bool _ => false
  | .int _ => false
  | .str _ => false
  | _ => true

/- Is the value an error of one of the protocol's own classes? -/
def isDefect : Value → Bool
  | .tagged _ cls _ _ _ _ => cls.isDefect
  | _ => false

/- Is the value an instance of the given error class? -/
def isInstance
    (v : Value)
    (cls : ErrorClass) : Bool :=
  match v with
  | .tagged _ c _ _ _ _ => c == cls
  | _ => false

/- The tag of a tagged error, if it is a text. -/
def tag? : Value → Option String
  | .tagged _ _ (.str tag) _ _ _ => some tag
  | _ => none

/- A field that a record itself holds. -/
def own?
    (v : Value)
    (key : String) : Option Value :=
  match v with
  | .record _ fields => fields.lookup key
  | _ => none

/- A record's field that can be called as a method. -/
def method?
    (v : Value)
    (key : String) : Option Value :=
  (v.own? key).filter isFunction

end Value

/- Set a field, keeping the place of one already there. -/
def Fields.put
    (key : String)
    (v : Value) : Fields → Fields
  | [] => [(key, v)]
  | (k, w) :: rest =>
      if k = key then (k, v) :: rest
      else (k, w) :: Fields.put key v rest

/- A field that was set reads as what it was set to. -/
theorem Fields.lookup_put
    (key : String)
    (v : Value)
    (fields : Fields) :
    (fields.put key v).lookup key = some v := by
  induction fields with
  | nil => simp [Fields.put]
  | cons head rest ih =>
      obtain ⟨k, w⟩ := head
      by_cases hk : k = key
      · simp [Fields.put, hk]
      · have hk' : (key == k) = false := by
          simpa using fun h => hk h.symm
        simp [Fields.put, hk, List.lookup_cons, hk', ih]

/-
  Collect fields in order; a later one replaces the earlier
  one of its name.
-/
def Fields.ofList (fields : Fields) : Fields :=
  fields.foldl (fun acc f => acc.put f.1 f.2) []

/- A field, unless there is nothing to put into it. -/
def Fields.given
    (key : String) : Value → Fields
  | .undefined => []
  | v => [(key, v)]

------------------------------------------------------------
-- Outcomes
------------------------------------------------------------

/- How a future or a promise ended. -/
inductive Outcome where
  | fulfilled (value : Value)
  | rejected (error : Value)
  deriving Inhabited

/- The fields under which an outcome can be read. -/
def Outcome.fields : Outcome → Fields
  | .fulfilled v => [("ok", .bool true), ("value", v)]
  | .rejected e => [("ok", .bool false), ("error", e)]

------------------------------------------------------------
-- Steps
------------------------------------------------------------

/-
  One unit of progress: finish with a value, hand the rest
  off to a future, or suspend on an awaiter and name the
  label to resume at.
-/
inductive StepView where
  | finish (value : Value)
  | handOff (future : Value)
  | suspend (awaiter resume : Value)

/- The fields that a step is made of. -/
def StepView.fields : StepView → Fields
  | .finish v => [("kind", .str "return"), ("value", v)]
  | .handOff f => [("kind", .str "returnFrom"), ("future", f)]
  | .suspend a r =>
      [("kind", .str "await"), ("awaiter", a), ("resume", r)]

namespace Value

/-
  A record is a step when its kind is one of the three
  known ones.  A missing field reads as undefined.
-/
def step? (v : Value) : Option StepView :=
  let field key := (v.own? key).getD .undefined
  match v.own? "kind" with
  | some (.str "return") => some (.finish (field "value"))
  | some (.str "returnFrom") =>
      some (.handOff (field "future"))
  | some (.str "await") =>
      some (.suspend (field "awaiter") (field "resume"))
  | _ => none

/- Does the value have the shape of a step? -/
def isStep (v : Value) : Bool :=
  v.step?.isSome

/- A record made of a step's fields is that step. -/
theorem step?_record_fields
    (id : Stamp)
    (s : StepView) :
    (Value.record id s.fields).step? = some s := by
  cases s <;> rfl

end Value

end Resumption

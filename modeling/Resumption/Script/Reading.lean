import Resumption.Script.Vocabulary

/-
  This file defines how scripts are read from data trees.

  A tree that is no list stands for itself.  A list is a
  form or a node: its name, then what the vocabulary says
  about the places after it.

  Key definitions include:
    * `Expr.ofDatum?`
    * `Stage.ofDatum?`
    * `Stage.listOfDatum?`
-/

namespace Resumption

namespace Script

------------------------------------------------------------
-- Expressions
------------------------------------------------------------

/- The names of parameters. -/
def paramsOf? : List Datum → Option (List String)
  | [] => some []
  | .str x :: rest => (x :: ·) <$> paramsOf? rest
  | _ => none

/- The text under which a tree that is no list names a field. -/
def keyOf? : Datum → Option String
  | .null => some "null"
  | .bool b => some (if b then "true" else "false")
  | .int n => some (toString n)
  | .str key => some key
  | _ => none

/- A field of an options record, as an expression. -/
def optionOf
    (fields : List (String × Datum))
    (key : String) : Expr :=
  match fields.lookup key with
  | some d => .quote d
  | none => .undefined

/-
  The arguments and bodies of a task's options: whether its
  machine has assertions, the identifier, the context,
  whether events are logged, the collector, the listener.
-/
def taskOptions
    (fields : List (String × Datum))
    (collector : Expr)
    (listener : Body) : List Expr × List Body :=
  ([optionOf fields "assertions",
    optionOf fields "taskId",
    optionOf fields "context",
    optionOf fields "events",
    collector],
   [listener])

mutual

/- Read an expression. -/
def Expr.ofDatum? : Datum → Option Expr
  | .list (.str name :: args) => formOf? name args
  | .list _ => none
  | .record _ => none
  | d => some (.quote d)
  termination_by d => (sizeOf d, 0)

/- Read a form or a node from its name and its places. -/
def formOf?
    (name : String)
    (places : List Datum) : Option Expr :=
  match name, places with
  | "undef", [] => some .undefined
  | "quote", [d] => some (.quote d)
  | "v", [.str x] => some (.var x)
  | "let", [.str x, e, body] => do
      return .bindVar x (← Expr.ofDatum? e)
        (← Expr.ofDatum? body)
  | "seq", es => .inOrder <$> exprsOf? es
  | "if", [c, yes, no] => do
      return .choose (← Expr.ofDatum? c)
        (← Expr.ofDatum? yes) (← Expr.ofDatum? no)
  | "fn", [.list params, body] => do
      return .lambda
        (.code (← paramsOf? params) (← Expr.ofDatum? body))
  | "try", [e, .str x, handler] => do
      return .handle (← Expr.ofDatum? e) x
        (← Expr.ofDatum? handler)
  | "throw", [e] => .throwing <$> Expr.ofDatum? e
  | "obj", fields => do
      let (keys, es) ← fieldsOf? fields
      return .node (.object keys) es []
  | name, args => do
      let (verb, slots) ← Verb.named? name
      let (es, bodies) ← placesOf? slots args
      return .node verb es bodies
  termination_by (sizeOf places, 2)

/- Read expressions, in order. -/
def exprsOf? : List Datum → Option (List Expr)
  | [] => some []
  | d :: rest => do
      return (← Expr.ofDatum? d) :: (← exprsOf? rest)
  termination_by ds => (sizeOf ds, 0)

/- Read the fields of an object: lists of a key and a value. -/
def fieldsOf? :
    List Datum → Option (List String × List Expr)
  | [] => some ([], [])
  | .list [name, d] :: rest => do
      let key ← keyOf? name
      let e ← Expr.ofDatum? d
      let (keys, es) ← fieldsOf? rest
      return (key :: keys, e :: es)
  | _ => none
  termination_by ds => (sizeOf ds, 0)

/- Read the collector of a task's options. -/
def collectorOf? :
    List (String × Datum) → Option Expr
  | [] => some .undefined
  | ("collector", d) :: _ => Expr.ofDatum? d
  | _ :: rest => collectorOf? rest
  termination_by fields => (sizeOf fields, 0)

/- Read the listener of a task's options. -/
def listenerOf? :
    List (String × Datum) → Option Body
  | [] => some .absent
  | ("listener", .list [.str x, d]) :: _ =>
      .code [x] <$> Expr.ofDatum? d
  | _ :: rest => listenerOf? rest
  termination_by fields => (sizeOf fields, 0)

/- Read the places of a node by their shapes. -/
def placesOf? :
    List Slot → List Datum → Option (List Expr × List Body)
  | [], [] => some ([], [])
  | .value :: slots, d :: rest => do
      let e ← Expr.ofDatum? d
      let (es, bodies) ← placesOf? slots rest
      return (e :: es, bodies)
  | .data :: slots, d :: rest => do
      let (es, bodies) ← placesOf? slots rest
      return (.quote d :: es, bodies)
  | .optional :: slots, d :: rest => do
      let e ← Expr.ofDatum? d
      let (es, bodies) ← placesOf? slots rest
      return (e :: es, bodies)
  | [.optional], [] => some ([], [])
  | .optionalData :: slots, d :: rest => do
      let (es, bodies) ← placesOf? slots rest
      return (.quote d :: es, bodies)
  | [.optionalData], [] => some ([], [])
  | [.rest], ds => do return (← exprsOf? ds, [])
  | .body :: slots, d :: rest => do
      let e ← Expr.ofDatum? d
      let (es, bodies) ← placesOf? slots rest
      return (es, .code [] e :: bodies)
  | .binder :: slots, .str x :: d :: rest => do
      let e ← Expr.ofDatum? d
      let (es, bodies) ← placesOf? slots rest
      return (es, .code [x] e :: bodies)
  | .binderTwo :: slots, .str x :: .str y :: d :: rest => do
      let e ← Expr.ofDatum? d
      let (es, bodies) ← placesOf? slots rest
      return (es, .code [x, y] e :: bodies)
  | .handler :: slots, .list [.str x, d] :: rest => do
      let e ← Expr.ofDatum? d
      let (es, bodies) ← placesOf? slots rest
      return (es, .code [x] e :: bodies)
  | .handler :: slots, .null :: rest => do
      let (es, bodies) ← placesOf? slots rest
      return (es, .absent :: bodies)
  | [.handler], [] => some ([], [.absent])
  | [.handler, .handler], [] => some ([], [.absent, .absent])
  | .closing :: slots, .list [d] :: rest => do
      let e ← Expr.ofDatum? d
      let (es, bodies) ← placesOf? slots rest
      return (es, .code [] e :: bodies)
  | [.closing], [.null] => some ([], [.absent])
  | [.closing], [] => some ([], [.absent])
  | [.machineOptions], [.record fields] =>
      some ([optionOf fields "assertions"], [])
  | [.machineOptions], [] => some ([.undefined], [])
  | [.taskOptions], [.record fields] => do
      return taskOptions fields (← collectorOf? fields)
        (← listenerOf? fields)
  | [.taskOptions], [] => some (taskOptions [] .undefined .absent)
  | _, _ => none
  termination_by _ ds => (sizeOf ds, 1)

end

------------------------------------------------------------
-- Scripts
------------------------------------------------------------

/- Read a stage of a script. -/
def Stage.ofDatum? : Datum → Option Stage
  | .list [.str "flush"] => some .flush
  | d => .evaluate <$> Expr.ofDatum? d

/- Read all stages of a script. -/
def Stage.listOfDatum? : List Datum → Option (List Stage)
  | [] => some []
  | d :: rest => do
      return (← Stage.ofDatum? d)
        :: (← Stage.listOfDatum? rest)

end Script

end Resumption

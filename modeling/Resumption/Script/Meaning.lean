import Resumption.Failure
import Resumption.Program
import Resumption.Script.Expr

/-
  This file defines what expressions mean: programs, given
  the values of the variables.

  Arguments are evaluated from left to right.  A body means
  code that evaluates it anew at each call, with its
  parameters bound in front of the variables around it.

  Key definitions include:
    * `Verb.program`
    * `Expr.meaning`
-/

namespace Resumption

namespace Script

------------------------------------------------------------
-- Data
------------------------------------------------------------

mutual

/- Make the value that a data tree stands for. -/
def ofDatum : Datum → Program
  | .null => .done .null
  | .bool b => .done (.bool b)
  | .int n => .done (.int n)
  | .str s => .done (.str s)
  | .list items =>
      ofItems items fun vs => .request (.newList vs)
  | .record fields =>
      ofFields fields fun vs => .request (.newRecord vs)

/- Make the items of a list, in order. -/
def ofItems :
    List Datum → (List Value → Program) → Program
  | [], k => k []
  | d :: rest, k =>
      (ofDatum d).bind fun v =>
        ofItems rest fun vs => k (v :: vs)

/- Make the fields of a record, in order. -/
def ofFields :
    List (String × Datum) → (Fields → Program) → Program
  | [], k => k []
  | (key, d) :: rest, k =>
      (ofDatum d).bind fun v =>
        ofFields rest fun vs => k ((key, v) :: vs)

end

------------------------------------------------------------
-- Task Options
------------------------------------------------------------

/-
  What is logged of an event: its type, its task, and the
  fields of its own; and the object that came with it.  The
  label of a suspension that names none is left out.
-/
def eventSummary (event ctx : Value) : Fields :=
  let field (name key : String) : Fields :=
    ((event.own? key).map fun v => (name, v)).toList
  field "event" "type"
    ++ field "task" "taskId"
    ++ Fields.given "label"
        ((event.own? "label").getD .undefined)
    ++ field "error" "error"
    ++ field "synchronous" "synchronous"
    ++ field "context" "context"
    ++ [("ctx", ctx)]

/- Log an event. -/
def logEvent (event ctx : Value) : Program :=
  .request (.logFields (eventSummary event ctx))

/-
  The listener that a task's options describe: a collector,
  then the log, then client code.
-/
def listenerCode
    (logged : Bool)
    (collector : Value)
    (code : Option Code) : Option Code :=
  if collector.isMissing && !logged && code.isNone then
    none
  else
    some fun args =>
      let event := args.headD .undefined
      let ctx := args.tail.headD .undefined
      let collecting : Program :=
        if collector.isMissing then .done .undefined
        else .request (.collect collector event)
      let logging : Program :=
        if logged then logEvent event ctx else .done .undefined
      collecting.bind fun _ =>
        logging.bind fun _ =>
          match code with
          | some code => code [event]
          | none => .done .undefined

/- The options of a task. -/
def optionsOf
    (taskId context logged collector : Value)
    (code : Option Code) : TaskOptions Program where
  taskId := taskId
  context := context
  listener := listenerCode logged.truthy collector code

------------------------------------------------------------
-- Verbs
------------------------------------------------------------

/- Throw the error of calling what is no function. -/
def refuse : Program :=
  .request (.call .undefined [])

/- Answer with a truth value. -/
def answer (b : Bool) : Program :=
  .done (.bool b)

/- The class of a defect that a name stands for. -/
def defectClass? : Value → Option ErrorClass
  | .str "LabelError" => some .labelError
  | .str "StepShapeError" => some .stepShape
  | .str "FutureNotCompletedError" => some .notCompleted
  | _ => none

/- Verbs on objects, results and errors. -/
def Verb.dataProgram?
    (verb : Verb)
    (args : List Value)
    (codes : List (Option Code)) : Option Program :=
  match verb, args, codes with
  | .object keys, vs, _ =>
      some (.request (.newRecord (Fields.ofList (keys.zip vs))))
  | .newList, vs, _ => some (.request (.newList vs))
  | .push, [l, v], _ => some (.request (.push l v))
  | .length, [l], _ => some (.request (.length l))
  | .field, [v, key], _ => some (.request (.field v key))
  | .hasField, [v, key], _ =>
      some (.request (.hasField v key))
  | .property key, [v], _ =>
      some (.request (.field v (.str key)))
  | .add, [.int a, .int b], _ => some (.done (.int (a + b)))
  | .subtract, [.int a, .int b], _ =>
      some (.done (.int (a - b)))
  | .less, [.int a, .int b], _ =>
      some (answer (decide (a < b)))
  | .same, [a, b], _ => some (answer (a.same b))
  | .concat, vs, _ => some (.request (.text vs))
  | .call, f :: vs, _ => some (.request (.call f vs))
  | .log, [v], _ => some (.request (.log v))
  | .readGlobal, [name], _ =>
      some (.request (.readGlobal name))
  | .writeGlobal, [name, v], _ =>
      some (.request (.writeGlobal name v))
  | .ok, [v], _ =>
      some (.request (.newRecord (Outcome.fulfilled v).fields))
  | .err, [e], _ =>
      some (.request (.newRecord (Outcome.rejected e).fields))
  | .isErr, [r], _ =>
      some ((Program.request (.field r (.str "ok"))).bind
        fun ok => answer (!ok.truthy))
  | .unwrap, [r], _ => some (.request (.unwrap r))
  | .newError, [message], _ =>
      some (.request (.newError message none))
  | .newError, [message, cause], _ =>
      some (.request (.newError message (some cause)))
  | .defineTagged, [tag], [message] =>
      some (.request (.defineClass tag message))
  | .newTagged, [cls, props], _ =>
      some (.request (.newTagged cls props .undefined))
  | .newTagged, [cls, props, options], _ =>
      some (.request (.newTagged cls props options))
  | .instanceOf, [e, .errorClass cls], _ =>
      some (answer (e.isInstance cls))
  | .newDefect, kind :: props :: options, _ =>
      (defectClass? kind).map fun cls =>
        .request (.newTagged (.errorClass cls) props
          (options.headD .undefined))
  | .isDefect, [e], _ => some (answer e.isDefect)
  | .isLabelError, [e], _ =>
      some (answer (e.isInstance .labelError))
  | .isStepShapeError, [e], _ =>
      some (answer (e.isInstance .stepShape))
  | .isFutureNotCompletedError, [e], _ =>
      some (answer (e.isInstance .notCompleted))
  | .isTagged, [e], _ => some (answer e.tag?.isSome)
  | .isTagged, [e, .undefined], _ => some (answer e.tag?.isSome)
  | .isTagged, [e, tag], _ =>
      some (answer
        (match e.tag? with
         | some t => tag.same (.str t)
         | none => false))
  | _, _, _ => none

/- Verbs on labels, steps, constructs, tasks and builders. -/
def Verb.taskProgram?
    (verb : Verb)
    (args : List Value)
    (codes : List (Option Code)) : Option Program :=
  match verb, args, codes with
  | .newMachine, [assertions], _ =>
      some (.request (.newMachine assertions))
  | .allocate, [m], _ => some (.request (.allocate m))
  | .install, [m], [some code] =>
      some (.request (.install m code))
  | .replace, [m, l], [some code] =>
      some (.request (.replace m l code))
  | .jump, [m, l], _ => some (.request (.jump m l))
  | .labelCount, [m], _ => some (.request (.labelCount m))
  | .forgeLabel, [id, m], _ => some (.request (.forge id m))
  | .zero, [], _ =>
      some (.request (.newStep (.finish .undefined)))
  | .ret, [v], _ => some (.request (.newStep (.finish v)))
  | .returnFrom, [f], _ =>
      some (.request (.newStep (.handOff f)))
  | .stepAwait, [a, l], _ =>
      some (.request (.newStep (.suspend a l)))
  | .isStep, [v], _ => some (answer v.isStep)
  | .bind, [m, source], [some rest] =>
      some (.request (.bind m source rest))
  | .bindDetached, [m, source], [some rest] =>
      some (.request (.bindDetached m source rest))
  | .awaitResult, [m, a], [some rest] =>
      some (.request (.awaitResult m a rest))
  | .sequence, [m, first], [some rest] =>
      some (.request (.sequence m first rest))
  | .whileLoop, [m], [some condition, some body] =>
      some (.request (.whileLoop m condition body))
  | .forLoop, [m, items], [some body] =>
      some (.request (.forLoop m items body))
  | .tryWith, [m], [some code, some handler] =>
      some (.request (.tryWith m code handler))
  | .tryFinally, [m], [some code, some compensation] =>
      some (.request (.tryFinally m code compensation))
  | .using, [m, resource], [some body] =>
      some (.request (.using m resource body))
  | .run, [m, _, taskId, context, logged, collector],
      [some code, listener] =>
      some (.request (.run m code
        (optionsOf taskId context logged collector listener)))
  | .task, [assertions, taskId, context, logged, collector],
      [some code, listener] =>
      some (.request (.task true assertions code
        (optionsOf taskId context logged collector listener)))
  | .detachedTask,
      [assertions, taskId, context, logged, collector],
      [some code, listener] =>
      some (.request (.task false assertions code
        (optionsOf taskId context logged collector listener)))
  | .newBuilder, [m], _ =>
      some (.request (.newBuilder m (.bool true)))
  | .newBuilder, [m, captured], _ =>
      some (.request (.newBuilder m captured))
  | .builderZero, [b], _ =>
      some ((Program.request (.requireBuilder b)).bind
        fun _ => .request (.newStep (.finish .undefined)))
  | .builderRet, [b, v], _ =>
      some ((Program.request (.requireBuilder b)).bind
        fun _ => .request (.newStep (.finish v)))
  | .builderReturnFrom, [b, source], _ =>
      some (.request (.returnFrom b source))
  | .builderDelay, [b], [some code] =>
      some ((Program.request (.requireBuilder b)).bind fun _ =>
        (Program.request (.newFunction code)).bind fun f =>
          (Program.request (.logFields
            [("delayKeepsCode", .bool true)])).bind fun _ =>
              .done f)
  | _, _, _ => none

/- Verbs on futures, awaiters and resume contexts. -/
def Verb.futureProgram?
    (verb : Verb)
    (args : List Value)
    (codes : List (Option Code)) : Option Program :=
  match verb, args, codes with
  | .newFuture, [], _ => some (.request .newFuture)
  | .newPromise, [], _ => some (.request .newPromise)
  | .resolve, [d, v], _ =>
      some (.request (.settle d (.fulfilled v)))
  | .reject, [d, e], _ =>
      some (.request (.settle d (.rejected e)))
  | .resolvedFuture, vs, _ =>
      some (.request (.settledFuture
        (.fulfilled (vs.headD .undefined))))
  | .rejectedFuture, [e], _ =>
      some (.request (.settledFuture (.rejected e)))
  | .futureOf, [v], _ => some (.request (.futureOf v))
  | .awaiterOf, [v], _ => some (.request (.awaiterOf v))
  | .configureAwait, [v, captured], _ =>
      some (.request (.configureAwait v captured))
  | .isCompleted, [a], _ => some (.request (.isCompleted a))
  | .getResult, [a], _ => some (.request (.getResult a))
  | .onCompleted, [a], [some code] =>
      some (.request (.onCompleted a code))
  | .react, [p], [onFulfilled, onRejected] =>
      some (.request (.react p onFulfilled onRejected))
  | .isAwaitable, [v], _ => some (.request (.isAwaitable v))
  | .isConfigurable, [v], _ =>
      some (.request (.isConfigurable v))
  | .toAwaitable, [v], _ => some (.request (.toAwaitable v))
  | .isFuture, [.future _], _ => some (answer true)
  | .isFuture, [_], _ => some (answer false)
  | .customAwaitable, [],
      [some completed, some result, some register] =>
      some (.request
        (.customAwaitable completed result register))
  | .configurable, [base], [some configure] =>
      some (.request (.configurable base configure))
  | .thenable, [], [some code] =>
      some (.request (.thenable code))
  | .recordingContext, [name], _ =>
      some (.request (.recordingContext name))
  | .customContext, [name], [some code] =>
      some (.request (.customContext name code))
  | .post, [c, f], _ => some (.request (.post c f))
  | .runInContext, [c], [some code] =>
      some (.request (.runInContext c code))
  | .currentContext, [], _ => some (.request .currentContext)
  | .resumeOn, [c], [some code] =>
      some (.request (.resumeOn c code))
  | _, _, _ => none

/- Verbs on probes. -/
def Verb.probeProgram?
    (verb : Verb)
    (args : List Value)
    (codes : List (Option Code)) : Option Program :=
  match verb, args, codes with
  | .controlled, [], _ => some (.request .controlled)
  | .complete, [c, v], _ =>
      some (.request (.settleControlled c (.fulfilled v)))
  | .fail, [c, e], _ =>
      some (.request (.settleControlled c (.rejected e)))
  | .stats, [c], _ => some (.request (.stats c))
  | .yieldFuture, vs, _ =>
      some (.request (.settleLater
        (.fulfilled (vs.headD .undefined))))
  | .failLater, [e], _ =>
      some (.request (.settleLater (.rejected e)))
  | .countingIterable, [l], _ =>
      some (.request (.countingIterable l))
  | .drain, [items, limit], _ =>
      some (.request (.drain items limit))
  | .customIterable, [], [some start, some next, close] =>
      some (.request (.customIterable start next close))
  | .trackedResource, [name, logged], _ =>
      some (.request (.trackedResource name logged))
  | .customResource, [], [some code] =>
      some (.request (.customResource code))
  | .dispose, [r], _ => some (.request (.dispose r))
  | .newCollector, [], _ => some (.request .newCollector)
  | .eventTypes, [c], _ => some (.request (.eventTypes c))
  | _, _, _ => none

/- What a node does with its arguments and its bodies. -/
def Verb.program
    (verb : Verb)
    (args : List Value)
    (codes : List (Option Code)) : Program :=
  (verb.dataProgram? args codes
    <|> verb.taskProgram? args codes
    <|> verb.futureProgram? args codes
    <|> verb.probeProgram? args codes).getD refuse

------------------------------------------------------------
-- Expressions
------------------------------------------------------------

/- The values of the variables, the innermost first. -/
abbrev Env :=
  List (String × Value)

/- Bind parameters; a missing argument is undefined. -/
def Env.bindAll
    (env : Env) : List String → List Value → Env
  | [], _ => env
  | x :: xs, [] => Env.bindAll ((x, .undefined) :: env) xs []
  | x :: xs, v :: vs => Env.bindAll ((x, v) :: env) xs vs

mutual

/- The program that an expression means. -/
def Expr.meaning
    (e : Expr)
    (env : Env) : Program :=
  match e with
  | .undefined => .done .undefined
  | .quote d => ofDatum d
  | .var x => .done ((env.lookup x).getD .undefined)
  | .bindVar x e body =>
      (e.meaning env).bind fun v =>
        body.meaning ((x, v) :: env)
  | .inOrder es =>
      meaningAll es env fun vs =>
        .done (vs.getLastD .undefined)
  | .choose condition yes no =>
      (condition.meaning env).bind fun c =>
        if c.truthy then yes.meaning env else no.meaning env
  | .lambda body =>
      match body.meaning env with
      | some code => .request (.newFunction code)
      | none => .done .undefined
  | .handle e x handler =>
      .attempt (e.meaning env) fun outcome =>
        match outcome with
        | .ok v => .done v
        | .error thrown =>
            handler.meaning ((x, thrown) :: env)
  | .throwing e => (e.meaning env).bind .fail
  | .node verb args bodies =>
      meaningAll args env fun vs =>
        verb.program vs (meaningBodies bodies env)

/- Evaluate expressions from left to right. -/
def meaningAll
    (es : List Expr)
    (env : Env)
    (k : List Value → Program) : Program :=
  match es with
  | [] => k []
  | e :: rest =>
      (e.meaning env).bind fun v =>
        meaningAll rest env fun vs => k (v :: vs)

/- The code that a body means, unless it is absent. -/
def Body.meaning
    (body : Body)
    (env : Env) : Option Code :=
  match body with
  | .absent => none
  | .code params e =>
      some fun args => e.meaning (Env.bindAll env params args)

/- The code that bodies mean, in order. -/
def meaningBodies
    (bodies : List Body)
    (env : Env) : List (Option Code) :=
  match bodies with
  | [] => []
  | body :: rest => body.meaning env :: meaningBodies rest env

end

end Script

end Resumption

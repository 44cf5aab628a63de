import Resumption.Script.Expr

/-
  This file defines the vocabulary of scripts: the name of
  each node, its verb, and the shape of its arguments.

  Key definitions include:
    * `Slot`
    * `Verb.named?`
-/

namespace Resumption

namespace Script

------------------------------------------------------------
-- Shapes
------------------------------------------------------------

/- What stands at a place of a node. -/
inductive Slot where
  /- An expression. -/
  | value
  /- Data that stands for itself. -/
  | data
  /- An expression that may be missing. -/
  | optional
  /- Data that stands for itself and may be missing. -/
  | optionalData
  /- All expressions that are left. -/
  | rest
  /- A body without parameters. -/
  | body
  /- The name of a parameter, and a body. -/
  | binder
  /- The names of two parameters, and a body. -/
  | binderTwo
  /- A list of a parameter and a body, or nothing. -/
  | handler
  /- A list of a body, or nothing. -/
  | closing
  /- The options of a machine. -/
  | machineOptions
  /- The options of a task. -/
  | taskOptions
  deriving DecidableEq, Repr

------------------------------------------------------------
-- Nodes
------------------------------------------------------------

/- Nodes on objects, results and errors. -/
def Verb.dataNode? : String → Option (Verb × List Slot)
  | "list" => some (.newList, [.rest])
  | "push" => some (.push, [.value, .value])
  | "at" => some (.field, [.value, .value])
  | "len" => some (.length, [.value])
  | "get" => some (.field, [.value, .value])
  | "has" => some (.hasField, [.value, .value])
  | "add" => some (.add, [.value, .value])
  | "sub" => some (.subtract, [.value, .value])
  | "lt" => some (.less, [.value, .value])
  | "eq" => some (.same, [.value, .value])
  | "cat" => some (.concat, [.rest])
  | "call" => some (.call, [.value, .rest])
  | "log" => some (.log, [.value])
  | "g" => some (.readGlobal, [.value])
  | "set" => some (.writeGlobal, [.value, .value])
  | "ok" => some (.ok, [.value])
  | "err" => some (.err, [.value])
  | "isOk" => some (.property "ok", [.value])
  | "isErr" => some (.isErr, [.value])
  | "unwrap" => some (.unwrap, [.value])
  | "error" => some (.newError, [.value, .optional])
  | "defineTagged" => some (.defineTagged, [.data, .handler])
  | "new" => some (.newTagged, [.value, .value, .optional])
  | "tagOf" => some (.property "tag", [.value])
  | "instanceOf" => some (.instanceOf, [.value, .value])
  | "defect" => some (.newDefect, [.value, .value, .optional])
  | "isDefect" => some (.isDefect, [.value])
  | "isLabelError" => some (.isLabelError, [.value])
  | "isStepShapeError" => some (.isStepShapeError, [.value])
  | "isFutureNotCompletedError" =>
      some (.isFutureNotCompletedError, [.value])
  | "TaggedError.is" => some (.isTagged, [.value, .optional])
  | _ => none

/- Nodes on labels, steps, constructs, tasks and builders. -/
def Verb.taskNode? : String → Option (Verb × List Slot)
  | "newMachine" => some (.newMachine, [.machineOptions])
  | "alloc" => some (.allocate, [.value])
  | "code" => some (.install, [.value, .body])
  | "setCode" => some (.replace, [.value, .value, .body])
  | "jump" => some (.jump, [.value, .value])
  | "labelCount" => some (.labelCount, [.value])
  | "forgeLabel" => some (.forgeLabel, [.value, .value])
  | "zero" => some (.zero, [])
  | "ret" => some (.ret, [.value])
  | "returnFrom" => some (.returnFrom, [.value])
  | "stepAwait" => some (.stepAwait, [.value, .value])
  | "isStep" => some (.isStep, [.value])
  | "bind" => some (.bind, [.value, .value, .binder])
  | "bindDetached" =>
      some (.bindDetached, [.value, .value, .binder])
  | "awaitResult" =>
      some (.awaitResult, [.value, .value, .binder])
  | "combine" => some (.sequence, [.value, .value, .body])
  | "while" => some (.whileLoop, [.value, .body, .body])
  | "for" => some (.forLoop, [.value, .value, .binder])
  | "tryWith" => some (.tryWith, [.value, .body, .binder])
  | "tryFinally" => some (.tryFinally, [.value, .body, .body])
  | "using" => some (.using, [.value, .value, .binder])
  | "run" => some (.run, [.value, .body, .taskOptions])
  | "task" => some (.task, [.binder, .taskOptions])
  | "detachedTask" =>
      some (.detachedTask, [.binder, .taskOptions])
  | "newBuilder" =>
      some (.newBuilder, [.value, .optionalData])
  | "machineOf" => some (.property "machine", [.value])
  | "b.zero" => some (.builderZero, [.value])
  | "b.ret" => some (.builderRet, [.value, .value])
  | "b.returnFrom" =>
      some (.builderReturnFrom, [.value, .value])
  | "b.delay" => some (.builderDelay, [.value, .body])
  | _ => none

/- Nodes on futures, awaiters and resume contexts. -/
def Verb.futureNode? : String → Option (Verb × List Slot)
  | "newFuture" => some (.newFuture, [])
  | "newPromise" => some (.newPromise, [])
  | "fut" => some (.property "future", [.value])
  | "resolve" => some (.resolve, [.value, .value])
  | "reject" => some (.reject, [.value, .value])
  | "Future.resolve" => some (.resolvedFuture, [.optional])
  | "Future.reject" => some (.rejectedFuture, [.value])
  | "from" => some (.futureOf, [.value])
  | "status" => some (.property "status", [.value])
  | "result" => some (.property "result", [.value])
  | "awaiter" => some (.awaiterOf, [.value])
  | "configureAwait" =>
      some (.configureAwait, [.value, .value])
  | "isCompleted" => some (.isCompleted, [.value])
  | "getResult" => some (.getResult, [.value])
  | "onCompleted" => some (.onCompleted, [.value, .binder])
  | "then" => some (.react, [.value, .handler, .handler])
  | "isAwaitable" => some (.isAwaitable, [.value])
  | "isConfigurable" => some (.isConfigurable, [.value])
  | "toAwaitable" => some (.toAwaitable, [.value])
  | "isFuture" => some (.isFuture, [.value])
  | "customAwaitable" =>
      some (.customAwaitable, [.body, .body, .binder])
  | "configurable" => some (.configurable, [.value, .binder])
  | "thenable" => some (.thenable, [.binderTwo])
  | "recordingContext" => some (.recordingContext, [.value])
  | "posts" => some (.property "posts", [.value])
  | "nameOf" => some (.property "name", [.value])
  | "post" => some (.post, [.value, .value])
  | "context" => some (.customContext, [.data, .binder])
  | "runInContext" => some (.runInContext, [.value, .body])
  | "currentContext" => some (.currentContext, [])
  | "resumeOn" => some (.resumeOn, [.value, .binder])
  | _ => none

/- Nodes on probes. -/
def Verb.probeNode? : String → Option (Verb × List Slot)
  | "controlled" => some (.controlled, [])
  | "awaitable" => some (.property "awaitable", [.value])
  | "complete" => some (.complete, [.value, .value])
  | "fail" => some (.fail, [.value, .value])
  | "stats" => some (.stats, [.value])
  | "yieldFuture" => some (.yieldFuture, [.optional])
  | "failLater" => some (.failLater, [.value])
  | "countingIterable" => some (.countingIterable, [.value])
  | "iterable" => some (.property "iterable", [.value])
  | "drain" => some (.drain, [.value, .value])
  | "customIterable" =>
      some (.customIterable, [.body, .body, .closing])
  | "trackedResource" =>
      some (.trackedResource, [.value, .value])
  | "dispose" => some (.dispose, [.value])
  | "disposeCount" => some (.property "disposeCount", [.value])
  | "resource" => some (.customResource, [.body])
  | "collector" => some (.newCollector, [])
  | "types" => some (.eventTypes, [.value])
  | _ => none

/- The verb and the shape of a node of the given name. -/
def Verb.named? (name : String) : Option (Verb × List Slot) :=
  Verb.dataNode? name
    <|> Verb.taskNode? name
    <|> Verb.futureNode? name
    <|> Verb.probeNode? name

end Script

end Resumption

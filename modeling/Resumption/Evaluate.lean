import Resumption.Construct.Recovery
import Resumption.Picture
import Resumption.Probe
import Resumption.Task.Start

/-
  This file gives requests, programs and closures their
  meaning as runs.

  A closure is entered with a caller for the closures that
  it calls in turn.  The caller of depth zero gives up, and
  a caller of greater depth enters with the next smaller one.

  Key definitions include:
    * `Request.perform`
    * `Program.run`
    * `Closure.enter`
    * `Caller.ofDepth`
-/

namespace Resumption

------------------------------------------------------------
-- Requests
------------------------------------------------------------

/- The emitter that a task's options describe. -/
def TaskOptions.emitter
    (options : TaskOptions Program) : Emitter :=
  .new (options.listener.map .client)
    options.taskId options.context

/- What the library does about a request. -/
def Request.perform
    (caller : Caller)
    (request : Request Program) : Run Value :=
  match request with
  -- Objects
  | .newRecord fields => Run.newRecord fields
  | .field v key => do
      let name ← Run.text key
      Run.inspecting v name
      Run.field v name
  | .hasField v key => do
      return .bool (← Run.hasField v (← Run.text key))
  | .newList items => do
      return .list (← Table.lists.alloc items.toArray)
  | .push l v => do
      let l ← Run.listOf l
      Run.quietly (Table.lists.alter l (·.push v))
  | .length l => Run.field l "length"
  | .text parts => do
      return .str (String.join (← parts.mapM Run.text))
  | .newFunction code => Run.newFunction (.client code)
  | .call f args => Run.callValue caller f args
  -- The session
  | .readGlobal name => do
      let name ← Run.text name
      return ((← get).globals.lookup name).getD .undefined
  | .writeGlobal name v => do
      let name ← Run.text name
      modify fun s =>
        { s with globals := Fields.put name v s.globals }
      return v
  | .log v => do Run.quietly (Run.logged (← Run.picture v))
  | .logFields fields => do
      Run.quietly
        (Run.logged (.record (← Run.pictureFields fields)))
  -- Errors
  | .newError message cause => Run.newPlain message cause
  | .defineClass tag message =>
      Run.defineClass tag (message.map .client)
  | .newTagged cls props options =>
      Run.construct caller cls props options
  | .unwrap result => Run.unwrap result
  -- Labels and steps
  | .newMachine assertions => Label.newMachine assertions
  | .allocate m => do
      return .label (← Label.allocate (← Label.machineOf m))
  | .install m code => do
      let m ← Label.machineOf m
      return .label (← Label.install m (.client code))
  | .replace m l code => do
      let m ← Label.machineOf m
      Run.quietly (Label.replace m l (.client code))
  | .jump m l => do Label.jump caller (← Label.machineOf m) l
  | .forge id m => Label.forge id m
  | .labelCount m => Builder.labelCount m
  | .newStep step => Run.newStep step
  -- Awaiting
  | .bind m source rest =>
      Builder.bind caller m source (.client rest)
  | .bindDetached m source rest =>
      Await.bindDetached caller m source (.client rest)
  | .awaitResult m awaiter rest =>
      Await.awaitResult caller m awaiter (.client rest)
  -- Constructs
  | .sequence m first rest => do
      Sequence.build caller (← Builder.machineOf m) first
        (.client rest)
  | .whileLoop m condition body => do
      Loop.build caller (← Builder.machineOf m)
        (.client condition) (.client body)
  | .forLoop m items body => do
      Iteration.build caller (← Builder.machineOf m) items
        (.client body)
  | .tryWith m code handler => do
      Recovery.build caller (← Builder.machineOf m)
        (.client code) (.client handler)
  | .tryFinally m code compensation => do
      Cleanup.build caller (← Builder.machineOf m)
        (.client code) (.client compensation)
  | .using m resource body => do
      Resource.use caller (← Builder.machineOf m) resource
        (.client body)
  -- Tasks
  | .run m code options =>
      Task.run caller m (.client code) options.emitter
  | .task captured assertions code options =>
      Task.start caller captured assertions (.client code)
        options.emitter
  | .newBuilder m captured =>
      Builder.new m captured
  | .requireBuilder b => Run.quietly (Builder.require b)
  | .returnFrom b source => do
      Builder.require b
      Builder.returnFrom caller b source
  -- Futures and awaiters
  | .newFuture => Deferred.newFuture
  | .newPromise => Deferred.newPromise
  | .settle d outcome => Deferred.settle caller d outcome
  | .settledFuture outcome => do
      return .future (← Future.settled outcome)
  | .futureOf source => Future.ofSource source
  | .awaiterOf source => Awaiter.ofValue caller source
  | .configureAwait source captured =>
      Awaitable.configure caller source captured
  | .isCompleted awaiter => Awaiter.completed caller awaiter
  | .getResult awaiter => Awaiter.result caller awaiter
  | .onCompleted awaiter code =>
      Run.quietly
        (Awaiter.register caller awaiter (.client code))
  | .react source onFulfilled onRejected =>
      Promise.reactTo caller source
        (onFulfilled.map .client) (onRejected.map .client)
  | .isAwaitable v => do
      return .bool (← Awaitable.isAwaitable v)
  | .isConfigurable v => do
      return .bool (← Awaitable.isConfigurable v)
  | .toAwaitable v => Awaitable.ofSource v
  | .customAwaitable completed result register =>
      Awaitable.custom
        ⟨.client completed, .client result, .client register⟩
  | .configurable base configure =>
      Awaitable.configurable base (.client configure)
  | .thenable code => do
      return .thenable (← Table.thenables.alloc (.client code))
  -- Resume contexts
  | .recordingContext name => Context.recording name
  | .customContext name code =>
      Context.custom name (.client code)
  | .post context f => Run.quietly (Context.post caller context f)
  | .runInContext context code =>
      Run.elsewhere context (caller.call (.client code) [])
  | .currentContext => Run.ambient
  | .resumeOn context code =>
      Run.newFunction (.resumption context (.client code))
  -- Probes
  | .controlled => Probe.controlled
  | .settleControlled c outcome =>
      Probe.complete caller c outcome
  | .stats probe => Probe.stats probe
  | .settleLater outcome => Future.later outcome
  | .countingIterable items => Probe.counting items
  | .customIterable start next close =>
      Probe.iterable (.client start) (.client next)
        (close.map .client)
  | .drain items limit =>
      match limit with
      | .int n => Iteration.drain caller items n.toNat
      | _ => Run.typeError
  | .trackedResource name logged =>
      Resource.tracked name logged.truthy
  | .customResource code => Resource.custom (.client code)
  | .dispose resource =>
      Run.quietly (Resource.dispose caller resource)
  | .newCollector => Probe.collector
  | .collect c event => Probe.collect c event
  | .eventTypes c => Probe.types c

------------------------------------------------------------
-- Programs
------------------------------------------------------------

/- Run client code. -/
def Program.run
    (caller : Caller) : Program → Run Value
  | .done v => return v
  | .fail e => Run.raise e
  | .perform r k => do
      let v ← r.perform caller
      (k v).run caller
  | .attempt body k => do
      let outcome ← Run.attempt (body.run caller)
      (k outcome).run caller

------------------------------------------------------------
-- Closures
------------------------------------------------------------

/- Enter a closure with arguments; a missing one is undefined. -/
def Closure.enter
    (caller : Caller)
    (closure : Closure)
    (args : List Value) : Run Value :=
  let arg := args.headD .undefined
  match closure with
  | .client code => do
      modify Run.calling
      (code args).run caller
  | .applied f args => caller.call f args
  | .received awaiter rest =>
      Await.enterReceived caller awaiter rest
  | .finished => Run.newStep (.finish arg)
  | .jump m l => Label.jump caller m (.label l)
  | .sequenceEntry i => Sequence.enter caller i
  | .sequenceResume i resume =>
      Sequence.resume caller i resume
  | .loopHead m entry condition body =>
      Loop.enter caller m entry condition body
  | .recoveryEntry i => Recovery.enter caller i
  | .recoveryOutcome i awaiter =>
      Recovery.outcome caller i awaiter
  | .cleanupEntry i => Cleanup.enter caller i
  | .cleanupOutcome i awaiter =>
      Cleanup.outcome caller i awaiter
  | .release resource => Resource.release caller resource
  | .cursorLoop m c body => Iteration.enter caller m c body
  | .cursorAdvance c => Cursor.advance caller c
  | .cursorItem c body => do
      caller.call body [← Cursor.current c]
  | .cursorClose c => Run.quietly (Cursor.close caller c)
  | .driverResume d callback =>
      Run.quietly (Driver.resume caller d callback arg)
  | .driverOutcome d awaiter =>
      Run.quietly (Driver.conclude caller d awaiter)
  | .resumption context callback =>
      Context.resume caller context callback
  | .posted entered context callback =>
      Context.enter caller entered context callback
  | .bridge f p => Future.cross f p
  | .settleFuture f fulfil => do
      let outcome :=
        if fulfil then .fulfilled arg else .rejected arg
      return .bool (← Future.settle caller f outcome)
  | .settlePromise p called fulfil =>
      Promise.enterSettle p called fulfil arg

/- The caller that may call to the given depth. -/
def Caller.ofDepth
    (rounds : Nat) : Nat → Caller
  | 0 => ⟨rounds, fun _ _ => Run.exhaust⟩
  | depth + 1 =>
      ⟨rounds, fun closure args =>
        closure.enter (Caller.ofDepth rounds depth) args⟩

/- Without depth nothing finishes. -/
theorem Caller.call_ofDepth_zero
    (rounds : Nat)
    (closure : Closure)
    (args : List Value)
    (s : Session) :
    (Caller.ofDepth rounds 0).call closure args s = none :=
  rfl

/- With depth to spare a closure is entered. -/
theorem Caller.call_ofDepth_succ
    (rounds depth : Nat)
    (closure : Closure)
    (args : List Value) :
    (Caller.ofDepth rounds (depth + 1)).call closure args =
      closure.enter (Caller.ofDepth rounds depth) args :=
  rfl

end Resumption

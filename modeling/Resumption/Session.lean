import Resumption.Closure
import Resumption.Datum
import Resumption.Task.Moment

/-
  This file defines the state of a session: the tables that
  references point into, the queues of jobs, the ambient
  context, the globals and the log.

  The rows of the construct, driver, cursor and latch tables
  are reached through closures alone; no request names one.
  A construct remembers the task that it was built in.

  Key definitions include:
    * `Settlement`
    * `FutureCell`
    * `Job`
    * `Incident`
    * `Session`
    * `Table`
-/

namespace Resumption

------------------------------------------------------------
-- Labels
------------------------------------------------------------

/-
  A label: its identifier, its machine and its code.  What a
  machine allocates is numbered; a forged handle names any
  values as its identifier and its machine.
-/
structure LabelCell where
  id : Value
  machine : Value
  code : Option Closure
  deriving Inhabited

/-
  A state machine: the labels it allocated, in order, and
  whether its jumps check that they end in a step.
-/
structure MachineCell where
  labels : Array Ref
  assertions : Bool
  deriving Inhabited

------------------------------------------------------------
-- Futures and Promises
------------------------------------------------------------

/- An outcome, stamped as the object it is read as. -/
structure Settlement where
  id : Stamp
  outcome : Outcome
  deriving Inhabited

/- The object that a settlement is read as. -/
def Settlement.value (s : Settlement) : Value :=
  .record s.id s.outcome.fields

/-
  A future: its settlement, those who wait for it, and the
  promise that was made for it.  Everyone who ever came to
  wait is kept as well, to be spoken about: nothing that runs
  reads it.
-/
structure FutureCell where
  settlement : Option Settlement
  watchers : Array Closure
  promise : Option Ref
  audience : List Closure
  deriving Inhabited

/-
  What happens when a promise settles: a handler may run,
  and the promise derived by the registration settles.
-/
structure Reaction where
  onFulfilled : Option Closure
  onRejected : Option Closure
  derived : Ref
  deriving Inhabited

/-
  A promise: the ambient context that it was made in, its
  outcome, and what waits for it.
-/
structure PromiseCell where
  ambient : Value
  outcome : Option Outcome
  reactions : Array Reaction
  deriving Inhabited

/- What settles a future or a promise from outside. -/
inductive Deferred where
  | future (f : Ref)
  | promise (p called : Ref)
  deriving Inhabited

/- What an awaiter made of client code does. -/
structure Reporter where
  completed : Closure
  result : Closure
  register : Closure
  deriving Inhabited

/- What an awaiter reports on. -/
inductive AwaiterCell where
  | future (f : Ref) (captured : Bool)
  | controlled (c : Ref)
  | custom (reporter : Reporter)
  deriving Inhabited

/- Where an awaitable that is not a future gets its awaiters. -/
inductive AwaitableCell where
  | configured (f : Ref) (captured : Bool)
  | controlled (c : Ref)
  | custom (reporter : Reporter)
  | configurable (base : Value) (configure : Closure)
  deriving Inhabited

------------------------------------------------------------
-- Contexts, Classes and Probes
------------------------------------------------------------

/- How a context runs what is posted to it. -/
inductive Posting where
  | recording (posts : Nat)
  | custom (post : Closure)
  deriving Inhabited

/- A resume context. -/
structure ContextCell where
  name : Value
  posting : Posting
  deriving Inhabited

/- A tagged error class that client code defined. -/
structure ClassCell where
  tag : Value
  message : Option Closure
  deriving Inhabited

/-
  An awaitable completed on demand: the object that can be
  awaited, the future behind it, and how it was used.
-/
structure ControlledCell where
  awaitable : Ref
  future : Ref
  awaiters : Nat
  completedChecks : Nat
  resultReads : Nat
  registrations : Nat
  deriving Inhabited

/- The counters of a controlled awaitable. -/
def ControlledCell.stats (c : ControlledCell) : Fields :=
  [ ("awaiters", .int c.awaiters),
    ("completedChecks", .int c.completedChecks),
    ("resultReads", .int c.resultReads),
    ("registrations", .int c.registrations) ]

/- How often an iterable's iterators were driven. -/
structure IterationCount where
  nextCalls : Nat
  yielded : Nat
  returnCalls : Nat
  deriving Inhabited

/- The counters of a counting iterable. -/
def IterationCount.stats (c : IterationCount) : Fields :=
  [ ("nextCalls", .int c.nextCalls),
    ("yielded", .int c.yielded),
    ("returnCalls", .int c.returnCalls) ]

/- An iterable that counts, or one made of client code. -/
inductive IterableCell where
  | counting (items : Value) (count : IterationCount)
  | custom (start next : Closure) (close : Option Closure)
  deriving Inhabited

/- A resource that counts its releases, or client code. -/
inductive ResourceCell where
  | tracked (name : Value) (logged : Bool) (count : Nat)
  | custom (dispose : Closure)
  deriving Inhabited

------------------------------------------------------------
-- Constructs
------------------------------------------------------------

/- A sequence in progress: its first step so far, and the rest. -/
structure SequenceCell where
  machine : Ref
  entry : Ref
  step : Value
  rest : Ref
  task : Option Ref
  deriving Inhabited

/- A protected body: where it resumes, and its handler. -/
structure RecoveryCell where
  machine : Ref
  entry : Ref
  inner : Value
  handler : Closure
  task : Option Ref
  deriving Inhabited

/- A body with a compensation that is to run once. -/
structure CleanupCell where
  machine : Ref
  entry : Ref
  inner : Value
  compensation : Closure
  compensated : Bool
  task : Option Ref

/- What is no cleanup has nothing left to compensate. -/
instance : Inhabited CleanupCell :=
  ⟨⟨default, default, default, default, true, none⟩⟩

/- What a cursor moves over. -/
inductive CursorSource where
  | items (l : Ref) (index : Nat)
  | text (rest : List Char)
  | counting (i : Ref) (index : Nat)
  | custom (i : Ref)
  | finished
  deriving Inhabited

/- A position in an iteration, and the item last reached. -/
structure CursorCell where
  source : CursorSource
  current : Value
  deriving Inhabited

------------------------------------------------------------
-- Tasks
------------------------------------------------------------

/- Who hears of a task's events, and what they carry. -/
structure Emitter where
  task : Ref
  listener : Option Closure
  taskId : Value
  context : Value
  deriving Inhabited

/-
  A driver: its machine, the first step until it is taken,
  and the label to resume at; which of the callbacks that it
  registered have fired; how its task ended, if it has while
  there was no output yet; and the future that it settles,
  which is made when the task has been started.
-/
structure DriverCell where
  machine : Value
  state : DriverState
  first : Option Value
  current : Value
  fired : Array Bool
  early : Option Outcome
  output : Option Ref
  emitter : Emitter
  deriving Inhabited

/-
  A builder: a machine, and whether awaits keep the context,
  which they do if that value is truthy.
-/
structure BuilderCell where
  machine : Value
  captured : Value
  deriving Inhabited

------------------------------------------------------------
-- Jobs
------------------------------------------------------------

/- A microtask. -/
inductive Job where
  /- Run a reaction on an outcome. -/
  | react (reaction : Reaction) (outcome : Outcome)
  /- Make a promise follow something that has a then method. -/
  | adopt (source : Value) (p : Ref)
  /- Report an error that nobody handled. -/
  | report (error : Value)
  deriving Inhabited

/- What a later turn does: settle a promise. -/
structure Turn where
  promise : Ref
  outcome : Outcome
  deriving Inhabited

------------------------------------------------------------
-- Chronicles
------------------------------------------------------------

/-
  What is remembered of a session's past, besides the stories
  of tasks.  It is kept to be spoken about: nothing that runs
  reads it.
-/
inductive Incident where
  /- The code of a task is entered, in an ambient context. -/
  | enters (task : Ref) (ambient : Value)
  /-
    A driver asks an awaiter to be called back.  Is it the
    awaiter of a future, and does it keep the context?
  -/
  | awaits
      (driver callback : Ref)
      (source : Option (Ref × Bool))
  /- A callback is posted to a context. -/
  | posts (context : Value) (callback : Closure)
  /- Something is to run with a context ambient. -/
  | within (context : Value)
  /-
    A builder awaits a source.  Has that a variant of its
    own, with another context rule?
  -/
  | binds (source : Value) (configurable : Bool)
  /- A builder is asked whether its awaits keep the context. -/
  | inspects (builder : Ref)
  /- A listener was called with an event, and ended. -/
  | hears
      (listener : Closure)
      (args : List Value)
      (ended : Except Value Value)
  /- Something is logged, and not by a listener. -/
  | logs (entry : Datum)
  /- A jump refuses what the code under a label produced. -/
  | malformed (label : Value)
  /- The compensation of a cleanup is invoked. -/
  | compensates (cleanup : Ref)
  /-
    Client code is called for a task, in an ambient context
    that the task has not made ambient itself.
  -/
  | runs (task : Ref) (ambient : Value)

------------------------------------------------------------
-- Sessions
------------------------------------------------------------

/-
  What a listener makes while it is told of an event is
  numbered with the events, which is what the session being
  aside says.  A task is at home while its code runs in the
  context that it was entered in.
-/
structure Session where
  objects : Nat
  events : Nat
  aside : Bool
  chronicle : List Incident
  ambient : Value
  task : Option Ref
  home : Option Ref
  globals : Fields
  log : Array Datum
  microtasks : List Job
  immediates : List Turn
  lists : Array (Array Value)
  functions : Array Closure
  classes : Array ClassCell
  machines : Array MachineCell
  labels : Array LabelCell
  futures : Array FutureCell
  promises : Array PromiseCell
  deferreds : Array Deferred
  awaiters : Array AwaiterCell
  awaitables : Array AwaitableCell
  thenables : Array Closure
  contexts : Array ContextCell
  controlled : Array ControlledCell
  iterables : Array IterableCell
  resources : Array ResourceCell
  collectors : Array Ref
  sequences : Array SequenceCell
  recoveries : Array RecoveryCell
  cleanups : Array CleanupCell
  cursors : Array CursorCell
  drivers : Array DriverCell
  builders : Array BuilderCell
  latches : Array Bool
  tasks : Array TaskCell
  deriving Inhabited

/- The session in which nothing has happened. -/
def Session.empty : Session where
  objects := 0
  events := 0
  aside := false
  chronicle := []
  ambient := .undefined
  task := none
  home := none
  globals := []
  log := #[]
  microtasks := []
  immediates := []
  lists := #[]
  functions := #[]
  classes := #[]
  machines := #[]
  labels := #[]
  futures := #[]
  promises := #[]
  deferreds := #[]
  awaiters := #[]
  awaitables := #[]
  thenables := #[]
  contexts := #[]
  controlled := #[]
  iterables := #[]
  resources := #[]
  collectors := #[]
  sequences := #[]
  recoveries := #[]
  cleanups := #[]
  cursors := #[]
  drivers := #[]
  builders := #[]
  latches := #[]
  tasks := #[]

------------------------------------------------------------
-- Tables
------------------------------------------------------------

/- A table of a session, to be read and to be changed. -/
structure Table (α : Type) where
  rows : Session → Array α
  change : (Array α → Array α) → Session → Session

namespace Table

@[inline] def lists : Table (Array Value) :=
  ⟨(·.lists), fun f s => { s with lists := f s.lists }⟩

@[inline] def functions : Table Closure :=
  ⟨(·.functions), fun f s =>
    { s with functions := f s.functions }⟩

@[inline] def classes : Table ClassCell :=
  ⟨(·.classes), fun f s => { s with classes := f s.classes }⟩

@[inline] def machines : Table MachineCell :=
  ⟨(·.machines), fun f s =>
    { s with machines := f s.machines }⟩

@[inline] def labels : Table LabelCell :=
  ⟨(·.labels), fun f s => { s with labels := f s.labels }⟩

@[inline] def futures : Table FutureCell :=
  ⟨(·.futures), fun f s => { s with futures := f s.futures }⟩

@[inline] def promises : Table PromiseCell :=
  ⟨(·.promises), fun f s =>
    { s with promises := f s.promises }⟩

@[inline] def deferreds : Table Deferred :=
  ⟨(·.deferreds), fun f s =>
    { s with deferreds := f s.deferreds }⟩

@[inline] def awaiters : Table AwaiterCell :=
  ⟨(·.awaiters), fun f s =>
    { s with awaiters := f s.awaiters }⟩

@[inline] def awaitables : Table AwaitableCell :=
  ⟨(·.awaitables), fun f s =>
    { s with awaitables := f s.awaitables }⟩

@[inline] def thenables : Table Closure :=
  ⟨(·.thenables), fun f s =>
    { s with thenables := f s.thenables }⟩

@[inline] def contexts : Table ContextCell :=
  ⟨(·.contexts), fun f s =>
    { s with contexts := f s.contexts }⟩

@[inline] def controlled : Table ControlledCell :=
  ⟨(·.controlled), fun f s =>
    { s with controlled := f s.controlled }⟩

@[inline] def iterables : Table IterableCell :=
  ⟨(·.iterables), fun f s =>
    { s with iterables := f s.iterables }⟩

@[inline] def resources : Table ResourceCell :=
  ⟨(·.resources), fun f s =>
    { s with resources := f s.resources }⟩

@[inline] def collectors : Table Ref :=
  ⟨(·.collectors), fun f s =>
    { s with collectors := f s.collectors }⟩

@[inline] def sequences : Table SequenceCell :=
  ⟨(·.sequences), fun f s =>
    { s with sequences := f s.sequences }⟩

@[inline] def recoveries : Table RecoveryCell :=
  ⟨(·.recoveries), fun f s =>
    { s with recoveries := f s.recoveries }⟩

@[inline] def cleanups : Table CleanupCell :=
  ⟨(·.cleanups), fun f s =>
    { s with cleanups := f s.cleanups }⟩

@[inline] def cursors : Table CursorCell :=
  ⟨(·.cursors), fun f s => { s with cursors := f s.cursors }⟩

@[inline] def drivers : Table DriverCell :=
  ⟨(·.drivers), fun f s => { s with drivers := f s.drivers }⟩

@[inline] def builders : Table BuilderCell :=
  ⟨(·.builders), fun f s =>
    { s with builders := f s.builders }⟩

@[inline] def latches : Table Bool :=
  ⟨(·.latches), fun f s => { s with latches := f s.latches }⟩

@[inline] def tasks : Table TaskCell :=
  ⟨(·.tasks), fun f s => { s with tasks := f s.tasks }⟩

end Table

end Resumption

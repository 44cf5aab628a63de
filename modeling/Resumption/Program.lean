import Resumption.Value

/-
  This file defines client code as a tree of requests.

  A program finishes with a value, fails with one, asks the
  library for something and goes on with the answer, or
  attempts a program and goes on with how it ended.  The
  code that a client hands to the library (continuations,
  handlers, listeners) is part of the request, so that a
  program is ordinary data with functions at its branches.

  Key definitions include:
    * `TaskOptions`
    * `Request`
    * `Program`
    * `Program.bind`
-/

namespace Resumption

------------------------------------------------------------
-- Requests
------------------------------------------------------------

/-
  What a client can say about a task: its identifier, the
  object attached to its events, and their listener, which
  is given the event and the object.
-/
structure TaskOptions (P : Type) where
  taskId : Value
  context : Value
  listener : Option (List Value → P)

/-
  What client code can ask for.  The parameter is the type
  of the code that the request carries.
-/
inductive Request (P : Type) where
  -- Objects
  | newRecord (fields : Fields)
  | field (v : Value) (key : Value)
  | hasField (v : Value) (key : Value)
  | newList (items : List Value)
  | push (l v : Value)
  | length (l : Value)
  | text (parts : List Value)
  | newFunction (code : List Value → P)
  | call (f : Value) (args : List Value)
  -- The session
  | readGlobal (name : Value)
  | writeGlobal (name v : Value)
  | log (v : Value)
  | logFields (fields : Fields)
  -- Errors
  | newError (message : Value) (cause : Option Value)
  | defineClass
      (tag : Value)
      (message : Option (List Value → P))
  | newTagged (cls props options : Value)
  | unwrap (result : Value)
  -- Labels and steps
  | newMachine (assertions : Value)
  | allocate (m : Value)
  | install (m : Value) (code : List Value → P)
  | replace (m l : Value) (code : List Value → P)
  | jump (m l : Value)
  | forge (id m : Value)
  | labelCount (m : Value)
  | newStep (step : StepView)
  -- Awaiting
  | bind (m source : Value) (rest : List Value → P)
  | bindDetached (m source : Value) (rest : List Value → P)
  | awaitResult (m awaiter : Value) (rest : List Value → P)
  -- Constructs
  | sequence (m first : Value) (rest : List Value → P)
  | whileLoop
      (m : Value)
      (condition body : List Value → P)
  | forLoop (m items : Value) (body : List Value → P)
  | tryWith
      (m : Value)
      (code handler : List Value → P)
  | tryFinally
      (m : Value)
      (code compensation : List Value → P)
  | using (m resource : Value) (body : List Value → P)
  -- Tasks
  | run
      (m : Value)
      (code : List Value → P)
      (options : TaskOptions P)
  | task
      (captured : Bool)
      (assertions : Value)
      (code : List Value → P)
      (options : TaskOptions P)
  | newBuilder (m captured : Value)
  | requireBuilder (b : Value)
  | returnFrom (b source : Value)
  -- Futures and awaiters
  | newFuture
  | newPromise
  | settle (d : Value) (outcome : Outcome)
  | settledFuture (outcome : Outcome)
  | futureOf (source : Value)
  | awaiterOf (source : Value)
  | configureAwait (source captured : Value)
  | isCompleted (awaiter : Value)
  | getResult (awaiter : Value)
  | onCompleted (awaiter : Value) (code : List Value → P)
  | react
      (source : Value)
      (onFulfilled onRejected : Option (List Value → P))
  | isAwaitable (v : Value)
  | isConfigurable (v : Value)
  | toAwaitable (v : Value)
  | customAwaitable
      (completed result register : List Value → P)
  | configurable (base : Value) (configure : List Value → P)
  | thenable (code : List Value → P)
  -- Resume contexts
  | recordingContext (name : Value)
  | customContext (name : Value) (post : List Value → P)
  | post (context f : Value)
  | runInContext (context : Value) (code : List Value → P)
  | currentContext
  | resumeOn (context : Value) (code : List Value → P)
  -- Probes
  | controlled
  | settleControlled (c : Value) (outcome : Outcome)
  | stats (c : Value)
  | settleLater (outcome : Outcome)
  | countingIterable (items : Value)
  | customIterable
      (start next : List Value → P)
      (close : Option (List Value → P))
  | drain (items limit : Value)
  | trackedResource (name logged : Value)
  | customResource (dispose : List Value → P)
  | dispose (resource : Value)
  | newCollector
  | collect (c event : Value)
  | eventTypes (c : Value)

------------------------------------------------------------
-- Programs
------------------------------------------------------------

/- Client code. -/
inductive Program where
  | done (v : Value)
  | fail (e : Value)
  | perform
      (r : Request Program)
      (k : Value → Program)
  | attempt
      (body : Program)
      (k : Except Value Value → Program)

/- Code that takes arguments. -/
abbrev Code :=
  List Value → Program

namespace Program

instance : Inhabited Program :=
  ⟨.done .undefined⟩

/- Ask for something and finish with the answer. -/
def request (r : Request Program) : Program :=
  .perform r .done

/- Run a program, then go on with its value. -/
def bind
    (p : Program)
    (f : Value → Program) : Program :=
  match p with
  | .done v => f v
  | .fail e => .fail e
  | .perform r k => .perform r fun v => (k v).bind f
  | .attempt body k => .attempt body fun o => (k o).bind f

/- Finishing is a unit of sequencing on the left. -/
theorem done_bind
    (v : Value)
    (f : Value → Program) :
    (Program.done v).bind f = f v :=
  rfl

/- Finishing is a unit of sequencing on the right. -/
theorem bind_done
    (p : Program) :
    p.bind .done = p := by
  match p with
  | .done v => rfl
  | .fail e => rfl
  | .perform r k =>
      simp only [bind]
      exact congrArg _ (funext fun v => bind_done (k v))
  | .attempt body k =>
      simp only [bind]
      exact congrArg _ (funext fun o => bind_done (k o))

/- Sequencing is associative. -/
theorem bind_assoc
    (p : Program)
    (f g : Value → Program) :
    (p.bind f).bind g = p.bind fun v => (f v).bind g := by
  match p with
  | .done v => rfl
  | .fail e => rfl
  | .perform r k =>
      simp only [bind]
      exact congrArg _ (funext fun v => bind_assoc (k v) f g)
  | .attempt body k =>
      simp only [bind]
      exact congrArg _ (funext fun o => bind_assoc (k o) f g)

end Program

end Resumption

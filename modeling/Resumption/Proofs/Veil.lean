import Resumption.Jobs
import Resumption.Proofs.Ensures

/-
  Veils: what is to be hidden of a program and of the session
  that it runs in.

  Under a veil no machine checks its jumps, all tasks have
  one and the same context rule, or nobody listens to tasks,
  as the veil says.  Everything else is seen as it is: the program
  asks for the same things, and all tables have the same
  rows but for the code in them, which is veiled as well.

  Main declarations:
    * `Veil`, `Veil.program`, `Veil.closure`
    * `Veil.Hides`
    * `Veil.Sees`
-/

namespace Resumption

/-
  What is hidden: that jumps are checked, whether tasks keep
  the ambient context, or that there are listeners.  Where
  context rules are hidden, all tasks have the same one.
-/
structure Veil where
  checks : Bool
  rule : Option Bool
  listeners : Bool
  deriving DecidableEq

namespace Veil

/- Are context rules hidden? -/
def contexts (V : Veil) : Bool :=
  V.rule.isSome

------------------------------------------------------------
-- Programs
------------------------------------------------------------

mutual

/- A program under a veil. -/
def program
    (V : Veil) : Program → Program
  | .done v => .done v
  | .fail e => .fail e
  | .perform r k =>
      .perform (V.request r) fun v => V.program (k v)
  | .attempt body k =>
      .attempt (V.program body) fun o => V.program (k o)

/- A request under a veil, with the code that it hands over. -/
def request
    (V : Veil) : Request Program → Request Program
  | .newFunction code =>
      .newFunction fun args => V.program (code args)
  | .defineClass tag message =>
      .defineClass tag (V.optional message)
  | .newMachine assertions =>
      .newMachine (if V.checks then .bool false else assertions)
  | .install m code =>
      .install m fun args => V.program (code args)
  | .replace m l code =>
      .replace m l fun args => V.program (code args)
  | .bind m source rest =>
      .bind m source fun args => V.program (rest args)
  | .bindDetached m source rest =>
      .bindDetached m source fun args => V.program (rest args)
  | .awaitResult m awaiter rest =>
      .awaitResult m awaiter fun args => V.program (rest args)
  | .sequence m first rest =>
      .sequence m first fun args => V.program (rest args)
  | .whileLoop m condition body =>
      .whileLoop m
        (fun args => V.program (condition args))
        fun args => V.program (body args)
  | .forLoop m items body =>
      .forLoop m items fun args => V.program (body args)
  | .tryWith m code handler =>
      .tryWith m
        (fun args => V.program (code args))
        fun args => V.program (handler args)
  | .tryFinally m code compensation =>
      .tryFinally m
        (fun args => V.program (code args))
        fun args => V.program (compensation args)
  | .using m resource body =>
      .using m resource fun args => V.program (body args)
  | .run m code options =>
      .run m (fun args => V.program (code args))
        (V.options options)
  | .task captured assertions code options =>
      .task (V.rule.getD captured)
        (if V.checks then .bool false else assertions)
        (fun args => V.program (code args))
        (V.options options)
  | .onCompleted awaiter code =>
      .onCompleted awaiter fun args => V.program (code args)
  | .react source onFulfilled onRejected =>
      .react source (V.optional onFulfilled)
        (V.optional onRejected)
  | .customAwaitable completed result register =>
      .customAwaitable
        (fun args => V.program (completed args))
        (fun args => V.program (result args))
        fun args => V.program (register args)
  | .configurable base configure =>
      .configurable base fun args => V.program (configure args)
  | .thenable code =>
      .thenable fun args => V.program (code args)
  | .customContext name post =>
      .customContext name fun args => V.program (post args)
  | .runInContext context code =>
      .runInContext context fun args => V.program (code args)
  | .resumeOn context code =>
      .resumeOn context fun args => V.program (code args)
  | .customIterable start next close =>
      .customIterable
        (fun args => V.program (start args))
        (fun args => V.program (next args))
        (V.optional close)
  | .customResource dispose =>
      .customResource fun args => V.program (dispose args)
  | r => r

/- The options of a task under a veil. -/
def options
    (V : Veil) : TaskOptions Program → TaskOptions Program
  | ⟨taskId, context, listener⟩ =>
      ⟨taskId, context,
        if V.listeners then none else V.optional listener⟩

/- Code that may be missing, under a veil. -/
def optional
    (V : Veil) :
    Option (List Value → Program) →
      Option (List Value → Program)
  | none => none
  | some code => some fun args => V.program (code args)

end

variable (V : Veil)

/- Code under a veil. -/
def code (code : Code) : Code :=
  fun args => V.program (code args)

/- A closure under a veil. -/
def closure : Closure → Closure
  | .client code => .client (V.code code)
  | .applied f args => .applied (closure f) args
  | .received awaiter rest => .received awaiter (closure rest)
  | .loopHead m entry condition body =>
      .loopHead m entry (closure condition) (closure body)
  | .cursorLoop m c body => .cursorLoop m c (closure body)
  | .cursorItem c body => .cursorItem c (closure body)
  | .resumption context callback =>
      .resumption context (closure callback)
  | .posted entered context callback =>
      .posted entered context (closure callback)
  | c => c

------------------------------------------------------------
-- Rows
------------------------------------------------------------

def classRow (c : ClassCell) : ClassCell :=
  { c with message := c.message.map V.closure }

def machineRow (c : MachineCell) : MachineCell :=
  { c with assertions := c.assertions && !V.checks }

def labelRow (c : LabelCell) : LabelCell :=
  { c with code := c.code.map V.closure }

def futureRow (c : FutureCell) : FutureCell :=
  { c with
    watchers := c.watchers.map V.closure
    audience := c.audience.map V.closure }

def reaction (r : Reaction) : Reaction :=
  { r with
    onFulfilled := r.onFulfilled.map V.closure
    onRejected := r.onRejected.map V.closure }

def promiseRow (c : PromiseCell) : PromiseCell :=
  { c with reactions := c.reactions.map V.reaction }

def reporter (r : Reporter) : Reporter :=
  ⟨V.closure r.completed, V.closure r.result,
    V.closure r.register⟩

/-
  An awaiter under a veil reports on the same, but may have
  another context rule where those are hidden.
-/
inductive AwaiterRow : AwaiterCell → AwaiterCell → Prop where
  | future
      {captured captured' : Bool}
      (f : Ref)
      (h : V.contexts = false → captured' = captured) :
      AwaiterRow (.future f captured) (.future f captured')
  | controlled (c : Ref) :
      AwaiterRow (.controlled c) (.controlled c)
  | custom (r : Reporter) :
      AwaiterRow (.custom r) (.custom (V.reporter r))

def awaitableRow : AwaitableCell → AwaitableCell
  | .custom r => .custom (V.reporter r)
  | .configurable base code =>
      .configurable base (V.closure code)
  | cell => cell

def posting : Posting → Posting
  | .custom post => .custom (V.closure post)
  | p => p

def contextRow (c : ContextCell) : ContextCell :=
  { c with posting := V.posting c.posting }

def iterableRow : IterableCell → IterableCell
  | .custom start next close =>
      .custom (V.closure start) (V.closure next)
        (close.map V.closure)
  | cell => cell

def resourceRow : ResourceCell → ResourceCell
  | .custom dispose => .custom (V.closure dispose)
  | cell => cell

def recoveryRow (c : RecoveryCell) : RecoveryCell :=
  { c with handler := V.closure c.handler }

def cleanupRow (c : CleanupCell) : CleanupCell :=
  { c with compensation := V.closure c.compensation }

def emitter (em : Emitter) : Emitter :=
  { em with
    listener :=
      if V.listeners then none
      else em.listener.map V.closure }

def driverRow (c : DriverCell) : DriverCell :=
  { c with emitter := V.emitter c.emitter }

/-
  A builder under a veil has the same machine, but may have
  another context rule where those are hidden.
-/
def BuilderRow (c c' : BuilderCell) : Prop :=
  c'.machine = c.machine ∧
    (V.contexts = false → c'.captured = c.captured)

/- A job under a veil: without listeners nothing is reported. -/
def job? : Job → Option Job
  | .react r outcome => some (.react (V.reaction r) outcome)
  | .adopt source p => some (.adopt source p)
  | .report e => if V.listeners then none else some (.report e)

end Veil

------------------------------------------------------------
-- Entries
------------------------------------------------------------

/-
  The fields of a picture without what they tell of the
  context rule of a builder.
-/
def Datum.unruled
    (fields : List (String × Datum)) : List (String × Datum) :=
  match fields.lookup "$" with
  | some (.str "builder") => fields.filter (·.1 != "captured")
  | _ => fields

mutual

/- A picture that tells nothing of context rules anywhere. -/
def Datum.blurred : Datum → Datum
  | .list items => .list (Datum.blurredItems items)
  | .record fields =>
      .record (Datum.unruled (Datum.blurredFields fields))
  | d => d

def Datum.blurredItems : List Datum → List Datum
  | [] => []
  | d :: rest => d.blurred :: Datum.blurredItems rest

def Datum.blurredFields :
    List (String × Datum) → List (String × Datum)
  | [] => []
  | (key, d) :: rest =>
      (key, d.blurred) :: Datum.blurredFields rest

end

mutual

/- Nothing in a picture is the picture of a builder. -/
def Datum.ruleless : Datum → Bool
  | .list items => Datum.rulelessItems items
  | .record fields =>
      match fields.lookup "$" with
      | some (.str "builder") => false
      | _ => Datum.rulelessFields fields
  | _ => true

def Datum.rulelessItems : List Datum → Bool
  | [] => true
  | d :: rest => d.ruleless && Datum.rulelessItems rest

def Datum.rulelessFields : List (String × Datum) → Bool
  | [] => true
  | (_, d) :: rest => d.ruleless && Datum.rulelessFields rest

end

/- An entry of the log, as far as it is seen under a veil. -/
def Veil.shade
    (V : Veil)
    (d : Datum) : Datum :=
  if V.contexts then d.blurred else d

/- What an incident adds to the effects of client code. -/
def Incident.effect? : Incident → Option Datum
  | .logs d => some d
  | _ => none

/-
  What client code has logged, the latest first.  What
  listeners log, and what is reported of them, is left out.
-/
def Session.effects (s : Session) : List Datum :=
  s.chronicle.filterMap Incident.effect?

/- What a listener was told, and how it ended. -/
def Incident.heard? :
    Incident → Option (List Value × Except Value Value)
  | .hears _ args ended => some (args, ended)
  | _ => none

/- What all listeners were told, the latest first. -/
def Session.heard
    (s : Session) : List (List Value × Except Value Value) :=
  s.chronicle.filterMap Incident.heard?

/- What a listener threw, if it did. -/
def Incident.thrown? : Incident → Option Value
  | .hears _ _ (.error e) => some e
  | _ => none

/- What the listeners have thrown, in the order of the events. -/
def Session.thrown (s : Session) : List Value :=
  (s.chronicle.filterMap Incident.thrown?).reverse

/- What a job is to report, if that is all it does. -/
def Job.reported? : Job → Option Value
  | .report e => some e
  | _ => none

/- What is still to be reported, in order. -/
def Session.owed (s : Session) : List Value :=
  s.microtasks.filterMap Job.reported?

------------------------------------------------------------
-- Records
------------------------------------------------------------

/- Requests that leave no trace but in the log. -/
def Request.Records : Request Program → Bool
  | .newRecord _ => true
  | .field _ _ => true
  | .hasField _ _ => true
  | .length _ => true
  | .text _ => true
  | .readGlobal _ => true
  | .log _ => true
  | .logFields _ => true
  | .newError _ _ => true
  | .unwrap _ => true
  | .currentContext => true
  | _ => false

/- Code that only records, and then finishes or throws. -/
inductive Program.Records : Program → Prop where
  | done (v : Value) :
      Records (.done v)
  | fail (e : Value) :
      Records (.fail e)
  | perform
      {r k}
      (h : r.Records = true)
      (hRest : ∀ v, Records (k v)) :
      Records (.perform r k)
  | attempt
      {body k}
      (h : Records body)
      (hRest : ∀ o, Records (k o)) :
      Records (.attempt body k)

------------------------------------------------------------
-- What Is Hidden
------------------------------------------------------------

/-
  An incident that does not show through a veil.  A jump that
  refuses a step shows that jumps are checked.  A context
  rule shows where a context is ambient, where a source is
  asked for a variant with another rule, or where a builder
  is looked at.  A listener that does more than to record
  shows that there is one.
-/
def Veil.Hides (V : Veil) : Incident → Prop
  | .malformed _ => V.checks = false
  | .within context =>
      V.contexts = true → context.truthy = false
  | .binds _ configurable =>
      V.contexts = true → configurable = false
  | .inspects _ => V.contexts = false
  | .logs d => V.contexts = true → d.ruleless = true
  | .hears listener args _ =>
      V.listeners = true →
        ∃ code, listener = .client code ∧ (code args).Records
  | _ => True

/- Nothing that has happened shows through the veil. -/
def Veil.Hidden
    (V : Veil)
    (s : Session) : Prop :=
  ∀ i ∈ s.chronicle, V.Hides i

namespace Veil

variable (V : Veil)

------------------------------------------------------------
-- Sessions
------------------------------------------------------------

/- Two tables have as many rows, which are related one by one. -/
structure Rows
    {α : Type}
    [Inhabited α]
    (R : α → α → Prop)
    (rows rows' : Array α) : Prop where
  size : rows'.size = rows.size
  row : ∀ r : Nat, R (rows.getD r default) (rows'.getD r default)

/-
  A session as it is seen under a veil.  Where contexts are
  hidden none is ambient, and nothing goes on aside where
  listeners are.
-/
structure Sees (s t : Session) : Prop where
  objects : t.objects = s.objects
  events : V.listeners = false → t.events = s.events
  aside : t.aside = s.aside
  frank : V.listeners = true → s.aside = false
  ambient : t.ambient = s.ambient
  plain : V.contexts = true → s.ambient.truthy = false
  task : t.task = s.task
  home : t.home = s.home
  globals : t.globals = s.globals
  effects : t.effects.map V.shade = s.effects.map V.shade
  heard : V.listeners = false → t.heard = s.heard
  log : V.listeners = false →
    t.log.toList.map V.shade = s.log.toList.map V.shade
  microtasks : t.microtasks = s.microtasks.filterMap V.job?
  immediates : t.immediates = s.immediates
  lists : Rows Eq s.lists t.lists
  functions : Rows (fun c c' => c' = V.closure c)
    s.functions t.functions
  classes : Rows (fun c c' => c' = V.classRow c)
    s.classes t.classes
  machines : Rows (fun c c' => c' = V.machineRow c)
    s.machines t.machines
  labels : Rows (fun c c' => c' = V.labelRow c)
    s.labels t.labels
  futures : Rows (fun c c' => c' = V.futureRow c)
    s.futures t.futures
  promises : Rows (fun c c' => c' = V.promiseRow c)
    s.promises t.promises
  deferreds : Rows Eq s.deferreds t.deferreds
  awaiters : Rows V.AwaiterRow s.awaiters t.awaiters
  awaitables : Rows (fun c c' => c' = V.awaitableRow c)
    s.awaitables t.awaitables
  thenables : Rows (fun c c' => c' = V.closure c)
    s.thenables t.thenables
  contexts : Rows (fun c c' => c' = V.contextRow c)
    s.contexts t.contexts
  controlled : Rows Eq s.controlled t.controlled
  iterables : Rows (fun c c' => c' = V.iterableRow c)
    s.iterables t.iterables
  resources : Rows (fun c c' => c' = V.resourceRow c)
    s.resources t.resources
  collectors : Rows Eq s.collectors t.collectors
  sequences : Rows Eq s.sequences t.sequences
  recoveries : Rows (fun c c' => c' = V.recoveryRow c)
    s.recoveries t.recoveries
  cleanups : Rows (fun c c' => c' = V.cleanupRow c)
    s.cleanups t.cleanups
  cursors : Rows Eq s.cursors t.cursors
  drivers : Rows (fun c c' => c' = V.driverRow c)
    s.drivers t.drivers
  builders : Rows V.BuilderRow s.builders t.builders
  latches : Rows Eq s.latches t.latches
  tasks : Rows Eq s.tasks t.tasks

------------------------------------------------------------
-- Tables
------------------------------------------------------------

namespace Rows

variable {α : Type}
variable [Inhabited α]
variable {R : α → α → Prop}
variable {rows rows' : Array α}

theorem eq
    (h : Rows Eq rows rows') :
    rows' = rows := by
  refine Array.ext h.size fun r hr hr' => ?_
  have hRow := h.row r
  simp only [Array.getD, hr, hr', dif_pos] at hRow
  exact hRow.symm

theorem of_eq
    (h : ∀ a, R a a) :
    Rows R rows rows :=
  ⟨rfl, fun _ => h _⟩

/- Both tables have one more row. -/
theorem push
    {a a' : α}
    (h : Rows R rows rows')
    (ha : R a a') :
    Rows R (rows.push a) (rows'.push a') where
  size := by simp [h.size]
  row r := by
    simp only [getD_push, h.size]
    split
    · exact ha
    · exact h.row r

/- A row of both tables is changed. -/
theorem modify
    {f f' : α → α}
    (h : Rows R rows rows')
    (hf : ∀ a a', R a a' → R (f a) (f' a'))
    (r : Nat) :
    Rows R (rows.modify r f) (rows'.modify r f') where
  size := by simp [h.size]
  row r' := by
    simp only [getD_modify, h.size]
    split
    · exact hf _ _ (h.row _)
    · exact h.row r'

end Rows

end Veil

end Resumption

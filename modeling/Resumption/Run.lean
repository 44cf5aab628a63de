import Resumption.Session

/-
  This file defines runs: computations on a session that
  finish with a value or with a thrown value, and with the
  session as they leave it, or that do not finish within
  their bounds.

  Key definitions include:
    * `Run`
    * `Run.attempt`
    * `Run.withAmbient`
    * `Run.withTask`, `Run.aside`
    * `Run.abroad`, `Run.elsewhere`
    * `Run.iterate`
    * `Table.alloc`
    * `Table.row`
    * `Table.alter`
    * `Caller`
-/

namespace Resumption

------------------------------------------------------------
-- Stamps and Incidents
------------------------------------------------------------

namespace Session

/- The stamp that the next object gets. -/
def stamp (s : Session) : Stamp :=
  if s.aside then .event s.events else .object s.objects

/- The session after an object was made. -/
def stamped (s : Session) : Session :=
  { s with
    objects := if s.aside then s.objects else s.objects + 1
    events := if s.aside then s.events + 1 else s.events }

/- The session in which something more has happened. -/
def withIncident
    (s : Session)
    (i : Incident) : Session :=
  { s with chronicle := i :: s.chronicle }

end Session

------------------------------------------------------------
-- Runs
------------------------------------------------------------

/-
  A run of no result has used up its bounds; client code
  cannot handle that.
-/
abbrev Run :=
  ExceptT Value (StateT Session Option)

namespace Run

/- Throw a value. -/
def raise {α : Type} (v : Value) : Run α :=
  throw v

/- Give up: the bounds are used up. -/
def exhaust {α : Type} : Run α :=
  fun _ => none

/- Run a computation and tell how it ended. -/
def attempt
    {α : Type}
    (act : Run α) : Run (Except Value α) :=
  fun s =>
    match act s with
    | some (r, s') => some (.ok r, s')
    | none => none

/- The session in which a context is made ambient. -/
def becoming
    (ambient : Value)
    (s : Session) : Session :=
  { s.withIncident (.within ambient) with ambient := ambient }

/-
  Run a computation with another ambient context; the
  previous one is back however the computation ends.
-/
def withAmbient
    {α : Type}
    (ambient : Value)
    (act : Run α) : Run α :=
  fun s =>
    let previous := s.ambient
    match act (becoming ambient s) with
    | some (r, s') =>
        some (r, { s' with ambient := previous })
    | none => none

/- The session in which the code of a task is entered. -/
def entering
    (t : Ref)
    (s : Session) : Session :=
  { s.withIncident (.enters t s.ambient) with
    task := some t
    home := some t }

/- Run a computation as part of a task. -/
def withTask
    {α : Type}
    (t : Ref)
    (act : Run α) : Run α :=
  fun s =>
    match act (entering t s) with
    | some (r, s') =>
        some (r, { s' with task := s.task, home := s.home })
    | none => none

/- Run a computation in which no task is at home. -/
def abroad
    {α : Type}
    (act : Run α) : Run α :=
  fun s =>
    match act { s with home := none } with
    | some (r, s') => some (r, { s' with home := s.home })
    | none => none

/- Run a computation with a context ambient that is no home. -/
def elsewhere
    {α : Type}
    (ambient : Value)
    (act : Run α) : Run α :=
  withAmbient ambient (abroad act)

/-
  Run a computation aside: what it makes is not numbered
  with what others make.
-/
def aside
    {α : Type}
    (act : Run α) : Run α :=
  fun s =>
    let previous := s.aside
    match act { s with aside := true } with
    | some (r, s') => some (r, { s' with aside := previous })
    | none => none

/- Run, and answer with nothing. -/
def quietly
    {α : Type}
    (act : Run α) : Run Value := do
  discard <| act
  return .undefined

/- Repeat a round until one gives a result. -/
def iterate
    {α : Type} : Nat → Run (Option α) → Run α
  | 0, _ => exhaust
  | n + 1, round =>
      fun s =>
        match round s with
        | some (.ok (some a), s') => some (.ok a, s')
        | some (.ok none, s') => iterate n round s'
        | some (.error e, s') => some (.error e, s')
        | none => none

/- An attempt never throws. -/
theorem attempt_ne_error
    {α : Type}
    (act : Run α)
    (s s' : Session)
    (e : Value) :
    attempt act s ≠ some (.error e, s') := by
  intro h
  unfold attempt at h
  cases hAct : act s with
  | none => simp [hAct] at h
  | some out => simp [hAct] at h

/- The ambient context is what it was, however a run ends. -/
theorem ambient_withAmbient
    {α : Type}
    (ambient : Value)
    (act : Run α)
    (s s' : Session)
    (r : Except Value α)
    (h : withAmbient ambient act s = some (r, s')) :
    s'.ambient = s.ambient := by
  unfold withAmbient at h
  cases hAct : act (becoming ambient s) with
  | none => simp [hAct] at h
  | some out =>
      simp only [hAct, Option.some.injEq, Prod.mk.injEq] at h
      rw [← h.2]

/- The ambient context. -/
def ambient : Run Value :=
  return (← get).ambient

/- The stamp of a new object. -/
def freshStamp : Run Stamp :=
  modifyGet fun s => (s.stamp, s.stamped)

/- The stamp of a new event. -/
def eventStamp : Run Stamp :=
  modifyGet fun s =>
    (.event s.events, { s with events := s.events + 1 })

/- A new object with the given fields. -/
def newRecord (fields : Fields) : Run Value := do
  return .record (← freshStamp) fields

/- A new step. -/
def newStep (step : StepView) : Run Value :=
  newRecord step.fields

/- The error that the language itself raises. -/
def newTypeError : Run Value := do
  return .error (← freshStamp) .native "" none

/- Throw the error that the language itself raises. -/
def typeError {α : Type} : Run α := do
  raise (← newTypeError)

/- Remember that something happened. -/
def chronicle (i : Incident) : Run Unit :=
  modify (·.withIncident i)

/- The session in which client code is called. -/
def calling (s : Session) : Session :=
  { s with
    chronicle :=
      match s.home with
      | some t => .runs t s.ambient :: s.chronicle
      | none => s.chronicle }

theorem calling_of_home
    {s : Session}
    {t : Ref}
    (h : s.home = some t) :
    calling s = s.withIncident (.runs t s.ambient) := by
  simp only [calling, Session.withIncident, h]

theorem calling_of_abroad
    {s : Session}
    (h : s.home = none) :
    calling s = s := by
  simp only [calling, h]
  rw [← h]

/- The session with one more entry in its log. -/
def logging
    (d : Datum)
    (s : Session) : Session :=
  { s with
    log := s.log.push d
    chronicle :=
      if s.aside then s.chronicle else .logs d :: s.chronicle }

/- Append to the log. -/
def logged (d : Datum) : Run Unit :=
  modify (logging d)

/- Add a microtask behind all others. -/
def enqueue (job : Job) : Run Unit :=
  modify fun s =>
    { s with microtasks := s.microtasks ++ [job] }

end Run

------------------------------------------------------------
-- Rows of Tables
------------------------------------------------------------

namespace Table

variable {α : Type}

/- Add a row and tell its position. -/
@[inline] def alloc
    (t : Table α)
    (row : α) : Run Ref := do
  let r := (t.rows (← get)).size
  modify (t.change (·.push row))
  return r

/- Read a row; a reference to nothing reads as a default. -/
@[inline] def row
    [Inhabited α]
    (t : Table α)
    (r : Ref) : Run α :=
  return (t.rows (← get)).getD r default

/- Change a row; a reference to nothing changes nothing. -/
@[inline] def alter
    (t : Table α)
    (r : Ref)
    (f : α → α) : Run Unit :=
  modify (t.change (·.modify r f))

end Table

------------------------------------------------------------
-- Stories of Tasks
------------------------------------------------------------

namespace Run

/- Add a moment to the story of a task. -/
def note
    (t : Ref)
    (m : Moment) : Run Unit :=
  Table.tasks.alter t fun c => { c with story := m :: c.story }

/- Add to what became of a task's cleanups. -/
def tend
    (t : Ref)
    (c : Care) : Run Unit :=
  Table.tasks.alter t fun cell =>
    { cell with care := c :: cell.care }

/- Add to what became of the cleanups of the present task. -/
def tendHere (c : Care) : Run Unit := do
  match (← get).task with
  | some t => tend t c
  | none => return ()

end Run

------------------------------------------------------------
-- Callers
------------------------------------------------------------

/-
  How the library runs a closure, and how many rounds a flat
  loop may take.
-/
structure Caller where
  rounds : Nat
  call : Closure → List Value → Run Value

end Resumption

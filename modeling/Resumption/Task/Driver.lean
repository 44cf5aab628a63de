import Resumption.Await
import Resumption.Task.Event

/-
  This file defines the driver of a task that suspends.

  A driver takes a step, and if the step suspends, asks the
  awaiter to be called back; the callback takes the next
  step.  A callback counts once, and only while the task is
  suspended.  At the end the driver settles its output.

  Key definitions include:
    * `Driver.advance`
    * `Driver.nextStep`
    * `Driver.suspend`
    * `Driver.register`
    * `Driver.handOff`
    * `Driver.finish`
    * `Driver.succeed`
    * `Driver.fail`
-/

namespace Resumption

namespace Driver

------------------------------------------------------------
-- Settling the Output
------------------------------------------------------------

/- Add a moment to the story of a driver's task. -/
def note
    (d : Ref)
    (m : Moment) : Run Unit := do
  Run.note (← Table.drivers.row d).emitter.task m

/- Set the state of a driver. -/
def setState
    (d : Ref)
    (state : DriverState) : Run Unit := do
  note d (.stands state)
  Table.drivers.alter d ({ · with state := state })

/- Tell the driver's listener of an event. -/
def emit
    (caller : Caller)
    (d : Ref)
    (event : Event) : Run Unit := do
  (← Table.drivers.row d).emitter.emit caller event

/- Has the driver's output settled? -/
def hasSettled (d : Ref) : Run Bool := do
  let cell ← Table.drivers.row d
  match cell.output with
  | some f => return (← Future.settlement? f).isSome
  | none => return cell.early.isSome

/-
  Settle the driver's output.  While there is none, how the
  task ended is kept for when there is.
-/
def settle
    (caller : Caller)
    (d : Ref)
    (outcome : Outcome) : Run Unit := do
  let cell ← Table.drivers.row d
  note d (.settles outcome)
  Run.tend cell.emitter.task .settled
  match cell.output with
  | some f => discard <| Future.settle caller f outcome
  | none =>
      Table.drivers.alter d fun c =>
        { c with early := c.early <|> some outcome }

/- End the task: say so, and settle its output. -/
def finish
    (caller : Caller)
    (d : Ref)
    (outcome : Outcome) : Run Unit := do
  setState d (.ofOutcome outcome)
  emit caller d (.ofOutcome false outcome)
  settle caller d outcome

/- End the task with a value. -/
def succeed
    (caller : Caller)
    (d : Ref)
    (v : Value) : Run Unit :=
  finish caller d (.fulfilled v)

/- End the task with a failure. -/
def fail
    (caller : Caller)
    (d : Ref)
    (e : Value) : Run Unit :=
  finish caller d (.rejected e)

------------------------------------------------------------
-- Handing Off
------------------------------------------------------------

/- End the task by the outcome of an awaiter. -/
def conclude
    (caller : Caller)
    (d : Ref)
    (awaiter : Value) : Run Unit := do
  note d .concludes
  match ← Run.attempt (Awaiter.result caller awaiter) with
  | .ok v => succeed caller d v
  | .error e => fail caller d e

/- End the task as a future ends, now or later. -/
def handOff
    (caller : Caller)
    (d : Ref)
    (future : Value) : Run Unit := do
  note d (.handsOver future)
  let awaiter ← Awaitable.awaiterWith caller future false
  emit caller d .handOff
  if (← Awaiter.completed caller awaiter).truthy then
    conclude caller d awaiter
  else
    setState d .suspended
    note d (.asks none (← Awaiter.keeper? awaiter))
    discard <|
      Awaiter.register caller awaiter (.driverOutcome d awaiter)

------------------------------------------------------------
-- Suspending
------------------------------------------------------------

/-
  Ask an awaiter to resume the task.  One that refuses fails
  the task.
-/
def register
    (caller : Caller)
    (d : Ref)
    (awaiter : Value) : Run Unit := do
  let callback := (← Table.drivers.row d).fired.size
  Table.drivers.alter d fun c =>
    { c with fired := c.fired.push false }
  note d (.asks (some callback) (← Awaiter.keeper? awaiter))
  Run.chronicle (.awaits d callback (← Awaiter.source? awaiter))
  let registration :=
    Awaiter.register caller awaiter (.driverResume d callback)
  match ← Run.attempt registration with
  | .ok _ => return ()
  | .error e =>
      note d (.unregistered e)
      fail caller d e

/- Suspend the task until an awaiter calls back. -/
def suspend
    (caller : Caller)
    (d : Ref)
    (awaiter label : Value) : Run Unit := do
  Table.drivers.alter d ({ · with current := label })
  setState d .suspended
  note d (.suspends label)
  let id ← Run.field label "id"
  emit caller d (.suspend id)
  register caller d awaiter

------------------------------------------------------------
-- Advancing
------------------------------------------------------------

/- Jump to a label on the driver's machine. -/
def jump
    (caller : Caller)
    (d : Ref)
    (label : Value) : Run Value := do
  note d (.jumps label (← hasSettled d))
  let cell ← Table.drivers.row d
  let body : Run Value := do
    Label.jump caller (← Label.machineOf cell.machine) label
  let landing ←
    Run.attempt (Run.withTask cell.emitter.task body)
  note d (.lands label)
  match landing with
  | .ok step => return step
  | .error e => Run.raise e

/-
  The next step: the first one if it was not taken yet, and
  else what the label to resume at leads to.
-/
def nextStep
    (caller : Caller)
    (d : Ref) : Run Value := do
  let cell ← Table.drivers.row d
  match cell.first with
  | some step =>
      Table.drivers.alter d ({ · with first := none })
      return step
  | none =>
      if !cell.current.truthy then
        let message := "Driver advanced with no resume label"
        Run.raise (← Run.newPlain (.str message) none)
      else
        let id ← Run.field cell.current "id"
        emit caller d (.resume id)
        let step ← jump caller d cell.current
        if step.isStep then
          return step
        else
          let id ← Run.field cell.current "id"
          Run.defect (.malformedStep id step)

/- Take the next step. -/
def advance
    (caller : Caller)
    (d : Ref) : Run Unit := do
  setState d .running
  match ← Run.attempt (nextStep caller d) with
  | .error e => fail caller d e
  | .ok step =>
      match step.step? with
      | none => return ()
      | some (.finish v) => succeed caller d v
      | some (.handOff future) => handOff caller d future
      | some (.suspend awaiter label) =>
          suspend caller d awaiter label

/-
  A callback of the driver.  It counts once, and only while
  the task is suspended.
-/
def resume
    (caller : Caller)
    (d callback : Ref)
    (failure : Value) : Run Unit := do
  let cell ← Table.drivers.row d
  if cell.fired.getD callback true
      || cell.state != .suspended then
    return ()
  else
    Table.drivers.alter d fun c =>
      { c with fired := c.fired.setIfInBounds callback true }
    if failure.truthy then
      let e ← Run.field failure "error"
      note d (.refused e)
      fail caller d e
    else
      advance caller d

------------------------------------------------------------
-- Starting
------------------------------------------------------------

/-
  The output of a driver, made when its task was started: it
  has settled if the task has ended by then.
-/
def makeOutput (d : Ref) : Run Ref := do
  let output ←
    match (← Table.drivers.row d).early with
    | some outcome => Future.settled outcome
    | none => Future.new
  Table.drivers.alter d ({ · with output := some output })
  return output

/- Drive a task from a first step that suspends. -/
def start
    (caller : Caller)
    (m first : Value)
    (emitter : Emitter) : Run Value := do
  let d ← Table.drivers.alloc
    { machine := m
      state := .notStarted
      first := some first
      current := .undefined
      fired := #[]
      early := none
      output := none
      emitter := emitter }
  advance caller d
  return .future (← makeOutput d)

end Driver

end Resumption

import Resumption.Context

/-
  This file defines the events of a task and how its
  listener hears of them.

  What a listener throws does not reach the task; it is
  reported by a job of its own.

  Key definitions include:
    * `Event.fields`
    * `Emitter.tell`
    * `Emitter.emit`
-/

namespace Resumption

------------------------------------------------------------
-- Events
------------------------------------------------------------

/- The fields that each kind of event has of its own. -/
def Event.fields : Event → Fields
  | .start => [("type", .str "task_start")]
  | .suspend l => [("type", .str "task_suspend"), ("label", l)]
  | .resume l => [("type", .str "task_resume"), ("label", l)]
  | .handOff => [("type", .str "task_handoff")]
  | .success sync =>
      [("type", .str "task_success"),
       ("synchronous", .bool sync)]
  | .failure e sync =>
      [("type", .str "task_error"),
       ("error", e),
       ("synchronous", .bool sync)]

------------------------------------------------------------
-- Emitting
------------------------------------------------------------

namespace Emitter

/- The identifier of a task that was given none. -/
def generatedId : Value :=
  .str "<uuid>"

/- The emitter of a task, which is numbered when it starts. -/
def new
    (listener : Option Closure)
    (taskId context : Value) : Emitter :=
  ⟨0, listener,
   if taskId.isMissing then generatedId else taskId,
   context⟩

/-
  The fields under which a listener sees an event.  There is
  a context among them if it is anything but undefined.
-/
def stamped
    (em : Emitter)
    (event : Event) : Fields :=
  event.fields ++ [("taskId", em.taskId)]
    ++ Fields.given "context" em.context

/- A listener has ended; what it threw is to be reported. -/
def hear
    (code : Closure)
    (args : List Value)
    (ended : Except Value Value) : Run Unit := do
  Run.chronicle (.hears code args ended)
  match ended with
  | .ok _ => return ()
  | .error e => Run.enqueue (.report e)

/- Call the listener with an event, if there is a listener. -/
def tell
    (caller : Caller)
    (em : Emitter)
    (event : Event) : Run Unit := do
  match em.listener with
  | none => return ()
  | some code =>
      let seen := .record (← Run.eventStamp) (em.stamped event)
      let args := [seen, em.context]
      hear code args
        (← Run.attempt (Run.aside (caller.call code args)))

/- An event of a task: it is noted, and the listener told. -/
def emit
    (caller : Caller)
    (em : Emitter)
    (event : Event) : Run Unit := do
  Run.note em.task (.told event)
  em.tell caller event

end Emitter

end Resumption

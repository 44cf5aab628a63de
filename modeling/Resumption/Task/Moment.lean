import Resumption.Value

/-
  This file defines what a task goes through: the events that
  its listener hears of, the states of its driver, and the
  moments that its story is made of.

  A session keeps the story of each task, and what became of
  the task's cleanups.  They are kept to be spoken about:
  nothing that runs reads them.

  Key definitions include:
    * `Event`
    * `DriverState`
    * `Moment`
    * `Care`
    * `TaskCell`
-/

namespace Resumption

------------------------------------------------------------
-- Events
------------------------------------------------------------

/- What the listener of a task is told. -/
inductive Event where
  | start
  | suspend (label : Value)
  | resume (label : Value)
  | handOff
  | success (synchronous : Bool)
  | failure (error : Value) (synchronous : Bool)

/- The event that tells how a task ended. -/
def Event.ofOutcome
    (synchronous : Bool) : Outcome → Event
  | .fulfilled _ => .success synchronous
  | .rejected e => .failure e synchronous

------------------------------------------------------------
-- States
------------------------------------------------------------

/- Where a driver stands. -/
inductive DriverState where
  | notStarted
  | running
  | suspended
  | fulfilled
  | faulted
  deriving DecidableEq, Repr, Inhabited

/- The state of a driver whose task has ended. -/
def DriverState.ofOutcome : Outcome → DriverState
  | .fulfilled _ => .fulfilled
  | .rejected _ => .faulted

------------------------------------------------------------
-- Stories
------------------------------------------------------------

/- What a task goes through, one thing at a time. -/
inductive Moment where
  /- Its listener, if there is one, is told of an event. -/
  | told (event : Event)
  /- Its driver enters a state. -/
  | stands (state : DriverState)
  /- Its driver is to resume at a label. -/
  | suspends (label : Value)
  /- Its driver jumps; had its output settled by then? -/
  | jumps (label : Value) (settled : Bool)
  /- The jump is over, whichever way it ended. -/
  | lands (label : Value)
  /- Its driver is to end as a future ends. -/
  | handsOver (future : Value)
  /-
    Its driver asks for a callback, to go on by or else to end
    by.  Does a future keep that callback as it is?
  -/
  | asks (callback future : Option Ref)
  /- The driver takes the outcome that it was to end by. -/
  | concludes
  /- An awaiter threw when it was asked to call back. -/
  | unregistered (error : Value)
  /- A resume context refused the callback. -/
  | refused (error : Value)
  /- Its driver settles its output. -/
  | settles (outcome : Outcome)
  /- Whoever started it is answered. -/
  | answers (output : Value)

/- What becomes of the cleanups entered during a task. -/
inductive Care where
  /- The body of a cleanup is entered. -/
  | entered (cleanup : Ref)
  /- The compensation of a cleanup is invoked. -/
  | compensated (cleanup : Ref)
  /- The output of the task is settled. -/
  | settled
  deriving DecidableEq

/- A task: its story and its cleanups, the latest first. -/
structure TaskCell where
  story : List Moment
  care : List Care
  deriving Inhabited

end Resumption

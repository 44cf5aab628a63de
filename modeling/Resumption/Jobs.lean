import Resumption.Evaluate

/-
  This file defines how queued jobs are run.

  Flushing runs all microtasks in the order in which they
  were queued, those that they queue included; then the
  oldest immediate and all microtasks again, until nothing
  is left.  The queue itself has no ambient context.

  Key definitions include:
    * `Job.run`
    * `Jobs.turn`
    * `Jobs.flush`
-/

namespace Resumption

------------------------------------------------------------
-- Jobs
------------------------------------------------------------

/- Run a microtask. -/
def Job.run
    (caller : Caller) : Job → Run Unit
  | .react reaction outcome =>
      Promise.runReaction caller reaction outcome
  | .adopt source p => Promise.adopt caller source p
  | .report e => do
      let shown := Datum.record [("uncaught", ← Run.picture e)]
      Run.aside (Run.logged shown)

namespace Jobs

/- Take the oldest microtask. -/
def takeMicrotask : Run (Option Job) :=
  modifyGet fun s =>
    match s.microtasks with
    | [] => (none, s)
    | job :: rest => (some job, { s with microtasks := rest })

/- Take the oldest immediate. -/
def takeImmediate : Run (Option Turn) :=
  modifyGet fun s =>
    match s.immediates with
    | [] => (none, s)
    | turn :: rest => (some turn, { s with immediates := rest })

/-
  One job: the oldest microtask, or the oldest immediate if
  there is none.  The answer is nothing while jobs were left.
-/
def turn (caller : Caller) : Run (Option Unit) := do
  match ← takeMicrotask with
  | some job =>
      job.run caller
      return none
  | none =>
      match ← takeImmediate with
      | some t =>
          Promise.conclude t.promise t.outcome
          return none
      | none => return some ()

/- Run jobs until none is left. -/
def flush (caller : Caller) : Run Unit :=
  Run.withAmbient .undefined
    (Run.iterate caller.rounds (turn caller))

end Jobs

end Resumption

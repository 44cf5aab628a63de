import Resumption.Await

/-
  This file defines recovery: run a body, and hand a failure
  of it to a handler.

  The body fails by throwing, at once or after a resumption,
  or by handing off to a future that fails.  Defects are not
  handed over.  What the handler does is not protected.

  Key definitions include:
    * `Recovery.build`
    * `Recovery.enter`
    * `Recovery.recover`
    * `Recovery.outcome`
-/

namespace Resumption

namespace Recovery

------------------------------------------------------------
-- Recovery
------------------------------------------------------------

/- Hand a failure to the handler, unless it is a defect. -/
def recover
    (caller : Caller)
    (handler : Closure)
    (e : Value) : Run Value :=
  if e.isDefect then Run.raise e
  else caller.call handler [e]

/- Conclude by the outcome that the body handed off to. -/
def outcome
    (caller : Caller)
    (i : Ref)
    (awaiter : Value) : Run Value := do
  match ← Run.attempt (Awaiter.result caller awaiter) with
  | .ok v => Run.newStep (.finish v)
  | .error e =>
      recover caller (← Table.recoveries.row i).handler e

/-
  Enter the protected body where it resumes.  When it
  suspends, the suspension resumes here, so that the rest of
  the body is protected too.
-/
def enter
    (caller : Caller)
    (i : Ref) : Run Value := do
  let cell ← Table.recoveries.row i
  let body := Label.jump caller cell.machine cell.inner
  match ← Run.attempt body with
  | .error e => recover caller cell.handler e
  | .ok step =>
      if step.isMissing then
        Run.typeError
      else
        match step.step? with
        | none => return .undefined
        | some (.finish _) => return step
        | some (.handOff future) =>
            let awaiter ← Awaiter.ofValue caller future
            if (← Awaiter.completed caller awaiter).truthy then
              outcome caller i awaiter
            else
              let l ← Label.install cell.machine
                (.recoveryOutcome i awaiter)
              Run.newStep (.suspend awaiter (.label l))
        | some (.suspend awaiter resume) =>
            Table.recoveries.alter i ({ · with inner := resume })
            Run.newStep (.suspend awaiter (.label cell.entry))

/- Run a body with a handler for its failure. -/
def build
    (caller : Caller)
    (m : Value)
    (body handler : Closure) : Run Value := do
  let m ← Label.machineOf m
  let entry ← Label.allocate m
  let inner ← Label.install m body
  let i ← Table.recoveries.alloc
    ⟨m, entry, .label inner, handler, (← get).task⟩
  Label.replace m (.label entry) (.recoveryEntry i)
  Label.jump caller m (.label entry)

end Recovery

end Resumption

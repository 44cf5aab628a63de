import Resumption.Construct.Sequence

/-
  This file defines the loop on a condition.

  Rounds that finish at once are taken flat.  A round that
  does not is sequenced with a jump back to the loop's head.

  Key definitions include:
    * `Loop.build`
    * `Loop.round`
    * `Loop.enter`
-/

namespace Resumption

namespace Loop

------------------------------------------------------------
-- Loops
------------------------------------------------------------

/-
  One round: nothing if the body finished at once, and else
  the step that the loop ends or goes on with.
-/
def round
    (caller : Caller)
    (m entry : Ref)
    (condition body : Closure) : Run (Option Value) := do
  if (← caller.call condition []).truthy then
    let step ← caller.call body []
    if step.isMissing then
      Run.typeError
    else
      match step.step? with
      | some (.finish _) => return none
      | _ =>
          some <$> Sequence.build caller (.machine m) step
            (.jump m entry)
  else
    some <$> Run.newStep (.finish .undefined)

/- Enter the loop at its head. -/
def enter
    (caller : Caller)
    (m entry : Ref)
    (condition body : Closure) : Run Value :=
  Run.iterate caller.rounds
    (round caller m entry condition body)

/- Run a body while a condition holds. -/
def build
    (caller : Caller)
    (m : Value)
    (condition body : Closure) : Run Value := do
  let m ← Label.machineOf m
  let entry ← Label.allocate m
  Label.replace m (.label entry)
    (.loopHead m entry condition body)
  Label.jump caller m (.label entry)

end Loop

end Resumption

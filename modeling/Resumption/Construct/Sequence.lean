import Resumption.Await

/-
  This file defines sequencing: run a first step to its end,
  then the rest.

  The first step is kept in the sequence and entered anew
  after each resumption, until it finishes or hands off.  A
  hand-off is awaited before the rest runs.

  Key definitions include:
    * `Sequence.build`
    * `Sequence.enter`
    * `Sequence.resume`
-/

namespace Resumption

namespace Sequence

------------------------------------------------------------
-- Building
------------------------------------------------------------

/- Sequence a first step with the code that follows it. -/
def build
    (caller : Caller)
    (m first : Value)
    (rest : Closure) : Run Value := do
  let m ← Label.machineOf m
  let rest ← Label.install m rest
  let entry ← Label.allocate m
  let i ← Table.sequences.alloc
    ⟨m, entry, first, rest, (← get).task⟩
  Label.replace m (.label entry) (.sequenceEntry i)
  Label.jump caller m (.label entry)

------------------------------------------------------------
-- Entering
------------------------------------------------------------

/-
  Enter at the current first step.  Only undefined and null
  have no kind to look at; what is no step leads nowhere.
-/
def enter
    (caller : Caller)
    (i : Ref) : Run Value := do
  let cell ← Table.sequences.row i
  if cell.step.isMissing then
    Run.typeError
  else
    match cell.step.step? with
    | none => return .undefined
    | some (.finish _) =>
        Label.jump caller cell.machine (.label cell.rest)
    | some (.handOff future) =>
        let awaiter ← Awaiter.ofValue caller future
        Await.awaitResult caller (.machine cell.machine) awaiter
          (.jump cell.machine cell.rest)
    | some (.suspend awaiter resume) =>
        let l ← Label.install cell.machine
          (.sequenceResume i resume)
        Run.newStep (.suspend awaiter (.label l))

/- Advance the first step, then enter again. -/
def resume
    (caller : Caller)
    (i : Ref)
    (label : Value) : Run Value := do
  let cell ← Table.sequences.row i
  let step ← Label.jump caller cell.machine label
  Table.sequences.alter i ({ · with step := step })
  Label.jump caller cell.machine (.label cell.entry)

end Sequence

end Resumption

import Resumption.Construct.Iteration
import Resumption.Task.Driver

/-
  This file defines how a task is run, and the builders that
  tasks are written with.

  A task whose first step finishes is a settled future; one
  that hands off is the future that it hands off to; only
  one that suspends has a driver.  A builder is a machine
  and the choice of whether its awaits keep the context.

  Key definitions include:
    * `Task.launch`
    * `Task.run`
    * `Task.start`
    * `Builder.new`
    * `Builder.bind`
    * `Builder.returnFrom`
-/

namespace Resumption

------------------------------------------------------------
-- Running Tasks
------------------------------------------------------------

namespace Task

/- Produce the first step, which has to be one. -/
def firstStep
    (caller : Caller)
    (code : Closure) : Run Value := do
  let first ← caller.call code []
  if first.isStep then return first
  else Run.defect (.malformedStep (.int (-1)) first)

/- Produce the first step, and see to the task from there. -/
def launch
    (caller : Caller)
    (m : Value)
    (code : Closure)
    (emitter : Emitter) : Run Value := do
  emitter.emit caller .start
  let first := Run.withTask emitter.task (firstStep caller code)
  match ← Run.attempt first with
  | .error e =>
      emitter.emit caller (.failure e true)
      return .future (← Future.settled (.rejected e))
  | .ok first =>
      match first.step? with
      | none => return .undefined
      | some (.finish v) =>
          emitter.emit caller (.success true)
          return .future (← Future.settled (.fulfilled v))
      | some (.handOff future) =>
          emitter.emit caller .handOff
          return future
      | some (.suspend _ _) =>
          Driver.start caller m first emitter

/- Run a task on a machine. -/
def run
    (caller : Caller)
    (m : Value)
    (code : Closure)
    (emitter : Emitter) : Run Value := do
  let t ← Table.tasks.alloc ⟨[], []⟩
  let output ← launch caller m code { emitter with task := t }
  Run.note t (.answers output)
  return output

end Task

------------------------------------------------------------
-- Builders
------------------------------------------------------------

namespace Builder

/- A builder over a machine. -/
def new
    (m captured : Value) : Run Value := do
  return .builder (← Table.builders.alloc ⟨m, captured⟩)

/- The machine that a construct is recorded in. -/
def machineOf (m : Value) : Run Value := do
  match m with
  | .builder b => return (← Table.builders.row b).machine
  | _ => return m

/- The label count of a machine, or of a builder's machine. -/
def labelCount (m : Value) : Run Value := do
  Run.field (← machineOf m) "labelCount"

/- Refuse to go on unless the value is a builder. -/
def require (b : Value) : Run Unit :=
  match b with
  | .builder _ => return ()
  | _ => Run.typeError

/- Await by a builder's choice, or on a machine. -/
def bind
    (caller : Caller)
    (m source : Value)
    (rest : Closure) : Run Value := do
  match m with
  | .builder b =>
      let cell ← Table.builders.row b
      let configurable := Awaitable.offers (← get) source
      Run.chronicle (.binds source configurable)
      if cell.captured.truthy then
        Await.bind caller cell.machine source rest
      else
        Await.bindDetached caller cell.machine source rest
  | _ => Await.bind caller m source rest

/-
  Finish with the outcome of a source.  A future is handed
  off; another awaitable is awaited, and its value returned.
-/
def returnFrom
    (caller : Caller)
    (b source : Value) : Run Value := do
  match source with
  | .future _ => Run.newStep (.handOff source)
  | _ =>
      if ← Awaitable.isAwaitable source then
        bind caller b source .finished
      else
        Run.newStep (.handOff (← Future.ofSource source))

end Builder

------------------------------------------------------------
-- Starting Tasks
------------------------------------------------------------

namespace Task

/- Run a task with a builder and a machine of its own. -/
def start
    (caller : Caller)
    (captured : Bool)
    (assertions : Value)
    (code : Closure)
    (emitter : Emitter) : Run Value := do
  let m ← Label.newMachine assertions
  let b ← Builder.new m (.bool captured)
  run caller m (.applied code [b]) emitter

end Task

end Resumption

import Resumption.Raise

/-
  This file defines resume contexts, and how functions and
  methods that are values are called.

  A callback that resumes on a context is posted there and
  runs with the context ambient.  When posting throws before
  the callback has started, the callback is called directly
  with what was thrown.

  Key definitions include:
    * `Run.callValue`
    * `Context.post`
    * `Context.resume`
    * `Context.enter`
-/

namespace Resumption

------------------------------------------------------------
-- Functions as Values
------------------------------------------------------------

namespace Run

/- A closure as a value. -/
def newFunction (code : Closure) : Run Value := do
  return .function (← Table.functions.alloc code)

/- Call a value; only functions can be called. -/
def callValue
    (caller : Caller)
    (f : Value)
    (args : List Value) : Run Value := do
  match f with
  | .function r => caller.call (← Table.functions.row r) args
  | _ => typeError

/- Call a method that a record holds; others have none. -/
def callMethod
    (caller : Caller)
    (v : Value)
    (key : String)
    (args : List Value) : Run Value :=
  match v.method? key with
  | some f => callValue caller f args
  | none => typeError

end Run

------------------------------------------------------------
-- Resume Contexts
------------------------------------------------------------

namespace Context

/- A context that runs what is posted at once, and counts. -/
def recording (name : Value) : Run Value := do
  return .context
    (← Table.contexts.alloc ⟨name, .recording 0⟩)

/- A context whose posting is client code. -/
def custom
    (name : Value)
    (post : Closure) : Run Value := do
  return .context
    (← Table.contexts.alloc ⟨name, .custom post⟩)

/- Count one more posted callback. -/
def counted (cell : ContextCell) : ContextCell :=
  match cell.posting with
  | .recording posts =>
      { cell with posting := .recording (posts + 1) }
  | .custom _ => cell

/- Post a function to a context. -/
def post
    (caller : Caller)
    (context f : Value) : Run Value := do
  match context with
  | .context c =>
      match (← Table.contexts.row c).posting with
      | .recording _ =>
          Table.contexts.alter c counted
          discard <| Run.callValue caller f []
          return .undefined
      | .custom code => caller.call code [f]
  | _ => Run.callMethod caller context "post" [f]

/-
  Run a callback on a context.  The context has refused it
  if posting throws before the callback was entered.
-/
def resume
    (caller : Caller)
    (context : Value)
    (callback : Closure) : Run Value := do
  let entered ← Table.latches.alloc false
  let posted ←
    Run.newFunction (.posted entered context callback)
  Run.chronicle (.posts context callback)
  match ← Run.attempt (post caller context posted) with
  | .ok _ => return .undefined
  | .error e =>
      if ← Table.latches.row entered then
        Run.raise e
      else
        let failure ← Run.newRecord [("error", e)]
        discard <| caller.call callback [failure]
        return .undefined

/- Enter a posted callback, with its context ambient. -/
def enter
    (caller : Caller)
    (entered : Ref)
    (context : Value)
    (callback : Closure) : Run Value := do
  Table.latches.alter entered fun _ => true
  discard <| Run.elsewhere context (caller.call callback [])
  return .undefined

end Context

end Resumption

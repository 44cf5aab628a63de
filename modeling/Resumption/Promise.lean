import Resumption.Context
import Resumption.Future

/-
  This file defines promises: outcomes whose reactions run
  as jobs, never at once.

  Resolving a promise with something that has a then method
  makes the promise follow it, through a job of its own.

  A job settles a promise, and what client code it runs for
  that runs in the ambient context that the promise was made
  in: a derived promise is made when its handlers are
  registered.

  Key definitions include:
    * `Promise.within`
    * `Promise.settle`
    * `Promise.resolve`
    * `Promise.react`
    * `Promise.adopt`
    * `Future.ofSource`
    * `Future.react`
    * `Deferred.settle`
-/

namespace Resumption

namespace Promise

------------------------------------------------------------
-- Settling
------------------------------------------------------------

/- A pending promise, made in the ambient context. -/
def new : Run Ref := do
  Table.promises.alloc ⟨← Run.ambient, none, #[]⟩

/- Run something in the context that a promise was made in. -/
def within
    {α : Type}
    (p : Ref)
    (act : Run α) : Run α := do
  Run.elsewhere (← Table.promises.row p).ambient act

/- Settle a pending promise and queue its reactions. -/
def settle
    (p : Ref)
    (outcome : Outcome) : Run Unit := do
  let cell ← Table.promises.row p
  if cell.outcome.isSome then
    return ()
  else
    Table.promises.alter p fun c =>
      ⟨c.ambient, some outcome, #[]⟩
    cell.reactions.toList.forM fun reaction =>
      Run.enqueue (.react reaction outcome)

/- Does a value have a then method? -/
def isThenable : Value → Bool
  | .future _ => true
  | .promise _ => true
  | .thenable _ => true
  | v => (v.method? "then").isSome

/-
  Fulfil a promise, or make it follow a value that has a
  then method.  A promise cannot follow itself.
-/
def resolve
    (p : Ref)
    (v : Value) : Run Unit := do
  if v.same (.promise p) then
    settle p (.rejected (← Run.newTypeError))
  else if isThenable v then
    Run.enqueue (.adopt v p)
  else
    settle p (.fulfilled v)

/- Settle a promise by a handler's outcome. -/
def conclude
    (p : Ref) : Outcome → Run Unit
  | .fulfilled v => resolve p v
  | .rejected e => settle p (.rejected e)

/- The promise that a value is, or one resolved with it. -/
def ofValue (v : Value) : Run Ref := do
  match v with
  | .promise p => return p
  | _ =>
      let p ← new
      resolve p v
      return p

------------------------------------------------------------
-- Reactions
------------------------------------------------------------

/-
  React to a promise.  The derived promise settles by what
  the handler does, or like the promise if there is none.
-/
def react
    (p : Ref)
    (onFulfilled onRejected : Option Closure) : Run Ref := do
  let derived ← new
  let reaction := ⟨onFulfilled, onRejected, derived⟩
  match (← Table.promises.row p).outcome with
  | some outcome => Run.enqueue (.react reaction outcome)
  | none =>
      Table.promises.alter p fun c =>
        { c with reactions := c.reactions.push reaction }
  return derived

/- Run a reaction on an outcome. -/
def runReaction
    (caller : Caller)
    (r : Reaction)
    (outcome : Outcome) : Run Unit := do
  let handled :=
    match outcome with
    | .fulfilled v => r.onFulfilled.map fun h => (h, v)
    | .rejected e => r.onRejected.map fun h => (h, e)
  match handled with
  | none => conclude r.derived outcome
  | some (handler, v) =>
      let call := caller.call handler [v]
      match ← Run.attempt (within r.derived call) with
      | .ok w => conclude r.derived (.fulfilled w)
      | .error e => conclude r.derived (.rejected e)

/- One side of a promise's resolving pair. -/
def enterSettle
    (p called : Ref)
    (fulfil : Bool)
    (v : Value) : Run Value := do
  if ← Table.latches.row called then
    return .undefined
  else
    Table.latches.alter called fun _ => true
    conclude p (if fulfil then .fulfilled v else .rejected v)
    return .undefined

end Promise

------------------------------------------------------------
-- Futures and Promises
------------------------------------------------------------

namespace Future

/- Settle the promise of a future the way the future settled. -/
def cross (f p : Ref) : Run Value := do
  match ← settlement? f with
  | none => return .undefined
  | some t =>
      Promise.conclude p t.outcome
      return .undefined

/- The promise of a future, made when it is first asked for. -/
def promiseOf
    (caller : Caller)
    (f : Ref) : Run Ref := do
  match (← Table.futures.row f).promise with
  | some p => return p
  | none =>
      let p ← Promise.new
      watch caller f (.bridge f p)
      Table.futures.alter f ({ · with promise := some p })
      return p

/- React to a future through its promise. -/
def react
    (caller : Caller)
    (f : Ref)
    (onFulfilled onRejected : Option Closure) : Run Ref := do
  let p ← promiseOf caller f
  Promise.react p onFulfilled onRejected

/-
  A future is its own future; anything else is awaited as a
  promise, by a future that settles in a job.
-/
def ofSource (source : Value) : Run Value := do
  match source with
  | .future f => return .future f
  | _ =>
      let f ← new
      let p ← Promise.ofValue source
      discard <| Promise.react p
        (some (.settleFuture f true))
        (some (.settleFuture f false))
      return .future f

/- A future that settles on a later turn. -/
def later (outcome : Outcome) : Run Value := do
  let p ← Promise.new
  modify fun s =>
    { s with immediates := s.immediates ++ [⟨p, outcome⟩] }
  ofSource (.promise p)

end Future

------------------------------------------------------------
-- Then Methods
------------------------------------------------------------

namespace Promise

/- A handler as an argument; a missing one is null. -/
def handlerValue (handler : Option Closure) : Run Value :=
  match handler with
  | some code => Run.newFunction code
  | none => return .null

/- Call the then method of a value. -/
def reactTo
    (caller : Caller)
    (source : Value)
    (onFulfilled onRejected : Option Closure) :
    Run Value := do
  match source with
  | .future f =>
      return .promise
        (← Future.react caller f onFulfilled onRejected)
  | .promise p =>
      return .promise (← react p onFulfilled onRejected)
  | .thenable t =>
      let res ← handlerValue onFulfilled
      let rej ← handlerValue onRejected
      caller.call (← Table.thenables.row t) [res, rej]
  | _ =>
      let res ← handlerValue onFulfilled
      let rej ← handlerValue onRejected
      Run.callMethod caller source "then" [res, rej]

/-
  Make a promise follow a source.  The first call of either
  side counts, and a throw counts if neither was called.
-/
def adopt
    (caller : Caller)
    (source : Value)
    (p : Ref) : Run Unit := do
  let called ← Table.latches.alloc false
  let follow :=
    reactTo caller source
      (some (.settlePromise p called true))
      (some (.settlePromise p called false))
  match ← Run.attempt (within p follow) with
  | .ok _ => return ()
  | .error e =>
      discard <| enterSettle p called false e

end Promise

------------------------------------------------------------
-- Settling from Outside
------------------------------------------------------------

namespace Deferred

/- A pending future that client code can settle. -/
def newFuture : Run Value := do
  let f ← Future.new
  return .deferred (← Table.deferreds.alloc (.future f))

/- A pending promise that client code can settle. -/
def newPromise : Run Value := do
  let p ← Promise.new
  let called ← Table.latches.alloc false
  return .deferred (← Table.deferreds.alloc (.promise p called))

/- Settle a future, or a promise that was not settled before. -/
def settle
    (caller : Caller)
    (d : Value)
    (outcome : Outcome) : Run Value := do
  match d with
  | .deferred r =>
      match (← get).deferreds[r]?, outcome with
      | some (.future f), _ =>
          return .bool (← Future.settle caller f outcome)
      | some (.promise p called), .fulfilled v =>
          Promise.enterSettle p called true v
      | some (.promise p called), .rejected e =>
          Promise.enterSettle p called false e
      | none, _ => Run.typeError
  | _ => Run.typeError

end Deferred

end Resumption

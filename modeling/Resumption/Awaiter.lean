import Resumption.Label
import Resumption.Promise

/-
  This file defines awaiters: what tells whether something
  has completed, gives its result, and takes a callback.

  The awaiter of a future that was told to keep the ambient
  context resumes its callback there; all others call back
  on whatever stack completes them.

  Key definitions include:
    * `Awaiter.ofValue`
    * `Awaiter.completed`
    * `Awaiter.result`
    * `Awaiter.register`
    * `Awaitable.ofSource`
    * `Awaitable.configure`
    * `Awaitable.detachedAwaiter`
-/

namespace Resumption

------------------------------------------------------------
-- Awaiters
------------------------------------------------------------

namespace Awaiter

/- A new awaiter. -/
def new (cell : AwaiterCell) : Run Value := do
  return .awaiter (← Table.awaiters.alloc cell)

/- Get the awaiter of an awaitable, to the given nesting. -/
def ofNested
    (caller : Caller) : Nat → Value → Run Value
  | 0, _ => Run.exhaust
  | n + 1, v => do
      match v with
      | .future f => new (.future f true)
      | .awaitable a =>
          match ← Table.awaitables.row a with
          | .configured f captured => new (.future f captured)
          | .controlled c =>
              Table.controlled.alter c fun cell =>
                { cell with awaiters := cell.awaiters + 1 }
              new (.controlled c)
          | .custom reporter => new (.custom reporter)
          | .configurable base _ => ofNested caller n base
      | _ => Run.callMethod caller v "getAwaiter" []

/- Get the awaiter of an awaitable. -/
def ofValue
    (caller : Caller)
    (v : Value) : Run Value :=
  ofNested caller caller.rounds v

/- Has what the awaiter reports on completed? -/
def completed
    (caller : Caller)
    (awaiter : Value) : Run Value := do
  match awaiter with
  | .awaiter r =>
      match ← Table.awaiters.row r with
      | .future f _ =>
          return .bool (← Future.settlement? f).isSome
      | .controlled c =>
          Table.controlled.alter c fun cell =>
            { cell with
              completedChecks := cell.completedChecks + 1 }
          let f := (← Table.controlled.row c).future
          return .bool (← Future.settlement? f).isSome
      | .custom reporter => caller.call reporter.completed []
  | _ => Run.field awaiter "isCompleted"

/- Read the result, or throw the failure. -/
def result
    (caller : Caller)
    (awaiter : Value) : Run Value := do
  match awaiter with
  | .awaiter r =>
      match ← Table.awaiters.row r with
      | .future f _ => Future.result f
      | .controlled c =>
          Table.controlled.alter c fun cell =>
            { cell with resultReads := cell.resultReads + 1 }
          Future.result (← Table.controlled.row c).future
      | .custom reporter => caller.call reporter.result []
  | _ => Run.callMethod caller awaiter "getResult" []

/-
  Watch a future, resuming on the ambient context if there
  is one and it is to be kept.
-/
def registerFuture
    (caller : Caller)
    (f : Ref)
    (captured : Bool)
    (callback : Closure) : Run Unit := do
  let ambient ← Run.ambient
  if captured && ambient.truthy then
    Future.watch caller f (.resumption ambient callback)
  else
    Future.watch caller f callback

/-
  The future that would keep a callback as it is, if the
  awaiter were asked for it now.
-/
def keeper? (awaiter : Value) : Run (Option Ref) := do
  match awaiter with
  | .awaiter r =>
      match ← Table.awaiters.row r with
      | .future f captured =>
          let posts := captured && (← Run.ambient).truthy
          let exists_ := f < (← get).futures.size
          return if exists_ && !posts then some f else none
      | _ => return none
  | _ => return none

/-
  The future that an awaiter reports on, if it does, and
  whether its callbacks keep the ambient context.
-/
def source? (awaiter : Value) : Run (Option (Ref × Bool)) := do
  match awaiter with
  | .awaiter r =>
      match ← Table.awaiters.row r with
      | .future f captured =>
          let exists_ := f < (← get).futures.size
          return if exists_ then some (f, captured) else none
      | _ => return none
  | _ => return none

/- Ask to be called back at completion. -/
def register
    (caller : Caller)
    (awaiter : Value)
    (callback : Closure) : Run Unit := do
  match awaiter with
  | .awaiter r =>
      match ← Table.awaiters.row r with
      | .future f captured =>
          registerFuture caller f captured callback
      | .controlled c =>
          Table.controlled.alter c fun cell =>
            { cell with registrations := cell.registrations + 1 }
          let f := (← Table.controlled.row c).future
          registerFuture caller f false callback
      | .custom reporter =>
          let f ← Run.newFunction callback
          discard <| caller.call reporter.register [f]
  | _ =>
      let f ← Run.newFunction callback
      discard <| Run.callMethod caller awaiter "onCompleted" [f]

end Awaiter

------------------------------------------------------------
-- Awaitables
------------------------------------------------------------

namespace Awaitable

/- Does an object offer awaiters? -/
def isAwaitable (v : Value) : Run Bool := do
  if v.isObject then
    match v with
    | .future _ => return true
    | .awaitable _ => return true
    | _ => return (v.method? "getAwaiter").isSome
  else Run.typeError

/- Does an object offer a variant with another context rule? -/
def isConfigurable (v : Value) : Run Bool := do
  if v.isObject then
    match v with
    | .future _ => return true
    | .awaitable a =>
        match ← Table.awaitables.row a with
        | .configurable _ _ => return true
        | _ => return false
    | _ => return (v.method? "configureAwait").isSome
  else Run.typeError

/- Has something a variant of its own, which no future has? -/
def offers
    (s : Session)
    (v : Value) : Bool :=
  match v with
  | .future _ => false
  | .awaitable a =>
      match s.awaitables.getD a default with
      | .configurable _ _ => true
      | _ => false
  | _ => (v.method? "configureAwait").isSome

/- The variant that keeps, or does not keep, the context. -/
def configure
    (caller : Caller)
    (v captured : Value) : Run Value := do
  match v with
  | .future f =>
      let a ← Table.awaitables.alloc
        (.configured f captured.truthy)
      return .awaitable a
  | .awaitable a =>
      match ← Table.awaitables.row a with
      | .configurable _ code => caller.call code [captured]
      | _ => Run.typeError
  | _ => Run.callMethod caller v "configureAwait" [captured]

/- The awaiter of the variant with the given context rule. -/
def awaiterWith
    (caller : Caller)
    (v : Value)
    (captured : Bool) : Run Value := do
  match v with
  | .future f => Awaiter.new (.future f captured)
  | _ =>
      Awaiter.ofValue caller
        (← configure caller v (.bool captured))

/-
  The awaiter that does not keep the context, where there is
  a choice.
-/
def detachedAwaiter
    (caller : Caller)
    (v : Value) : Run Value := do
  if ← isConfigurable v then awaiterWith caller v false
  else Awaiter.ofValue caller v

/- Anything that can be awaited, as something with awaiters. -/
def ofSource (source : Value) : Run Value := do
  if ← isAwaitable source then return source
  else Future.ofSource source

/- An awaitable whose awaiters are client code. -/
def custom (reporter : Reporter) : Run Value := do
  return .awaitable
    (← Table.awaitables.alloc (.custom reporter))

/- An awaitable with a variant made by client code. -/
def configurable
    (base : Value)
    (code : Closure) : Run Value := do
  return .awaitable
    (← Table.awaitables.alloc (.configurable base code))

end Awaitable

end Resumption

import Resumption.Awaiter

/-
  This file defines awaiting: wait for something, then go on
  with its value.

  When it has completed, the rest runs at once and no label
  is allocated.  Otherwise the rest is installed under a new
  label, and the step suspends on the awaiter.

  Key definitions include:
    * `Await.awaitResult`
    * `Await.bind`
    * `Await.bindDetached`
-/

namespace Resumption

namespace Await

------------------------------------------------------------
-- Awaiting
------------------------------------------------------------

/- Go on with an awaiter's result, suspending if there is none. -/
def awaitResult
    (caller : Caller)
    (m awaiter : Value)
    (rest : Closure) : Run Value := do
  if (← Awaiter.completed caller awaiter).truthy then
    caller.call rest [← Awaiter.result caller awaiter]
  else
    let l ← Label.install (← Label.machineOf m)
      (.received awaiter rest)
    Run.newStep (.suspend awaiter (.label l))

/- Await a source and go on with its value. -/
def bind
    (caller : Caller)
    (m source : Value)
    (rest : Closure) : Run Value := do
  let awaitable ← Awaitable.ofSource source
  awaitResult caller m (← Awaiter.ofValue caller awaitable) rest

/- Await a source, resuming on whatever stack completes it. -/
def bindDetached
    (caller : Caller)
    (m source : Value)
    (rest : Closure) : Run Value := do
  let awaitable ← Awaitable.ofSource source
  let awaiter ← Awaitable.detachedAwaiter caller awaitable
  awaitResult caller m awaiter rest

/- Resume after a suspension: read the result and go on. -/
def enterReceived
    (caller : Caller)
    (awaiter : Value)
    (rest : Closure) : Run Value := do
  caller.call rest [← Awaiter.result caller awaiter]

end Await

end Resumption

import Resumption.Program

/-
  This file defines everything that can be called, as data.

  A closure is client code, or a piece of the library's own
  code together with what it closes over.  Where that is
  state of its own, the closure holds a position in one of
  the session's tables.

  Key definitions include:
    * `Closure`
-/

namespace Resumption

------------------------------------------------------------
-- Closures
------------------------------------------------------------

inductive Closure where
  /- Client code. -/
  | client (code : Code)
  /- Call with fixed arguments, whatever is passed. -/
  | applied (f : Closure) (args : List Value)
  /- Read an awaiter's result and continue with it. -/
  | received (awaiter : Value) (rest : Closure)
  /- Finish with the first argument. -/
  | finished
  /- Run the code under a label. -/
  | jump (m l : Ref)
  /- Enter a sequence at its current first step. -/
  | sequenceEntry (i : Ref)
  /- Advance a sequence's first step, then enter it. -/
  | sequenceResume (i : Ref) (resume : Value)
  /- Enter a loop at its head. -/
  | loopHead
      (m entry : Ref)
      (condition body : Closure)
  /- Enter a protected body. -/
  | recoveryEntry (i : Ref)
  /- Conclude a protected body by a future's outcome. -/
  | recoveryOutcome (i : Ref) (awaiter : Value)
  /- Enter a body that has a compensation. -/
  | cleanupEntry (i : Ref)
  /- Conclude such a body by a future's outcome. -/
  | cleanupOutcome (i : Ref) (awaiter : Value)
  /- Release a resource, if there is one. -/
  | release (resource : Value)
  /- Loop over what a cursor yields. -/
  | cursorLoop (m : Value) (c : Ref) (body : Closure)
  /- Move a cursor to its next item; is there one? -/
  | cursorAdvance (c : Ref)
  /- Run a loop's body on a cursor's current item. -/
  | cursorItem (c : Ref) (body : Closure)
  /- Close a cursor. -/
  | cursorClose (c : Ref)
  /- A driver's callback: resume the task, if it may. -/
  | driverResume (d callback : Ref)
  /- Settle a driver's task by an awaiter's outcome. -/
  | driverOutcome (d : Ref) (awaiter : Value)
  /- Post a callback to a context. -/
  | resumption (context : Value) (callback : Closure)
  /- What is posted: the callback, inside its context. -/
  | posted (entered : Ref) (context : Value) (callback : Closure)
  /- Settle a promise the way its future settled. -/
  | bridge (f p : Ref)
  /- Settle a future with the first argument. -/
  | settleFuture (f : Ref) (fulfil : Bool)
  /- Settle a promise, the first time either side is called. -/
  | settlePromise (p called : Ref) (fulfil : Bool)

instance : Inhabited Closure :=
  ⟨.client fun _ => .done .undefined⟩

end Resumption

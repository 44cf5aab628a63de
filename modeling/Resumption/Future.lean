import Resumption.Raise

/-
  This file defines futures: outcomes that can be read at
  once, and watchers that are told when there is one.

  A future settles once.  Its watchers are then all called,
  in the order in which they came; the first failure among
  them is thrown when all have been called.

  Key definitions include:
    * `Future.new`
    * `Future.settle`
    * `Future.watch`
    * `Future.settled`
-/

namespace Resumption

namespace Future

------------------------------------------------------------
-- Settlement
------------------------------------------------------------

/- A pending future. -/
def new : Run Ref :=
  Table.futures.alloc ⟨none, #[], none, []⟩

/- The settlement of a future, if it has one. -/
def settlement? (f : Ref) : Run (Option Settlement) :=
  return (← Table.futures.row f).settlement

/- Call all watchers and keep the first failure. -/
def notify
    (caller : Caller) :
    List Closure → Option Value → Run (Option Value)
  | [], failure => return failure
  | w :: rest, failure => do
      match ← Run.attempt (caller.call w []) with
      | .ok _ => notify caller rest failure
      | .error e =>
          notify caller rest (failure <|> some e)

/-
  Settle a future and tell its watchers.  The answer is
  false when the future had settled before.
-/
def settle
    (caller : Caller)
    (f : Ref)
    (outcome : Outcome) : Run Bool := do
  let cell ← Table.futures.row f
  if cell.settlement.isSome then
    return false
  else
    let id ← Run.freshStamp
    Table.futures.alter f fun c =>
      { c with
        settlement := some ⟨id, outcome⟩
        watchers := #[] }
    match ← notify caller cell.watchers.toList none with
    | some e => Run.raise e
    | none => return true

/- Settling a settled future changes nothing. -/
theorem settle_of_settled
    (caller : Caller)
    (f : Ref)
    (outcome : Outcome)
    (s : Session)
    (h : (s.futures.getD f default).settlement.isSome) :
    settle caller f outcome s = some (.ok false, s) := by
  have hRow :
      ((Table.futures.rows s).getD f
        default).settlement.isSome = true := h
  unfold settle
  change (if _ then _ else _ : Run Bool) s = _
  rw [if_pos hRow]
  rfl

/- Be told of the settlement, at once if there is one. -/
def watch
    (caller : Caller)
    (f : Ref)
    (w : Closure) : Run Unit := do
  if (← settlement? f).isSome then
    discard <| caller.call w []
  else
    Table.futures.alter f fun c =>
      { c with
        watchers := c.watchers.push w
        audience := w :: c.audience }

------------------------------------------------------------
-- Settled Futures
------------------------------------------------------------

/- A future that settled as it was made; nobody watches it yet. -/
def settled (outcome : Outcome) : Run Ref := do
  let id ← Run.freshStamp
  Table.futures.alloc ⟨some ⟨id, outcome⟩, #[], none, []⟩

/-
  The value of a settled future, or its error thrown.  A
  pending one has no result to read.
-/
def result (f : Ref) : Run Value := do
  match ← settlement? f with
  | none => Run.defect (.notCompleted "getResult()")
  | some t =>
      match t.outcome with
      | .fulfilled v => return v
      | .rejected e => Run.raise e

end Future

end Resumption

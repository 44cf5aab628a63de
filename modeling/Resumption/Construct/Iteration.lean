import Resumption.Construct.Cleanup
import Resumption.Construct.Loop

/-
  This file defines iteration: cursors over what can be
  iterated, and the loop that runs a body for each item.

  The loop closes its cursor exactly once, however it ends,
  also when the cursor has run out.  Lists and texts have
  nothing to close.

  Key definitions include:
    * `Cursor.start`
    * `Cursor.next`
    * `Cursor.close`
    * `Iteration.build`
    * `Iteration.drain`
-/

namespace Resumption

------------------------------------------------------------
-- Cursors
------------------------------------------------------------

namespace Cursor

/- Start iterating a value, if it can be iterated. -/
def start
    (caller : Caller)
    (v : Value) : Run CursorSource := do
  match v with
  | .list l => return .items l 0
  | .str t => return .text t.toList
  | .iterable i =>
      match ← Table.iterables.row i with
      | .counting _ _ => return .counting i 0
      | .custom start _ _ =>
          discard <| caller.call start []
          return .custom i
  | _ => Run.typeError

/- A cursor at the start of a value's iteration. -/
def new
    (caller : Caller)
    (v : Value) : Run Ref := do
  Table.cursors.alloc ⟨← start caller v, .undefined⟩

/- Count one more call for an item. -/
def countNext : IterableCell → IterableCell
  | .counting items c =>
      .counting items { c with nextCalls := c.nextCalls + 1 }
  | cell => cell

/- Count one more item. -/
def countYield : IterableCell → IterableCell
  | .counting items c =>
      .counting items { c with yielded := c.yielded + 1 }
  | cell => cell

/- Count one more closing. -/
def countReturn : IterableCell → IterableCell
  | .counting items c =>
      .counting items { c with returnCalls := c.returnCalls + 1 }
  | cell => cell

/- Set what a cursor moves over. -/
def place
    (c : Ref)
    (source : CursorSource) : Run Unit :=
  Table.cursors.alter c ({ · with source := source })

/-
  The next item of a cursor, if there is one.  Client code
  may answer with any object when the answer is checked, and
  with anything that has fields when it is not.
-/
def next
    (caller : Caller)
    (checked : Bool)
    (c : Ref) : Run (Option Value) := do
  match (← Table.cursors.row c).source with
  | .finished => return none
  | .items l index =>
      match (← Table.lists.row l)[index]? with
      | some v =>
          place c (.items l (index + 1))
          return some v
      | none =>
          place c .finished
          return none
  | .text [] => return none
  | .text (ch :: rest) =>
      place c (.text rest)
      return some (.str (String.singleton ch))
  | .counting i index =>
      match ← Table.iterables.row i with
      | .counting items _ =>
          Table.iterables.alter i countNext
          match (← Run.itemsOf items)[index]? with
          | some v =>
              Table.iterables.alter i countYield
              place c (.counting i (index + 1))
              return some v
          | none => return none
      | .custom _ _ _ => return none
  | .custom i =>
      match ← Table.iterables.row i with
      | .custom _ code _ =>
          let answer ← caller.call code []
          if checked && !answer.isObject then
            Run.typeError
          else if (← Run.field answer "done").truthy then
            return none
          else
            return some (← Run.field answer "value")
      | .counting _ _ => return none

/- Close a cursor, if it can be; tell what that answered. -/
def close
    (caller : Caller)
    (c : Ref) : Run (Option Value) := do
  match (← Table.cursors.row c).source with
  | .counting i _ =>
      Table.iterables.alter i countReturn
      match ← Table.iterables.row i with
      | .counting items _ =>
          place c (.counting i (← Run.itemsOf items).size)
          return none
      | .custom _ _ _ => return none
  | .custom i =>
      match ← Table.iterables.row i with
      | .custom _ _ (some code) =>
          some <$> caller.call code []
      | _ => return none
  | _ => return none

/- Move to the next item; is there one? -/
def advance
    (caller : Caller)
    (c : Ref) : Run Value := do
  match ← next caller false c with
  | none => return .bool false
  | some v =>
      Table.cursors.alter c ({ · with current := v })
      return .bool true

/- The item last reached. -/
def current (c : Ref) : Run Value :=
  return (← Table.cursors.row c).current

end Cursor

------------------------------------------------------------
-- Iteration
------------------------------------------------------------

namespace Iteration

/- Run a body for each item, one at a time, in order. -/
def build
    (caller : Caller)
    (m items : Value)
    (body : Closure) : Run Value := do
  let c ← Cursor.new caller items
  Cleanup.build caller m (.cursorLoop m c body) (.cursorClose c)

/- The loop inside: while there is an item, run the body on it. -/
def enter
    (caller : Caller)
    (m : Value)
    (c : Ref)
    (body : Closure) : Run Value :=
  Loop.build caller m (.cursorAdvance c) (.cursorItem c body)

/- Collect up to a number of items, and close when it is met. -/
def collect
    (caller : Caller)
    (c : Ref) : Nat → Array Value → Run (Array Value)
  | 0, items => do
      match ← Cursor.close caller c with
      | some answer =>
          if answer.isObject then return items
          else Run.typeError
      | none => return items
  | n + 1, items => do
      match ← Cursor.next caller true c with
      | some v => collect caller c n (items.push v)
      | none => return items

/- The first items of a value, as a list. -/
def drain
    (caller : Caller)
    (items : Value)
    (limit : Nat) : Run Value := do
  if limit = 0 then
    return .list (← Table.lists.alloc #[])
  else
    let c ← Cursor.new caller items
    let found ← collect caller c limit #[]
    return .list (← Table.lists.alloc found)

end Iteration

end Resumption

import Resumption.Construct.Iteration

/-
  This file defines probes: awaitables completed on demand,
  iterables that count how they are driven, and collectors
  of events.

  Key definitions include:
    * `Probe.controlled`
    * `Probe.complete`
    * `Probe.counting`
    * `Probe.stats`
    * `Probe.collector`
-/

namespace Resumption

namespace Probe

------------------------------------------------------------
-- Controlled Awaitables
------------------------------------------------------------

/- An awaitable that completes when told to. -/
def controlled : Run Value := do
  let f ← Future.new
  let a := (← get).awaitables.size
  let c ← Table.controlled.alloc ⟨a, f, 0, 0, 0, 0⟩
  discard <| Table.awaitables.alloc (.controlled c)
  return .controlled c

/- Complete a controlled awaitable. -/
def complete
    (caller : Caller)
    (c : Value)
    (outcome : Outcome) : Run Value := do
  match c with
  | .controlled r =>
      match (← get).controlled[r]? with
      | some cell =>
          discard <| Future.settle caller cell.future outcome
          return .undefined
      | none => Run.typeError
  | _ => Run.typeError

------------------------------------------------------------
-- Iterables
------------------------------------------------------------

/- A counting iterable over a list. -/
def counting (items : Value) : Run Value := do
  return .counting
    (← Table.iterables.alloc (.counting items ⟨0, 0, 0⟩))

/- An iterable made of client code. -/
def iterable
    (start next : Closure)
    (close : Option Closure) : Run Value := do
  return .iterable
    (← Table.iterables.alloc (.custom start next close))

/- A copy of a probe's counters, as they are now. -/
def stats (probe : Value) : Run Value := do
  let counters ← Run.field probe "stats"
  Run.inspecting counters Run.capturedKey
  Run.newRecord ((← get).fieldsOf counters)

------------------------------------------------------------
-- Collectors
------------------------------------------------------------

/- A collector of events. -/
def collector : Run Value := do
  let events ← Table.lists.alloc #[]
  return .collector (← Table.collectors.alloc events)

/- Add an event to a collector. -/
def collect (c event : Value) : Run Value := do
  match c with
  | .collector r =>
      let events ← Table.collectors.row r
      Table.lists.alter events (·.push event)
      return .undefined
  | _ => Run.typeError

/- The fields of that name of some values, in order. -/
def fieldsNamed
    (key : String) :
    List Value → Array Value → Run (Array Value)
  | [], found => return found
  | v :: rest, found => do
      fieldsNamed key rest (found.push (← Run.field v key))

/- The types of the collected events. -/
def types (c : Value) : Run Value := do
  match c with
  | .collector r =>
      let events ← Table.lists.row (← Table.collectors.row r)
      let found ← fieldsNamed "type" events.toList #[]
      return .list (← Table.lists.alloc found)
  | _ => Run.typeError

end Probe

end Resumption

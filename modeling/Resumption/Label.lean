import Resumption.Raise

/-
  This file defines the label tables of state machines.

  A label belongs to the machine that allocated it.  Code
  can be installed under a label after it was allocated,
  which is how code refers to a label that comes later.

  Key definitions include:
    * `Label.allocate`
    * `Label.install`
    * `Label.owned`
    * `Label.replace`
    * `Label.jump`
-/

namespace Resumption

namespace Label

------------------------------------------------------------
-- Machines
------------------------------------------------------------

/- The machine that a value is; nothing else has a label table. -/
def machineOf (m : Value) : Run Ref :=
  match m with
  | .machine r => return r
  | _ => Run.typeError

/- A machine checks its jumps unless it is told not to. -/
def newMachine (assertions : Value) : Run Value := do
  let checks := assertions.isMissing || assertions.truthy
  return .machine (← Table.machines.alloc ⟨#[], checks⟩)

------------------------------------------------------------
-- Allocation
------------------------------------------------------------

/- Reserve the next label of a machine. -/
def allocate (m : Ref) : Run Ref := do
  let cell ← Table.machines.row m
  let l ← Table.labels.alloc
    ⟨.int cell.labels.size, .machine m, none⟩
  Table.machines.alter m fun c =>
    { c with labels := c.labels.push l }
  return l

/- Allocate a label with code under it. -/
def install
    (m : Ref)
    (code : Closure) : Run Ref := do
  let l ← allocate m
  Table.labels.alter l ({ · with code := some code })
  return l

/- A handle that its machine never allocated. -/
def forge (id m : Value) : Run Value := do
  return .label (← Table.labels.alloc ⟨id, m, none⟩)

------------------------------------------------------------
-- Jumps
------------------------------------------------------------

/- Did the machine allocate the label? -/
def owns
    (s : Session)
    (m l : Ref) : Bool :=
  let cell := s.labels.getD l default
  let table := (s.machines.getD m default).labels
  match cell.id with
  | .int (.ofNat n) =>
      cell.machine.same (.machine m) && table[n]? == some l
  | _ => false

/- Refuse a label that the machine did not allocate. -/
def refuse
    {α : Type}
    (l : Value) : Run α := do
  Run.defect (.foreignLabel (← Run.field l "id"))

/- The label of a machine that a value is; others are foreign. -/
def owned
    (m : Ref)
    (l : Value) : Run Ref := do
  let s ← get
  match l with
  | .label r => if owns s m r then return r else refuse l
  | _ => refuse l

/- Install or replace the code under a label. -/
def replace
    (m : Ref)
    (l : Value)
    (code : Closure) : Run Unit := do
  let r ← owned m l
  Table.labels.alter r ({ · with code := some code })

/-
  Run the code under a label.  A machine with assertions
  refuses whatever is not a step.
-/
def jump
    (caller : Caller)
    (m : Ref)
    (l : Value) : Run Value := do
  let r ← owned m l
  let cell ← Table.labels.row r
  match cell.code with
  | none => Run.defect (.uninstalledLabel cell.id)
  | some code =>
      let step ← caller.call code []
      if (← Table.machines.row m).assertions
          && !step.isStep then
        Run.chronicle (.malformed cell.id)
        Run.defect (.malformedStep cell.id step)
      else
        return step

end Label

end Resumption

import Resumption.Await

/-
  This file defines cleanup: run a body, then a compensation
  exactly once, on whichever path the body ends by.

  While the body is suspended the compensation waits.  It
  runs before a failure of the body is passed on.

  Key definitions include:
    * `Session.compensating`
    * `Cleanup.build`
    * `Cleanup.enter`
    * `Cleanup.compensate`
    * `Cleanup.outcome`
    * `Resource.use`
    * `Resource.dispose`
-/

namespace Resumption

------------------------------------------------------------
-- Cleanup
------------------------------------------------------------

/- The session in which a cleanup's compensation is invoked. -/
def Session.compensating
    (s : Session)
    (i : Ref) : Session :=
  { s.withIncident (.compensates i) with
    cleanups :=
      s.cleanups.modify i ({ · with compensated := true }) }

namespace Cleanup

/- Run the compensation, unless it has run. -/
def compensate
    (caller : Caller)
    (i : Ref) : Run Unit := do
  let cell ← Table.cleanups.row i
  if cell.compensated then
    return ()
  else
    modify (·.compensating i)
    Run.tendHere (.compensated i)
    discard <| caller.call cell.compensation []

/- Conclude by the outcome that the body handed off to. -/
def outcome
    (caller : Caller)
    (i : Ref)
    (awaiter : Value) : Run Value := do
  match ← Run.attempt (Awaiter.result caller awaiter) with
  | .ok v =>
      compensate caller i
      Run.newStep (.finish v)
  | .error e =>
      compensate caller i
      Run.raise e

/-
  Enter the body where it resumes.  When it suspends, the
  suspension resumes here.
-/
def enter
    (caller : Caller)
    (i : Ref) : Run Value := do
  let cell ← Table.cleanups.row i
  let body := Label.jump caller cell.machine cell.inner
  match ← Run.attempt body with
  | .error e =>
      compensate caller i
      Run.raise e
  | .ok step =>
      if step.isMissing then
        Run.typeError
      else
        match step.step? with
        | none => return .undefined
        | some (.finish _) =>
            compensate caller i
            return step
        | some (.handOff future) =>
            let awaiter ← Awaiter.ofValue caller future
            if (← Awaiter.completed caller awaiter).truthy then
              outcome caller i awaiter
            else
              let l ← Label.install cell.machine
                (.cleanupOutcome i awaiter)
              Run.newStep (.suspend awaiter (.label l))
        | some (.suspend awaiter resume) =>
            Table.cleanups.alter i ({ · with inner := resume })
            Run.newStep (.suspend awaiter (.label cell.entry))

/- Run a body with a compensation for whenever it ends. -/
def build
    (caller : Caller)
    (m : Value)
    (body compensation : Closure) : Run Value := do
  let m ← Label.machineOf m
  let entry ← Label.allocate m
  let inner ← Label.install m body
  let i ← Table.cleanups.alloc
    ⟨m, entry, .label inner, compensation, false,
      (← get).task⟩
  Label.replace m (.label entry) (.cleanupEntry i)
  Run.tendHere (.entered i)
  Label.jump caller m (.label entry)

end Cleanup

------------------------------------------------------------
-- Resources
------------------------------------------------------------

namespace Resource

/- A resource that counts its releases. -/
def tracked
    (name : Value)
    (logged : Bool) : Run Value := do
  return .resource
    (← Table.resources.alloc (.tracked name logged 0))

/- A resource whose release is client code. -/
def custom (code : Closure) : Run Value := do
  return .resource (← Table.resources.alloc (.custom code))

/- Count one more release. -/
def counted : ResourceCell → ResourceCell
  | .tracked name logged count =>
      .tracked name logged (count + 1)
  | .custom code => .custom code

/- Release a resource. -/
def dispose
    (caller : Caller)
    (resource : Value) : Run Value := do
  match resource with
  | .resource r =>
      match ← Table.resources.row r with
      | .tracked name logged _ =>
          Table.resources.alter r counted
          if logged then
            Run.logged (.str ("dispose:" ++ (← Run.text name)))
          return .undefined
      | .custom code => caller.call code []
  | _ => Run.callMethod caller resource "dispose" []

/- Release a resource, if there is one. -/
def release
    (caller : Caller)
    (resource : Value) : Run Value := do
  if resource.isMissing then return .undefined
  else
    discard <| dispose caller resource
    return .undefined

/- Run a body with a resource, and release it afterwards. -/
def use
    (caller : Caller)
    (m resource : Value)
    (body : Closure) : Run Value :=
  Cleanup.build caller m (.applied body [resource])
    (.release resource)

end Resource

end Resumption

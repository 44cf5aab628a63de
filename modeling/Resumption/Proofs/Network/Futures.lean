import Resumption.Proofs.Routine.Footprint
import Resumption.Proofs.Task.Standing

/-
  What happens to the futures of a session: one is made, one
  settles, somebody comes to wait for one.

  None of it loses an outcome that there was, and to a task
  that waits it is a rest.  As long as none but drivers come
  to wait, nothing is posted to a context.

  Main declarations:
    * `Session.watching`, `Session.settling`
    * `Session.withFuture`
    * `Session.Unposted`
    * `Setting.rests_watching`, `Setting.rests_withFuture`
-/

namespace Resumption

variable {ν : Type}
variable {s s₁ : Session}
variable {f g : Ref}

------------------------------------------------------------
-- Futures of a Session
------------------------------------------------------------

/- A future that nobody waits for yet. -/
def FutureCell.fresh
    (settlement : Option Settlement) : FutureCell :=
  ⟨settlement, #[], none, []⟩

namespace Session

variable {outcome outcome' : Outcome}
variable {w : Closure}
variable {row : FutureCell}

/- A session in which somebody new waits for a future. -/
def watching
    (s : Session)
    (f : Ref)
    (w : Closure) : Session :=
  { s with
    futures := s.futures.modify f fun c =>
      { c with
        watchers := c.watchers.push w
        audience := w :: c.audience } }

/- A session with one more future. -/
def withFuture
    (s : Session)
    (row : FutureCell) : Session :=
  { s with futures := s.futures.push row }

/- A session in which a future has just settled. -/
def settling
    (s : Session)
    (f : Ref)
    (outcome : Outcome) : Session :=
  { s.stamped with
    futures := s.futures.modify f fun c =>
      { c with
        settlement := some ⟨s.stamp, outcome⟩
        watchers := #[] } }

/- What a change to one future does to the futures. -/
theorem futures_modify
    {futures : Array FutureCell}
    {change : FutureCell → FutureCell}
    (hFuture : f < futures.size) :
    (futures.modify f change).getD g default =
      if g = f then change (futures.getD f default)
      else futures.getD g default := by
  rw [getD_modify]
  by_cases hSame : g = f
  · subst hSame
    simp [hFuture]
  · simp [hSame, Ne.symm hSame]

theorem settledAs_settling
    (hFuture : f < s.futures.size) :
    (s.settling f outcome).SettledAs g outcome' ↔
      if g = f then outcome' = outcome
      else s.SettledAs g outcome' := by
  simp only [SettledAs, settling, futures_modify hFuture]
  by_cases hSame : g = f <;> simp [hSame, eq_comm]

theorem settled_settling
    (hFuture : f < s.futures.size) :
    (s.settling f outcome).Settled g ↔
      g = f ∨ s.Settled g := by
  simp only [settled_iff, settledAs_settling hFuture]
  by_cases hSame : g = f <;> simp [hSame]

theorem watchers_settling
    (hFuture : f < s.futures.size)
    (hOther : g ≠ f) :
    (s.settling f outcome).watchers g = s.watchers g := by
  simp only [watchers, settling, futures_modify hFuture,
    if_neg hOther]

theorem retains_settling
    (kept : Cell → Prop)
    (outcome : Outcome)
    (hFuture : f < s.futures.size)
    (hPending : ¬ s.Settled f) :
    Retains kept s (s.settling f outcome) :=
  { Retains.refl kept s with
    settledAs := by
      intro g outcome' hSettled
      rw [settledAs_settling hFuture, if_neg]
      · exact hSettled
      · rintro rfl
        exact hPending (settled_iff.mpr ⟨_, hSettled⟩)
    same := fun c _ _ => by cases c <;> rfl }

/- Watching a future makes no other. -/
@[simp] theorem size_watching
    (s : Session)
    (f : Ref)
    (w : Closure) :
    (s.watching f w).futures.size = s.futures.size := by
  simp [watching]

theorem settledAs_watching
    (hFuture : f < s.futures.size) :
    (s.watching f w).SettledAs g outcome ↔
      s.SettledAs g outcome := by
  simp only [SettledAs, watching, futures_modify hFuture]
  by_cases hSame : g = f <;> simp [hSame]

theorem settled_watching
    (hFuture : f < s.futures.size) :
    (s.watching f w).Settled g ↔ s.Settled g := by
  simp only [settled_iff, settledAs_watching hFuture]

theorem watchers_watching
    (hFuture : f < s.futures.size) :
    (s.watching f w).watchers g =
      if g = f then s.watchers f ++ [w] else s.watchers g := by
  simp only [watchers, watching, futures_modify hFuture]
  by_cases hSame : g = f <;> simp [hSame]

theorem retains_watching
    (kept : Cell → Prop)
    (w : Closure)
    (hFuture : f < s.futures.size) :
    Retains kept s (s.watching f w) :=
  { Retains.refl kept s with
    settledAs := fun _ _ => (settledAs_watching hFuture).mpr
    same := fun c _ _ => by cases c <;> rfl }

/- What has settled was made. -/
theorem SettledAs.made
    (h : s.SettledAs g outcome) :
    g < s.futures.size := by
  rcases h with ⟨t, hSettled, _⟩
  by_cases hMade : g < s.futures.size
  · exact hMade
  · rw [Array.getD_eq_getD_getElem?,
      Array.getElem?_eq_none (Nat.le_of_not_lt hMade)]
      at hSettled
    cases hSettled

theorem settledAs_withFuture :
    (s.withFuture row).SettledAs g outcome ↔
      s.SettledAs g outcome ∨
        g = s.futures.size ∧
          row.settlement.map Settlement.outcome =
            some outcome := by
  by_cases hSame : g = s.futures.size
  · subst hSame
    have hNone : ¬ s.SettledAs s.futures.size outcome :=
      fun h => Nat.lt_irrefl _ h.made
    rw [or_iff_right hNone]
    simp only [SettledAs, withFuture, getD_push, if_true,
      true_and, Option.map_eq_some_iff]
  · simp only [SettledAs, withFuture, getD_push, hSame,
      if_false, false_and, or_false]

theorem watchers_withFuture
    (hOld : g ≠ s.futures.size) :
    (s.withFuture row).watchers g = s.watchers g := by
  simp only [watchers, withFuture, getD_push, if_neg hOld]

theorem retains_withFuture
    (kept : Cell → Prop)
    (s : Session)
    (row : FutureCell) :
    Retains kept s (s.withFuture row) :=
  { Retains.refl kept s with
    settledAs := fun _ _ h => settledAs_withFuture.mpr (.inl h)
    same := fun c _ _ => by cases c <;> rfl }

/- A new future does not matter to one who comes to wait. -/
theorem watching_withFuture
    (hFuture : f < s.futures.size) :
    (s.watching f w).withFuture row =
      (s.withFuture row).watching f w := by
  have hSame : ∀ change : FutureCell → FutureCell,
      (s.futures.modify f change).push row =
        (s.futures.push row).modify f change := by
    intro change
    apply Array.ext_getElem?
    intro i
    have hNe : f ≠ s.futures.size := Nat.ne_of_lt hFuture
    simp only [Array.getElem?_push, Array.getElem?_modify,
      Array.size_modify]
    by_cases hLast : i = s.futures.size
    · simp [hLast, hNe]
    · simp [hLast]
  simp only [watching, withFuture, hSame]

end Session

------------------------------------------------------------
-- Posting
------------------------------------------------------------

/- The driver that a callback belongs to. -/
def Closure.driver? : Closure → Option Ref
  | .driverResume d _ => some d
  | .driverOutcome d _ => some d
  | _ => none

namespace Session

variable {s₂ : Session}
variable {row : FutureCell}

/-
  Nothing was posted on the way from one session to another:
  no context has counted a callback, and whoever came to
  wait was a driver.
-/
structure Unposted (s s₁ : Session) : Prop where
  contexts : s₁.contexts = s.contexts
  audience : ∀ g, ∀ w ∈ s₁.audience g,
    w ∈ s.audience g ∨ ∃ d, w.driver? = some d

theorem Unposted.refl
    (s : Session) :
    s.Unposted s :=
  ⟨rfl, fun _ _ hw => .inl hw⟩

theorem Unposted.trans
    (h : s.Unposted s₁)
    (h' : s₁.Unposted s₂) :
    s.Unposted s₂ where
  contexts := h'.contexts.trans h.contexts
  audience g w hw := by
    rcases h'.audience g w hw with hw | hDriver
    · exact h.audience g w hw
    · exact .inr hDriver

theorem unposted_settling
    (s : Session)
    (f : Ref)
    (outcome : Outcome) :
    s.Unposted (s.settling f outcome) where
  contexts := rfl
  audience g w hw := by
    simp only [audience, settling, getD_modify] at hw
    split at hw <;> exact .inl hw

theorem unposted_watching
    {d : Ref}
    (hCalls : w.driver? = some d) :
    s.Unposted (s.watching f w) where
  contexts := rfl
  audience g w' hw := by
    simp only [audience, watching, getD_modify] at hw
    split at hw
    · rcases List.mem_cons.mp hw with rfl | hw
      · exact .inr ⟨d, hCalls⟩
      · exact .inl hw
    · exact .inl hw

theorem unposted_withFuture
    (hNew : row.audience = []) :
    s.Unposted (s.withFuture row) where
  contexts := rfl
  audience g w hw := by
    simp only [audience, withFuture, getD_push] at hw
    split at hw
    · rw [hNew] at hw
      cases hw
    · exact .inl hw

end Session

------------------------------------------------------------
-- Resting
------------------------------------------------------------

namespace Setting

variable {E : Setting ν}
variable {F : Footprint}

/- To a task it is a rest that somebody comes to wait. -/
theorem rests_watching
    {w : Closure}
    (hCalm : E.Calm s)
    (hFuture : f < s.futures.size) :
    E.Rests F s (s.watching f w) := by
  have hRetains := Session.retains_watching F w hFuture
  refine ⟨hRetains, rfl, hCalm.later hRetains rfl ?_⟩
  intro x fate hFate
  rw [Session.size_watching]
  simp only [Session.settledAs_watching hFuture]
  exact hCalm.fated x fate hFate

/- So it is that a future is made. -/
theorem rests_withFuture
    {row : FutureCell}
    (hCalm : E.Calm s) :
    E.Rests F s (s.withFuture row) := by
  have hRetains := Session.retains_withFuture F s row
  refine ⟨hRetains, rfl, hCalm.later hRetains rfl ?_⟩
  intro x fate hFate
  rcases hCalm.fated x fate hFate with ⟨hMade, hAllows⟩
  constructor
  · simpa [Session.withFuture] using Nat.lt_succ_of_lt hMade
  · intro outcome hSettled
    rcases Session.settledAs_withFuture.mp hSettled with
      hOld | ⟨hNew, _⟩
    · exact hAllows outcome hOld
    · exact (Nat.ne_of_lt hMade hNew).elim

end Setting

end Resumption

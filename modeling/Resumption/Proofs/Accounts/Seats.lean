import Resumption.Proofs.Accounts.Ledgers
import Resumption.Proofs.Accounts.Meeting

/-
  Seats: where a task is while it is driven, by its account.

  Either the account has told how the task ended, or it has
  told of a pause.  Then a driver of the task waits, and it
  alone, for the future behind what the task pauses on, and
  goes on as the account does.  All sources are awaitables
  that complete on demand.

  Main declarations:
    * `Supply.OnDemand`
    * `Supply.Pends`, `Supply.Attends`
    * `Supply.Seated`, `Supply.Reseated`
-/

namespace Resumption

open Run

------------------------------------------------------------
-- Futures and Those Who Wait
------------------------------------------------------------

namespace Session

/- Does a driver of a task wait for a future? -/
def waitsFor
    (s : Session)
    (t f : Ref) : Bool :=
  (s.watchers f).any fun w =>
    w.driver?.any fun d =>
      s.drivers[d]?.any fun cell => cell.emitter.task == t

/-
  How many of the suspensions that were told between two
  sessions are on a future: all, if the task waits for it.
-/
def suspensionsOn
    (s : Session)
    (t f : Ref)
    (s' : Session) : Nat :=
  if s'.waitsFor t f then s'.suspensions t - s.suspensions t
  else 0

variable {s : Session}
variable {r f g : Ref}

/- What has no outcome has not settled. -/
theorem not_settled
    (h : s.outcome? f = none) :
    ¬ s.Settled f := by
  have hNone : (s.futures.getD f default).settlement = none :=
    Option.map_eq_none_iff.mp h
  rw [Settled, hNone]
  exact Bool.false_ne_true

/- To come to wait settles nothing. -/
theorem outcome?_registering
    (hMade : f < s.futures.size)
    (w : Closure) :
    (s.registering r f w).outcome? g = s.outcome? g := by
  simp only [outcome?, registering, watching, counting,
    futures_modify hMade]
  by_cases hSame : g = f
  · rw [if_pos hSame, hSame]
  · rw [if_neg hSame]

theorem watchers_registering
    (hMade : f < s.futures.size)
    (w : Closure) :
    (s.registering r f w).watchers g =
      if g = f then s.watchers f ++ [w] else s.watchers g :=
  watchers_watching (s := s.counting r .registered) hMade

theorem retains_registering
    (kept : Cell → Prop)
    (hMade : f < s.futures.size)
    (w : Closure) :
    Retains kept s (s.registering r f w) := by
  have hCounting : Retains kept s (s.counting r .registered) :=
    { Retains.refl kept s with
      same := fun c _ _ => by cases c <;> rfl }
  exact hCounting.trans
    (retains_watching (s := s.counting r .registered) kept w
      hMade) fun _ _ hc => ⟨hc, hc⟩

/- A new future that is pending is as if it were not there. -/
theorem outcome?_withFuture
    (s : Session)
    (g : Ref) :
    (s.withFuture (.fresh none)).outcome? g = s.outcome? g := by
  simp only [outcome?, withFuture, getD_push]
  by_cases hNew : g = s.futures.size
  · rw [if_pos hNew, getD_of_size_le _ (Nat.le_of_eq hNew.symm)]
    rfl
  · rw [if_neg hNew]

/- Nobody waits for a new future. -/
theorem watchers_fresh
    (s : Session)
    (settlement : Option Settlement)
    (g : Ref) :
    (s.withFuture (.fresh settlement)).watchers g =
      s.watchers g := by
  simp only [watchers, withFuture, getD_push]
  by_cases hNew : g = s.futures.size
  · rw [if_pos hNew, getD_of_size_le _ (Nat.le_of_eq hNew.symm)]
    rfl
  · rw [if_neg hNew]

theorem watchers_settling_self
    (hMade : f < s.futures.size)
    (o : Outcome) :
    (s.settling f o).watchers f = [] := by
  simp only [watchers, settling, futures_modify hMade, if_true]

end Session

namespace Supply

variable {ν : Type}
variable (S : Supply ν)

------------------------------------------------------------
-- Waiting
------------------------------------------------------------

/-
  Whatever is awaited completes on demand, by a future of its
  own.
-/
structure OnDemand : Prop where
  controlled : ∀ x, ∃ a r f, S.origin x = .controlled a r f
  own : ∀ x y, (S.origin x).behind? = (S.origin y).behind? →
    (S.origin x).probe? = (S.origin y).probe?

/- Nobody waits for what is awaited, but for one future. -/
def Alone
    (s : Session)
    (spared : Option Ref) : Prop :=
  ∀ x f, (S.origin x).behind? = some f → some f ≠ spared →
    s.watchers f = []

/- A pending future of a task's own, that nobody waits for. -/
structure Vacant
    (s : Session)
    (f : Ref) : Prop where
  made : f < s.futures.size
  pending : s.outcome? f = none
  alone : s.watchers f = []
  apart : ∀ x, (S.origin x).behind? ≠ some f

/-
  An account has told of a pause, after some wakings, and the
  label goes on as the account does upon one more.
-/
structure Pends
    (k : Nat)
    (A : Account ν)
    (V : View ν)
    (past : List (Waking ν))
    (c : Charge ν)
    (f l : Ref)
    (s : Session) : Prop where
  tells : ∃ x V', A V past ⟨.paused x, V', [], c⟩
  source : ∃ x, (S.origin x).behind? = some f
  pending : s.outcome? f = none
  goes : ∃ F A',
    (∀ o V' more R, A' o V' more R →
      A V (past ++ ⟨o, V'⟩ :: more) (R.after c)) ∧
    S.Resumes k F s (some f) l A'

/-
  A driver of a task waits for a future, and is to jump to a
  label.  Nobody else waits for anything.
-/
structure Attends
    (t f l : Ref)
    (d callback out : Ref)
    (cell : DriverCell)
    (s : Session) : Prop where
  watched : s.watchers f = [.driverResume d callback]
  alone : S.Alone s (some f)
  row : s.drivers[d]? = some cell
  tends : cell.Tends t
  dozes : cell.Dozes S.machine l callback out
  vacant : S.Vacant s out

/-
  Where a task is, after some wakings: its account tells that
  it is over, or that it waits, and the session shows what it
  was charged for.
-/
inductive Seated
    (k : Nat)
    (t : Ref)
    (A : Account ν)
    (V : View ν)
    (past : List (Waking ν))
    (c : Charge ν)
    (rows : Array ControlledCell)
    (s : Session) : Prop where
  | ends
      {ending V'}
      (hShows : S.Shows t c c.waits c.waits.length past.length
        rows s)
      (hTells : A V past ⟨ending, V', [], c⟩)
      (hAlone : S.Alone s none)
  | waits
      {f l d callback out cell}
      (hShows : S.Shows t c c.waits c.waits.length past.length
        rows s)
      (hPends : S.Pends k A V past c f l s)
      (hAttends : S.Attends t f l d callback out cell s)

/-
  After what was charged for last, a task waits for just what
  it was charged for waiting for, if for anything.
-/
inductive Lingers
    (t : Ref)
    (s : Session) : List ν → Prop where
  | goesOn : Lingers t s []
  | waits
      {x f}
      (hBehind : (S.origin x).behind? = some f)
      (hFor : ∀ y g, (S.origin y).behind? = some g →
        (s.waitsFor t g = true ↔ g = f)) :
      Lingers t s [x]

/- A task is seated again, and was charged for more. -/
def Reseated
    (k : Nat)
    (t : Ref)
    (A : Account ν)
    (V : View ν)
    (past : List (Waking ν))
    (c : Charge ν)
    (rows : Array ControlledCell)
    (s : Session) : Prop :=
  ∃ c', S.Seated k t A V past (c.plus c') rows s ∧
    S.Lingers t s c'.waits

variable {S}
variable {F : Footprint}
variable {A B : Account ν}
variable {V : View ν}
variable {c c' : Charge ν}
variable {past : List (Waking ν)}
variable {spared : Option Ref}
variable {rows : Array ControlledCell}
variable {s s₁ s₂ s' : Session}
variable {n k rounds depth : Nat}
variable {t f g l d a r out callback : Ref}
variable {cell : DriverCell}
variable {src : Option Ref}
variable {x : ν}
variable {o : Outcome}


/- What is next is next later as well. -/
theorem Resumes.later
    {A' : Outcome → Account ν}
    (h : S.Resumes k F s src l A')
    (hRetains : Session.Retains F s s') :
    S.Resumes k F s' src l A' := by
  cases k with
  | zero => trivial
  | succ k =>
      intro rounds depth s₂ o hRests hReveals
      have hRests' : S.Rests F s s₂ :=
        ⟨hRetains.trans hRests.retains fun _ _ hc => ⟨hc, hc⟩,
          hRests.ready⟩
      exact h rounds depth s₂ o hRests' hReveals

------------------------------------------------------------
-- Who Waits
------------------------------------------------------------

namespace Alone

theorem of_watchers
    (h : S.Alone s spared)
    (hSame : ∀ g, s'.watchers g = s.watchers g) :
    S.Alone s' spared :=
  fun x g hBehind hOther =>
    (hSame g).trans (h x g hBehind hOther)

theorem passes
    (h : S.Alone s spared)
    (hPasses : s.Passes t n k s') :
    S.Alone s' spared :=
  h.of_watchers hPasses.watchers_eq

/- Code that moves comes to wait for nothing. -/
theorem moves
    (h : S.Alone s spared)
    (hs : S.Ready s)
    (hMoves : S.Moves F c s s') :
    S.Alone s' spared := by
  intro x g hBehind hOther
  have hRow := hMoves.future g (hs.behind x g hBehind)
  have hSame : s'.watchers g = s.watchers g := by
    simp only [Session.watchers, Array.getD_eq_getD_getElem?,
      hRow]
  exact hSame.trans (h x g hBehind hOther)

/- Nobody waits for what has settled. -/
theorem settling
    (h : S.Alone s spared)
    (hMade : f < s.futures.size)
    (o : Outcome) :
    S.Alone (s.settling f o) spared := by
  intro x g hBehind hOther
  by_cases hSame : g = f
  · subst hSame
    exact Session.watchers_settling_self hMade o
  · exact (Session.watchers_settling hMade hSame).trans
      (h x g hBehind hOther)

theorem settled
    (h : S.Alone s (some f))
    (hMade : f < s.futures.size)
    (o : Outcome) :
    S.Alone (s.settling f o) none := by
  intro x g hBehind _
  by_cases hSame : g = f
  · subst hSame
    exact Session.watchers_settling_self hMade o
  · have hOther : some g ≠ some f :=
      fun h => hSame (Option.some.inj h)
    exact (Session.watchers_settling hMade hSame).trans
      (h x g hBehind hOther)

/- One who comes to wait is the only one. -/
theorem registering
    (h : S.Alone s none)
    (hMade : f < s.futures.size)
    (r : Ref)
    (w : Closure) :
    S.Alone (s.registering r f w) (some f) := by
  intro x g hBehind hOther
  have hSame : g ≠ f := fun h => hOther (congrArg some h)
  rw [Session.watchers_registering hMade, if_neg hSame]
  exact h x g hBehind nofun

end Alone

namespace Vacant

theorem passes
    (h : S.Vacant s f)
    (hPasses : s.Passes t n k s') :
    S.Vacant s' f where
  made := hPasses.futures ▸ h.made
  pending := (hPasses.outcome?_eq f).trans h.pending
  alone := (hPasses.watchers_eq f).trans h.alone
  apart := h.apart

theorem moves
    (h : S.Vacant s f)
    (hMoves : S.Moves F c s s') :
    S.Vacant s' f where
  made := Nat.lt_of_lt_of_le h.made hMoves.made
  pending := (hMoves.outcome?_eq h.made).trans h.pending
  alone := by
    have hRow := hMoves.future f h.made
    have hSame : s'.watchers f = s.watchers f := by
      simp only [Session.watchers, Array.getD_eq_getD_getElem?,
        hRow]
    exact hSame.trans h.alone
  apart := h.apart

/- What is awaited is another future. -/
theorem ne
    (h : S.Vacant s f)
    (hBehind : (S.origin x).behind? = some g) :
    f ≠ g :=
  fun hSame => h.apart x (hSame ▸ hBehind)

theorem settling
    (h : S.Vacant s f)
    (hMade : g < s.futures.size)
    (hBehind : (S.origin x).behind? = some g)
    (o : Outcome) :
    S.Vacant (s.settling g o) f where
  made := by
    simpa [Session.settling] using h.made
  pending := by
    rw [Session.outcome?_settling hMade, if_neg (h.ne hBehind)]
    exact h.pending
  alone :=
    (Session.watchers_settling hMade (h.ne hBehind)).trans
      h.alone
  apart := h.apart

theorem registering
    (h : S.Vacant s f)
    (hMade : g < s.futures.size)
    (hBehind : (S.origin x).behind? = some g)
    (r : Ref)
    (w : Closure) :
    S.Vacant (s.registering r g w) f where
  made := by
    simpa [Session.registering, Session.watching,
      Session.counting] using h.made
  pending :=
    (Session.outcome?_registering hMade w).trans h.pending
  alone := by
    rw [Session.watchers_registering hMade,
      if_neg (h.ne hBehind)]
    exact h.alone
  apart := h.apart

/- A new future is vacant. -/
theorem fresh
    (hs : S.Ready s) :
    S.Vacant (s.withFuture (.fresh none)) s.futures.size where
  made := by
    simp [Session.withFuture]
  pending := by
    rw [Session.outcome?_withFuture, Session.outcome?,
      getD_of_size_le _ (Nat.le_refl _)]
    rfl
  alone := by
    rw [Session.watchers_fresh, Session.watchers,
      getD_of_size_le _ (Nat.le_refl _)]
    rfl
  apart x hBehind :=
    Nat.lt_irrefl _ (hs.behind x _ hBehind)

end Vacant

/- A driver that waits alone is all that there is to wait. -/
theorem Attends.lingers
    (h : S.Attends t f l d callback out cell s)
    (hBehind : (S.origin x).behind? = some f) :
    S.Lingers t s [x] := by
  refine .waits hBehind fun y g hBehind' => ?_
  by_cases hSame : g = f
  · subst hSame
    simp [Session.waitsFor, h.watched, Closure.driver?, h.row,
      h.tends.task]
  · have hOther : some g ≠ some f :=
      fun h => hSame (Option.some.inj h)
    simp [Session.waitsFor, h.alone y g hBehind' hOther, hSame]

/- The suspensions on a source are what it was waited for. -/
theorem Lingers.suspensionsOn_eq
    {waits : List ν}
    (h : S.Lingers t s' waits)
    (hs : S.Ready s')
    (hDemand : S.OnDemand)
    (hMore : s'.suspensions t = s.suspensions t + waits.length)
    (hOrigin : S.origin x = .controlled a r f) :
    s.suspensionsOn t f s' = S.tally waits r := by
  have hDifference : s'.suspensions t - s.suspensions t =
      waits.length := by
    rw [hMore]
    exact Nat.add_sub_cancel_left ..
  rw [Session.suspensionsOn, hDifference]
  cases h with
  | goesOn => exact ite_self 0
  | waits hBehind hFor =>
      rename_i y g
      have hBehind' : (S.origin x).behind? = some f := by
        rw [hOrigin]
        rfl
      rcases hDemand.controlled y with ⟨a', r', g', hOrigin'⟩
      have hSame : g' = g := by
        rw [hOrigin'] at hBehind
        exact Option.some.inj hBehind
      subst hSame
      rw [tally_controlled hOrigin']
      by_cases hRow : r' = r
      · subst hRow
        have hFuture := (hs.controlled x a r' f hOrigin).2.2
        have hFuture' := (hs.controlled y a' r' g' hOrigin').2.2
        rw [if_pos ((hFor x f hBehind').mpr
          (hFuture.symm.trans hFuture')), if_pos rfl]
        rfl
      · have hOther : ¬ s'.waitsFor t f = true := by
          intro hWaits
          have hFuture := (hFor x f hBehind').mp hWaits
          have hProbe := hDemand.own x y
            (hBehind'.trans (hFuture ▸ hBehind.symm))
          rw [hOrigin, hOrigin'] at hProbe
          exact hRow (Option.some.inj hProbe).symm
        rw [if_neg hOther, if_neg hRow]

end Supply

end Resumption

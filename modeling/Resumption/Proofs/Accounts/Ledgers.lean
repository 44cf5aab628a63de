import Resumption.Proofs.Accounts.Courses
import Resumption.Proofs.Accounts.Resuming

/-
  Ledgers: what a session shows of what a task was charged
  for, while it is driven.

  The rows of what the names stand for have gone by what was
  charged for, and by the registrations of what was waited
  for.  The story of the task tells of as many suspensions,
  and of a resumption for each waking.

  Main declarations:
    * `Supply.used`
    * `Supply.Shows`
-/

namespace Resumption

open Run

/- The rows once an awaiter was asked to call back. -/
theorem Session.row_registering
    {s : Session}
    {r f g : Ref}
    (hMade : r < s.controlled.size)
    (w : Closure) :
    (s.registering r f w).controlled.getD g default =
      if r = g then (s.controlled.getD g default).registered
      else s.controlled.getD g default := by
  simp only [registering, watching, counting, getD_modify]
  by_cases hSame : r = g
  · subst hSame
    rw [if_pos ⟨rfl, hMade⟩, if_pos rfl]
  · rw [if_neg fun h => hSame h.1, if_neg hSame]

namespace Supply

variable {ν : Type}
variable (S : Supply ν)

/- A row after what was charged for, and was waited for. -/
def used
    (c : Charge ν)
    (waits : List ν)
    (r : Ref)
    (cell : ControlledCell) : ControlledCell :=
  { S.billed c r cell with
    registrations := cell.registrations + S.tally waits r }

/-
  A session shows what a task was charged for, by how the
  rows were before; so often was it told that the task
  suspends and resumes.
-/
structure Shows
    (t : Ref)
    (c : Charge ν)
    (waits : List ν)
    (n k : Nat)
    (rows : Array ControlledCell)
    (s : Session) : Prop where
  ready : S.Ready s
  made : t < s.tasks.size
  size : s.controlled.size = rows.size
  row : ∀ r < rows.size, s.controlled.getD r default =
    S.used c waits r (rows.getD r default)
  suspended : s.suspensions t = n
  resumed : s.resumptions t = k

variable {S}
variable {F : Footprint}
variable {c c' : Charge ν}
variable {waits : List ν}
variable {rows : Array ControlledCell}
variable {s s' : Session}
variable {n n' k k' : Nat}
variable {t f r a : Ref}
variable {x : ν}
variable {o : Outcome}

------------------------------------------------------------
-- Readiness
------------------------------------------------------------

namespace Ready

theorem settling
    (h : S.Ready s)
    (f : Ref)
    (o : Outcome) :
    S.Ready (s.settling f o) :=
  { h with
    behind := fun x g hBehind => by
      simpa [Session.settling] using h.behind x g hBehind }

theorem withFuture
    (h : S.Ready s)
    (row : FutureCell) :
    S.Ready (s.withFuture row) :=
  { h with
    behind := fun x g hBehind => by
      simpa [Session.withFuture] using
        Nat.lt_succ_of_lt (h.behind x g hBehind) }

/- A registration leaves the future behind it what it was. -/
theorem registering
    (h : S.Ready s)
    (hMade : r < s.controlled.size)
    (f : Ref)
    (w : Closure) :
    S.Ready (s.registering r f w) :=
  { h with
    behind := fun x g hBehind => by
      simpa [Session.registering, Session.watching,
        Session.counting] using h.behind x g hBehind
    controlled := fun x a r' g hOrigin => by
      rcases h.controlled x a r' g hOrigin with
        ⟨hRow, hMade', hBehind⟩
      refine ⟨hRow, ?_, ?_⟩
      · simpa [Session.registering, Session.watching,
          Session.counting] using hMade'
      · rw [Session.row_registering hMade]
        by_cases hSame : r = r'
        · rw [if_pos hSame]
          exact hBehind
        · rw [if_neg hSame]
          exact hBehind }

end Ready

------------------------------------------------------------
-- Moving
------------------------------------------------------------

namespace Moves

/- Code that moves leaves the drivers and the tasks alone. -/
theorem drivers
    (h : S.Moves F c s s') :
    s'.drivers = s.drivers :=
  congrArg Surroundings.drivers h.surroundings

theorem stories
    (h : S.Moves F c s s') :
    s'.stories = s.stories :=
  congrArg Surroundings.stories h.surroundings

theorem tasks
    (h : S.Moves F c s s') :
    s'.tasks.size = s.tasks.size := by
  simpa [Session.stories] using congrArg Array.size h.stories

end Moves

/- One use of an awaitable is counted on its row. -/
theorem tally_controlled
    {a' : Ref}
    (hOrigin : S.origin x = .controlled a' r f)
    (g : Ref) :
    S.tally [x] g = if r = g then 1 else 0 :=
  S.tally_of_some (by rw [hOrigin]; rfl) g

------------------------------------------------------------
-- Shows
------------------------------------------------------------

namespace Shows

/- Code that moves is charged for. -/
theorem moves
    (h : S.Shows t c waits n k rows s)
    (hMoves : S.Moves F c' s s') :
    S.Shows t (c.plus c') waits n k rows s' := by
  have hStory := Session.story_of_stories hMoves.stories t
  exact
    { ready := hMoves.ready h.ready
      made := hMoves.tasks ▸ h.made
      size := hMoves.size.trans h.size
      row := fun r hr => by
        rw [hMoves.billed r (h.size ▸ hr), h.row r hr, used,
          used, billed_plus]
        rfl
      suspended := by
        rw [Session.suspensions, hStory]
        exact h.suspended
      resumed := by
        rw [Session.resumptions, hStory]
        exact h.resumed }

/- So often it is told meanwhile. -/
theorem passes
    (h : S.Shows t c waits n k rows s)
    (hPasses : s.Passes t n' k' s') :
    S.Shows t c waits (n + n') (k + k') rows s' where
  ready := hPasses.ready h.ready
  made := hPasses.size ▸ h.made
  size := hPasses.controlled ▸ h.size
  row := hPasses.controlled ▸ h.row
  suspended := by rw [hPasses.suspended, h.suspended]
  resumed := by rw [hPasses.resumed, h.resumed]

theorem settling
    (h : S.Shows t c waits n k rows s)
    (f : Ref)
    (o : Outcome) :
    S.Shows t c waits n k rows (s.settling f o) where
  ready := h.ready.settling f o
  made := h.made
  size := h.size
  row := h.row
  suspended := h.suspended
  resumed := h.resumed

theorem stamped
    (h : S.Shows t c waits n k rows s) :
    S.Shows t c waits n k rows s.stamped where
  ready := { h.ready with }
  made := h.made
  size := h.size
  row := h.row
  suspended := h.suspended
  resumed := h.resumed

theorem withFuture
    (h : S.Shows t c waits n k rows s)
    (row : FutureCell) :
    S.Shows t c waits n k rows (s.withFuture row) where
  ready := h.ready.withFuture row
  made := h.made
  size := h.size
  row := h.row
  suspended := h.suspended
  resumed := h.resumed

/- What is waited for has one more registration. -/
theorem registering
    {a' : Ref}
    (h : S.Shows t c waits n k rows s)
    (hOrigin : S.origin x = .controlled a' r f)
    (w : Closure) :
    S.Shows t c (waits ++ [x]) n k rows
      (s.registering r f w) := by
  have hMade := (h.ready.controlled x a' r f hOrigin).2.1
  exact
    { ready := h.ready.registering hMade f w
      made := h.made
      size := by
        simpa [Session.registering, Session.watching,
          Session.counting] using h.size
      row := fun g hg => by
        rw [Session.row_registering hMade, h.row g hg]
        simp only [used, tally_append, tally_controlled hOrigin]
        by_cases hSame : r = g
        · rw [if_pos hSame, if_pos hSame]
          rfl
        · rw [if_neg hSame, if_neg hSame]
          rfl
      suspended := h.suspended
      resumed := h.resumed }

end Shows

end Supply

end Resumption

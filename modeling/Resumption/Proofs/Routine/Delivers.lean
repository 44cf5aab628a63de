import Resumption.Proofs.Routine.Labels

/-
  What it means that code delivers what a reading says.

  The code ends with a step that finishes, or throws, and
  the session is where the reading is.  Or it ends with a
  step that hands off to a future, which the reading awaited
  last.  Or it ends with a step that suspends on a future
  that the reading awaited and that has not settled; what
  follows the label of that step then delivers the rest,
  whatever has become of the session by the time the future
  has settled.  Where that never happens the reading goes no
  further.

  Main declarations:
    * `Setting.Means`, `Setting.Matches`
    * `Setting.Delivers`
    * `Setting.Delivers.after`
    * `Setting.Delivers.jump`
    * `Setting.Proceeds`, `Setting.Follows`
-/

namespace Resumption

open Run
open Direct (Stepped landed)

------------------------------------------------------------
-- What Stops a Reading
------------------------------------------------------------

/- The error that a breach is answered by. -/
def Breach.Raises {ν : Type} : Breach ν → Value → Prop
  | .borrowedLabel, e => ∃ l, e.Reports (.foreignLabel l)
  | .forgedLabel id, e => e.Reports (.foreignLabel id)
  | .uninstalledLabel, e => ∃ l, e.Reports (.uninstalledLabel l)
  | .malformedStep v _, e => ∃ l, e.Reports (.malformedStep l v)
  | .unsettledResult _, e =>
      e.Reports (.notCompleted "getResult()")

/-
  The error that is thrown where a reading stops.  Where a
  future never settles nothing is thrown.
-/
def Setting.Means
    {ν : Type}
    (E : Setting ν)
    (s : Session) : Stop ν → Value → Prop
  | .thrown e', e => e = e'
  | .breached b, e => b.Raises e
  | .given v, e => ∃ l, e.Reports (.malformedStep l v)
  | .malformed v, e => ∃ l, e.Reports (.malformedStep l v)
  | .broken x, e =>
      e.isDefect = true ∧
        s.SettledAs (E.place x) (.rejected e)
  | .stuck _, _ => False

/- An outcome as the end of a run. -/
def Outcome.toExcept : Outcome → Except Value Value
  | .fulfilled v => .ok v
  | .rejected e => .error e

/- A run ended as a reading did. -/
def Setting.Matches
    {ν α : Type}
    (E : Setting ν)
    (s : Session) :
    Except (Stop ν) α → Except Value α → Prop
  | .ok a, .ok a' => a = a'
  | .error stop, .error e => E.Means s stop e
  | _, _ => False

namespace Setting

variable {ν : Type}
variable {E : Setting ν}
variable {s s₁ : Session}
variable {stop : Stop ν}
variable {e : Value}

theorem Means.later
    {kept : Cell → Prop}
    (h : E.Means s stop e)
    (hRetains : Session.Retains kept s s₁) :
    E.Means s₁ stop e := by
  cases stop with
  | broken x => exact ⟨h.1, hRetains.settledAs _ _ h.2⟩
  | _ => exact h

theorem Matches.later
    {α : Type}
    {o : Except (Stop ν) α}
    {r : Except Value α}
    {kept : Cell → Prop}
    (h : E.Matches s o r)
    (hRetains : Session.Retains kept s s₁) :
    E.Matches s₁ o r := by
  match o, r with
  | .ok _, .ok _ => exact h
  | .error _, .error _ => exact Means.later h hRetains

/- What a breach raises is a defect. -/
theorem isDefect_of_raises
    {b : Breach ν}
    (h : b.Raises e) :
    e.isDefect = true := by
  cases b with
  | borrowedLabel =>
      rcases h with ⟨l, hReports⟩
      exact hReports.isDefect
  | forgedLabel id => exact Value.Reports.isDefect h
  | uninstalledLabel =>
      rcases h with ⟨l, hReports⟩
      exact hReports.isDefect
  | malformedStep v hNot =>
      rcases h with ⟨l, hReports⟩
      exact hReports.isDefect
  | unsettledResult x => exact Value.Reports.isDefect h

/- What no handler is given is a defect. -/
theorem Means.isDefect
    (h : E.Means s stop e)
    (hHandled : stop.handled? = none) :
    e.isDefect = true := by
  cases stop with
  | thrown e' =>
      cases h
      simp only [Stop.handled?] at hHandled
      split at hHandled
      · assumption
      · cases hHandled
  | breached b => exact isDefect_of_raises h
  | given v =>
      rcases h with ⟨l, hReports⟩
      exact hReports.isDefect
  | malformed v =>
      rcases h with ⟨l, hReports⟩
      exact hReports.isDefect
  | broken x => exact h.1
  | stuck x => exact h.elim

/- A future that settled by its fate is read as such. -/
theorem matches_result
    {x : ν}
    {fate : Fate}
    {outcome : Outcome}
    (hAllows : fate.Allows outcome)
    (hSettled : s.SettledAs (E.place x) outcome) :
    E.Matches s (fate.result x) outcome.toExcept := by
  cases fate with
  | known outcome' =>
      cases hAllows
      cases outcome with
      | fulfilled v => rfl
      | rejected e => rfl
  | defect =>
      cases outcome with
      | fulfilled v => exact hAllows.elim
      | rejected e => exact ⟨hAllows, hSettled⟩
  | never => exact hAllows.elim

end Setting

------------------------------------------------------------
-- Delivering
------------------------------------------------------------

/-
  Code with a footprint, run in a session, sooner or later
  comes to what a reading came to, handing off only if it
  may.
-/
inductive Setting.Delivers {ν : Type} (E : Setting ν)
    (hands : Prop) :
    Footprint → (Caller → Run Value) → Session →
      Except (Stop ν) Value → Reading ν → Prop where
  | finishes
      {F act s s' step v R}
      (hLeads : Leads act s (.ok step) s')
      (hMoves : E.Moves F s s')
      (hStep : step.step? = some (.finish v))
      (hAgrees : E.Agrees s' R) :
      Delivers E hands F act s (.ok v) R
  | fails
      {F act s s' e stop R}
      (hLeads : Leads act s (.error e) s')
      (hMoves : E.Moves F s s')
      (hMeans : E.Means s' stop e)
      (hAgrees : E.Agrees s' R) :
      Delivers E hands F act s (.error stop) R
  | gives
      {F act s s' v R}
      (hLeads : Leads act s (.ok v) s')
      (hMoves : E.Moves F s s')
      (hNot : v.isStep = false)
      (hChecks : E.checks = true)
      (hAgrees : E.Agrees s' R) :
      Delivers E hands F act s (.error (.given v)) R
  | handsOff
      {F act s s' step x fate o R R'}
      (hLeads : Leads act s (.ok step) s')
      (hMoves : E.Moves F s s')
      (hStep : step.step? =
        some (.handOff (.future (E.place x))))
      (hHands : hands)
      (hAgrees : E.Agrees s' R)
      (hFate : E.fates x = some fate)
      (hResult : o = fate.result x)
      (hReading : R' = R.awaiting x) :
      Delivers E hands F act s o R'
  | waits
      {F F' act s s' step a l x o R R'}
      (hLeads : Leads act s (.ok step) s')
      (hMoves : E.Moves F s s')
      (hStep : step.step? =
        some (.suspend (.awaiter a) (.label l)))
      (hWaits : E.Waits s' R a x)
      (hStuck : E.fates x = some .never →
        o = .error (.stuck x) ∧ R' = R.awaiting x)
      (hFoot : ∀ c, F' c → s'.Has c ∧ (s.Has c → F c))
      (hRest : ∀ s₁, E.Rests F' s' s₁ →
        s₁.Settled (E.place x) →
        Delivers E hands F'
          (fun c => Label.jump c E.machine (.label l)) s₁
          (landed o) R') :
      Delivers E hands F act s o R'

namespace Setting

variable {ν : Type}
variable {E : Setting ν}

/- A step is not missing. -/
theorem isMissing_of_step
    {step : Value}
    {view : StepView}
    (h : step.step? = some view) :
    step.isMissing = false := by
  cases step <;> first | rfl | cases h

/- A step is a step. -/
theorem steps_of_step
    {step : Value}
    {view : StepView}
    (h : step.step? = some view) :
    Label.Steps (.ok step) := by
  intro step' hSame
  injection hSame with hSame
  rw [Value.isStep, ← hSame, h]
  rfl

namespace Delivers

variable {hands : Prop}
variable {F F' : Footprint}
variable {act act' : Caller → Run Value}
variable {s s' : Session}
variable {o : Except (Stop ν) Value}
variable {R R' : Reading ν}

/-
  Other code delivers the same if it comes to the same ends,
  from a session that one can move on from.
-/
theorem after
    (h : E.Delivers hands F act s o R)
    {F₀ : Footprint}
    {s₀ : Session}
    (hMoves : E.Moves F₀ s₀ s)
    (hFoot : ∀ c, s₀.Has c → F c → F₀ c)
    (hEnd : ∀ r s', Leads act s r s' → Leads act' s₀ r s') :
    E.Delivers hands F₀ act' s₀ o R := by
  have hAll : ∀ {s'}, E.Moves F s s' → E.Moves F₀ s₀ s' :=
    fun h => hMoves.trans h (fun _ _ hc => hc) hFoot
  cases h with
  | finishes hLeads hMove hStep hAgrees =>
      exact .finishes (hEnd _ _ hLeads) (hAll hMove) hStep
        hAgrees
  | fails hLeads hMove hMeans hAgrees =>
      exact .fails (hEnd _ _ hLeads) (hAll hMove) hMeans hAgrees
  | gives hLeads hMove hNot hChecks hAgrees =>
      exact .gives (hEnd _ _ hLeads) (hAll hMove) hNot hChecks
        hAgrees
  | handsOff hLeads hMove hStep hHands hAgrees hFate hRes
      hRead =>
      exact .handsOff (hEnd _ _ hLeads) (hAll hMove) hStep
        hHands hAgrees hFate hRes hRead
  | waits hLeads hMove hStep hWaits hStuck hFoot' hRest =>
      refine .waits (hEnd _ _ hLeads) (hAll hMove) hStep hWaits
        hStuck ?_ hRest
      intro c hc
      rcases hFoot' c hc with ⟨hHas, hOld⟩
      refine ⟨hHas, fun hHas₀ => hFoot c hHas₀ ?_⟩
      exact hOld (hMoves.retains.has c hHas₀)

/- Code that comes to the same ends delivers the same. -/
theorem congr
    (h : E.Delivers hands F act s o R)
    (hEnd : ∀ r s', Leads act s r s' → Leads act' s r s') :
    E.Delivers hands F act' s o R :=
  h.after (.refl E F s) (fun _ _ hc => hc) hEnd

/- A wider footprint promises less. -/
theorem widen
    (h : E.Delivers hands F act s o R)
    (hFoot : ∀ c, s.Has c → F c → F' c) :
    E.Delivers hands F' act s o R :=
  h.after (.refl E F' s) hFoot fun _ _ hLeads => hLeads

/- What is done first, within the footprint. -/
theorem precede
    {α : Type}
    {first : Caller → Run α}
    {next : Caller → α → Run Value}
    {a : α}
    {s₀ : Session}
    (hFirst : Leads first s₀ (.ok a) s)
    (hMoves : E.Moves F s₀ s)
    (h : E.Delivers hands F (fun c => next c a) s o R) :
    E.Delivers hands F (fun c => first c >>= next c) s₀ o R :=
  h.after hMoves (fun _ _ hc => hc)
    fun _ _ hLeads => hFirst.bind hLeads

/- What is done first at once. -/
theorem step
    {α : Type}
    {first : Run α}
    {next : Caller → α → Run Value}
    {a : α}
    {s₀ : Session}
    (hFirst : first s₀ = some (.ok a, s))
    (hMoves : E.Moves F s₀ s)
    (h : E.Delivers hands F (fun c => next c a) s o R) :
    E.Delivers hands F (fun c => first >>= next c) s₀ o R :=
  h.precede (.of_eq fun _ => hFirst) hMoves

/- A call delivers what the closure does when entered. -/
theorem call
    {closure : Closure}
    {args : List Value}
    (h : E.Delivers hands F (fun c => closure.enter c args) s o R) :
    E.Delivers hands F (fun c => c.call closure args) s o R :=
  h.congr fun _ _ hLeads => hLeads.call

/-
  A jump delivers what the code under the label does, but
  what is no step is found not to be one.
-/
theorem jump
    {l : Ref}
    {code : Closure}
    (hBears : s.Bears E.machine l (some code))
    (h : E.Delivers hands F (fun c => c.call code []) s o R) :
    E.Delivers hands F (fun c => Label.jump c E.machine (.label l))
      s (landed o) R := by
  have hFails : ∀ {e : Value}, Label.Steps (.error e) := nofun
  cases h with
  | finishes hLeads hMoves hStep hAgrees =>
      exact .finishes (Label.leads_jump hBears hLeads
        (steps_of_step hStep)) hMoves hStep hAgrees
  | @fails _ _ _ s' e stop _ hLeads hMoves hMeans hAgrees =>
      have hJump := Label.leads_jump hBears hLeads hFails
      cases stop <;> exact .fails hJump hMoves hMeans hAgrees
  | @gives _ _ _ s' v _ hLeads hMoves hNot hChecks hAgrees =>
      rcases Label.leads_jump_malformed hBears hLeads
          (hAgrees.calm.checks.trans hChecks) hNot with
        ⟨id, e, hReports, hJump⟩
      have hMore :=
        (E.moves_withIncident s' (.malformed id)).none_trans
          (E.moves_numbering _ 2)
      exact .fails hJump (hMoves.trans_none hMore)
        ⟨id, hReports⟩ (hAgrees.of_moves hMore rfl)
  | @handsOff _ _ _ s' step x fate _ _ _ hLeads hMoves hStep
      hHands hAgrees hFate hResult hReading =>
      refine .handsOff (Label.leads_jump hBears hLeads
        (steps_of_step hStep)) hMoves hStep hHands hAgrees
        hFate ?_ hReading
      rw [hResult, Direct.landed_eq]
      exact Direct.stepped_result x fate
  | @waits _ F' _ _ s' step a l' x _ _ _ hLeads hMoves hStep
      hWaits hStuck hFoot hRest =>
      refine .waits (Label.leads_jump hBears hLeads
        (steps_of_step hStep)) hMoves hStep hWaits ?_ hFoot ?_
      · intro hNever
        rcases hStuck hNever with ⟨rfl, hReading⟩
        exact ⟨rfl, hReading⟩
      · rw [Direct.landed_landed]
        exact hRest

/-
  A step that suspends on a future delivers what follows the
  label that it resumes at.
-/
theorem suspend
    {a l : Ref}
    {x : ν}
    (hWaits : E.Waits s R a x)
    (hStuck : E.fates x = some .never →
      o = .error (.stuck x) ∧ R' = R.awaiting x)
    (hHas : ∀ c, F c → s.Has c)
    (hRest : ∀ s₁, E.Rests F s s₁ →
      s₁.Settled (E.place x) →
      E.Delivers hands F
        (fun c => Label.jump c E.machine (.label l)) s₁
        (landed o) R') :
    E.Delivers hands F
      (fun _ => Run.newStep (.suspend (.awaiter a) (.label l)))
      s o R' := by
  have hMoves := E.moves_numbering s 1
  have hFoot : ∀ c, F c → (s.numbering 1).Has c ∧
      (s.Has c → F c) :=
    fun c hc => ⟨hMoves.retains.has c (hHas c hc), fun _ => hc⟩
  refine .waits (.of_eq fun _ => rfl) hMoves.any
    (Value.step?_record_fields _ _)
    (hWaits.of_moves hMoves rfl) hStuck hFoot ?_
  intro s₁ hRests hSettled
  exact hRest s₁ (.of_moves_none hMoves hRests rfl) hSettled

/-
  So does one that resumes at a new label, with code under
  it that delivers.
-/
theorem install
    {a : Ref}
    {x : ν}
    {code : Closure}
    (hWaits : E.Waits s R a x)
    (hStuck : E.fates x = some .never →
      o = .error (.stuck x) ∧ R' = R.awaiting x)
    (hHas : ∀ c, F c → s.Has c)
    (hRest : ∀ s₁, E.Rests F s s₁ →
      s₁.Settled (E.place x) →
      E.Delivers hands F (fun c => code.enter c []) s₁ o R') :
    E.Delivers hands F
      (fun _ => do
        let l ← Label.install E.machine code
        Run.newStep (.suspend (.awaiter a) (.label l)))
      s o R' := by
  have hMoves := E.moves_withLabel s E.machine (some code)
  have hBears := s.bears_withLabel hWaits.agrees.calm.machine
    (some code)
  refine .step (Label.install_eq E.machine code s)
    hMoves.any ?_
  refine .suspend (hWaits.of_moves hMoves rfl) hStuck hHas ?_
  intro s₁ hRests hSettled
  refine .jump (hRests.retains.bears _ _ _ hBears) (.call ?_)
  exact hRest s₁ (.of_moves_none hMoves hRests rfl) hSettled

/- A new step that finishes delivers its value. -/
theorem finish
    (v : Value)
    (hAgrees : E.Agrees s R) :
    E.Delivers hands F (fun _ => Run.newStep (.finish v))
      s (.ok v) R := by
  have hMoves := E.moves_numbering s 1
  exact .finishes (.of_eq fun _ => rfl) hMoves.any
    (Value.step?_record_fields _ _) (hAgrees.of_moves hMoves rfl)

/- What is thrown is what the reading stops with. -/
theorem raise
    {e : Value}
    {stop : Stop ν}
    (hMeans : E.Means s stop e)
    (hAgrees : E.Agrees s R) :
    E.Delivers hands F (fun _ => Run.raise e) s (.error stop) R :=
  .fails (.raise e) (.refl E F s) hMeans hAgrees

end Delivers

------------------------------------------------------------
-- Proceeding
------------------------------------------------------------

/-
  From wherever the session has come to agree with a
  reading, code delivers what the reading came to next.  The
  code comes back to cells that are kept until then.
-/
def Proceeds
    (E : Setting ν)
    (hands : Prop)
    (G : Footprint)
    (s : Session)
    (R : Reading ν)
    (act : Caller → Run Value)
    (o : Except (Stop ν) Value)
    (R' : Reading ν) : Prop :=
  ∀ s₁, Session.Retains G s s₁ → E.Agrees s₁ R →
    E.Delivers hands G act s₁ o R'

/-
  What a reading comes to after a first part: what stops
  that part stops all, and else code proceeds with its
  value.
-/
inductive Follows
    (E : Setting ν)
    (hands : Prop)
    (G : Footprint)
    (s : Session)
    (R : Reading ν)
    (next : Value → Caller → Run Value) :
    Except (Stop ν) Value → Except (Stop ν) Value →
      Reading ν → Prop where
  | proceeds
      {v o R'}
      (h : E.Proceeds hands G s R (next v) o R') :
      Follows E hands G s R next (.ok v) o R'
  | passes {stop} :
      Follows E hands G s R next (.error stop) (.error stop) R

variable {hands : Prop}
variable {G : Footprint}
variable {s s₁ : Session}
variable {R R' : Reading ν}
variable {act : Caller → Run Value}
variable {next : Value → Caller → Run Value}
variable {o o' : Except (Stop ν) Value}

/- What proceeds from a session proceeds from a later one. -/
theorem Proceeds.later
    (h : E.Proceeds hands G s R act o R')
    (hRetains : Session.Retains G s s₁) :
    E.Proceeds hands G s₁ R act o R' :=
  fun s₂ hRetains₁ hAgrees =>
    h s₂ (hRetains.trans hRetains₁ fun _ _ hc => ⟨hc, hc⟩)
      hAgrees

theorem Follows.later
    (h : E.Follows hands G s R next o o' R')
    (hRetains : Session.Retains G s s₁) :
    E.Follows hands G s₁ R next o o' R' := by
  cases h with
  | proceeds h => exact .proceeds (h.later hRetains)
  | passes => exact .passes

/- Where the first part is stuck, so is all. -/
theorem Follows.stuck
    {x : ν}
    (h : E.Follows hands G s R next (.error (.stuck x)) o R') :
    o = .error (.stuck x) ∧ R' = R := by
  cases h
  exact ⟨rfl, rfl⟩

end Setting

end Resumption

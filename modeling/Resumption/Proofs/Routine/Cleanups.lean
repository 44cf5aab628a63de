import Resumption.Proofs.Routine.Awaits
import Resumption.Proofs.Routine.Deeds

/-
  A cleanup delivers what its body comes to, after its
  compensation has run.

  While the body is suspended, so is the cleanup, and the
  compensation waits.  It runs where the body ends, before
  the outcome of the body is passed on; a failure of it is
  passed on instead.  A body that never ends is never left.

  Main declarations:
    * `Setting.Compensates`, `Setting.Leaves`
    * `Cleanup.delivers_enter`
    * `Cleanup.delivers_build`
-/

namespace Resumption

open Run
open Direct (Stepped landed leaving)

------------------------------------------------------------
-- Compensations
------------------------------------------------------------

/-
  From wherever the session has come to agree with a
  reading, a compensation does what the reading of it does.
-/
def Setting.Compensates
    {ν : Type}
    (E : Setting ν)
    (s : Session)
    (R : Reading ν)
    (compensation : Closure)
    (r : Except (Stop ν) Value)
    (R' : Reading ν) : Prop :=
  ∀ s₁, Session.Retains Footprint.none s s₁ →
    E.Agrees s₁ R →
      E.Does (fun c => c.call compensation []) s₁ r R'

/-
  What a reading comes to after a body with a compensation:
  that runs, unless the body never ends.
-/
inductive Setting.Leaves
    {ν : Type}
    (E : Setting ν)
    (s : Session)
    (R : Reading ν)
    (compensation : Closure) :
    Except (Stop ν) Value → Except (Stop ν) Value →
      Reading ν → Prop where
  | stays {x} :
      Leaves E s R compensation (.error (.stuck x))
        (.error (.stuck x)) R
  | compensates
      {o r R'}
      (hEnds : ∀ x, o ≠ .error (.stuck x))
      (h : E.Compensates s R compensation r R') :
      Leaves E s R compensation o (leaving o r) R'

namespace Setting

variable {ν : Type}
variable {E : Setting ν}
variable {s s₁ : Session}
variable {R R' : Reading ν}
variable {compensation : Closure}
variable {o o' r : Except (Stop ν) Value}

theorem Compensates.later
    {kept : Cell → Prop}
    (h : E.Compensates s R compensation r R')
    (hRetains : Session.Retains kept s s₁) :
    E.Compensates s₁ R compensation r R' :=
  fun s₂ hRetains₁ hAgrees =>
    h s₂ (hRetains.bare_trans hRetains₁) hAgrees

theorem Leaves.later
    {kept : Cell → Prop}
    (h : E.Leaves s R compensation o o' R')
    (hRetains : Session.Retains kept s s₁) :
    E.Leaves s₁ R compensation o o' R' := by
  cases h with
  | stays => exact .stays
  | compensates hEnds h =>
      exact .compensates hEnds (h.later hRetains)

/- Where the body is stuck, so is all. -/
theorem Leaves.stuck
    {x : ν}
    (h : E.Leaves s R compensation (.error (.stuck x)) o R') :
    o = .error (.stuck x) ∧ R' = R := by
  generalize hBody :
    (.error (.stuck x) : Except (Stop ν) Value) = o₁ at h
  cases h with
  | stays =>
      cases hBody
      exact ⟨rfl, rfl⟩
  | compensates hEnds h => exact (hEnds x hBody.symm).elim

/- Behind its label a body comes to the same. -/
theorem Leaves.land
    (h : E.Leaves s R compensation o o' R') :
    ∃ o₁, E.Leaves s R compensation (landed o) o₁ R' ∧
      landed o₁ = landed o' := by
  cases h with
  | stays => exact ⟨_, .stays, rfl⟩
  | @compensates _ r _ hEnds h =>
      refine ⟨_, .compensates ?_ h, ?_⟩
      · intro x hSame
        unfold landed at hSame
        split at hSame
        · cases hSame
        · exact hEnds x hSame
      · cases r with
        | ok v => exact Direct.landed_landed o
        | error stop => rfl

/- A compensation that does nothing leaves what it is given. -/
theorem Leaves.of_idle
    {v : Value}
    (h : E.Compensates s R compensation (.ok v) R) :
    E.Leaves s R compensation o o R := by
  by_cases hStuck : ∃ x, o = .error (.stuck x)
  · rcases hStuck with ⟨x, rfl⟩
    exact .stays
  · exact .compensates (r := .ok v)
      (fun x hSame => hStuck ⟨x, hSame⟩) h

end Setting

------------------------------------------------------------
-- Cleanups in Progress
------------------------------------------------------------

/- Where a cleanup is kept, and its compensation. -/
structure Cleanup.Site where
  cell : Ref
  entry : Ref
  compensation : Closure

/-
  A cleanup is under way, at a label of its body; it has not
  been compensated.
-/
structure Cleanup.Site.At
    (S : Cleanup.Site)
    (m : Ref)
    (s : Session)
    (l : Ref) : Prop where
  cell : ∃ t, s.cleanups[S.cell]? =
    some ⟨m, S.entry, .label l, S.compensation, false, t⟩
  entry : s.Bears m S.entry (some (.cleanupEntry S.cell))

/- The cells that a cleanup comes back to. -/
def Cleanup.Site.footprint
    (S : Cleanup.Site)
    (F : Footprint) : Footprint :=
  F.or (.only (.cleanup S.cell))

namespace Session

/- A session whose cleanup resumes at another label. -/
def protecting
    (s : Session)
    (i l : Ref) : Session :=
  { s with
    cleanups :=
      s.cleanups.modify i ({ · with inner := .label l }) }

/- A session in which something was noted about tasks. -/
def noting
    (s : Session)
    (tasks : Array TaskCell) : Session :=
  { s with tasks := tasks }

/- A session with one more row for a cleanup. -/
def withCleanupRow
    (s : Session)
    (row : CleanupCell) : Session :=
  { s with cleanups := s.cleanups.push row }

/- A session with a new cleanup. -/
def withCleanup
    (s : Session)
    (m : Ref)
    (body compensation : Closure) : Session :=
  let s₁ := s.withLabel m none
  let inner := s₁.labels.size
  let s₂ := (s₁.withLabel m (some body)).withCleanupRow
    ⟨m, s.labels.size, .label inner, compensation, false,
      s.task⟩
  s₂.relabelled s.labels.size (.cleanupEntry s.cleanups.size)

@[simp] theorem memory_protecting
    (s : Session)
    (i l : Ref)
    (own : Territory) :
    (s.protecting i l).memory own = s.memory own := by
  simp only [memory, protecting]

@[simp] theorem memory_compensating
    (s : Session)
    (i : Ref)
    (own : Territory) :
    (s.compensating i).memory own = s.memory own := by
  simp only [memory, compensating, withIncident]

@[simp] theorem memory_noting
    (s : Session)
    (tasks : Array TaskCell)
    (own : Territory) :
    (s.noting tasks).memory own = s.memory own := by
  simp only [memory, noting]

@[simp] theorem memory_withCleanup
    (s : Session)
    (m : Ref)
    (body compensation : Closure)
    (own : Territory) :
    (s.withCleanup m body compensation).memory own =
      s.memory own := by
  simp only [memory, withCleanup, withCleanupRow, relabelled,
    withLabel]

end Session

/- What becomes of a cleanup is noted, if a task runs. -/
theorem Run.tendHere_eq
    (c : Care)
    (s : Session) :
    ∃ tasks, Run.tendHere c s =
      some (.ok (), s.noting tasks) := by
  cases hTask : s.task with
  | none =>
      have hSame : { s with task := none } = s := by
        rw [← hTask]
      rw [← hSame]
      exact ⟨s.tasks, rfl⟩
  | some t =>
      have hSame : { s with task := some t } = s := by
        rw [← hTask]
      rw [← hSame]
      exact ⟨s.tasks.modify t fun cell =>
        { cell with care := c :: cell.care }, rfl⟩

namespace Cleanup

variable {ν : Type}
variable {E : Setting ν}
variable {hands : Prop}
variable {F : Footprint}
variable {S : Site}
variable {s s₁ s' : Session}
variable {R R₁ R' : Reading ν}
variable {o o₁ r : Except (Stop ν) Value}
variable {a l l' m : Ref}
variable {x : ν}
variable {fate : Fate}

/- Noting something is a move. -/
theorem moves_noting
    (E : Setting ν)
    (s : Session)
    (tasks : Array TaskCell) :
    E.Moves .none s (s.noting tasks) where
  retains :=
    { Session.Retains.refl (fun _ => True) s with
      same := fun c _ _ => by cases c <;> rfl }
  backdrop := rfl
  foreign _ _ := s.memory_noting tasks _

theorem Site.At.row_eq
    (h : S.At m s l) :
    ∃ t, Table.cleanups.row S.cell s =
      some (.ok ⟨m, S.entry, .label l, S.compensation, false,
        t⟩, s) := by
  rcases h.cell with ⟨t, hRow⟩
  refine ⟨t, ?_⟩
  have hEnd : Table.cleanups.row S.cell s =
      some (.ok (s.cleanups.getD S.cell default), s) := rfl
  rw [hEnd]
  simp [Array.getD_eq_getD_getElem?, hRow]

theorem Site.At.has
    (h : S.At m s l) :
    s.Has (.cleanup S.cell) := by
  rcases h.cell with ⟨t, hRow⟩
  exact (Array.getElem?_eq_some_iff.mp hRow).1

/- A cleanup that is kept is where it was. -/
theorem Site.At.later
    {kept : Cell → Prop}
    (h : S.At m s l)
    (hRetains : Session.Retains kept s s₁)
    (hKept : kept (.cleanup S.cell)) :
    S.At m s₁ l where
  cell := by
    rcases h.cell with ⟨t, hRow⟩
    have hSame := hRetains.same _ h.has hKept
    exact ⟨t, Eq.trans hSame hRow⟩
  entry := hRetains.bears _ _ _ h.entry

theorem Site.At.protecting
    (h : S.At m s l)
    (l' : Ref) :
    S.At m (s.protecting S.cell l') l' where
  cell := by
    rcases h.cell with ⟨t, hRow⟩
    refine ⟨t, ?_⟩
    simp [Session.protecting, Array.getElem?_modify, hRow]
  entry := h.entry

/- Changing a cleanup's row touches that cleanup alone. -/
theorem moves_modify
    (E : Setting ν)
    (s : Session)
    (i : Ref)
    (f : CleanupCell → CleanupCell) :
    E.Moves (.only (.cleanup i)) s
      { s with cleanups := s.cleanups.modify i f } where
  retains :=
    { Session.Retains.refl (fun _ => True) s with
      has := by
        intro c hc
        cases c with
        | cleanup j => simpa [Session.Has] using hc
        | _ => exact hc
      same := by
        intro c _ hNot
        cases c with
        | cleanup j =>
            have hNe : i ≠ j := by
              rintro rfl
              exact hNot rfl
            simp [Session.SameAt, Array.getElem?_modify, hNe]
        | _ => rfl }
  backdrop := rfl
  foreign _ _ := by simp only [Session.memory]

/- So does invoking its compensation. -/
theorem moves_compensating
    (E : Setting ν)
    (s : Session)
    (i : Ref) :
    E.Moves (.only (.cleanup i)) s (s.compensating i) :=
  (E.moves_withIncident s (.compensates i)).none_trans
    (moves_modify E (s.withIncident (.compensates i)) i _)

------------------------------------------------------------
-- Compensating
------------------------------------------------------------

/- A cleanup that was not compensated is compensated once. -/
theorem leads_compensate
    (hAt : S.At E.machine s l)
    (hAgrees : E.Agrees s R)
    (h : E.Compensates s R S.compensation r R') :
    ∃ s' r', Leads (fun c => compensate c S.cell) s
        (r'.map fun _ => ⟨⟩) s' ∧
      E.Moves (.only (.cleanup S.cell)) s s' ∧
      E.Agrees s' R' ∧ E.Matches s' r r' := by
  rcases hAt.row_eq with ⟨t, hRow⟩
  rcases Run.tendHere_eq (.compensated S.cell)
    (s.compensating S.cell) with ⟨tasks, hTend⟩
  have hChange : E.Moves (.only (.cleanup S.cell)) s
      ((s.compensating S.cell).noting tasks) :=
    (moves_compensating E s S.cell).trans_none
      (moves_noting E _ tasks)
  have hHere := hAgrees.of_moves hChange
    (by simp only [Session.memory_noting,
      Session.memory_compensating])
  rcases h _ hChange.retains.bare hHere with
    ⟨s', r', hLeads, hMoves, hAgrees', hMatches⟩
  refine ⟨s', r', ?_, hChange.trans_none hMoves, hAgrees',
    hMatches⟩
  refine .step hRow ?_
  simp only [Bool.false_eq_true, if_false]
  exact .step rfl (.step hTend hLeads.discard)

/- What comes after the compensation, if that does not fail. -/
theorem delivers_compensate
    {next : Caller → Run Value}
    (hAt : S.At E.machine s l)
    (hAgrees : E.Agrees s R)
    (h : E.Compensates s R S.compensation r R')
    (hNext : ∀ s', Session.Retains Footprint.none s s' →
      E.Agrees s' R' → E.Delivers hands .none next s' o R') :
    E.Delivers hands (.only (.cleanup S.cell))
      (fun c => do
        compensate c S.cell
        next c)
      s (leaving o r) R' := by
  rcases leads_compensate hAt hAgrees h with
    ⟨s', r', hLeads, hMoves, hAgrees', hMatches⟩
  match r, r' with
  | .ok _, .ok _ =>
      exact .precede hLeads hMoves
        ((hNext s' hMoves.retains.bare hAgrees').widen
          fun _ _ hc => hc.elim)
  | .error stop, .error e =>
      exact .fails hLeads.bind_error hMoves hMatches hAgrees'

/- What the outcome that the body handed off to comes to. -/
theorem delivers_outcome
    (hAt : S.At E.machine s l)
    (hAgrees : E.Agrees s R)
    (hReads : E.Reads s a (E.place x))
    (hFate : E.fates x = some fate)
    (hSettled : s.Settled (E.place x))
    (h : E.Leaves s (R.awaiting x) S.compensation
      (fate.result x) o R') :
    E.Delivers hands (.only (.cleanup S.cell))
      (fun c => Cleanup.outcome c S.cell (.awaiter a))
      s o R' := by
  rcases hAgrees.calm.settledAs hFate hSettled with
    ⟨outcome, hAs, hMatches⟩
  have hResult := Awaiter.result_eq hReads.session hAs
  have hNow := hAgrees.awaiting x
  refine .precede (Leads.of_eq hResult).attempt
    (.refl E _ s) ?_
  generalize fate.result x = o₁ at h hMatches
  generalize outcome.toExcept = r₁ at hMatches
  match o₁, r₁ with
  | .ok v, .ok w =>
      cases hMatches
      cases h with
      | compensates hEnds h =>
          exact delivers_compensate hAt hNow h
            fun s' _ hAgrees' => .finish v hAgrees'
  | .error stop, .error e =>
      cases h with
      | stays => exact hMatches.elim
      | compensates hEnds h =>
          exact delivers_compensate hAt hNow h
            fun s' hRetains hAgrees' =>
              .raise (Setting.Means.later hMatches hRetains)
                hAgrees'

------------------------------------------------------------
-- Entering
------------------------------------------------------------

/- A body that suspends, and what it resumes to. -/
theorem delivers_enter_suspend
    {step : Value}
    (hAt : S.At E.machine s l)
    (hLeads : Leads
      (fun c => Label.jump c E.machine (.label l))
      s (.ok step) s')
    (hMoves : E.Moves F s s')
    (hBody : ¬ F (.cleanup S.cell))
    (hStep : step.step? =
      some (.suspend (.awaiter a) (.label l')))
    (hWaits : E.Waits s' R a x)
    (hStuck : E.fates x = some .never →
      o = .error (.stuck x) ∧ R' = R.awaiting x)
    {F' : Footprint}
    (hFoot : ∀ c, F' c → s'.Has c ∧ (s.Has c → F c))
    (hRest : ∀ s₁, E.Rests F' s' s₁ →
      s₁.Settled (E.place x) →
      S.At E.machine s₁ l' →
      Session.Retains Footprint.none s s₁ →
      ¬ F' (.cleanup S.cell) →
      E.Delivers hands (S.footprint F') (fun c => enter c S.cell)
        s₁ o R') :
    E.Delivers hands (S.footprint F) (fun c => enter c S.cell)
      s o R' := by
  have hChange : E.Moves (.only (.cleanup S.cell)) s'
      (s'.protecting S.cell l') :=
    moves_modify E s' S.cell _
  have hAt' := (hAt.later hMoves.retains hBody).protecting l'
  have hNew : ¬ F' (.cleanup S.cell) := fun hc =>
    hBody ((hFoot _ hc).2 hAt.has)
  have hSuspend : E.Delivers hands (S.footprint F')
      (fun _ => Run.newStep
        (.suspend (.awaiter a) (.label S.entry)))
      (s'.protecting S.cell l') o R' := by
    refine .suspend
      (hWaits.of_moves hChange (s'.memory_protecting _ _ _))
      hStuck ?_ ?_
    · rintro c (hc | rfl)
      · exact hChange.retains.has c (hFoot c hc).1
      · exact hAt'.has
    · intro s₁ hRests hSettled
      refine .jump (hRests.retains.bears _ _ _ hAt'.entry)
        (.call (hRest s₁ ?_ hSettled
          (hAt'.later hRests.retains (.inr rfl)) ?_ hNew))
      · refine .of_moves hChange hRests
          (s'.memory_protecting _ _ _) ?_
        intro c _ hc
        refine ⟨?_, .inl hc⟩
        rintro rfl
        exact hNew hc
      · exact (hMoves.retains.bare_trans hChange.retains).bare_trans
          hRests.retains
  have hWhole : E.Moves (S.footprint F) s
      (s'.protecting S.cell l') :=
    hMoves.trans hChange (fun _ _ hc => .inl hc)
      (fun _ _ hc => .inr hc)
  refine hSuspend.after hWhole ?_ fun r s₂ hEnd => ?_
  · rintro c hIn (hc | hc)
    · exact .inl ((hFoot c hc).2 hIn)
    · exact .inr hc
  · rcases hAt.row_eq with ⟨t, hRow⟩
    refine .step hRow (hLeads.attempt.bind ?_)
    simp only [Setting.isMissing_of_step hStep, hStep,
      Bool.false_eq_true, if_false]
    exact .step rfl hEnd

/-
  The induction is on how the body goes on: each time it
  suspends, the cleanup is entered where it resumes.
-/
theorem delivers_enter
    {act : Caller → Run Value}
    (h : E.Delivers (¬ E.detached) F act s o₁ R₁)
    (hAct : act = fun c => Label.jump c E.machine (.label l))
    (hAt : S.At E.machine s l)
    (hBody : ¬ F (.cleanup S.cell))
    (hStepped : Stepped o₁)
    (hLeaves : E.Leaves s R₁ S.compensation o₁ o R') :
    E.Delivers hands (S.footprint F) (fun c => enter c S.cell)
      s o R' := by
  induction h generalizing l with
  | @finishes F act s s' step v R₁ hLeads hMoves hStep hAgrees =>
      subst hAct
      have hAt' := hAt.later hMoves.retains hBody
      rcases hAt.row_eq with ⟨t, hRow⟩
      refine .step hRow (.refl E _ s) (.precede hLeads.attempt
        (hMoves.widen fun _ _ hc => .inl hc) ?_)
      simp only [Setting.isMissing_of_step hStep, hStep,
        Bool.false_eq_true, if_false]
      cases hLeaves with
      | compensates hEnds h =>
          refine (delivers_compensate hAt' hAgrees
            (h.later hMoves.retains)
            fun s₁ _ hAgrees₁ => ?_).widen fun _ _ hc => .inr hc
          exact .finishes (.pure step) (.refl E _ s₁) hStep
            hAgrees₁
  | @fails F act s s' e stop R₁ hLeads hMoves hMeans hAgrees =>
      subst hAct
      have hAt' := hAt.later hMoves.retains hBody
      rcases hAt.row_eq with ⟨t, hRow⟩
      refine .step hRow (.refl E _ s) (.precede hLeads.attempt
        (hMoves.widen fun _ _ hc => .inl hc) ?_)
      cases hLeaves with
      | stays => exact hMeans.elim
      | compensates hEnds h =>
          refine (delivers_compensate hAt' hAgrees
            (h.later hMoves.retains)
            fun s₁ hRetains hAgrees₁ => ?_).widen
              fun _ _ hc => .inr hc
          exact .raise (hMeans.later hRetains) hAgrees₁
  | gives => exact (hStepped _ rfl).elim
  | @handsOff F act s s' step x fate o₁ R R₁ hLeads hMoves
      hStep hKept hAgrees hFate hResult hReading =>
      subst hAct hResult hReading
      have hAt' := hAt.later hMoves.retains hBody
      have hLater := hLeaves.later hMoves.retains
      rcases hAt.row_eq with ⟨t, hRow⟩
      refine .step hRow (.refl E _ s) (.precede hLeads.attempt
        (hMoves.widen fun _ _ hc => .inl hc) ?_)
      simp only [Setting.isMissing_of_step hStep, hStep,
        Bool.false_eq_true, if_false]
      have hWhole : E.Delivers hands (.only (.cleanup S.cell)) _ s'
          o R' :=
        Await.delivers_conclusion
          (fun c => Cleanup.outcome c S.cell)
          (.cleanupOutcome S.cell) hKept hAgrees hFate ?_
          ?_ (fun _ _ => rfl) ?_
      · exact hWhole.widen fun _ _ hc => .inr hc
      · intro hNever
        rw [hNever] at hFate
        cases hFate
        exact hLater.stuck
      · rintro c rfl
        exact hAt'.has
      · intro s₁ a hRetains hHere hReads hSettled
        exact delivers_outcome (hAt'.later hRetains rfl) hHere
          hReads hFate hSettled (hLater.later hRetains)
  | @waits F F' act s s' step a l' x o₁ R R₁ hLeads hMoves hStep
      hWaits hStuck hFoot hRest ih =>
      subst hAct
      rw [Direct.landed_eq hStepped] at ih
      refine delivers_enter_suspend hAt hLeads hMoves hBody hStep
        hWaits ?_ hFoot ?_
      · intro hNever
        rcases hStuck hNever with ⟨rfl, rfl⟩
        exact hLeaves.stuck
      · intro s₁ hRests hSettled hAt₁ hRetains hNew
        exact ih s₁ hRests hSettled rfl hAt₁ hNew hStepped
          (hLeaves.later hRetains)

------------------------------------------------------------
-- Building
------------------------------------------------------------

/- Where a new cleanup is kept. -/
def newSite
    (s : Session)
    (compensation : Closure) : Site where
  cell := s.cleanups.size
  entry := s.labels.size
  compensation := compensation

/- One more row is a move. -/
theorem moves_withCleanupRow
    (E : Setting ν)
    (s : Session)
    (row : CleanupCell) :
    E.Moves .none s (s.withCleanupRow row) where
  retains :=
    { Session.Retains.refl (fun _ => True) s with
      has := by
        intro c hc
        cases c with
        | cleanup j =>
            have hLt : j < s.cleanups.size := hc
            change j < (s.cleanups.push row).size
            rw [Array.size_push]
            exact Nat.lt_succ_of_lt hLt
        | _ => exact hc
      same := by
        intro c hc _
        cases c with
        | cleanup j =>
            have hNe : j ≠ s.cleanups.size := Nat.ne_of_lt hc
            simp only [Session.SameAt, Session.withCleanupRow,
              Array.getElem?_push, if_neg hNe]
        | _ => rfl }
  backdrop := rfl
  foreign _ _ := rfl

section New

variable (hm : m < s.machines.size)
variable (body compensation : Closure)
include hm

/- The label of a new cleanup, before there is code under it. -/
theorem bears_entry :
    (((s.withLabel m none).withLabel m
      (some body)).withCleanupRow
        ⟨m, s.labels.size,
          .label (s.withLabel m none).labels.size, compensation,
          false, s.task⟩).Bears m s.labels.size none :=
  (s.bears_withLabel hm none).withLabel (some body)

/- A new cleanup is one, at the start of its body. -/
theorem at_withCleanup :
    (newSite s compensation).At m
      (s.withCleanup m body compensation)
      (s.withLabel m none).labels.size where
  cell := ⟨s.task, by
    simp [Session.withCleanup, Session.relabelled,
      Session.withCleanupRow, Session.withLabel, newSite]⟩
  entry := (bears_entry hm body compensation).relabelled _

theorem bears_withCleanup :
    (s.withCleanup m body compensation).Bears m
      (s.withLabel m none).labels.size (some body) := by
  have hm' : m < (s.withLabel m none).machines.size := by
    simpa [Session.withLabel] using hm
  have hBody :=
    (s.withLabel m none).bears_withLabel hm' (some body)
  have hNe : s.labels.size ≠
      (s.withLabel m none).labels.size :=
    Nat.ne_of_lt (s.bears_withLabel hm none).lt
  exact hBody.relabelled_of_ne hNe _

theorem moves_withCleanup
    (E : Setting ν) :
    E.Moves .none s (s.withCleanup m body compensation) := by
  have hFirst := (E.moves_withLabel s m none).none_trans
    (E.moves_withLabel _ m (some body))
  have hRow := hFirst.none_trans
    (moves_withCleanupRow E _
      ⟨m, s.labels.size,
        .label (s.withLabel m none).labels.size, compensation,
        false, s.task⟩)
  exact hRow.none_trans
    (E.moves_relabelled (bears_entry hm body compensation) _)

/- Building a cleanup enters it. -/
theorem leads_build
    {r : Except Value Value}
    {tasks : Array TaskCell}
    (hTend : Run.tendHere (.entered s.cleanups.size)
      (s.withCleanup m body compensation) =
        some (.ok (),
          (s.withCleanup m body compensation).noting tasks))
    (h : Leads
      (fun c => Label.jump c m
        (.label (newSite s compensation).entry))
      ((s.withCleanup m body compensation).noting tasks)
      r s') :
    Leads (fun c => build c (.machine m) body compensation)
      s r s' := by
  refine .step (a := m) rfl ?_
  refine .step (Label.allocate_eq m s) ?_
  refine .step (Label.install_eq m body _) ?_
  refine .step rfl (.step rfl ?_)
  have hReplace :=
    Label.replace_eq (bears_entry hm body compensation)
      (.cleanupEntry s.cleanups.size)
  exact .step hReplace (.step hTend h)

end New

/-
  A cleanup delivers its body's outcome, once it has been
  compensated.
-/
theorem delivers_build
    {body compensation : Closure}
    (hAgrees : E.Agrees s R)
    (hHas : ∀ c, F c → s.Has c)
    (hBody : E.Proceeds (¬ E.detached) F s R
      (fun c => c.call body []) o₁ R₁)
    (hLeaves : E.Leaves s R₁ compensation o₁ o R') :
    E.Delivers hands F
      (fun c => build c (.machine E.machine) body compensation)
      s (landed o) R' := by
  rcases hLeaves.land with ⟨o₂, hLanded, hSame⟩
  rw [← hSame]
  have hMachine := hAgrees.calm.machine
  rcases Run.tendHere_eq (.entered s.cleanups.size)
      (s.withCleanup E.machine body compensation) with
    ⟨tasks, hTend⟩
  have hNote := moves_noting E
    (s.withCleanup E.machine body compensation) tasks
  have hMoves :=
    (moves_withCleanup hMachine body compensation E).none_trans
      hNote
  have hKept : Session.Retains (fun _ => True) _ _ := hNote.keeps
  have hAt :=
    (at_withCleanup hMachine body compensation).later hKept
      trivial
  have hBears := hNote.retains.bears _ _ _
    (bears_withCleanup hMachine body compensation)
  have hInner := hBody _ hMoves.keeps
    (hAgrees.of_moves hMoves (by
      simp only [Session.memory_noting,
        Session.memory_withCleanup]))
  have hFresh : ¬ s.Has (.cleanup s.cleanups.size) :=
    Nat.lt_irrefl _
  have hEnter : E.Delivers hands _ _ _ _ _ :=
    delivers_enter (.jump hBears hInner) rfl hAt
      (fun hc => hFresh (hHas _ hc)) (Direct.stepped_landed o₁)
      (hLanded.later hMoves.retains)
  have hJump := Setting.Delivers.jump hAt.entry (.call hEnter)
  refine hJump.after hMoves.any ?_ fun r s' hEnd =>
    leads_build hMachine body compensation hTend hEnd
  rintro c hIn (hc | rfl)
  · exact hc
  · exact (hFresh hIn).elim

end Cleanup

end Resumption

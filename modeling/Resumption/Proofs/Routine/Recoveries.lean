import Resumption.Proofs.Routine.Awaits

/-
  A recovery delivers what its body comes to, and what its
  handler makes of a failure of the body.

  While the body is suspended, so is the recovery; it is
  entered again where the body resumes, so that a failure
  after a resumption is handled as well.

  Main declarations:
    * `Setting.Recovers`
    * `Recovery.delivers_enter`
    * `Recovery.delivers_build`
-/

namespace Resumption

open Run
open Direct (Stepped landed)

------------------------------------------------------------
-- What a Recovery Comes To
------------------------------------------------------------

/-
  What a reading comes to after a protected body: an
  ordinary error is handled, and all else that stops it is
  passed on.
-/
inductive Setting.Recovers
    {ν : Type}
    (E : Setting ν)
    (hands : Prop)
    (s : Session)
    (R : Reading ν)
    (handler : Closure) :
    Except (Stop ν) Value → Except (Stop ν) Value →
      Reading ν → Prop where
  | keeps {v} :
      Recovers E hands s R handler (.ok v) (.ok v) R
  | passes
      {stop}
      (hPasses : stop.handled? = none) :
      Recovers E hands s R handler (.error stop) (.error stop) R
  | handles
      {e o R'}
      (hOrdinary : e.isDefect = false)
      (h : E.Proceeds hands .none s R
        (fun c => c.call handler [e]) o R') :
      Recovers E hands s R handler (.error (.thrown e)) o R'

namespace Setting.Recovers

variable {ν : Type}
variable {E : Setting ν}
variable {hands : Prop}
variable {s s₁ : Session}
variable {R R' : Reading ν}
variable {handler : Closure}
variable {o o' : Except (Stop ν) Value}

theorem later
    {kept : Cell → Prop}
    (h : E.Recovers hands s R handler o o' R')
    (hRetains : Session.Retains kept s s₁) :
    E.Recovers hands s₁ R handler o o' R' := by
  cases h with
  | keeps => exact .keeps
  | passes hPasses => exact .passes hPasses
  | handles hOrdinary h =>
      exact .handles hOrdinary (h.later hRetains.bare)

/- Where the body is stuck, so is all. -/
theorem stuck
    {x : ν}
    (h : E.Recovers hands s R handler (.error (.stuck x)) o R') :
    o = .error (.stuck x) ∧ R' = R := by
  cases h
  exact ⟨rfl, rfl⟩

/- Behind its label a body comes to the same. -/
theorem land
    (h : E.Recovers hands s R handler o o' R') :
    ∃ o₁, E.Recovers hands s R handler (landed o) o₁ R' ∧
      landed o₁ = landed o' := by
  cases h with
  | keeps => exact ⟨_, .keeps, rfl⟩
  | @passes stop hPasses =>
      cases stop with
      | given v => exact ⟨_, .passes rfl, rfl⟩
      | _ => exact ⟨_, .passes hPasses, rfl⟩
  | handles hOrdinary h => exact ⟨_, .handles hOrdinary h, rfl⟩

end Setting.Recovers

------------------------------------------------------------
-- Recoveries in Progress
------------------------------------------------------------

/- Where a recovery is kept, and its handler. -/
structure Recovery.Site where
  cell : Ref
  entry : Ref
  handler : Closure

/- A recovery is under way, at a label of its body. -/
structure Recovery.Site.At
    (S : Recovery.Site)
    (m : Ref)
    (s : Session)
    (l : Ref) : Prop where
  cell : ∃ t, s.recoveries[S.cell]? =
    some ⟨m, S.entry, .label l, S.handler, t⟩
  entry : s.Bears m S.entry (some (.recoveryEntry S.cell))

/- The cells that a recovery comes back to. -/
def Recovery.Site.footprint
    (S : Recovery.Site)
    (F : Footprint) : Footprint :=
  F.or (.only (.recovery S.cell))

namespace Session

/- A session whose recovery resumes at another label. -/
def recovering
    (s : Session)
    (i l : Ref) : Session :=
  { s with
    recoveries :=
      s.recoveries.modify i ({ · with inner := .label l }) }

/- A session with one more row for a recovery. -/
def withRecoveryRow
    (s : Session)
    (row : RecoveryCell) : Session :=
  { s with recoveries := s.recoveries.push row }

/- A session with a new recovery. -/
def withRecovery
    (s : Session)
    (m : Ref)
    (body handler : Closure) : Session :=
  let s₁ := s.withLabel m none
  let inner := s₁.labels.size
  let s₂ := (s₁.withLabel m (some body)).withRecoveryRow
    ⟨m, s.labels.size, .label inner, handler, s.task⟩
  s₂.relabelled s.labels.size
    (.recoveryEntry s.recoveries.size)

@[simp] theorem memory_recovering
    (s : Session)
    (i l : Ref)
    (own : Territory) :
    (s.recovering i l).memory own = s.memory own := by
  simp only [memory, recovering]

@[simp] theorem memory_withRecovery
    (s : Session)
    (m : Ref)
    (body handler : Closure)
    (own : Territory) :
    (s.withRecovery m body handler).memory own =
      s.memory own := by
  simp only [memory, withRecovery, withRecoveryRow, relabelled,
    withLabel]

end Session

namespace Recovery

variable {ν : Type}
variable {E : Setting ν}
variable {hands : Prop}
variable {F : Footprint}
variable {S : Site}
variable {s s₁ s' : Session}
variable {R R₁ R' : Reading ν}
variable {o o₁ : Except (Stop ν) Value}
variable {a l l' m : Ref}
variable {x : ν}
variable {fate : Fate}

theorem Site.At.row_eq
    (h : S.At m s l) :
    ∃ t, Table.recoveries.row S.cell s =
      some (.ok ⟨m, S.entry, .label l, S.handler, t⟩, s) := by
  rcases h.cell with ⟨t, hRow⟩
  refine ⟨t, ?_⟩
  have hEnd : Table.recoveries.row S.cell s =
      some (.ok (s.recoveries.getD S.cell default), s) := rfl
  rw [hEnd]
  simp [Array.getD_eq_getD_getElem?, hRow]

theorem Site.At.has
    (h : S.At m s l) :
    s.Has (.recovery S.cell) := by
  rcases h.cell with ⟨t, hRow⟩
  exact (Array.getElem?_eq_some_iff.mp hRow).1

/- A recovery that is kept is where it was. -/
theorem Site.At.later
    {kept : Cell → Prop}
    (h : S.At m s l)
    (hRetains : Session.Retains kept s s₁)
    (hKept : kept (.recovery S.cell)) :
    S.At m s₁ l where
  cell := by
    rcases h.cell with ⟨t, hRow⟩
    have hSame := hRetains.same _ h.has hKept
    exact ⟨t, Eq.trans hSame hRow⟩
  entry := hRetains.bears _ _ _ h.entry

theorem Site.At.recovering
    (h : S.At m s l)
    (l' : Ref) :
    S.At m (s.recovering S.cell l') l' where
  cell := by
    rcases h.cell with ⟨t, hRow⟩
    refine ⟨t, ?_⟩
    simp [Session.recovering, Array.getElem?_modify, hRow]
  entry := h.entry

/- Changing where a body resumes touches its recovery alone. -/
theorem moves_recovering
    (E : Setting ν)
    (s : Session)
    (i l : Ref) :
    E.Moves (.only (.recovery i)) s (s.recovering i l) where
  retains :=
    { Session.Retains.refl (fun _ => True) s with
      has := by
        intro c hc
        cases c with
        | recovery j =>
            simpa [Session.recovering, Session.Has] using hc
        | _ => exact hc
      same := by
        intro c _ hNot
        cases c with
        | recovery j =>
            have hNe : i ≠ j := by
              rintro rfl
              exact hNot rfl
            simp [Session.SameAt, Session.recovering,
              Array.getElem?_modify, hNe]
        | _ => rfl }
  backdrop := rfl
  foreign _ _ := rfl

------------------------------------------------------------
-- Ends of the Body
------------------------------------------------------------

/- What a failure of the body comes to. -/
theorem delivers_recover
    {e : Value}
    {stop : Stop ν}
    {handler : Closure}
    (hMeans : E.Means s stop e)
    (hAgrees : E.Agrees s R)
    (h : E.Recovers hands s R handler (.error stop) o R') :
    E.Delivers hands .none (fun c => recover c handler e) s o R' := by
  cases h with
  | passes hPasses =>
      simp only [recover, hMeans.isDefect hPasses, if_true]
      exact .raise hMeans hAgrees
  | handles hOrdinary h =>
      cases hMeans
      simp only [recover, hOrdinary, Bool.false_eq_true,
        if_false]
      exact h s (.refl _ s) hAgrees

/- What the outcome that the body handed off to comes to. -/
theorem delivers_outcome
    (hAt : S.At E.machine s l)
    (hAgrees : E.Agrees s R)
    (hReads : E.Reads s a (E.place x))
    (hFate : E.fates x = some fate)
    (hSettled : s.Settled (E.place x))
    (h : E.Recovers hands s (R.awaiting x) S.handler
      (fate.result x) o R') :
    E.Delivers hands .none
      (fun c => Recovery.outcome c S.cell (.awaiter a))
      s o R' := by
  rcases hAgrees.calm.settledAs hFate hSettled with
    ⟨outcome, hAs, hMatches⟩
  have hResult := Awaiter.result_eq hReads.session hAs
  have hNow := hAgrees.awaiting x
  refine .precede (Leads.of_eq hResult).attempt
    (.refl E .none s) ?_
  generalize fate.result x = o₁ at h hMatches
  generalize outcome.toExcept = r at hMatches
  match o₁, r with
  | .ok v, .ok w =>
      cases hMatches
      cases h with
      | keeps => exact .finish v hNow
  | .error stop, .error e =>
      rcases hAt.row_eq with ⟨t, hRow⟩
      exact .step hRow (.refl E .none s)
        (delivers_recover hMatches hNow h)

/- The body is entered again where it resumes. -/
theorem Site.At.step_row
    {next : Caller → RecoveryCell → Run Value}
    (hAt : S.At E.machine s l)
    (h : ∀ t, E.Delivers hands F
      (fun c => next c ⟨E.machine, S.entry, .label l,
        S.handler, t⟩) s o R') :
    E.Delivers hands F
      (fun c => Table.recoveries.row S.cell >>= next c)
      s o R' := by
  rcases hAt.row_eq with ⟨t, hRow⟩
  exact .step hRow (.refl E F s) (h t)

------------------------------------------------------------
-- Entering
------------------------------------------------------------

/-
  The induction is on how the body goes on: each time it
  suspends, the recovery is entered where it resumes.
-/
theorem delivers_enter
    {act : Caller → Run Value}
    (h : E.Delivers (¬ E.detached) F act s o₁ R₁)
    (hAct : act = fun c => Label.jump c E.machine (.label l))
    (hAt : S.At E.machine s l)
    (hBody : ¬ F (.recovery S.cell))
    (hStepped : Stepped o₁)
    (hRecovers : E.Recovers hands s R₁ S.handler o₁ o R') :
    E.Delivers hands (S.footprint F) (fun c => enter c S.cell)
      s o R' := by
  induction h generalizing l with
  | @finishes F act s s' step v R₁ hLeads hMoves hStep hAgrees =>
      subst hAct
      refine hAt.step_row fun t => ?_
      refine .precede hLeads.attempt
        (hMoves.widen fun _ _ hc => .inl hc) ?_
      simp only [Setting.isMissing_of_step hStep, hStep,
        Bool.false_eq_true, if_false]
      cases hRecovers with
      | keeps =>
          exact .finishes (.pure step) (.refl E _ s') hStep
            hAgrees
  | @fails F act s s' e stop R₁ hLeads hMoves hMeans hAgrees =>
      subst hAct
      refine hAt.step_row fun t => ?_
      refine .precede hLeads.attempt
        (hMoves.widen fun _ _ hc => .inl hc) ?_
      exact (delivers_recover hMeans hAgrees
        (hRecovers.later hMoves.retains)).widen
          fun _ _ hc => hc.elim
  | gives => exact (hStepped _ rfl).elim
  | @handsOff F act s s' step x fate o₁ R R₁ hLeads hMoves
      hStep hKept hAgrees hFate hResult hReading =>
      subst hAct hResult hReading
      refine hAt.step_row fun t => ?_
      refine .precede hLeads.attempt
        (hMoves.widen fun _ _ hc => .inl hc) ?_
      simp only [Setting.isMissing_of_step hStep, hStep,
        Bool.false_eq_true, if_false]
      have hAt' := hAt.later hMoves.retains hBody
      have hLater := hRecovers.later hMoves.retains
      have hWhole : E.Delivers hands (.only (.recovery S.cell)) _ s'
          o R' :=
        Await.delivers_conclusion
          (fun c => Recovery.outcome c S.cell)
          (.recoveryOutcome S.cell) hKept hAgrees hFate ?_
          ?_ (fun _ _ => rfl) ?_
      · exact hWhole.widen fun _ _ hc => .inr hc
      · intro hNever
        rw [hNever] at hFate
        cases hFate
        exact hLater.stuck
      · rintro c rfl
        exact hAt'.has
      · intro s₁ a hRetains hHere hReads hSettled
        exact (delivers_outcome (hAt'.later hRetains rfl) hHere
          hReads hFate hSettled (hLater.later hRetains)).widen
            fun _ _ hc => hc.elim
  | @waits F F' act s s' step a l' x o₁ R R₁ hLeads hMoves hStep
      hWaits hStuck hFoot hRest ih =>
      subst hAct
      rw [Direct.landed_eq hStepped] at ih
      have hChange := moves_recovering E s' S.cell l'
      have hAt' :=
        (hAt.later hMoves.retains hBody).recovering l'
      have hLater := (hRecovers.later hMoves.retains).later
        hChange.retains
      -- The cells that are come back to from now on.
      have hNew : ¬ F' (.recovery S.cell) := fun hc =>
        hBody ((hFoot _ hc).2 hAt.has)
      have hHas : ∀ c, S.footprint F' c →
          (s'.recovering S.cell l').Has c := by
        rintro c (hc | rfl)
        · exact hChange.retains.has c (hFoot c hc).1
        · exact hAt'.has
      have hOld : ∀ c, s.Has c → S.footprint F' c →
          S.footprint F c := by
        rintro c hIn (hc | hc)
        · exact .inl ((hFoot c hc).2 hIn)
        · exact .inr hc
      have hSuspend : E.Delivers hands (S.footprint F')
          (fun _ => Run.newStep
            (.suspend (.awaiter a) (.label S.entry)))
          (s'.recovering S.cell l') o R' := by
        refine .suspend
          (hWaits.of_moves hChange (s'.memory_recovering _ _ _))
          ?_ hHas ?_
        · intro hNever
          rcases hStuck hNever with ⟨rfl, rfl⟩
          exact hRecovers.stuck
        · intro s₁ hRests hSettled
          refine .jump (hRests.retains.bears _ _ _ hAt'.entry)
            (.call ?_)
          refine ih s₁ ?_ hSettled rfl
            (hAt'.later hRests.retains (.inr rfl)) hNew hStepped
            (hLater.later hRests.retains)
          refine .of_moves hChange hRests
            (s'.memory_recovering _ _ _) ?_
          intro c _ hc
          refine ⟨?_, .inl hc⟩
          rintro rfl
          exact hNew hc
      have hWhole : E.Moves (S.footprint F) s
          (s'.recovering S.cell l') :=
        hMoves.trans hChange (fun _ _ hc => .inl hc)
          (fun _ _ hc => .inr hc)
      refine hSuspend.after hWhole hOld fun r s₂ hEnd => ?_
      rcases hAt.row_eq with ⟨t, hRow⟩
      refine .step hRow (hLeads.attempt.bind ?_)
      simp only [Setting.isMissing_of_step hStep, hStep,
        Bool.false_eq_true, if_false]
      exact .step rfl hEnd

------------------------------------------------------------
-- Building
------------------------------------------------------------

/- Where a new recovery is kept. -/
def newSite
    (s : Session)
    (handler : Closure) : Site where
  cell := s.recoveries.size
  entry := s.labels.size
  handler := handler

/- One more row is a move. -/
theorem moves_withRecoveryRow
    (E : Setting ν)
    (s : Session)
    (row : RecoveryCell) :
    E.Moves .none s (s.withRecoveryRow row) where
  retains :=
    { Session.Retains.refl (fun _ => True) s with
      has := by
        intro c hc
        cases c with
        | recovery j =>
            have hLt : j < s.recoveries.size := hc
            change j < (s.recoveries.push row).size
            rw [Array.size_push]
            exact Nat.lt_succ_of_lt hLt
        | _ => exact hc
      same := by
        intro c hc _
        cases c with
        | recovery j =>
            have hNe : j ≠ s.recoveries.size := Nat.ne_of_lt hc
            simp only [Session.SameAt, Session.withRecoveryRow,
              Array.getElem?_push, if_neg hNe]
        | _ => rfl }
  backdrop := rfl
  foreign _ _ := rfl

section New

variable (hm : m < s.machines.size)
variable (body handler : Closure)
include hm

/- The label of a new recovery, before there is code under it. -/
theorem bears_entry :
    (((s.withLabel m none).withLabel m
      (some body)).withRecoveryRow
        ⟨m, s.labels.size,
          .label (s.withLabel m none).labels.size, handler,
          s.task⟩).Bears m s.labels.size none :=
  (s.bears_withLabel hm none).withLabel (some body)

/- A new recovery is one, at the start of its body. -/
theorem at_withRecovery :
    (newSite s handler).At m (s.withRecovery m body handler)
      (s.withLabel m none).labels.size where
  cell := ⟨s.task, by
    simp [Session.withRecovery, Session.relabelled,
      Session.withRecoveryRow, Session.withLabel, newSite]⟩
  entry := (bears_entry hm body handler).relabelled _

theorem bears_withRecovery :
    (s.withRecovery m body handler).Bears m
      (s.withLabel m none).labels.size (some body) := by
  have hm' : m < (s.withLabel m none).machines.size := by
    simpa [Session.withLabel] using hm
  have hBody :=
    (s.withLabel m none).bears_withLabel hm' (some body)
  have hNe : s.labels.size ≠
      (s.withLabel m none).labels.size :=
    Nat.ne_of_lt (s.bears_withLabel hm none).lt
  exact hBody.relabelled_of_ne hNe _

theorem moves_withRecovery
    (E : Setting ν) :
    E.Moves .none s (s.withRecovery m body handler) := by
  have hFirst := (E.moves_withLabel s m none).none_trans
    (E.moves_withLabel _ m (some body))
  have hRow := hFirst.none_trans
    (moves_withRecoveryRow E _
      ⟨m, s.labels.size,
        .label (s.withLabel m none).labels.size, handler,
        s.task⟩)
  exact hRow.none_trans
    (E.moves_relabelled (bears_entry hm body handler) _)

/- Building a recovery enters it. -/
theorem leads_build
    {r : Except Value Value}
    (h : Leads
      (fun c => Label.jump c m
        (.label (newSite s handler).entry))
      (s.withRecovery m body handler) r s') :
    Leads (fun c => build c (.machine m) body handler)
      s r s' := by
  refine .step (a := m) rfl ?_
  refine .step (Label.allocate_eq m s) ?_
  refine .step (Label.install_eq m body _) ?_
  refine .step rfl (.step rfl ?_)
  have hReplace :=
    Label.replace_eq (bears_entry hm body handler)
      (.recoveryEntry s.recoveries.size)
  exact .step hReplace h

end New

/- A recovery delivers what becomes of its body's outcome. -/
theorem delivers_build
    {body handler : Closure}
    (hAgrees : E.Agrees s R)
    (hBody : E.Proceeds (¬ E.detached) .none s R
      (fun c => c.call body []) o₁ R₁)
    (hRecovers : E.Recovers hands s R₁ handler o₁ o R') :
    E.Delivers hands .none
      (fun c => build c (.machine E.machine) body handler)
      s (landed o) R' := by
  rcases hRecovers.land with ⟨o₂, hLanded, hSame⟩
  rw [← hSame]
  have hMachine := hAgrees.calm.machine
  have hAt := at_withRecovery hMachine body handler
  have hMoves := moves_withRecovery hMachine body handler E
  have hInner := hBody _ hMoves.keeps
    (hAgrees.of_moves hMoves (s.memory_withRecovery _ _ _ _))
  have hEnter := delivers_enter
    (.jump (bears_withRecovery hMachine body handler) hInner)
    rfl hAt (fun hc => hc) (Direct.stepped_landed o₁)
    (hLanded.later hMoves.retains)
  have hJump := Setting.Delivers.jump hAt.entry (.call hEnter)
  refine hJump.after hMoves ?_ fun r s' hEnd =>
    leads_build hMachine body handler hEnd
  rintro c hIn (hc | rfl)
  · exact hc
  · exact (Nat.lt_irrefl _ hIn).elim

end Recovery

end Resumption

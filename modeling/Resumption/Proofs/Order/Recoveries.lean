import Resumption.Proofs.Order.Bodies
import Resumption.Proofs.Routine.Recoveries

/-
  A recovery hands its handler exactly what its body failed
  with.

  A run of a recovery resumes each of its suspensions at most
  once.  As long as the body suspends, so does the recovery,
  and it goes on inside the body.  When the body hands off,
  the recovery waits for that.  When one of them has ended,
  a failure that is no defect is handed to the handler, and
  the run is over: what the handler does is outside of it.

  Main declarations:
    * `Recovery.Stage`, `Recovery.Stage.Holds`
    * `Recovery.Ended`, `Recovery.Becomes`
    * `Recovery.Turn`, `Recovery.ensures_turn`
    * `Recovery.Runs`
    * `Recovery.handles_what_the_body_failed_with`
-/

namespace Resumption

open Session World

namespace Recovery

variable {S : Site}
variable {s s₁ s' : Session}
variable {caller : Caller}
variable {m l : Ref}

------------------------------------------------------------
-- Stages
------------------------------------------------------------

/-
  Where a run of a recovery goes on: inside its body, at the
  label where this resumes, or at a label that waits for what
  the body handed off to.
-/
inductive Stage where
  | inside (resume : Value)
  | waiting (l : Ref) (awaiter : Value)

/- The label of the recovery to jump to at a stage. -/
def Stage.label
    (S : Site) : Stage → Ref
  | .inside _ => S.entry
  | .waiting l _ => l

/- The code of the recovery to enter at a stage. -/
def Stage.code
    (S : Site) : Stage → Closure
  | .inside _ => .recoveryEntry S.cell
  | .waiting _ awaiter => .recoveryOutcome S.cell awaiter

/- The recovery is at a stage, and nobody has disturbed it. -/
structure Stage.Holds
    (S : Site)
    (m : Ref)
    (s : Session)
    (stage : Stage) : Prop where
  row : ∃ inner t, s.recoveries[S.cell]? =
      some ⟨m, S.entry, inner, S.handler, t⟩ ∧
    ∀ resume, stage = .inside resume → inner = resume
  bears : s.Bears m (stage.label S) (some (stage.code S))

------------------------------------------------------------
-- Ends
------------------------------------------------------------

/-
  The body's execution ends, when it is resumed at a stage:
  by a failure, with a value, or by what the future that it
  handed off to, or another awaitable, comes to.
-/
inductive Ended
    (caller : Caller)
    (m : Ref)
    (s : Session) :
    Stage → Except Value Value → Session → Prop where
  | fails
      {resume e s'}
      (hBody : Label.jump caller m resume s =
        some (.error e, s')) :
      Ended caller m s (.inside resume) (.error e) s'
  | finishes
      {resume step v s'}
      (hBody : Label.jump caller m resume s =
        some (.ok step, s'))
      (hStep : step.step? = some (.finish v)) :
      Ended caller m s (.inside resume) (.ok v) s'
  | handsOff
      {resume step v awaiter isDone own s₁ s₂ s₃ s'}
      (hBody : Label.jump caller m resume s =
        some (.ok step, s₁))
      (hStep : step.step? = some (.handOff v))
      (hAwaiter : Awaiter.ofValue caller v s₁ =
        some (.ok awaiter, s₂))
      (hCompleted : Awaiter.completed caller awaiter s₂ =
        some (.ok isDone, s₃))
      (hDone : isDone.truthy = true)
      (hResult : Awaiter.result caller awaiter s₃ =
        some (own, s')) :
      Ended caller m s (.inside resume) own s'
  | settles
      {l awaiter own s'}
      (hResult : Awaiter.result caller awaiter s =
        some (own, s')) :
      Ended caller m s (.waiting l awaiter) own s'

/- What a jump to a label of a recovery came to. -/
inductive Came where
  /- There is more to come, at a stage. -/
  | goes (stage : Stage)
  /- The body ended with a value. -/
  | returns (v : Value)
  /- The body ended with a failure that is handled. -/
  | handles (e : Value)
  /- The body ended with a defect. -/
  | escapes (e : Value)
  /- What was handed off to gave no awaiter. -/
  | unawaitable (e : Value)
  /- The body ended with what is no step. -/
  | strays

/-
  A body that has ended with a step has finished, or handed
  off to what had an outcome.
-/
theorem Ended.step
    {resume step : Value}
    {own : Except Value Value}
    {s₂ : Session}
    (h : Ended caller m s (.inside resume) own s')
    (hBody : Label.jump caller m resume s =
      some (.ok step, s₂)) :
    (∃ v, step.step? = some (.finish v) ∧ own = .ok v ∧
      s' = s₂) ∨
    ∃ v awaiter isDone s₃ s₄,
      step.step? = some (.handOff v) ∧
      Awaiter.ofValue caller v s₂ = some (.ok awaiter, s₃) ∧
      Awaiter.completed caller awaiter s₃ =
        some (.ok isDone, s₄) ∧
      isDone.truthy = true ∧
      Awaiter.result caller awaiter s₄ = some (own, s') := by
  cases h with
  | fails hBody' =>
      rw [hBody] at hBody'
      cases hBody'
  | finishes hBody' hStep =>
      rw [hBody] at hBody'
      cases hBody'
      exact .inl ⟨_, hStep, rfl, rfl⟩
  | handsOff hBody' hStep hAwaiter hCompleted hDone hResult =>
      rw [hBody] at hBody'
      cases hBody'
      exact .inr ⟨_, _, _, _, _, hStep, hAwaiter, hCompleted,
        hDone, hResult⟩

/- A body ends in one way. -/
theorem Ended.unique
    {stage : Stage}
    {own own' : Except Value Value}
    {s₂ : Session}
    (h : Ended caller m s stage own s')
    (h' : Ended caller m s stage own' s₂) :
    own = own' ∧ s' = s₂ := by
  cases h with
  | fails hBody =>
      cases h' with
      | fails hBody' =>
          rw [hBody] at hBody'
          cases hBody'
          exact ⟨rfl, rfl⟩
      | finishes hBody' _ =>
          rw [hBody] at hBody'
          cases hBody'
      | handsOff hBody' _ _ _ _ _ =>
          rw [hBody] at hBody'
          cases hBody'
  | finishes hBody hStep =>
      rcases h'.step hBody with
        ⟨v, hStep', rfl, rfl⟩ | ⟨_, _, _, _, _, hStep', _⟩
      · rw [hStep] at hStep'
        cases hStep'
        exact ⟨rfl, rfl⟩
      · rw [hStep] at hStep'
        cases hStep'
  | handsOff hBody hStep hAwaiter hCompleted _ hResult =>
      rcases h'.step hBody with
        ⟨v, hStep', _⟩ | ⟨_, _, _, _, _, hStep', hAwaiter',
          hCompleted', _, hResult'⟩
      · rw [hStep] at hStep'
        cases hStep'
      · rw [hStep] at hStep'
        cases hStep'
        rw [hAwaiter] at hAwaiter'
        cases hAwaiter'
        rw [hCompleted] at hCompleted'
        cases hCompleted'
        rw [hResult] at hResult'
        cases hResult'
        exact ⟨rfl, rfl⟩
  | settles hResult =>
      cases h' with
      | settles hResult' =>
          rw [hResult] at hResult'
          cases hResult'
          exact ⟨rfl, rfl⟩

/-
  What becomes of the way in which the body ended: a value is
  returned, a defect is thrown on, and any other failure is
  what the handler is called with, once.
-/
inductive Becomes
    (caller : Caller)
    (handler : Closure)
    (s : Session) :
    Except Value Value → Came →
      Except Value Value → Session → Prop where
  | returned
      {v r s'}
      (hYields : Yields r (.ok v))
      (hIdles : s.Idles s') :
      Becomes caller handler s (.ok v) (.returns v) r s'
  | escaped
      {e}
      (hDefect : e.isDefect = true) :
      Becomes caller handler s (.error e) (.escapes e)
        (.error e) s
  | handled
      {e r s'}
      (hDefect : e.isDefect = false)
      (hCall : caller.call handler [e] s = some (r, s')) :
      Becomes caller handler s (.error e) (.handles e) r s'

/- The handler is called with what the body failed with alone. -/
theorem Becomes.handles_iff
    {handler : Closure}
    {own r : Except Value Value}
    {came : Came}
    (h : Becomes caller handler s own came r s')
    (e : Value) :
    came = .handles e ↔ own = .error e ∧ e.isDefect = false := by
  cases h with
  | returned _ _ => simp
  | @escaped e' hDefect =>
      refine ⟨nofun, ?_⟩
      rintro ⟨⟨⟩, hNot⟩
      rw [hDefect] at hNot
      cases hNot
  | @handled e' _ _ hDefect _ =>
      constructor
      · rintro ⟨⟩
        exact ⟨rfl, hDefect⟩
      · rintro ⟨⟨⟩, _⟩
        rfl

------------------------------------------------------------
-- Turns
------------------------------------------------------------

/- What a jump to a label of a recovery does at a stage. -/
inductive Turn
    (caller : Caller)
    (S : Site)
    (m : Ref)
    (s : Session) :
    Stage → Came → Except Value Value → Session → Prop where
  | ends
      {stage own came r s₁ s'}
      (hEnded : Ended caller m s stage own s₁)
      (hBecomes : Becomes caller S.handler s₁ own came r s') :
      Turn caller S m s stage came r s'
  /- The body suspends: resume it at the entry. -/
  | suspends
      {resume step a resume' s₁ made s'}
      (hBody : Label.jump caller m resume s =
        some (.ok step, s₁))
      (hStep : step.step? = some (.suspend a resume'))
      (hIdles : s₁.Idles s')
      (hMade : made.step? =
        some (.suspend a (.label S.entry)))
      (hRow : ∃ t, s'.recoveries[S.cell]? =
        some ⟨m, S.entry, resume', S.handler, t⟩) :
      Turn caller S m s (.inside resume)
        (.goes (.inside resume')) (.ok made) s'
  /- What was handed off to is pending: wait for it. -/
  | waits
      {resume step v awaiter isDone s₁ s₂ s₃ made l s'}
      (hBody : Label.jump caller m resume s =
        some (.ok step, s₁))
      (hStep : step.step? = some (.handOff v))
      (hAwaiter : Awaiter.ofValue caller v s₁ =
        some (.ok awaiter, s₂))
      (hCompleted : Awaiter.completed caller awaiter s₂ =
        some (.ok isDone, s₃))
      (hPending : isDone.truthy = false)
      (hMade : made.step? = some (.suspend awaiter (.label l)))
      (hHolds : (Stage.waiting l awaiter).Holds S m s') :
      Turn caller S m s (.inside resume)
        (.goes (.waiting l awaiter)) (.ok made) s'
  | unawaitable
      {resume step v e s₁ s'}
      (hBody : Label.jump caller m resume s =
        some (.ok step, s₁))
      (hStep : step.step? = some (.handOff v))
      (hFails : Awaiter.ofValue caller v s₁ =
          some (.error e, s') ∨
        ∃ awaiter s₂,
          Awaiter.ofValue caller v s₁ = some (.ok awaiter, s₂) ∧
          Awaiter.completed caller awaiter s₂ =
            some (.error e, s')) :
      Turn caller S m s (.inside resume) (.unawaitable e)
        (.error e) s'
  | strays
      {resume step s₁ r s'}
      (hBody : Label.jump caller m resume s =
        some (.ok step, s₁))
      (hStep : step.step? = none)
      (hUnchecked :
        (s'.machines.getD m default).assertions = false)
      (hGround : s₁.SameGround s') :
      Turn caller S m s (.inside resume) .strays r s'

/- A recovery's row stays what it was built as. -/
theorem row_later
    {inner : Value}
    {t : Option Ref}
    (hRow : s.recoveries[S.cell]? =
      some ⟨m, S.entry, inner, S.handler, t⟩)
    (hGrows : s.Grows s') :
    ∃ inner' t', s'.recoveries[S.cell]? =
      some ⟨m, S.entry, inner', S.handler, t'⟩ := by
  rcases hGrows.recoveries S.cell _ hRow with
    ⟨⟨m', entry', inner', handler', t'⟩, hRow', hBecomes⟩
  obtain rfl : m' = m := hBecomes.machine
  obtain rfl : entry' = S.entry := hBecomes.entry
  obtain rfl : handler' = S.handler := hBecomes.handler
  exact ⟨inner', t', hRow'⟩

theorem getD_row
    {cell : RecoveryCell}
    (hRow : s.recoveries[S.cell]? = some cell) :
    (Table.recoveries.rows s).getD S.cell default = cell := by
  simp [Table.recoveries, hRow]

/- A failure of the body is handed over, unless it is a defect. -/
theorem ensures_recover
    (handler : Closure)
    (e : Value)
    (s : Session) :
    (recover caller handler e).Ensures s fun r s' =>
      ∃ came, Becomes caller handler s (.error e) came r s' := by
  unfold recover
  split
  · next hDefect =>
      exact Run.ensures_raise.mpr ⟨_, .escaped hDefect⟩
  · next hDefect =>
      intro r s' hCall
      exact ⟨_, .handled (by simpa using hDefect) hCall⟩

/- What an awaiter comes to becomes of the recovery. -/
theorem ensures_outcome
    (hs : s.Orderly)
    (hc : Ordering.Serves caller)
    {inner : Value}
    {t : Option Ref}
    (hRow : s.recoveries[S.cell]? =
      some ⟨m, S.entry, inner, S.handler, t⟩)
    (awaiter : Value) :
    (outcome caller S.cell awaiter).Ensures s fun r s' =>
      ∃ own s₁ came,
        Awaiter.result caller awaiter s = some (own, s₁) ∧
        Becomes caller S.handler s₁ own came r s' := by
  unfold outcome
  have hKeeps := (Ordering.hosts hc).keeps_result hc
    (Ordering.sound hs) awaiter
  refine Run.Ensures.bind (Run.ensures_attempt.mpr
    (((Run.ensures_self _ s).and hKeeps).mono ?_))
  rintro own s₁ ⟨hResult, hMoves⟩
  cases own with
  | ok v =>
      refine (Run.ensures_newStep _ s₁).mono ?_
      rintro r _ ⟨rfl, made, rfl, hMade⟩
      exact ⟨_, s₁, _, hResult,
        .returned hMade hMoves.sound.inv.idles_stamped⟩
  | error e =>
      refine Run.ensures_row_bind.mpr ?_
      rcases row_later hRow hMoves.rel with ⟨_, _, hRow₁⟩
      rw [getD_row hRow₁]
      refine (ensures_recover S.handler e s₁).mono ?_
      rintro r s' ⟨came, hBecomes⟩
      exact ⟨_, s₁, came, hResult, hBecomes⟩

/- Entering a recovery takes its turn. -/
theorem ensures_enter
    {resume : Value}
    (hs : s.Orderly)
    (hc : Ordering.Serves caller)
    (hHolds : (Stage.inside resume).Holds S m s) :
    (enter caller S.cell).Ensures s fun r s' =>
      ∃ came, Turn caller S m s (.inside resume) came r s' := by
  rcases hHolds.row with ⟨inner, t, hRow, hInner⟩
  obtain rfl := hInner resume rfl
  have hm := hHolds.bears.lt_machines
  unfold enter
  refine Run.ensures_row_bind.mpr ?_
  rw [getD_row hRow]
  have hKeeps : Ordering.Keeps (Label.jump caller m inner) s :=
    Ordering.founds.keeps_jump hc (Ordering.sound hs) m inner
  refine Run.Ensures.bind (Run.ensures_attempt.mpr
    (Run.Ensures.mono (((Run.ensures_self _ s).and hKeeps).and
      (Label.ensures_step caller m inner s)) ?_))
  rintro r₁ s₁ ⟨⟨hBody, hMoves⟩, hSteps⟩
  have hs₁ := hMoves.sound.inv
  have hm₁ : m < s₁.machines.size :=
    Nat.lt_of_lt_of_le hm hMoves.rel.machines.size_le
  rcases row_later hRow hMoves.rel with ⟨inner₁, t₁, hRow₁⟩
  cases r₁ with
  | error e =>
      refine (ensures_recover S.handler e s₁).mono ?_
      rintro r s' ⟨came, hBecomes⟩
      exact ⟨came, .ends (.fails hBody) hBecomes⟩
  | ok step =>
      have hUnchecked : step.step? = none →
          (s₁.machines.getD m default).assertions = false := by
        intro hNone
        refine Bool.eq_false_iff.mpr fun hChecks => ?_
        have hIs := hSteps hChecks step rfl
        simp [Value.isStep, hNone] at hIs
      change (if step.isMissing = true then _ else _ :
        Run Value).Ensures s₁ _
      split
      · next hMissing =>
          have hNone : step.step? = none := by
            cases step <;> first | rfl | cases hMissing
          refine Run.Ensures.bind (Run.Ensures.bind
            (Run.ensures_modifyGet.mpr
              (Run.ensures_pure.mpr ?_)))
          exact Run.ensures_raise.mpr
            ⟨_, .strays hBody hNone (hUnchecked hNone)
              ⟨rfl, rfl, rfl, rfl, rfl, rfl, rfl, rfl⟩⟩
      · cases hStep : step.step? with
        | none =>
            exact Run.ensures_pure.mpr
              ⟨_, .strays hBody hStep (hUnchecked hStep)
                ⟨rfl, rfl, rfl, rfl, rfl, rfl, rfl, rfl⟩⟩
        | some view =>
        cases view with
        | finish v =>
            exact Run.ensures_pure.mpr
              ⟨_, .ends (.finishes hBody hStep)
                (.returned hStep (.refl hs₁))⟩
        | suspend a resume' =>
            have h₂ := Ordering.founds.alterRecovery S.cell
              resume' (Ordering.sound hs₁)
            refine Run.ensures_alter_bind.mpr
              ((Run.ensures_newStep _ _).mono ?_)
            rintro r _ ⟨rfl, made, rfl, hMade⟩
            have hIdles : s₁.Idles _ :=
              ⟨h₂.sound.inv, h₂.rel, rfl⟩
            refine ⟨_, .suspends hBody hStep
              (hIdles.trans hIdles.orderly.idles_stamped) hMade
              ⟨t₁, ?_⟩⟩
            simp [Session.stamped, Table.recoveries,
              Array.getElem?_modify, hRow₁]
        | handOff v =>
            have hOf := (Ordering.hosts hc).keeps_awaiterOf hc
              (Ordering.sound hs₁) v
            refine Run.Ensures.bind
              (((Run.ensures_self _ s₁).and hOf).mono ?_)
            rintro r₂ s₂ ⟨hAwaiter, hMoves₂⟩
            cases r₂ with
            | error e =>
                exact ⟨_, .unawaitable hBody hStep
                  (.inl hAwaiter)⟩
            | ok awaiter =>
            have hIsDone := (Ordering.hosts hc).keeps_completed hc
              hMoves₂.sound awaiter
            refine Run.Ensures.bind
              (((Run.ensures_self _ s₂).and hIsDone).mono ?_)
            rintro r₃ s₃ ⟨hCompleted, hMoves₃⟩
            cases r₃ with
            | error e =>
                exact ⟨_, .unawaitable hBody hStep
                  (.inr ⟨awaiter, s₂, hAwaiter, hCompleted⟩)⟩
            | ok isDone =>
            have hMoves₁₃ := hMoves₂.trans hMoves₃
            rcases row_later hRow₁ hMoves₁₃.rel with
              ⟨inner₃, t₃, hRow₃⟩
            change (if isDone.truthy = true then _ else _ :
              Run Value).Ensures s₃ _
            split
            · next hDone =>
                refine (ensures_outcome hMoves₃.sound.inv hc hRow₃
                  awaiter).mono ?_
                rintro r s' ⟨own, s₄, came, hResult, hBecomes⟩
                exact ⟨came, .ends (.handsOff hBody hStep hAwaiter
                  hCompleted hDone hResult) hBecomes⟩
            · next hPending =>
                have hm₃ := Nat.lt_of_lt_of_le hm₁
                  hMoves₁₃.rel.machines.size_le
                refine Run.Ensures.bind ((Label.ensures_install hm₃
                  (.recoveryOutcome S.cell awaiter)
                  hMoves₃.sound).mono ?_)
                rintro _ s₄ ⟨hIdles, rfl, _, hBears⟩
                refine (Run.ensures_newStep _ s₄).mono ?_
                rintro r _ ⟨rfl, made, rfl, hMade⟩
                rcases row_later hRow₃ hIdles.grows with
                  ⟨inner₄, t₄, hRow₄⟩
                exact ⟨_, .waits hBody hStep hAwaiter hCompleted
                  (by simpa using hPending) hMade
                  ⟨⟨inner₄, t₄, hRow₄, fun _ hInner => by
                    cases hInner⟩, hBears⟩⟩

/- What a handler is asked for is steps. -/
def ProducesSteps
    (rounds : Nat)
    (handler : Closure) : Prop :=
  ∀ depth args s v s',
    (Caller.ofDepth rounds depth).call handler args s =
      some (.ok v, s') → v.isStep = true

/- A turn ends with a step, if the handler does. -/
theorem Turn.isStep
    {rounds depth : Nat}
    {stage : Stage}
    {came : Came}
    {step : Value}
    (hSteps : ProducesSteps rounds S.handler)
    (h : Turn (.ofDepth rounds depth) S m s stage came
      (.ok step) s')
    (hChecks : (s'.machines.getD m default).assertions = true) :
    step.isStep = true := by
  cases h with
  | ends _ hBecomes =>
      cases hBecomes with
      | returned hYields _ => exact hYields.isStep
      | handled _ hCall => exact hSteps _ _ _ _ _ hCall
  | suspends _ _ _ hMade _ => simp [Value.isStep, hMade]
  | waits _ _ _ _ _ hMade _ => simp [Value.isStep, hMade]
  | strays _ _ hUnchecked _ =>
      rw [hUnchecked] at hChecks
      cases hChecks

/-
  A jump to the label of a recovery at a stage takes a turn,
  by a caller that may call less deep.
-/
theorem ensures_turn
    {rounds depth : Nat}
    {stage : Stage}
    (hs : s.Orderly)
    (hSteps : ProducesSteps rounds S.handler)
    (hHolds : stage.Holds S m s) :
    (Label.jump (.ofDepth rounds (depth + 1)) m
      (.label (stage.label S))).Ensures s fun r s' =>
        ∃ came, Turn (.ofDepth rounds depth) S m s stage came
          r s' := by
  have hc := Ordering.serves rounds depth
  refine Label.ensures_jump hHolds.bears ?_ ?_
  · rintro step s' ⟨came, hTurn⟩ hChecks
    exact hTurn.isStep hSteps hChecks
  · cases stage with
    | inside resume => exact ensures_enter hs hc hHolds
    | waiting l awaiter =>
        rcases hHolds.row with ⟨inner, t, hRow, _⟩
        refine (ensures_outcome hs hc hRow awaiter).mono ?_
        rintro r s' ⟨own, s₁, came, hResult, hBecomes⟩
        exact ⟨came, .ends (.settles hResult) hBecomes⟩

/- Once the body has ended, what comes of it is settled. -/
theorem Turn.of_ended
    {stage : Stage}
    {came : Came}
    {own r : Except Value Value}
    (h : Turn caller S m s stage came r s')
    (hEnded : Ended caller m s stage own s₁) :
    Becomes caller S.handler s₁ own came r s' := by
  cases h with
  | ends hEnded' hBecomes =>
      rcases hEnded.unique hEnded' with ⟨rfl, rfl⟩
      exact hBecomes
  | suspends hBody hStep _ _ _ =>
      rcases hEnded.step hBody with
        ⟨_, hStep', _⟩ | ⟨_, _, _, _, _, hStep', _⟩
      · rw [hStep] at hStep'
        cases hStep'
      · rw [hStep] at hStep'
        cases hStep'
  | waits hBody hStep hAwaiter hCompleted hPending _ _ =>
      rcases hEnded.step hBody with
        ⟨_, hStep', _⟩ | ⟨_, _, _, _, _, hStep', hAwaiter',
          hCompleted', hDone, _⟩
      · rw [hStep] at hStep'
        cases hStep'
      · rw [hStep] at hStep'
        cases hStep'
        rw [hAwaiter] at hAwaiter'
        cases hAwaiter'
        rw [hCompleted] at hCompleted'
        cases hCompleted'
        rw [hPending] at hDone
        cases hDone
  | unawaitable hBody hStep hFails =>
      rcases hEnded.step hBody with
        ⟨_, hStep', _⟩ | ⟨_, _, _, _, _, hStep', hAwaiter',
          hCompleted', _, _⟩
      · rw [hStep] at hStep'
        cases hStep'
      · rw [hStep] at hStep'
        cases hStep'
        rcases hFails with hAwaiter | ⟨_, _, hAwaiter, hCompleted⟩
        · rw [hAwaiter] at hAwaiter'
          cases hAwaiter'
        · rw [hAwaiter] at hAwaiter'
          cases hAwaiter'
          rw [hCompleted] at hCompleted'
          cases hCompleted'
  | strays hBody hStep _ _ =>
      rcases hEnded.step hBody with
        ⟨_, hStep', _⟩ | ⟨_, _, _, _, _, hStep', _⟩
      · rw [hStep] at hStep'
        cases hStep'
      · rw [hStep] at hStep'
        cases hStep'

/-
  The handler is called with what the body failed with, and
  only then.
-/
theorem Turn.handles_iff
    {stage : Stage}
    {came : Came}
    {r : Except Value Value}
    (h : Turn caller S m s stage came r s')
    (e : Value) :
    came = .handles e ↔ ∃ s₁,
      Ended caller m s stage (.error e) s₁ ∧
        e.isDefect = false := by
  constructor
  · rintro rfl
    cases h with
    | ends hEnded hBecomes =>
        rcases (hBecomes.handles_iff e).mp rfl with
          ⟨rfl, hDefect⟩
        exact ⟨_, hEnded, hDefect⟩
  · rintro ⟨s₁, hEnded, hDefect⟩
    exact ((h.of_ended hEnded).handles_iff e).mpr ⟨rfl, hDefect⟩

------------------------------------------------------------
-- Runs
------------------------------------------------------------

/- A jump to a label of a recovery, and what it came to. -/
structure Visit where
  depth : Nat
  before : Session
  stage : Stage
  came : Came
  result : Except Value Value
  after : Session

/- The stage that is outstanding then, if there is one. -/
def Came.next : Came → Option Stage
  | .goes stage => some stage
  | _ => none

/- What the handler was called with, if it was. -/
def Came.handled : Came → Option Value
  | .handles e => some e
  | _ => none

/-
  A run of a recovery, the last jump first, with anything
  happening in between.  Every jump is to the label of the
  stage that is outstanding, which it uses up; nobody else
  has disturbed the recovery at that stage.
-/
inductive Runs
    (rounds : Nat)
    (S : Site)
    (m : Ref)
    (first : Stage)
    (s : Session) :
    List Visit → Option Stage → Session → Prop where
  | start : Runs rounds S m first s [] (some first) s
  | later
      {visits next s₁ s₂}
      (h : Runs rounds S m first s visits next s₁)
      (hGrows : s₁.Grows s₂)
      (hOrderly : s₂.Orderly) :
      Runs rounds S m first s visits next s₂
  | resume
      {visits visit}
      (h : Runs rounds S m first s visits (some visit.stage)
        visit.before)
      (hHolds : visit.stage.Holds S m visit.before)
      (hJump : Label.jump (.ofDepth rounds (visit.depth + 1)) m
        (.label (visit.stage.label S)) visit.before =
          some (visit.result, visit.after))
      (hTurn : Turn (.ofDepth rounds visit.depth) S m
        visit.before visit.stage visit.came visit.result
        visit.after) :
      Runs rounds S m first s (visit :: visits)
        visit.came.next visit.after

/- Every jump of a run takes a turn. -/
theorem Runs.turn
    {rounds : Nat}
    {first : Stage}
    {visits : List Visit}
    {next : Option Stage}
    (h : Runs rounds S m first s visits next s') :
    ∀ visit ∈ visits,
      Turn (.ofDepth rounds visit.depth) S m visit.before
        visit.stage visit.came visit.result visit.after := by
  induction h with
  | start => simp
  | later _ _ _ ih => exact ih
  | resume _ _ _ hTurn ih =>
      exact List.forall_mem_cons.mpr ⟨hTurn, ih⟩

/- While a stage is outstanding, nothing else has come yet. -/
theorem Runs.goes
    {rounds : Nat}
    {first : Stage}
    {visits : List Visit}
    {next : Option Stage}
    (h : Runs rounds S m first s visits next s')
    (hNext : next.isSome) :
    ∀ visit ∈ visits, visit.came.handled = none := by
  induction h with
  | start => simp
  | later _ _ _ ih => exact ih hNext
  | @resume visits visit _ _ _ _ ih =>
      intro visit' hMem
      rcases List.mem_cons.mp hMem with rfl | hMem
      · cases hCame : visit'.came with
        | goes stage => rfl
        | _ => rw [hCame] at hNext; cases hNext
      · exact ih rfl visit' hMem

/- The handler is called at most once in a run. -/
theorem Runs.handled_le
    {rounds : Nat}
    {first : Stage}
    {visits : List Visit}
    {next : Option Stage}
    (h : Runs rounds S m first s visits next s') :
    (visits.filterMap (·.came.handled)).length ≤ 1 := by
  induction h with
  | start => simp
  | later _ _ _ ih => exact ih
  | @resume visits visit h _ _ _ _ =>
      have hBefore : visits.filterMap (·.came.handled) = [] :=
        List.filterMap_eq_nil_iff.mpr (h.goes rfl)
      rw [List.filterMap_cons]
      cases visit.came.handled with
      | none => simp [hBefore]
      | some e => simp [hBefore]

/- What is outstanding is where the last jump has stopped. -/
theorem Runs.next_eq
    {rounds : Nat}
    {first : Stage}
    {visits : List Visit}
    {next : Option Stage}
    (h : Runs rounds S m first s visits next s') :
    next = match visits.head? with
      | some visit => visit.came.next
      | none => some first := by
  induction h with
  | start => rfl
  | later _ _ _ ih => exact ih
  | resume _ _ _ _ _ => rfl

/- Every jump goes on where the one before has stopped. -/
theorem Runs.goes_on
    {rounds : Nat}
    {first : Stage}
    {visits : List Visit}
    {next : Option Stage}
    (h : Runs rounds S m first s visits next s')
    {n : Nat}
    {visit earlier : Visit}
    (hVisit : visits[n]? = some visit)
    (hEarlier : visits[n + 1]? = some earlier) :
    earlier.came = .goes visit.stage := by
  induction h generalizing n with
  | start => cases hVisit
  | later _ _ _ ih => exact ih hVisit hEarlier
  | @resume visits last h _ _ _ ih =>
      cases n with
      | succ n => exact ih hVisit hEarlier
      | zero =>
          obtain rfl := Option.some.inj hVisit
          have hNext := h.next_eq
          rw [List.head?_eq_getElem?,
            show visits[0]? = some earlier from hEarlier]
            at hNext
          replace hNext : some last.stage = earlier.came.next :=
            hNext
          cases hCame : earlier.came with
          | goes stage =>
              rw [hCame] at hNext
              rw [Option.some.inj hNext]
          | _ => rw [hCame] at hNext; cases hNext

/- Runs keep order. -/
theorem Runs.moves
    {rounds : Nat}
    {first : Stage}
    {visits : List Visit}
    {next : Option Stage}
    (hs : s.Orderly)
    (h : Runs rounds S m first s visits next s') :
    Ordering.Moves s s' := by
  induction h with
  | start => exact .refl (Ordering.sound hs)
  | later _ hGrows hOrderly ih =>
      exact ih.trans (Ordering.moves_of hOrderly hGrows)
  | @resume visits visit _ _ hJump _ ih =>
      exact ih.trans (Ordering.founds.keeps_jump
        (Ordering.serves rounds (visit.depth + 1)) ih.sound
        m _ _ _ hJump)

------------------------------------------------------------
-- Building
------------------------------------------------------------

/- A new recovery is founded in order. -/
theorem ordered_withRecovery
    (hs : s.Orderly)
    (hm : m < s.machines.size)
    (body handler : Closure) :
    Ordering.Moves s (s.withRecovery m body handler) := by
  have h₁ := Ordering.moves_withLabel (Ordering.sound hs) m none
  have h₂ := Ordering.moves_withLabel h₁.sound m (some body)
  have hRow : Ordering.Moves
      ((s.withLabel m none).withLabel m (some body))
      (((s.withLabel m none).withLabel m
        (some body)).withRecoveryRow
          ⟨m, s.labels.size,
            .label (s.withLabel m none).labels.size, handler,
            s.task⟩) :=
    Ordering.founds.newRecovery h₂.sound trivial
  have h₄ := (bears_entry hm body handler).moves_relabelled
    hRow.sound (.recoveryEntry s.recoveries.size)
  exact ((h₁.trans h₂).trans hRow).trans h₄

/- Building a recovery founds it, and then jumps to its entry. -/
theorem build_eq
    (caller : Caller)
    (hm : m < s.machines.size)
    (body handler : Closure) :
    build caller (.machine m) body handler s =
      Label.jump caller m (.label (newSite s handler).entry)
        (s.withRecovery m body handler) := by
  refine Run.step_eq (a := m) rfl ?_
  refine Run.step_eq (Label.allocate_eq m s) ?_
  refine Run.step_eq (Label.install_eq m body _) ?_
  refine Run.step_eq rfl (Run.step_eq rfl ?_)
  have hEntry := bears_entry hm body handler
  exact Run.step_eq (Label.replace_eq hEntry
    (.recoveryEntry s.recoveries.size)) rfl

/- Where a new recovery starts: at the code of its body. -/
def start
    (s : Session)
    (m : Ref) : Stage :=
  .inside (.label (s.withLabel m none).labels.size)

/- A new recovery is at its start. -/
theorem holds_withRecovery
    (hm : m < s.machines.size)
    (body handler : Closure) :
    (start s m).Holds (newSite s handler) m
      (s.withRecovery m body handler) := by
  have hAt := at_withRecovery hm body handler
  rcases hAt.cell with ⟨t, hRow⟩
  refine ⟨⟨_, t, hRow, ?_⟩, hAt.entry⟩
  rintro resume ⟨⟩
  rfl

------------------------------------------------------------
-- Handling What the Body Failed With
------------------------------------------------------------

/-
  Building a recovery founds it at the start of its body and
  jumps to its entry.  Any jump to the label of the stage
  that is outstanding goes on with a run.  In a run, every
  jump goes on where the one before has stopped, and the
  handler is called at most once: by the jump in which the
  body ends with a failure that is no defect, with just this
  failure, and what it does is the end of the run.  A value
  that the body ends with is what the recovery yields.
-/
theorem handles_what_the_body_failed_with
    (hs : s.Orderly)
    (hm : m < s.machines.size)
    (body handler : Closure)
    {rounds : Nat}
    (hSteps : ProducesSteps rounds handler) :
    let S := newSite s handler
    let s₁ := s.withRecovery m body handler
    (∀ caller,
      build caller (.machine m) body handler s =
        Label.jump caller m (.label S.entry) s₁) ∧
    s₁.Bears m (s.withLabel m none).labels.size (some body) ∧
    (start s m).Holds S m s₁ ∧
    (∀ visits stage s₂ depth r s',
      Runs rounds S m (start s m) s₁ visits (some stage) s₂ →
      stage.Holds S m s₂ →
      Label.jump (.ofDepth rounds (depth + 1)) m
        (.label (stage.label S)) s₂ = some (r, s') →
      ∃ came, Runs rounds S m (start s m) s₁
        (⟨depth, s₂, stage, came, r, s'⟩ :: visits) came.next
        s') ∧
    ∀ visits next s',
      Runs rounds S m (start s m) s₁ visits next s' →
      (visits.filterMap (·.came.handled)).length ≤ 1 ∧
      (∀ n visit earlier, visits[n]? = some visit →
        visits[n + 1]? = some earlier →
          earlier.came = .goes visit.stage) ∧
      ∀ visit ∈ visits,
        (∀ e, visit.came = .handles e ↔ ∃ s₂,
          Ended (.ofDepth rounds visit.depth) m visit.before
            visit.stage (.error e) s₂ ∧ e.isDefect = false) ∧
        ∀ own s₂,
          Ended (.ofDepth rounds visit.depth) m visit.before
            visit.stage own s₂ →
          Becomes (.ofDepth rounds visit.depth) handler s₂ own
            visit.came visit.result visit.after := by
  intro S s₁
  have hMoves := ordered_withRecovery hs hm body handler
  refine ⟨fun caller => build_eq caller hm body handler,
    bears_withRecovery hm body handler,
    holds_withRecovery hm body handler, ?_, ?_⟩
  · intro visits stage s₂ depth r s' hRuns hHolds hJump
    have hs₂ := (hRuns.moves hMoves.sound.inv).sound.inv
    rcases ensures_turn hs₂ hSteps hHolds r s' hJump with
      ⟨came, hTurn⟩
    exact ⟨came, .resume hRuns hHolds hJump hTurn⟩
  · intro visits next s' hRuns
    refine ⟨hRuns.handled_le,
      fun n visit earlier => hRuns.goes_on,
      fun visit hMem => ⟨fun e => ?_, fun own s₂ => ?_⟩⟩
    · exact (hRuns.turn visit hMem).handles_iff e
    · exact (hRuns.turn visit hMem).of_ended

/- A body that throws nothing much, and a handler. -/
private def throwing : Closure :=
  .client fun _ => .fail .undefined

private def handling : Closure :=
  .client fun _ => .request (.newStep (.finish (.int 7)))

/- This handler makes a step, whatever it is called with. -/
private theorem producesSteps_handling :
    ProducesSteps 1 handling := by
  intro depth args s v s' hCall
  cases depth with
  | zero => cases hCall
  | succ depth =>
      have hMade := Except.ok.inj
        (Prod.mk.inj (Option.some.inj hCall)).1
      rw [← hMade]
      rfl

/- A failure with no value at all is handled like any other. -/
theorem handles_a_missing_failure :
    ∃ r s', Runs 1 (newSite (Session.empty.withMachine true)
        handling) 0 (start (Session.empty.withMachine true) 0)
      ((Session.empty.withMachine true).withRecovery 0 throwing
        handling)
      [⟨1, (Session.empty.withMachine true).withRecovery 0
          throwing handling,
        start (Session.empty.withMachine true) 0,
        .handles .undefined, r, s'⟩] none s' := by
  have hs : (Session.empty.withMachine true).Orderly :=
    (Ordering.founds.newMachine true
      (Ordering.sound orderly_empty)).sound.inv
  rcases handles_what_the_body_failed_with (m := 0) hs
    (by decide) throwing handling producesSteps_handling with
    ⟨_, _, hHolds, hGoesOn, hRuns⟩
  obtain ⟨r, s', hJump⟩ : ∃ r s',
      Label.jump (.ofDepth 1 2) 0 (.label 0)
        ((Session.empty.withMachine true).withRecovery 0
          throwing handling) = some (r, s') := ⟨_, _, rfl⟩
  rcases hGoesOn [] _ _ 1 r s' .start hHolds hJump with
    ⟨came, hRun⟩
  have hFails : Ended (.ofDepth 1 1) 0
      ((Session.empty.withMachine true).withRecovery 0 throwing
        handling) (start (Session.empty.withMachine true) 0)
      (.error .undefined) _ := .fails rfl
  have hCame := ((hRuns _ _ _ hRun).2.2 _
    List.mem_cons_self).1 .undefined |>.mpr ⟨_, hFails, rfl⟩
  obtain rfl : came = .handles .undefined := hCame
  exact ⟨r, s', hRun⟩

end Recovery

end Resumption

import Resumption.Proofs.Order.Bodies
import Resumption.Proofs.Routine.Cleanups

/-
  A cleanup compensates at most once, and before any end.

  A jump to a label of a cleanup runs its body where that
  resumes, or reads the future that its body handed off to.
  If this suspends, so does the jump.  Otherwise the jump is
  at its end: it invokes the compensation, unless that was
  done, and ends with what the compensation throws, or else
  the way the body or the hand-off ended.

  Main declarations:
    * `Cleanup.Hands`
    * `Cleanup.Closes`, `Cleanup.Turn`
    * `Cleanup.ensures_turn`
    * `Cleanup.Visits`
    * `Cleanup.compensates_once_before_any_end`
-/

namespace Resumption

open Session World

/- A session in which the present task's care was added to. -/
def Session.tending
    (s : Session)
    (c : Care) : Session :=
  match s.task with
  | some t =>
      s.noting (s.tasks.modify t fun cell =>
        { cell with care := c :: cell.care })
  | none => s

/- A session with a new cleanup, which the present task knows. -/
def Session.founding
    (s : Session)
    (m : Ref)
    (body compensation : Closure) : Session :=
  (s.withCleanup m body compensation).tending
    (.entered s.cleanups.size)

theorem Run.tendHere_tending
    (c : Care)
    (s : Session) :
    Run.tendHere c s = some (.ok (), s.tending c) := by
  cases hTask : s.task with
  | none =>
      have hSame : { s with task := none } = s := by
        rw [← hTask]
      rw [← hSame]
      rfl
  | some t =>
      have hSame : { s with task := some t } = s := by
        rw [← hTask]
      rw [← hSame]
      rfl

theorem Session.sameGround_tending
    (s : Session)
    (c : Care) :
    s.SameGround (s.tending c) := by
  unfold tending
  split <;> exact ⟨rfl, rfl, rfl, rfl, rfl, rfl, rfl, rfl⟩

namespace Cleanup

variable {S : Site}
variable {s s₁ s' : Session}
variable {caller : Caller}
variable {m l : Ref}

------------------------------------------------------------
-- Labels
------------------------------------------------------------

/-
  The labels that a cleanup hands out: its entry, and those
  that wait for a future that the body handed off to.
-/
inductive Hands
    (s : Session)
    (m i l : Ref) : Option Ref → Prop where
  | entry
      (h : s.Bears m l (some (.cleanupEntry i))) :
      Hands s m i l none
  | settle
      {a f : Nat}
      {captured}
      (h : s.Bears m l
        (some (.cleanupOutcome i (.awaiter a))))
      (hAwaiter : s.awaiters[a]? = some (.future f captured)) :
      Hands s m i l (some f)

/- A cleanup is there, on a machine that checks its jumps. -/
structure Site.Stands
    (S : Site)
    (m : Ref)
    (s : Session) : Prop where
  lt : S.cell < s.cleanups.size
  machine : (s.cleanups.getD S.cell default).machine = m
  entry : (s.cleanups.getD S.cell default).entry = S.entry
  compensation :
    (s.cleanups.getD S.cell default).compensation =
      S.compensation
  exists_ : m < s.machines.size
  checks : (s.machines.getD m default).assertions = true

/- It is there ever after. -/
theorem Site.Stands.later
    (h : S.Stands m s)
    (hGrows : s.Grows s') :
    S.Stands m s' where
  lt := Nat.lt_of_lt_of_le h.lt hGrows.cleanups.size_le
  machine := (hGrows.cleanups.getD h.lt).machine.trans h.machine
  entry := (hGrows.cleanups.getD h.lt).entry.trans h.entry
  compensation :=
    (hGrows.cleanups.getD h.lt).compensation.trans
      h.compensation
  exists_ :=
    Nat.lt_of_lt_of_le h.exists_ hGrows.machines.size_le
  checks :=
    (hGrows.machines.getD h.exists_).assertions.trans h.checks

/- A jump to where the body of a cleanup resumes. -/
def body
    (caller : Caller)
    (i : Ref)
    (s : Session) : Option (Except Value Value × Session) :=
  let cell := s.cleanups.getD i default
  Label.jump caller cell.machine cell.inner s

/- What the body hands off to is a future. -/
def HandsFutures
    (caller : Caller)
    (i : Ref)
    (s : Session) : Prop :=
  ∀ step s₁ v, body caller i s = some (.ok step, s₁) →
    step.step? = some (.handOff v) → ∃ f, v = .future f

------------------------------------------------------------
-- Closing
------------------------------------------------------------

/-
  How a jump closes when its body or its hand-off has ended:
  the compensation was invoked before, or it is now.
-/
inductive Closes
    (caller : Caller)
    (S : Site)
    (own : Except Value Value)
    (s : Session) :
    Except Value Value → Session → Prop where
  | before
      {r s'}
      (hDone : s.compensations S.cell = 1)
      (hYields : Yields r own)
      (hIdles : s.Idles s') :
      Closes caller S own s r s'
  | succeeds
      {v r s₁ s₂ s'}
      (hNot : s.compensations S.cell = 0)
      (hInvoked : (s.compensating S.cell).Idles s₁)
      (hCall : caller.call S.compensation [] s₁ =
        some (.ok v, s₂))
      (hYields : Yields r own)
      (hIdles : s₂.Idles s') :
      Closes caller S own s r s'
  | throws
      {e s₁ s'}
      (hNot : s.compensations S.cell = 0)
      (hInvoked : (s.compensating S.cell).Idles s₁)
      (hCall : caller.call S.compensation [] s₁ =
        some (.error e, s')) :
      Closes caller S own s (.error e) s'

/- In order, no compensation was invoked twice. -/
theorem compensations_le
    (hs : s.Orderly)
    (i : Ref) :
    s.compensations i ≤ 1 := by
  rw [hs.counted i]
  split <;> omega

/- What counts as compensated is what was invoked. -/
theorem compensated_iff
    {i : Ref}
    (hs : s.Orderly)
    (hi : i < s.cleanups.size) :
    (s.cleanups.getD i default).compensated = true ↔
      s.compensations i = 1 := by
  rw [hs.counted i]
  simp [hi]

/- What was not invoked counts as invoked now. -/
theorem invoked
    {i : Ref}
    (hs : s.Orderly)
    (hNot : s.compensations i = 0)
    (hi : i < s.cleanups.size) :
    Ordering.Moves s (s.compensating i) ∧
      (s.compensating i).compensations i = 1 := by
  have hFlag : (s.cleanups.getD i default).compensated =
      false := by
    refine Bool.eq_false_iff.mpr fun hDone => ?_
    have hOne := (compensated_iff hs hi).mp hDone
    omega
  refine ⟨Ordering.founds.compensating i (Ordering.sound hs)
    hFlag, ?_⟩
  have hCount : (s.compensating i).compensations i =
      s.compensations i + 1 := by
    simp [compensations, compensating, withIncident,
      Incident.isCompensation]
  omega

/- When a jump has closed, the compensation was invoked. -/
theorem Closes.compensated
    {own r : Except Value Value}
    (hc : Ordering.Serves caller)
    (hs : s.Orderly)
    (hStands : S.Stands m s)
    (h : Closes caller S own s r s') :
    s'.compensations S.cell = 1 := by
  have hCalled : ∀ {s₁ s₂ r}, s.compensations S.cell = 0 →
      (s.compensating S.cell).Idles s₁ →
      caller.call S.compensation [] s₁ = some (r, s₂) →
      s₂.compensations S.cell = 1 := by
    intro s₁ s₂ r hNot hInvoked hCall
    have hOne := (invoked hs hNot hStands.lt).2
    have hMoves := Ordering.call hc
      (Ordering.sound hInvoked.orderly) _ _ _ _ hCall
    have hLeast := hMoves.rel.compensated S.cell
    have hMost := compensations_le hMoves.sound.inv S.cell
    rw [hInvoked.compensations] at hLeast
    omega
  cases h with
  | before hDone _ hIdles =>
      rw [hIdles.compensations]
      exact hDone
  | succeeds hNot hInvoked hCall _ hIdles =>
      rw [hIdles.compensations]
      exact hCalled hNot hInvoked hCall
  | throws hNot hInvoked hCall =>
      exact hCalled hNot hInvoked hCall

/- It closes by returning or by throwing. -/
theorem Closes.terminates
    {own r : Except Value Value}
    (h : Closes caller S own s r s') :
    Terminates r := by
  cases h with
  | before _ hYields _ => exact hYields.terminates
  | succeeds _ _ _ hYields _ => exact hYields.terminates
  | throws _ _ _ => trivial

/-
  Compensating, and then ending the way the body or the
  hand-off ended, closes the jump.
-/
theorem ensures_closes
    {own : Except Value Value}
    {end_ : Run Value}
    (hs : s.Orderly)
    (hc : Ordering.Serves caller)
    (hStands : S.Stands m s)
    (hEnd : ∀ s₁, s₁.Orderly → end_.Ensures s₁ fun r s' =>
      Yields r own ∧ s₁.Idles s') :
    (do
      compensate caller S.cell
      end_ : Run Value).Ensures s (Closes caller S own s) := by
  refine Run.Ensures.bind (Run.ensures_row_bind.mpr ?_)
  split
  · next hDone =>
      have hOne := (compensated_iff hs hStands.lt).mp hDone
      refine Run.ensures_pure.mpr ((hEnd s hs).mono ?_)
      rintro r s' ⟨hYields, hIdles⟩
      exact .before hOne hYields hIdles
  · next hFlag =>
      have hNot : s.compensations S.cell = 0 := by
        have hMost := compensations_le hs S.cell
        have hOther : s.compensations S.cell ≠ 1 := fun hOne =>
          hFlag ((compensated_iff hs hStands.lt).mpr hOne)
        omega
      have hMoves := (invoked hs hNot hStands.lt).1
      refine Run.ensures_modify_bind.mpr (Run.Ensures.bind ?_)
      have hInvoked : (s.compensating S.cell).Idles
          ((s.compensating S.cell).tending
            (.compensated S.cell)) :=
        .of_ground hMoves.sound.inv (sameGround_tending _ _)
      intro r₁ s₁ hRun
      rw [Run.tendHere_tending] at hRun
      obtain ⟨rfl, rfl⟩ := Prod.mk.inj (Option.some.inj hRun)
      refine Run.Ensures.discard ?_
      rw [show (Table.cleanups.rows s).getD S.cell default =
        s.cleanups.getD S.cell default from rfl,
        hStands.compensation]
      intro ended s₂ hCall
      cases ended with
      | error e => exact .throws hNot hInvoked hCall
      | ok v =>
          have hCalled := Ordering.call hc
            (Ordering.sound hInvoked.orderly) _ _ _ _ hCall
          refine (hEnd s₂ hCalled.sound.inv).mono ?_
          rintro r s' ⟨hYields, hIdles⟩
          exact .succeeds hNot hInvoked hCall hYields hIdles

------------------------------------------------------------
-- Turns
------------------------------------------------------------

/- What the jump runs has come to a future's outcome. -/
def Settles
    (caller : Caller)
    (S : Site)
    (f : Ref)
    (s : Session)
    (r : Except Value Value)
    (s' : Session) : Prop :=
  ∃ own s₁, s.Comes f own ∧ s.Idles s₁ ∧
    Closes caller S own s₁ r s'

/-
  What a jump to a label that a cleanup hands out does.  To
  the entry, it runs the body, which fails, finishes, hands
  off or suspends; to another label, it reads the future that
  the label waits for.
-/
inductive Turn
    (caller : Caller)
    (S : Site)
    (m : Ref)
    (s : Session) :
    Option Ref → Except Value Value → Session → Prop where
  | fails
      {e s₁ r s'}
      (hBody : body caller S.cell s = some (.error e, s₁))
      (hCloses : Closes caller S (.error e) s₁ r s') :
      Turn caller S m s none r s'
  | finishes
      {step v s₁ r s'}
      (hBody : body caller S.cell s = some (.ok step, s₁))
      (hStep : step.step? = some (.finish v))
      (hCloses : Closes caller S (.ok v) s₁ r s') :
      Turn caller S m s none r s'
  | handsOff
      {step f o s₁ s₂ r s'}
      (hBody : body caller S.cell s = some (.ok step, s₁))
      (hStep : step.step? = some (.handOff (.future f)))
      (hOutcome : s₁.outcome? f = some o)
      (hIdles : s₁.Idles s₂)
      (hCloses : Closes caller S o.read s₂ r s') :
      Turn caller S m s none r s'
  /- The future handed off to is pending: wait for it. -/
  | waits
      {step f s₁ made a l s'}
      (hBody : body caller S.cell s = some (.ok step, s₁))
      (hStep : step.step? = some (.handOff (.future f)))
      (hPending : s₁.outcome? f = none)
      (hIdles : s₁.Idles s')
      (hMade : made.step? = some (.suspend a (.label l)))
      (hHands : Hands s' m S.cell l (some f)) :
      Turn caller S m s none (.ok made) s'
  /- The body suspends: resume it at the entry. -/
  | suspends
      {step a resume s₁ made s'}
      (hBody : body caller S.cell s = some (.ok step, s₁))
      (hStep : step.step? = some (.suspend a resume))
      (hIdles : s₁.Idles s')
      (hMade : made.step? =
        some (.suspend a (.label S.entry))) :
      Turn caller S m s none (.ok made) s'
  | settles
      {f r s'}
      (h : Settles caller S f s r s') :
      Turn caller S m s (some f) r s'

/- A turn ends with a step or with an error. -/
theorem Turn.isStep
    {waits : Option Ref}
    {step : Value}
    (h : Turn caller S m s waits (.ok step) s') :
    step.isStep = true := by
  have hCloses : ∀ {own s₁}, Closes caller S own s₁ (.ok step) s' →
      step.isStep = true := by
    intro own s₁ hCloses
    rcases hCloses.terminates with ⟨v, hStep⟩
    simp [Value.isStep, hStep]
  cases h with
  | fails _ h => exact hCloses h
  | finishes _ _ h => exact hCloses h
  | handsOff _ _ _ _ h => exact hCloses h
  | waits _ _ _ _ hMade _ => simp [Value.isStep, hMade]
  | suspends _ _ _ hMade => simp [Value.isStep, hMade]
  | settles h =>
      rcases h with ⟨_, _, _, _, h⟩
      exact hCloses h

/- Reading the future that was handed off to closes the jump. -/
theorem ensures_outcome
    {a f : Nat}
    {captured : Bool}
    (hs : s.Orderly)
    (hc : Ordering.Serves caller)
    (hStands : S.Stands m s)
    (hAwaiter : s.awaiters[a]? = some (.future f captured)) :
    (outcome caller S.cell (.awaiter a)).Ensures s
      (Settles caller S f s) := by
  unfold outcome
  refine Run.Ensures.bind (Run.ensures_attempt.mpr
    ((Awaiter.ensures_comes hs hAwaiter).mono ?_))
  rintro own s₁ ⟨hComes, hIdles⟩
  have hStands₁ := hStands.later hIdles.grows
  have hClosed : ∀ {end_ : Run Value},
      (∀ s₂, s₂.Orderly → end_.Ensures s₂ fun r s' =>
        Yields r own ∧ s₂.Idles s') →
      (do
        compensate caller S.cell
        end_ : Run Value).Ensures s₁ (Settles caller S f s) := by
    intro end_ hEnd
    refine (ensures_closes hIdles.orderly hc hStands₁
      hEnd).mono ?_
    exact fun r s' h => ⟨own, s₁, hComes, hIdles, h⟩
  cases own with
  | ok v =>
      refine hClosed fun s₂ h₂ =>
        (Run.ensures_newStep _ s₂).mono ?_
      rintro r _ ⟨rfl, made, rfl, hStep⟩
      exact ⟨hStep, h₂.idles_stamped⟩
  | error e =>
      exact hClosed fun s₂ h₂ =>
        Run.ensures_raise.mpr ⟨rfl, .refl h₂⟩

/- Entering a cleanup takes its turn. -/
theorem ensures_enter
    (hs : s.Orderly)
    (hc : Ordering.Serves caller)
    (hStands : S.Stands m s)
    (hFutures : HandsFutures caller S.cell s) :
    (enter caller S.cell).Ensures s
      (Turn caller S m s none) := by
  unfold enter
  refine Run.ensures_row_bind.mpr ?_
  have hKeeps : Ordering.Keeps _ s :=
    Ordering.founds.keeps_jump hc (Ordering.sound hs)
      (s.cleanups.getD S.cell default).machine
      (s.cleanups.getD S.cell default).inner
  refine Run.Ensures.bind (Run.ensures_attempt.mpr
    (Run.Ensures.mono (((Run.ensures_self _ s).and hKeeps).and
      (Label.ensures_step _ _ _ s)) ?_))
  rintro r₁ s₁ ⟨⟨hBody, hMoves⟩, hSteps⟩
  replace hBody : body caller S.cell s = some (r₁, s₁) := hBody
  have hs₁ := hMoves.sound.inv
  have hStands₁ := hStands.later hMoves.rel
  cases r₁ with
  | error e =>
      have hRaise : ∀ s₂, s₂.Orderly →
          (Run.raise e : Run Value).Ensures s₂ fun r s' =>
            Yields r (.error e) ∧ s₂.Idles s' :=
        fun s₂ h₂ => Run.ensures_raise.mpr ⟨rfl, .refl h₂⟩
      exact (ensures_closes hs₁ hc hStands₁ hRaise).mono
        fun r s' h => .fails hBody h
  | ok step =>
      have hIs : step.isStep = true :=
        hSteps (by rw [hStands.machine]; exact hStands₁.checks)
          step rfl
      change (if step.isMissing = true then _ else _ :
        Run Value).Ensures s₁ _
      rw [if_neg (by simp [Value.not_missing_of_isStep hIs])]
      cases hStep : step.step? with
      | none => simp [Value.isStep, hStep] at hIs
      | some view =>
      cases view with
      | finish v =>
          have hPure : ∀ s₂, s₂.Orderly →
              (pure step : Run Value).Ensures s₂ fun r s' =>
                Yields r (.ok v) ∧ s₂.Idles s' :=
            fun s₂ h₂ =>
              Run.ensures_pure.mpr ⟨hStep, .refl h₂⟩
          exact (ensures_closes hs₁ hc hStands₁ hPure).mono
            fun r s' h => .finishes hBody hStep h
      | suspend a resume =>
          have hChanged : s₁.Idles
              { s₁ with
                cleanups := s₁.cleanups.modify S.cell
                  ({ · with inner := resume }) } :=
            have h := Ordering.founds.alterCleanup S.cell resume
              (Ordering.sound hs₁)
            ⟨h.sound.inv, h.rel, rfl⟩
          refine Run.ensures_alter_bind.mpr
            ((Run.ensures_newStep _ _).mono ?_)
          rintro r _ ⟨rfl, made, rfl, hMade⟩
          refine .suspends hBody hStep
            (hChanged.trans hChanged.orderly.idles_stamped) ?_
          rw [← hStands.entry]
          exact hMade
      | handOff v =>
          rcases hFutures step s₁ v hBody hStep with ⟨f, rfl⟩
          refine Run.Ensures.bind
            ((Awaiter.ensures_ofFuture caller f hs₁).mono ?_)
          rintro _ s₂ ⟨hIdles, hSame, a, rfl, hAwaiter⟩
          refine ensures_completed_bind hAwaiter ?_
          rw [hSame]
          cases hOutcome : s₁.outcome? f with
          | some o =>
              refine (ensures_outcome hIdles.orderly hc
                (hStands₁.later hIdles.grows) hAwaiter).mono ?_
              rintro r s' ⟨own, s₃, hComes, hIdles₃, hCloses⟩
              cases hComes with
              | pending hNone _ =>
                  rw [hSame, hOutcome] at hNone
                  cases hNone
              | settled hSome =>
                  rw [hSame, hOutcome] at hSome
                  obtain rfl := Option.some.inj hSome
                  exact .handsOff hBody hStep hOutcome
                    (hIdles.trans hIdles₃) hCloses
          | none =>
              have hStands₂ := hStands₁.later hIdles.grows
              have hInstall := Label.ensures_install
                hStands₂.exists_ (.cleanupOutcome S.cell (.awaiter a))
                (Ordering.sound hIdles.orderly)
              rw [← hStands.machine] at hInstall
              refine Run.Ensures.bind (hInstall.mono ?_)
              rintro _ s₃ ⟨hIdles₃, rfl, hAwaiters, hBears⟩
              refine (Run.ensures_newStep _ s₃).mono ?_
              rintro r _ ⟨rfl, made, rfl, hMade⟩
              have hWaits : Hands s₃.stamped m S.cell
                  s₂.labels.size (some f) :=
                .settle (hStands.machine ▸ hBears)
                  (by rw [← hAwaiter, ← hAwaiters]; rfl)
              exact .waits hBody hStep hOutcome
                ((hIdles.trans hIdles₃).trans
                  hIdles₃.orderly.idles_stamped) hMade hWaits

/-
  A jump to a label that a cleanup hands out takes its turn,
  by a caller that may call less deep.
-/
theorem ensures_turn
    {rounds depth : Nat}
    {waits : Option Ref}
    (hs : s.Orderly)
    (hStands : S.Stands m s)
    (hHands : Hands s m S.cell l waits)
    (hFutures : HandsFutures (.ofDepth rounds depth) S.cell s) :
    (Label.jump (.ofDepth rounds (depth + 1)) m
      (.label l)).Ensures s
        (Turn (.ofDepth rounds depth) S m s waits) := by
  have hc := Ordering.serves rounds depth
  cases hHands with
  | entry hBears =>
      exact Label.ensures_jump hBears
        (fun step s' h _ => h.isStep)
        (ensures_enter hs hc hStands hFutures)
  | settle hBears hAwaiter =>
      refine Label.ensures_jump hBears
        (fun step s' h _ => h.isStep) ?_
      exact (ensures_outcome hs hc hStands hAwaiter).mono
        fun r s' h => .settles h

/- Whenever a turn is at its end, the compensation was invoked. -/
theorem Turn.compensated
    {waits : Option Ref}
    {r : Except Value Value}
    (hc : Ordering.Serves caller)
    (hs : s.Orderly)
    (hStands : S.Stands m s)
    (h : Turn caller S m s waits r s')
    (hEnd : Terminates r) :
    s'.compensations S.cell = 1 := by
  have hBodyMoves : ∀ {r₁ s₁}, body caller S.cell s =
      some (r₁, s₁) → Ordering.Moves s s₁ :=
    fun hBody => Ordering.founds.keeps_jump hc
      (Ordering.sound hs) _ _ _ _ hBody
  have hAwaits : ∀ {made : Value} {a b},
      made.step? = some (.suspend a b) →
        ¬ Terminates (.ok made) := by
    rintro made a b hMade ⟨v, hStep⟩
    rw [hMade] at hStep
    cases hStep
  cases h with
  | fails hBody hCloses =>
      have hMoves := hBodyMoves hBody
      exact hCloses.compensated hc hMoves.sound.inv
        (hStands.later hMoves.rel)
  | finishes hBody _ hCloses =>
      have hMoves := hBodyMoves hBody
      exact hCloses.compensated hc hMoves.sound.inv
        (hStands.later hMoves.rel)
  | handsOff hBody _ _ hIdles hCloses =>
      have hMoves := hBodyMoves hBody
      exact hCloses.compensated hc hIdles.orderly
        ((hStands.later hMoves.rel).later hIdles.grows)
  | waits _ _ _ _ hMade _ => exact absurd hEnd (hAwaits hMade)
  | suspends _ _ _ hMade => exact absurd hEnd (hAwaits hMade)
  | settles h =>
      rcases h with ⟨own, s₁, _, hIdles, hCloses⟩
      exact hCloses.compensated hc hIdles.orderly
        (hStands.later hIdles.grows)

/- A turn that suspends invokes nothing after its body has. -/
theorem Turn.suspended
    {waits : Option Ref}
    {r : Except Value Value}
    (h : Turn caller S m s waits r s')
    (hSuspends : ¬ Terminates r) :
    ∃ step s₁, body caller S.cell s = some (.ok step, s₁) ∧
      s₁.Idles s' := by
  cases h with
  | fails _ hCloses => exact absurd hCloses.terminates hSuspends
  | finishes _ _ hCloses =>
      exact absurd hCloses.terminates hSuspends
  | handsOff _ _ _ _ hCloses =>
      exact absurd hCloses.terminates hSuspends
  | waits hBody _ _ hIdles _ _ => exact ⟨_, _, hBody, hIdles⟩
  | suspends hBody _ hIdles _ => exact ⟨_, _, hBody, hIdles⟩
  | settles h =>
      rcases h with ⟨_, _, _, _, hCloses⟩
      exact absurd hCloses.terminates hSuspends

------------------------------------------------------------
-- Visits
------------------------------------------------------------

/- A jump to a label of a cleanup, from its start to its end. -/
structure Visit where
  depth : Nat
  before : Session
  label : Ref
  waits : Option Ref
  result : Except Value Value
  after : Session

/-
  Any number of jumps to labels that a cleanup hands out, the
  last one first, with anything happening in between: a label
  may be jumped to repeatedly, late and in any order.
-/
inductive Visits
    (rounds : Nat)
    (S : Site)
    (m : Ref)
    (s : Session) : List Visit → Session → Prop where
  | none : Visits rounds S m s [] s
  | later
      {visits s₁ s₂}
      (h : Visits rounds S m s visits s₁)
      (hGrows : s₁.Grows s₂)
      (hOrderly : s₂.Orderly) :
      Visits rounds S m s visits s₂
  | jump
      {visits visit}
      (h : Visits rounds S m s visits visit.before)
      (hHands : Hands visit.before m S.cell visit.label
        visit.waits)
      (hFutures : HandsFutures (.ofDepth rounds visit.depth)
        S.cell visit.before)
      (hJump : Label.jump (.ofDepth rounds (visit.depth + 1)) m
        (.label visit.label) visit.before =
          some (visit.result, visit.after)) :
      Visits rounds S m s (visit :: visits) visit.after

/- Jumps keep order, and each of them takes its turn. -/
theorem Visits.turns
    {rounds : Nat}
    {visits : List Visit}
    (hs : s.Orderly)
    (hStands : S.Stands m s)
    (h : Visits rounds S m s visits s') :
    Ordering.Moves s s' ∧ ∀ visit ∈ visits,
      Ordering.Moves s visit.before ∧
        Turn (.ofDepth rounds visit.depth) S m visit.before
          visit.waits visit.result visit.after := by
  induction h with
  | none => exact ⟨.refl (Ordering.sound hs), by simp⟩
  | later _ hGrows hOrderly ih =>
      exact ⟨ih.1.trans (Ordering.moves_of hOrderly hGrows),
        ih.2⟩
  | @jump visits visit _ hHands hFutures hJump ih =>
      have hJumped := Ordering.founds.keeps_jump
        (Ordering.serves rounds (visit.depth + 1)) ih.1.sound
        m (.label visit.label) _ _ hJump
      refine ⟨ih.1.trans hJumped, fun visit' hMem => ?_⟩
      rcases List.mem_cons.mp hMem with rfl | hMem
      · exact ⟨ih.1, ensures_turn ih.1.sound.inv
          (hStands.later ih.1.rel) hHands hFutures _ _ hJump⟩
      · exact ih.2 visit' hMem

------------------------------------------------------------
-- Building
------------------------------------------------------------

/- A new cleanup is founded in order. -/
theorem ordered_withCleanup
    (hs : s.Orderly)
    (hm : m < s.machines.size)
    (body compensation : Closure) :
    Ordering.Moves s (s.withCleanup m body compensation) := by
  have h₁ := Ordering.moves_withLabel (Ordering.sound hs) m none
  have h₂ := Ordering.moves_withLabel h₁.sound m (some body)
  have hRow : Ordering.Moves
      ((s.withLabel m none).withLabel m (some body))
      (((s.withLabel m none).withLabel m
        (some body)).withCleanupRow
          ⟨m, s.labels.size,
            .label (s.withLabel m none).labels.size,
            compensation, false, s.task⟩) :=
    Ordering.founds.newCleanup h₂.sound trivial rfl
  have h₄ := (bears_entry hm body compensation).moves_relabelled
    hRow.sound (.cleanupEntry s.cleanups.size)
  exact ((h₁.trans h₂).trans hRow).trans h₄

/- Founding a cleanup keeps order, and has it stand. -/
theorem founding_stands
    (hs : s.Orderly)
    (hm : m < s.machines.size)
    (hChecks : (s.machines.getD m default).assertions = true)
    (body compensation : Closure) :
    Ordering.Moves s (s.founding m body compensation) ∧
      (newSite s compensation).Stands m
        (s.founding m body compensation) ∧
      Hands (s.founding m body compensation) m s.cleanups.size
        s.labels.size none ∧
      (s.founding m body compensation).compensations
        s.cleanups.size = 0 := by
  have hMoves := ordered_withCleanup hs hm body compensation
  have hGround := sameGround_tending
    (s.withCleanup m body compensation)
    (.entered s.cleanups.size)
  have hFounded : Ordering.Moves s
      (s.founding m body compensation) :=
    hMoves.trans (Ordering.moves hMoves.sound hGround)
  have hAt := at_withCleanup hm body compensation
  rcases hAt.cell with ⟨t, hCell⟩
  rw [← hGround.cleanups] at hCell
  have hRow : (s.founding m body compensation).cleanups.getD
      (newSite s compensation).cell default =
        ⟨m, s.labels.size,
          .label (s.withLabel m none).labels.size, compensation,
          false, t⟩ := by
    rw [Array.getD_eq_getD_getElem?]
    exact congrArg (·.getD default) hCell
  have hEntry : (s.founding m body compensation).Bears m
      s.labels.size (some (.cleanupEntry s.cleanups.size)) := by
    have hBears := hAt.entry
    unfold Session.Bears at hBears ⊢
    rw [show (s.founding m body compensation).labels = _ from
      hGround.labels,
      show (s.founding m body compensation).machines = _ from
      hGround.machines]
    exact hBears
  refine ⟨hFounded, ?_, .entry hEntry, ?_⟩
  · exact
      { lt := (Array.getElem?_eq_some_iff.mp hCell).1
        machine := by rw [hRow]
        entry := by rw [hRow]; rfl
        compensation := by rw [hRow]; rfl
        exists_ := Nat.lt_of_lt_of_le hm
          hFounded.rel.machines.size_le
        checks :=
          (hFounded.rel.machines.getD hm).assertions.trans
            hChecks }
  · have hPast : (s.withCleanup m body compensation).chronicle =
        s.chronicle := by
      simp only [withCleanup, withCleanupRow, withLabel,
        relabelled]
    rw [show (s.founding m body compensation).compensations = _
      from hGround.compensations, compensations, hPast,
      ← compensations, hs.counted]
    simp

/- Building a cleanup founds it, and then jumps to its entry. -/
theorem build_eq
    (caller : Caller)
    (hm : m < s.machines.size)
    (body compensation : Closure) :
    build caller (.machine m) body compensation s =
      Label.jump caller m (.label s.labels.size)
        (s.founding m body compensation) := by
  refine Run.step_eq (a := m) rfl ?_
  refine Run.step_eq (Label.allocate_eq m s) ?_
  refine Run.step_eq (Label.install_eq m body _) ?_
  refine Run.step_eq rfl (Run.step_eq rfl ?_)
  have hEntry := bears_entry hm body compensation
  exact Run.step_eq (Label.replace_eq hEntry
    (.cleanupEntry s.cleanups.size))
      (Run.step_eq (Run.tendHere_tending _ _) rfl)

------------------------------------------------------------
-- Compensating Once
------------------------------------------------------------

/-
  Building a cleanup founds it and jumps to its entry.  From
  then on, however often and in whichever order the labels
  that it hands out are jumped to, its compensation is
  invoked at most once.  A jump that returns or throws leaves
  it invoked; one that suspends has not invoked it beyond
  what its body did.  The jump that invokes it throws what it
  throws, and any other end is that of the body or of the
  hand-off.
-/
theorem compensates_once_before_any_end
    (hs : s.Orderly)
    (hm : m < s.machines.size)
    (hChecks : (s.machines.getD m default).assertions = true)
    (code compensation : Closure) :
    let i := s.cleanups.size
    let s₁ := s.founding m code compensation
    (∀ caller,
      build caller (.machine m) code compensation s =
        Label.jump caller m (.label s.labels.size) s₁) ∧
    Hands s₁ m i s.labels.size none ∧
    s₁.compensations i = 0 ∧
    ∀ rounds visits s',
      Visits rounds (newSite s compensation) m s₁ visits s' →
      s'.compensations i ≤ 1 ∧
      ∀ visit ∈ visits,
        Turn (.ofDepth rounds visit.depth)
          (newSite s compensation) m visit.before visit.waits
          visit.result visit.after ∧
        (Terminates visit.result →
          visit.after.compensations i = 1) ∧
        (¬ Terminates visit.result → ∃ step s₂,
          body (.ofDepth rounds visit.depth) i visit.before =
            some (.ok step, s₂) ∧
          s₂.Idles visit.after) := by
  intro i s₁
  rcases founding_stands hs hm hChecks code compensation with
    ⟨hMoves, hStands, hHands, hNever⟩
  refine ⟨fun caller => build_eq caller hm code compensation,
    hHands, hNever, fun rounds visits s' hVisits => ?_⟩
  rcases hVisits.turns hMoves.sound.inv hStands with
    ⟨hLater, hTurns⟩
  refine ⟨compensations_le hLater.sound.inv i,
    fun visit hMem => ?_⟩
  rcases hTurns visit hMem with ⟨hBefore, hTurn⟩
  exact ⟨hTurn,
    hTurn.compensated (Ordering.serves rounds visit.depth)
      hBefore.sound.inv (hStands.later hBefore.rel),
    hTurn.suspended⟩

/- A body that finishes, and a compensation that fails. -/
private def finishing : Closure :=
  .client fun _ => .request (.newStep (.finish (.int 7)))

private def failing : Closure :=
  .client fun _ => .fail (.str "broken")

/- What the body returned is lost to the compensation's error. -/
theorem compensates_once_failing :
    ∃ s', Label.jump (.ofDepth 1 2) 0 (.label 0)
        ((Session.empty.withMachine true).founding 0 finishing
          failing) = some (.error (.str "broken"), s') ∧
      s'.compensations 0 = 1 := by
  let s := (Session.empty.withMachine true).founding 0 finishing
    failing
  have hs : (Session.empty.withMachine true).Orderly :=
    (Ordering.founds.newMachine true
      (Ordering.sound orderly_empty)).sound.inv
  rcases compensates_once_before_any_end (m := 0) hs
    (by decide) rfl finishing failing with ⟨_, hHands, _, hAll⟩
  have hFutures : HandsFutures (.ofDepth 1 1) 0 s := by
    intro step s₁ v hBody hStep
    have hMade := Except.ok.inj
      (Prod.mk.inj (Option.some.inj hBody)).1
    rw [← hMade] at hStep
    cases hStep
  obtain ⟨s', hJump⟩ : ∃ s',
      Label.jump (.ofDepth 1 2) 0 (.label 0) s =
        some (.error (.str "broken"), s') := ⟨_, rfl⟩
  let visit : Visit :=
    ⟨1, s, 0, none, .error (.str "broken"), s'⟩
  have hVisits :
      Visits 1 (newSite (Session.empty.withMachine true) failing)
        0 s [visit] s' :=
    .jump .none hHands hFutures hJump
  have hEnds := ((hAll 1 [visit] s' hVisits).2 visit
    List.mem_cons_self).2.1
  exact ⟨s', hJump, hEnds trivial⟩

end Cleanup

end Resumption

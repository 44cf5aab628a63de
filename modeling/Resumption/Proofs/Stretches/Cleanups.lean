import Resumption.Proofs.Order.Cleanups
import Resumption.Proofs.Order.Recoveries
import Resumption.Proofs.Stretches

/-
  The stretches of a cleanup are those of its body.

  While the body is suspended, so is the cleanup, on the same
  awaiter; while what the body handed off to is pending, the
  cleanup waits for that.  When either has come to an end,
  the compensation is called, once, and what it throws takes
  the place of how that ended.

  Main declarations:
    * `Cleanup.Site.Rests`
    * `Cleanup.Shuts`, `Cleanup.Tracks`
    * `Cleanup.tracks`
-/

namespace Resumption

open Session World

variable {s s₁ s₂ s' : Session}
variable {m l : Ref}
variable {cells : List Ref}
variable {r : Except Value Value}

------------------------------------------------------------
-- Jumps
------------------------------------------------------------

/-
  A jump to a label that bears code ensures what entering the
  code with less depth does.
-/
theorem Label.ensures_below
    {rounds depth : Nat}
    {code : Closure}
    {post : Except Value Value → Session → Prop}
    (hBears : s.Bears m l (some code))
    (hSteps : ∀ step s', post (.ok step) s' →
      step.isStep = true)
    (hEnter : ∀ d < depth,
      (code.enter (.ofDepth rounds d) []).Ensures s post) :
    (Label.jump (.ofDepth rounds depth) m (.label l)).Ensures s
      post := by
  cases depth with
  | zero =>
      intro r s' hRun
      rcases Label.jump_eq hBears with ⟨id, hJump⟩
      have hNone := (hJump (.ofDepth rounds 0)).trans
        (Run.bind_of_none rfl)
      exact nomatch hNone.symm.trans hRun
  | succ depth =>
      exact Label.ensures_jump hBears
        (fun step s' hPost _ => hSteps step s' hPost)
        (hEnter depth (Nat.lt_succ_self depth))

/- A call ensures what entering the closure with less depth does. -/
theorem Run.ensures_call_below
    {rounds depth : Nat}
    {code : Closure}
    {args : List Value}
    {post : Except Value Value → Session → Prop}
    (hEnter : ∀ d < depth,
      (code.enter (.ofDepth rounds d) args).Ensures s post) :
    ((Caller.ofDepth rounds depth).call code args).Ensures s
      post := by
  cases depth with
  | zero => exact Run.ensures_exhaust
  | succ depth => exact hEnter depth (Nat.lt_succ_self depth)

/-
  A jump to a label that bears code ends as entering that
  code does, if this ends with a step or with an error.
-/
theorem Run.Ends.jump
    {code : Closure}
    {post : Except Value Value → Session → Prop}
    (h : Run.Ends
      (fun caller => Label.jump caller m (.label l)) s r s')
    (hBears : s.Bears m l (some code))
    (hSteps : ∀ step s', post (.ok step) s' →
      step.isStep = true)
    (hEnter : ∀ rounds depth,
      (code.enter (.ofDepth rounds depth) []).Ensures s post) :
    post r s' := by
  rcases h with ⟨rounds, depth, hRun⟩
  exact Label.ensures_below hBears hSteps
    (fun d _ => hEnter rounds d) r s' hRun

/-
  A step that suspends at a new label, with code under it, is
  made tidily.
-/
theorem Label.ensures_suspend
    {code : Closure}
    (cells : List Ref)
    (awaiter : Value)
    (hs : s.Orderly)
    (hm : m < s.machines.size) :
    (do
      let l ← Label.install m code
      Run.newStep (.suspend awaiter (.label l)) :
        Run Value).Ensures s fun r s' =>
      s' = (s.withLabel m (some code)).stamped ∧
        s.Tidies cells s' ∧
        s'.Bears m s.labels.size (some code) ∧
        ∃ made, r = .ok made ∧ made.step? =
          some (.suspend awaiter (.label s.labels.size)) := by
  have hLabel : s.Tidies cells (s.withLabel m (some code)) :=
    .withLabel hs m _
  have hAll := hLabel.trans (.stamped hLabel.orderly)
  refine Run.Ensures.bind ?_
  intro r s₁ hInstall
  rw [Label.install_eq] at hInstall
  obtain ⟨rfl, rfl⟩ := Prod.mk.inj (Option.some.inj hInstall)
  refine (Run.ensures_newStep _ _).mono ?_
  rintro r _ ⟨rfl, made, rfl, hMade⟩
  exact ⟨rfl, hAll, s.bears_withLabel hm _, made, rfl, hMade⟩

namespace Cleanup

variable {S : Site}
variable {env : Session → Session → Prop}
variable {inner : Value}
variable {q own : Except Value Value}

------------------------------------------------------------
-- Resting
------------------------------------------------------------

/-
  A cleanup is there and was not compensated, and its body
  resumes at the given place.
-/
structure Site.Rests
    (S : Site)
    (m : Ref)
    (inner : Value)
    (s : Session) : Prop where
  row : ∃ t, s.cleanups[S.cell]? =
    some ⟨m, S.entry, inner, S.compensation, false, t⟩
  entry : s.Bears m S.entry (some (.cleanupEntry S.cell))

theorem Site.Rests.later
    (h : S.Rests m inner s)
    (hRespects : s.Respects [S.cell] s') :
    S.Rests m inner s' where
  row := by
    rcases h.row with ⟨t, hRow⟩
    exact ⟨t, (hRespects.cleanups S.cell
      (List.mem_singleton.mpr rfl)).trans hRow⟩
  entry := hRespects.bears m S.entry _ nofun h.entry

theorem Site.Rests.lt
    (h : S.Rests m inner s) :
    S.cell < s.cleanups.size := by
  rcases h.row with ⟨t, hRow⟩
  exact (Array.getElem?_eq_some_iff.mp hRow).1

theorem Site.Rests.getD
    (h : S.Rests m inner s) :
    ∃ t, s.cleanups.getD S.cell default =
      ⟨m, S.entry, inner, S.compensation, false, t⟩ := by
  rcases h.row with ⟨t, hRow⟩
  exact ⟨t, by simp [Array.getD_eq_getD_getElem?, hRow]⟩

/- While a cleanup rests, its compensation was not invoked. -/
theorem Site.Rests.compensations
    (h : S.Rests m inner s)
    (hs : s.Orderly) :
    s.compensations S.cell = 0 := by
  rcases h.row with ⟨t, hRow⟩
  rw [hs.counted, hRow]
  rfl

------------------------------------------------------------
-- Shutting
------------------------------------------------------------

/-
  How a cleanup shuts when its body has come to an end: its
  compensation is invoked, for the first time, and called.
-/
inductive Shuts
    (S : Site)
    (own : Except Value Value)
    (s : Session) :
    Except Value Value → Session → Prop where
  | intro
      {s₁ o s₂ r s'}
      (hNever : s.compensations S.cell = 0)
      (hInvoked : s.Tidies [S.cell] s₁)
      (hOnce : s₁.compensations S.cell = 1)
      (hCall : Run.Ends
        (fun caller => caller.call S.compensation []) s₁ o s₂)
      (hTidies : s₂.Tidies [S.cell] s')
      (hYields : Yields r (overridden own o)) :
      Shuts S own s r s'

theorem Shuts.terminates
    (h : Shuts S own s r s') :
    Terminates r := by
  cases h with
  | intro _ _ _ _ _ hYields => exact hYields.terminates

theorem Shuts.isStep
    {step : Value}
    (h : Shuts S own s (.ok step) s') :
    step.isStep = true := by
  rcases h.terminates with ⟨v, hStep⟩
  simp [Value.isStep, hStep]

/- Tidying up may come first. -/
theorem Shuts.precede
    (h : Shuts S own s₁ r s')
    (hNever : s.compensations S.cell = 0)
    (hTidies : s.Tidies [S.cell] s₁) :
    Shuts S own s r s' := by
  cases h with
  | intro _ hInvoked hOnce hCall hTidies' hYields =>
      exact .intro hNever (hTidies.trans hInvoked) hOnce hCall
        hTidies' hYields

/- A cleanup that has shut was compensated, and is in order. -/
theorem Shuts.compensated
    (h : Shuts S own s r s') :
    s'.compensations S.cell = 1 := by
  cases h with
  | intro _ hInvoked hOnce hCall hTidies _ =>
      have hMoves := hCall.moves_call hInvoked.orderly
      have hLeast := hMoves.rel.compensated S.cell
      have hLater := hTidies.grows.compensated S.cell
      have hMost := compensations_le hTidies.orderly S.cell
      omega

theorem Shuts.moves
    (h : Shuts S own s r s') :
    Ordering.Moves s s' := by
  cases h with
  | intro _ hInvoked _ hCall hTidies _ =>
      have hMoves := hCall.moves_call hInvoked.orderly
      exact Ordering.moves_of hTidies.orderly
        (hInvoked.grows.trans
          (hMoves.rel.trans hTidies.grows))

/- It respects what its compensation respects. -/
theorem Shuts.respects
    (h : Shuts S own s r s')
    (hCells : S.cell ∉ cells)
    (hCompensation : ∀ s₁ o s₂, s.Tidies [S.cell] s₁ →
      Run.Ends (fun caller => caller.call S.compensation [])
        s₁ o s₂ → s₁.Respects cells s₂) :
    s.Respects cells s' := by
  have hOthers : ∀ i ∈ cells, i ∉ [S.cell] := by
    intro i hi
    rw [List.mem_singleton]
    rintro rfl
    exact hCells hi
  cases h with
  | intro _ hInvoked _ hCall hTidies _ =>
      exact ((hInvoked.respects hOthers).trans
        (hCompensation _ _ _ hInvoked hCall)).trans
          (hTidies.respects hOthers)

/- Invoking a compensation is tidy. -/
theorem tidies_compensating
    (hs : s.Orderly)
    (hRests : S.Rests m inner s) :
    s.Tidies [S.cell]
        ((s.compensating S.cell).tending (.compensated S.cell)) ∧
      ((s.compensating S.cell).tending
        (.compensated S.cell)).compensations S.cell = 1 := by
  rcases invoked hs (hRests.compensations hs) hRests.lt with
    ⟨hMoves, hOnce⟩
  have hGround := sameGround_tending (s.compensating S.cell)
    (.compensated S.cell)
  have hInvoked : s.Tidies [S.cell] (s.compensating S.cell) :=
    { orderly := hMoves.sound.inv
      grows := hMoves.rel
      bears := fun _ _ _ h => h
      cleanups := fun i hi => by
        rw [List.mem_singleton] at hi
        simp [compensating, Array.getElem?_modify, Ne.symm hi]
      scenery := rfl }
  refine ⟨hInvoked.trans (.of_ground hMoves.sound.inv hGround ?_),
    ?_⟩
  · unfold tending
    split <;> rfl
  · rw [hGround.compensations]
    exact hOnce

/-
  Compensating, and then ending the way the body did, shuts a
  cleanup.
-/
theorem ensures_shuts
    {rounds depth : Nat}
    {end_ : Run Value}
    (hs : s.Orderly)
    (hRests : S.Rests m inner s)
    (hEnd : ∀ s₁, s₁.Orderly → end_.Ensures s₁ fun r s' =>
      Yields r own ∧ s₁.Tidies [S.cell] s') :
    (do
      compensate (.ofDepth rounds depth) S.cell
      end_ : Run Value).Ensures s (Shuts S own s) := by
  rcases hRests.getD with ⟨t, hRow⟩
  rcases tidies_compensating hs hRests with ⟨hInvoked, hOnce⟩
  have hNever := hRests.compensations hs
  refine Run.Ensures.bind (Run.ensures_row_bind.mpr ?_)
  rw [show (Table.cleanups.rows s).getD S.cell default =
    s.cleanups.getD S.cell default from rfl, hRow]
  rw [if_neg Bool.false_ne_true]
  refine Run.ensures_modify_bind.mpr (Run.Ensures.bind ?_)
  intro r₁ s₁ hTend
  rw [Run.tendHere_tending] at hTend
  obtain ⟨rfl, rfl⟩ := Prod.mk.inj (Option.some.inj hTend)
  refine Run.Ensures.discard ?_
  intro o s₂ hCall
  have hEnds : Run.Ends
      (fun caller => caller.call S.compensation []) _ o s₂ :=
    ⟨rounds, depth, hCall⟩
  have hMoves := hEnds.moves_call hInvoked.orderly
  cases o with
  | error e =>
      exact .intro hNever hInvoked hOnce hEnds
        (.refl hMoves.sound.inv _) rfl
  | ok v =>
      refine (hEnd s₂ hMoves.sound.inv).mono ?_
      rintro r s' ⟨hYields, hTidies⟩
      exact .intro hNever hInvoked hOnce hEnds hTidies hYields

/- Reading the future that was handed off to shuts a cleanup. -/
theorem ensures_outcome_shuts
    {rounds depth a f : Nat}
    {captured : Bool}
    {o : Outcome}
    (hs : s.Orderly)
    (hRests : S.Rests m inner s)
    (hAwaiter : s.awaiters[a]? = some (.future f captured))
    (hOutcome : s.outcome? f = some o) :
    (outcome (.ofDepth rounds depth) S.cell
      (.awaiter a)).Ensures s (Shuts S o.read s) := by
  unfold outcome
  refine Run.Ensures.bind (Run.ensures_attempt.mpr
    (ensures_result hAwaiter hOutcome ?_))
  cases o with
  | fulfilled v =>
      refine ensures_shuts hs hRests fun s₁ hs₁ =>
        (Run.ensures_newStep _ s₁).mono ?_
      rintro r _ ⟨rfl, made, rfl, hMade⟩
      exact ⟨hMade, .stamped hs₁⟩
  | rejected e =>
      exact ensures_shuts hs hRests fun s₁ hs₁ =>
        Run.ensures_raise.mpr ⟨rfl, .refl hs₁ _⟩

------------------------------------------------------------
-- Tracking
------------------------------------------------------------

/-
  How a stretch of a cleanup ends, and where, when the last
  stretch of its body has ended in the given way.
-/
inductive Tracks
    (env : Session → Session → Prop)
    (S : Site)
    (m : Ref)
    (s : Session) :
    Except Value Value →
      Except Value Value → Session → Prop where
  /- The body is suspended: the cleanup awaits the same. -/
  | suspended
      {step awaiter resume made s'}
      (hStep : step.step? = some (.suspend awaiter resume))
      (hTidies : s.Tidies [S.cell] s')
      (hMade : made.step? =
        some (.suspend awaiter (.label S.entry)))
      (hRests : S.Rests m resume s') :
      Tracks env S m s (.ok step) (.ok made) s'
  /- What the body handed off to is pending: await that. -/
  | waiting
      {step f made a l inner s'}
      (hStep : step.step? = some (.handOff (.future f)))
      (hPending : s.outcome? f = none)
      (hTidies : s.Tidies [S.cell] s')
      (hMade : made.step? =
        some (.suspend (.awaiter a) (.label l)))
      (hAwaiter : s'.awaiters[a]? = some (.future f true))
      (hBears : s'.Bears m l
        (some (.cleanupOutcome S.cell (.awaiter a))))
      (hRests : S.Rests m inner s') :
      Tracks env S m s (.ok step) (.ok made) s'
  /- The body has come to an end: the cleanup has shut. -/
  | shut
      {q own r : Except Value Value}
      {s₁ s' : Session}
      (hConcludes : Concludes (Around S.cell env) s q own s₁)
      (hShuts : Shuts S own s₁ r s') :
      Tracks env S m s q r s'

theorem Tracks.isStep
    {step : Value}
    (h : Tracks env S m s q (.ok step) s') :
    step.isStep = true := by
  cases h with
  | suspended _ _ hMade _ => simp [Value.isStep, hMade]
  | waiting _ _ _ hMade _ _ _ => simp [Value.isStep, hMade]
  | shut _ hShuts => exact hShuts.isStep

/-
  Entering a cleanup runs its body where that resumes, and
  tracks it.
-/
theorem ensures_tracks
    {rounds depth : Nat}
    (hs : s.Orderly)
    (hRests : S.Rests m inner s)
    (hCells : S.cell ∉ cells)
    (hBody : ∀ q s₁, Run.Ends
      (fun caller => Label.jump caller m inner) s q s₁ →
      s.Respects (S.cell :: cells) s₁ ∧
        (∀ step, q = .ok step → step.Fits) ∧
        ∀ own, Concludes (Around S.cell env) s₁ q own s₁ →
          ∀ s₂ o s₃, s₁.Tidies [S.cell] s₂ →
            Run.Ends
              (fun caller => caller.call S.compensation [])
              s₂ o s₃ → s₂.Respects cells s₃) :
    (enter (.ofDepth rounds depth) S.cell).Ensures s
      fun r s' => ∃ q s₁,
        Run.Ends (fun caller => Label.jump caller m inner)
          s q s₁ ∧
        Tracks env S m s₁ q r s' ∧ s.Respects cells s' := by
  rcases hRests.getD with ⟨t, hRow⟩
  have hOthers : ∀ i ∈ cells, i ∉ [S.cell] := by
    intro i hi
    rw [List.mem_singleton]
    rintro rfl
    exact hCells hi
  have hAll : ∀ i ∈ cells, i ∈ S.cell :: cells :=
    fun i hi => List.mem_cons_of_mem _ hi
  unfold enter
  refine Run.ensures_row_bind.mpr ?_
  rw [show (Table.cleanups.rows s).getD S.cell default =
    s.cleanups.getD S.cell default from rfl, hRow]
  refine Run.Ensures.bind (Run.ensures_attempt.mpr ?_)
  intro q s₁ hRun
  have hEnds : Run.Ends
      (fun caller => Label.jump caller m inner) s q s₁ :=
    ⟨rounds, depth, hRun⟩
  rcases hBody q s₁ hEnds with ⟨hRespects, hFits, hCompensation⟩
  have hMoves := hEnds.moves_jump hs
  have hs₁ := hMoves.sound.inv
  have hRests₁ : S.Rests m inner s₁ :=
    hRests.later (hRespects.mono fun i hi => by
      rw [List.mem_singleton.mp hi]
      exact List.mem_cons_self)
  have hSpared := hRespects.mono hAll
  -- However the body ends here, the cleanup shuts at once.
  have hShut : ∀ {own r s'},
      Concludes (Around S.cell env) s₁ q own s₁ →
      Shuts S own s₁ r s' → ∃ q s₂, Run.Ends
          (fun caller => Label.jump caller m inner) s q s₂ ∧
        Tracks env S m s₂ q r s' ∧ s.Respects cells s' := by
    intro own r s' hConcludes hShuts
    exact ⟨q, s₁, hEnds, .shut hConcludes hShuts,
      hSpared.trans (hShuts.respects hCells
        (hCompensation own hConcludes))⟩
  cases q with
  | error e =>
      have hRaise : ∀ s₂, s₂.Orderly →
          (Run.raise e : Run Value).Ensures s₂ fun r s' =>
            Yields r (.error e) ∧ s₂.Tidies [S.cell] s' :=
        fun s₂ hs₂ => Run.ensures_raise.mpr ⟨rfl, .refl hs₂ _⟩
      exact (ensures_shuts hs₁ hRests₁ hRaise).mono
        fun r s' h => hShut .throws h
  | ok step =>
      have hFit := hFits step rfl
      change (if step.isMissing = true then _ else _ :
        Run Value).Ensures s₁ _
      rw [if_neg (by
        simp [Value.not_missing_of_isStep hFit.isStep])]
      rcases hFit with ⟨view, hStep, hFutures⟩
      rw [hStep]
      cases view with
      | finish v =>
          have hPure : ∀ s₂, s₂.Orderly →
              (pure step : Run Value).Ensures s₂ fun r s' =>
                Yields r (.ok v) ∧ s₂.Tidies [S.cell] s' :=
            fun s₂ hs₂ =>
              Run.ensures_pure.mpr ⟨hStep, .refl hs₂ _⟩
          exact (ensures_shuts hs₁ hRests₁ hPure).mono
            fun r s' h => hShut (.returns hStep) h
      | suspend awaiter resume =>
          have hChanged := Ordering.founds.alterCleanup S.cell
            resume (Ordering.sound hs₁)
          have hTidies : s₁.Tidies [S.cell]
              { s₁ with
                cleanups := s₁.cleanups.modify S.cell
                  ({ · with inner := resume }) } :=
            { orderly := hChanged.sound.inv
              grows := hChanged.rel
              bears := fun _ _ _ h => h
              cleanups := fun i hi => by
                rw [List.mem_singleton] at hi
                simp [Array.getElem?_modify, Ne.symm hi]
              scenery := rfl }
          have hAll := hTidies.trans (.stamped hTidies.orderly)
          refine Run.ensures_alter_bind.mpr
            ((Run.ensures_newStep _ _).mono ?_)
          rintro r _ ⟨rfl, made, rfl, hMade⟩
          refine ⟨_, s₁, hEnds, .suspended hStep hAll hMade ?_,
            hSpared.trans (hAll.respects hOthers)⟩
          rcases hRests₁.row with ⟨t₁, hRow₁⟩
          refine ⟨⟨t₁, ?_⟩, hRests₁.entry⟩
          change (s₁.cleanups.modify S.cell _)[S.cell]? = _
          simp [Array.getElem?_modify, hRow₁]
      | handOff v =>
          rcases hFutures v rfl with ⟨f, rfl⟩
          refine Run.Ensures.bind
            ((Awaiter.ensures_made _ f).mono ?_)
          rintro _ s₂ ⟨hMade, rfl, hAwaiter⟩
          have hTidies : s₁.Tidies [S.cell] s₂ :=
            hMade ▸ .withAwaiter hs₁ _
          have hSame : s₂.outcome? f = s₁.outcome? f := by
            rw [hMade]
            rfl
          have hRests₂ : S.Rests m inner s₂ := by
            rw [hMade]
            exact ⟨hRests₁.row, hRests₁.entry⟩
          refine ensures_completed_bind hAwaiter ?_
          cases hOutcome : s₂.outcome? f with
          | some o =>
              refine (ensures_outcome_shuts hTidies.orderly
                hRests₂ hAwaiter hOutcome).mono fun r s' h => ?_
              exact hShut (.settled hStep (hSame ▸ hOutcome))
                (h.precede (hRests₁.compensations hs₁) hTidies)
          | none =>
              refine (Label.ensures_suspend [S.cell] _ hTidies.orderly
                hRests₂.entry.lt_machines).mono ?_
              rintro _ s₃ ⟨rfl, hLabel, hBears, made, rfl, hView⟩
              have hAll := hTidies.trans hLabel
              exact ⟨_, s₁, hEnds,
                .waiting hStep (hSame ▸ hOutcome) hAll hView
                  hAwaiter hBears
                  ⟨hRests₂.row, hRests₂.entry.withLabel _⟩,
                hSpared.trans (hAll.respects hOthers)⟩

/- A new cleanup rests at its body. -/
theorem rests_founding
    (hs : s.Orderly)
    (hm : m < s.machines.size)
    (code compensation : Closure) :
    s.Tidies [s.cleanups.size] (s.founding m code compensation) ∧
      (s.founding m code compensation).Bears m
        (s.withLabel m none).labels.size (some code) ∧
      (newSite s compensation).Rests m
        (.label (s.withLabel m none).labels.size)
        (s.founding m code compensation) := by
  have hGround := sameGround_tending
    (s.withCleanup m code compensation)
    (.entered s.cleanups.size)
  have hFound : s.Tidies [s.cleanups.size]
      (s.withCleanup m code compensation) := by
    have h₁ : s.Tidies [s.cleanups.size] (s.withLabel m none) :=
      .withLabel hs m none
    have h₂ := h₁.trans (.withLabel h₁.orderly m (some code))
    have hRow : Ordering.Moves _
        (((s.withLabel m none).withLabel m
          (some code)).withCleanupRow
            ⟨m, s.labels.size,
              .label (s.withLabel m none).labels.size,
              compensation, false, s.task⟩) :=
      Ordering.founds.newCleanup (Ordering.sound h₂.orderly)
        trivial rfl
    have h₃ := h₂.trans
      { orderly := hRow.sound.inv
        grows := hRow.rel
        bears := fun _ _ _ h => h
        cleanups := fun i hi => by
          rw [List.mem_singleton] at hi
          change (s.cleanups.push _)[i]? = s.cleanups[i]?
          rw [Array.getElem?_push, if_neg hi]
        scenery := rfl }
    exact h₃.trans (.relabelled h₃.orderly
      (bears_entry hm code compensation) _)
  have hAt := at_withCleanup hm code compensation
  rcases hAt.cell with ⟨t, hCell⟩
  have hTended := hFound.trans
    (.of_ground hFound.orderly hGround (by
      unfold tending
      split <;> rfl))
  have hBears : ∀ {l code'}, (s.withCleanup m code
      compensation).Bears m l code' →
        (s.founding m code compensation).Bears m l code' := by
    intro l code' h
    unfold Session.Bears at h ⊢
    rw [show (s.founding m code compensation).labels = _ from
      hGround.labels,
      show (s.founding m code compensation).machines = _ from
      hGround.machines]
    exact h
  refine ⟨hTended, hBears (bears_withCleanup hm code
    compensation), ⟨t, ?_⟩, hBears hAt.entry⟩
  exact (congrArg (·[s.cleanups.size]?) hGround.cleanups).trans
    hCell

------------------------------------------------------------
-- Stretches
------------------------------------------------------------

variable {start : Caller → Run Value}
variable {compensation : Closure}
variable {s₀ : Session}

/-
  What is asked of a body, and of the compensation after it:
  the body makes steps, and neither of them disturbs the
  given cleanups.
-/
structure Behaves
    (env : Session → Session → Prop)
    (m i : Ref)
    (cells : List Ref)
    (start : Caller → Run Value)
    (compensation : Closure)
    (s : Session) : Prop where
  fits : ∀ s₀ step s₁,
    Stretch (Around i env) m start s s₀ (.ok step) s₁ →
      step.Fits
  respects : ∀ s₀ q s₁,
    Stretch (Around i env) m start s s₀ q s₁ →
      s₀.Respects (i :: cells) s₁
  after : ∀ s₀ q s₁ own s₂ s₃ o s₄,
    Stretch (Around i env) m start s s₀ q s₁ →
    Concludes (Around i env) s₁ q own s₂ →
    s₂.Tidies [i] s₃ →
    Run.Ends (fun caller => caller.call compensation []) s₃ o
      s₄ → s₃.Respects cells s₄

/-
  A jump to the entry of a cleanup that rests tracks the body,
  where this goes on with a stretch.
-/
theorem Site.Rests.tracks
    (hRests : S.Rests m inner s)
    (hs : s.Orderly)
    (hCells : S.cell ∉ cells)
    (hBehaves : Behaves env m S.cell cells start
      S.compensation s₀)
    (hBody : ∀ q s₁, Run.Ends
      (fun caller => Label.jump caller m inner) s q s₁ →
      Stretch (Around S.cell env) m start s₀ s q s₁)
    (hRun : Run.Ends
      (fun caller => Label.jump caller m (.label S.entry)) s r
      s') :
    (∃ q s₁, Stretch (Around S.cell env) m start s₀ s q s₁ ∧
      Tracks env S m s₁ q r s') ∧
    s.Respects cells s' := by
  have hTracks : ∃ q s₁,
      Run.Ends (fun caller => Label.jump caller m inner)
        s q s₁ ∧
      Tracks env S m s₁ q r s' ∧ s.Respects cells s' := by
    refine hRun.jump hRests.entry ?_ fun rounds depth =>
      ensures_tracks hs hRests hCells fun q s₁ hEnds => ?_
    · rintro step s' ⟨_, _, _, hTracks, _⟩
      exact hTracks.isStep
    · have hStretch := hBody q s₁ hEnds
      refine ⟨hBehaves.respects _ _ _ hStretch, ?_, ?_⟩
      · rintro step rfl
        exact hBehaves.fits _ _ _ hStretch
      · exact fun own hConcludes s₂ o s₃ hTidies hCall =>
          hBehaves.after _ _ _ _ _ _ _ _ hStretch hConcludes
            hTidies hCall
  rcases hTracks with ⟨q, s₁, hEnds, hTracks, hRespects⟩
  exact ⟨⟨q, s₁, hBody q s₁ hEnds, hTracks⟩, hRespects⟩

/-
  Every stretch of a cleanup tracks the last stretch of its
  body, and respects what this and the compensation respect.
-/
theorem tracks
    {code : Closure}
    (hs : s.Orderly)
    (hm : m < s.machines.size)
    (hCells : s.cleanups.size ∉ cells)
    (hEnv : Meanwhile [s.cleanups.size] env)
    (hBehaves : Behaves env m s.cleanups.size cells
      (fun caller => code.enter caller []) compensation
      (s.founding m code compensation))
    (h : Stretch env m
      (fun caller => build caller (.machine m) code compensation)
      s s₀ r s') :
    (∃ s₁ q s₂,
      Stretch (Around s.cleanups.size env) m
        (fun caller => code.enter caller [])
        (s.founding m code compensation) s₁ q s₂ ∧
      Tracks env (newSite s compensation) m s₂ q r s') ∧
    s₀.Respects cells s' := by
  rcases rests_founding hs hm code compensation with
    ⟨hFounding, hInner, hRests⟩
  induction h with
  | @starts r s' hRun =>
      have hJump : Run.Ends (fun caller => Label.jump caller m
          (.label (newSite s compensation).entry))
          (s.founding m code compensation) r s' := by
        rcases hRun with ⟨rounds, depth, hRun⟩
        exact ⟨rounds, depth, (build_eq _ hm _ _).symm.trans hRun⟩
      rcases hRests.tracks hFounding.orderly hCells hBehaves
          (fun q s₁ hEnds => .starts (hEnds.jump hInner
            (fun step s₂ h =>
              (hBehaves.fits _ _ _ (.starts h)).isStep)
            fun rounds depth q s₁ h => ⟨rounds, depth, h⟩))
          hJump with ⟨⟨q, s₁, hStretch, hTracks⟩, hRespects⟩
      refine ⟨⟨_, q, s₁, hStretch, hTracks⟩,
        (hFounding.respects fun i hi => ?_).trans hRespects⟩
      rw [List.mem_singleton]
      rintro rfl
      exact hCells hi
  | @resumes s₀ step s₁ awaiter resume s₂ r s' h hStep hMeanwhile
      hCompleted hRun ih =>
      rcases ih with ⟨⟨b, q, s₃, hStretch, hTracks⟩, _⟩
      have hs₂ := hEnv.orderly _ _ hMeanwhile
      have hRespected := hEnv.respects _ _ hMeanwhile
      cases hTracks with
      | suspended hStep' hTidies hMade hRests' =>
          rw [hMade] at hStep
          cases hStep
          have hResume := (hRests'.later hRespected).tracks hs₂
            hCells hBehaves
            (fun q' s₄ hEnds => .resumes hStretch hStep'
              ⟨s₁, hTidies, hMeanwhile⟩ hCompleted hEnds) hRun
          rcases hResume with ⟨⟨q', s₄, hStretch', h'⟩, hRespects⟩
          exact ⟨⟨s₂, q', s₄, hStretch', h'⟩, hRespects⟩
      | @waiting _ f _ a l _ _ hStep' hPending hTidies hMade hAwaiter
          hBears hRests' =>
          rw [hMade] at hStep
          cases hStep
          have hAwaiter₂ : s₂.awaiters[a]? =
              some (.future f true) := by
            rcases (hEnv.grows _ _ hMeanwhile).awaiters a _
              hAwaiter with ⟨_, hRow, rfl⟩
            exact hRow
          rcases Option.isSome_iff_exists.mp
            (hCompleted a f true rfl hAwaiter₂) with
            ⟨o, hOutcome⟩
          have hShuts : Shuts (newSite s compensation) o.read s₂
              r s' :=
            hRun.jump
              (hRespected.bears m l _ (by rintro ⟨_, ⟨⟩⟩) hBears)
              (fun step s' hShuts => hShuts.isStep)
              fun rounds depth => ensures_outcome_shuts hs₂
                (hRests'.later hRespected) hAwaiter₂ hOutcome
          have hConcludes :
              Concludes (Around s.cleanups.size env) s₃ _ _ s₂ :=
            .settles hStep' hPending ⟨s₁, hTidies, hMeanwhile⟩
              hOutcome
          exact ⟨⟨b, _, s₃, hStretch, .shut hConcludes hShuts⟩,
            hShuts.respects hCells fun s₄ o s₅ hTidies' hCall =>
              hBehaves.after _ _ _ _ _ _ _ _ hStretch
                hConcludes hTidies' hCall⟩
      | shut _ hShuts =>
          obtain ⟨v, hView⟩ : ∃ v, step.step? = some (.finish v) :=
            hShuts.terminates
          rw [hView] at hStep
          cases hStep

end Cleanup

end Resumption

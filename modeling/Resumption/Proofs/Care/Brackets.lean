import Resumption.Proofs.Care.Constructs

/-
  Recoveries and cleanups make what comes back to all
  cleanups that are open.

  A cleanup that is entered remains open while its body is
  suspended.  When the body has ended, however it did, or the
  hand-off has that it waits for, the compensation is invoked
  before anything else is told.

  Main declarations:
    * `Stint.Yields.buildRecovery`
    * `Stint.Yields.enterRecovery`
    * `Stint.Yields.buildCleanup`
    * `Stint.Yields.enterCleanup`
    * `Stint.Yields.buildIteration`
-/

namespace Resumption

open Session World

variable {W : Stint}
variable {F G : Footprint}
variable {s s₁ s' : Session}
variable {caller : Caller}
variable {opened : List Ref}
variable {i : Ref}

------------------------------------------------------------
-- Bodies
------------------------------------------------------------

/- What a jump that checks makes is a step. -/
theorem Stint.Yields.jump_step
    {l : Ref}
    {code : Closure}
    (hc : Carrying caller)
    (hActive : W.Active s)
    (hLeaves : W.Leaves opened s)
    (hLabel : s.Bears W.machine l (some code))
    (hCarries : s.Carries W.machine W.task code [] opened F) :
    (Label.jump caller W.machine (.label l)).Ensures s
      fun r s' => W.Makes F s r s' ∧
        ∀ step, r = .ok step → step.isStep = true := by
  refine (Run.Ensures.and
    (Yields.jump hc hActive hLeaves hLabel hCarries)
    (Label.ensures_step caller W.machine (.label l) s)).mono ?_
  rintro r s' ⟨hMakes, hSteps⟩
  exact ⟨hMakes, hSteps (hActive.later hMakes.works).checks⟩

/- What ends leaves nothing open. -/
theorem Session.Opens.ends_of_finish
    {m t : Ref}
    {step v : Value}
    (h : s.Opens m t step opened G)
    (hStep : step.step? = some (.finish v)) :
    step.Ends ∧ opened = [] := by
  cases h with
  | ends h => exact ⟨h, rfl⟩
  | suspends hStep' => rw [hStep] at hStep'; cases hStep'

/- Neither does what hands off, which is to a future. -/
theorem Session.Opens.future_of_handOff
    {m t : Ref}
    {step v : Value}
    (h : s.Opens m t step opened G)
    (hStep : step.step? = some (.handOff v)) :
    (∃ f, v = .future f) ∧ opened = [] := by
  cases h with
  | ends h => exact ⟨h.handOff v hStep, rfl⟩
  | suspends hStep' => rw [hStep] at hStep'; cases hStep'

/- What suspends resumes at a label that carries on. -/
theorem Session.Opens.carries_of_suspend
    {m t : Ref}
    {step awaiter label : Value}
    (h : s.Opens m t step opened G)
    (hStep : step.step? = some (.suspend awaiter label)) :
    ∃ l code, label = .label l ∧ s.Bears m l (some code) ∧
      s.Carries m t code [] opened G := by
  cases h with
  | ends h => exact absurd hStep (h.suspends awaiter label)
  | suspends hStep' hLabel h =>
      rw [hStep] at hStep'
      cases hStep'
      exact ⟨_, _, rfl, hLabel, h⟩

namespace Stint.Yields

------------------------------------------------------------
-- Recoveries
------------------------------------------------------------

/- A failure is handed on, or to the handler. -/
private theorem recover
    {handler : Closure}
    (hc : Carrying caller)
    (hActive : W.Active s)
    (hLeaves : W.Leaves [] s)
    (hHandler : ∀ e,
      s.Carries W.machine W.task handler [e] [] .none)
    (e : Value) :
    W.Yields .none (Recovery.recover caller handler e) s := by
  unfold Recovery.recover
  split
  · exact .raise hActive hLeaves e
  · exact hc hActive hLeaves (hHandler e)

/- A recovery concludes by what was handed off to. -/
theorem recoveryOutcome
    {awaiter : Value}
    {args : List Value}
    (hServes : Caring.Serving caller)
    (hc : Carrying caller)
    (hActive : W.Active s)
    (hLeaves : W.Leaves opened s)
    (h : s.Carries W.machine W.task (.recoveryOutcome i awaiter)
      args opened F) :
    W.Yields F (Recovery.outcome caller i awaiter) s := by
  cases h with
  | @recoveryOutcome _ entry inner handler _ _ hRow hHandler =>
  unfold Recovery.outcome
  refine .bind hLeaves ((Caring.hosts (hServes _)).keeps_result
    (hServes _) hActive.sound awaiter).attempt
    fun ended s₁ h₁ => ?_
  have hActive₁ := hActive.moves h₁
  have hLeaves₁ := hLeaves.moves h₁
  cases ended with
  | ok v => exact .finish hActive₁ hLeaves₁ v
  | error e =>
      have hSame := (h₁.rel.held W.task List.mem_cons_self).cells
        (.recovery i) ⟨_, hRow, rfl⟩
      refine .row_bind ?_
      rw [show (Table.recoveries.rows s₁).getD i default = _ from
        Array.getD_of_getElem? (Eq.trans hSame hRow)]
      exact (recover hc hActive₁ hLeaves₁
        (fun e => (hHandler e).moves h₁) e).mono
          fun _ hc => hc.elim

/- A future that was handed off to is waited for. -/
private theorem recoveryAwaits
    {f : Ref}
    (hServes : Caring.Serving caller)
    (hc : Carrying caller)
    (hActive : W.Active s)
    (hLeaves : W.Leaves [] s)
    (hOutcome : ∀ awaiter, s.Carries W.machine W.task
      (.recoveryOutcome i awaiter) [] [] (.only (.recovery i))) :
    W.Yields (.only (.recovery i)) (do
      let awaiter ← Awaiter.ofValue caller (.future f)
      if (← Awaiter.completed caller awaiter).truthy then
        Recovery.outcome caller i awaiter
      else
        let l ← Label.install W.machine
          (.recoveryOutcome i awaiter)
        Run.newStep (.suspend awaiter (.label l))) s := by
  have hHosts := Caring.hosts (hServes (W.task :: W.held))
  refine .bind hLeaves (hHosts.keeps_awaiterOf (hServes _)
    hActive.sound _) fun awaiter s₁ h₁ => ?_
  refine .bind (hLeaves.moves h₁) (hHosts.keeps_completed
    (hServes _) h₁.sound awaiter) fun isDone s₂ h₂ => ?_
  have h₁₂ := h₁.trans h₂
  have hActive₂ := hActive.moves h₁₂
  have hLeaves₂ := hLeaves.moves h₁₂
  have hOutcome₂ := (hOutcome awaiter).moves h₁₂
  split
  · exact .recoveryOutcome hServes hc hActive₂ hLeaves₂ hOutcome₂
  · exact .install hActive₂ hLeaves₂ hOutcome₂ awaiter

/- A body that suspends is protected when it resumes. -/
private theorem recoverySuspends
    {entry l : Ref}
    {inner : Value}
    {code handler : Closure}
    (hActive : W.Active s)
    (hLeaves : W.Leaves opened s)
    (hRow : s.recoveries[i]? =
      some ⟨W.machine, entry, inner, handler, some W.task⟩)
    (hEntry : s.Bears W.machine entry (some (.recoveryEntry i)))
    (hHandler : ∀ e,
      s.Carries W.machine W.task handler [e] [] .none)
    (hLabel : s.Bears W.machine l (some code))
    (hCarries : s.Carries W.machine W.task code [] opened F)
    (hApart : ¬ F (.recovery i))
    (awaiter : Value) :
    W.Yields (F.or (.only (.recovery i))) (do
      Table.recoveries.alter i ({ · with inner := .label l })
      Run.newStep (.suspend awaiter (.label entry))) s := by
  have hWorks := hActive.recovers ⟨_, hRow, rfl⟩ l
  have hRow' : (s.recovering i l).recoveries[i]? =
      some ⟨W.machine, entry, .label l, handler,
        some W.task⟩ := by
    simp [Session.recovering, Array.getElem?_modify, hRow]
  have hEntry' := hWorks.sustains.bears _ _ _ hEntry
  have hCarries' := hCarries.works hWorks fun c hc hIs =>
    hApart (hIs ▸ hc)
  have hBack : W.Yields (F.or (.only (.recovery i)))
      (Run.newStep (.suspend awaiter (.label entry)))
      (s.recovering i l) :=
    .suspend (hActive.later hWorks) hLeaves hEntry'
      (.recoveryEntry hRow' hEntry'
        (fun e => (hHandler e).works hWorks fun _ hc => hc.elim)
        (hWorks.sustains.bears _ _ _ hLabel) hCarries' hApart)
      awaiter
  exact Run.ensures_alter_bind.mpr (hBack.sooner
    (hWorks.mono fun _ hc => .inr hc) fun _ _ hc => hc)

/- Entering a recovery enters its body, which it protects. -/
theorem enterRecovery
    {args : List Value}
    (hServes : Caring.Serving caller)
    (hc : Carrying caller)
    (hActive : W.Active s)
    (hLeaves : W.Leaves opened s)
    (h : s.Carries W.machine W.task (.recoveryEntry i) args
      opened F) :
    W.Yields F (Recovery.enter caller i) s := by
  cases h with
  | @recoveryEntry _ entry l inner handler _ _ F' hRow hEntry
      hHandler hLabel hInner hApart =>
  have hOwn : s.Belongs W.task (.recovery i) := ⟨_, hRow, rfl⟩
  unfold Recovery.enter
  refine .row_bind ?_
  rw [show (Table.recoveries.rows s).getD i default = _ from
    Array.getD_of_getElem? hRow]
  refine Run.Ensures.bind (Run.ensures_attempt.mpr
    ((jump_step hc hActive hLeaves hLabel hInner).mono ?_))
  rintro ended s₁ ⟨hMakes, hIs⟩
  have hWorks := hMakes.works
  have hActive₁ := hActive.later hWorks
  have hSame := hWorks.same _ hOwn hApart
  have hRow₁ : s₁.recoveries[i]? = _ := Eq.trans hSame hRow
  have hHandler₁ := fun e =>
    (hHandler e).works hWorks fun _ hc => hc.elim
  have hNone : ∀ {s : Session} {F : Footprint} c,
      s.Belongs W.task c → Footprint.none c → F c :=
    fun _ _ hc => hc.elim
  have hInside : ∀ c, F' c → (F'.or (.only (.recovery i))) c :=
    fun _ hc => .inl hc
  cases ended with
  | error e =>
      exact (recover hc hActive₁ (hMakes.failed e rfl) hHandler₁
        e).sooner (hWorks.mono hInside) hNone
  | ok step =>
  rcases hMakes.made step rfl with
    ⟨opened₁, G, hOpens, hLeaves₁, hG⟩
  have hStep := hIs step rfl
  change (if step.isMissing = true then _ else _ :
    Run Value).Ensures s₁ _
  rw [if_neg (by simp [Value.not_missing_of_isStep hStep])]
  cases hView : step.step? with
  | none => simp [Value.isStep, hView] at hStep
  | some view =>
  cases view with
  | finish v =>
      rcases hOpens.ends_of_finish hView with ⟨hEnds, rfl⟩
      exact (Yields.ends hActive₁ hLeaves₁ hEnds).sooner
        (hWorks.mono hInside) hNone
  | handOff v =>
      rcases hOpens.future_of_handOff hView with ⟨⟨f, rfl⟩, rfl⟩
      have hAwaits := recoveryAwaits (f := f) hServes hc hActive₁
        hLeaves₁ fun awaiter => .recoveryOutcome hRow₁ hHandler₁
      exact hAwaits.sooner (hWorks.mono hInside)
        fun c _ hc => .inr hc
  | suspend awaiter label =>
      rcases hOpens.carries_of_suspend hView with
        ⟨l', code, rfl, hLabel', hCarries⟩
      have hBack := recoverySuspends hActive₁ hLeaves₁ hRow₁
        (hWorks.sustains.bears _ _ _ hEntry) hHandler₁ hLabel'
        hCarries (fun hc => hApart (hG _ hOwn hc)) awaiter
      exact hBack.sooner (hWorks.mono hInside)
        fun c hOld hc => hc.imp_left (hG c hOld)

/- Building a recovery enters it. -/
theorem buildRecovery
    {body handler : Closure}
    (hc : Carrying caller)
    (hActive : W.Active s)
    (hLeaves : W.Leaves [] s)
    (hBody : s.Carries W.machine W.task body [] [] .none)
    (hHandler : ∀ e,
      s.Carries W.machine W.task handler [e] [] .none) :
    W.Yields .none
      (Recovery.build caller (.machine W.machine) body handler)
      s := by
  have hMoves := Caring.moves_withRecovery hActive.sound
    hActive.machine body handler
  have hAt := Recovery.at_withRecovery hActive.machine body
    handler
  have hRow : (s.withRecovery W.machine body
      handler).recoveries[s.recoveries.size]? =
        some ⟨W.machine, s.labels.size,
          .label (s.withLabel W.machine none).labels.size,
          handler, some W.task⟩ := by
    rw [← hActive.task]
    simp [Session.withRecovery, Session.relabelled,
      Session.withRecoveryRow, Session.withLabel]
  refine .of_eq (Recovery.build_eq caller hActive.machine body
    handler) (.of_moves hMoves) (fun c hOwn hMine => ?_)
    (.jump hc (hActive.moves hMoves) (hLeaves.moves hMoves)
      hAt.entry (.recoveryEntry hRow hAt.entry
        (fun e => (hHandler e).moves hMoves)
        (Recovery.bears_withRecovery hActive.machine body handler)
        (hBody.moves hMoves) id))
  rcases hMine with hMine | rfl
  · exact hMine
  · exact absurd hOwn (s.not_belongs_new W.task).2.1

------------------------------------------------------------
-- Cleanups
------------------------------------------------------------

/- A body's end is told when the compensation was invoked. -/
private theorem closes
    {row : CleanupCell}
    {end_ : Run Value}
    (hServes : Caring.Serving caller)
    (hActive : W.Active s)
    (hLeaves : (W.inside i).Leaves [] s)
    (hRow : s.cleanups[i]? = some row)
    (hTask : row.task = some W.task)
    (hFlag : row.compensated = false)
    (hCompensation : row.compensation.Careful s)
    (hEnd : ∀ s₁, W.Active s₁ → W.Leaves [] s₁ →
      W.Yields .none end_ s₁) :
    W.Yields (.only (.cleanup i)) (do
      Cleanup.compensate caller i
      end_) s := by
  refine Run.Ensures.bind (Run.Ensures.mono (ensures_compensate
    (hServes _) hActive hLeaves hRow hTask hFlag hCompensation) ?_)
  rintro (e | u) s₁ ⟨hWorks, hLeaves₁⟩
  · exact ⟨hWorks, nofun, fun _ _ => hLeaves₁⟩
  · exact (hEnd s₁ (hActive.later hWorks) hLeaves₁).sooner hWorks
      fun _ _ hc => hc.elim

/- A cleanup concludes by what was handed off to. -/
theorem cleanupOutcome
    {awaiter : Value}
    {args : List Value}
    (hServes : Caring.Serving caller)
    (hActive : W.Active s)
    (hLeaves : W.Leaves opened s)
    (h : s.Carries W.machine W.task (.cleanupOutcome i awaiter)
      args opened F) :
    W.Yields F (Cleanup.outcome caller i awaiter) s := by
  cases h with
  | cleanupOutcome hRow hCompensation =>
  have hInside : (W.inside i).Leaves [] s :=
    leaves_inside.mpr hLeaves
  unfold Cleanup.outcome
  refine Run.Ensures.bind (Run.ensures_attempt.mpr
    (Run.Ensures.mono ((Caring.hosts (hServes _)).keeps_result
      (hServes _) hActive.sound awaiter) ?_))
  intro ended s₁ h₁
  have hActive₁ := hActive.moves h₁
  have hInside₁ := hInside.moves h₁
  have hSame := (h₁.rel.held W.task List.mem_cons_self).cells
    (.cleanup i) ⟨_, hRow, rfl⟩
  have hRow₁ : s₁.cleanups[i]? = _ := Eq.trans hSame hRow
  have hCareful := h₁.fit hCompensation
  have hClosed : ∀ {end_ : Run Value},
      (∀ s₂, W.Active s₂ → W.Leaves [] s₂ →
        W.Yields .none end_ s₂) →
      (do
        Cleanup.compensate caller i
        end_ : Run Value).Ensures s₁
          (W.Makes (.only (.cleanup i)) s) := fun hEnd =>
    (closes hServes hActive₁ hInside₁ hRow₁ rfl rfl hCareful
      hEnd).sooner (.of_moves h₁) fun _ _ hc => hc
  cases ended with
  | ok v => exact hClosed fun s₂ h₂ hOpen => .finish h₂ hOpen v
  | error e => exact hClosed fun s₂ h₂ hOpen => .raise h₂ hOpen e

/- Nothing fails before a future is waited for. -/
private theorem cleanupAwaits
    {f : Ref}
    (hServes : Caring.Serving caller)
    (hActive : W.Active s)
    (hLeaves : W.Leaves [i] s)
    (hOutcome : ∀ awaiter, s.Carries W.machine W.task
      (.cleanupOutcome i awaiter) [] [i] (.only (.cleanup i))) :
    W.Yields (.only (.cleanup i)) (do
      let awaiter ← Awaiter.ofValue caller (.future f)
      if (← Awaiter.completed caller awaiter).truthy then
        Cleanup.outcome caller i awaiter
      else
        let l ← Label.install W.machine
          (.cleanupOutcome i awaiter)
        Run.newStep (.suspend awaiter (.label l))) s := by
  refine Run.Ensures.bind (Run.Ensures.mono (Run.Ensures.and
    ((Caring.hosts (hServes _)).keeps_awaiterOf (hServes _)
      hActive.sound (.future f))
    (Awaiter.ensures_made caller f)) ?_)
  rintro _ s₁ ⟨h₁, _, rfl, hAwaiter⟩
  have hActive₁ := hActive.moves h₁
  have hLeaves₁ := hLeaves.moves h₁
  have hOutcome₁ := (hOutcome (.awaiter s.awaiters.size)).moves h₁
  have hWorks : W.Works .none s s₁ := .of_moves h₁
  refine ensures_completed_bind hAwaiter ?_
  split
  · exact (cleanupOutcome hServes hActive₁ hLeaves₁
      hOutcome₁).sooner (hWorks.mono fun _ hc => hc.elim)
        fun _ _ hc => hc
  · exact (install hActive₁ hLeaves₁ hOutcome₁ _).sooner
      (hWorks.mono fun _ hc => hc.elim) fun _ _ hc => hc

/- A body that suspends leaves the cleanup open. -/
private theorem cleanupSuspends
    {entry l : Ref}
    {inner : Value}
    {code compensation : Closure}
    (hActive : W.Active s)
    (hLeaves : W.Leaves (opened ++ [i]) s)
    (hRow : s.cleanups[i]? = some ⟨W.machine, entry, inner,
      compensation, false, some W.task⟩)
    (hEntry : s.Bears W.machine entry (some (.cleanupEntry i)))
    (hCompensation : compensation.Careful s)
    (hLabel : s.Bears W.machine l (some code))
    (hCarries : s.Carries W.machine W.task code [] opened F)
    (hApart : ¬ F (.cleanup i))
    (awaiter : Value) :
    W.Yields (F.or (.only (.cleanup i))) (do
      Table.cleanups.alter i ({ · with inner := .label l })
      Run.newStep (.suspend awaiter (.label entry))) s := by
  have hWorks := hActive.protects ⟨_, hRow, rfl⟩ l
  have hRow' : (s.protecting i l).cleanups[i]? =
      some ⟨W.machine, entry, .label l, compensation, false,
        some W.task⟩ := by
    simp [Session.protecting, Array.getElem?_modify, hRow]
  have hEntry' := hWorks.sustains.bears _ _ _ hEntry
  have hCarries' := hCarries.works hWorks fun c hc hIs =>
    hApart (hIs ▸ hc)
  have hBack : W.Yields (F.or (.only (.cleanup i)))
      (Run.newStep (.suspend awaiter (.label entry)))
      (s.protecting i l) :=
    .suspend (hActive.later hWorks) hLeaves hEntry'
      (.cleanupEntry hRow' hEntry'
        (hWorks.sustains.careful hCompensation)
        (hWorks.sustains.bears _ _ _ hLabel) hCarries' hApart)
      awaiter
  exact Run.ensures_alter_bind.mpr (hBack.sooner
    (hWorks.mono fun _ hc => .inr hc) fun _ _ hc => hc)

/- Entering a cleanup enters its body, and closes after it. -/
theorem enterCleanup
    {args : List Value}
    (hServes : Caring.Serving caller)
    (hc : Carrying caller)
    (hActive : W.Active s)
    (hLeaves : W.Leaves opened s)
    (h : s.Carries W.machine W.task (.cleanupEntry i) args
      opened F) :
    W.Yields F (Cleanup.enter caller i) s := by
  cases h with
  | @cleanupEntry _ entry l inner compensation _ opened F' hRow
      hEntry hCompensation hLabel hInner hApart =>
  have hOwn : s.Belongs W.task (.cleanup i) := ⟨_, hRow, rfl⟩
  unfold Cleanup.enter
  refine .row_bind ?_
  rw [show (Table.cleanups.rows s).getD i default = _ from
    Array.getD_of_getElem? hRow]
  refine Run.Ensures.bind (Run.ensures_attempt.mpr
    ((jump_step hc (hActive.inside i) (leaves_inside.mpr hLeaves)
      hLabel hInner).mono ?_))
  rintro ended s₁ ⟨hMakes, hIs⟩
  have hWorks : W.Works F' s s₁ := hMakes.works.outside
  have hActive₁ := hActive.later hWorks
  have hSame := hWorks.same _ hOwn hApart
  have hRow₁ : s₁.cleanups[i]? = _ := Eq.trans hSame hRow
  have hCareful := hWorks.sustains.careful hCompensation
  have hOwnCell : ∀ {s : Session} c, s.Belongs W.task c →
      Footprint.only (.cleanup i) c →
        (F'.or (.only (.cleanup i))) c := fun _ _ hc => .inr hc
  have hWorks' : W.Works (F'.or (.only (.cleanup i))) s s₁ :=
    hWorks.mono fun _ hc => .inl hc
  have hClosed : ∀ {end_ : Run Value},
      (W.inside i).Leaves [] s₁ →
      (∀ s₂, W.Active s₂ → W.Leaves [] s₂ →
        W.Yields .none end_ s₂) →
      (do
        Cleanup.compensate caller i
        end_ : Run Value).Ensures s₁
          (W.Makes (F'.or (.only (.cleanup i))) s) :=
    fun hOpen hEnd => (closes hServes hActive₁ hOpen hRow₁ rfl rfl
      hCareful hEnd).sooner hWorks' hOwnCell
  cases ended with
  | error e =>
      exact hClosed (hMakes.failed e rfl)
        fun s₂ h₂ hOpen => .raise h₂ hOpen e
  | ok step =>
  rcases hMakes.made step rfl with
    ⟨opened₁, G, hOpens, hLeaves₁, hG⟩
  have hStep := hIs step rfl
  change (if step.isMissing = true then _ else _ :
    Run Value).Ensures s₁ _
  rw [if_neg (by simp [Value.not_missing_of_isStep hStep])]
  cases hView : step.step? with
  | none => simp [Value.isStep, hView] at hStep
  | some view =>
  cases view with
  | finish v =>
      rcases hOpens.ends_of_finish hView with ⟨hEnds, rfl⟩
      exact hClosed hLeaves₁
        fun s₂ h₂ hOpen => .ends h₂ hOpen hEnds
  | handOff v =>
      rcases hOpens.future_of_handOff hView with ⟨⟨f, rfl⟩, rfl⟩
      have hAwaits := cleanupAwaits (f := f) hServes hActive₁
        (leaves_inside.mp hLeaves₁)
        fun awaiter => .cleanupOutcome hRow₁ hCareful
      exact hAwaits.sooner hWorks' hOwnCell
  | suspend awaiter label =>
      rcases hOpens.carries_of_suspend hView with
        ⟨l', code, rfl, hLabel', hCarries⟩
      have hBack := cleanupSuspends hActive₁
        (leaves_inside.mp hLeaves₁) hRow₁
        (hWorks.sustains.bears _ _ _ hEntry) hCareful hLabel'
        hCarries (fun hc => hApart (hG _ hOwn hc)) awaiter
      exact hBack.sooner hWorks'
        fun c hOld hc => hc.imp_left (hG c hOld)

/- Building a cleanup opens it, and enters it. -/
theorem buildCleanup
    {body compensation : Closure}
    (hc : Carrying caller)
    (hActive : W.Active s)
    (hLeaves : W.Leaves [] s)
    (hBody : s.Carries W.machine W.task body [] [] .none)
    (hCompensation : compensation.Careful s) :
    W.Yields .none
      (Cleanup.build caller (.machine W.machine) body compensation)
      s := by
  have hMoves := Caring.moves_withCleanup hActive.sound
    hActive.machine body compensation
  have hAt := Cleanup.at_withCleanup hActive.machine body
    compensation
  have hActive₁ := hActive.moves hMoves
  have hNew : .entered s.cleanups.size ∉
      (s.withCleanup W.machine body compensation).care
        W.task := by
    rw [(hMoves.rel.held W.task List.mem_cons_self).care]
    exact fun hMem => Nat.lt_irrefl _
      (hActive.sound.inv.entered W.task _ hMem)
  have hRow : (s.withCleanup W.machine body
      compensation).cleanups[s.cleanups.size]? =
        some ⟨W.machine, s.labels.size,
          .label (s.withLabel W.machine none).labels.size,
          compensation, false, some W.task⟩ := by
    rw [← hActive.task]
    simp [Session.withCleanup, Session.relabelled,
      Session.withCleanupRow, Session.withLabel]
  rcases hActive₁.opens (F := .none)
    (Array.getElem?_eq_some_iff.mp hRow).1 hNew
    (hLeaves.moves hMoves) with ⟨hOpens, hOpen⟩
  have hWorks : W.Works .none s
      (s.founding W.machine body compensation) :=
    Works.trans (.of_moves hMoves) hOpens fun _ _ hc => hc
  have hEntry := hOpens.sustains.bears _ _ _ hAt.entry
  have hRow' := Eq.trans (hOpens.same (.cleanup s.cleanups.size)
    ⟨_, hRow, rfl⟩ id) hRow
  have hInner := hOpens.sustains.bears _ _ _
    (Cleanup.bears_withCleanup hActive.machine body compensation)
  have hCarries : (s.founding W.machine body compensation).Carries
      W.machine W.task (.cleanupEntry s.cleanups.size) []
        [s.cleanups.size]
        (Footprint.none.or (.only (.cleanup s.cleanups.size))) :=
    .cleanupEntry hRow' hEntry
      (hWorks.sustains.careful hCompensation) hInner
      (hBody.works hWorks fun _ hc => hc.elim) id
  refine .of_eq (Cleanup.build_eq caller hActive.machine body
    compensation) hWorks (fun c hOwn hMine => ?_)
    (.jump hc (hActive.later hWorks) (leaves_inside.mp hOpen)
      hEntry hCarries)
  rcases hMine with hMine | rfl
  · exact hMine
  · exact absurd hOwn (s.not_belongs_new W.task).2.2

------------------------------------------------------------
-- Iterations
------------------------------------------------------------

/- A loop over items closes its cursor in a cleanup. -/
theorem buildIteration
    {body : Closure}
    (hServes : Caring.Serving caller)
    (hc : Carrying caller)
    (hActive : W.Active s)
    (hLeaves : W.Leaves [] s)
    (hBody : ∀ v, s.Carries W.machine W.task body [v] [] .none)
    (items : Value) :
    W.Yields .none
      (Iteration.build caller (.machine W.machine) items body)
      s := by
  refine .bind hLeaves (keeps_cursorOf (hServes _) hActive.sound
    items) fun c s₁ h₁ => ?_
  have hActive₁ := hActive.moves h₁
  exact .buildCleanup hc hActive₁ (hLeaves.moves h₁)
    (.cursorLoop hActive₁.machine fun v => (hBody v).moves h₁)
    trivial

end Stint.Yields

end Resumption

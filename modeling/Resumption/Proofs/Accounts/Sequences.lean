import Resumption.Proofs.Accounts.Binds
import Resumption.Proofs.Order.Natives

/-
  Sequences: what is charged for a first part and a rest.

  A sequence is entered at the step that its first part came
  to, and anew at each one that it comes to when it is
  resumed.  The label at which it is resumed is a new one
  each time, and the rest is led to by the same label.

  Main declarations:
    * `Account.tells_ended`, `Account.tells_resumed`
    * `Sequence.ensures_entered`
    * `Sequence.ensures_built`
    * `Supply.meets_combine`
-/

namespace Resumption

open Run

variable {ν : Type}

------------------------------------------------------------
-- Sequences in Accounts
------------------------------------------------------------

namespace Account

variable {A A₁ B : Account ν}
variable {N : Report ν → Account ν}
variable {V V₀ : View ν}
variable {later : List (Waking ν)}
variable {w : Waking ν}
variable {ending : Ending ν}
variable {c : Charge ν}
variable {R R₁ : Report ν}
variable {x : ν}
variable {n : Nat}

/- A first part that ended, and what followed it. -/
theorem tells_ended
    (hFirst : A V₀ later ⟨ending, V, later, c⟩)
    (hStill : c.waits = [])
    (hNext : ∀ R,
      linking n B ⟨ending, V, later, c⟩ V later R →
        N ⟨ending, V, later, c⟩ V later R)
    (hRest : sequel B ending V later R) :
    (A.andThen N) V₀ later (R.after (c.plus (.ofLabels n))) := by
  refine ⟨_, hFirst, R.after (.ofLabels n), hNext _ ⟨R, hRest, ?_⟩,
    (R.after_after _ _).symm⟩
  have hSteps : c.steps = 0 := by
    rw [Charge.steps, hStill]
    rfl
  simp only [hSteps, Nat.add_zero]

/- Nothing may come after a first part but an end. -/
theorem tells_ends
    {ending' : Ending ν}
    (hFirst : A V₀ later ⟨ending, V, later, c⟩)
    (hNext : N ⟨ending, V, later, c⟩ = ends ending') :
    (A.andThen N) V₀ later ⟨ending', V, later, c⟩ := by
  refine ⟨_, hFirst, ⟨ending', V, later, .none⟩, ?_, ?_⟩
  · rw [hNext]
    rfl
  · rw [Report.after, Charge.plus_none]

/- What goes by how a first part ended goes on as it did. -/
theorem tells_passed
    {N : Ending ν → Account ν}
    (hFirst : ∀ R, A₁ V later R → A V₀ (w :: later) (R.after c))
    (hRest : (A₁.andThen fun R => N R.ending) V later R) :
    (A.andThen fun R => N R.ending) V₀ (w :: later)
      (R.after c) := by
  rcases hRest with ⟨R₁, hA₁, R₂, hNext, rfl⟩
  exact ⟨R₁.after c, hFirst R₁ hA₁, R₂, hNext,
    Report.after_after _ _ _⟩

/- There is no sequence where there is no first step. -/
theorem linked_broke
    {e : Value}
    (hStill : c.waits = []) :
    linked B ⟨.threw e, V, later, c⟩ = ends (.threw e) := by
  unfold linked
  exact if_pos ⟨congrArg List.length hStill, e, rfl⟩

theorem linked_of_not_broke
    (h : ¬ R.Broke) :
    linked B R = linking 2 B R :=
  if_neg h

/- A first part that paused, as the sequence did. -/
theorem tells_paused
    (hFirst : A V₀ [] ⟨.paused x, V, [], c⟩)
    (hWaits : c.waits = [x])
    (hNext : ∀ R,
      linking n B ⟨.paused x, V, [], c⟩ V [] R →
        N ⟨.paused x, V, [], c⟩ V [] R) :
    (A.andThen N) V₀ []
      ⟨.paused x, V, [], c.plus (.ofLabels (n + 1))⟩ := by
  have hSteps : c.steps = 1 := by
    rw [Charge.steps, hWaits]
    rfl
  refine ⟨_, hFirst, _, hNext _ ⟨_, rfl, rfl⟩, ?_⟩
  simp only [Report.after, Charge.plus_none, hSteps]

/- A first part that was resumed, and what followed it. -/
theorem tells_resumed
    (hWaits : c.waits = [x])
    (hFirst : ∀ R, A₁ V later R → A V₀ (w :: later) (R.after c))
    (hNext : ∀ R₁, 0 < R₁.charge.steps → ∀ V later R,
      linking n B R₁ V later R → N R₁ V later R)
    (hRest : (A₁.andThen (linking 0 B)) V later R) :
    (A.andThen N) V₀ (w :: later)
      (R.after (c.plus (.ofLabels (n + 1)))) := by
  have hSteps : c.steps = 1 := by
    rw [Charge.steps, hWaits]
    rfl
  rcases hRest with ⟨R₁, hA₁, _, ⟨R₂, hSequel, rfl⟩, rfl⟩
  have hAll : (R₁.after c).charge.steps = 1 + R₁.charge.steps := by
    simp only [Report.after, Charge.steps_plus, hSteps]
  refine ⟨R₁.after c, hFirst R₁ hA₁, _,
    hNext (R₁.after c) (by omega) _ _ _ ⟨R₂, hSequel, rfl⟩, ?_⟩
  simp only [Report.after_after, hAll]
  rw [Charge.plus_ofLabels]
  congr 3
  omega

end Account

------------------------------------------------------------
-- Sequences in Sessions
------------------------------------------------------------

namespace Supply

variable {S : Supply ν}
variable {s : Session}

/- A sequence at another step is idle but for its own cell. -/
theorem idles_resequenced
    (s : Session)
    (i : Ref)
    (step : Value) :
    S.Idles (.only (.sequence i)) 0 s (s.resequenced i step) :=
  idles_of_moves (Sequence.moves_resequenced S.setting s i step)
    rfl rfl

/- What has come to a step has not broken. -/
theorem not_broke
    {step : Value}
    {R : Report ν}
    (h : S.Ended (.ok step) R.ending ∨ 0 < R.charge.steps) :
    ¬ R.Broke := by
  rintro ⟨hSteps, e, hEnding⟩
  rcases h with hEnded | hPos
  · rw [hEnding] at hEnded
    cases hEnded
  · exact Nat.ne_of_gt hPos hSteps

/- A new sequence takes two labels. -/
theorem idles_withSequence
    (hm : S.machine < s.machines.size)
    (step : Value)
    (rest : Closure) :
    S.Idles .none 2 s
      (s.withSequence S.machine step rest) := by
  have hm' : S.machine <
      (s.withLabel S.machine (some rest)).machines.size := by
    simpa [Session.withLabel] using hm
  have hLabels := (idles_withLabel hm (some rest)).none_trans
    (idles_withLabel hm' none)
  have hRow := hLabels.none_trans (idles_of_moves
    (Sequence.moves_withSequenceRow S.setting _
      ⟨S.machine, (Sequence.newSite s S.machine rest).entry, step,
        s.labels.size, s.task⟩) rfl rfl)
  exact hRow.none_trans (idles_relabelled
    (Sequence.bears_entry hm step rest) _)

end Supply

namespace Sequence

open Supply

variable {S : Supply ν}
variable {T : Site}
variable {F G : Footprint}
variable {A B : Account ν}
variable {N : Report ν → Account ν}
variable {s₀ s₁ s₂ s : Session}
variable {step : Value}
variable {k n rounds depth : Nat}
variable {l m : Ref}

/- Entered at a step that ends, it goes on to the rest. -/
theorem realizes_following
    {ending : Ending ν}
    (hEnded : S.Ended (.ok step) ending)
    (hs : S.Ready s)
    (hAt : T.At S.machine s step)
    (hHas : ∀ c, G c → s.Has c)
    (hRest : S.Proceeds k rounds depth G s
      (fun caller => T.code.enter caller []) B) :
    S.Realizes k G (enter (.ofDepth rounds depth) T.cell) s
      (.sequel B ending) := by
  rcases hAt.row_eq with ⟨t, hRow⟩
  have hJump := hRest.jump hAt.rest
  refine Realizes.idle_none hRow (.refl _ s) ?_ fun _ _ hc => hc
  cases hEnded with
  | finishes hStep =>
      simp only [Setting.isMissing_of_step hStep, hStep,
        Bool.false_eq_true, if_false]
      exact .jump hAt.rest fun d hd =>
        hRest k rounds d (.deeper hd) s (.refl _ s) hs
  | handsOff hStep hOrigin =>
      simp only [Setting.isMissing_of_step hStep, hStep,
        Bool.false_eq_true, if_false]
      have hRead :=
        (S.worth_reading (S.uncounted hOrigin)).symm
      exact (realizes_handed _
        (.received · (.jump S.machine T.rest)) hOrigin hs hHas
        (fun s' a g o hs' hRetains hAwaits hOutcome =>
          realizes_received hRead rfl hs' hAwaits hOutcome
            fun _ => hJump.later hRetains)
        fun s' a g o hs' hRetains hAwaits hOutcome k' hk _ _ =>
          realizes_received hRead rfl hs' hAwaits hOutcome
            fun _ =>
              (hJump.sooner (.inl hk)).later hRetains).tell
        fun later R => Account.awaits_mono
          fun _ _ _ _ => Account.costing_none

/- Entered at a step that suspends, it suspends there, too. -/
theorem enter_suspended
    {a : Value}
    (hStep : step.step? = some (.suspend a (.label l)))
    (hAt : T.At m s step)
    (caller : Caller) :
    enter caller T.cell s = some
      (.ok (.record (s.withLabel m (some (.sequenceResume T.cell
          (.label l)))).stamp
        (StepView.suspend a (.label s.labels.size)).fields),
        (s.withLabel m (some (.sequenceResume T.cell
          (.label l)))).stamped) := by
  rcases hAt.row_eq with ⟨t, hRow⟩
  refine (bind_of_end hRow).trans ?_
  change (if step.isMissing = true then _ else _ :
    Run Value) s = _
  rw [if_neg (by simp [Setting.isMissing_of_step hStep])]
  rw [hStep]
  exact bind_of_end (Label.install_eq m
    (.sequenceResume T.cell (.label l)) s)

/- The cells that a sequence with a rest comes back to. -/
def Site.own
    (T : Site)
    (G : Footprint) : Footprint :=
  G.or (.only (.sequence T.cell))

/-
  The first part comes back to none of them; those of the
  rest were there before it ran.
-/
structure Site.Clear
    (T : Site)
    (F G : Footprint)
    (s₀ s₁ : Session) : Prop where
  cell : s₁.Has (.sequence T.cell) →
    s₀.Has (.sequence T.cell) ∧ ¬ F (.sequence T.cell)
  rest : ∀ c, G c → s₀.Has c ∧ ¬ F c
  apart : ¬ G (.sequence T.cell)

/- Nor does it where it comes back after a pause. -/
theorem Site.Clear.pauses
    {next a l x f c F' A'}
    (h : T.Clear F G s₀ s₁)
    (hPauses : S.Pauses next F A s₀ a l x f c F' A' s₁) :
    (T.own G).Apart F' := by
  rintro c (hc | rfl) hFirst
  · exact (h.rest c hc).2
      ((hPauses.foot c hFirst).2 (h.rest c hc).1)
  · rcases hPauses.foot _ hFirst with ⟨hHas, hOld⟩
    exact (h.cell hHas).2 (hOld (h.cell hHas).1)

/-
  The first part goes on where a sequence is resumed, and the
  sequence is entered anew.
-/
theorem realizes_resume
    (hJump : S.Realizes k F
      (Label.jump (.ofDepth rounds depth) S.machine (.label l))
      s A)
    (hAt : T.At S.machine s step)
    (hFree : ¬ F (.sequence T.cell))
    (hEnter : ∀ step s₁,
      S.Comes (S.Resumes k) F A s (.ok step) s₁ →
      T.At S.machine (s₁.resequenced T.cell step) step →
      ∀ d < depth, (enter (.ofDepth rounds d) T.cell).Ensures
        (s₁.resequenced T.cell step)
        (S.Comes (S.Resumes k) (F.or (T.own G))
          (A.andThen (.linking 0 B)) s)) :
    S.Realizes k (F.or (T.own G))
      (resume (.ofDepth rounds depth) T.cell (.label l)) s
      (A.andThen (.linking 0 B)) := by
  rcases hAt.row_eq with ⟨t, hRow⟩
  refine realizes_iff.mpr (Ensures.bind fun r s₁ hRun => ?_)
  cases hRow.symm.trans hRun
  refine Ensures.bind ((realizes_iff.mp hJump).mono ?_)
  intro r s₁ hComes
  rcases hComes.moves with ⟨_, hMoves⟩
  cases r with
  | error e =>
      rcases hComes.threw with ⟨c, hMoves, hStill, hTells⟩
      refine .ends (hMoves.widen fun _ _ hc => .inl hc) hStill
        .throws fun later => ?_
      have hAll := Account.tells_ended (n := 0) (B := B)
        (hTells later) hStill (fun _ h => h) rfl
      rw [Report.after, Charge.plus_none] at hAll
      exact Charge.plus_none c ▸ hAll
  | ok step =>
      have hAt' := (hAt.later hMoves.retains hFree).resequenced step
      refine ensures_alter_bind.mpr ?_
      exact Label.ensures_below hAt'.entry
        (fun _ _ h => h.isStep) (hEnter step s₁ hComes hAt')

/-
  A sequence is entered at a step that its first part came
  to.  The induction is on how often it may be resumed.
-/
theorem ensures_entered
    (hComes : S.Comes (S.Resumes k) F A s₀ (.ok step) s₁)
    (hs : S.Ready s₂)
    (hIdles : S.Idles (.only (.sequence T.cell)) n s₁ s₂)
    (hAt : T.At S.machine s₂ step)
    (hClear : T.Clear F G s₀ s₁)
    (hRest : S.Proceeds k rounds depth G s₂
      (fun caller => T.code.enter caller []) B)
    (hNext : ∀ R₁ : Report ν,
      S.Ended (.ok step) R₁.ending ∨ 0 < R₁.charge.steps →
        ∀ V later R, Account.linking n B R₁ V later R →
          N R₁ V later R) :
    (enter (.ofDepth rounds depth) T.cell).Ensures s₂
      (S.Comes (S.Resumes k) (F.or (T.own G)) (A.andThen N)
        s₀) := by
  induction k using Nat.strongRecOn generalizing F A N s₀ s₁ s₂
    step n rounds depth with
  | ind k ih =>
  have hHas : ∀ c, T.own G c → s₂.Has c := by
    rintro c (hc | rfl)
    · rcases hComes.moves with ⟨_, hMoves⟩
      exact hIdles.retains.has c
        (hMoves.retains.has c (hClear.rest c hc).1)
    · exact hAt.has
  have hOwn : S.Idles (T.own G) n s₁ s₂ := hIdles.widen
    fun _ _ hc => .inr hc
  cases hComes with
  | @ends _ _ _ c hMoves hStill hEnded hTells =>
      refine (realizes_following hEnded hs hAt
        (fun c hc => hHas c (.inl hc)) hRest).after
        (hMoves.trans hOwn.moves (F := F.or (T.own G))
          (fun _ _ hc => .inl hc) fun _ _ hc => .inr hc)
        (by simp [Charge.plus, hStill, Charge.ofLabels])
        (fun _ _ hc => .inr (.inl hc)) fun later R hSequel => ?_
      rw [hIdles.view_eq] at hSequel
      exact Account.tells_ended (hTells later) hStill
        (hNext _ (.inl hEnded) _ _) hSequel
  | @suspends _ a l x f _ c F' A' hStep hPauses =>
      have hPaused : 0 < c.steps := by
        rw [Charge.steps, hPauses.waits]
        exact Nat.one_pos
      have hIdles' : S.Idles .none 1 s₂ _ :=
        (idles_withLabel hs.machine
          (some (.sequenceResume T.cell (.label l)))).none_trans
            (idles_stamped _)
      have hBears : Session.Bears _ S.machine s₂.labels.size
          (some (.sequenceResume T.cell (.label l))) :=
        (idles_stamped (S := S) _).retains.bears _ _ _
          (s₂.bears_withLabel hs.machine _)
      have hApart := hClear.pauses hPauses
      have hFree' : ¬ F' (.sequence T.cell) := hApart _ (.inr rfl)
      intro r s' hRun
      rw [enter_suspended hStep hAt] at hRun
      cases hRun
      refine .suspends (Value.step?_record_fields _ _)
        (hPauses.around
          (hOwn.trans hIdles' (fun _ _ hc => hc)
            fun _ _ hc => hc.elim)
          (fun c hc => hIdles'.retains.has c (hHas c hc)) hApart
          hBears
          (Account.tells_paused hPauses.tells hPauses.waits
            (hNext _ (.inr hPaused) _ _))
          (fun o V later R hAll => Account.tells_resumed
            hPauses.waits
            (fun R₁ hR₁ => hPauses.later o V later R₁ hR₁)
            (fun R₁ hSteps => hNext R₁ (.inr hSteps)) hAll)
          fun k' hk rounds' d s₄ o hRests hBody => ?_)
      have hRests₂ := Rests.of_idles hIdles' hRests
        (F := F'.or (T.own G)) fun _ _ hc => ⟨not_false, hc⟩
      have hAt₄ := hAt.later hRests₂.retains (.inr (.inr rfl))
      have hClear₄ : ∀ s₅, T.Clear F' G s₄ s₅ := fun s₅ =>
        { cell := fun _ => ⟨hAt₄.has, hFree'⟩
          rest := fun c hc =>
            ⟨hRests₂.retains.has c (hHas c (.inl hc)),
              hApart c (.inl hc)⟩
          apart := hClear.apart }
      refine realizes_resume (hBody rounds' d) hAt₄ hFree'
        fun step s₅ hComes hAt₅ d' _ => ?_
      rcases hComes.moves with ⟨_, hMoves₅⟩
      have hSeq := idles_resequenced (S := S) s₅ T.cell step
      have hs₅ := hMoves₅.ready hRests.ready
      have hRetains : Session.Retains G s₂
          (s₅.resequenced T.cell step) := by
        refine hRests₂.retains.trans (hMoves₅.retains.trans
          hSeq.retains fun c _ (hc : G c) =>
            ⟨hApart c (.inl hc), fun hSame =>
              hClear.apart (hSame ▸ hc)⟩) fun c _ hc => ?_
        exact ⟨.inr (.inl hc), hc⟩
      exact ih k' hk hComes (hSeq.moves_none.ready hs₅) hSeq hAt₅
        (hClear₄ s₅) ((hRest.sooner (.inl hk)).later hRetains)
        fun _ _ _ _ _ h => h

/- A sequence is built where its first part has come to a step. -/
theorem ensures_built
    {rest : Closure}
    (hComes : S.Comes (S.Resumes k) F A s₀ (.ok step) s)
    (hs : S.Ready s)
    (hApart : ∀ c, G c → s₀.Has c ∧ ¬ F c)
    (hRest : S.Proceeds k rounds depth G s
      (fun caller => rest.enter caller []) B)
    (hNext : ∀ R₁ : Report ν,
      S.Ended (.ok step) R₁.ending ∨ 0 < R₁.charge.steps →
        ∀ V later R, Account.linking 2 B R₁ V later R →
          N R₁ V later R) :
    (build (.ofDepth rounds depth) (.machine S.machine) step
      rest).Ensures s
        (S.Comes (S.Resumes k) (F.or G) (A.andThen N) s₀) := by
  have hIdles := idles_withSequence hs.machine step rest
  have hAt := at_withSequence hs.machine step rest
  have hNew : ¬ s.Has (.sequence s.sequences.size) :=
    Nat.lt_irrefl _
  rcases hComes.moves with ⟨_, hMoves⟩
  have hClear : (newSite s S.machine rest).Clear F G s₀ s :=
    { cell := fun hHas => (hNew hHas).elim
      rest := hApart
      apart := fun hc =>
        hNew (hMoves.retains.has _ (hApart _ hc).1) }
  intro r s' hRun
  rw [build_eq _ hs.machine] at hRun
  refine Comes.widen
    (F := F.or ((newSite s S.machine rest).own G))
    (Label.ensures_below hAt.entry (fun _ _ h => h.isStep)
      (fun d hd => ensures_entered hComes (hIdles.moves.ready hs)
        (hIdles.none_trans (.refl _ _)) hAt hClear
        ((hRest.sooner (.deeper hd)).later
          (hIdles.retains.weaken fun _ _ _ => not_false)) hNext)
      r s' hRun) ?_
  rintro c hHas (hc | hc | rfl)
  · exact .inl hc
  · exact .inr hc
  · exact (hNew (hMoves.retains.has _ hHas)).elim

end Sequence

------------------------------------------------------------
-- Client Code
------------------------------------------------------------

namespace Supply

variable {S : Supply ν}
variable {A B : Account ν}
variable {p : Program}
variable {rest : Program}

/- A sequence of two parts meets the account of both. -/
theorem meets_combine
    (hFirst : S.Meets p A)
    (hRest : S.Meets rest B) :
    S.Meets
      (p.bind fun step =>
        .request (.sequence S.hub step fun _ => rest))
      (A.andThen (.linked B)) := by
  intro k rounds depth s hs
  refine realizes_iff.mpr ?_
  rw [Program.run_bind]
  refine Ensures.bind
    ((realizes_iff.mp (hFirst k rounds depth s hs)).mono ?_)
  intro r s₁ hComes
  rcases hComes.moves with ⟨_, hMoves⟩
  have hs₁ := hMoves.ready hs
  cases r with
  | error e =>
      rcases hComes.threw with ⟨c, hMoves, hStill, hTells⟩
      exact .ends hMoves hStill .throws fun later =>
        Account.tells_ends (hTells later)
          (Account.linked_broke hStill)
  | ok step =>
      refine ensures_request (Ensures.bind fun r s₂ hRun => ?_)
      cases (machineOf_hub hs₁).symm.trans hRun
      refine (Sequence.ensures_built (G := .none) hComes hs₁
        (fun _ hc => hc.elim) (Meets.proceeds hRest)
        fun R₁ hR₁ V later R hLinking =>
          (Account.linked_of_not_broke (not_broke hR₁)).symm ▸
            hLinking).mono fun _ _ hAll => hAll.widen ?_
      exact fun _ _ hc => hc.elim id id

end Supply

end Resumption

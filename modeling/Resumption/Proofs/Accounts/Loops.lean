import Resumption.Proofs.Accounts.Cleanups

/-
  Loops: what is charged for rounds, flat or in sequence.

  A loop takes one label for its head.  A round that finishes
  at once costs nothing; any other is the first part of a
  sequence, whose rest is a jump back to the head.

  Main declarations:
    * `Loop.Turns`
    * `Loop.realizes_loop`, `Loop.realizes_build`
    * `Supply.meets_while`
-/

namespace Resumption

open Run

variable {ν : Type}

------------------------------------------------------------
-- Rounds in Accounts
------------------------------------------------------------

namespace Account

variable {A B : Account ν}
variable {V V₀ : View ν}
variable {later : List (Waking ν)}
variable {c : Charge ν}
variable {R R₁ : Report ν}

section Choice

variable {ι : Type} [Inhabited ι]
variable {C : ι → Account ν}
variable {x : ν}

/-
  What comes after something comes once, if at all, so that
  what it is may be chosen beforehand.
-/
theorem awaits_choice
    (hRest : ∀ V later R, A V later R → ∃ i, C i V later R)
    (h : awaits x (proceeding fun _ => A) V later R) :
    ∃ i, awaits x (proceeding fun _ => C i) V later R := by
  have hNext : ∀ o V later R,
      proceeding (fun _ => A) o V later R →
        ∃ i, proceeding (fun _ => C i) o V later R := by
    intro o V later R hNext
    cases o with
    | fulfilled v => exact hRest V later R hNext
    | rejected e => exact ⟨default, hNext⟩
  cases hStatus : V.status x with
  | some o =>
      rcases hNext _ _ _ _ ((awaits_of_some hStatus).mp h) with
        ⟨i, hi⟩
      exact ⟨i, (awaits_of_some hStatus).mpr hi⟩
  | none =>
      cases later with
      | nil =>
          exact ⟨default, (awaits_of_none hStatus).mpr
            ((awaits_of_none hStatus).mp h)⟩
      | cons w later =>
          rcases (awaits_woken hStatus).mp h with ⟨R', hR', hR⟩
          rcases hNext _ _ _ _ hR' with ⟨i, hi⟩
          exact ⟨i, (awaits_woken hStatus).mpr ⟨R', hi, hR⟩⟩

theorem sequel_choice
    {ending : Ending ν}
    (hRest : ∀ V later R, A V later R → ∃ i, C i V later R)
    (h : sequel A ending V later R) :
    ∃ i, sequel (C i) ending V later R := by
  cases ending with
  | finished v => exact hRest V later R h
  | handed x => exact awaits_choice hRest h
  | threw e => exact ⟨default, h⟩
  | paused x => exact ⟨default, h⟩

theorem round_choice
    (hRest : ∀ V later R, A V later R → ∃ i, C i V later R)
    (h : round A R₁ V later R) :
    ∃ i, round (C i) R₁ V later R := by
  unfold round linked at *
  by_cases hFlat : R₁.Flat
  · simp only [if_pos hFlat] at h ⊢
    exact hRest V later R h
  · by_cases hBroke : R₁.Broke
    · simp only [if_neg hFlat, if_pos hBroke] at h ⊢
      exact ⟨default, h⟩
    · simp only [if_neg hFlat, if_neg hBroke] at h ⊢
      rcases h with ⟨R', hSequel, hR⟩
      rcases sequel_choice hRest hSequel with ⟨i, hi⟩
      exact ⟨i, R', hi, hR⟩

end Choice

/- A round that finishes at once costs what its body does. -/
theorem tells_flat
    {v : Value}
    (hFirst : A V₀ later ⟨.finished v, V, later, c⟩)
    (hStill : c.waits = [])
    (hRest : B V later R) :
    (A.andThen (round B)) V₀ later (R.after c) := by
  refine ⟨_, hFirst, R, ?_, rfl⟩
  have hFlat : Report.Flat
      (⟨.finished v, V, later, c⟩ : Report ν) :=
    ⟨congrArg List.length hStill, v, rfl⟩
  unfold round
  rw [if_pos hFlat]
  exact hRest

/- A round that throws at once ends the loop. -/
theorem round_broke
    {e : Value}
    (hStill : c.waits = []) :
    round B ⟨.threw e, V, later, c⟩ = ends (.threw e) := by
  have hNot : ¬ Report.Flat
      (⟨.threw e, V, later, c⟩ : Report ν) := by
    rintro ⟨_, v, hEnding⟩
    cases hEnding
  unfold round
  rw [if_neg hNot]
  exact linked_broke hStill

end Account

/- What a round ends with may be said in another way. -/
theorem Run.continues_mono
    {α : Type}
    {before : Session → Prop}
    {post post' : Except Value α → Session → Prop}
    (hPost : ∀ r s, post r s → post' r s)
    (r : Except Value (Option α))
    (s : Session)
    (h : Run.Continues before post r s) :
    Run.Continues before post' r s := by
  rcases r with e | _ | a
  · exact hPost _ _ h
  · exact h
  · exact hPost _ _ h

namespace Loop

open Supply

variable {S : Supply ν}
variable {σ : Type}
variable {P : σ → Session → Prop}
variable {L : σ → Account ν}
variable {G : Footprint}
variable {i : σ}
variable {s s₁ : Session}
variable {condition body : Closure}
variable {entry m : Ref}
variable {k rounds depth : Nat}

------------------------------------------------------------
-- Turns
------------------------------------------------------------

/-
  Where a condition leads: to a body that is accounted for
  with the rest of the loop after it, to the loop's end, or
  to a failure.
-/
inductive Turn
    (S : Supply ν)
    (G : Footprint)
    (body : Closure)
    (P : σ → Session → Prop)
    (L : σ → Account ν)
    (i : σ)
    (s : Session) : Except Value Value → Session → Prop where
  | round
      {v s₁ j A}
      (hTruthy : v.truthy = true)
      (hMoves : S.Moves G .none s s₁)
      (hHolds : P j s₁)
      (hBody : ∀ k rounds depth, S.Realizes k .none
        ((Caller.ofDepth rounds depth).call body []) s₁ A)
      (hTell : ∀ later R,
        (A.andThen (.round (L j))) (S.view s₁) later R →
          L i (S.view s) later R) :
      Turn S G body P L i s (.ok v) s₁
  | stops
      {v s₁}
      (hFalsy : v.truthy = false)
      (hMoves : S.Moves G .none s s₁)
      (hTell : ∀ later R,
        Account.ends (.finished .undefined) (S.view s₁) later R →
          L i (S.view s) later R) :
      Turn S G body P L i s (.ok v) s₁
  | fails
      {e s₁}
      (hMoves : S.Moves G .none s s₁)
      (hTell : ∀ later R,
        Account.ends (.threw e) (S.view s₁) later R →
          L i (S.view s) later R) :
      Turn S G body P L i s (.error e) s₁

/-
  A loop whose condition turns so from wherever it stands.
  Where it stands is a matter of its own cells.
-/
structure Turns
    (S : Supply ν)
    (G : Footprint)
    (condition body : Closure)
    (P : σ → Session → Prop)
    (L : σ → Account ν) : Prop where
  has : ∀ i s, P i s → ∀ c, G c → s.Has c
  later : ∀ i s s₁, P i s → Session.Retains G s s₁ → P i s₁
  turns : ∀ i s, S.Ready s → P i s → ∀ rounds depth,
    ((Caller.ofDepth rounds depth).call condition []).Ensures s
      (Turn S G body P L i s)

/-
  A loop has taken flat rounds since it was at its head.
-/
structure Goes
    (S : Supply ν)
    (G : Footprint)
    (P : σ → Session → Prop)
    (L : σ → Account ν)
    (i : σ)
    (s : Session)
    (j : σ)
    (c : Charge ν)
    (s₁ : Session) : Prop where
  moves : S.Moves G c s s₁
  still : c.waits = []
  holds : P j s₁
  tells : ∀ later R, L j (S.view s₁) later R →
    L i (S.view s) later (R.after c)

/- It goes on at its head. -/
def Continues
    (S : Supply ν)
    (G : Footprint)
    (P : σ → Session → Prop)
    (L : σ → Account ν)
    (i : σ)
    (s s₁ : Session) : Prop :=
  ∃ j c, Goes S G P L i s j c s₁

------------------------------------------------------------
-- Rounds
------------------------------------------------------------

/- A round that does not finish at once is put in sequence. -/
theorem ensures_linked
    {A B : Account ν}
    {step : Value}
    (hComes : S.Comes (S.Resumes k) .none A s (.ok step) s₁)
    (hs₁ : S.Ready s₁)
    (hNot : ∀ v, step.step? ≠ some (.finish v))
    (hHas : ∀ c, G c → s.Has c)
    (hHead : S.Proceeds k rounds depth G s₁
      (fun caller => (Closure.jump S.machine entry).enter caller
        []) B) :
    (Sequence.build (.ofDepth rounds depth) (.machine S.machine)
      step (.jump S.machine entry)).Ensures s₁
        (S.Comes (S.Resumes k) G (A.andThen (.round B)) s) := by
  refine (Sequence.ensures_built hComes hs₁
    (fun c hc => ⟨hHas c hc, not_false⟩) hHead
    fun R₁ hR₁ V later R hLinking => ?_).mono
      fun _ _ hAll => hAll.widen fun _ _ hc => hc.elim
        False.elim id
  have hFlat : ¬ R₁.Flat := by
    rintro ⟨hSteps, v, hEnding⟩
    rcases hR₁ with hEnded | hPos
    · rw [hEnding] at hEnded
      cases hEnded with
      | finishes hStep => exact hNot v hStep
    · exact Nat.ne_of_gt hPos hSteps
  unfold Account.round
  rw [if_neg hFlat, Account.linked_of_not_broke (not_broke hR₁)]
  exact hLinking

/- A body that came to a step ends a round, or the loop. -/
theorem ensures_step
    {A B : Account ν}
    {step : Value}
    {before : Session → Prop}
    (hComes : S.Comes (S.Resumes k) .none A s (.ok step) s₁)
    (hs₁ : S.Ready s₁)
    (hHas : ∀ c, G c → s.Has c)
    (hHead : S.Proceeds k rounds depth G s₁
      (fun caller => (Closure.jump S.machine entry).enter caller
        []) B)
    (hFlat : ∀ c, S.Moves .none c s s₁ → c.waits = [] →
      (∀ later R, B (S.view s₁) later R →
        (A.andThen (.round B)) (S.view s) later (R.after c)) →
      before s₁) :
    Run.Ensures
      (if step.isMissing then Run.typeError
      else
        match step.step? with
        | some (.finish _) => return none
        | _ =>
            some <$> Sequence.build (.ofDepth rounds depth)
              (.machine S.machine) step (.jump S.machine entry))
      s₁
      (Run.Continues before
        (S.Comes (S.Resumes k) G (A.andThen (.round B)) s)) := by
  have hLinked := fun hNot =>
    ensures_linked hComes hs₁ hNot hHas hHead
  rw [if_neg (by
    simp [Value.not_missing_of_isStep hComes.isStep])]
  cases hComes with
  | ends hMoves hStill hEnded hTells =>
      cases hEnded with
      | finishes hStep =>
          rw [hStep]
          exact ensures_pure.mpr (hFlat _ hMoves hStill
            fun later R hB =>
              Account.tells_flat (hTells later) hStill hB)
      | handsOff hStep hOrigin =>
          have hNot : ∀ v, step.step? ≠ some (.finish v) := by
            rw [hStep]
            exact fun _ h => by cases h
          rw [hStep]
          exact (hLinked hNot).continues
  | suspends hStep hPauses =>
      have hNot : ∀ v, step.step? ≠ some (.finish v) := by
        rw [hStep]
        exact fun _ h => by cases h
      rw [hStep]
      exact (hLinked hNot).continues

/- A round ends the loop, or leads back to its head. -/
theorem ensures_round
    (hTurns : Turns S G condition body P L)
    (hs : S.Ready s)
    (hHolds : P i s)
    (hHead : ∀ j s₁, Session.Retains Footprint.none s s₁ →
      P j s₁ → S.Proceeds k rounds depth G s₁
        (fun caller => (Closure.jump S.machine entry).enter caller
          []) (L j)) :
    (round (.ofDepth rounds depth) S.machine entry condition
      body).Ensures s
        (Run.Continues (Loop.Continues S G P L i s)
          (S.Comes (S.Resumes k) G (L i) s)) := by
  refine Ensures.bind
    ((hTurns.turns i s hs hHolds rounds depth).mono ?_)
  intro r s₁ hTurn
  cases hTurn with
  | fails hMoves hTell =>
      exact .ends hMoves rfl .throws fun later =>
        hTell later _ rfl
  | @stops v _ hFalsy hMoves hTell =>
      change (if v.truthy = true then _ else _ :
        Run (Option Value)).Ensures s₁ _
      rw [if_neg (by simp [hFalsy])]
      refine Run.Ensures.continues
        ((realizes_finish .undefined).after hMoves rfl
          (fun _ _ hc => hc) fun later R hEnds => ?_)
      rw [Report.after_none]
      exact hTell later R hEnds
  | @round v _ j A hTruthy hMoves hHolds₁ hBody hTell =>
      have hs₁ := hMoves.ready hs
      have hHas : ∀ c, G c → s₁.Has c := fun c hc =>
        hMoves.retains.has c (hTurns.has i s hHolds c hc)
      change (if v.truthy = true then _ else _ :
        Run (Option Value)).Ensures s₁ _
      rw [if_pos hTruthy]
      refine Ensures.bind ((realizes_iff.mp
        (hBody k rounds depth)).mono fun r s₂ hComes => ?_)
      rcases hComes.moves with ⟨_, hMoves₂⟩
      have hHolds₂ := hTurns.later j s₁ s₂ hHolds₁
        (hMoves₂.retains.weaken fun _ _ _ => not_false)
      have hTell' : ∀ later R,
          (A.andThen (.round (L j))) (S.view s₁) later R →
            L i (S.view s) later (R.after .none) := by
        intro later R hAll
        rw [Report.after_none]
        exact hTell later R hAll
      cases r with
      | error e =>
          rcases hComes.threw with ⟨c, hMoves₂, hStill, hTells⟩
          exact (Comes.ends hMoves₂ hStill .throws fun later =>
            Account.tells_ends (hTells later)
              (Account.round_broke hStill)).after hMoves rfl
                (fun _ _ hc => hc.elim) hTell'
      | ok step =>
          refine (ensures_step hComes (hMoves₂.ready hs₁) hHas
            (hHead j s₂ (hMoves.retains.bare_trans
              hMoves₂.retains) hHolds₂)
            fun c hMoves₃ hStill hTells => ?_).mono
              (continues_mono fun _ _ hAll => hAll.after hMoves
                rfl (fun _ _ hc => hc) hTell')
          exact ⟨j, _,
            { moves := hMoves.trans hMoves₃ (fun _ _ hc => hc)
                fun _ _ hc => hc.elim
              still := by rw [Charge.none_plus]; exact hStill
              holds := hHolds₂
              tells := fun later R hL => by
                rw [Charge.none_plus]
                exact hTell _ _ (hTells later R hL) }⟩

------------------------------------------------------------
-- Heads
------------------------------------------------------------

/- Whatever follows a loop's head is a matter of its account. -/
theorem ensures_rounds
    (hTurns : Turns S G condition body P L)
    (hs : S.Ready s)
    (hHolds : P i s)
    (hHead : ∀ j s₁, Session.Retains Footprint.none s s₁ →
      P j s₁ → S.Proceeds k rounds depth G s₁
        (fun caller => (Closure.jump S.machine entry).enter caller
          []) (L j)) :
    S.Realizes k G
      (enter (.ofDepth rounds depth) S.machine entry condition
        body) s (L i) := by
  have hStart : Loop.Continues S G P L i s s :=
    ⟨i, .none,
      { moves := .refl G s
        still := rfl
        holds := hHolds
        tells := fun later R hL => by
          rw [Report.after_none]
          exact hL }⟩
  refine realizes_iff.mpr (Ensures.iterate ?_ _ hStart)
  rintro s₁ ⟨j, c, hGoes⟩
  refine (ensures_round hTurns (hGoes.moves.ready hs) hGoes.holds
    fun j' s₂ hRetains => hHead j' s₂
      (hGoes.moves.retains.bare_trans hRetains)).mono ?_
  rintro (e | _ | v) s₂ hEnd
  · exact Comes.after hEnd hGoes.moves hGoes.still
      (fun _ _ hc => hc) hGoes.tells
  · rcases hEnd with ⟨j', c', hGoes'⟩
    exact ⟨j', c.plus c',
      { moves := hGoes.moves.trans hGoes'.moves
          (fun _ _ hc => hc) fun _ _ hc => hc
        still := by
          simp [Charge.plus, hGoes.still, hGoes'.still]
        holds := hGoes'.holds
        tells := fun later R hL => by
          rw [← Report.after_after]
          exact hGoes.tells _ _ (hGoes'.tells later R hL) }⟩
  · exact Comes.after hEnd hGoes.moves hGoes.still
      (fun _ _ hc => hc) hGoes.tells

/-
  From its head on a loop realizes its account.  The induction
  is on how often it may be resumed, and on how deep calls go:
  a sequence comes back to the head one level deeper.
-/
theorem realizes_loop
    (hTurns : Turns S G condition body P L)
    (hBears : s.Bears S.machine entry
      (some (.loopHead S.machine entry condition body)))
    (hs : S.Ready s)
    (hHolds : P i s) :
    S.Realizes k G
      (enter (.ofDepth rounds depth) S.machine entry condition
        body) s (L i) := by
  induction k using Nat.strongRecOn generalizing i s rounds
    depth with
  | ind k ihMore =>
  induction depth using Nat.strongRecOn generalizing i s with
  | ind depth ihDeeper =>
  refine ensures_rounds hTurns hs hHolds
    fun j s₁ hRetains hHolds₁ => ?_
  have hBears₁ := hRetains.bears _ _ _ hBears
  refine Proceeds.jump hBears₁
    fun k' rounds' d hSooner s₂ hRetains₂ hs₂ => ?_
  have hBears₂ := hRetains₂.bears _ _ _ hBears₁
  have hHolds₂ := hTurns.later j s₁ s₂ hHolds₁ hRetains₂
  rcases hSooner with hk | ⟨rfl, rfl, hd⟩
  · exact ihMore k' hk hBears₂ hs₂ hHolds₂
  · exact ihDeeper d hd hBears₂ hs₂ hHolds₂

/- A loop that is built enters its head. -/
theorem realizes_build
    (hTurns : Turns S G condition body P L)
    (hs : S.Ready s)
    (hHolds : P i s) :
    S.Realizes k G
      (build (.ofDepth rounds depth) (.machine S.machine)
        condition body) s
      ((L i).costing (.ofLabels 1)) := by
  have hLabel := s.bears_withLabel hs.machine none
  let code : Closure :=
    .loopHead S.machine s.labels.size condition body
  have hIdles : S.Idles .none 1 s _ :=
    (idles_withLabel hs.machine none).none_trans
      (idles_relabelled hLabel code)
  have hBears := hLabel.relabelled code
  have hHere : S.Realizes k G
      (Label.jump (.ofDepth rounds depth) S.machine
        (.label s.labels.size)) _ (L i) :=
    .jump hBears fun _ _ => realizes_loop hTurns hBears
      (hIdles.moves.ready hs) (hTurns.later i s _ hHolds
        (hIdles.retains.weaken fun _ _ _ => not_false))
  refine realizes_iff.mpr fun r s₁ hRun => ?_
  refine hHere.after (hIdles.moves.widen fun _ _ hc => hc.elim)
    rfl (fun _ _ hc => hc)
    (fun later R hL => ⟨R, hIdles.view_eq ▸ hL, rfl⟩) r s₁ ?_
  rw [← hRun]
  exact (step_eq (a := S.machine) rfl (step_eq
    (Label.allocate_eq S.machine s)
      (step_eq (Label.replace_eq hLabel code) rfl))).symm

end Loop

------------------------------------------------------------
-- Client Code
------------------------------------------------------------

namespace Supply

variable {S : Supply ν}
variable {A : Account ν}
variable {p : Program}
variable {effect : Effect}

/- A condition that holds leads to a body, and else to the end. -/
theorem turns_effect
    (hBody : S.Meets p A) :
    Loop.Turns S .none (.client fun _ => effect.code)
      (.client fun _ => p) (fun (_ : Unit) _ => True)
      fun _ => .loop effect A where
  has _ _ _ _ hc := hc.elim
  later _ _ _ _ _ := trivial
  turns i s hs _ rounds depth := by
    refine (ensures_effect (S := S) effect s []).mono ?_
    rintro r s₁ ⟨rfl, hAlters⟩
    have hView := hAlters.view hs
    have hUnfold : ∀ later R,
        (∃ n, Account.turned (Account.looping effect A n) A
          (effect.upon s.globals).1 (S.view s₁) later R) →
        Account.loop effect A (S.view s) later R := by
      rintro later R ⟨n, hn⟩
      rw [hView] at hn
      exact ⟨n + 1, hn⟩
    cases hEnd : (effect.upon s.globals).1 with
    | error e =>
        rw [hEnd] at hUnfold
        exact .fails hAlters.moves fun later R hEnds =>
          hUnfold later R ⟨0, hEnds⟩
    | ok v =>
        rw [hEnd] at hUnfold
        by_cases hTruthy : v.truthy = true
        · simp only [Account.turned, if_pos hTruthy] at hUnfold
          refine .round (j := ()) hTruthy hAlters.moves trivial
            (fun k rounds depth => .call fun d _ =>
              hBody.enter (hAlters.ready hs)) ?_
          rintro later R ⟨R₁, hA, R₂, hRound, hR⟩
          rcases Account.round_choice (fun _ _ _ hLoop => hLoop)
            hRound with ⟨n, hn⟩
          exact hUnfold later R ⟨n, R₁, hA, R₂, hn, hR⟩
        · simp only [Account.turned, if_neg hTruthy] at hUnfold
          exact .stops (Bool.eq_false_iff.mpr hTruthy)
            hAlters.moves fun later R hEnds =>
              hUnfold later R ⟨0, hEnds⟩

/- A loop on a condition meets its account. -/
theorem meets_while
    (hBody : S.Meets p A) :
    S.Meets
      (.request (.whileLoop S.hub (fun _ => effect.code)
        (fun _ => p)))
      ((Account.loop effect A).costing (.ofLabels 1)) := by
  refine meets_request fun k rounds depth s hs => ?_
  exact .idle_none (machineOf_hub hs) (.refl .none s)
    (Loop.realizes_build (i := ()) (turns_effect hBody) hs
      trivial) fun _ _ hc => hc

end Supply

end Resumption

import Resumption.Proofs.Accounts.Recoveries

/-
  Cleanups: what is charged for a body with a compensation.

  A cleanup takes two labels when it is built, as a recovery
  does, and another one only for a hand-off that is pending.
  Its compensation is run before it ends, free of charge.

  Main declarations:
    * `Supply.Undoes`
    * `Cleanup.realizes_compensated`
    * `Cleanup.realizes_enter`
    * `Supply.meets_tryFinally`, `Supply.meets_using`
-/

namespace Resumption

open Run

variable {ν : Type}

------------------------------------------------------------
-- Cleanups in Sessions
------------------------------------------------------------

/- What became of a task's cleanups is not in its story. -/
theorem Session.stories_tending
    (s : Session)
    (c : Care) :
    (s.tending c).stories = s.stories := by
  unfold tending stories
  split
  · apply Array.ext
    · simp [noting]
    · intro i _ _
      simp only [noting, Array.getElem_map, Array.getElem_modify]
      split <;> rfl
  · rfl

namespace Supply

variable {S : Supply ν}
variable {s s₁ : Session}
variable {code : Closure}
variable {effect : Effect}

/- To note what became of a cleanup is idle. -/
theorem idles_tending
    (s : Session)
    (c : Care) :
    S.Idles .none 0 s (s.tending c) := by
  have hMoves : S.setting.Moves .none s (s.tending c) := by
    unfold Session.tending
    split
    · exact Cleanup.moves_noting S.setting s _
    · exact .refl S.setting .none s
  have hStories := s.stories_tending c
  have hStock : (s.tending c).stock = s.stock := by
    simp only [Session.stock, Session.surroundings, hStories]
    unfold Session.tending
    split <;> rfl
  refine idles_of_moves hMoves hStock ?_
  unfold Session.tending
  split <;> rfl

/- Resuming elsewhere is idle but for a cleanup's own cell. -/
theorem idles_protecting
    (s : Session)
    (i l : Ref) :
    S.Idles (.only (.cleanup i)) 0 s (s.protecting i l) :=
  idles_of_moves (Cleanup.moves_modify S.setting s i _) rfl rfl

theorem idles_compensating
    (s : Session)
    (i : Ref) :
    S.Idles (.only (.cleanup i)) 0 s (s.compensating i) :=
  idles_of_moves (Cleanup.moves_compensating S.setting s i)
    rfl rfl

/- A new cleanup takes two labels. -/
theorem idles_founding
    (hm : S.machine < s.machines.size)
    (body compensation : Closure) :
    S.Idles .none 2 s
      (s.founding S.machine body compensation) := by
  have hm' : S.machine <
      (s.withLabel S.machine none).machines.size := by
    simpa [Session.withLabel] using hm
  have hLabels := (idles_withLabel hm none).none_trans
    (idles_withLabel hm' (some body))
  have hRow := hLabels.none_trans (idles_of_moves
    (Cleanup.moves_withCleanupRow S.setting _
      ⟨S.machine, s.labels.size,
        .label (s.withLabel S.machine none).labels.size,
        compensation, false, s.task⟩) rfl rfl)
  have hEntry := hRow.none_trans (idles_relabelled
    (Cleanup.bears_entry hm body compensation)
    (.cleanupEntry s.cleanups.size))
  exact hEntry.none_trans (idles_tending _ _)

/- From wherever the session comes to, code ends as an effect. -/
def Undoes
    (S : Supply ν)
    (code : Closure)
    (effect : Effect)
    (s : Session) : Prop :=
  ∀ s₁, Session.Retains Footprint.none s s₁ → S.Ready s₁ →
    S.Quits code effect s₁

theorem Undoes.later
    {kept : Cell → Prop}
    (h : S.Undoes code effect s)
    (hRetains : Session.Retains kept s s₁) :
    S.Undoes code effect s₁ :=
  fun s₂ hRetains' hs =>
    h s₂ (hRetains.bare_trans hRetains') hs

end Supply

namespace Cleanup

open Supply

variable {S : Supply ν}
variable {T : Site}
variable {F : Footprint}
variable {A : Account ν}
variable {effect : Effect}
variable {s : Session}
variable {k rounds depth : Nat}
variable {a f l : Ref}
variable {x : ν}
variable {o : Outcome}
variable {ending : Ending ν}
variable {done : Run Value}

------------------------------------------------------------
-- Compensating
------------------------------------------------------------

/- What was not compensated is, and ends as its effect does. -/
theorem ensures_compensate
    (hs : S.Ready s)
    (hAt : T.At S.machine s l)
    (hUndoes : S.Undoes T.compensation effect s) :
    (compensate (.ofDepth rounds depth) T.cell).Ensures s
      fun r s' =>
        r.map (fun _ => ()) =
            (effect.upon s.globals).1.map (fun _ => ()) ∧
          S.Moves (.only (.cleanup T.cell)) .none s s' ∧
          s'.globals = (effect.upon s.globals).2 := by
  rcases hAt.row_eq with ⟨t, hRow⟩
  have hIdles := (idles_compensating (S := S) s T.cell).trans
    (idles_tending (s.compensating T.cell) (.compensated T.cell))
    (fun _ _ hc => hc) fun _ _ hc => hc.elim
  have hTend := Run.tendHere_tending (.compensated T.cell)
    (s.compensating T.cell)
  have hGlobals : ((s.compensating T.cell).tending
      (.compensated T.cell)).globals = s.globals :=
    congrArg Stock.globals hIdles.stock
  have hQuits := hUndoes _ hIdles.retains.bare
    (hIdles.moves.ready hs) rounds depth
  refine Ensures.bind fun r s₁ hRun => ?_
  cases hRow.symm.trans hRun
  refine ensures_modify_bind.mpr ?_
  refine Ensures.bind fun r s₁ hRun => ?_
  cases hTend.symm.trans hRun
  refine Ensures.discard (hQuits.mono fun r s₁ hQuit => ?_)
  rw [Quit, hGlobals] at hQuit
  refine ⟨?_, hIdles.moves_none.trans hQuit.2.moves
    (fun _ _ hc => hc) fun _ _ hc => hc.elim, hQuit.2.globals⟩
  rw [← hQuit.1]
  cases r <;> rfl

/- A compensation comes before an end. -/
theorem realizes_compensated
    (hs : S.Ready s)
    (hAt : T.At S.machine s l)
    (hUndoes : S.Undoes T.compensation effect s)
    (hDone : ∀ s', S.Realizes k .none done s' (.ends ending)) :
    S.Realizes k (.only (.cleanup T.cell))
      (do
        compensate (.ofDepth rounds depth) T.cell
        done)
      s (.settling effect ending) := by
  refine realizes_iff.mpr (Ensures.bind
    ((ensures_compensate hs hAt hUndoes).mono ?_))
  rintro r s₁ ⟨hSame, hMoves, hGlobals⟩
  have hView : S.view s₁ =
      { S.view s with vars := (effect.upon s.globals).2 } := by
    simp only [view, hGlobals, hMoves.status_eq hs]
  have hSettling : ∀ later R,
      Account.settling effect ending (S.view s) later R ↔
        (Account.undone ending (effect.upon s.globals).1)
          (S.view s₁) later R := by
    intro later R
    rw [hView]
    exact Iff.rfl
  cases hEnd : (effect.upon s.globals).1 with
  | ok v =>
      rw [hEnd] at hSame hSettling
      cases r with
      | error e => cases hSame
      | ok _ =>
          refine (hDone s₁).after hMoves rfl
            (fun _ _ hc => hc.elim) fun later R hEnds => ?_
          rw [Report.after_none]
          exact (hSettling later R).mpr hEnds
  | error e =>
      rw [hEnd] at hSame hSettling
      cases r with
      | ok _ => cases hSame
      | error e' =>
          cases hSame
          exact .ends hMoves rfl .throws fun later =>
            (hSettling later _).mpr rfl

/- What a body handed off to is its end, once that is there. -/
theorem realizes_outcome
    (hProbe : (S.origin x).probe? = none)
    (hs : S.Ready s)
    (hAwaits : S.Awaits s a x (some f))
    (hOutcome : s.outcome? f = some o)
    (hAt : T.At S.machine s l)
    (hUndoes : S.Undoes T.compensation effect s) :
    S.Realizes k (.only (.cleanup T.cell))
      (outcome (.ofDepth rounds depth) T.cell (.awaiter a)) s
      (.settled effect o) := by
  rcases result_awaits hs hAwaits hOutcome with
    ⟨s', hMoves, hView, hResult⟩
  have hFree := hMoves.worth (S.worth_reading hProbe).symm
  have hs' := hMoves.ready hs
  have hAt' := hAt.later hMoves.retains not_false
  have hUndoes' := hUndoes.later hMoves.retains
  refine realizes_iff.mpr (Ensures.bind
    (ensures_attempt.mpr fun r s₁ hRun => ?_))
  cases (hResult _).symm.trans hRun
  have hTell : ∀ later R,
      Account.settled effect o (S.view s') later R →
        Account.settled effect o (S.view s) later
          (R.after .none) := by
    intro later R h
    rw [Report.after_none, ← hView]
    exact h
  cases o with
  | fulfilled v =>
      exact (realizes_compensated hs' hAt' hUndoes' fun s' =>
        realizes_finish v).after
          (hFree.widen fun _ _ hc => hc.elim) rfl
          (fun _ _ hc => hc) hTell
  | rejected e =>
      exact (realizes_compensated hs' hAt' hUndoes' fun s' =>
        realizes_raise e).after
          (hFree.widen fun _ _ hc => hc.elim) rfl
          (fun _ _ hc => hc) hTell

------------------------------------------------------------
-- Entering
------------------------------------------------------------

/-
  A body with a compensation is entered where it resumes.
  The induction is on how often it may be resumed.
-/
theorem realizes_enter
    (hBody : S.Realizes k F
      (Label.jump (.ofDepth rounds depth) S.machine (.label l))
      s A)
    (hs : S.Ready s)
    (hAt : T.At S.machine s l)
    (hFree : ¬ F (.cleanup T.cell))
    (hUndoes : S.Undoes T.compensation effect s) :
    S.Realizes k (F.or (.only (.cleanup T.cell)))
      (enter (.ofDepth rounds depth) T.cell) s
      (A.protecting effect) := by
  induction k using Nat.strongRecOn generalizing F A s l rounds
    depth with
  | ind k ih =>
  rcases hAt.row_eq with ⟨t, hRow⟩
  refine realizes_iff.mpr (Ensures.bind fun r s₁ hRun => ?_)
  cases hRow.symm.trans hRun
  refine Ensures.bind (ensures_attempt.mpr
    ((realizes_iff.mp hBody).mono fun r s₁ hComes => ?_))
  rcases hComes.moves with ⟨_, hMoves⟩
  have hs₁ := hMoves.ready hs
  have hAt₁ := hAt.later hMoves.retains hFree
  have hUndoes₁ := hUndoes.later hMoves.retains
  cases r with
  | error e =>
      rcases hComes.threw with ⟨c, hMoves, hStill, hTells⟩
      exact (realizes_compensated hs₁ hAt₁ hUndoes₁ fun s' =>
        realizes_raise e).after
          (hMoves.widen fun _ _ hc => .inl hc) hStill
          (fun _ _ hc => .inr hc)
          fun later R hNext => ⟨_, hTells later, R, hNext, rfl⟩
  | ok step =>
      change (if step.isMissing = true then _ else _ :
        Run Value).Ensures s₁ _
      rw [if_neg (by
        simp [Value.not_missing_of_isStep hComes.isStep])]
      cases hComes with
      | ends hMoves hStill hEnded hTells =>
          have hWhole : S.Moves (F.or (.only (.cleanup T.cell)))
              _ s s₁ :=
            hMoves.widen fun _ _ hc => .inl hc
          cases hEnded with
          | finishes hStep =>
              rw [hStep]
              exact (realizes_compensated hs₁ hAt₁ hUndoes₁
                fun s' => realizes_ending rfl (.refl _ s')
                  (.finishes hStep)).after hWhole hStill
                    (fun _ _ hc => .inr hc) fun later R hNext =>
                      ⟨_, hTells later, R, hNext, rfl⟩
          | handsOff hStep hOrigin =>
              have hProbe := S.uncounted hOrigin
              rw [hStep]
              refine (realizes_handed
                (G := .only (.cleanup T.cell)) _
                (.cleanupOutcome T.cell) hOrigin hs₁
                (fun c hc => hc ▸ hAt₁.has)
                (fun s' a g o hs' hRetains hAwaits hOutcome =>
                  realizes_outcome hProbe hs' hAwaits hOutcome
                    (hAt₁.later hRetains rfl)
                    (hUndoes₁.later hRetains))
                fun s' a g o hs' hRetains hAwaits hOutcome _ _
                  _ _ => realizes_outcome hProbe hs' hAwaits
                    hOutcome (hAt₁.later hRetains rfl)
                    (hUndoes₁.later hRetains)).after hWhole hStill
                (fun _ _ hc => .inr hc)
                fun later R hNext =>
                  ⟨_, hTells later, R, hNext, rfl⟩
      | @suspends _ a l' x f _ c F' A' hStep hPauses =>
          have hIdles : S.Idles (.only (.cleanup T.cell)) 0 s₁
              (s₁.protecting T.cell l').stamped :=
            (idles_protecting s₁ T.cell l').trans
              (idles_stamped _) (fun _ _ hc => hc)
              fun _ _ hc => hc.elim
          have hAt₂ := (hAt₁.protecting l').later
            (idles_stamped (S := S) _).retains not_false
          have hFree' : ¬ F' (.cleanup T.cell) := fun hc =>
            hFree ((hPauses.foot _ hc).2 hAt.has)
          have hHas₂ : ∀ c, Footprint.only (.cleanup T.cell) c →
              Session.Has _ c := fun _ hc => hc ▸ hAt₂.has
          have hApart : (Footprint.only (.cleanup T.cell)).Apart F' :=
            fun _ hc => hc ▸ hFree'
          have hNone : c.plus (.ofLabels 0) = c :=
            Charge.plus_none c
          rw [hStep]
          refine ensures_alter_bind.mpr ?_
          refine (ensures_newStep _ _).mono ?_
          rintro _ _ ⟨rfl, made, rfl, hMade⟩
          refine .suspends hMade (hPauses.around
            (B := fun o => (A' o).protecting effect) hIdles
            hHas₂ hApart hAt₂.entry ?_
            (fun o V later R => ?_)
            fun k' hk rounds' d s₄ o hRests hBody => ?_)
          · rw [hNone]
            exact Account.tells_ends hPauses.tells rfl
          · rw [hNone]
            exact Account.tells_passed (hPauses.later o V later)
          · have hAt₄ := hAt₂.later hRests.retains (.inr rfl)
            exact ih k' hk (hBody rounds' d) hRests.ready hAt₄
              hFree' (hUndoes₁.later
                (hIdles.retains.bare_trans hRests.retains))

/- A cleanup that is built enters its body. -/
theorem realizes_build
    {body compensation : Closure}
    (hs : S.Ready s)
    (hHas : ∀ c, F c → s.Has c)
    (hBody : S.Proceeds k rounds depth F s
      (fun caller => body.enter caller []) A)
    (hUndoes : S.Undoes compensation effect s) :
    S.Realizes k F
      (build (.ofDepth rounds depth) (.machine S.machine) body
        compensation) s
      ((A.protecting effect).costing (.ofLabels 2)) := by
  have hIdles := idles_founding hs.machine body compensation
  have hTending := idles_tending (S := S)
    (s.withCleanup S.machine body compensation)
    (.entered s.cleanups.size)
  have hAt := (at_withCleanup hs.machine body compensation).later
    hTending.retains not_false
  have hInner := hTending.retains.bears _ _ _
    (bears_withCleanup hs.machine body compensation)
  have hs' := hIdles.moves.ready hs
  have hNew : ¬ s.Has (.cleanup s.cleanups.size) :=
    Nat.lt_irrefl _
  have hHere : S.Realizes k
      (F.or (.only (.cleanup s.cleanups.size)))
      (Label.jump (.ofDepth rounds depth) S.machine
        (.label s.labels.size))
      (s.founding S.machine body compensation)
      (A.protecting effect) := by
    refine .jump hAt.entry fun d hd => ?_
    have hJump := (hBody.later (hIdles.retains.weaken
      fun _ _ _ => not_false)).jump hInner
    exact realizes_enter
      (hJump k rounds d (.deeper hd) _ (.refl _ _) hs') hs' hAt
      (fun hc => hNew (hHas _ hc)) (hUndoes.later hIdles.retains)
  refine realizes_iff.mpr fun r s₁ hRun => ?_
  rw [build_eq _ hs.machine] at hRun
  refine hHere.after (hIdles.moves.widen fun _ _ hc => hc.elim)
    rfl ?_ (fun later R hAll => ⟨R, hIdles.view_eq ▸ hAll, rfl⟩)
    r s₁ hRun
  rintro c hHasOld (hc | rfl)
  · exact hc
  · exact (hNew hHasOld).elim

end Cleanup

------------------------------------------------------------
-- Client Code
------------------------------------------------------------

namespace Supply

variable {S : Supply ν}
variable {A : Account ν}
variable {p : Program}
variable {effect : Effect}

/- A body with a compensation meets its account. -/
theorem meets_tryFinally
    (hBody : S.Meets p A) :
    S.Meets
      (.request (.tryFinally S.hub (fun _ => p)
        (fun _ => effect.code)))
      ((A.protecting effect).costing (.ofLabels 2)) := by
  refine meets_request fun k rounds depth s hs => ?_
  exact .idle_none (machineOf_hub hs) (.refl .none s)
    (Cleanup.realizes_build hs (fun _ hc => hc.elim)
      (Meets.proceeds hBody)
      fun s₁ _ _ => quits_effect effect s₁) fun _ _ hc => hc

/- So does a body with a resource. -/
theorem meets_using
    {resource : Value}
    {body : Value → Program}
    (hRelease : S.release resource = some effect)
    (hBody : S.Meets (body resource) A) :
    S.Meets
      (.request (.using S.hub resource (Code.ofValue body)))
      ((A.protecting effect).costing (.ofLabels 2)) := by
  refine meets_request fun k rounds depth s hs => ?_
  refine .idle_none (machineOf_hub hs) (.refl .none s)
    (Cleanup.realizes_build hs (fun _ hc => hc.elim) ?_
      fun s₁ _ hs₁ => quits_release hs₁ hRelease)
    fun _ _ hc => hc
  have hApplied : S.Meets (Code.ofValue body [resource]) A := hBody
  exact fun _ _ _ _ _ _ hs₁ => .call fun _ _ =>
    Meets.enter hApplied hs₁

end Supply

end Resumption

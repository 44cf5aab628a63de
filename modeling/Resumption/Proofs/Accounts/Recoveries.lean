import Resumption.Proofs.Accounts.Sequences

/-
  Recoveries: what is charged for a protected body.

  A recovery takes two labels when it is built.  When its
  body suspends it does so at its own entry, and so takes no
  more, however often; only a hand-off that is pending costs
  another one.

  Main declarations:
    * `Recovery.realizes_outcome`
    * `Recovery.realizes_enter`
    * `Supply.meets_tryWith`
-/

namespace Resumption

open Run

variable {ν : Type}

------------------------------------------------------------
-- Recoveries in Sessions
------------------------------------------------------------

namespace Supply

variable {S : Supply ν}
variable {s : Session}

/- Resuming elsewhere is idle but for a recovery's own cell. -/
theorem idles_recovering
    (s : Session)
    (i l : Ref) :
    S.Idles (.only (.recovery i)) 0 s (s.recovering i l) :=
  idles_of_moves (Recovery.moves_recovering S.setting s i l)
    rfl rfl

/- A new recovery takes two labels. -/
theorem idles_withRecovery
    (hm : S.machine < s.machines.size)
    (body handler : Closure) :
    S.Idles .none 2 s
      (s.withRecovery S.machine body handler) := by
  have hm' : S.machine <
      (s.withLabel S.machine none).machines.size := by
    simpa [Session.withLabel] using hm
  have hLabels := (idles_withLabel hm none).none_trans
    (idles_withLabel hm' (some body))
  have hRow := hLabels.none_trans (idles_of_moves
    (Recovery.moves_withRecoveryRow S.setting _
      ⟨S.machine, s.labels.size,
        .label (s.withLabel S.machine none).labels.size, handler,
        s.task⟩) rfl rfl)
  exact hRow.none_trans (idles_relabelled
    (Recovery.bears_entry hm body handler) _)

end Supply

namespace Recovery

open Supply

variable {S : Supply ν}
variable {T : Site}
variable {F : Footprint}
variable {A : Account ν}
variable {H : Value → Account ν}
variable {s : Session}
variable {k rounds depth : Nat}
variable {a f l : Ref}
variable {x : ν}
variable {o : Outcome}

------------------------------------------------------------
-- Handling
------------------------------------------------------------

/- A failure is handed over, unless it is a defect. -/
theorem realizes_recover
    {handler : Closure}
    (hs : S.Ready s)
    (hHandler : ∀ e, S.Proceeds k rounds depth .none s
      (fun caller => handler.enter caller [e]) (H e))
    (e : Value) :
    S.Realizes k .none
      (recover (.ofDepth rounds depth) handler e) s
      (.caught H e) := by
  unfold recover Account.caught
  split
  · exact realizes_raise e
  · exact .call fun d hd =>
      hHandler e k rounds d (.deeper hd) s (.refl _ s) hs

/- So is the failure of what the body handed off to. -/
theorem realizes_outcome
    (hProbe : (S.origin x).probe? = none)
    (hs : S.Ready s)
    (hAwaits : S.Awaits s a x (some f))
    (hOutcome : s.outcome? f = some o)
    (hAt : T.At S.machine s l)
    (hHandler : ∀ e, S.Proceeds k rounds depth .none s
      (fun caller => T.handler.enter caller [e]) (H e)) :
    S.Realizes k (.only (.recovery T.cell))
      (outcome (.ofDepth rounds depth) T.cell (.awaiter a)) s
      (.rescued H o) := by
  rcases result_awaits hs hAwaits hOutcome with
    ⟨s', hMoves, hView, hResult⟩
  have hFree := hMoves.worth (S.worth_reading hProbe).symm
  have hs' := hMoves.ready hs
  have hAt' := hAt.later hMoves.retains not_false
  refine realizes_iff.mpr (Ensures.bind
    (ensures_attempt.mpr fun r s₁ hRun => ?_))
  cases (hResult _).symm.trans hRun
  have hTell : ∀ later R,
      Account.rescued H o (S.view s') later R →
        Account.rescued H o (S.view s) later (R.after .none) := by
    intro later R h
    rw [Report.after_none, ← hView]
    exact h
  cases o with
  | fulfilled v =>
      exact (realizes_finish v).after
        (hFree.widen fun _ _ hc => hc.elim) rfl
        (fun _ _ hc => hc) hTell
  | rejected e =>
      rcases hAt'.row_eq with ⟨t, hRow⟩
      refine Ensures.bind fun r s₁ hRun => ?_
      cases hRow.symm.trans hRun
      exact (realizes_recover hs' (fun e =>
        (hHandler e).later hMoves.retains.bare) e).after
          (hFree.widen fun _ _ hc => hc.elim) rfl
          (fun _ _ hc => hc.elim) hTell

------------------------------------------------------------
-- Entering
------------------------------------------------------------

/-
  A protected body is entered where it resumes.  The
  induction is on how often it may be resumed.
-/
theorem realizes_enter
    (hBody : S.Realizes k F
      (Label.jump (.ofDepth rounds depth) S.machine (.label l))
      s A)
    (hs : S.Ready s)
    (hAt : T.At S.machine s l)
    (hFree : ¬ F (.recovery T.cell))
    (hHandler : ∀ e, S.Proceeds k rounds depth .none s
      (fun caller => T.handler.enter caller [e]) (H e)) :
    S.Realizes k (F.or (.only (.recovery T.cell)))
      (enter (.ofDepth rounds depth) T.cell) s
      (A.andThen fun R => .recovered H R.ending) := by
  induction k using Nat.strongRecOn generalizing F A s l rounds
    depth with
  | ind k ih =>
  rcases hAt.row_eq with ⟨t, hRow⟩
  refine realizes_iff.mpr (Ensures.bind fun r s₁ hRun => ?_)
  cases hRow.symm.trans hRun
  refine Ensures.bind (ensures_attempt.mpr
    ((realizes_iff.mp hBody).mono fun r s₁ hComes => ?_))
  rcases hComes.moves with ⟨_, hMoves⟩
  have hs₁ := hMoves.ready hs
  have hAt₁ := hAt.later hMoves.retains hFree
  have hHandler₁ := fun e =>
    (hHandler e).later hMoves.retains.bare
  cases r with
  | error e =>
      rcases hComes.threw with ⟨c, hMoves, hStill, hTells⟩
      exact (realizes_recover hs₁ hHandler₁ e).after
        (hMoves.widen fun _ _ hc => .inl hc) hStill
        (fun _ _ hc => hc.elim)
        fun later R hNext => ⟨_, hTells later, R, hNext, rfl⟩
  | ok step =>
      change (if step.isMissing = true then _ else _ :
        Run Value).Ensures s₁ _
      rw [if_neg (by
        simp [Value.not_missing_of_isStep hComes.isStep])]
      cases hComes with
      | ends hMoves hStill hEnded hTells =>
          have hWhole : S.Moves (F.or (.only (.recovery T.cell))) _ s s₁ :=
            hMoves.widen fun _ _ hc => .inl hc
          cases hEnded with
          | finishes hStep =>
              rw [hStep]
              exact ensures_pure.mpr (.ends hWhole hStill
                (.finishes hStep) fun later =>
                  Account.tells_ends (hTells later) rfl)
          | handsOff hStep hOrigin =>
              have hProbe := S.uncounted hOrigin
              rw [hStep]
              refine (realizes_handed
                (G := .only (.recovery T.cell)) _
                (.recoveryOutcome T.cell) hOrigin hs₁
                (fun c hc => hc ▸ hAt₁.has)
                (fun s' a g o hs' hRetains hAwaits hOutcome =>
                  realizes_outcome hProbe hs' hAwaits hOutcome
                    (hAt₁.later hRetains rfl)
                    fun e => (hHandler₁ e).later hRetains.bare)
                fun s' a g o hs' hRetains hAwaits hOutcome k' hk
                  _ _ =>
                    realizes_outcome hProbe hs' hAwaits hOutcome
                      (hAt₁.later hRetains rfl) fun e =>
                        ((hHandler₁ e).sooner (.inl hk)).later
                          hRetains.bare).after hWhole hStill
                (fun _ _ hc => .inr hc)
                fun later R hNext =>
                  ⟨_, hTells later, R, hNext, rfl⟩
      | @suspends _ a l' x f _ c F' A' hStep hPauses =>
          have hIdles : S.Idles (.only (.recovery T.cell)) 0 s₁
              (s₁.recovering T.cell l').stamped :=
            (idles_recovering s₁ T.cell l').trans
              (idles_stamped _) (fun _ _ hc => hc)
              fun _ _ hc => hc.elim
          have hAt₂ := (hAt₁.recovering l').later
            (idles_stamped (S := S) _).retains not_false
          have hFree' : ¬ F' (.recovery T.cell) := fun hc =>
            hFree ((hPauses.foot _ hc).2 hAt.has)
          have hHas₂ : ∀ c, Footprint.only (.recovery T.cell) c →
              Session.Has _ c := fun _ hc => hc ▸ hAt₂.has
          have hApart : (Footprint.only (.recovery T.cell)).Apart F' :=
            fun _ hc => hc ▸ hFree'
          rw [hStep]
          refine ensures_alter_bind.mpr ?_
          refine (ensures_newStep _ _).mono ?_
          rintro _ _ ⟨rfl, made, rfl, hMade⟩
          have hNone : c.plus (.ofLabels 0) = c :=
            Charge.plus_none c
          refine .suspends hMade (hPauses.around
            (B := fun o => (A' o).andThen fun R =>
              .recovered H R.ending) hIdles hHas₂ hApart
            hAt₂.entry ?_ (fun o V later R => ?_)
            fun k' hk rounds' d s₄ o hRests hBody => ?_)
          · rw [hNone]
            exact Account.tells_ends hPauses.tells rfl
          · rw [hNone]
            exact Account.tells_passed (hPauses.later o V later)
          · have hAt₄ := hAt₂.later hRests.retains (.inr rfl)
            exact ih k' hk (hBody rounds' d) hRests.ready hAt₄
              hFree' fun e => ((hHandler₁ e).sooner
                (.inl hk)).later
                  (hIdles.retains.bare_trans hRests.retains)

/- A recovery that is built enters its body. -/
theorem realizes_build
    {body handler : Closure}
    (hs : S.Ready s)
    (hBody : S.Proceeds k rounds depth .none s
      (fun caller => body.enter caller []) A)
    (hHandler : ∀ e, S.Proceeds k rounds depth .none s
      (fun caller => handler.enter caller [e]) (H e)) :
    S.Realizes k .none
      (build (.ofDepth rounds depth) (.machine S.machine) body
        handler) s
      ((A.andThen fun R => .recovered H R.ending).costing
        (.ofLabels 2)) := by
  have hIdles := idles_withRecovery hs.machine body handler
  have hAt := at_withRecovery hs.machine body handler
  have hInner := bears_withRecovery hs.machine body handler
  have hs' := hIdles.moves.ready hs
  have hNew : ¬ s.Has (.recovery s.recoveries.size) :=
    Nat.lt_irrefl _
  have hHere : S.Realizes k (.only (.recovery s.recoveries.size))
      (Label.jump (.ofDepth rounds depth) S.machine
        (.label (newSite s handler).entry))
      (s.withRecovery S.machine body handler)
      (A.andThen fun R => .recovered H R.ending) := by
    refine .jump hAt.entry fun d hd => ?_
    have hJump := (hBody.later hIdles.retains.bare).jump hInner
    have hEnter := realizes_enter
      (hJump k rounds d (.deeper hd) _ (.refl _ _) hs') hs' hAt
      not_false fun e => ((hHandler e).sooner (.deeper hd)).later
        hIdles.retains.bare
    exact hEnter.widen fun _ _ hc => hc.elim False.elim id
  refine realizes_iff.mpr fun r s₁ hRun => ?_
  rw [build_eq _ hs.machine] at hRun
  exact hHere.after hIdles.moves rfl
    (fun c hHas hc => hNew (hc ▸ hHas))
    (fun later R hAll => ⟨R, hIdles.view_eq ▸ hAll, rfl⟩)
    r s₁ hRun

end Recovery

------------------------------------------------------------
-- Client Code
------------------------------------------------------------

namespace Supply

variable {S : Supply ν}
variable {A : Account ν}
variable {H : Value → Account ν}
variable {p : Program}
variable {handler : Value → Program}

/- A protected body meets its account. -/
theorem meets_tryWith
    (hBody : S.Meets p A)
    (hHandler : ∀ e, S.Meets (handler e) (H e)) :
    S.Meets
      (.request (.tryWith S.hub (fun _ => p)
        (Code.ofValue handler)))
      ((A.andThen fun R => .recovered H R.ending).costing
        (.ofLabels 2)) := by
  refine meets_request fun k rounds depth s hs => ?_
  refine .idle_none (machineOf_hub hs) (.refl .none s)
    (Recovery.realizes_build hs (Meets.proceeds hBody)
      fun e => Meets.proceeds (hHandler e)) fun _ _ hc => hc

end Supply

end Resumption

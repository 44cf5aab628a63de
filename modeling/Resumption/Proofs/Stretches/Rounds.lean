import Resumption.Proofs.Order.Natives
import Resumption.Proofs.Routine.Loops
import Resumption.Proofs.Stretches.Cleanups
import Resumption.Proofs.Stretches.Protocol

/-
  The rounds of a loop over items are acts of its protocol.

  Rounds that finish at once are taken flat; a round that
  does not is put in sequence with a jump back to the head.
  Either way nothing happens that is not due, and wherever a
  stretch of the loop rests, it resumes at code that goes on
  with the protocol.

  Main declarations:
    * `Iteration.Runs`, `Iteration.Behaves`
    * `Iteration.Rests`, `Iteration.Gets`
    * `Iteration.gets`
-/

namespace Resumption

open Session World

variable {s s₀ s₁ s₂ s' : Session}
variable {m c i l : Ref}
variable {body : Closure}
variable {env : Session → Session → Prop}
variable {r : Except Value Value}

------------------------------------------------------------
-- Sequences
------------------------------------------------------------

namespace Session.Tidies

variable {cells : List Ref}

/- A sequence may be made. -/
theorem withSequence
    (hs : s.Orderly)
    (hm : m < s.machines.size)
    (step : Value)
    (rest : Closure) :
    s.Tidies cells (s.withSequence m step rest) := by
  have h₁ : s.Tidies cells (s.withLabel m (some rest)) :=
    .withLabel hs m _
  have h₂ := h₁.trans (.withLabel h₁.orderly m none)
  have hRow : Ordering.Moves _
      (((s.withLabel m (some rest)).withLabel m
        none).withSequenceRow
          ⟨m, (Sequence.newSite s m rest).entry, step,
            s.labels.size, s.task⟩) :=
    Ordering.founds.newSequence _ (Ordering.sound h₂.orderly)
  have h₃ := h₂.trans
    ⟨hRow.sound.inv, hRow.rel, fun _ _ _ h => h, fun _ _ => rfl,
      rfl⟩
  exact h₃.trans (.relabelled h₃.orderly
    (Sequence.bears_entry hm step rest) _)

/- A sequence may come to another step. -/
theorem resequenced
    (hs : s.Orderly)
    (i : Ref)
    (step : Value) :
    s.Tidies cells (s.resequenced i step) :=
  have hMoves := Ordering.founds.alterSequence i step
    (Ordering.sound hs)
  ⟨hMoves.sound.inv, hMoves.rel, fun _ _ _ h => h,
    fun _ _ => rfl, rfl⟩

end Session.Tidies

/-
  A sequence whose rest is the library's own stays where it
  is, whatever step it has come to.
-/
theorem Sequence.Site.At.respected
    {S : Sequence.Site}
    {step : Value}
    {cells : List Ref}
    (h : S.At m s step)
    (hCode : ¬ S.code.IsClient)
    (hGrows : s.Grows s')
    (hRespects : s.Respects cells s') :
    ∃ step', S.At m s' step' := by
  rcases h.cell with ⟨t, hRow⟩
  rcases hGrows.sequences _ _ hRow with
    ⟨⟨machine, entry, step', rest, t'⟩, hRow', hBecomes⟩
  obtain ⟨rfl, hEntry, hRest⟩ := hBecomes
  simp only at hEntry hRest
  subst hEntry hRest
  exact ⟨step', ⟨t', hRow'⟩,
    hRespects.bears _ _ _ (by rintro ⟨_, ⟨⟩⟩) h.entry,
    hRespects.bears _ _ _ hCode h.rest⟩

namespace Iteration

------------------------------------------------------------
-- Loops that Run
------------------------------------------------------------

/- The session in which a cursor has reached what it answered. -/
def reaching
    (c : Ref)
    (s : Session) : Except Value (Option Value) → Session
  | .ok (some v) => s.placing c ({ · with current := v })
  | _ => s

/- An act happens: the cursor or the body is run, once. -/
def Act.Happens
    (m c : Ref)
    (body : Closure)
    (s s' : Session) : Act → Prop
  | .next answer => ∃ s₁,
      Run.Ends (fun caller => Cursor.next caller false c)
        s answer s₁ ∧
      s' = reaching c s₁ answer
  | .invoke v r =>
      Run.Ends (fun caller => caller.call body [v]) s r s'
  | .resume awaiter label r =>
      s.Completed awaiter ∧
      Run.Ends (fun caller => Label.jump caller m label) s r s'
  | .settle f o => s.outcome? f = some o ∧ s' = s
  | .close answer =>
      Run.Ends (fun caller => Cursor.close caller c) s answer s'

/-
  Asking client code for the next item is one call of it,
  whose answer is looked at.
-/
theorem happens_next_custom
    {j : Ref}
    {start code : Closure}
    {close : Option Closure}
    {answer : Except Value (Option Value)}
    (hSource : (s.cursors.getD c default).source = .custom j)
    (hRow : s.iterables.getD j default =
      .custom start code close) :
    (Act.next answer).Happens m c body s s' ↔
      ∃ s₁, Run.Ends (fun caller => do
          let found ← caller.call code []
          if (← Run.field found "done").truthy then
            return none
          else
            return some (← Run.field found "value")) s answer s₁ ∧
        s' = reaching c s₁ answer := by
  have hNext : ∀ caller, Cursor.next caller false c s = (do
      let found ← caller.call code []
      if (← Run.field found "done").truthy then
        return none
      else
        return some (← Run.field found "value") :
          Run (Option Value)) s := by
    intro caller
    unfold Cursor.next
    refine Run.step_eq (a := s.cursors.getD c default) rfl ?_
    rw [hSource]
    refine Run.step_eq (a := s.iterables.getD j default) rfl ?_
    rw [hRow]
    rfl
  simp only [Act.Happens, Run.Ends, hNext]

/- Closing client code is one call of it. -/
theorem happens_close_custom
    {j : Ref}
    {start next code : Closure}
    {answer : Except Value (Option Value)}
    (hSource : (s.cursors.getD c default).source = .custom j)
    (hRow : s.iterables.getD j default =
      .custom start next (some code)) :
    (Act.close answer).Happens m c body s s' ↔
      Run.Ends (fun caller => some <$> caller.call code [])
        s answer s' := by
  have hClose : ∀ caller, Cursor.close caller c s =
      (some <$> caller.call code [] : Run (Option Value)) s := by
    intro caller
    unfold Cursor.close
    refine Run.step_eq (a := s.cursors.getD c default) rfl ?_
    rw [hSource]
    refine Run.step_eq (a := s.iterables.getD j default) rfl ?_
    rw [hRow]
  simp only [Act.Happens, Run.Ends, hClose]

/-
  The acts of a loop, and nothing else than what is due;
  others act only while the loop waits.
-/
inductive Runs
    (env : Session → Session → Prop)
    (i m c : Ref)
    (body : Closure)
    (s : Session) : List Act → Session → Prop where
  | starts : Runs env i m c body s [] s
  | acts
      {trace act s₁ s'}
      (h : Runs env i m c body s trace s₁)
      (hDue : act.Due (reached trace))
      (hHappens : act.Happens m c body s₁ s') :
      Runs env i m c body s (act :: trace) s'
  | tidies
      {trace s₁ s'}
      (h : Runs env i m c body s trace s₁)
      (hTidies : s₁.Tidies [i] s') :
      Runs env i m c body s trace s'
  | waits
      {trace s₁ s'}
      (h : Runs env i m c body s trace s₁)
      (hWaits : (reached trace).Waits)
      (hMeanwhile : env s₁ s') :
      Runs env i m c body s trace s'

theorem Runs.lawful
    {trace : List Act}
    (h : Runs env i m c body s trace s') :
    Lawful trace := by
  induction h with
  | starts =>
      intro later act earlier hTrace
      cases later <;> cases hTrace
  | acts _ hDue _ ih =>
      intro later act earlier hTrace
      cases later with
      | nil =>
          cases hTrace
          exact hDue
      | cons _ later =>
          cases hTrace
          exact ih later act earlier rfl
  | tidies _ _ ih => exact ih
  | waits _ _ _ ih => exact ih

/- What is asked of the body and of the cursor of a loop. -/
structure Behaves
    (env : Session → Session → Prop)
    (i m c : Ref)
    (body : Closure)
    (s : Session) : Prop where
  /- The body makes steps, and hands off to futures. -/
  fits : ∀ trace s', Runs env i m c body s trace s' →
    reached trace ≠ .astray
  /- Neither of them disturbs the cleanup around the loop. -/
  respects : ∀ trace s₁ (act : Act) s',
    Runs env i m c body s trace s₁ →
    act.Due (reached trace) → act.Happens m c body s₁ s' →
      s₁.Respects [i] s'
  /- Nobody takes the cursor away. -/
  keeps : ∀ trace s₁ v s',
    Runs env i m c body s trace s₁ → reached trace = .ready →
    Run.Ends (fun caller => Cursor.next caller false c)
      s₁ (.ok (some v)) s' →
      c < s'.cursors.size

/- What has happened has left the session in order. -/
theorem Act.Happens.moves
    {act : Act}
    (hs : s.Orderly)
    (h : act.Happens m c body s s') :
    Ordering.Moves s s' := by
  cases act with
  | next answer =>
      rcases h with ⟨s₁, ⟨rounds, depth, hRun⟩, rfl⟩
      have hMoves : Ordering.Moves s s₁ := keeps_next
        (Ordering.serves rounds depth) (Ordering.sound hs)
        false c _ _ hRun
      rcases answer with e | _ | v
      · exact hMoves
      · exact hMoves
      · exact hMoves.trans (keeps_alterCursor hMoves.sound c
          ({ · with current := v }) _ _ rfl)
  | invoke v r => exact h.moves_call hs
  | resume awaiter label r => exact h.2.moves_jump hs
  | settle f o =>
      rcases h with ⟨_, rfl⟩
      exact .refl (Ordering.sound hs)
  | close answer =>
      rcases h with ⟨rounds, depth, hRun⟩
      exact keeps_close (Ordering.serves rounds depth)
        (Ordering.sound hs) c _ _ hRun

theorem Runs.moves
    {trace : List Act}
    (h : Runs env i m c body s trace s')
    (hs : s.Orderly)
    (hEnv : Meanwhile [i] env) :
    Ordering.Moves s s' := by
  induction h with
  | starts => exact .refl (Ordering.sound hs)
  | acts _ _ hHappens ih =>
      exact ih.trans (hHappens.moves ih.sound.inv)
  | tidies _ hTidies ih =>
      exact ih.trans
        (Ordering.moves_of hTidies.orderly hTidies.grows)
  | waits _ _ hMeanwhile ih =>
      exact ih.trans (Ordering.moves_of
        (hEnv.orderly _ _ hMeanwhile)
        (hEnv.grows _ _ hMeanwhile))

------------------------------------------------------------
-- Loops under Way
------------------------------------------------------------

/- The code at the head of a loop. -/
abbrev head
    (m entry c : Ref)
    (body : Closure) : Closure :=
  .loopHead m entry (.cursorAdvance c) (.cursorItem c body)

/-
  Where a stretch of the loop ends: it awaits what its body
  awaits, or what that handed off to, and resumes at code
  that leads back to its head, or it has come to an end.
-/
inductive Rests
    (m c : Ref)
    (body : Closure)
    (s : Session) : Stage → Except Value Value → Prop where
  | suspended
      {awaiter label made l step entry}
      {S : Sequence.Site}
      (hMade : made.step? = some (.suspend awaiter (.label l)))
      (hBears : s.Bears m l
        (some (.sequenceResume S.cell label)))
      (hAt : S.At m s step)
      (hCode : S.code = .jump m entry)
      (hHead : s.Bears m entry (some (head m entry c body))) :
      Rests m c body s (.suspended awaiter label) (.ok made)
  | handed
      {f made a l rest entry}
      (hMade : made.step? =
        some (.suspend (.awaiter a) (.label l)))
      (hAwaiter : s.awaiters[a]? = some (.future f true))
      (hBears : s.Bears m l
        (some (.received (.awaiter a) (.jump m rest))))
      (hRest : s.Bears m rest (some (.jump m entry)))
      (hHead : s.Bears m entry (some (head m entry c body))) :
      Rests m c body s (.handed f) (.ok made)
  | ended
      {own r}
      (hYields : Yields r own) :
      Rests m c body s (.ended own) r

/- A loop suspends or comes to an end; it does not hand off. -/
theorem Rests.view
    {stage : Stage}
    {step : Value}
    (h : Rests m c body s stage (.ok step)) :
    (∃ awaiter label,
        step.step? = some (.suspend awaiter label)) ∨
      ∃ v, step.step? = some (.finish v) := by
  cases h with
  | suspended hMade _ _ _ _ => exact .inl ⟨_, _, hMade⟩
  | handed hMade _ _ _ _ => exact .inl ⟨_, _, hMade⟩
  | ended hYields => exact .inr hYields.terminates

theorem Rests.isStep
    {stage : Stage}
    {step : Value}
    (h : Rests m c body s stage (.ok step)) :
    step.isStep = true := by
  rcases h.view with ⟨_, _, hStep⟩ | ⟨_, hStep⟩ <;>
    simp [Value.isStep, hStep]

theorem Rests.fits
    {stage : Stage}
    {step : Value}
    (h : Rests m c body s stage (.ok step)) :
    step.Fits := by
  rcases h.view with ⟨_, _, hStep⟩ | ⟨_, hStep⟩ <;>
    exact ⟨_, hStep, nofun⟩

/- If it comes to an end, it was over. -/
theorem Rests.concluded
    {env : Session → Session → Prop}
    {stage : Stage}
    {own : Except Value Value}
    (h : Rests m c body s stage r)
    (hConcludes : Concludes env s r own s') :
    stage = .ended own ∧ s' = s := by
  cases h with
  | suspended hMade _ _ _ _ =>
      exact (hConcludes.not_suspend hMade).elim
  | handed hMade _ _ _ _ =>
      exact (hConcludes.not_suspend hMade).elim
  | ended hYields =>
      rcases hConcludes.of_yields hYields with ⟨rfl, rfl⟩
      exact ⟨rfl, rfl⟩

section Under

variable {trace : List Act}
variable {rounds depth : Nat}
variable {entry rest : Ref}
variable {b : Session}

/-
  A loop has come so far without a disturbance since some
  session.
-/
structure Goes
    (env : Session → Session → Prop)
    (i m c : Ref)
    (body : Closure)
    (s₀ b : Session)
    (trace : List Act)
    (s : Session) : Prop where
  runs : Runs env i m c body s₀ trace s
  respects : b.Respects [i] s

/- A stretch of a loop rests where the loop has got to. -/
def Gets
    (env : Session → Session → Prop)
    (i m c : Ref)
    (body : Closure)
    (s₀ b : Session)
    (r : Except Value Value)
    (s : Session) : Prop :=
  ∃ trace, Goes env i m c body s₀ b trace s ∧
    Rests m c body s (reached trace) r

/- A loop is at its head, where the next item is due. -/
def AtHead
    (env : Session → Session → Prop)
    (i m c : Ref)
    (body : Closure)
    (s₀ b : Session)
    (entry : Ref)
    (s : Session) : Prop :=
  s.Bears m entry (some (head m entry c body)) ∧
    ∃ trace, Goes env i m c body s₀ b trace s ∧
      reached trace = .ready

theorem Gets.isStep
    {step : Value}
    (h : Gets env i m c body s₀ b (.ok step) s) :
    step.isStep = true := by
  rcases h with ⟨trace, _, hRests⟩
  exact hRests.isStep

/- Tidying up leaves the cleanup around the loop alone. -/
theorem Goes.tidies
    (h : Goes env i m c body s₀ b trace s)
    (hTidies : s.Tidies [] s') :
    Goes env i m c body s₀ b trace s' where
  runs := .tidies h.runs (hTidies.mono (by simp))
  respects := h.respects.trans (hTidies.respects (by simp))

/- So do the acts of the loop. -/
theorem Goes.acts
    {act : Act}
    (hBehaves : Behaves env i m c body s₀)
    (h : Goes env i m c body s₀ b trace s)
    (hDue : act.Due (reached trace))
    (hHappens : act.Happens m c body s s') :
    Goes env i m c body s₀ b (act :: trace) s' where
  runs := .acts h.runs hDue hHappens
  respects := h.respects.trans
    (hBehaves.respects _ _ _ _ h.runs hDue hHappens)

/- The jump after a round leads back to the head. -/
theorem ensures_back
    (hRest : s.Bears m rest (some (.jump m entry)))
    (hAt : AtHead env i m c body s₀ b entry s)
    (hBelow : ∀ d < depth, ∀ s,
      AtHead env i m c body s₀ b entry s →
      (Loop.enter (.ofDepth rounds d) m entry
        (.cursorAdvance c) (.cursorItem c body)).Ensures s
          (Gets env i m c body s₀ b)) :
    (Label.jump (.ofDepth rounds depth) m
      (.label rest)).Ensures s (Gets env i m c body s₀ b) :=
  have hHead : s.Bears m entry (some (head m entry c body)) :=
    hAt.1
  Label.ensures_below hRest (fun _ _ h => h.isStep) fun _ hd =>
    Label.ensures_below hHead (fun _ _ h => h.isStep)
      fun d' hd' => hBelow d' (Nat.lt_trans hd' hd) s hAt

/- Asking for the next item is an act, and tells if there is one. -/
theorem ensures_advance
    (m : Ref)
    (body : Closure) :
    ((Closure.cursorAdvance c).enter (.ofDepth rounds depth)
      []).Ensures s fun r s' => ∃ answer,
        (Act.next answer).Happens m c body s s' ∧
        r = answer.map fun found => .bool found.isSome := by
  change (Cursor.advance _ c).Ensures s _
  unfold Cursor.advance
  refine Run.Ensures.bind ?_
  intro answer s₁ hRun
  have hEnds : Run.Ends
      (fun caller => Cursor.next caller false c) s answer s₁ :=
    ⟨rounds, depth, hRun⟩
  rcases answer with e | _ | v
  · exact ⟨.error e, ⟨s₁, hEnds, rfl⟩, rfl⟩
  · exact Run.ensures_pure.mpr
      ⟨.ok none, ⟨s₁, hEnds, rfl⟩, rfl⟩
  · exact Run.ensures_alter_bind.mpr (Run.ensures_pure.mpr
      ⟨.ok (some v), ⟨s₁, hEnds, rfl⟩, rfl⟩)

/- What a cursor has reached is read as that. -/
theorem current_reaching
    {v : Value}
    (hc : c < s.cursors.size) :
    ((reaching c s (.ok (some v))).cursors.getD c
      default).current = v := by
  simp only [reaching, placing, getD_modify, hc, and_self,
    if_true]

/- Running the body on the item at hand is an act. -/
theorem ensures_item
    (m : Ref)
    {v : Value}
    (hCurrent : (s.cursors.getD c default).current = v) :
    ((Closure.cursorItem c body).enter (.ofDepth rounds depth)
      []).Ensures s fun r s' =>
        (Act.invoke v r).Happens m c body s s' := by
  change (Cursor.current c >>= fun v =>
    (Caller.ofDepth rounds depth).call body [v]).Ensures s _
  unfold Cursor.current
  rw [bind_assoc]
  refine Run.ensures_row_bind.mpr ?_
  rw [Run.ensures_pure_bind]
  intro r s' hRun
  rw [show ((Table.cursors.rows s).getD c default).current = v
    from hCurrent] at hRun
  exact ⟨rounds, depth, hRun⟩

section Behaving

variable (hs : s₀.Orderly)
variable (hEnv : Meanwhile [i] env)
variable (hBehaves : Behaves env i m c body s₀)

include hs hEnv hBehaves

omit hs hEnv in
/-
  What the body handed off to has settled: the loop goes back
  to its head, unless that failed.
-/
theorem ensures_settled
    {a f : Nat}
    {captured : Bool}
    {o : Outcome}
    (hGoes : Goes env i m c body s₀ b trace s)
    (hStage : reached trace = .handed f)
    (hAwaiter : s.awaiters[a]? = some (.future f captured))
    (hOutcome : s.outcome? f = some o)
    (hRest : s.Bears m rest (some (.jump m entry)))
    (hHead : s.Bears m entry (some (head m entry c body)))
    (hBelow : ∀ d < depth, ∀ s,
      AtHead env i m c body s₀ b entry s →
      (Loop.enter (.ofDepth rounds d) m entry
        (.cursorAdvance c) (.cursorItem c body)).Ensures s
          (Gets env i m c body s₀ b)) :
    (Await.enterReceived (.ofDepth rounds depth) (.awaiter a)
      (.jump m rest)).Ensures s (Gets env i m c body s₀ b) := by
  have hSettled : (Act.settle f o).Happens m c body s s :=
    ⟨hOutcome, rfl⟩
  have hGoes' := hGoes.acts hBehaves (hStage ▸ .settle) hSettled
  unfold Await.enterReceived
  refine Run.Ensures.bind (ensures_result hAwaiter hOutcome ?_)
  cases o with
  | fulfilled v =>
      refine Run.ensures_call_below fun d hd => ?_
      exact ensures_back hRest ⟨hHead, _, hGoes', rfl⟩
        fun d' hd' => hBelow d' (Nat.lt_trans hd' hd)
  | rejected e => exact ⟨_, hGoes', .ended rfl⟩

/-
  A sequence around a round goes on as its step tells: back
  to the head, or it waits for what the body waits for.
-/
theorem ensures_enterSequence
    {S : Sequence.Site}
    {step : Value}
    (hGoes : Goes env i m c body s₀ b trace s)
    (hAt : S.At m s step)
    (hCode : S.code = .jump m entry)
    (hHead : s.Bears m entry (some (head m entry c body)))
    (hStage : reached trace = .of (.ok step))
    (hBelow : ∀ d < depth, ∀ s,
      AtHead env i m c body s₀ b entry s →
      (Loop.enter (.ofDepth rounds d) m entry
        (.cursorAdvance c) (.cursorItem c body)).Ensures s
          (Gets env i m c body s₀ b)) :
    (Sequence.enter (.ofDepth rounds depth) S.cell).Ensures s
      (Gets env i m c body s₀ b) := by
  have hFits := hBehaves.fits _ _ hGoes.runs
  have hs' := (hGoes.runs.moves hs hEnv).sound.inv
  have hm := hHead.lt_machines
  have hRest := hAt.rest
  rw [hCode] at hRest
  rcases hAt.cell with ⟨t, hRow⟩
  unfold Sequence.enter
  refine Run.ensures_row_bind.mpr ?_
  rw [show (Table.sequences.rows s).getD S.cell default =
    ⟨m, S.entry, step, S.rest, t⟩ by
      simp [Table.sequences, hRow]]
  cases hStep : step.step? with
  | none =>
      rw [hStage, Stage.of, hStep] at hFits
      exact (hFits rfl).elim
  | some view =>
      have hIs : step.isStep = true := by
        simp [Value.isStep, hStep]
      rw [if_neg (by simp [Value.not_missing_of_isStep hIs])]
      cases view with
      | finish v =>
          refine ensures_back hRest ⟨hHead, trace, hGoes, ?_⟩
            hBelow
          rw [hStage, Stage.of, hStep]
      | suspend awaiter label =>
          rw [Stage.of, hStep] at hStage
          refine (Label.ensures_suspend [] awaiter hs' hm).mono ?_
          rintro _ s₁ ⟨_, hTidies, hBears, made, rfl, hMade⟩
          have hNone : s.Respects [] s₁ :=
            hTidies.respects (by simp)
          rcases hAt.respected (by rw [hCode]; rintro ⟨_, ⟨⟩⟩)
            hTidies.grows hNone with ⟨step', hAt'⟩
          refine ⟨trace, hGoes.tidies hTidies, ?_⟩
          rw [hStage]
          exact .suspended hMade hBears hAt' hCode
            (hTidies.bears _ _ _ hHead)
      | handOff v =>
          obtain ⟨f, rfl⟩ : ∃ f, v = .future f := by
            rw [hStage, Stage.of, hStep] at hFits
            cases v <;> first | exact ⟨_, rfl⟩ | exact (hFits rfl).elim
          rw [Stage.of, hStep] at hStage
          refine Run.Ensures.bind
            ((Awaiter.ensures_made _ f).mono ?_)
          rintro _ s₁ ⟨hEq, rfl, hAwaiter⟩
          have hTidies : s.Tidies [] s₁ := hEq ▸ .withAwaiter hs' _
          have hGoes₁ := hGoes.tidies hTidies
          have hHead₁ := hTidies.bears _ _ _ hHead
          have hRest₁ := hTidies.bears _ _ _ hRest
          unfold Await.awaitResult
          refine ensures_completed_bind hAwaiter ?_
          cases hOutcome : s₁.outcome? f with
          | some o =>
              exact ensures_settled hBehaves hGoes₁ hStage
                hAwaiter hOutcome hRest₁ hHead₁ hBelow
          | none =>
              refine (Label.ensures_suspend [] _ hTidies.orderly
                hHead₁.lt_machines).mono ?_
              rintro _ s₂ ⟨_, hTidies₂, hBears, made, rfl, hMade⟩
              refine ⟨trace, hGoes₁.tidies hTidies₂, ?_⟩
              rw [hStage]
              refine .handed hMade ?_ hBears
                (hTidies₂.bears _ _ _ hRest₁)
                (hTidies₂.bears _ _ _ hHead₁)
              rcases hTidies₂.grows.awaiters _ _ hAwaiter with
                ⟨_, hRow, rfl⟩
              exact hRow

/- A round that does not finish at once is put in sequence. -/
theorem ensures_buildSequence
    {step : Value}
    (hGoes : Goes env i m c body s₀ b trace s)
    (hHead : s.Bears m entry (some (head m entry c body)))
    (hStage : reached trace = .of (.ok step))
    (hBelow : ∀ d < depth, ∀ s,
      AtHead env i m c body s₀ b entry s →
      (Loop.enter (.ofDepth rounds d) m entry
        (.cursorAdvance c) (.cursorItem c body)).Ensures s
          (Gets env i m c body s₀ b)) :
    (Sequence.build (.ofDepth rounds depth) (.machine m) step
      (.jump m entry)).Ensures s (Gets env i m c body s₀ b) := by
  have hs' := (hGoes.runs.moves hs hEnv).sound.inv
  have hm := hHead.lt_machines
  have hAt := Sequence.at_withSequence hm step (.jump m entry)
  have hTidies : s.Tidies []
      (s.withSequence m step (.jump m entry)) :=
    .withSequence hs' hm step _
  intro r s' hRun
  rw [Sequence.build_eq _ hm] at hRun
  refine Label.ensures_below hAt.entry (fun _ _ h => h.isStep)
    (fun d hd => ?_) r s' hRun
  exact ensures_enterSequence hs hEnv hBehaves
    (hGoes.tidies hTidies) hAt rfl (hTidies.bears _ _ _ hHead)
    hStage fun d' hd' => hBelow d' (Nat.lt_trans hd' hd)

/-
  A round of the loop: the next item is asked for, and if
  there is one the body is run on it.
-/
theorem ensures_round
    (hAt : AtHead env i m c body s₀ b entry s)
    (hBelow : ∀ d < depth, ∀ s,
      AtHead env i m c body s₀ b entry s →
      (Loop.enter (.ofDepth rounds d) m entry
        (.cursorAdvance c) (.cursorItem c body)).Ensures s
          (Gets env i m c body s₀ b)) :
    (Loop.round (.ofDepth rounds depth) m entry
      (.cursorAdvance c) (.cursorItem c body)).Ensures s
        (Run.Continues (AtHead env i m c body s₀ b entry)
          (Gets env i m c body s₀ b)) := by
  rcases hAt with ⟨hHead, trace, hGoes, hReady⟩
  unfold Loop.round
  refine Run.Ensures.bind
    ((Run.ensures_call_below fun d _ =>
      ensures_advance m body).mono ?_)
  rintro _ s₁ ⟨answer, hNext, rfl⟩
  have hGoes₁ := hGoes.acts hBehaves (hReady ▸ .next) hNext
  have hMoves := hNext.moves (hGoes.runs.moves hs hEnv).sound.inv
  have hHead₁ := (hBehaves.respects _ _ _ _ hGoes.runs
    (hReady ▸ .next) hNext).bears _ _ _ (by rintro ⟨_, ⟨⟩⟩) hHead
  rcases answer with e | _ | v
  · exact ⟨_, hGoes₁, .ended rfl⟩
  · refine Run.Ensures.continues
      ((Run.ensures_newStep _ s₁).mono ?_)
    rintro r _ ⟨rfl, made, rfl, hMade⟩
    exact ⟨_, hGoes₁.tidies (.stamped hMoves.sound.inv),
      .ended hMade⟩
  · have hCurrent : (s₁.cursors.getD c default).current = v := by
      rcases hNext with ⟨s₂, hEnds, rfl⟩
      exact current_reaching
        (hBehaves.keeps _ _ _ _ hGoes.runs hReady hEnds)
    refine Run.Ensures.bind ((Run.ensures_call_below
      fun d _ => ensures_item m hCurrent).mono ?_)
    intro q s₂ hInvoke
    have hGoes₂ := hGoes₁.acts hBehaves .invoke hInvoke
    have hHead₂ := (hBehaves.respects _ _ _ _ hGoes₁.runs
      .invoke hInvoke).bears _ _ _ (by rintro ⟨_, ⟨⟩⟩) hHead₁
    have hFits := hBehaves.fits _ _ hGoes₂.runs
    rcases q with e | step
    · exact ⟨_, hGoes₂, .ended rfl⟩
    · have hBuild := ensures_buildSequence hs hEnv hBehaves hGoes₂
        hHead₂ rfl hBelow
      change (if step.isMissing = true then _ else _ :
        Run (Option Value)).Ensures s₂ _
      cases hStep : step.step? with
      | none =>
          change Stage.of (.ok step) ≠ _ at hFits
          rw [Stage.of, hStep] at hFits
          exact (hFits rfl).elim
      | some view =>
          have hIs : step.isStep = true := by
            simp [Value.isStep, hStep]
          rw [if_neg (by simp [Value.not_missing_of_isStep hIs])]
          cases view with
          | finish w =>
              refine Run.ensures_pure.mpr ⟨hHead₂, _, hGoes₂, ?_⟩
              change Stage.of (.ok step) = _
              rw [Stage.of, hStep]
          | suspend awaiter label => exact hBuild.continues
          | handOff future => exact hBuild.continues

/-
  The rounds of a loop, flat or in sequence.  The induction
  is on how deep calls go: a sequence comes back to the head
  one level deeper.
-/
theorem ensures_loop
    (hAt : AtHead env i m c body s₀ b entry s) :
    (Loop.enter (.ofDepth rounds depth) m entry
      (.cursorAdvance c) (.cursorItem c body)).Ensures s
        (Gets env i m c body s₀ b) := by
  induction depth using Nat.strongRecOn generalizing s with
  | ind depth ih =>
      exact Run.Ensures.iterate
        (fun s hAt => ensures_round hs hEnv hBehaves hAt
          fun d hd s hAt => ih d hd hAt) _ hAt

/- What resumes at a suspended body goes on with the loop. -/
theorem ensures_resumed
    {S : Sequence.Site}
    {awaiter label step : Value}
    (hGoes : Goes env i m c body s₀ b trace s)
    (hStage : reached trace = .suspended awaiter label)
    (hCompleted : s.Completed awaiter)
    (hAt : S.At m s step)
    (hCode : S.code = .jump m entry)
    (hHead : s.Bears m entry (some (head m entry c body))) :
    (Sequence.resume (.ofDepth rounds depth) S.cell
      label).Ensures s (Gets env i m c body s₀ b) := by
  have hNative : ¬ S.code.IsClient := by
    rw [hCode]
    rintro ⟨_, ⟨⟩⟩
  have hs' := (hGoes.runs.moves hs hEnv).sound.inv
  rcases hAt.cell with ⟨t, hRow⟩
  unfold Sequence.resume
  refine Run.ensures_row_bind.mpr ?_
  rw [show (Table.sequences.rows s).getD S.cell default =
    ⟨m, S.entry, step, S.rest, t⟩ by
      simp [Table.sequences, hRow]]
  refine Run.Ensures.bind ?_
  intro q s₁ hRun
  have hResume : (Act.resume awaiter label q).Happens m c body
      s s₁ := ⟨hCompleted, rounds, depth, hRun⟩
  have hGoes₁ := hGoes.acts hBehaves (hStage ▸ .resume) hResume
  rcases q with e | step'
  · exact ⟨_, hGoes₁, .ended rfl⟩
  · have hMoves := hResume.moves hs'
    have hRespects := hBehaves.respects _ _ _ _ hGoes.runs
      (hStage ▸ .resume) hResume
    rcases hAt.respected hNative hMoves.rel hRespects with
      ⟨old, hAt₁⟩
    have hTidies : s₁.Tidies []
        (s₁.resequenced S.cell step') :=
      .resequenced hMoves.sound.inv _ _
    refine Run.ensures_alter_bind.mpr ?_
    exact Label.ensures_below (hAt₁.resequenced step').entry
      (fun _ _ h => h.isStep) fun d _ =>
        ensures_enterSequence hs hEnv hBehaves
          (hGoes₁.tidies hTidies) (hAt₁.resequenced step') hCode
          (hTidies.bears _ _ _ (hRespects.bears _ _ _
            (by rintro ⟨_, ⟨⟩⟩) hHead)) rfl
          fun d _ s hAt => ensures_loop hs hEnv hBehaves hAt

------------------------------------------------------------
-- Stretches of a Loop
------------------------------------------------------------

/- A loop starts at its head. -/
theorem gets_started
    (hm : m < s₀.machines.size)
    (h : Run.Ends (fun caller =>
      (Closure.cursorLoop (.machine m) c body).enter caller [])
      s₀ r s') :
    Gets env i m c body s₀ s₀ r s' := by
  have hLabel := s₀.bears_withLabel hm none
  have h₁ : s₀.Tidies [] (s₀.withLabel m none) :=
    .withLabel hs m none
  have h₂ := h₁.trans (.relabelled h₁.orderly hLabel
    (head m s₀.labels.size c body))
  rcases h with ⟨rounds, depth, hRun⟩
  have hJump : Label.jump (.ofDepth rounds depth) m
      (.label s₀.labels.size) ((s₀.withLabel m none).relabelled
        s₀.labels.size (head m s₀.labels.size c body)) =
      some (r, s') := by
    rw [← hRun]
    exact (Run.step_eq (a := m) rfl (Run.step_eq
      (Label.allocate_eq m s₀) (Run.step_eq
        (Label.replace_eq hLabel _) rfl))).symm
  have hHead := hLabel.relabelled (head m s₀.labels.size c body)
  refine Label.ensures_below hHead (fun _ _ h => h.isStep)
    (fun d _ => ?_) r s' hJump
  have hStart : Goes env i m c body s₀ s₀ [] s₀ :=
    ⟨.starts, .refl s₀ _⟩
  exact ensures_loop hs hEnv hBehaves
    ⟨hHead, [], hStart.tidies h₂, rfl⟩

/-
  Where the loop rests, a jump to where it resumes goes on
  with it, once what it awaits has completed.
-/
theorem gets_resumed
    {made awaiter resume : Value}
    (hGoes : Goes env i m c body s₀ b trace s)
    (hRests : Rests m c body s₁ (reached trace) (.ok made))
    (hMade : made.step? = some (.suspend awaiter resume))
    (hGrows : s₁.Grows s)
    (hRespects : s₁.Respects [] s)
    (hCompleted : s.Completed awaiter)
    (h : Run.Ends (fun caller => Label.jump caller m resume) s r
      s') :
    Gets env i m c body s₀ b r s' := by
  generalize hStage : reached trace = stage at hRests
  cases hRests with
  | suspended hMade' hBears hAt hCode hHead =>
      rw [hMade'] at hMade
      cases hMade
      rcases hAt.respected (by rw [hCode]; rintro ⟨_, ⟨⟩⟩) hGrows
        hRespects with ⟨old, hAt'⟩
      exact h.jump
        (hRespects.bears _ _ _ (by rintro ⟨_, ⟨⟩⟩) hBears)
        (fun _ _ h => h.isStep) fun rounds depth =>
          ensures_resumed hs hEnv hBehaves hGoes hStage hCompleted
            hAt' hCode (hRespects.bears _ _ _
              (by rintro ⟨_, ⟨⟩⟩) hHead)
  | @handed f _ a _ _ _ hMade' hAwaiter hBears hRest hHead =>
      rw [hMade'] at hMade
      cases hMade
      have hAwaiter' : s.awaiters[a]? = some (.future f true) := by
        rcases hGrows.awaiters _ _ hAwaiter with ⟨_, hRow, rfl⟩
        exact hRow
      rcases Option.isSome_iff_exists.mp
        (hCompleted a f true rfl hAwaiter') with ⟨o, hOutcome⟩
      exact h.jump
        (hRespects.bears _ _ _ (by rintro ⟨_, ⟨⟩⟩) hBears)
        (fun _ _ h => h.isStep) fun rounds depth =>
          ensures_settled hBehaves hGoes hStage hAwaiter' hOutcome
            (hRespects.bears _ _ _ (by rintro ⟨_, ⟨⟩⟩) hRest)
            (hRespects.bears _ _ _ (by rintro ⟨_, ⟨⟩⟩) hHead)
            fun d _ s hAt => ensures_loop hs hEnv hBehaves hAt
  | ended hYields =>
      obtain ⟨v, hView⟩ : ∃ v, made.step? = some (.finish v) :=
        hYields.terminates
      rw [hView] at hMade
      cases hMade

/- Every stretch of a loop rests where its acts have led to. -/
theorem gets
    (hm : m < s₀.machines.size)
    (h : Stretch (Around i env) m (fun caller =>
      (Closure.cursorLoop (.machine m) c body).enter caller [])
      s₀ s r s') :
    Gets env i m c body s₀ s r s' := by
  induction h with
  | starts hRun =>
      exact gets_started hs hEnv hBehaves hm hRun
  | @resumes _ _ s₁ _ _ s₂ _ _ _ hStep hMeanwhile hCompleted hRun
      ih =>
      rcases ih with ⟨trace, hGoes, hRests⟩
      rcases hMeanwhile with ⟨t, hTidies, hMeanwhile⟩
      have hWaits : (reached trace).Waits := by
        generalize reached trace = stage at hRests
        cases hRests with
        | suspended => trivial
        | handed => trivial
        | ended hYields =>
            obtain ⟨v, hView⟩ := hYields.terminates
            rw [hView] at hStep
            cases hStep
      have hGoes₂ : Goes env i m c body s₀ s₂ trace s₂ :=
        ⟨.waits (.tidies hGoes.runs hTidies) hWaits hMeanwhile,
          .refl s₂ _⟩
      have hOthers : s₁.Respects [] s₂ :=
        (hTidies.respects (by simp)).trans
          ((hEnv.respects _ _ hMeanwhile).mono (by simp))
      exact gets_resumed hs hEnv hBehaves hGoes₂ hRests hStep
        (hTidies.grows.trans (hEnv.grows _ _ hMeanwhile)) hOthers
        hCompleted hRun

end Behaving

end Under

end Iteration

end Resumption

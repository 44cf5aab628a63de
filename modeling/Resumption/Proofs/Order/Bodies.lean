import Resumption.Proofs.Order.Tasks
import Resumption.Proofs.Routine.Awaits

/-
  The bodies of recoveries and cleanups: where they resume,
  what a jump to them ends with, and what becomes of what
  they hand off to.

  A jump that checks ends with a step or with an error.  The
  awaiter of a future reads the future's outcome, and refuses
  to as long as there is none.

  Main declarations:
    * `Session.Idles`, `Session.Comes`
    * `Value.Yields`
    * `Label.ensures_jump`, `Label.ensures_step`
    * `Awaiter.ensures_ofFuture`, `Awaiter.ensures_result`
-/

namespace Resumption

open Session World

variable {s s₁ s' : Session}
variable {caller : Caller}
variable {m l : Ref}

------------------------------------------------------------
-- Ends
------------------------------------------------------------

/- A computation ends the way it ends. -/
theorem Run.ensures_self
    {α : Type}
    (act : Run α)
    (s : Session) :
    act.Ensures s fun r s' => act s = some (r, s') :=
  fun _ _ hAct => hAct

/-
  A jump ends with a step that returns what something ended
  with, or throws what it threw.
-/
def Yields : Except Value Value → Except Value Value → Prop
  | .ok step, .ok v => step.step? = some (.finish v)
  | .error e, .error e' => e = e'
  | _, _ => False

/- A jump has come to its end: it returns or throws. -/
def Terminates : Except Value Value → Prop
  | .ok step => ∃ v, step.step? = some (.finish v)
  | .error _ => True

theorem Yields.terminates
    {r own : Except Value Value}
    (h : Yields r own) :
    Terminates r := by
  cases r with
  | error e => trivial
  | ok step =>
      cases own with
      | ok v => exact ⟨v, h⟩
      | error e => exact h.elim

/- What yields something is a step, unless it is an error. -/
theorem Yields.isStep
    {step : Value}
    {own : Except Value Value}
    (h : Yields (.ok step) own) :
    step.isStep = true := by
  rcases h.terminates with ⟨v, hStep⟩
  simp [Value.isStep, hStep]

/- What is missing is no step. -/
theorem Value.not_missing_of_isStep
    {step : Value}
    (h : step.isStep = true) :
    step.isMissing = false := by
  cases step <;> first | rfl | cases h

------------------------------------------------------------
-- Nothing Invoked
------------------------------------------------------------

/-
  A session turns into another one that is in order, with
  nothing invoked.
-/
structure Session.Idles (s s' : Session) : Prop where
  orderly : s'.Orderly
  grows : s.Grows s'
  compensations : s'.compensations = s.compensations

namespace Session.Idles

theorem refl
    (hs : s.Orderly) :
    s.Idles s :=
  ⟨hs, .refl s, rfl⟩

theorem trans
    (h : s.Idles s₁)
    (h' : s₁.Idles s') :
    s.Idles s' :=
  ⟨h'.orderly, h.grows.trans h'.grows,
    h'.compensations.trans h.compensations⟩

theorem of_ground
    (hs : s.Orderly)
    (h : s.SameGround s') :
    s.Idles s' :=
  ⟨h.orderly hs, h.grows, h.compensations⟩

end Session.Idles

/- Making an object invokes nothing. -/
theorem Session.Orderly.idles_stamped
    (hs : s.Orderly) :
    s.Idles s.stamped :=
  .of_ground hs ⟨rfl, rfl, rfl, rfl, rfl, rfl, rfl, rfl⟩

theorem Run.ensures_newStep
    (step : StepView)
    (s : Session) :
    (Run.newStep step).Ensures s fun r s' =>
      s' = s.stamped ∧
        ∃ made, r = .ok made ∧ made.step? = some step :=
  Run.Ensures.bind (Run.ensures_modifyGet.mpr
    (Run.ensures_pure.mpr
      ⟨rfl, _, rfl, Value.step?_record_fields _ step⟩))

/- A label may be handed out, with code or without. -/
theorem Ordering.moves_withLabel
    (hs : Ordering.Sound s)
    (m : Ref)
    (code : Option Closure) :
    Ordering.Moves s (s.withLabel m code) := by
  cases code with
  | none =>
      exact Ordering.founds.keeps_allocate hs m _ _
        (Label.allocate_eq m s)
  | some code =>
      exact Ordering.founds.keeps_install hs m trivial _ _
        (Label.install_eq m code s)

/- A table of labels may grow with nothing invoked. -/
theorem Label.ensures_install
    (hm : m < s.machines.size)
    (code : Closure)
    (hs : Ordering.Sound s) :
    (Label.install m code).Ensures s fun r s' =>
      s.Idles s' ∧ r = .ok s.labels.size ∧
        s'.awaiters = s.awaiters ∧
        s'.Bears m s.labels.size (some code) := by
  intro r s' hInstall
  have hMoves := Ordering.moves_withLabel hs m (some code)
  rw [Label.install_eq] at hInstall
  obtain ⟨rfl, rfl⟩ := Prod.mk.inj (Option.some.inj hInstall)
  exact ⟨⟨hMoves.sound.inv, hMoves.rel, rfl⟩, rfl, rfl,
    s.bears_withLabel hm (some code)⟩

/- Code may be put under a label that bears none. -/
theorem Session.Bears.moves_relabelled
    (h : s.Bears m l none)
    (hs : Ordering.Sound s)
    (code : Closure) :
    Ordering.Moves s (s.relabelled l code) := by
  have hVacant : World.Vacant s l := by
    refine ⟨h.lt, ?_⟩
    rcases h with ⟨n, hRow, _⟩
    rw [Array.getD_eq_getD_getElem?, hRow, Option.getD_some]
  exact Ordering.founds.keeps_replace hs m (.label l) trivial
    (.inl ⟨l, rfl, hVacant⟩) _ _ (Label.replace_eq h code)

------------------------------------------------------------
-- Jumps
------------------------------------------------------------

/- What a jump that checks ends with is a step. -/
theorem Label.ensures_step
    (caller : Caller)
    (m : Ref)
    (l : Value)
    (s : Session) :
    (Label.jump caller m l).Ensures s fun r s' =>
      (s'.machines.getD m default).assertions = true →
        ∀ step, r = .ok step → step.isStep = true := by
  have hAny : ∀ {α : Type} {act : Run α} {s : Session},
      act.Ensures s fun _ _ => True :=
    fun _ _ _ => trivial
  unfold Label.jump
  refine Run.Ensures.bind (hAny.mono ?_)
  rintro (e | r) s₁ -
  · rintro _ _ ⟨⟩
  · refine Run.ensures_row_bind.mpr ?_
    split
    · refine Run.Ensures.bind (hAny.mono ?_)
      rintro (e | e) s₂ -
      · rintro _ _ ⟨⟩
      · refine Run.ensures_raise.mpr ?_
        rintro _ _ ⟨⟩
    · refine Run.Ensures.bind (hAny.mono ?_)
      rintro (e | step) s₂ -
      · rintro _ _ ⟨⟩
      · refine Run.ensures_row_bind.mpr ?_
        split
        · refine Run.ensures_modify_bind.mpr
            (Run.Ensures.bind (hAny.mono ?_))
          rintro (e | e) s₃ -
          · rintro _ _ ⟨⟩
          · refine Run.ensures_raise.mpr ?_
            rintro _ _ ⟨⟩
        · next hNot =>
            refine Run.ensures_pure.mpr ?_
            rintro hChecks _ ⟨⟩
            have hRow : ((Table.machines.rows s₂).getD m
              default).assertions = true := hChecks
            rw [hRow] at hNot
            simpa using hNot

/-
  A jump to a label that bears code ends as entering that
  code does, if this ends with a step or with an error, or
  if the machine does not check.
-/
theorem Label.ensures_jump
    {rounds depth : Nat}
    {code : Closure}
    {post : Except Value Value → Session → Prop}
    (hBears : s.Bears m l (some code))
    (hSteps : ∀ step s', post (.ok step) s' →
      (s'.machines.getD m default).assertions = true →
        step.isStep = true)
    (h : (code.enter (.ofDepth rounds depth) []).Ensures s
      post) :
    (Label.jump (.ofDepth rounds (depth + 1)) m
      (.label l)).Ensures s post := by
  rcases Label.jump_eq hBears with ⟨id, hJump⟩
  intro r s' hRun
  rw [hJump] at hRun
  revert r s'
  change Run.Ensures _ s post
  refine Run.Ensures.bind (h.mono ?_)
  rintro (e | step) s₁ hPost
  · exact hPost
  · refine Run.ensures_row_bind.mpr ?_
    have hFine : ¬ (((Table.machines.rows s₁).getD m
        default).assertions && !step.isStep) = true := by
      intro hBad
      rw [Bool.and_eq_true, Bool.not_eq_true'] at hBad
      rw [hSteps step s₁ hPost hBad.1] at hBad
      cases hBad.2
    rw [if_neg hFine]
    exact Run.ensures_pure.mpr hPost

------------------------------------------------------------
-- Futures Handed Off To
------------------------------------------------------------

/- What reading a future's result comes to. -/
inductive Session.Comes
    (s : Session)
    (f : Ref) : Except Value Value → Prop where
  | settled {o} (h : s.outcome? f = some o) : Comes s f o.read
  | pending
      {e}
      (h : s.outcome? f = none)
      (hReports : e.Reports (.notCompleted "getResult()")) :
      Comes s f (.error e)

/- The awaiter of a future is made with nothing else done. -/
theorem Awaiter.ensures_ofFuture
    (caller : Caller)
    (f : Ref)
    (hs : s.Orderly) :
    (Awaiter.ofValue caller (.future f)).Ensures s fun r s' =>
      s.Idles s' ∧ s'.outcome? f = s.outcome? f ∧
        ∃ a, r = .ok (.awaiter a) ∧
          s'.awaiters[a]? = some (.future f true) := by
  have hIdles : s.Idles
      { s with awaiters := s.awaiters.push (.future f true) } :=
    { orderly := { hs with }
      grows := { Grows.refl s with
        awaiters := .push (fun _ => rfl) _ _ }
      compensations := rfl }
  refine (Awaiter.ensures_made caller f).mono ?_
  rintro _ _ ⟨rfl, rfl, hRow⟩
  exact ⟨hIdles, rfl, s.awaiters.size, rfl, hRow⟩

/- It reads what the future came to. -/
theorem Awaiter.ensures_comes
    {a f : Nat}
    {captured : Bool}
    (hs : s.Orderly)
    (hAwaiter : s.awaiters[a]? = some (.future f captured)) :
    (Awaiter.result caller (.awaiter a)).Ensures s fun r s' =>
      s.Comes f r ∧ s.Idles s' := by
  cases hOutcome : s.outcome? f with
  | some o =>
      exact ensures_result hAwaiter hOutcome
        ⟨.settled hOutcome, .refl hs⟩
  | none =>
      unfold Awaiter.result
      refine Run.ensures_row_bind.mpr ?_
      rw [show (Table.awaiters.rows s).getD a default =
        .future f captured by simp [Table.awaiters, hAwaiter]]
      have hNone : (s.futures.getD f default).settlement =
          none := by
        simpa [outcome?] using hOutcome
      rcases Run.defect_eq (α := Value)
          (.notCompleted "getResult()") s with
        ⟨e, hReports, hDefect⟩
      have hEnd : Future.result f s =
          some (.error e, s.numbering 2) := by
        rw [← hDefect]
        have hNothing : Future.settlement? f s =
            some (.ok none, s) := by
          rw [← hNone]
          rfl
        exact Run.step_eq hNothing rfl
      intro r s' hRun
      change Future.result f s = some (r, s') at hRun
      rw [hEnd] at hRun
      obtain ⟨rfl, rfl⟩ := Prod.mk.inj (Option.some.inj hRun)
      exact ⟨.pending hOutcome hReports, .of_ground hs
        ⟨rfl, rfl, rfl, rfl, rfl, rfl, rfl, rfl⟩⟩

end Resumption

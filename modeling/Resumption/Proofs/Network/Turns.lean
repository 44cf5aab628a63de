import Resumption.Proofs.Network.Driver

/-
  What a driver comes to when it takes its turn: the code of
  its task delivers what a reading says, and the driver goes
  on from there.

  A turn ends where the output settles as the reading said,
  or where the driver waits for a future that has not
  settled.  Once it has, calling the driver back is its next
  turn.

  Main declarations:
    * `Setting.Goes`
    * `Setting.Drives`
    * `Setting.Delivers.drives`
-/

namespace Resumption

open Run
open Direct (Stepped landed)

variable {ν : Type}
variable {E : Setting ν}
variable {F F₁ F₂ : Footprint}
variable {d f : Ref}
variable {s s₁ s₂ : Session}

------------------------------------------------------------
-- Going
------------------------------------------------------------

/-
  Code with a footprint ran, for one driver.  What it logged
  and wrote was its own, and no future has changed.
-/
structure Setting.Goes
    (E : Setting ν)
    (F : Footprint)
    (d : Ref)
    (s s' : Session) : Prop where
  retains : Session.Retains (¬ F ·) s s'
  ambient : s'.ambient = s.ambient
  contexts : s'.contexts = s.contexts
  futures : s'.futures = s.futures
  deferreds : s'.deferreds = s.deferreds
  drivers : ∀ d', d' ≠ d → s'.drivers[d']? = s.drivers[d']?
  grown : s.drivers.size ≤ s'.drivers.size
  foreign : ∀ own : Territory, E.own.Apart own →
    s'.memory own = s.memory own

namespace Setting

theorem Goes.refl
    (E : Setting ν)
    (F : Footprint)
    (d : Ref)
    (s : Session) :
    E.Goes F d s s :=
  ⟨.refl _ s, rfl, rfl, rfl, rfl, fun _ _ => rfl,
    Nat.le_refl _, fun _ _ => rfl⟩

theorem Moves.goes
    (h : E.Moves F s s₁)
    (d : Ref) :
    E.Goes F d s s₁ where
  retains := h.retains
  ambient := congrArg Backdrop.ambient h.backdrop
  contexts := congrArg Backdrop.contexts h.backdrop
  futures := h.futures
  deferreds := congrArg Backdrop.deferreds h.backdrop
  drivers d' _ := by
    have hSame : s₁.drivers = s.drivers :=
      congrArg Backdrop.drivers h.backdrop
    rw [hSame]
  grown := by
    have hSame : s₁.drivers = s.drivers :=
      congrArg Backdrop.drivers h.backdrop
    exact Nat.le_of_eq (congrArg Array.size hSame.symm)
  foreign := h.foreign

theorem Goes.of_steered
    {cell : DriverCell}
    (E : Setting ν)
    (F : Footprint)
    (h : s.Steered d cell s₁) :
    E.Goes F d s s₁ where
  retains := h.retains
  ambient := h.ambient
  contexts := h.contexts
  futures := h.futures
  deferreds := h.deferreds
  drivers := h.others
  grown := h.size_le
  foreign own _ := h.memory own

/- Cells that were not there at first are no matter. -/
theorem Goes.trans
    (h : E.Goes F₁ d s s₁)
    (h' : E.Goes F₂ d s₁ s₂)
    (hF₁ : ∀ c, s.Has c → F₁ c → F c)
    (hF₂ : ∀ c, s.Has c → F₂ c → F c) :
    E.Goes F d s s₂ where
  retains := by
    refine h.retains.trans h'.retains ?_
    intro c hHas hNot
    constructor
    · exact fun hc => hNot (hF₁ c hHas hc)
    · exact fun hc => hNot (hF₂ c hHas hc)
  ambient := h'.ambient.trans h.ambient
  contexts := h'.contexts.trans h.contexts
  futures := h'.futures.trans h.futures
  deferreds := h'.deferreds.trans h.deferreds
  drivers d' hNe := (h'.drivers d' hNe).trans (h.drivers d' hNe)
  grown := Nat.le_trans h.grown h'.grown
  foreign own hApart :=
    (h'.foreign own hApart).trans (h.foreign own hApart)

/- One footprint covers both parts. -/
theorem Goes.then
    (h : E.Goes F d s s₁)
    (h' : E.Goes F d s₁ s₂) :
    E.Goes F d s s₂ :=
  h.trans h' (fun _ _ hc => hc) (fun _ _ hc => hc)

theorem Goes.settled_iff
    (h : E.Goes F d s s₁)
    (g : Ref) :
    s₁.Settled g ↔ s.Settled g := by
  unfold Session.Settled
  rw [h.futures]

/- Nobody comes to wait meanwhile, and nothing is posted. -/
theorem Goes.unposted
    (h : E.Goes F d s s₁) :
    s.Unposted s₁ where
  contexts := h.contexts
  audience g w hw := by
    rw [Session.audience, h.futures] at hw
    exact .inl hw

/- Whoever else is at rest finds it calm, too. -/
theorem Goes.calm
    {E' : Setting ν}
    (h : E'.Goes F d s s₁)
    (hs : E.Calm s) :
    E.Calm s₁ := by
  refine hs.later h.retains h.ambient ?_
  simp only [Session.SettledAs, h.futures]
  exact hs.fated

/- A session stays where the reading is if its memory stays. -/
theorem Agrees.of_goes
    {R : Reading ν}
    (hs : E.Agrees s R)
    (h : E.Goes F d s s₁)
    (hMemory : s₁.memory E.own = s.memory E.own) :
    E.Agrees s₁ R where
  calm := h.calm hs.calm
  memory := hMemory.trans hs.memory

/- To the code itself that is a rest if its memory stays. -/
theorem Goes.rests
    (h : E.Goes .none d s s₁)
    (hCalm : E.Calm s)
    (hMemory : s₁.memory E.own = s.memory E.own) :
    E.Rests F s s₁ where
  retains := h.retains.weaken fun _ _ _ => id
  memory := hMemory
  calm := h.calm hCalm

/- What steers a driver keeps the session with the reading. -/
theorem Agrees.of_steered
    {cell : DriverCell}
    {R : Reading ν}
    (hs : E.Agrees s R)
    (h : s.Steered d cell s₁) :
    E.Agrees s₁ R := by
  have hRests : E.Rests .none s s₁ := h.rests hs.calm
  exact hRests.agrees hs

------------------------------------------------------------
-- Driving
------------------------------------------------------------

/-
  A turn of a driver, from a session, sooner or later settles
  the output as a reading said.
-/
inductive Drives
    (E : Setting ν)
    (d f : Ref) :
    Footprint → (Caller → Run Value) → Session →
      Except (Stop ν) Value → Reading ν → Prop where
  | settles
      {F act s s₁ outcome o R}
      (hGoes : E.Goes F d s s₁)
      (hAgrees : E.Agrees s₁ R)
      (hMatches : E.Matches s₁ o outcome.toExcept)
      (hEnd : ∀ b s',
        Leads (fun c => Future.settle c f outcome) s₁
          (.ok b) s' →
        Leads act s (.ok .undefined) s') :
      Drives E d f F act s o R
  | watches
      {F G act s s₁ w x o R R'}
      (hLeads : Leads act s (.ok .undefined)
        (s₁.watching (E.place x) w))
      (hCalls : w.driver? = some d)
      (hGoes : E.Goes F d s s₁)
      (hAgrees : E.Agrees s₁ R)
      (hPending : ¬ s₁.Settled (E.place x))
      (hFated : (E.fates x).isSome = true)
      (hStuck : E.fates x = some .never →
        o = .error (.stuck x) ∧ R' = R.awaiting x)
      (hFoot : ∀ c, G c → s₁.Has c ∧ (s.Has c → F c))
      (hRest : ∀ s₂, E.Rests G s₁ s₂ →
        s₂.drivers[d]? = s₁.drivers[d]? →
        s₂.Settled (E.place x) →
        Drives E d f G (fun c => c.call w []) s₂ o R') :
      Drives E d f F act s o R'

end Setting

namespace Driver

/- What a driver does with the step that its task came to. -/
def proceed
    (caller : Caller)
    (d : Ref)
    (landing : Except Value Value) : Run Unit := do
  match landing with
  | .error e => fail caller d e
  | .ok step =>
      match step.step? with
      | none => return ()
      | some (.finish v) => succeed caller d v
      | some (.handOff future) => handOff caller d future
      | some (.suspend awaiter label) =>
          suspend caller d awaiter label

/- A driver advances by taking a step and proceeding with it. -/
theorem advance_eq
    (caller : Caller)
    (d : Ref) :
    advance caller d = (do
      setState d .running
      proceed caller d
        (← Run.attempt (nextStep caller d))) := by
  unfold advance
  refine congrArg _ (funext fun _ => congrArg _ (funext ?_))
  intro landing
  cases landing <;> rfl

end Driver

/-
  A driver that has taken its first step, and whose events
  nobody listens to.
-/
structure DriverCell.Serves
    (cell : DriverCell)
    (m f : Ref) : Prop where
  machine : cell.machine = .machine m
  first : cell.first = none
  output : cell.output = some f
  quiet : cell.emitter.listener = none

/-
  A turn from one session comes to code that is run in
  another, and proceeds by what that code came to.
-/
structure Driver.Turns
    (d m f : Ref)
    (turn act : Caller → Run Value)
    (s₀ s : Session) : Prop where
  enters : ∃ cell, s₀.Steered d cell s ∧ cell.Serves m f ∧
    ∀ r s₁, Label.Steps r → s₁.drivers = s.drivers →
      Leads act s r s₁ →
      ∃ s₂, s₁.Steered d cell s₂ ∧
        ∀ s₃, Leads (fun c => Driver.proceed c d r) s₂
          (.ok ()) s₃ →
          Leads turn s₀ (.ok .undefined) s₃

------------------------------------------------------------
-- Resuming
------------------------------------------------------------

/- A driver that is to resume at a label when called back. -/
structure DriverCell.Sleeps
    (cell : DriverCell)
    (l callback : Ref) : Prop where
  state : cell.state = .suspended
  current : cell.current = .label l
  fired : cell.fired.getD callback true = false

namespace Driver

variable {m l callback : Ref}
variable {cell : DriverCell}

/- Asking whether the output has settled changes nothing. -/
theorem hasSettled_eq
    (h : s.drivers[d]? = some cell) :
    ∃ b, hasSettled d s = some (.ok b, s) := by
  have hRow := row_eq h
  cases hOutput : cell.output with
  | none =>
      refine ⟨cell.early.isSome, step_eq hRow ?_⟩
      simp only [hOutput]
      rfl
  | some g =>
      let settlement := (s.futures.getD g default).settlement
      refine ⟨settlement.isSome, step_eq hRow ?_⟩
      simp only [hOutput]
      rfl

/-
  The next step of a driver that has taken its first: what
  is under its label, run as part of the task.
-/
theorem leads_nextStep
    (h : s.drivers[d]? = some cell)
    (hServes : cell.Serves m f)
    (hCurrent : cell.current = .label l) :
    ∃ s₁, s.Steered d cell s₁ ∧
      ∀ r s₂, Label.Steps r → s₂.drivers = s₁.drivers →
        Leads (fun c => Label.jump c m (.label l)) s₁ r s₂ →
        ∃ s₃, s₂.Steered d cell s₃ ∧
          Leads (fun c => nextStep c d) s r s₃ := by
  let id := (s.property? (.label l) "id").getD .undefined
  rcases emit_steers h hServes.quiet (.resume id) with
    ⟨s₁, hEmit, hSteered₁⟩
  rcases hasSettled_eq hSteered₁.cell with ⟨ended, hEnded⟩
  rcases note_steers hSteered₁.cell
      (.jumps (.label l) ended) with
    ⟨s₂, hNote, hSteered₂⟩
  let t := cell.emitter.task
  let s₃ : Session := entering t s₂
  have hSteered₃ : s₂.Steered d cell s₃ :=
    ⟨⟨_, _, _, _, _, rfl⟩, fun _ _ => rfl, hSteered₂.cell⟩
  refine ⟨s₃, (hSteered₁.trans hSteered₂).trans hSteered₃,
    fun r s₄ hSteps hDrivers hJump => ?_⟩
  have hCell₄ : s₄.drivers[d]? = some cell := by
    rw [hDrivers]
    exact hSteered₃.cell
  let s₅ : Session :=
    { s₄ with task := s₂.task, home := s₂.home }
  have hSteered₅ : s₄.Steered d cell s₅ :=
    ⟨⟨_, _, _, _, _, rfl⟩, fun _ _ => rfl, hCell₄⟩
  rcases note_steers hSteered₅.cell (.lands (.label l)) with
    ⟨s₆, hLands, hSteered₆⟩
  refine ⟨s₆, hSteered₅.trans hSteered₆, ?_⟩
  have hLanding :
      Leads (fun c => jump c d cell.current) s₁ r s₆ := by
    rw [hCurrent]
    refine .step hEnded (.step hNote ?_)
    refine .step (row_eq hSteered₂.cell) ?_
    rw [hServes.machine]
    refine (hJump.withTask t).attempt.bind (.step hLands ?_)
    cases r with
    | ok step => exact .pure step
    | error e => exact .raise e
  refine .step (row_eq h) ?_
  have hTrue : (Value.label l).truthy = true := rfl
  simp only [hServes.first, hCurrent, hTrue, Bool.not_true,
    Bool.false_eq_true, if_false]
  refine .step (a := id) rfl ((Leads.of_eq hEmit).bind ?_)
  rw [hCurrent] at hLanding
  cases r with
  | error e => exact hLanding.bind_error
  | ok step =>
      refine hLanding.bind ?_
      simp only [hSteps step rfl, if_true]
      exact .pure step

/- Called back, such a driver jumps to its label. -/
theorem turns_resume
    (h : s.drivers[d]? = some cell)
    (hServes : cell.Serves m f)
    (hSleeps : cell.Sleeps l callback) :
    ∃ s₁, Turns d m f
      (fun c => c.call (.driverResume d callback) [])
      (fun c => Label.jump c m (.label l)) s s₁ := by
  rcases alter_steers h (fun c =>
      { c with
        fired := c.fired.setIfInBounds callback true }) with
    ⟨s₁, hAlter, hSteered₁⟩
  rcases setState_steers hSteered₁.cell .running with
    ⟨s₂, hState, hSteered₂⟩
  rcases leads_nextStep hSteered₂.cell
      ⟨hServes.machine, hServes.first, hServes.output,
        hServes.quiet⟩ hSleeps.current with
    ⟨s₃, hSteered₃, hNext⟩
  have hSteered := (hSteered₁.trans hSteered₂).trans hSteered₃
  refine ⟨s₃, _, hSteered, ⟨hServes.machine, hServes.first,
    hServes.output, hServes.quiet⟩, ?_⟩
  intro r s₄ hSteps hDrivers hJump
  rcases hNext r s₄ hSteps hDrivers hJump with
    ⟨s₅, hSteered₅, hStep⟩
  refine ⟨s₅, hSteered₅, fun s₆ hProceed => .call ?_⟩
  have hAdvance :
      Leads (fun c => advance c d) s₁ (.ok ()) s₆ := by
    simp only [advance_eq]
    exact .step hState (hStep.attempt.bind hProceed)
  have hResume : Leads
      (fun c => resume c d callback .undefined) s (.ok ()) s₆ := by
    refine .step (row_eq h) ?_
    have hState : (cell.state != .suspended) = false := by
      rw [hSleeps.state]
      rfl
    simp only [hSleeps.fired, hState, Bool.or_self,
      Bool.false_eq_true, if_false]
    exact .step hAlter hAdvance
  exact hResume.quietly

end Driver

------------------------------------------------------------
-- Ending
------------------------------------------------------------

namespace Setting

variable {cell : DriverCell}
variable {turn : Caller → Run Value}
variable {a : Ref}
variable {x : ν}
variable {fate : Fate}
variable {o : Except (Stop ν) Value}
variable {R R' : Reading ν}

/- A turn that finishes settles the output. -/
theorem drives_finish
    (outcome : Outcome)
    (hGoes : E.Goes F d s s₁)
    (hAgrees : E.Agrees s₁ R)
    (hMatches : E.Matches s₁ o outcome.toExcept)
    (hCell : s₁.drivers[d]? = some cell)
    (hServes : cell.Serves E.machine f)
    (hEnd : ∀ s', Leads (fun c => Driver.finish c d outcome)
        s₁ (.ok ()) s' →
      Leads turn s (.ok .undefined) s') :
    E.Drives d f F turn s o R := by
  rcases Driver.leads_finish hCell hServes.quiet
      hServes.output outcome with
    ⟨s₂, cell', hSteered, hFinish⟩
  have hRetains : Session.Retains Footprint.none s₁ s₂ :=
    hSteered.retains
  exact .settles (hGoes.then (.of_steered E F hSteered))
    (hAgrees.of_steered hSteered) (hMatches.later hRetains)
    fun b s' hSettle => hEnd s' (hFinish hSettle)

/- So does one that concludes by a future's outcome. -/
theorem drives_conclude
    (hGoes : E.Goes F d s s₁)
    (hAgrees : E.Agrees s₁ R)
    (hCell : s₁.drivers[d]? = some cell)
    (hServes : cell.Serves E.machine f)
    (hReads : E.Reads s₁ a (E.place x))
    (hFate : E.fates x = some fate)
    (hSettled : s₁.Settled (E.place x))
    (hEnd : ∀ s', Leads
        (fun c => Driver.conclude c d (.awaiter a))
        s₁ (.ok ()) s' →
      Leads turn s (.ok .undefined) s') :
    E.Drives d f F turn s (fate.result x) (R.awaiting x) := by
  rcases hAgrees.calm.settledAs hFate hSettled with
    ⟨outcome, hAs, hMatches⟩
  rcases Driver.leads_conclude hCell hServes.quiet
      hServes.output hReads.session hAs with
    ⟨s₂, cell', hSteered, hConclude⟩
  have hRetains : Session.Retains Footprint.none s₁ s₂ :=
    hSteered.retains
  exact .settles (hGoes.then (.of_steered E F hSteered))
    ((hAgrees.awaiting x).of_steered hSteered)
    (hMatches.later hRetains)
    fun b s' hSettle => hEnd s' (hConclude hSettle)

/- Where a future never settles the reading goes no further. -/
theorem stuck_of_result
    (hFate : E.fates x = some fate)
    (hNever : E.fates x = some .never) :
    fate.result x = .error (.stuck x) ∧
      R.awaiting x = R.awaiting x := by
  rw [hNever] at hFate
  cases hFate
  exact ⟨rfl, rfl⟩

/-
  A turn that hands off settles the output if the future has
  settled, and else waits for it.
-/
theorem drives_handOff
    (hGoes : E.Goes F d s s₁)
    (hAgrees : E.Agrees s₁ R)
    (hCell : s₁.drivers[d]? = some cell)
    (hServes : cell.Serves E.machine f)
    (hFate : E.fates x = some fate)
    (hEnd : ∀ s', Leads
        (fun c => Driver.handOff c d (.future (E.place x)))
        s₁ (.ok ()) s' →
      Leads turn s (.ok .undefined) s') :
    E.Drives d f F turn s (fate.result x) (R.awaiting x) := by
  rcases Driver.note_steers hCell
      (.handsOver (.future (E.place x))) with
    ⟨s₂, hNote, hSteered₂⟩
  let row : AwaiterCell := .future (E.place x) false
  have hMoves := E.moves_withAwaiter s₂ row
  have hCell₃ : (s₂.withAwaiter row).drivers[d]? = some cell :=
    hSteered₂.cell
  rcases Driver.emit_steers hCell₃ hServes.quiet .handOff with
    ⟨s₄, hEmit, hSteered₄⟩
  have hGoes₄ : E.Goes F d s s₄ :=
    ((hGoes.then (.of_steered E F hSteered₂)).then
      (hMoves.any.goes d)).then (.of_steered E F hSteered₄)
  have hAgrees₄ : E.Agrees s₄ R :=
    ((hAgrees.of_steered hSteered₂).of_moves hMoves
      (s₂.memory_withAwaiter row E.own)).of_steered hSteered₄
  have hRetains₄ : Session.Retains Footprint.none _ s₄ :=
    hSteered₄.retains
  have hReads₄ : E.Reads s₄ s₂.awaiters.size (E.place x) :=
    (Setting.reads_withAwaiter s₂ _ fun _ => rfl).later
      hRetains₄
  have hCompleted := Awaiter.completed_eq hReads₄.session
  by_cases hSettled : s₄.Settled (E.place x)
  · refine drives_conclude hGoes₄ hAgrees₄ hSteered₄.cell
      hServes hReads₄ hFate hSettled fun s' hLeads => ?_
    refine hEnd s' (.step hNote (.step (Awaiter.new_eq row s₂)
      ((Leads.of_eq hEmit).bind
        ((Leads.of_eq hCompleted).bind ?_))))
    have hTrue : (Value.bool
        (s₄.futures.getD (E.place x)
          default).settlement.isSome).truthy = true :=
      hSettled
    simp only [hTrue, if_true]
    exact hLeads
  · rcases Driver.setState_steers hSteered₄.cell .suspended with
      ⟨s₅, hState, hSteered₅⟩
    have hRetains₅ : Session.Retains Footprint.none s₄ s₅ :=
      hSteered₅.retains
    rcases Awaiter.keeper_eq
        (hRetains₅.reads hReads₄.session) with
      ⟨keeper, hKeeper⟩
    rcases Driver.note_steers hSteered₅.cell
        (.asks none keeper) with
      ⟨s₆, hAsks, hSteered₆⟩
    have hSteered := hSteered₅.trans hSteered₆
    have hAgrees₆ := hAgrees₄.of_steered hSteered
    have hRetains₆ : Session.Retains Footprint.none s₄ s₆ :=
      hSteered.retains
    have hReads₆ := hReads₄.later hRetains₆
    have hPending : ¬ s₆.Settled (E.place x) := by
      rw [Session.Settled, hSteered.futures]
      exact hSettled
    let w : Closure :=
      .driverOutcome d (.awaiter s₂.awaiters.size)
    have hRegister := Awaiter.register_eq
      (hReads₆.quiet hAgrees₆.calm) hPending w
    refine .watches (G := .none) (w := w)
      (hEnd _ (.step hNote (.step (Awaiter.new_eq row s₂)
        ((Leads.of_eq hEmit).bind
          ((Leads.of_eq hCompleted).bind ?_)))))
      rfl (hGoes₄.then (.of_steered E F hSteered)) hAgrees₆
      hPending (by rw [hFate]; rfl) (stuck_of_result hFate)
      (fun _ hc => hc.elim) ?_
    · have hFalse : (Value.bool
          (s₄.futures.getD (E.place x)
            default).settlement.isSome).truthy = false :=
        Bool.eq_false_iff.mpr hSettled
      simp only [hFalse, Bool.false_eq_true, if_false]
      exact .step hState (.step hKeeper (.step hAsks
        (Leads.of_eq hRegister).discard))
    · intro s₇ hRests hSame hNow
      refine drives_conclude (.refl E _ d s₇)
        (hRests.agrees hAgrees₆) (hSame.trans hSteered.cell)
        ⟨hServes.machine, hServes.first, hServes.output,
          hServes.quiet⟩
        (hReads₆.later hRests.retains) hFate hNow
        fun s' hLeads => .call hLeads.quietly

/-
  A turn that suspends waits to be called back, and is then
  to resume at the label.
-/
theorem drives_suspend
    (l : Ref)
    (F₁ : Footprint)
    (hGoes : E.Goes F d s s₁)
    (hWaits : E.Waits s₁ R a x)
    (hCell : s₁.drivers[d]? = some cell)
    (hServes : cell.Serves E.machine f)
    (hStuck : E.fates x = some .never →
      o = .error (.stuck x) ∧ R' = R.awaiting x)
    (hFoot : ∀ c, F₁ c → s₁.Has c ∧ (s.Has c → F c))
    (hEnd : ∀ s', Leads
        (fun c => Driver.suspend c d (.awaiter a) (.label l))
        s₁ (.ok ()) s' →
      Leads turn s (.ok .undefined) s')
    (hRest : ∀ s₂ cell' callback, E.Rests F₁ s₁ s₂ →
      s₂.drivers[d]? = some cell' →
      cell'.Serves E.machine f → cell'.Sleeps l callback →
      s₂.Settled (E.place x) →
      E.Drives d f F₁
        (fun c => c.call (.driverResume d callback) [])
        s₂ o R') :
    E.Drives d f F turn s o R' := by
  rcases Driver.leads_suspend (l := l) hCell hServes.quiet
      (hWaits.awaits.quiet hWaits.agrees.calm)
      hWaits.pending with
    ⟨s₂, hSteered, hSuspend⟩
  have hAgrees := hWaits.agrees.of_steered hSteered
  have hRetains : Session.Retains F₁ s₁ s₂ := hSteered.retains
  refine .watches (G := F₁) (hEnd _ hSuspend) rfl
    (hGoes.then (.of_steered E F hSteered)) hAgrees ?_
    hWaits.fated hStuck ?_ ?_
  · rw [Session.Settled, hSteered.futures]
    exact hWaits.pending
  · intro c hc
    exact ⟨hRetains.has c (hFoot c hc).1, (hFoot c hc).2⟩
  · intro s₃ hRests hSame hSettled
    have hAll : E.Rests F₁ s₁ s₃ :=
      (hSteered.rests hWaits.agrees.calm).trans hRests
    refine hRest s₃ _ _ hAll (hSame.trans hSteered.cell)
      ⟨hServes.machine, hServes.first, hServes.output,
        hServes.quiet⟩ ⟨rfl, rfl, ?_⟩ hSettled
    simp

------------------------------------------------------------
-- Driving
------------------------------------------------------------

/- Where a turn proceeds when the code has ended. -/
theorem lands
    {act : Caller → Run Value}
    {r : Except Value Value}
    {s' : Session}
    (hTurns : Driver.Turns d E.machine f turn act s s₁)
    (hSteps : Label.Steps r)
    (hLeads : Leads act s₁ r s')
    (hMoves : E.Moves F s₁ s') :
    ∃ cell s₂, s'.Steered d cell s₂ ∧
      cell.Serves E.machine f ∧ E.Goes F d s s₂ ∧
      ∀ s₃, Leads (fun c => Driver.proceed c d r) s₂
        (.ok ()) s₃ →
        Leads turn s (.ok .undefined) s₃ := by
  rcases hTurns.enters with ⟨cell, hSteered, hServes, hNext⟩
  have hDrivers : s'.drivers = s₁.drivers :=
    congrArg Backdrop.drivers hMoves.backdrop
  rcases hNext r s' hSteps hDrivers hLeads with
    ⟨s₂, hSteered₂, hEnd⟩
  exact ⟨cell, s₂, hSteered₂, hServes,
    ((Goes.of_steered E F hSteered).then (hMoves.goes d)).then
      (.of_steered E F hSteered₂), hEnd⟩

/-
  A driver drives what its task's code delivers, turn after
  turn.
-/
theorem Delivers.drives
    {hands : Prop}
    {act : Caller → Run Value}
    (h : E.Delivers hands F act s₁ o R)
    (hStepped : Stepped o)
    (hTurns : Driver.Turns d E.machine f turn act s s₁) :
    E.Drives d f F turn s o R := by
  induction h generalizing turn s with
  | @finishes F act s₁ s' step v R hLeads hMoves hStep hAgrees =>
      rcases lands hTurns (steps_of_step hStep) hLeads hMoves
        with ⟨cell, s₂, hSteered, hServes, hGoes, hEnd⟩
      refine drives_finish (.fulfilled v) hGoes
        (hAgrees.of_steered hSteered) rfl hSteered.cell hServes
        fun s₃ hFinish => hEnd s₃ ?_
      simpa only [Driver.proceed, hStep, Driver.succeed]
        using hFinish
  | @fails F act s₁ s' e stop R hLeads hMoves hMeans hAgrees =>
      have hSteps : Label.Steps (.error e) := nofun
      rcases lands hTurns hSteps hLeads hMoves
        with ⟨cell, s₂, hSteered, hServes, hGoes, hEnd⟩
      have hRetains : Session.Retains Footprint.none s' s₂ :=
        hSteered.retains
      exact drives_finish (.rejected e) hGoes
        (hAgrees.of_steered hSteered) (hMeans.later hRetains)
        hSteered.cell hServes hEnd
  | gives => exact (hStepped _ rfl).elim
  | @handsOff F act s₁ s' step x fate o R R'
      hLeads hMoves hStep _ hAgrees hFate hResult hReading =>
      subst hResult hReading
      rcases lands hTurns (steps_of_step hStep) hLeads hMoves
        with ⟨cell, s₂, hSteered, hServes, hGoes, hEnd⟩
      refine drives_handOff hGoes (hAgrees.of_steered hSteered)
        hSteered.cell hServes hFate
        fun s₃ hHand => hEnd s₃ ?_
      simpa only [Driver.proceed, hStep] using hHand
  | @waits F G act s₁ s' step a l x o R R'
      hLeads hMoves hStep hWaits hStuck hFoot hRest ih =>
      rw [Direct.landed_eq hStepped] at ih
      rcases lands hTurns (steps_of_step hStep) hLeads hMoves
        with ⟨cell, s₂, hSteered, hServes, hGoes, hEnd⟩
      rcases hTurns.enters with ⟨_, hSteered₀, _⟩
      have hRetains₀ : Session.Retains G s s₁ :=
        hSteered₀.retains
      have hRetains : Session.Retains G s' s₂ :=
        hSteered.retains
      have hHere : E.Rests G s' s₂ :=
        hSteered.rests hWaits.agrees.calm
      refine drives_suspend l G hGoes
        ⟨hHere.agrees hWaits.agrees,
          hWaits.awaits.later hRetains, ?_, hWaits.fated⟩
        hSteered.cell hServes hStuck ?_ ?_ ?_
      · rw [Session.Settled, hSteered.futures]
        exact hWaits.pending
      · intro c hc
        rcases hFoot c hc with ⟨hHas, hOld⟩
        refine ⟨hRetains.has c hHas, fun hHas₀ => hOld ?_⟩
        exact hRetains₀.has c hHas₀
      · intro s₃ hSuspend
        refine hEnd s₃ ?_
        simpa only [Driver.proceed, hStep] using hSuspend
      · intro s₃ cell' callback hRests hCell' hServes' hSleeps
          hSettled
        rcases Driver.turns_resume hCell' hServes' hSleeps with
          ⟨s₄, hTurns'⟩
        rcases hTurns'.enters with ⟨_, hSteered', _⟩
        have hAll : E.Rests G s' s₄ :=
          (hHere.trans hRests).trans
            (hSteered'.rests hRests.calm)
        refine ih s₄ hAll ?_ hStepped hTurns'
        rw [Session.Settled, hSteered'.futures]
        exact hSettled

end Setting

end Resumption

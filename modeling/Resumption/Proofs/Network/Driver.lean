import Resumption.Proofs.Network.Futures
import Resumption.Proofs.Routine.Awaits

/-
  How a driver takes its task from one rest to the next, when
  nobody listens and no callback is to be posted.

  What a driver does about itself (states, notes, events)
  leaves the rest of a session alone.  Besides that it jumps,
  waits for a future, or settles its output.

  Main declarations:
    * `Session.Steered`
    * `Driver.leads_finish`, `Driver.leads_conclude`
    * `Driver.leads_suspend`, `Driver.leads_handOff`
    * `Driver.leads_resume`
-/

namespace Resumption

open Run

------------------------------------------------------------
-- Steering
------------------------------------------------------------

/-
  Nothing changed but one driver, what is remembered of the
  past, and which task runs and is at home.
-/
structure Session.Steered
    (d : Ref)
    (cell : DriverCell)
    (s s' : Session) : Prop where
  aside : ∃ chronicle task home tasks drivers,
    s' = { s with
      chronicle := chronicle
      task := task
      home := home
      tasks := tasks
      drivers := drivers }
  others : ∀ d', d' ≠ d → s'.drivers[d']? = s.drivers[d']?
  cell : s'.drivers[d]? = some cell

namespace Session.Steered

variable {d : Ref}
variable {cell cell' : DriverCell}
variable {s s₁ s' : Session}

theorem trans
    (h : s.Steered d cell s₁)
    (h' : s₁.Steered d cell' s') :
    s.Steered d cell' s' where
  aside := by
    rcases h.aside with ⟨_, _, _, _, _, rfl⟩
    rcases h'.aside with ⟨_, _, _, _, _, rfl⟩
    exact ⟨_, _, _, _, _, rfl⟩
  others d' hNe := (h'.others d' hNe).trans (h.others d' hNe)
  cell := h'.cell

/- No driver is lost. -/
theorem size_le
    (h : s.Steered d cell s') :
    s.drivers.size ≤ s'.drivers.size := by
  by_cases hAll : s.drivers.size ≤ s'.drivers.size
  · exact hAll
  · have hLt : s'.drivers.size < s.drivers.size :=
      Nat.lt_of_not_le hAll
    have hNone : s'.drivers[s'.drivers.size]? = none := by simp
    by_cases hSame : s'.drivers.size = d
    · rw [hSame, h.cell] at hNone
      cases hNone
    · rw [h.others _ hSame] at hNone
      simp only [Array.getElem?_eq_none_iff] at hNone
      exact hNone

theorem futures
    (h : s.Steered d cell s') :
    s'.futures = s.futures := by
  rcases h.aside with ⟨_, _, _, _, _, rfl⟩
  rfl

theorem ambient
    (h : s.Steered d cell s') :
    s'.ambient = s.ambient := by
  rcases h.aside with ⟨_, _, _, _, _, rfl⟩
  rfl

theorem contexts
    (h : s.Steered d cell s') :
    s'.contexts = s.contexts := by
  rcases h.aside with ⟨_, _, _, _, _, rfl⟩
  rfl

/- What is not posted now is not posted then. -/
theorem quiet
    {a f : Ref}
    (h : s.Steered d cell s')
    (hQuiet : s.Quiet a f) :
    s'.Quiet a f := by
  rcases h.aside with ⟨_, _, _, _, _, rfl⟩
  exact hQuiet

theorem deferreds
    (h : s.Steered d cell s') :
    s'.deferreds = s.deferreds := by
  rcases h.aside with ⟨_, _, _, _, _, rfl⟩
  rfl

theorem memory
    (h : s.Steered d cell s')
    (own : Territory) :
    s'.memory own = s.memory own := by
  rcases h.aside with ⟨_, _, _, _, _, rfl⟩
  rfl

theorem retains
    {kept : Cell → Prop}
    (h : s.Steered d cell s') :
    Session.Retains kept s s' := by
  rcases h.aside with ⟨_, _, _, _, _, rfl⟩
  exact
    { Session.Retains.refl kept s with
      same := fun c _ _ => by cases c <;> rfl }

/- To whoever rests meanwhile nothing has happened. -/
theorem rests
    {ν : Type}
    {E : Setting ν}
    {F : Footprint}
    (h : s.Steered d cell s')
    (hCalm : E.Calm s) :
    E.Rests F s s' where
  retains := h.retains
  memory := h.memory E.own
  calm := by
    have hKept : Session.Retains F s s' := h.retains
    refine hCalm.later hKept h.ambient ?_
    simp only [Session.SettledAs, h.futures]
    exact hCalm.fated

end Session.Steered

------------------------------------------------------------
-- Stories
------------------------------------------------------------

/- A session in which a moment was added to a story. -/
def Session.recorded
    (s : Session)
    (t : Ref)
    (m : Moment) : Session :=
  { s with
    tasks := s.tasks.modify t fun c =>
      { c with story := m :: c.story } }

theorem Run.note_eq
    (t : Ref)
    (m : Moment)
    (s : Session) :
    Run.note t m s = some (.ok (), s.recorded t m) :=
  rfl

/- An event that nobody listens to is only noted. -/
theorem Emitter.emit_eq
    {em : Emitter}
    (hQuiet : em.listener = none)
    (caller : Caller)
    (event : Event)
    (s : Session) :
    em.emit caller event s =
      some (.ok (), s.recorded em.task (.told event)) := by
  refine step_eq (Run.note_eq em.task (.told event) s) ?_
  unfold Emitter.tell
  rw [hQuiet]
  rfl

namespace Driver

variable {d f : Ref}
variable {cell : DriverCell}
variable {s s' : Session}

------------------------------------------------------------
-- What a Driver Does about Itself
------------------------------------------------------------

theorem row_eq
    (h : s.drivers[d]? = some cell) :
    Table.drivers.row d s = some (.ok cell, s) := by
  have hEnd : Table.drivers.row d s =
      some (.ok (s.drivers.getD d default), s) := rfl
  rw [hEnd]
  simp [Array.getD_eq_getD_getElem?, h]

/- A driver's row is changed. -/
theorem altered_steers
    (h : s.drivers[d]? = some cell)
    (g : DriverCell → DriverCell) :
    s.Steered d (g cell)
      { s with drivers := s.drivers.modify d g } := by
  refine ⟨⟨_, _, _, _, _, rfl⟩, fun d' hNe => ?_, ?_⟩
  · simp [Array.getElem?_modify, Ne.symm hNe]
  · simp [Array.getElem?_modify, h]

theorem alter_steers
    (h : s.drivers[d]? = some cell)
    (g : DriverCell → DriverCell) :
    ∃ s', Table.drivers.alter d g s = some (.ok (), s') ∧
      s.Steered d (g cell) s' :=
  ⟨_, rfl, altered_steers h g⟩

/- Something is noted about a task. -/
theorem recorded_steers
    (h : s.drivers[d]? = some cell)
    (t : Ref)
    (m : Moment) :
    s.Steered d cell (s.recorded t m) :=
  ⟨⟨_, _, _, _, _, rfl⟩, fun _ _ => rfl, h⟩

theorem note_steers
    (h : s.drivers[d]? = some cell)
    (m : Moment) :
    ∃ s', note d m s = some (.ok (), s') ∧
      s.Steered d cell s' :=
  ⟨s.recorded cell.emitter.task m, bind_of_end (row_eq h),
    recorded_steers h _ _⟩

theorem setState_steers
    (h : s.drivers[d]? = some cell)
    (state : DriverState) :
    ∃ s', setState d state s = some (.ok (), s') ∧
      s.Steered d { cell with state := state } s' := by
  rcases note_steers h (.stands state) with
    ⟨s₁, hNote, hSteered⟩
  rcases alter_steers hSteered.cell
      ({ · with state := state }) with
    ⟨s₂, hAlter, hSteered'⟩
  exact ⟨s₂, step_eq hNote hAlter, hSteered.trans hSteered'⟩

theorem emit_steers
    (h : s.drivers[d]? = some cell)
    (hQuiet : cell.emitter.listener = none)
    (event : Event) :
    ∃ s', (∀ caller,
        emit caller d event s = some (.ok (), s')) ∧
      s.Steered d cell s' :=
  ⟨s.recorded cell.emitter.task (.told event),
    fun caller => step_eq (row_eq h)
      (Emitter.emit_eq hQuiet caller event s),
    recorded_steers h _ _⟩

------------------------------------------------------------
-- Ending
------------------------------------------------------------

/-
  A driver that ends its task settles its output; all else
  that it does is about itself.
-/
theorem leads_finish
    (h : s.drivers[d]? = some cell)
    (hQuiet : cell.emitter.listener = none)
    (hOutput : cell.output = some f)
    (outcome : Outcome) :
    ∃ s₁ cell', s.Steered d cell' s₁ ∧
      ∀ {b s'},
        Leads (fun c => Future.settle c f outcome) s₁
          (.ok b) s' →
        Leads (fun c => finish c d outcome) s (.ok ()) s' := by
  rcases setState_steers h (.ofOutcome outcome) with
    ⟨s₁, hState, hSteered₁⟩
  rcases emit_steers hSteered₁.cell hQuiet
      (.ofOutcome false outcome) with
    ⟨s₂, hEmit, hSteered₂⟩
  rcases note_steers hSteered₂.cell (.settles outcome) with
    ⟨s₃, hNote, hSteered₃⟩
  let s₄ : Session :=
    { s₃ with
      tasks := s₃.tasks.modify cell.emitter.task fun c =>
        { c with care := .settled :: c.care } }
  have hSteered₄ : s₃.Steered d _ s₄ :=
    ⟨⟨_, _, _, _, _, rfl⟩, fun _ _ => rfl, hSteered₃.cell⟩
  refine ⟨s₄, _, ((hSteered₁.trans hSteered₂).trans
    hSteered₃).trans hSteered₄, fun hSettle => ?_⟩
  refine .step hState ((Leads.of_eq hEmit).bind ?_)
  refine .step (row_eq hSteered₂.cell) (.step hNote ?_)
  refine .step rfl ?_
  simp only [hOutput]
  exact hSettle.discard

/-
  A driver that concludes by an outcome ends its task with
  it.
-/
theorem leads_conclude
    {a g : Ref}
    {outcome : Outcome}
    (h : s.drivers[d]? = some cell)
    (hQuiet : cell.emitter.listener = none)
    (hOutput : cell.output = some f)
    (hReads : s.Reads a g)
    (hSettled : s.SettledAs g outcome) :
    ∃ s₁ cell', s.Steered d cell' s₁ ∧
      ∀ {b s'},
        Leads (fun c => Future.settle c f outcome) s₁
          (.ok b) s' →
        Leads (fun c => conclude c d (.awaiter a)) s
          (.ok ()) s' := by
  rcases note_steers h .concludes with ⟨s₁, hNote, hSteered₁⟩
  rcases leads_finish hSteered₁.cell hQuiet hOutput outcome with
    ⟨s₂, cell', hSteered₂, hFinish⟩
  refine ⟨s₂, cell', hSteered₁.trans hSteered₂,
    fun hSettle => ?_⟩
  have hRetains : Session.Retains Footprint.none s s₁ :=
    hSteered₁.retains
  have hResult := Awaiter.result_eq
    (hRetains.reads hReads)
    (hRetains.settledAs _ _ hSettled)
  refine .step hNote ((Leads.of_eq hResult).attempt.bind ?_)
  cases outcome with
  | fulfilled v => exact hFinish hSettle
  | rejected e => exact hFinish hSettle

------------------------------------------------------------
-- Waiting
------------------------------------------------------------

end Driver

namespace Awaiter

variable {s : Session}
variable {a f : Ref}

/- The awaiter of a pending future has it keep the callback. -/
theorem register_eq
    (hQuiet : s.Quiet a f)
    (hPending : ¬ s.Settled f)
    (w : Closure)
    (caller : Caller) :
    register caller (.awaiter a) w s =
      some (.ok (), s.watching f w) := by
  rcases hQuiet with ⟨captured, hRow, hKeeps⟩
  have hEnd : Table.awaiters.row a s =
      some (.ok (.future f captured), s) := by
    have hGet : s.awaiters.getD a default =
        .future f captured := by
      simp [Array.getD_eq_getD_getElem?, hRow]
    rw [← hGet]
    rfl
  have hNone : Future.settlement? f s = some (.ok none, s) := by
    have hCell : (s.futures.getD f default).settlement = none :=
      Option.not_isSome_iff_eq_none.mp hPending
    rw [← hCell]
    rfl
  have hWatch : Future.watch caller f w s =
      some (.ok (), s.watching f w) :=
    bind_of_end hNone
  refine step_eq hEnd (step_eq (a := s.ambient) rfl ?_)
  simp only [hKeeps, Bool.false_eq_true, if_false]
  exact hWatch

/- Asking who keeps a callback changes nothing. -/
theorem keeper_eq
    (hReads : s.Reads a f) :
    ∃ keeper, keeper? (.awaiter a) s =
      some (.ok keeper, s) := by
  rcases row_eq hReads with ⟨captured, hRow⟩
  have hEnd : Table.awaiters.row a s =
      some (.ok (.future f captured), s) := by
    rw [← hRow]
    rfl
  exact ⟨_, step_eq hEnd rfl⟩

/- So does asking what an awaiter reports on. -/
theorem source_eq
    (hReads : s.Reads a f) :
    ∃ source, source? (.awaiter a) s =
      some (.ok source, s) := by
  rcases row_eq hReads with ⟨captured, hRow⟩
  have hEnd : Table.awaiters.row a s =
      some (.ok (.future f captured), s) := by
    rw [← hRow]
    rfl
  exact ⟨_, step_eq hEnd rfl⟩

end Awaiter

namespace Driver

variable {d f a l : Ref}
variable {cell : DriverCell}
variable {s : Session}

/- A driver that registers waits with a new callback. -/
theorem leads_register
    (h : s.drivers[d]? = some cell)
    (hUnposted : s.Quiet a f)
    (hPending : ¬ s.Settled f) :
    ∃ s₁,
      s.Steered d { cell with fired := cell.fired.push false }
        s₁ ∧
      Leads (fun c => register c d (.awaiter a)) s (.ok ())
        (s₁.watching f (.driverResume d cell.fired.size)) := by
  rcases alter_steers h
      (fun c => { c with fired := c.fired.push false }) with
    ⟨s₁, hAlter, hSteered₁⟩
  rcases Awaiter.keeper_eq (hSteered₁.quiet hUnposted).reads
    with ⟨keeper, hKeeper⟩
  rcases note_steers hSteered₁.cell
      (.asks (some cell.fired.size) keeper) with
    ⟨s₂, hNote, hSteered₂⟩
  have hSteered := hSteered₁.trans hSteered₂
  rcases Awaiter.source_eq (hSteered.quiet hUnposted).reads
    with ⟨source, hSource⟩
  let s₃ := s₂.withIncident (.awaits d cell.fired.size source)
  have hSteered₃ : s.Steered d _ s₃ :=
    hSteered.trans
      ⟨⟨_, _, _, _, _, rfl⟩, fun _ _ => rfl, hSteered.cell⟩
  have hRegister := Awaiter.register_eq
    (hSteered₃.quiet hUnposted)
    (by rw [Session.Settled, hSteered₃.futures]
        exact hPending)
    (.driverResume d cell.fired.size)
  refine ⟨s₃, hSteered₃, ?_⟩
  refine .step (row_eq h) (.step hAlter ?_)
  refine .step hKeeper (.step hNote ?_)
  refine .step hSource (.step rfl ?_)
  exact (Leads.of_eq hRegister).attempt.bind (.pure ())

/- A driver that suspends keeps the label to resume at. -/
theorem leads_suspend
    (h : s.drivers[d]? = some cell)
    (hQuiet : cell.emitter.listener = none)
    (hUnposted : s.Quiet a f)
    (hPending : ¬ s.Settled f) :
    ∃ s₁,
      s.Steered d
        { cell with
          current := .label l
          state := .suspended
          fired := cell.fired.push false } s₁ ∧
      Leads (fun c => suspend c d (.awaiter a) (.label l)) s
        (.ok ())
        (s₁.watching f (.driverResume d cell.fired.size)) := by
  rcases alter_steers h ({ · with current := .label l }) with
    ⟨s₁, hAlter, hSteered₁⟩
  rcases setState_steers hSteered₁.cell .suspended with
    ⟨s₂, hState, hSteered₂⟩
  rcases note_steers hSteered₂.cell (.suspends (.label l)) with
    ⟨s₃, hNote, hSteered₃⟩
  let id := (s₃.property? (.label l) "id").getD .undefined
  rcases emit_steers hSteered₃.cell hQuiet (.suspend id) with
    ⟨s₄, hEmit, hSteered₄⟩
  have hSteered := ((hSteered₁.trans hSteered₂).trans
    hSteered₃).trans hSteered₄
  rcases leads_register hSteered₄.cell
      (hSteered.quiet hUnposted)
      (by rw [Session.Settled, hSteered.futures]
          exact hPending) with
    ⟨s₅, hSteered₅, hRegister⟩
  refine ⟨s₅, hSteered.trans hSteered₅, ?_⟩
  refine .step hAlter (.step hState (.step hNote ?_))
  refine .step (a := id) rfl ((Leads.of_eq hEmit).bind ?_)
  exact hRegister

end Driver

end Resumption

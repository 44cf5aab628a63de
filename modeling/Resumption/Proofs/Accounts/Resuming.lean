import Resumption.Proofs.Accounts.Steering

/-
  Resuming: how a driver suspends, goes on and ends, where it
  waits for an awaitable that completes on demand.

  For each step that waits it tells once that the task
  suspends, and asks the awaiter of that step once to be
  called back.  It tells once that the task resumes when it
  is called back.

  Main declarations:
    * `Driver.answers_finish`
    * `Session.Expects`, `Session.registering`
    * `Driver.answers_suspend`
    * `Driver.ensures_resume`, `Driver.ensures_start`
-/

namespace Resumption

open Run

variable {ν : Type}
variable {S : Supply ν}
variable {t d f : Ref}
variable {cell cell' : DriverCell}
variable {n n' k k' : Nat}
variable {s s₁ s' : Session}

------------------------------------------------------------
-- Settling
------------------------------------------------------------

namespace Future

variable {o : Outcome}
variable {P : Session → Prop}
variable {caller : Caller}

/- A future that has settled stays as it is. -/
theorem answers_settle_again
    {o' : Outcome}
    (hSettled : s.outcome? f = some o') :
    (settle caller f o).Answers s false (s = ·) := by
  have hSome : (s.futures.getD f
      default).settlement.isSome = true := by
    rcases Option.map_eq_some_iff.mp hSettled with ⟨_, hRow, _⟩
    rw [hRow]
    rfl
  have hRow : Table.futures.row f s =
      some (.ok (s.futures.getD f default), s) := rfl
  have hSettle : settle caller f o s = some (.ok false, s) := by
    refine step_eq hRow ?_
    rw [if_pos hSome]
    rfl
  exact .of_eq hSettle rfl

/- Nobody is told of a future that nobody waits for. -/
theorem answers_settle_alone
    (hPending : s.outcome? f = none)
    (hAlone : s.watchers f = []) :
    (settle caller f o).Answers s true (· = s.settling f o) := by
  have hNone : (s.futures.getD f default).settlement = none :=
    Option.map_eq_none_iff.mp hPending
  have hEmpty : (s.futures.getD f
      default).watchers.toList = [] := hAlone
  have hRow : Table.futures.row f s =
      some (.ok (s.futures.getD f default), s) := rfl
  have hSettle : settle caller f o s =
      some (.ok true, s.settling f o) := by
    refine step_eq hRow ?_
    rw [hNone, hEmpty]
    rfl
  exact .of_eq hSettle rfl

/- If one waits, that one is told, and that is all. -/
theorem ensures_settle_one
    {w : Closure}
    (hPending : s.outcome? f = none)
    (hOne : s.watchers f = [w])
    (h : (caller.call w []).Ensures (s.settling f o)
      fun _ s' => P s') :
    (settle caller f o).Ensures s fun _ s' => P s' := by
  have hNone : (s.futures.getD f default).settlement = none :=
    Option.map_eq_none_iff.mp hPending
  have hWatchers : (s.futures.getD f
      default).watchers.toList = [w] := hOne
  have hNotify : (notify caller [w] none).Ensures
      (s.settling f o) fun _ s' => P s' := by
    refine Ensures.bind (ensures_attempt.mpr (h.mono ?_))
    intro r s' hP
    cases r <;> exact ensures_pure.mpr hP
  have hNot : ¬ (s.futures.getD f
      default).settlement.isSome = true := by
    rw [hNone]
    exact Bool.false_ne_true
  refine ensures_row_bind.mpr ?_
  change (if (s.futures.getD f default).settlement.isSome = true
    then _ else _ : Run Bool).Ensures s _
  rw [if_neg hNot]
  refine Ensures.bind (ensures_modifyGet.mpr ?_)
  refine ensures_alter_bind.mpr (Ensures.bind ?_)
  change (notify caller (s.futures.getD f
    default).watchers.toList none).Ensures (s.settling f o) _
  rw [hWatchers]
  refine hNotify.mono fun r s' hP => ?_
  cases r with
  | error e => exact hP
  | ok failure =>
      cases failure with
      | none => exact ensures_pure.mpr hP
      | some e => exact ensures_raise.mpr hP

end Future

namespace Driver

variable {rounds depth : Nat}
variable {o : Outcome}

/- What becomes of a task's cleanups is not in its story. -/
theorem passes_tended
    (s : Session)
    (t t' : Ref)
    (c : Care) :
    s.Passes t 0 0
      { s with
        tasks := s.tasks.modify t' fun cell =>
          { cell with care := c :: cell.care } } := by
  have hStory : Session.story
      { s with
        tasks := s.tasks.modify t' fun cell =>
          { cell with care := c :: cell.care } } t =
        s.story t := by
    simp only [Session.story, getD_modify]
    split <;> rfl
  exact
    { aside := ⟨_, _, _, _, _, _, _, _, rfl⟩
      size := Array.size_modify
      suspended := congrArg (·.countP Moment.suspending) hStory
      resumed := congrArg (·.countP Moment.resuming) hStory }

/-
  A driver that ends its task settles its output, and tells of
  no suspension.
-/
theorem answers_finish
    (h : s.drivers[d]? = some cell)
    (hTends : cell.Tends t)
    (ht : t < s.tasks.size)
    (hOutput : cell.output = some f)
    (hPending : s.outcome? f = none)
    (hAlone : s.watchers f = []) :
    (finish (.ofDepth rounds depth) d o).Answers s () fun s' =>
      ∃ s₁, s.Passes t 0 0 s₁ ∧ s' = s₁.settling f o := by
  have hQuiet : (Moment.told
      (.ofOutcome false o)).suspending.toNat = 0 ∧
      (Moment.told (.ofOutcome false o)).resuming.toNat = 0 := by
    cases o <;> exact ⟨rfl, rfl⟩
  refine (answers_setState h hTends ht _).then fun s₁ h₁ => ?_
  have hTends₁ : DriverCell.Tends
      { cell with state := .ofOutcome o } t :=
    ⟨hTends.task, hTends.discreet⟩
  refine (answers_emit h₁.cell hTends₁ (h₁.size ▸ ht) _).then
    fun s₂ h₂ => ?_
  have h₁₂ := h₁.trans h₂
  rw [hQuiet.1, hQuiet.2] at h₁₂
  refine (answers_row h₂.cell).then ?_
  rintro _ rfl
  refine (answers_note h₂.cell hTends₁ (h₁₂.size ▸ ht) _).then
    fun s₃ h₃ => ?_
  have hAll := (h₁₂.toPasses.trans h₃.toPasses).trans
    (passes_tended s₃ t cell.emitter.task .settled)
  refine ensures_alter_bind.mpr ?_
  simp only [hOutput]
  refine Ensures.discard (Ensures.mono
    (Future.answers_settle_alone
      ((hAll.outcome?_eq f).trans hPending)
      ((hAll.watchers_eq f).trans hAlone)) ?_)
  rintro _ s₄ ⟨rfl, rfl⟩
  exact ⟨rfl, _, hAll, rfl⟩

end Driver

------------------------------------------------------------
-- Suspending
------------------------------------------------------------

/- An awaiter was once more asked to call back. -/
def ControlledCell.registered
    (cell : ControlledCell) : ControlledCell :=
  { cell with registrations := cell.registrations + 1 }

/-
  A session in which an awaitable that completes on demand
  was asked to call back, and its future keeps the callback.
-/
def Session.registering
    (s : Session)
    (c f : Ref)
    (w : Closure) : Session :=
  (s.counting c .registered).watching f w

/-
  An awaiter of an awaitable that completes on demand, and
  of the pending future behind it.
-/
structure Session.Expects
    (s : Session)
    (a c f : Ref) : Prop where
  row : s.awaiters[a]? = some (.controlled c)
  made : c < s.controlled.size
  behind : (s.controlled.getD c default).future = f
  pending : s.outcome? f = none

theorem Session.Passes.expects
    {a c : Ref}
    (h : s.Passes t n k s')
    (hExpects : s.Expects a c f) :
    s'.Expects a c f where
  row := by
    have hRetains : Session.Retains Footprint.none s s' :=
      h.retains
    exact hRetains.awaiter _ _ hExpects.row
  made := h.controlled ▸ hExpects.made
  behind := h.controlled ▸ hExpects.behind
  pending := (h.outcome?_eq f).trans hExpects.pending

namespace Awaiter

variable {a c : Ref}
variable {caller : Caller}

/- Who waits for a pending future is kept. -/
theorem answers_registerFuture
    (hPending : s.outcome? f = none)
    (w : Closure) :
    (registerFuture caller f false w).Answers s ()
      (· = s.watching f w) := by
  have hNone : (s.futures.getD f default).settlement = none :=
    Option.map_eq_none_iff.mp hPending
  have hSettlement : Future.settlement? f s =
      some (.ok none, s) := by
    rw [← hNone]
    rfl
  refine .of_eq (step_eq (a := s.ambient) rfl ?_) rfl
  exact bind_of_end hSettlement

theorem answers_register
    (h : s.Expects a c f)
    (w : Closure) :
    (register caller (.awaiter a) w).Answers s ()
      (· = s.registering c f w) := by
  have hBehind : ((s.counting c .registered).controlled.getD c
      default).future = f := by
    simp only [Session.counting, getD_modify, h.made, and_self,
      if_true]
    exact h.behind
  refine Answers.then (.of_eq (Supply.awaiter_row h.row) rfl) ?_
  rintro _ rfl
  refine ensures_alter_bind.mpr (ensures_row_bind.mpr ?_)
  change (registerFuture caller ((s.counting c
    .registered).controlled.getD c default).future false
      w).Ensures (s.counting c .registered) _
  rw [hBehind]
  exact answers_registerFuture (s := s.counting c .registered)
    h.pending w

/- Nobody is told which future keeps the callback. -/
theorem answers_keeper
    (h : s.awaiters[a]? = some (.controlled c)) :
    (keeper? (.awaiter a)).Answers s none (s = ·) :=
  .of_eq (bind_of_end (Supply.awaiter_row h)) rfl

theorem answers_source
    (h : s.awaiters[a]? = some (.controlled c)) :
    (source? (.awaiter a)).Answers s none (s = ·) :=
  .of_eq (bind_of_end (Supply.awaiter_row h)) rfl

end Awaiter

namespace Driver

variable {rounds depth : Nat}
variable {a c l m : Ref}

/- A driver that registers waits with a new callback. -/
theorem answers_register
    (h : s.drivers[d]? = some cell)
    (hTends : cell.Tends t)
    (ht : t < s.tasks.size)
    (hExpects : s.Expects a c f) :
    (register (.ofDepth rounds depth) d (.awaiter a)).Answers s ()
      fun s' => ∃ s₁,
        s.Steers t d { cell with fired := cell.fired.push false }
          0 0 s₁ ∧
        s' = s₁.registering c f
          (.driverResume d cell.fired.size) := by
  refine (answers_row h).then ?_
  rintro _ rfl
  refine (answers_alter h t _).then fun s₁ h₁ => ?_
  have hTends₁ : DriverCell.Tends
      { cell with fired := cell.fired.push false } t :=
    ⟨hTends.task, hTends.discreet⟩
  have hExpects₁ := h₁.expects hExpects
  refine (Awaiter.answers_keeper hExpects₁.row).then ?_
  rintro _ rfl
  refine (answers_note h₁.cell hTends₁ (h₁.size ▸ ht) _).then
    fun s₂ h₂ => ?_
  have hExpects₂ := h₂.expects hExpects₁
  refine (Awaiter.answers_source hExpects₂.row).then ?_
  rintro _ rfl
  refine ensures_modify_bind.mpr ?_
  have h₃ : s₂.Steers t d
      { cell with fired := cell.fired.push false } 0 0
      (s₂.withIncident (.awaits d cell.fired.size none)) :=
    ⟨.of_tasks ⟨_, _, _, _, _, _, _, rfl⟩, h₂.cell⟩
  have hRegister : (Awaiter.register (.ofDepth rounds depth)
      (.awaiter a) (.driverResume d cell.fired.size)).Answers
        _ () (· = _) :=
    Awaiter.answers_register (h₃.expects hExpects₂) _
  refine Ensures.bind (ensures_attempt.mpr
    (Ensures.mono hRegister ?_))
  rintro _ s₄ ⟨rfl, rfl⟩
  exact ensures_pure.mpr ⟨rfl, _, (h₁.trans h₂).trans h₃, rfl⟩

/-
  A driver that suspends tells so once, keeps the label to
  resume at, and asks once to be called back.
-/
theorem answers_suspend
    (h : s.drivers[d]? = some cell)
    (hTends : cell.Tends t)
    (ht : t < s.tasks.size)
    (hExpects : s.Expects a c f)
    (l : Ref) :
    (suspend (.ofDepth rounds depth) d (.awaiter a)
      (.label l)).Answers s () fun s' => ∃ s₁,
        s.Steers t d
          { cell with
            current := .label l
            state := .suspended
            fired := cell.fired.push false } 1 0 s₁ ∧
        s' = s₁.registering c f
          (.driverResume d cell.fired.size) := by
  refine (answers_alter h t _).then fun s₁ h₁ => ?_
  have hTends₁ : DriverCell.Tends
      { cell with current := .label l } t :=
    ⟨hTends.task, hTends.discreet⟩
  refine (answers_setState h₁.cell hTends₁ (h₁.size ▸ ht)
    .suspended).then fun s₂ h₂ => ?_
  have h₁₂ := h₁.trans h₂
  have hTends₂ : DriverCell.Tends
      { cell with current := .label l, state := .suspended } t :=
    ⟨hTends.task, hTends.discreet⟩
  refine (answers_note h₂.cell hTends₂ (h₁₂.size ▸ ht) _).then
    fun s₃ h₃ => ?_
  have h₁₃ := h₁₂.trans h₃
  let id := (s₃.property? (.label l) "id").getD .undefined
  have hId : (Run.field (.label l) "id").Answers s₃ id (s₃ = ·) :=
    .of_eq rfl rfl
  refine hId.then ?_
  rintro _ rfl
  refine (answers_emit h₃.cell hTends₂ (h₁₃.size ▸ ht) _).then
    fun s₄ h₄ => ?_
  have h₁₄ := h₁₃.trans h₄
  refine Ensures.mono (answers_register h₄.cell hTends₂
    (h₁₄.size ▸ ht) (h₁₄.expects hExpects)) ?_
  rintro _ s' ⟨rfl, s₅, h₅, rfl⟩
  exact ⟨rfl, s₅, h₁₄.trans h₅, rfl⟩

------------------------------------------------------------
-- Resuming
------------------------------------------------------------

/-
  To take the next step is to jump to the label, as part of
  the task; it is told once that the task resumes.
-/
theorem ensures_nextStep
    {post : Except Value Value → Session → Prop}
    (h : s.drivers[d]? = some cell)
    (hTends : cell.Tends t)
    (ht : t < s.tasks.size)
    (hMachine : cell.machine = .machine m)
    (hFirst : cell.first = none)
    (hCurrent : cell.current = .label l)
    (hJump : ∀ s₁, s.Steers t d cell 0 1 s₁ →
      (Label.jump (.ofDepth rounds depth) m (.label l)).Ensures
        s₁ fun r s₂ => Label.Steps r ∧
          s₂.drivers = s₁.drivers ∧ t < s₂.tasks.size ∧
          ∀ s₃, s₂.Steers t d cell 0 0 s₃ → post r s₃) :
    (nextStep (.ofDepth rounds depth) d).Ensures s post := by
  have hTrue : (Value.label l).truthy = true := rfl
  refine (answers_row h).then ?_
  rintro _ rfl
  simp only [hFirst, hCurrent, hTrue, Bool.not_true,
    Bool.false_eq_true, if_false]
  let id := (s.property? (.label l) "id").getD .undefined
  have hId : (Run.field (.label l) "id").Answers s id (s = ·) :=
    .of_eq rfl rfl
  refine hId.then ?_
  rintro _ rfl
  refine (answers_emit h hTends ht (.resume id)).then
    fun s₁ h₁ => ?_
  rcases hasSettled_eq h₁.cell with ⟨ended, hEnded⟩
  have hLanding : (jump (.ofDepth rounds depth) d
      (.label l)).Ensures s₁
        fun r s₃ => Label.Steps r ∧ post r s₃ := by
    refine (Answers.of_eq (P := (s₁ = ·)) hEnded rfl).then ?_
    rintro _ rfl
    refine (answers_note h₁.cell hTends (h₁.size ▸ ht) _).then
      fun s₂ h₂ => ?_
    have h₁₂ := h₁.trans h₂
    refine (answers_row h₂.cell).then ?_
    rintro _ rfl
    rw [hMachine, hTends.task]
    have h₃ : s₂.Steers t d cell 0 0 (entering t s₂) :=
      ⟨.of_tasks ⟨_, _, _, _, _, _, _, rfl⟩, h₂.cell⟩
    refine Ensures.bind (ensures_attempt.mpr
      (ensures_withTask.mpr ?_))
    refine (hJump _ (h₁₂.trans h₃)).mono ?_
    rintro r s₄ ⟨hSteps, hDrivers, ht₄, hPost⟩
    have hCell₄ : s₄.drivers[d]? = some cell :=
      hDrivers ▸ h₃.cell
    have h₅ : s₄.Steers t d cell 0 0
        { s₄ with task := s₂.task, home := s₂.home } :=
      ⟨.of_tasks ⟨_, _, _, _, _, _, _, rfl⟩, hCell₄⟩
    refine (answers_note h₅.cell hTends (h₅.size ▸ ht₄) _).then
      fun s₆ h₆ => ?_
    have hAfter := hPost s₆ (h₅.trans h₆)
    cases r with
    | ok step => exact ensures_pure.mpr ⟨hSteps, hAfter⟩
    | error e => exact ensures_raise.mpr ⟨hSteps, hAfter⟩
  refine Ensures.bind (hLanding.mono ?_)
  rintro r s₃ ⟨hSteps, hPost⟩
  cases r with
  | error e => exact hPost
  | ok step =>
      change (if step.isStep = true then _ else _ :
        Run Value).Ensures s₃ post
      rw [if_pos (hSteps step rfl)]
      exact ensures_pure.mpr hPost

/-
  A driver that is called back while it sleeps jumps to its
  label, and proceeds with what that comes to.
-/
theorem ensures_resume
    {callback out : Ref}
    {P : Session → Prop}
    (h : s.drivers[d]? = some cell)
    (hTends : cell.Tends t)
    (ht : t < s.tasks.size)
    (hDozes : cell.Dozes m l callback out)
    (hJump : ∀ s₁, s.Steers t d (cell.woken callback) 0 1 s₁ →
      (Label.jump (.ofDepth rounds depth) m (.label l)).Ensures
        s₁ fun r s₂ => Label.Steps r ∧
          s₂.drivers = s₁.drivers ∧ t < s₂.tasks.size ∧
          ∀ s₃, s₂.Steers t d (cell.woken callback) 0 0 s₃ →
            (proceed (.ofDepth rounds depth) d r).Ensures s₃
              fun _ s' => P s') :
    (resume (.ofDepth rounds depth) d callback
      .undefined).Ensures s fun _ s' => P s' := by
  have hState : (cell.state != .suspended) = false := by
    rw [hDozes.state]
    rfl
  have hFalse : Value.undefined.truthy = false := rfl
  refine (answers_row h).then ?_
  rintro _ rfl
  simp only [hDozes.fired, hState, Bool.or_self,
    Bool.false_eq_true, if_false, hFalse]
  refine (answers_alter h t _).then fun s₁ h₁ => ?_
  have hTends₁ : DriverCell.Tends
      { cell with
        fired := cell.fired.setIfInBounds callback true } t :=
    ⟨hTends.task, hTends.discreet⟩
  rw [advance_eq]
  refine (answers_setState h₁.cell hTends₁ (h₁.size ▸ ht)
    .running).then fun s₂ h₂ => ?_
  have h₁₂ := h₁.trans h₂
  have hTends₂ : (cell.woken callback).Tends t :=
    ⟨hTends.task, hTends.discreet⟩
  refine Ensures.bind (ensures_attempt.mpr
    (ensures_nextStep h₂.cell hTends₂ (h₁₂.size ▸ ht)
      hDozes.machine hDozes.first hDozes.current ?_))
  intro s₃ h₃
  refine (hJump s₃ (h₁₂.trans h₃)).mono ?_
  rintro r s₄ ⟨hSteps, hDrivers, ht₄, hProceed⟩
  exact ⟨hSteps, hDrivers, ht₄, hProceed⟩

------------------------------------------------------------
-- Starting
------------------------------------------------------------

/- A driver before it takes the first step of a task. -/
def starting
    (m : Ref)
    (first : Value)
    (em : Emitter) : DriverCell where
  machine := .machine m
  state := .notStarted
  first := some first
  current := .undefined
  fired := #[]
  early := none
  output := none
  emitter := em

/- The first step is taken without a jump. -/
theorem answers_firstStep
    {first : Value}
    (h : s.drivers[d]? = some cell)
    (hFirst : cell.first = some first)
    (t : Ref) :
    (nextStep (.ofDepth rounds depth) d).Answers s first
      (s.Steers t d { cell with first := none } 0 0) := by
  refine (answers_row h).then ?_
  rintro _ rfl
  simp only [hFirst]
  refine (answers_alter h t _).then fun s₁ h₁ => ?_
  exact ensures_pure.mpr ⟨rfl, h₁⟩

/- The output of a task that has not ended is a new future. -/
theorem answers_makeOutput
    (h : s.drivers[d]? = some cell)
    (hEarly : cell.early = none) :
    (makeOutput d).Answers s s.futures.size
      (· = { s.withFuture (.fresh none) with
        drivers := s.drivers.modify d
          ({ · with output := some s.futures.size }) }) := by
  refine (answers_row h).then ?_
  rintro _ rfl
  simp only [hEarly]
  exact Answers.of_eq rfl rfl

/-
  A driver that starts with a step that waits suspends once,
  and has a new future for its output.
-/
theorem ensures_start
    {first : Value}
    {em : Emitter}
    (hStep : first.step? =
      some (.suspend (.awaiter a) (.label l)))
    (hTask : em.task = t)
    (hDiscreet : em.Discreet)
    (ht : t < s.tasks.size)
    (hExpects : s.Expects a c f) :
    (start (.ofDepth rounds depth) (.machine m) first em).Ensures
      s fun _ s' => ∃ s₁ cell,
        s.Steers t s.drivers.size cell 1 0 s₁ ∧
        cell.Tends t ∧ cell.Dozes m l 0 s.futures.size ∧
        s' = (s₁.registering c f
          (.driverResume s.drivers.size 0)).withFuture
            (.fresh none) := by
  let d := s.drivers.size
  let cell₀ := starting m first em
  have hTends : ∀ cell : DriverCell, cell.emitter = em →
      cell.Tends t :=
    fun cell hSame => ⟨hSame ▸ hTask, hSame ▸ hDiscreet⟩
  have h₁ : s.Steers t d cell₀ 0 0
      { s with drivers := s.drivers.push cell₀ } :=
    ⟨.of_tasks ⟨_, _, _, _, _, _, _, rfl⟩, by simp [d]⟩
  refine ensures_alloc_bind.mpr ?_
  rw [advance_eq]
  have hAdvance : (setState d .running >>= fun _ =>
      (nextStep (.ofDepth rounds depth) d).attempt >>=
        proceed (.ofDepth rounds depth) d).Answers
      { s with drivers := s.drivers.push cell₀ } () fun s' =>
        ∃ s₁, s.Steers t d
          { cell₀ with
            first := none
            current := .label l
            state := .suspended
            fired := #[false] } 1 0 s₁ ∧
          s' = s₁.registering c f (.driverResume d 0) := by
    refine (answers_setState h₁.cell (hTends _ rfl)
      (h₁.size ▸ ht) .running).then fun s₂ h₂ => ?_
    have h₁₂ := h₁.trans h₂
    refine Ensures.bind (ensures_attempt.mpr (Ensures.mono
      (answers_firstStep h₂.cell rfl t) ?_))
    rintro _ s₃ ⟨rfl, h₃⟩
    have h₁₃ := h₁₂.trans h₃
    change (proceed (.ofDepth rounds depth) d
      (.ok first)).Ensures s₃ _
    simp only [proceed, hStep]
    refine Ensures.mono (answers_suspend h₃.cell (hTends _ rfl)
      (h₁₃.size ▸ ht) (h₁₃.expects hExpects) l) ?_
    rintro _ s₄ ⟨rfl, s₅, h₅, rfl⟩
    exact ⟨rfl, s₅, h₁₃.trans h₅, rfl⟩
  refine Answers.then hAdvance ?_
  rintro _ ⟨s₁, hSteers, rfl⟩
  have hSize : (s₁.registering c f
      (.driverResume d 0)).futures.size = s.futures.size := by
    rw [← hSteers.futures]
    exact Session.size_watching ..
  have hCell : (s₁.registering c f
      (.driverResume d 0)).drivers[d]? = _ := hSteers.cell
  refine Answers.then (answers_makeOutput hCell rfl) ?_
  rintro _ rfl
  rw [hSize]
  refine ensures_pure.mpr ⟨
    { s₁ with
      drivers := s₁.drivers.modify d
        ({ · with output := some s.futures.size }) },
    _, hSteers.trans ⟨.of_tasks ⟨_, _, _, _, _, _, _, rfl⟩,
      (altered_steers hSteers.cell _).cell⟩, hTends _ rfl, ?_,
    rfl⟩
  exact
    { state := rfl
      current := rfl
      fired := rfl
      machine := rfl
      first := rfl
      output := rfl }

end Driver

end Resumption

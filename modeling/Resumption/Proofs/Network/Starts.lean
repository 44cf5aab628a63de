import Resumption.Proofs.Network.Turns
import Resumption.Proofs.Routine.Adequacy

/-
  How a routine is started as a task.

  The first turn is taken without a driver: a routine that
  ends at once is a settled future, and one that hands off
  at once is the future that it hands off to.  Otherwise the
  task has a driver, which waits, and an output of its own.

  Main declarations:
    * `Setting.Starts`
    * `Routine.starts`
-/

namespace Resumption

open Run Setting
open Direct (Stepped landed)

variable {ν : Type}
variable {s s₁ : Session}

------------------------------------------------------------
-- Starting
------------------------------------------------------------

/-
  A task that is started sooner or later has an output, which
  settles as a reading said.
-/
inductive Setting.Starts
    (E : Setting ν)
    (act : Caller → Run Value)
    (s : Session) :
    Except (Stop ν) Value → Reading ν → Ref → Session →
      Prop where
  | ends
      {s₁ id outcome o R}
      (hLeads : Leads act s
        (.ok (.future s₁.futures.size))
        (s₁.withFuture (.fresh (some ⟨id, outcome⟩))))
      (hGoes : E.Goes .none s.drivers.size s s₁)
      (hAgrees : E.Agrees s₁ R)
      (hMatches : E.Matches s₁ o outcome.toExcept) :
      Starts E act s o R s₁.futures.size
        (s₁.withFuture (.fresh (some ⟨id, outcome⟩)))
  | lends
      {s₁ x fate R}
      (hLeads : Leads act s (.ok (.future (E.place x))) s₁)
      (hGoes : E.Goes .none s.drivers.size s s₁)
      (hAgrees : E.Agrees s₁ R)
      (hFate : E.fates x = some fate) :
      Starts E act s (fate.result x) (R.awaiting x)
        (E.place x) s₁
  | waits
      {G s₁ w x o R R'}
      (hLeads : Leads act s
        (.ok (.future s₁.futures.size))
        ((s₁.watching (E.place x) w).withFuture (.fresh none)))
      (hCalls : w.driver? = some s.drivers.size)
      (hGoes : E.Goes .none s.drivers.size s s₁)
      (hDriver : s.drivers.size < s₁.drivers.size)
      (hAgrees : E.Agrees s₁ R)
      (hPending : ¬ s₁.Settled (E.place x))
      (hFated : (E.fates x).isSome = true)
      (hStuck : E.fates x = some .never →
        o = .error (.stuck x) ∧ R' = R.awaiting x)
      (hFoot : ∀ c, G c → s₁.Has c ∧ ¬ s.Has c)
      (hRest : ∀ s₂, E.Rests G s₁ s₂ →
        s₂.drivers[s.drivers.size]? =
          s₁.drivers[s.drivers.size]? →
        s₂.Settled (E.place x) →
        E.Drives s.drivers.size s₁.futures.size G
          (fun c => c.call w []) s₂ o R') :
      Starts E act s o R' s₁.futures.size
        ((s₁.watching (E.place x) w).withFuture (.fresh none))

------------------------------------------------------------
-- What a Task Is Given
------------------------------------------------------------

/- A session with one more machine, builder and task. -/
def Session.furnished
    (s : Session)
    (checks captured : Bool) : Session :=
  { s.withMachine checks with
    builders := s.builders.push
      ⟨.machine s.machines.size, .bool captured⟩
    tasks := s.tasks.push ⟨[], []⟩ }

/- What the next task's code is run with. -/
def Outlook.settingAt
    (O : Outlook ν)
    (place : ν → Ref)
    (detached : Prop)
    (s : Session) : Setting ν :=
  { O with
    place := place
    machine := s.machines.size
    builder := s.builders.size
    detached := detached }

/-
  A session that suits an outlook: there is no ambient
  context that might be kept, labels are in order, the
  resources are at hand, and no future settled but as it was
  to.
-/
structure Outlook.Suits
    (O : Outlook ν)
    (place : ν → Ref)
    (detached : Prop)
    (s : Session) : Prop where
  ambient : ¬ detached → s.ambient.truthy = false
  tidy : s.Tidy
  resource : ∀ r release, O.releases r = some release →
    s.resources[r]? =
      some (.custom (.client fun _ => release.code))
  fated : ∀ x fate, O.fates x = some fate →
    place x < s.futures.size ∧
      ∀ outcome, s.SettledAs (place x) outcome →
        fate.Allows outcome

namespace Setting

variable {E : Setting ν}
variable {F : Footprint}

/- One more machine, builder and task, for a new driver. -/
theorem goes_furnished
    (E : Setting ν)
    (F : Footprint)
    (d : Ref)
    (s : Session)
    (checks captured : Bool) :
    E.Goes F d s (s.furnished checks captured) := by
  have hMachine := E.moves_withMachine s checks
  refine (hMachine.any.goes d).then ?_
  exact
    { retains :=
        { Session.Retains.refl (¬ F ·) (s.withMachine checks) with
          builder := by
            intro b row hRow
            have hOld : b ≠ s.builders.size :=
              Nat.ne_of_lt (Array.getElem?_eq_some_iff.mp hRow).1
            simp only [Session.furnished, Session.withMachine,
              Array.getElem?_push, if_neg hOld]
            exact hRow
          same := fun c _ _ => by cases c <;> rfl }
      ambient := rfl
      contexts := rfl
      futures := rfl
      deferreds := rfl
      drivers := fun _ _ => rfl
      grown := Nat.le_refl _
      foreign := fun _ _ => rfl }

/- What is told of tasks is no matter, nor are serial numbers. -/
theorem goes_aside
    (E : Setting ν)
    (F : Footprint)
    (d : Ref)
    {s s' : Session}
    (h : ∃ objects events chronicle task home tasks,
      s' = { s with
        objects := objects
        events := events
        chronicle := chronicle
        task := task
        home := home
        tasks := tasks }) :
    E.Goes F d s s' := by
  rcases h with ⟨_, _, _, _, _, _, rfl⟩
  exact
    { retains :=
        { Session.Retains.refl (¬ F ·) s with
          same := fun c _ _ => by cases c <;> rfl }
      ambient := rfl
      contexts := rfl
      futures := rfl
      deferreds := rfl
      drivers := fun _ _ => rfl
      grown := Nat.le_refl _
      foreign := fun _ _ => rfl }

/- A session in which a task was made is calm for it. -/
theorem calm_furnished
    {O : Outlook ν}
    {place : ν → Ref}
    {detached : Prop}
    {captured : Bool}
    (h : O.Suits place detached s)
    (hDetached : detached → captured = false) :
    (O.settingAt place detached s).Calm
      (s.furnished O.checks captured) where
  ambient := h.ambient
  machine := by
    simp [Session.furnished, Session.withMachine,
      Outlook.settingAt]
  checks := by
    simp [Session.furnished, Session.withMachine,
      Outlook.settingAt]
  tidy := by
    have hMachine :=
      (O.settingAt place detached s).moves_withMachine s
        O.checks
    exact hMachine.retains.tidy h.tidy
  builder :=
    ⟨.bool captured, by
      simp [Session.furnished, Session.withMachine,
        Outlook.settingAt], hDetached⟩
  resource := h.resource
  fated := h.fated

end Setting

------------------------------------------------------------
-- Launching
------------------------------------------------------------

section Launch

variable {m b : Value}
variable {code : Code}
variable {em : Emitter}

/- A request is done, and that is all. -/
theorem Run.Leads.request
    {r : Request Program}
    {v : Value}
    (h : Leads (fun c => r.perform c) s (.ok v) s₁) :
    Leads (fun c => (Program.request r).run c) s (.ok v) s₁ :=
  h.bind (.pure v)

/- A first step that is one, or a failure to produce it. -/
theorem Task.leads_firstStep
    {r : Except Value Value}
    (hSteps : Label.Steps r)
    (h : Leads (fun c => c.call
      (.applied (.client code) [b]) []) s r s₁) :
    Leads (fun c => Task.firstStep c
      (.applied (.client code) [b])) s r s₁ := by
  cases r with
  | error e => exact h.bind_error
  | ok step =>
      refine h.bind ?_
      simp only [hSteps step rfl, if_true]
      exact .pure step

/- What is no step is reported, whether jumps check or not. -/
theorem Task.leads_firstStep_malformed
    (code : Code)
    {v : Value}
    (hNot : v.isStep = false)
    (h : Leads (fun c => c.call
      (.applied (.client code) [b]) []) s (.ok v) s₁) :
    ∃ id e, e.Reports (.malformedStep id v) ∧
      Leads (fun c => Task.firstStep c
        (.applied (.client code) [b])) s (.error e)
        (s₁.numbering 2) := by
  rcases Run.defect_eq (α := Value)
      (.malformedStep (.int (-1)) v) s₁ with
    ⟨e, hReports, hDefect⟩
  refine ⟨_, e, hReports, ?_⟩
  refine h.bind ?_
  simp only [hNot, Bool.false_eq_true, if_false]
  exact .of_eq fun _ => hDefect

/- What becomes of a task by how its first turn ended. -/
def Task.follow
    (caller : Caller)
    (m : Value)
    (em : Emitter) : Except Value Value → Run Value
  | .error e => do
      em.emit caller (.failure e true)
      return .future (← Future.settled (.rejected e))
  | .ok first =>
      match first.step? with
      | none => return .undefined
      | some (.finish v) => do
          em.emit caller (.success true)
          return .future (← Future.settled (.fulfilled v))
      | some (.handOff future) => do
          em.emit caller .handOff
          return future
      | some (.suspend _ _) => Driver.start caller m first em

/-
  A task's first turn is taken as part of the task, after
  its start was told.
-/
theorem Task.leads_launch
    {r : Except Value Value}
    {out : Except Value Value}
    {s₂ s₃ : Session}
    (hQuiet : em.listener = none)
    (hFirst : Leads (fun c => Task.firstStep c
        (.applied (.client code) [b]))
      (entering em.task (s.recorded em.task (.told .start)))
      r s₁)
    (hSame : s₂ = { s₁ with task := s.task, home := s.home })
    (hRest : Leads (fun c => Task.follow c m em r)
      s₂ out s₃) :
    Leads (fun c => Task.launch c m
      (.applied (.client code) [b]) em) s out s₃ := by
  subst hSame
  refine (Leads.of_eq fun c =>
    Emitter.emit_eq hQuiet c .start s).bind ?_
  refine (Leads.withTask em.task hFirst).attempt.bind ?_
  cases r with
  | error e => exact hRest
  | ok step => exact hRest

end Launch

------------------------------------------------------------
-- Starting a Driver
------------------------------------------------------------

namespace Setting

/- A new driver is no matter to the others. -/
theorem goes_withDriver
    (E : Setting ν)
    (F : Footprint)
    (s : Session)
    (cell : DriverCell) :
    E.Goes F s.drivers.size s
      { s with drivers := s.drivers.push cell } where
  retains :=
    { Session.Retains.refl (¬ F ·) s with
      same := fun c _ _ => by cases c <;> rfl }
  ambient := rfl
  contexts := rfl
  futures := rfl
  deferreds := rfl
  drivers d' hNe := by
    simp only [Array.getElem?_push, if_neg hNe]
  grown := by simp
  foreign _ _ := rfl

end Setting

namespace Driver

variable {m a g l : Ref}
variable {first : Value}
variable {em : Emitter}

/-
  A driver that is started with a step that suspends waits,
  and its output is pending.
-/
theorem leads_start
    (E : Setting ν)
    (F : Footprint)
    (hQuiet : em.listener = none)
    (hStep : first.step? =
      some (.suspend (.awaiter a) (.label l)))
    (hUnposted : s.Quiet a g)
    (hPending : ¬ s.Settled g) :
    ∃ s₁ cell,
      E.Goes F s.drivers.size s s₁ ∧
      s₁.drivers[s.drivers.size]? = some cell ∧
      cell.Serves m s₁.futures.size ∧ cell.Sleeps l 0 ∧
      (∀ own, s₁.memory own = s.memory own) ∧
      Leads (fun c => start c (.machine m) first em) s
        (.ok (.future s₁.futures.size))
        ((s₁.watching g
          (.driverResume s.drivers.size 0)).withFuture
            (.fresh none)) := by
  let d := s.drivers.size
  let cell₀ : DriverCell :=
    { machine := .machine m
      state := .notStarted
      first := some first
      current := .undefined
      fired := #[]
      early := none
      output := none
      emitter := em }
  let s₀ : Session := { s with drivers := s.drivers.push cell₀ }
  have hCell₀ : s₀.drivers[d]? = some cell₀ := by
    simp [s₀, d]
  have hGoes₀ := E.goes_withDriver F s cell₀
  rcases setState_steers hCell₀ .running with
    ⟨s₁, hState, hSteered₁⟩
  rcases alter_steers hSteered₁.cell ({ · with first := none })
    with ⟨s₂, hAlter, hSteered₂⟩
  have hSteered := hSteered₁.trans hSteered₂
  have hUnposted₀ : s₀.Quiet a g := hUnposted
  rcases leads_suspend (l := l) hSteered₂.cell hQuiet
      (hSteered.quiet hUnposted₀)
      (by rw [Session.Settled, hSteered.futures]
          exact hPending) with
    ⟨s₃, hSteered₃, hSuspend⟩
  have hAll := hSteered.trans hSteered₃
  let w : Closure := .driverResume d 0
  let f := s₃.futures.size
  let s₄ : Session :=
    { s₃ with
      drivers := s₃.drivers.modify d
        ({ · with output := some f }) }
  have hSteered₄ := hAll.trans
    (altered_steers hAll.cell ({ · with output := some f }))
  refine ⟨s₄, _, hGoes₀.then (.of_steered E F hSteered₄),
    hSteered₄.cell, ⟨rfl, rfl, rfl, hQuiet⟩, ⟨rfl, rfl, rfl⟩,
    fun own => hSteered₄.memory own, ?_⟩
  have hAdvance :
      Leads (fun c => advance c d) s₀ (.ok ())
        (s₃.watching g w) := by
    simp only [advance_eq]
    have hNext :
        Leads (fun c => nextStep c d) s₁ (.ok first) s₂ :=
      .step (row_eq hSteered₁.cell) (.step hAlter (.pure first))
    refine .step hState (hNext.attempt.bind ?_)
    simp only [proceed, hStep]
    exact hSuspend
  have hCell₃ : (s₃.watching g w).drivers[d]? = _ := hAll.cell
  have hNew : Future.new (s₃.watching g w) =
      some (.ok f, (s₃.watching g w).withFuture
        (.fresh none)) := by
    have hSize : f = (s₃.watching g w).futures.size :=
      (s₃.size_watching g w).symm
    rw [hSize]
    rfl
  have hOutput : Leads (fun _ => makeOutput d)
      (s₃.watching g w) (.ok f)
      ((s₄.watching g w).withFuture (.fresh none)) :=
    .step (row_eq hCell₃) (.step hNew (.step rfl (.pure f)))
  refine .step (a := d) rfl (hAdvance.bind ?_)
  exact hOutput.bind (.pure _)

end Driver

------------------------------------------------------------
-- Starting a Routine
------------------------------------------------------------

section Start

variable {O : Outlook ν}
variable {place : ν → Ref}
variable {routine : Routine ν}
variable {captured : Bool}
variable {assertions taskId context : Value}
variable {o : Except (Stop ν) Value}
variable {outcome : Outcome}
variable {R' : Reading ν}

/- A task is launched on a machine and a builder of its own. -/
theorem Routine.leads_task
    {checks : Bool}
    {v : Value}
    (hChecks : checks =
      (assertions.isMissing || assertions.truthy))
    (h : Leads (fun c => Task.launch c
        (.machine s.machines.size)
        (.applied (.client (Code.ofValue fun b =>
          routine.code place b)) [.builder s.builders.size])
        { (TaskOptions.quiet taskId context).emitter with
          task := s.tasks.size })
      (s.furnished checks captured) (.ok v) s₁) :
    Leads (fun c => (routine.task place captured assertions
        taskId context).run c) s (.ok v)
      (s₁.recorded s.tasks.size (.answers v)) := by
  subst hChecks
  refine .request (.step rfl (.step rfl (.step rfl ?_)))
  exact h.bind (.step rfl (.pure v))

/- What is told, and a future that has settled for it. -/
theorem Future.leads_settled
    {em : Emitter}
    (hQuiet : em.listener = none)
    (event : Event)
    (outcome : Outcome)
    (s : Session) :
    Leads (fun c => do
        em.emit c event
        return Value.future (← Future.settled outcome)) s
      (.ok (.future s.futures.size))
      (Session.withFuture
        (s.recorded em.task (.told event)).stamped
        (.fresh (some ⟨s.stamp, outcome⟩))) :=
  (Leads.of_eq fun c =>
    Emitter.emit_eq hQuiet c event s).bind
      (.step rfl (.pure _))

end Start

------------------------------------------------------------
-- The First Turn
------------------------------------------------------------

/-
  A task that was told to start takes its first turn in a
  session, and what becomes of it follows from there.
-/
structure Task.Begins
    (E : Setting ν)
    (act first : Caller → Run Value)
    (m : Value)
    (em : Emitter)
    (s s₀ : Session) : Prop where
  quiet : em.listener = none
  goes : E.Goes .none s.drivers.size s s₀
  ends : ∀ r s' v s₁, Leads first s₀ r s' →
    Leads (fun c => Task.follow c m em r)
      { s' with task := s.task, home := s.home } (.ok v) s₁ →
    Leads act s (.ok v) (s₁.recorded em.task (.answers v))

namespace Task.Begins

variable {E : Setting ν}
variable {act first : Caller → Run Value}
variable {m : Value}
variable {em : Emitter}
variable {s₀ s' : Session}
variable {step e : Value}
variable {stop : Stop ν}
variable {o : Except (Stop ν) Value}
variable {R R' : Reading ν}
variable {x : ν}
variable {fate : Fate}

/- A task whose code has ended at once is a settled future. -/
theorem ended
    {r : Except Value Value}
    (event : Event)
    (outcome : Outcome)
    (h : Begins E act first m em s s₀)
    (hLeads : Leads first s₀ r s')
    (hFollow : ∀ c, Task.follow c m em r = (do
      em.emit c event
      return .future (← Future.settled outcome)))
    (hGoes : E.Goes .none s.drivers.size s₀ s')
    (hAgrees : E.Agrees s' R)
    (hMatches : E.Matches s' o outcome.toExcept) :
    ∃ f s₁, E.Starts act s o R f s₁ := by
  let s₁ : Session := { s' with task := s.task, home := s.home }
  let s₂ := (s₁.recorded em.task (.told event)).stamped
  let s₃ :=
    s₂.recorded em.task (.answers (.future s₁.futures.size))
  have hTask := h.ends r s' _ _ hLeads (by
    simp only [hFollow]
    exact Future.leads_settled h.quiet event outcome s₁)
  have hAside : E.Goes .none s.drivers.size s' s₃ :=
    E.goes_aside .none _ ⟨_, _, _, _, _, _, rfl⟩
  have hKept : Session.Retains _ s' s₃ := hAside.retains
  exact ⟨_, _, .ends hTask
    ((h.goes.then hGoes).then hAside)
    (hAgrees.of_goes hAside rfl) (hMatches.later hKept)⟩

theorem finishes
    {v : Value}
    (h : Begins E act first m em s s₀)
    (hLeads : Leads first s₀ (.ok step) s')
    (hStep : step.step? = some (.finish v))
    (hGoes : E.Goes .none s.drivers.size s₀ s')
    (hAgrees : E.Agrees s' R) :
    ∃ f s₁, E.Starts act s (.ok v) R f s₁ := by
  refine ended (.success true) (.fulfilled v) h hLeads
    (fun c => ?_) hGoes hAgrees rfl
  simp only [Task.follow, hStep]

theorem fails
    (h : Begins E act first m em s s₀)
    (hLeads : Leads first s₀ (.error e) s')
    (hGoes : E.Goes .none s.drivers.size s₀ s')
    (hAgrees : E.Agrees s' R)
    (hMeans : E.Means s' stop e) :
    ∃ f s₁, E.Starts act s (.error stop) R f s₁ :=
  ended (.failure e true) (.rejected e) h hLeads
    (fun _ => rfl) hGoes hAgrees hMeans

/- A task that hands off at once is that future. -/
theorem handsOff
    (h : Begins E act first m em s s₀)
    (hLeads : Leads first s₀ (.ok step) s')
    (hStep : step.step? =
      some (.handOff (.future (E.place x))))
    (hGoes : E.Goes .none s.drivers.size s₀ s')
    (hAgrees : E.Agrees s' R)
    (hFate : E.fates x = some fate) :
    ∃ f s₁, E.Starts act s (fate.result x) (R.awaiting x)
      f s₁ := by
  let s₁ : Session := { s' with task := s.task, home := s.home }
  let s₂ := (s₁.recorded em.task (.told .handOff)).recorded
    em.task (.answers (.future (E.place x)))
  have hAside : E.Goes .none s.drivers.size s' s₂ :=
    E.goes_aside .none _ ⟨_, _, _, _, _, _, rfl⟩
  have hTask := h.ends _ s' (.future (E.place x))
    (s₁.recorded em.task (.told .handOff)) hLeads (by
      simp only [Task.follow, hStep]
      exact (Leads.of_eq fun c =>
        Emitter.emit_eq h.quiet c .handOff s₁).bind (.pure _))
  exact ⟨_, s₂, .lends hTask
    ((h.goes.then hGoes).then hAside)
    (hAgrees.of_goes hAside rfl) hFate⟩

/- A task that suspends has a driver, which waits. -/
theorem suspends
    {hands : Prop}
    {a l : Ref}
    {G : Footprint}
    (h : Begins E act first (.machine E.machine) em s s₀)
    (hLeads : Leads first s₀ (.ok step) s')
    (hStep : step.step? =
      some (.suspend (.awaiter a) (.label l)))
    (hGoes : E.Goes .none s.drivers.size s₀ s')
    (hDrivers : s'.drivers.size = s.drivers.size)
    (hWaits : E.Waits s' R a x)
    (hStuck : E.fates x = some .never →
      o = .error (.stuck x) ∧ R' = R.awaiting x)
    (hStepped : Stepped o)
    (hFoot : ∀ c, G c → s'.Has c ∧ ¬ s.Has c)
    (hRest : ∀ s₁, E.Rests G s' s₁ →
      s₁.Settled (E.place x) →
      E.Delivers hands G
        (fun c => Label.jump c E.machine (.label l)) s₁ o R') :
    ∃ f s₁, E.Starts act s o R' f s₁ := by
  let d := s.drivers.size
  let s₁ : Session := { s' with task := s.task, home := s.home }
  have hAside : E.Goes .none d s' s₁ :=
    E.goes_aside .none d ⟨_, _, _, _, _, _, rfl⟩
  rcases Driver.leads_start (s := s₁) (m := E.machine)
      E .none h.quiet hStep
      (hWaits.awaits.quiet hWaits.agrees.calm)
      hWaits.pending with
    ⟨s₂, cell, hGoes₂, hCell, hServes, hSleeps, hMemory,
      hStart⟩
  have hSize : s₁.drivers.size = d := hDrivers
  rw [hSize] at hGoes₂ hCell hStart
  let s₃ :=
    s₂.recorded em.task (.answers (.future s₂.futures.size))
  have hBetween : E.Goes .none d s' s₃ :=
    (hAside.then hGoes₂).then
      (E.goes_aside .none d ⟨_, _, _, _, _, _, rfl⟩)
  have hMemory₃ : s₃.memory E.own = s'.memory E.own :=
    hMemory E.own
  have hTask := h.ends _ s' _ _ hLeads (by
    simp only [Task.follow, hStep]
    exact hStart)
  refine ⟨_, _, .waits (G := G) (x := x) (R := R)
    (w := .driverResume d 0) hTask rfl
    ((h.goes.then hGoes).then hBetween)
    (Array.getElem?_eq_some_iff.mp hCell).1
    (hWaits.agrees.of_goes hBetween hMemory₃) ?_
    hWaits.fated hStuck ?_ ?_⟩
  · rw [hBetween.settled_iff]
    exact hWaits.pending
  · intro c hc
    exact ⟨hBetween.retains.has c (hFoot c hc).1, (hFoot c hc).2⟩
  · intro s₄ hRests hSame hSettled
    rcases Driver.turns_resume (hSame.trans hCell) hServes
        hSleeps with
      ⟨s₅, hTurns⟩
    rcases hTurns.enters with ⟨_, hSteered, _⟩
    have hAll : E.Rests G s' s₅ :=
      ((hBetween.rests hWaits.agrees.calm hMemory₃).trans
        hRests).trans (hSteered.rests hRests.calm)
    refine (hRest s₅ hAll ?_).drives hStepped hTurns
    rw [Session.Settled, hSteered.futures]
    exact hSettled

end Task.Begins

------------------------------------------------------------
-- Starting a Routine
------------------------------------------------------------

section Start

variable {O : Outlook ν}
variable {place : ν → Ref}
variable {detached : Prop}
variable {captured : Bool}
variable {assertions : Value}
variable {o : Except (Stop ν) Value}
variable {R' : Reading ν}

/- A routine's task takes its first turn where it was made. -/
theorem Routine.begins
    (routine : Routine ν)
    (taskId context : Value)
    (hDetached : detached → captured = false)
    (hSuits : O.Suits place detached s)
    (hChecks : O.checks =
      (assertions.isMissing || assertions.truthy)) :
    ∃ s₀ em,
      Task.Begins (O.settingAt place detached s)
        (fun c => (routine.task place captured assertions
          taskId context).run c)
        (fun c => Task.firstStep c (.applied (.client
          (Code.ofValue fun b => routine.code place b))
          [.builder s.builders.size]))
        (.machine s.machines.size) em s s₀ ∧
      (O.settingAt place detached s).Agrees s₀
        ⟨s.memory O.own, []⟩ ∧
      s₀.drivers = s.drivers := by
  let E := O.settingAt place detached s
  let t := s.tasks.size
  let em : Emitter :=
    { (TaskOptions.quiet taskId context).emitter with
      task := t }
  let s₁ := s.furnished O.checks captured
  let s₂ := entering t (s₁.recorded t (.told .start))
  have hAside : E.Goes .none s.drivers.size s₁ s₂ :=
    E.goes_aside .none _ ⟨_, _, _, _, _, _, rfl⟩
  refine ⟨s₂, em, ⟨rfl, ?_, ?_⟩, ⟨?_, rfl⟩, rfl⟩
  · exact (goes_furnished E .none s.drivers.size s O.checks
      captured).then hAside
  · intro r s' v s₃ hFirst hRest
    exact leads_task hChecks
      (Task.leads_launch rfl hFirst rfl hRest)
  · exact hAside.calm (calm_furnished hSuits hDetached)

/-
  A routine that is started as a task has an output that
  settles as the routine's reading says.
-/
theorem Routine.starts
    {routine : Routine ν}
    {n : Nat}
    (taskId context : Value)
    (hDetached : detached → captured = false)
    (hHands : routine.HandsOffOnly True (¬ detached))
    (hSuits : O.Suits place detached s)
    (hChecks : O.checks =
      (assertions.isMissing || assertions.truthy))
    (hRead : routine.direct O n ⟨s.memory O.own, []⟩ =
      some (o, R')) :
    ∃ f s', (O.settingAt place detached s).Starts
      (fun c => (routine.task place captured assertions
        taskId context).run c) s (landed o) R' f s' := by
  rcases Routine.begins routine taskId context hDetached hSuits
      hChecks with
    ⟨s₀, em, hBegins, hAgrees₀, hDrivers₀⟩
  let E := O.settingAt place detached s
  have hDelivers : E.Delivers True .none
      (fun c => c.call (.applied (.client (Code.ofValue fun b =>
        routine.code place b)) [.builder s.builders.size]) [])
      s₀ o R' :=
    .call (.client (Routine.delivers E n True routine _ _ R' o
      hHands hRead hAgrees₀.calling))
  cases hDelivers with
  | finishes hLeads hMoves hStep hAgrees =>
      exact hBegins.finishes
        (Task.leads_firstStep (steps_of_step hStep) hLeads)
        hStep (hMoves.goes _) hAgrees
  | @fails _ _ _ s' e stop _ hLeads hMoves hMeans hAgrees =>
      have hStarts := fun stop' (hMeans' : E.Means s' stop' e) =>
        hBegins.fails (Task.leads_firstStep nofun hLeads)
          (hMoves.goes _) hAgrees hMeans'
      cases stop <;> exact hStarts _ hMeans
  | @gives _ _ _ s' v _ hLeads hMoves hNot _ hAgrees =>
      rcases Task.leads_firstStep_malformed
          (Code.ofValue fun b => routine.code place b)
          hNot hLeads with
        ⟨id, e, hReports, hFirst⟩
      have hMore := E.moves_numbering s' 2
      exact hBegins.fails hFirst
        ((hMoves.none_trans hMore).goes _)
        (hAgrees.of_moves hMore rfl) ⟨id, hReports⟩
  | @handsOff _ _ _ s' step x fate _ R _
      hLeads hMoves hStep _ hAgrees hFate hResult hReading =>
      subst hResult hReading
      rw [Direct.landed_eq (Direct.stepped_result x fate)]
      exact hBegins.handsOff
        (Task.leads_firstStep (steps_of_step hStep) hLeads)
        hStep (hMoves.goes _) hAgrees hFate
  | @waits _ G _ _ s' step a l x _ R _
      hLeads hMoves hStep hWaits hStuck hFoot hRest =>
      have hSame : s'.drivers = s₀.drivers :=
        congrArg Backdrop.drivers hMoves.backdrop
      refine hBegins.suspends
        (Task.leads_firstStep (steps_of_step hStep) hLeads)
        hStep (hMoves.goes _) ?_ hWaits ?_
        (Direct.stepped_landed o) ?_ hRest
      · rw [hSame, hDrivers₀]
      · intro hNever
        rcases hStuck hNever with ⟨rfl, hReading⟩
        exact ⟨rfl, hReading⟩
      · intro c hc
        rcases hFoot c hc with ⟨hHas, hNew⟩
        exact ⟨hHas, fun hOld =>
          hNew (hBegins.goes.retains.has c hOld)⟩

end Start

end Resumption

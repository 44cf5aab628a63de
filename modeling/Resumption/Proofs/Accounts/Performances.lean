import Resumption.Proofs.Accounts.Completions
import Resumption.Proofs.Accounts.Meeting
import Resumption.Proofs.Network.Starts

/-
  Performances: a task from when it starts, through whatever
  completions there are.

  The task is started on a machine that is there, or with a
  builder of its own.  Then its sources are completed, in any
  order, as often as anyone likes.

  Main declarations:
    * `Supply.Starts`
    * `Supply.Performs`
    * `Supply.Performs.seated`
-/

namespace Resumption

open Run

/- A session with one more machine, and a builder on it. -/
def Session.machined
    (s : Session)
    (captured : Bool)
    (assertions : Value) : Session :=
  let checks := assertions.isMissing || assertions.truthy
  { s.withMachine checks with
    builders := s.builders.push
      ⟨.machine s.machines.size, .bool captured⟩ }

namespace Supply

variable {ν : Type}
variable (S : Supply ν)

------------------------------------------------------------
-- Performances
------------------------------------------------------------

/- A routine written with a given builder. -/
def on
    (b : Value) : Supply ν :=
  match b with
  | .builder r => { S with builder := some r }
  | _ => S

/-
  A request that starts a task whose body is a routine: on
  the machine, or with a builder of the task's own.
-/
inductive Starts
    (routine : Routine ν)
    (s₀ : Session) : Request Program → Prop where
  | run
      {options}
      (hDiscreet : (TaskOptions.emitter options).Discreet)
      (hReady : S.Ready s₀) :
      Starts routine s₀ (.run (.machine S.machine)
        (fun _ => routine.written S) options)
  | task
      {captured assertions options}
      (hDiscreet : (TaskOptions.emitter options).Discreet)
      (hBuilder : S.builder = some s₀.builders.size)
      (hReady : S.Ready (s₀.machined captured assertions)) :
      Starts routine s₀ (.task captured assertions
        (Code.ofValue fun b => routine.written (S.on b)) options)

/-
  What came of a task once it was started, and its sources
  were completed or failed, in order: with what it was woken,
  how many suspensions were told on each future, and the
  session then.
-/
inductive Performs
    (start : Request Program)
    (s₀ : Session) :
    List (Waking ν) → (Ref → Nat) → Session → Prop where
  | starts
      {rounds depth r s}
      (hRun : start.perform (.ofDepth rounds depth) s₀ =
        some (r, s)) :
      Performs start s₀ []
        (s₀.suspensionsOn s₀.tasks.size · s) s
  | completes
      {past told s x a c f o rounds depth r s'}
      (hEarlier : Performs start s₀ past told s)
      (hOrigin : S.origin x = .controlled a c f)
      (hRun : (Request.settleControlled (.controlled c) o).perform
        (.ofDepth rounds depth) s = some (r, s')) :
      Performs start s₀
        (past ++ S.waking s₀.tasks.size f o s s')
        (fun g => told g + s.suspensionsOn s₀.tasks.size g s') s'

variable {S}
variable {A B : Account ν}
variable {V : View ν}
variable {c c' : Charge ν}
variable {past : List (Waking ν)}
variable {rows : Array ControlledCell}
variable {s s₁ s₂ s' : Session}
variable {n k rounds depth : Nat}
variable {t : Ref}
variable {m : Moment}
variable {em : Emitter}
variable {code : Closure}

------------------------------------------------------------
-- Starting
------------------------------------------------------------

/- A task waits for what it waited for, whatever is noted. -/
theorem Lingers.recorded
    {waits : List ν}
    (h : S.Lingers t s waits)
    (m : Moment) :
    S.Lingers t (s.recorded t m) waits := by
  cases h with
  | goesOn => exact .goesOn
  | waits hBehind hFor => exact .waits hBehind hFor

/- A moment that tells of no suspension and no resumption. -/
theorem Reseated.recorded
    (h : S.Reseated k t A V past c rows s)
    (hSuspending : m.suspending = false)
    (hResuming : m.resuming = false) :
    S.Reseated k t A V past c rows (s.recorded t m) := by
  have hPasses : ∀ ht : t < s.tasks.size,
      s.Passes t 0 0 (s.recorded t m) := by
    intro ht
    have hRecorded := Session.Passes.recorded ht m
    rw [hSuspending, hResuming] at hRecorded
    exact hRecorded
  rcases h with ⟨c', hSeated, hLingers⟩
  refine ⟨c', ?_, hLingers.recorded m⟩
  cases hSeated with
  | ends hShows hTells hAlone =>
      have hAll := hPasses hShows.made
      exact .ends (hShows.passes hAll) hTells (hAlone.passes hAll)
  | waits hShows hPends hAttends =>
      have hAll := hPasses hShows.made
      rcases hPends.goes with ⟨F, A', hRest, hNext⟩
      exact .waits (hShows.passes hAll)
        { hPends with
          goes := ⟨F, A', hRest, hNext.later hAll.retains⟩ }
        { hAttends with
          alone := hAttends.alone.passes hAll
          vacant := hAttends.vacant.passes hAll }

/- A task that ends at once is over. -/
theorem ensures_settled
    {ending : Ending ν}
    {V' : View ν}
    {event : Event}
    (hShows : S.Shows t (c.plus c') (c.plus c').waits
      (c.plus c').waits.length past.length rows s)
    (hStill : c'.waits = [])
    (hTells : A V past ⟨ending, V', [], c.plus c'⟩)
    (hAlone : S.Alone s none)
    (hTask : em.task = t)
    (hDiscreet : em.Discreet)
    (hSuspending : (Moment.told event).suspending = false)
    (hResuming : (Moment.told event).resuming = false)
    (o : Outcome) :
    (do
      em.emit (.ofDepth rounds depth) event
      return Value.future (← Future.settled o) :
        Run Value).Ensures s
      fun _ s' => S.Reseated k t A V past c rows s' := by
  subst hTask
  refine (Emitter.answers_emit hDiscreet hShows.made event).then
    fun s₁ hTold => ?_
  rcases hTold with ⟨hPasses, -⟩
  rw [hSuspending, hResuming] at hPasses
  have hSettled : Future.settled o s₁ =
      some (.ok s₁.futures.size, s₁.stamped.withFuture
        (.fresh (some ⟨s₁.stamp, o⟩))) :=
    rfl
  refine Ensures.bind fun r s₂ hRun => ?_
  cases hSettled.symm.trans hRun
  refine ensures_pure.mpr ⟨c', .ends ?_ hTells ?_, ?_⟩
  · exact (hShows.passes hPasses).stamped.withFuture _
  · exact (hAlone.passes hPasses).of_watchers
      (Session.watchers_fresh s₁.stamped _)
  · rw [hStill]
    exact .goesOn

/-
  What becomes of a task by what its first turn came to seats
  it: it is over, or its new driver waits.
-/
theorem ensures_follow
    {r : Except Value Value}
    (hDemand : S.OnDemand)
    (hShows : S.Shows t .none [] 0 0 rows s₁)
    (hAlone : S.Alone s₁ none)
    (hComes : S.Comes (S.Resumes k) .none A s₁ r s₂)
    (hPasses : s₂.Passes t 0 0 s)
    (hTask : em.task = t)
    (hDiscreet : em.Discreet) :
    (Task.follow (.ofDepth rounds depth) (.machine S.machine) em
      r).Ensures s fun _ s' =>
        S.Reseated k t A (S.view s₁) [] .none rows s' := by
  have hTell : ∀ more R, A (S.view s₁) more R →
      A (S.view s₁) ([] ++ more) (R.after .none) := by
    intro more R hAll
    rw [Report.after_none]
    exact hAll
  rcases hComes.moves with ⟨_, hMove⟩
  have hAlone' : S.Alone s none :=
    (hAlone.moves hShows.ready hMove).passes hPasses
  cases hComes with
  | ends hMoves hStill hEnded hTells =>
      rename_i ending c'
      have hWaits : (Charge.none.plus c').waits = [] := hStill
      have hShows' := (hShows.moves hMoves).passes hPasses
      rw [← hWaits] at hShows'
      have hLength : (Charge.none.plus c').waits.length = 0 :=
        congrArg List.length hWaits
      have hAll := hTell _ _ (hTells [])
      cases hEnded with
      | throws =>
          exact ensures_settled (hLength ▸ hShows')
            hStill hAll hAlone' hTask hDiscreet rfl rfl _
      | finishes hStep =>
          simp only [Task.follow, hStep]
          exact ensures_settled (hLength ▸ hShows')
            hStill hAll hAlone' hTask hDiscreet rfl rfl _
      | handsOff hStep hOrigin =>
          rename_i x f
          rcases hDemand.controlled x with ⟨a, r, g, hControlled⟩
          cases hControlled.symm.trans hOrigin
  | suspends hStep hPauses =>
      rename_i step a l x src c' F' A'
      rcases hPauses.awaits.demanded hDemand with
        ⟨a', r, f, hAwaiter, hOrigin, rfl⟩
      have hReady := hPauses.moves.ready hShows.ready
      have hControlled := hReady.controlled x a' r f hOrigin
      have hExpects : s₂.Expects a r f :=
        ⟨hAwaiter, hControlled.2.1, hControlled.2.2,
          hPauses.pending f rfl⟩
      simp only [Task.follow, hStep]
      have hShows' := (hShows.moves hPauses.moves).passes hPasses
      refine (Driver.ensures_start hStep hTask hDiscreet
        hShows'.made (hPasses.expects hExpects)).mono ?_
      rintro _ _ ⟨s₃, cell, hSteers, hTends, hDozes, rfl⟩
      have hSize : s.futures.size = s₃.futures.size :=
        congrArg Array.size hSteers.futures.symm
      have hBoth := hPasses.trans hSteers.toPasses
      have hMade : f < s₃.futures.size :=
        (hShows'.passes hSteers.toPasses).ready.behind x f
          (by rw [hOrigin]; rfl)
      have hSwap : (s₃.registering r f
          (.driverResume s.drivers.size 0)).withFuture
            (.fresh none) =
          (s₃.withFuture (.fresh none)).registering r f
            (.driverResume s.drivers.size 0) :=
        Session.watching_withFuture
          (s := s₃.counting r .registered) hMade
      rw [hSwap]
      have hVacant : S.Vacant (s₃.withFuture (.fresh none))
          s.futures.size :=
        hSize ▸ Vacant.fresh
          (hShows'.passes hSteers.toPasses).ready
      refine seated_registering (c := .none)
        ((hShows'.passes hSteers.toPasses).withFuture _) hPauses
        hTell hOrigin (hBoth.retains.trans
          (Session.retains_withFuture _ _ _)
          fun _ _ hc => ⟨hc, hc⟩) ?_ ?_ hSteers.cell hTends
        hDozes hVacant
      · rw [Session.outcome?_withFuture]
        exact hBoth.outcome?_eq f
      · exact (hAlone'.passes hSteers.toPasses).of_watchers
          (Session.watchers_fresh s₃ none)

/- To launch a task is to take its first turn and to follow. -/
theorem launch_eq
    (caller : Caller)
    (m : Value)
    (code : Closure)
    (em : Emitter) :
    Task.launch caller m code em = (do
      em.emit caller .start
      Task.follow caller m em (← Run.attempt
        (Run.withTask em.task (Task.firstStep caller code)))) := by
  unfold Task.launch
  refine congrArg _ (funext fun _ => ?_)
  refine congrArg (Run.attempt (Run.withTask em.task
    (Task.firstStep caller code)) >>= ·) (funext fun r => ?_)
  cases r <;> rfl

/- The first step is what the code comes to. -/
theorem ensures_firstStep
    {F : Footprint}
    (hCode : ∀ d < depth, S.Realizes k F
      (code.enter (.ofDepth rounds d) []) s A) :
    (Task.firstStep (.ofDepth rounds depth) code).Ensures s
      (S.Comes (S.Resumes k) F A s) := by
  refine Ensures.bind
    ((realizes_iff.mp (Realizes.call hCode)).mono ?_)
  intro r s' hComes
  cases r with
  | error e => exact hComes
  | ok step =>
      change (if step.isStep = true then _ else _ :
        Run Value).Ensures s' _
      rw [if_pos hComes.isStep]
      exact ensures_pure.mpr hComes

/- A task whose code realizes an account is seated by running. -/
theorem ensures_run
    (hDemand : S.OnDemand)
    (hs : S.Ready s)
    (hAlone : S.Alone s none)
    (hDiscreet : em.Discreet)
    (hCode : ∀ d s₁, S.Ready s₁ → S.Realizes k .none
      (code.enter (.ofDepth rounds d) []) s₁ A) :
    (Task.run (.ofDepth rounds depth) (.machine S.machine) code
      em).Ensures s fun _ s' =>
        S.Reseated k s.tasks.size A (S.view s) [] .none
          s.controlled s' := by
  let t := s.tasks.size
  let s₁ : Session := { s with tasks := s.tasks.push ⟨[], []⟩ }
  have hStory : s₁.story t = [] := by
    simp only [Session.story, s₁, t, getD_push, if_true]
  have hShows : S.Shows t .none [] 0 0 s.controlled s₁ :=
    { ready := { hs with }
      made := by simp [s₁, t]
      size := rfl
      row := fun _ _ => rfl
      suspended := by
        rw [Session.suspensions, hStory]
        rfl
      resumed := by
        rw [Session.resumptions, hStory]
        rfl }
  refine ensures_alloc_bind.mpr ?_
  change ((Task.launch (.ofDepth rounds depth)
    (.machine S.machine) code { em with task := t }) >>=
      fun output => _).Ensures s₁ _
  rw [launch_eq]
  have hLaunch : (do
      Emitter.emit (.ofDepth rounds depth) { em with task := t }
        .start
      Task.follow (.ofDepth rounds depth) (.machine S.machine)
        { em with task := t } (← Run.attempt (Run.withTask t
          (Task.firstStep (.ofDepth rounds depth) code))) :
      Run Value).Ensures s₁ fun _ s' =>
        S.Reseated k t A (S.view s) [] .none s.controlled
          s' := by
    have hDiscreet' : { em with task := t }.Discreet := hDiscreet
    refine Answers.then (Emitter.answers_emit hDiscreet'
      hShows.made .start) ?_
    rintro s₂ ⟨hPasses, -⟩
    have hEntering : s₂.Passes t 0 0 (entering t s₂) :=
      .of_tasks ⟨_, _, _, _, _, _, _, rfl⟩
    have hBoth := hPasses.trans hEntering
    have hShows₂ := hShows.passes hBoth
    have hView : S.view (entering t s₂) = S.view s :=
      hBoth.view_eq
    refine Ensures.bind (ensures_attempt.mpr
      (ensures_withTask.mpr ((ensures_firstStep
        fun d _ => hCode d _ hShows₂.ready).mono ?_)))
    intro r s₃ hComes
    rw [← hView]
    exact ensures_follow hDemand hShows₂
      (hAlone.of_watchers hBoth.watchers_eq) hComes
      (.of_tasks ⟨_, _, _, _, _, _, _, rfl⟩) rfl hDiscreet
  refine Ensures.bind (hLaunch.mono ?_)
  intro r s₂ hSeated
  cases r with
  | error e => exact hSeated
  | ok output =>
      refine Ensures.bind fun r s₃ hRun => ?_
      cases (Run.note_eq t (.answers output) s₂).symm.trans hRun
      exact ensures_pure.mpr (hSeated.recorded rfl rfl)

------------------------------------------------------------
-- Performing
------------------------------------------------------------

/- With its own builder a supply is what it is. -/
theorem on_eq
    {b : Ref}
    (hBuilder : S.builder = some b) :
    S.on (.builder b) = S := by
  cases S with
  | mk origin detached releases machine builder =>
      cases hBuilder
      rfl

/- A task is seated once it was started. -/
theorem Starts.ensures
    {routine : Routine ν}
    {start : Request Program}
    (h : S.Starts routine s start)
    (hApt : routine.Apt S)
    (hDemand : S.OnDemand)
    (hAlone : S.Alone s none) :
    (start.perform (.ofDepth rounds depth)).Ensures s fun _ s' =>
      S.Reseated k s.tasks.size (routine.account S) (S.view s) []
        .none s.controlled s' := by
  have hMeets := meets_written routine hApt
  cases h with
  | run hDiscreet hReady =>
      exact ensures_run hDemand hReady hAlone hDiscreet
        fun d s₁ hs₁ => hMeets.enter hs₁
  | task hDiscreet hBuilder hReady =>
      rename_i captured assertions options
      have hWritten : S.Meets (Code.ofValue
          (fun b => routine.written (S.on b))
          [.builder s.builders.size]) (routine.account S) := by
        change S.Meets (routine.written
          (S.on (.builder s.builders.size))) _
        rw [on_eq hBuilder]
        exact hMeets
      have hMachine : S.machine = s.machines.size := by
        rcases hReady.builder _ hBuilder with ⟨captured', hRow⟩
        have hPushed : (s.machined captured
            assertions).builders[s.builders.size]? =
              some ⟨.machine s.machines.size, .bool captured⟩ :=
          Array.getElem?_push_size
        have hSame := hPushed.symm.trans hRow
        simp only [Option.some.injEq, BuilderCell.mk.injEq,
          Value.machine.injEq] at hSame
        exact hSame.1.symm
      have hRun : (Task.run (.ofDepth rounds depth)
          (.machine s.machines.size)
          (.applied (.client (Code.ofValue
            fun b => routine.written (S.on b)))
            [.builder s.builders.size])
          options.emitter).Ensures
          (s.machined captured assertions) fun _ s' =>
            S.Reseated k s.tasks.size (routine.account S)
              (S.view s) [] .none s.controlled s' := by
        rw [← hMachine]
        exact ensures_run hDemand hReady
          (hAlone.of_watchers fun _ => rfl) hDiscreet
          fun d s₁ hs₁ => Realizes.call fun d' _ =>
            hWritten.enter hs₁
      refine Ensures.bind (ensures_alloc_bind.mpr
        (ensures_pure.mpr ?_))
      refine Ensures.bind (ensures_alloc_bind.mpr
        (ensures_pure.mpr ?_))
      exact hRun

/- To complete a source is to settle the future behind it. -/
theorem ensures_complete
    {x : ν}
    {a c f : Ref}
    {o : Outcome}
    {caller : Caller}
    {P : Session → Prop}
    (hs : S.Ready s)
    (hOrigin : S.origin x = .controlled a c f)
    (h : (Future.settle caller f o).Ensures s
      fun _ s' => P s') :
    ((Request.settleControlled (.controlled c) o).perform
      caller).Ensures s fun _ s' => P s' := by
  rcases hs.controlled x a c f hOrigin with ⟨-, hMade, hBehind⟩
  have hRow : s.controlled[c]? =
      some (s.controlled.getD c default) := by
    simp [Array.getD, hMade]
  refine ensures_get_bind.mpr ?_
  rw [hRow]
  change ((discard <| Future.settle caller (s.controlled.getD c
    default).future o) >>= fun _ => _).Ensures s _
  rw [hBehind]
  refine Ensures.bind (Ensures.discard (h.mono ?_))
  intro r s' hP
  cases r with
  | ok _ => exact ensures_pure.mpr hP
  | error e => exact hP

/- The suspensions on each source are what it was charged for. -/
theorem Reseated.seated
    {told : Ref → Nat}
    (h : S.Reseated k t A V past c rows s')
    (hDemand : S.OnDemand)
    (hBefore : s.suspensions t = c.waits.length)
    (hTold : ∀ x a r f, S.origin x = .controlled a r f →
      told f = S.tally c.waits r) :
    ∃ c', S.Seated k t A V past c' rows s' ∧
      ∀ x a r f, S.origin x = .controlled a r f →
        told f + s.suspensionsOn t f s' =
          S.tally c'.waits r := by
  rcases h with ⟨c', hSeated, hLingers⟩
  refine ⟨c.plus c', hSeated, fun x a r f hOrigin => ?_⟩
  have hMore : s'.suspensions t =
      s.suspensions t + c'.waits.length := by
    rw [hSeated.shows.suspended, hBefore]
    exact List.length_append
  rw [hTold x a r f hOrigin, hLingers.suspensionsOn_eq
    hSeated.shows.ready hDemand hMore hOrigin]
  exact (S.tally_append c.waits c'.waits r).symm

/-
  Whatever came of a task, it is seated, and was charged for
  the suspensions that were told.  The induction is on the
  completions, and for as many resumptions to come as are
  asked for.
-/
theorem Performs.seated
    {routine : Routine ν}
    {start : Request Program}
    {s₀ : Session}
    {told : Ref → Nat}
    (h : S.Performs start s₀ past told s)
    (hStarts : S.Starts routine s₀ start)
    (hApt : routine.Apt S)
    (hDemand : S.OnDemand)
    (hAlone : S.Alone s₀ none) :
    ∀ k, ∃ c, S.Seated k s₀.tasks.size (routine.account S)
        (S.view s₀) past c s₀.controlled s ∧
      ∀ x a r f, S.origin x = .controlled a r f →
        told f = S.tally c.waits r := by
  induction h with
  | starts hRun =>
      intro k
      have hReseated := hStarts.ensures (k := k) hApt hDemand
        hAlone _ _ hRun
      have hNone : s₀.suspensions s₀.tasks.size = 0 := by
        rw [Session.suspensions, Session.story,
          getD_of_size_le _ (Nat.le_refl _)]
        rfl
      have hZero : ∀ x a r f, S.origin x = .controlled a r f →
          (fun _ => 0 : Ref → Nat) f =
            S.tally (Charge.none : Charge ν).waits r :=
        fun _ _ _ _ _ => rfl
      rcases hReseated.seated hDemand hNone hZero with
        ⟨c, hSeated, hTold⟩
      refine ⟨c, hSeated, fun x a r f hOrigin => ?_⟩
      rw [← hTold x a r f hOrigin, Nat.zero_add]
  | completes hEarlier hOrigin hRun ih =>
      intro k
      rename_i x a c f o rounds depth r s'
      rcases ih (k + 1) with ⟨charge, hSeated, hTold⟩
      have hBehind : (S.origin x).behind? = some f := by
        rw [hOrigin]
        rfl
      have hReseated := ensures_complete hSeated.shows.ready hOrigin
        (ensures_settle hDemand hSeated hBehind o) _ _ hRun
      exact hReseated.seated hDemand hSeated.shows.suspended hTold

end Supply

end Resumption

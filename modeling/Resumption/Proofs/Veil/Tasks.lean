import Resumption.Proofs.Veil.Constructs
import Resumption.Task.Start

/-
  Tasks go through the same under a veil, whoever listens to
  them.

  A listener that only records is not missed where listeners
  are hidden: what it does is done aside, and what it throws
  is put behind all other jobs.

  Main declarations:
    * `Veil.matches_emit`
    * `Veil.matches_advance`
    * `Veil.matches_runTask`
-/

namespace Resumption

open Run

namespace Veil

variable {V : Veil}
variable {s t : Session}
variable {c c' : Caller}

------------------------------------------------------------
-- Events
------------------------------------------------------------

/- What a listener throws is owed from then on. -/
theorem goes_hear
    (code : Closure)
    (args : List Value)
    (ended : Except Value Value) :
    Goes (Emitter.hear code args ended) := by
  cases ended with
  | ok v =>
      exact (goes_chronicle rfl).bind fun _ => goes_pure _
  | error e =>
      intro s
      refine ensures_modify_bind.mpr (ensures_modify.mpr ?_)
      exact
        { chronicle := List.suffix_cons _ s.chronicle
          reports := ⟨[e],
            by simp [Session.thrown, Session.withIncident,
              Incident.thrown?],
            by simp [Session.owed, Session.withIncident,
              Job.reported?]⟩
          ambient := rfl
          home := rfl
          runs := fun _ t a hRuns => by
            rcases List.mem_cons.mp hRuns with hNew | hOld
            · cases hNew
            · exact .inl hOld }

/- Whoever has heard of something is remembered. -/
theorem mem_hear
    (code : Closure)
    (args : List Value)
    (ended : Except Value Value)
    (s : Session) :
    (Emitter.hear code args ended).Ensures s fun _ s' =>
      .hears code args ended ∈ s'.chronicle := by
  refine ensures_modify_bind.mpr ?_
  cases ended with
  | ok v => exact ensures_pure.mpr List.mem_cons_self
  | error e => exact ensures_modify.mpr List.mem_cons_self

/- Where listeners are hidden, hearing is not seen. -/
theorem sees_hear
    (code : Closure)
    (args : List Value)
    (hHidden : V.listeners = true)
    (hSees : V.Sees s t)
    (ended : Except Value Value) :
    (Emitter.hear code args ended).Ensures s
      fun r s' => r = .ok () ∧ V.Sees s' t := by
  have hHeard : V.Sees
      (s.withIncident (.hears code args ended)) t :=
    hSees.murmured hHidden (.withIncident s rfl)
  refine ensures_modify_bind.mpr ?_
  cases ended with
  | ok v => exact ensures_pure.mpr ⟨rfl, hHeard⟩
  | error e =>
      refine ensures_modify.mpr ⟨rfl, ?_⟩
      exact
        { hHeard with
          microtasks := by
            simp [hHeard.microtasks, job?, hHidden] }

/-
  Where listeners are hidden, one that only records may as
  well be missing.
-/
theorem meets_heard
    (hc : V.Serves c c')
    (hHidden : V.listeners = true)
    (code : Closure)
    (args : List Value)
    (hSees : V.Sees s t) :
    V.Meets Eq
      (do
        Emitter.hear code args
          (← Run.attempt (Run.aside (c.call code args))))
      (pure () : Run Unit) s t := by
  refine Ensures.bind (ensures_attempt.mpr ?_)
  by_cases hRecords :
      ∃ k, code = .client k ∧ (k args).Records
  · rcases hRecords with ⟨k, rfl, hRecords⟩
    have hMurmurs := hc.records k args hRecords
    refine (hMurmurs.ensures_aside s).mono fun ended s₁ h => ?_
    have hHear := sees_hear (.client k) args hHidden
      (hSees.murmured hHidden h) ended
    intro r s' hRun _
    rcases hHear r s' hRun with ⟨rfl, hSees'⟩
    exact ⟨_, t, rfl, .ok rfl, hSees'⟩
  · intro ended s₁ _ r s' hRun hAll
    have hMem := mem_hear code args ended s₁ r s' hRun
    exact (hRecords (hAll _ hMem hHidden)).elim

theorem matches_hear
    (hSeen : V.listeners = false)
    (code code' : Closure)
    (args : List Value)
    (ended : Except Value Value) :
    V.Matches Eq (Emitter.hear code args ended)
      (Emitter.hear code' args ended) where
  goes := goes_hear code args ended
  meets {s t} hSees := by
    have hHeard := hSees.withIncident
      (i := .hears code args ended)
      (j := .hears code' args ended) rfl rfl rfl
    refine ensures_modify_bind.mpr ?_
    cases ended with
    | ok v =>
        exact ensures_pure.mpr fun _ =>
          ⟨_, _, rfl, .ok rfl, hHeard⟩
    | error e =>
        refine ensures_modify.mpr fun _ =>
          ⟨_, _, rfl, .ok rfl, ?_⟩
        exact
          { hHeard with
            microtasks := by
              simp [hHeard.microtasks, job?, hSeen] }

theorem matches_tell
    (hc : V.Serves c c')
    (em : Emitter)
    (event : Event) :
    V.Matches Eq (em.tell c event)
      ((V.emitter em).tell c' event) := by
  rcases em with ⟨task, listener, taskId, context⟩
  cases listener with
  | none =>
      cases hListeners : V.listeners <;>
        simpa [Emitter.tell, emitter, hListeners] using
          matches_pure rfl
  | some code =>
      have hGo : ∀ args, Goes (do
          Emitter.hear code args
            (← Run.attempt (Run.aside (c.call code args)))) :=
        fun args => (hc.call code args).goes.aside.attempt.bind
          fun ended => goes_hear code args ended
      cases hListeners : V.listeners with
      | true =>
          simp only [emitter, hListeners, if_true]
          refine ⟨Goes.bind (goes_modifyGet fun _ =>
            .of_still ⟨rfl, rfl, rfl, rfl⟩) fun id => hGo _, ?_⟩
          intro s t hSees
          have hStamped : V.Sees
              { s with events := s.events + 1 } t :=
            { hSees with
              events := fun hSeen => by
                simp [hListeners] at hSeen }
          exact Ensures.bind (ensures_modifyGet.mpr
            (meets_heard hc hListeners code _ hStamped))
      | false =>
          simp only [emitter, hListeners]
          refine (matches_eventStamp hListeners).bind
            fun id => ?_
          exact ((hc.call code _).aside hListeners).attempt.bind
            fun ended => matches_hear hListeners code _ _ ended

/- Events are noted under every veil, whoever hears of them. -/
theorem matches_emit
    (hc : V.Serves c c')
    (em : Emitter)
    (event : Event) :
    V.Matches Eq (em.emit c event)
      ((V.emitter em).emit c' event) :=
  (matches_note em.task (.told event)).bind fun _ =>
    matches_tell hc em event

------------------------------------------------------------
-- Settling the Output
------------------------------------------------------------

theorem matches_noteDriver
    (d : Ref)
    (m : Moment) :
    V.Matches Eq (Driver.note d m) (Driver.note d m) := by
  refine column_drivers.row_bind ?_
  rintro cell _ rfl
  exact matches_note _ m

theorem matches_setState
    (d : Ref)
    (state : DriverState) :
    V.Matches Eq (Driver.setState d state)
      (Driver.setState d state) := by
  refine (matches_noteDriver d _).bind fun _ =>
    column_drivers.alter d ?_
  rintro _ _ rfl
  rfl

theorem matches_emitDriver
    (hc : V.Serves c c')
    (d : Ref)
    (event : Event) :
    V.Matches Eq (Driver.emit c d event)
      (Driver.emit c' d event) := by
  refine column_drivers.row_bind ?_
  rintro cell _ rfl
  exact matches_emit hc cell.emitter event

theorem matches_hasSettled
    (d : Ref) :
    V.Matches Eq (Driver.hasSettled d)
      (Driver.hasSettled d) := by
  refine column_drivers.row_bind ?_
  rintro cell _ rfl
  simp only [driverRow]
  cases cell.output with
  | none => exact matches_pure rfl
  | some f =>
      exact (matches_settlement? f).bind fun _ =>
        matches_pure rfl

theorem matches_settleDriver
    (hc : V.Serves c c')
    (d : Ref)
    (outcome : Outcome) :
    V.Matches Eq (Driver.settle c d outcome)
      (Driver.settle c' d outcome) := by
  refine column_drivers.row_bind ?_
  rintro cell _ rfl
  refine (matches_noteDriver d _).bind fun _ => ?_
  refine (matches_tend _ _).bind fun _ => ?_
  simp only [driverRow]
  cases cell.output with
  | some f => exact (matches_settle hc f outcome).discard
  | none =>
      refine column_drivers.alter d ?_
      rintro _ _ rfl
      rfl

theorem matches_finish
    (hc : V.Serves c c')
    (d : Ref)
    (outcome : Outcome) :
    V.Matches Eq (Driver.finish c d outcome)
      (Driver.finish c' d outcome) :=
  (matches_setState d _).bind fun _ =>
    (matches_emitDriver hc d _).bind fun _ =>
      matches_settleDriver hc d outcome

------------------------------------------------------------
-- Registering
------------------------------------------------------------

/- Where no context is ambient, a future keeps what it gets. -/
theorem matches_keeper?
    (awaiter : Value) :
    V.Matches Eq (Awaiter.keeper? awaiter)
      (Awaiter.keeper? awaiter) := by
  unfold Awaiter.keeper?
  split
  · refine column_awaiters.row_bind ?_
    intro cell cell' hRow
    cases hRow with
    | controlled i => exact matches_pure rfl
    | custom r => exact matches_pure rfl
    | @future captured captured' f h =>
        have hKept : ∀ posts : Bool, V.Matches Eq
            (do
              let exists_ := f < (← get).futures.size
              return if exists_ && !posts then some f else none)
            (do
              let exists_ := f < (← get).futures.size
              return if exists_ && !posts then some f
                else none) := by
          intro posts
          refine matches_read fun s t hSees => ?_
          rw [hSees.futures.size]
        refine matches_ambient_bind (fun a => (hKept _).goes)
          fun a hPlain => ?_
        cases hContexts : V.contexts with
        | true =>
            simp only [hPlain hContexts, Bool.and_false]
            exact hKept false
        | false =>
            rw [h hContexts]
            exact hKept _
  · exact matches_pure rfl

/- What is kept of a future's awaiter may differ. -/
theorem matches_source?
    (awaiter : Value) :
    V.Matches (fun _ _ => True) (Awaiter.source? awaiter)
      (Awaiter.source? awaiter) := by
  unfold Awaiter.source?
  split
  · refine column_awaiters.row_bind ?_
    intro cell cell' hRow
    cases hRow with
    | controlled i => exact matches_pure trivial
    | custom r => exact matches_pure trivial
    | future f h => exact matches_read fun _ _ _ => trivial
  · exact matches_pure trivial

/- A refused registration fails the task under the veil too. -/
theorem matches_registerDriver
    (hc : V.Serves c c')
    (d : Ref)
    (awaiter : Value) :
    V.Matches Eq (Driver.register c d awaiter)
      (Driver.register c' d awaiter) := by
  refine column_drivers.row_bind ?_
  rintro cell _ rfl
  refine (column_drivers.alter d ?_).bind fun _ => ?_
  · rintro _ _ rfl
    rfl
  refine (matches_keeper? awaiter).bind fun keeper => ?_
  refine (matches_noteDriver d _).bind fun _ => ?_
  refine (matches_source? awaiter).bindOf (fun _ => ⟨none, trivial⟩)
    fun source source' _ => ?_
  refine (matches_chronicle
    (i := .awaits d cell.fired.size source)
    (j := .awaits d cell.fired.size source')
    rfl rfl rfl rfl).bind fun _ => ?_
  refine (matches_register hc awaiter
    (.driverResume d cell.fired.size)).attempt.bind
      fun ended => ?_
  cases ended with
  | ok v => exact matches_pure rfl
  | error e =>
      exact (matches_noteDriver d _).bind fun _ =>
        matches_finish hc d (.rejected e)

theorem matches_suspend
    (hc : V.Serves c c')
    (d : Ref)
    (awaiter label : Value) :
    V.Matches Eq (Driver.suspend c d awaiter label)
      (Driver.suspend c' d awaiter label) := by
  refine (column_drivers.alter d ?_).bind fun _ => ?_
  · rintro _ _ rfl
    rfl
  refine (matches_setState d _).bind fun _ => ?_
  refine (matches_noteDriver d _).bind fun _ => ?_
  refine (matches_field label (by simp [capturedKey])).bind
    fun id => ?_
  exact (matches_emitDriver hc d _).bind fun _ =>
    matches_registerDriver hc d awaiter

------------------------------------------------------------
-- Handing Off
------------------------------------------------------------

theorem matches_concludeDriver
    (hc : V.Serves c c')
    (d : Ref)
    (awaiter : Value) :
    V.Matches Eq (Driver.conclude c d awaiter)
      (Driver.conclude c' d awaiter) := by
  refine (matches_noteDriver d _).bind fun _ => ?_
  refine (matches_result hc awaiter).attempt.bind
    fun ended => ?_
  cases ended with
  | ok v => exact matches_finish hc d (.fulfilled v)
  | error e => exact matches_finish hc d (.rejected e)

theorem matches_handOff
    (hc : V.Serves c c')
    (d : Ref)
    (future : Value) :
    V.Matches Eq (Driver.handOff c d future)
      (Driver.handOff c' d future) := by
  refine (matches_noteDriver d _).bind fun _ => ?_
  refine (matches_awaiterWith hc future false).bind
    fun awaiter => ?_
  refine (matches_emitDriver hc d _).bind fun _ => ?_
  refine (matches_completed hc awaiter).bind fun completed => ?_
  split
  · exact matches_concludeDriver hc d awaiter
  · refine (matches_setState d _).bind fun _ => ?_
    refine (matches_keeper? awaiter).bind fun keeper => ?_
    exact (matches_noteDriver d _).bind fun _ =>
      (matches_register hc awaiter
        (.driverOutcome d awaiter)).discard

------------------------------------------------------------
-- Advancing
------------------------------------------------------------

theorem matches_jumpDriver
    (hc : V.Serves c c')
    (d : Ref)
    (label : Value) :
    V.Matches Eq (Driver.jump c d label)
      (Driver.jump c' d label) := by
  refine (matches_hasSettled d).bind fun settled => ?_
  refine (matches_noteDriver d _).bind fun _ => ?_
  refine column_drivers.row_bind ?_
  rintro cell _ rfl
  have hBody := (matches_machineOf cell.machine).bind
    fun m => matches_jump hc m label
  refine (hBody.withTask cell.emitter.task).attempt.bind
    fun landing => ?_
  refine (matches_noteDriver d _).bind fun _ => ?_
  cases landing with
  | ok step => exact matches_pure rfl
  | error e => exact matches_raise e

/-
  What a resumed task comes to is checked by its driver,
  under every veil.
-/
theorem matches_nextStep
    (hc : V.Serves c c')
    (d : Ref) :
    V.Matches Eq (Driver.nextStep c d)
      (Driver.nextStep c' d) := by
  have hId : ∀ label : Value, V.Matches Eq
      (Run.field label "id") (Run.field label "id") :=
    fun label => matches_field label (by simp [capturedKey])
  refine column_drivers.row_bind ?_
  rintro ⟨_, _, first, current, _, _, _, _⟩ _ rfl
  cases first with
  | some step =>
      refine (column_drivers.alter d ?_).bind fun _ =>
        matches_pure rfl
      rintro _ _ rfl
      rfl
  | none =>
      refine matches_ite Iff.rfl (fun _ => ?_) fun _ => ?_
      · exact (matches_newPlain _ _).bind fun e =>
          matches_raise e
      · refine (hId current).bind fun id => ?_
        refine (matches_emitDriver hc d _).bind fun _ => ?_
        refine (matches_jumpDriver hc d current).bind
          fun step => ?_
        split
        · exact matches_pure rfl
        · exact (hId current).bind fun id => matches_defect _

theorem matches_advance
    (hc : V.Serves c c')
    (d : Ref) :
    V.Matches Eq (Driver.advance c d)
      (Driver.advance c' d) := by
  refine (matches_setState d _).bind fun _ => ?_
  refine (matches_nextStep hc d).attempt.bind fun ended => ?_
  cases ended with
  | error e => exact matches_finish hc d (.rejected e)
  | ok step =>
      dsimp only
      split
      · exact matches_pure rfl
      · exact matches_finish hc d (.fulfilled _)
      · exact matches_handOff hc d _
      · exact matches_suspend hc d _ _

theorem matches_resumeDriver
    (hc : V.Serves c c')
    (d callback : Ref)
    (failure : Value) :
    V.Matches Eq (Driver.resume c d callback failure)
      (Driver.resume c' d callback failure) := by
  refine column_drivers.row_bind ?_
  rintro cell _ rfl
  refine matches_ite Iff.rfl (fun _ => matches_pure rfl)
    fun _ => ?_
  · refine (column_drivers.alter d ?_).bind fun _ => ?_
    · rintro _ _ rfl
      rfl
    split
    · refine (matches_field failure (by simp [capturedKey])).bind
        fun e => ?_
      exact (matches_noteDriver d _).bind fun _ =>
        matches_finish hc d (.rejected e)
    · exact matches_advance hc d

theorem matches_makeOutput
    (d : Ref) :
    V.Matches Eq (Driver.makeOutput d)
      (Driver.makeOutput d) := by
  have hKept : ∀ output : Ref, V.Matches Eq
      (do
        Table.drivers.alter d ({ · with output := some output })
        return output)
      (do
        Table.drivers.alter d ({ · with output := some output })
        return output) := by
    intro output
    refine (column_drivers.alter d ?_).bind fun _ =>
      matches_pure rfl
    rintro _ _ rfl
    rfl
  refine column_drivers.row_bind ?_
  rintro cell _ rfl
  simp only [driverRow]
  cases cell.early with
  | some outcome =>
      exact (matches_settled outcome).bind fun output =>
        hKept output
  | none => exact matches_newFuture.bind fun output => hKept output

theorem matches_startDriver
    (hc : V.Serves c c')
    (m first : Value)
    (em : Emitter) :
    V.Matches Eq (Driver.start c m first em)
      (Driver.start c' m first (V.emitter em)) := by
  refine (column_drivers.alloc rfl).bind fun d => ?_
  refine (matches_advance hc d).bind fun _ => ?_
  exact (matches_makeOutput d).bind fun _ => matches_pure rfl

------------------------------------------------------------
-- Running Tasks
------------------------------------------------------------

theorem matches_firstStep
    (hc : V.Serves c c')
    (code : Closure) :
    V.Matches Eq (Task.firstStep c code)
      (Task.firstStep c' (V.closure code)) := by
  refine (hc.call code []).bind fun first => ?_
  split
  · exact matches_pure rfl
  · exact matches_defect _

theorem matches_launch
    (hc : V.Serves c c')
    (m : Value)
    (code : Closure)
    (em : Emitter) :
    V.Matches Eq (Task.launch c m code em)
      (Task.launch c' m (V.closure code) (V.emitter em)) := by
  refine (matches_emit hc em _).bind fun _ => ?_
  refine ((matches_firstStep hc code).withTask
    em.task).attempt.bind fun ended => ?_
  cases ended with
  | error e =>
      exact (matches_emit hc em _).bind fun _ =>
        (matches_settled _).bind fun _ => matches_pure rfl
  | ok first =>
      dsimp only
      split
      · exact matches_pure rfl
      · exact (matches_emit hc em _).bind fun _ =>
          (matches_settled _).bind fun _ => matches_pure rfl
      · exact (matches_emit hc em _).bind fun _ =>
          matches_pure rfl
      · exact matches_startDriver hc m first em

theorem matches_runTask
    (hc : V.Serves c c')
    (m : Value)
    (code : Closure)
    (em : Emitter) :
    V.Matches Eq (Task.run c m code em)
      (Task.run c' m (V.closure code) (V.emitter em)) := by
  refine (column_tasks.alloc rfl).bind fun task => ?_
  refine (matches_launch hc m code
    { em with task := task }).bind fun output => ?_
  exact (matches_note task _).bind fun _ => matches_pure rfl

end Veil

end Resumption

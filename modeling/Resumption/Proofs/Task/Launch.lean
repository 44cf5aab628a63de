import Resumption.Proofs.Task.Output

/-
  How a task begins: its first step ends it, hands it off, or
  suspends it, and only then it has a driver.  Whoever
  started it is answered with its output.

  Main declarations:
    * `Value.isDeclared`, `Task.opening`
    * `Bare.start`
    * `Bare.launch`
    * `Driving.ensures_runTask`
-/

namespace Resumption

open Session World

section Launch

variable {held excused : List Ref}
variable {s₀ s s' : Session}
variable {t : Ref}
variable {p q : Phase}
variable {caller : Caller}

------------------------------------------------------------
-- Tasks without a Driver
------------------------------------------------------------

/-
  Somebody is at work on a task that has no driver and whose
  starter was not answered yet.
-/
structure Bare
    (held excused : List Ref)
    (s₀ : Session)
    (t : Ref)
    (p : Phase)
    (s : Session) : Prop where
  work : AtWork held excused s₀ t p s
  undriven : ∀ d cell, ¬ s.Drives t d cell
  silent : ∀ m ∈ s.story t, m.Fits 0

namespace Bare

/- The session for others while the task is held. -/
theorem hold
    (h : Bare held excused s₀ t p s) :
    (Driving (t :: held) excused).Sound s :=
  h.work.hold fun d cell hDrives =>
    absurd hDrives (h.undriven d cell)

theorem moved
    (h : Bare held excused s₀ t p s)
    (hMoves : (Driving (t :: held) excused).Moves s s') :
    Bare held excused s₀ t p s' := by
  have hUnmoved := hMoves.rel.unmoved t List.mem_cons_self
  refine ⟨h.work.moved hMoves, fun d cell hDrives => ?_,
    fun m hm => ?_⟩
  · exact h.undriven d cell
      ((hUnmoved.drives d cell).mp hDrives)
  · exact h.silent m (hUnmoved.story ▸ hm)

theorem noted
    {m : Moment}
    (h : Bare held excused s₀ t p s)
    (hLeads : p.Leads m q)
    (hFits : m.Fits 0) :
    Bare held excused s₀ t q (s.noted t m) := by
  refine ⟨h.work.noted hLeads, h.undriven, fun m' hm' => ?_⟩
  rcases mem_of_noted hm' with rfl | hOld
  · exact hFits
  · exact h.silent m' hOld

/- A task without a driver can rest when it was passed on. -/
theorem rest
    (h : Bare held excused s₀ t p s)
    (hPhase : p = .passedOn ∨ ∃ v, p = .atOnce v) :
    (Driving held excused).Moves s₀ s := by
  have hMinds : Minds (t ∈ excused) s t :=
    fun d cell _ hDrives => absurd hDrives (h.undriven d cell)
  have hFound : ¬ s.Lost t := fun ⟨d, cell, _, _, _, _, hDrives,
    _⟩ => h.undriven d cell hDrives
  rcases hPhase with rfl | ⟨v, rfl⟩
  · exact h.work.rest trivial (.inl ⟨h.undriven, trivial⟩)
      hMinds fun hLost => absurd hLost hFound
  · refine h.work.rest trivial (.inl ⟨h.undriven, ?_⟩)
      hMinds fun hLost => absurd hLost hFound
    intro f hf
    exact (h.silent _ hf).elim

/- While its listener is told, the task is held. -/
theorem emit
    {em : Emitter}
    {event : Event}
    (h : Bare held excused s₀ t p s)
    (hc : (Driving (t :: held) excused).Serves caller)
    (hTask : em.task = t)
    (hFit : ∀ c ∈ em.listener, s.Harmless c.core)
    (hLeads : p.Leads (.told event) q)
    {post : Except Value Unit → Session → Prop}
    (hPost : ∀ s', Bare held excused s₀ t q s' →
      s.Extends s' → post (.ok ()) s') :
    (em.emit caller event).Ensures s post := by
  have h₁ := h.noted hLeads trivial
  have hExtends := s.extends_noted t (.told event)
  have hTell := keeps_tell hc h₁.hold
    (fun c hm => hExtends.harmless (hFit c hm)) event
  unfold Emitter.emit
  rw [hTask]
  refine Run.ensures_alter_bind.mpr ?_
  refine Run.Ensures.mono (hTell.and tell_ne_error) ?_
  rintro r s₂ ⟨hMoves, rfl⟩
  exact hPost s₂ (h₁.moved hMoves)
    (hExtends.trans hMoves.rel.extends_)

end Bare

------------------------------------------------------------
-- New Drivers
------------------------------------------------------------

/- The cell of a new driver. -/
def DriverCell.fresh
    (m first : Value)
    (em : Emitter) : DriverCell :=
  { machine := m
    state := .notStarted
    first := some first
    current := .undefined
    fired := #[]
    early := none
    output := none
    emitter := em }

/- A session with another driver. -/
def Session.driven
    (s : Session)
    (cell : DriverCell) : Session :=
  { s with drivers := s.drivers.push cell }

theorem Session.drives_driven
    {cell cell' : DriverCell}
    {t' : Ref}
    {d' : Nat} :
    (s.driven cell).Drives t' d' cell' ↔
      s.Drives t' d' cell' ∨
        d' = s.drivers.size ∧ cell' = cell ∧
          cell.emitter.task = t' := by
  unfold Drives driven
  simp only [Array.getElem?_push]
  split
  · next hSame =>
      have hNone : s.drivers[d']? = none :=
        Array.getElem?_eq_none (Nat.le_of_eq hSame.symm)
      constructor
      · rintro ⟨hCell, hTask⟩
        have hNew := Option.some.inj hCell
        exact .inr ⟨hSame, hNew.symm, hNew ▸ hTask⟩
      · rintro (⟨hOld, _⟩ | ⟨_, rfl, hTask⟩)
        · rw [hNone] at hOld
          cases hOld
        · exact ⟨rfl, hTask⟩
  · next hOther =>
      constructor
      · exact .inl
      · rintro (hOld | ⟨hSame, _⟩)
        · exact hOld
        · exact absurd hSame hOther

/- The drivers that there were are still the same. -/
theorem Session.driver_driven
    (cell : DriverCell)
    {d' : Nat}
    {old : DriverCell}
    (hOld : s.drivers[d']? = some old) :
    (s.driven cell).drivers[d']? = some old :=
  (drives_driven.mpr (.inl ⟨hOld, rfl⟩)).1

theorem Session.isOutput_driven
    {cell : DriverCell}
    (hNone : cell.output = none)
    {f : Ref} :
    (s.driven cell).IsOutput f ↔ s.IsOutput f := by
  constructor
  · rintro ⟨d', cell', hCell', hOutput⟩
    rcases drives_driven.mp ⟨hCell', rfl⟩ with
      hOld | ⟨_, rfl, _⟩
    · exact ⟨d', cell', hOld.1, hOutput⟩
    · rw [hNone] at hOutput
      cases hOutput
  · rintro ⟨d', cell', hCell', hOutput⟩
    exact ⟨d', cell', (drives_driven.mpr (.inl
      ⟨hCell', rfl⟩)).1, hOutput⟩

theorem Session.extends_driven
    {cell : DriverCell}
    (hNone : cell.output = none) :
    s.Extends (s.driven cell) :=
  { Extends.refl s with
    drivers := fun _ old hOld =>
      ⟨old, driver_driven cell hOld, rfl, fun _ hf => hf⟩
    outputs := fun _ _ => (isOutput_driven hNone).mp }

/- A task gets its driver. -/
theorem Bare.driven
    {cell : DriverCell}
    (h : Bare held excused s₀ t p s)
    (hTask : cell.emitter.task = t)
    (hNone : cell.output = none)
    (hFit : ∀ c ∈ cell.emitter.listener, s.Harmless c.core) :
    AtWork held excused s₀ t p (s.driven cell) ∧
      Desk (s.driven cell) t s.drivers.size cell p := by
  have hExtends := s.extends_driven hNone
  have hs := h.work.sane
  have hSane : Sane (s.driven cell) := by
    refine hs.redriven hExtends ?_ ?_ ?_ ?_ (fun _ => rfl)
      hs.unwatched rfl rfl rfl rfl rfl
    · intro t' d' cell' h'
      rcases drives_driven.mp h' with hOld | ⟨_, _, hSame⟩
      · exact hs.owner t' d' cell' hOld
      · exact hSame ▸ hTask ▸ h.work.lt
    · intro t' d₁ d₂ cell₁ cell₂ h₁ h₂
      rcases drives_driven.mp h₁ with
        hOld₁ | ⟨hNew₁, _, hSame₁⟩
      · rcases drives_driven.mp h₂ with hOld₂ | ⟨_, _, hSame₂⟩
        · exact hs.sole t' d₁ d₂ cell₁ cell₂ hOld₁ hOld₂
        · rw [← hSame₂, hTask] at hOld₁
          exact absurd hOld₁ (h.undriven d₁ cell₁)
      · rcases drives_driven.mp h₂ with hOld₂ | ⟨hNew₂, _, _⟩
        · rw [← hSame₁, hTask] at hOld₂
          exact absurd hOld₂ (h.undriven d₂ cell₂)
        · exact hNew₁.trans hNew₂.symm
    · intro f hf
      exact hs.output_lt f ((isOutput_driven hNone).mp hf)
    · intro f d₁ d₂ cell₁ cell₂ h₁ h₂ hf₁ hf₂
      rcases drives_driven.mp ⟨h₁, rfl⟩ with
        hOld₁ | ⟨_, rfl, _⟩
      · rcases drives_driven.mp ⟨h₂, rfl⟩ with
          hOld₂ | ⟨_, rfl, _⟩
        · exact hs.output_sole f d₁ d₂ cell₁ cell₂
            hOld₁.1 hOld₂.1 hf₁ hf₂
        · rw [hNone] at hf₂
          cases hf₂
      · rw [hNone] at hf₁
        cases hf₁
  have hUnmoved : ∀ t' ≠ t, s.Unmoved t' (s.driven cell) :=
    fun t' ht' =>
      { story := rfl
        drives := fun d' cell' => by
          rw [drives_driven]
          constructor
          · rintro (hOld | ⟨_, _, hSame⟩)
            · exact hOld
            · exact absurd (hSame.symm.trans hTask) ht'
          · exact .inl
        ending := fun _ _ _ => rfl
        tokens := fun _ _ _ _ _ _ hw hToken =>
          ⟨hw, hExtends.tokens hToken⟩ }
  have hOutputs : s.KeepsOutputs (s.driven cell) := by
    intro d' cell₁ cell₂ h₁ h₂
    have hSame := (driver_driven cell h₁).symm.trans h₂
    exact congrArg _ (Option.some.inj hSame).symm
  refine ⟨h.work.onward hSane hExtends rfl hUnmoved
    (fun _ _ hw => hw) hOutputs
    { h.work.stocked with listeners := fun d' c hc => ?_ }
    h.work.course,
    drives_driven.mpr (.inr ⟨rfl, rfl, hTask⟩),
    ⟨fun v hv => (h.silent _ hv).elim, fun k a hk =>
      absurd (h.silent _ hk) (Nat.not_lt_zero k)⟩, ?_⟩
  · simp only [Session.driven, getD_push] at hc
    split at hc
    · exact hFit c hc
    · exact h.work.stocked.listeners d' c hc
  · -- Nobody can wait on behalf of a driver that is new.
    rintro e ⟨f, w, hw, hToken⟩
    have hToken₀ := hExtends.tokens hToken
    rcases hs.watcher f w hw with hHarmless | hPledge
    · exact absurd hToken₀ (Harmless.not_tokens
        ((Closure.harmless_core w).mpr hHarmless) _ e)
    · rcases hPledge.tokens fun hHarmless =>
        Harmless.not_tokens
          ((Closure.harmless_core w).mpr hHarmless) _ e hToken₀
        with ⟨_, d', old, _, hOld, hToken'⟩
      obtain ⟨rfl, _⟩ := hToken₀.unique hToken'
      exact absurd hOld.lt (Nat.lt_irrefl _)

------------------------------------------------------------
-- Starting a Driver
------------------------------------------------------------

/- What a task may be answered with. -/
def Session.Answerable
    (s : Session)
    (t : Ref)
    (v : Value) : Prop :=
  (∃ d cell f, s.Drives t d cell ∧ cell.output = some f ∧
    v = .future f) ∨
  ((∀ d cell, ¬ s.Drives t d cell) ∧
    ∀ w f, Course (s.story t) (.atOnce w) → v = .future f →
      (s.outcome? f).map Outcome.verdict = some w)

/-
  A task has begun: it rests, and what was returned may be
  given as the answer.  If what its code returned was of the
  declared type, so is that.
-/
structure Launched
    (held excused : List Ref)
    (s₀ : Session)
    (t : Ref)
    (declared : Prop)
    (r : Except Value Value)
    (s : Session) : Prop where
  moves : (Driving held excused).Moves s₀ s
  lt : t < s.tasks.size
  answerable : ∀ v, r = .ok v → s.Answerable t v
  returned : declared → ∃ f, r = .ok (.future f)

/- A driver starts with the step that suspends. -/
theorem Bare.start
    {em : Emitter}
    {m first awaiter label : Value}
    {declared : Prop}
    (h : Bare held excused s₀ t .begun s)
    (hAll : ∀ held excused,
      (Driving held excused).Serves caller)
    (hTask : em.task = t)
    (hFit : ∀ c ∈ em.listener, s.Harmless c.core)
    (hView : first.step? = some (.suspend awaiter label))
    (hDeclared : declared → ¬ label.isMissing) :
    (Driver.start caller m first em).Ensures s
      (Launched held excused s₀ t declared) := by
  have hOwner : (DriverCell.fresh m first em).emitter.task = t :=
    hTask
  rcases h.driven hOwner rfl hFit with ⟨hWork, hDesk⟩
  have hSpent : (DriverCell.fresh m first em).Spent :=
    fun _ => rfl
  have hNew := hWork.since
  -- The work is begun anew, with the driver as one that there is.
  have hBusy : Busy held excused (s.driven (.fresh m first em))
      t s.drivers.size (.fresh m first em) .begun none
      (s.driven (.fresh m first em)) :=
    ⟨hWork.anew, hDesk, rfl⟩
  have hAdvance := hBusy.advanceFirst hAll hSpent rfl hView
  unfold Driver.start
  refine Run.ensures_alloc_bind.mpr ?_
  refine Run.Ensures.bind (Run.Ensures.mono hAdvance ?_)
  rintro r s₁ ⟨hMoves, hQuiet⟩
  have hLeaves := hNew.trans hMoves.rel.toLeaves
  have hSpares := hWork.spares hMoves.rel.spares fun hLost =>
    absurd hLost (not_lost hWork.course rfl)
  have hLt := Nat.lt_of_lt_of_le hWork.lt
    hMoves.rel.extends_.tasks
  cases r with
  | error e =>
      refine ⟨⟨hMoves.sound, hLeaves, hSpares⟩, hLt, by simp,
        fun hTyped => ?_⟩
      rcases (hQuiet e rfl).1 with hSome | hMissing
      · exact absurd rfl hSome
      · exact absurd hMissing (hDeclared hTyped)
  | ok u =>
      rcases hMoves.rel.extends_.drivers s.drivers.size _
        hDesk.drives.1 with ⟨cell, hCell, hEmitter, _⟩
      have hDrives : s₁.Drives t s.drivers.size cell :=
        ⟨hCell, by rw [hEmitter, hDesk.drives.2]⟩
      have hNone := hMoves.rel.outputs s.drivers.size _ _
        hDesk.drives.1 hCell
      rcases Driving.busy hMoves.sound hDrives h.work.free with
        ⟨p, hRests, hSuits, hMindful, hBusy₁⟩
      refine Run.Ensures.bind (Run.Ensures.mono
        (hBusy₁.makeOutput hNone hRests hSuits hMindful) ?_)
      rintro _ s₂ ⟨f, rfl, hMade⟩
      refine Run.ensures_pure.mpr ⟨⟨hMade.sound, ?_,
        hSpares.trans hMade.spares⟩, ?_, ?_, fun _ => ⟨f, rfl⟩⟩
      · refine ⟨hLeaves.extends_.trans hMade.extends_,
          fun t' ht' => (hLeaves.unmoved t' ht').trans
            (hMade.unmoved t' fun hSame =>
              h.work.free (hSame ▸ ht')), ?_⟩
        intro d' cell₁ cell₂ h₁ h₂
        have hOther : d' ≠ s.drivers.size := by
          rintro rfl
          rcases h.work.since.extends_.drivers _ cell₁ h₁ with
            ⟨old, hOld, _⟩
          simp at hOld
        rw [hMade.others d' hOther] at h₂
        exact hLeaves.outputs d' cell₁ cell₂ h₁ h₂
      · exact Nat.lt_of_lt_of_le hLt hMade.extends_.tasks
      · intro v hv
        rcases hMade.drives with ⟨cell₂, hDrives₂, hOutput⟩
        cases hv
        exact .inl ⟨_, cell₂, f, hDrives₂, hOutput, rfl⟩

------------------------------------------------------------
-- First Steps
------------------------------------------------------------

theorem ensures_settled
    (outcome : Outcome) :
    (Future.settled outcome).Ensures s fun r s' =>
      ∃ f, r = .ok f ∧ s'.outcome? f = some outcome := by
  unfold Future.settled
  refine Run.Ensures.bind (Run.ensures_modifyGet.mpr ?_)
  refine Run.ensures_alloc.mpr ⟨_, rfl, ?_⟩
  simp [outcome?, Table.futures]

/- A task ends with its first step. -/
theorem Bare.endAtOnce
    {em : Emitter}
    {declared : Prop}
    (h : Bare held excused s₀ t .begun s)
    (hAll : ∀ held excused,
      (Driving held excused).Serves caller)
    (hTask : em.task = t)
    (hFit : ∀ c ∈ em.listener, s.Harmless c.core)
    (outcome : Outcome) :
    (do
      em.emit caller (.ofOutcome true outcome)
      return .future (← Future.settled outcome) :
        Run Value).Ensures s
      (Launched held excused s₀ t declared) := by
  refine Run.Ensures.bind (h.emit (hAll (t :: held) excused)
    hTask hFit
    (.finish (Event.verdict?_ofOutcome true outcome)) ?_)
  intro s₁ h₁ _
  have hHosts : (Driving (t :: held) excused).Hosts caller :=
    Driving.hosts (hAll · excused)
  have hKeeps := hHosts.keeps_settled h₁.hold outcome
  refine Run.Ensures.bind (Run.Ensures.mono
    (hKeeps.and (ensures_settled outcome)) ?_)
  rintro _ s₂ ⟨hMoves, f, rfl, hOutcome⟩
  have h₂ := h₁.moved hMoves
  refine Run.ensures_pure.mpr
    ⟨h₂.rest (.inr ⟨_, rfl⟩), h₂.work.lt, fun v hv => ?_,
      fun _ => ⟨f, rfl⟩⟩
  refine .inr ⟨h₂.undriven, fun w f' hCourse hSame => ?_⟩
  cases hv
  cases hSame
  have hVerdict := hCourse.det h₂.work.course
  cases hVerdict
  rw [hOutcome]
  rfl

/-
  Is what a step hands off a future, and what it is to resume
  at there?  Then its fields are of the declared types.
-/
def Value.isDeclared (step : Value) : Bool :=
  match step.step? with
  | some (.handOff (.future _)) => true
  | some (.handOff _) => false
  | some (.suspend _ l) => !l.isMissing
  | _ => true

theorem Value.future_of_isDeclared
    {step v : Value}
    (h : step.isDeclared)
    (hView : step.step? = some (.handOff v)) :
    ∃ f, v = .future f := by
  unfold isDeclared at h
  rw [hView] at h
  cases v with
  | future f => exact ⟨f, rfl⟩
  | _ => cases h

theorem Value.not_isMissing_of_isDeclared
    {step awaiter label : Value}
    (h : step.isDeclared)
    (hView : step.step? = some (.suspend awaiter label)) :
    ¬ label.isMissing := by
  unfold isDeclared at h
  rw [hView] at h
  simpa using h

/- The first step is a step, and otherwise what code returned. -/
theorem ensures_firstStep
    {code : Closure}
    {P : Value → Prop}
    (hCall : (caller.call code []).Ensures s fun r _ =>
      ∀ v, r = .ok v → P v) :
    (Task.firstStep caller code).Ensures s fun r _ =>
      ∀ v, r = .ok v → v.isStep ∧ P v := by
  unfold Task.firstStep
  refine Run.Ensures.bind (Run.Ensures.mono hCall ?_)
  intro r s₁ hP
  cases r with
  | error e =>
      intro v hv
      cases hv
  | ok first =>
      change (if first.isStep then _ else _ :
        Run Value).Ensures s₁ _
      split
      · next hStep =>
          refine Run.ensures_pure.mpr fun v hv => ?_
          cases hv
          exact ⟨hStep, hP first rfl⟩
      · refine Run.Ensures.mono (raises_defect _) ?_
        rintro _ _ ⟨e, rfl⟩ v hv
        cases hv

theorem Driving.keeps_firstStep
    (hc : (Driving held excused).Serves caller)
    (hs : (Driving held excused).Sound s)
    {code : Closure}
    (hCode : s.Harmless code) :
    (Driving held excused).Keeps
      (Task.firstStep caller code) s := by
  unfold Task.firstStep
  refine (Driving.keeps_call hc hs hCode _).bind
    fun first s₁ h₁ => ?_
  split
  · exact keeps_pure.mpr (.refl h₁.sound)
  · exact keeps_defect h₁.sound _

/- A task begins, as far as its code runs. -/
def Task.opening
    (caller : Caller)
    (code : Closure)
    (em : Emitter) : Run Value := do
  em.emit caller .start
  Run.withTask em.task (caller.call code [])

/- Who produces the first step, and what becomes of it. -/
theorem Bare.launch
    {em : Emitter}
    {code : Closure}
    {declared : Prop}
    (h : Bare held excused s₀ t .fresh s)
    (hAll : ∀ held excused,
      (Driving held excused).Serves caller)
    (hTask : em.task = t)
    (hFit : ∀ c ∈ em.listener, s.Harmless c.core)
    (hCode : s.Harmless code)
    (hDeclared : declared →
      (Task.opening caller code em).Ensures s fun r _ =>
        ∀ v, r = .ok v → v.isDeclared)
    (m : Value) :
    (Task.launch caller m code em).Ensures s
      (Launched held excused s₀ t declared) := by
  have hc := hAll (t :: held) excused
  have hBegun : (em.emit caller .start).Ensures s fun r s₁ =>
      r = .ok () ∧ Bare held excused s₀ t .begun s₁ ∧
        s.Extends s₁ :=
    h.emit hc hTask hFit .start
      fun s₁ h₁ hExtends => ⟨rfl, h₁, hExtends⟩
  have hTyped : (em.emit caller .start).Ensures s fun _ s₁ =>
      declared → (caller.call code []).Ensures
        (Run.entering t s₁) fun r _ =>
          ∀ v, r = .ok v → v.isDeclared := by
    intro r s₁ hRun hDecl
    rcases hBegun r s₁ hRun with ⟨rfl, _⟩
    have hOpened := Run.ensures_bind.mp (hDeclared hDecl)
      _ s₁ hRun
    exact Run.ensures_withTask.mp (hTask ▸ hOpened)
  unfold Task.launch
  refine Run.Ensures.bind (Run.Ensures.mono
    (hBegun.and hTyped) ?_)
  rintro _ s₁ ⟨⟨rfl, h₁, hExtends₁⟩, hDecl⟩
  simp only [Run.Follows]
  rw [hTask]
  have hKeeps : (Driving (t :: held) excused).Keeps
      (Run.withTask t (Task.firstStep caller code)) s₁ :=
    Driving.keeps_withTask h₁.hold t fun s' hMoves =>
      Driving.keeps_firstStep hc hMoves.sound
        (hMoves.rel.extends_.harmless (hExtends₁.harmless hCode))
  have hStep : (Run.withTask t
      (Task.firstStep caller code)).Ensures s₁ fun r _ =>
        ∀ v, r = .ok v → v.isStep ∧
          (declared → v.isDeclared) :=
    Run.ensures_withTask.mpr (ensures_firstStep
      fun r s₂ hRun v hv hTyped => hDecl hTyped r s₂ hRun v hv)
  refine Run.Ensures.bind (Run.ensures_attempt.mpr
    (Run.Ensures.mono (hKeeps.and hStep) ?_))
  rintro r s₂ ⟨hMoves, hFirst⟩
  have h₂ := h₁.moved hMoves
  have hFit₂ : ∀ c ∈ em.listener, s₂.Harmless c.core :=
    fun c hm => hMoves.rel.extends_.harmless
      (hExtends₁.harmless (hFit c hm))
  cases r with
  | error e =>
      exact h₂.endAtOnce hAll hTask hFit₂ (.rejected e)
  | ok first =>
      rcases hFirst first rfl with ⟨hIsStep, hIsDeclared⟩
      rcases Option.isSome_iff_exists.mp hIsStep with
        ⟨view, hView⟩
      unfold Run.Follows
      dsimp only
      rw [hView]
      cases view with
      | finish v =>
          exact h₂.endAtOnce hAll hTask hFit₂ (.fulfilled v)
      | suspend awaiter label =>
          exact h₂.start hAll hTask hFit₂ hView fun hTyped =>
            Value.not_isMissing_of_isDeclared
              (hIsDeclared hTyped) hView
      | handOff future =>
          refine Run.Ensures.bind
            (h₂.emit hc hTask hFit₂ .passOn ?_)
          intro s₃ h₃ _
          refine Run.ensures_pure.mpr
            ⟨h₃.rest (.inl rfl), h₃.work.lt, fun v _ => ?_,
              fun hTyped => ?_⟩
          · refine .inr ⟨h₃.undriven, fun w f hCourse _ => ?_⟩
            cases hCourse.det h₃.work.course
          · rcases Value.future_of_isDeclared
              (hIsDeclared hTyped) hView with ⟨f, rfl⟩
            exact ⟨f, rfl⟩

------------------------------------------------------------
-- Answers
------------------------------------------------------------

/- That somebody was answered changes not what was asked for. -/
theorem Session.asked?_answered
    {v : Value}
    (hLt : t < s.tasks.size) :
    (s.noted t (.answers v)).asked? t = s.asked? t := by
  rw [asked?, story_noted, if_pos ⟨rfl, hLt⟩]
  rfl

/- That somebody was answered, a task's driver does not mind. -/
theorem Mindful.answered
    {excused : Prop}
    {d : Ref}
    {cell : DriverCell}
    {v : Value}
    (h : Mindful excused s d cell p)
    (hDrives : s.Drives t d cell)
    (hLt : t < s.tasks.size) :
    Mindful excused (s.noted t (.answers v)) d cell p := by
  have hExtends := s.extends_noted t (.answers v)
  have hAsked := asked?_answered (v := v) hLt
  rw [← hDrives.2] at hAsked
  cases p with
  | waiting l id =>
      rcases h with ⟨hState, k, a, hLast, hLeft, hTokens⟩
      exact ⟨hState, k, a, hDrives.2 ▸ hAsked.trans hLast,
        hLeft, fun f w hw hToken =>
          hTokens f w hw (hExtends.tokens hToken)⟩
  | handing =>
      rcases h with ⟨hState, a, hLast, hTokens⟩
      exact ⟨hState, a, hDrives.2 ▸ hAsked.trans hLast,
        fun f w hw hToken =>
          hTokens f w hw (hExtends.tokens hToken)⟩
  | _ => exact h

/- Nor is anybody lost who was not. -/
theorem Session.Lost.of_answered
    {v : Value}
    (h : (s.noted t (.answers v)).Lost t)
    (hKnown : Course (s.story t) p)
    (hLt : t < s.tasks.size) :
    s.Lost t ∧ (s.noted t (.answers v)).turns t = s.turns t := by
  have hStory : (s.noted t (.answers v)).story t =
      .answers v :: s.story t := by
    rw [story_noted, if_pos ⟨rfl, hLt⟩]
  rcases h with
    ⟨d, cell, q, e, k, f, hDrives, hCourse, hExpects, hAsked,
      hNot⟩
  have hDrives₀ : s.Drives t d cell := hDrives
  refine ⟨⟨d, cell, q, e, k, f, hDrives₀, ?_, hExpects,
    (asked?_answered hLt).symm.trans hAsked, ?_⟩, ?_⟩
  · rw [hStory] at hCourse
    obtain rfl := hCourse.det (hKnown.cons .answer)
    exact hKnown
  · rintro ⟨f', w, hw, hToken⟩
    refine hNot ⟨f', w, hw, ?_⟩
    cases e with
    | resume =>
        rcases hToken with ⟨callback, rfl, hIdle⟩
        refine ⟨callback, rfl, fun hNew => hIdle ?_⟩
        rcases hNew with hOut | hOver
        · have hMem := hDrives.escaped_iff.mp hOut
          rw [hStory] at hMem
          exact .inl (hDrives₀.escaped_iff.mpr (by simpa using hMem))
        · rcases hDrives.over_iff.mp hOver with
            ⟨state, hFinal, hMem⟩
          rw [hStory] at hMem
          exact .inr (hDrives₀.over_iff.mpr
            ⟨state, hFinal, by simpa using hMem⟩)
    | conclude =>
        refine ⟨hToken.1, fun hNew => hToken.2 ?_⟩
        rcases hDrives.stray_iff.mp hNew with ⟨v', hMem, hv'⟩
        rw [hStory] at hMem
        exact hDrives₀.stray_iff.mpr
          ⟨v', by simpa using hMem, hv'⟩
  · unfold Session.turns
    rw [hStory, List.countP_cons_of_neg (by simp [Moment.isTurn])]

/- Whoever started a task may be answered with its output. -/
theorem Driving.moves_answered
    (hs : (Driving held excused).Sound s)
    (hLt : t < s.tasks.size)
    (hFree : t ∉ held)
    {v : Value}
    (hAnswer : s.Answerable t v) :
    (Driving held excused).Moves s
      (s.noted t (.answers v)) := by
  rcases hs.inv.placed t hLt hFree with
    ⟨p, hRests, hCourse, hSeated⟩
  have hWork := (AtWork.begin_ hs hLt hFree hCourse).noted
    (.answer (v := v))
  have hMinds : Minds (t ∈ excused)
      (s.noted t (.answers v)) t := by
    intro d cell q hDrives hCourse'
    obtain rfl := hWork.course.det hCourse'
    exact (hs.inv.minded t hLt hFree d cell p hDrives
      hCourse).answered hDrives hLt
  refine hWork.rest hRests ?_ hMinds
    fun hLost => hLost.of_answered hCourse hLt
  rcases hSeated with ⟨hNone, hUndriven⟩ |
    ⟨d, cell, hDrives, hLinked, hSuits, hPledges⟩
  · refine .inl ⟨hNone, ?_⟩
    rcases hAnswer with ⟨d, cell, f, hDrives, _⟩ |
      ⟨_, hSettled⟩
    · exact absurd hDrives (hNone d cell)
    · cases p with
      | atOnce w =>
          intro f hf
          rcases mem_of_noted hf with hNew | hOld
          · cases hNew
            exact hSettled w f hCourse rfl
          · exact hUndriven f hOld
      | passedOn => trivial
      | _ => exact hUndriven
  · refine .inr ⟨d, cell, hDrives, ⟨fun w hw => ?_,
      fun k a hk => ?_⟩,
      hSuits.extends (s.extends_noted t _) rfl, fun e hp =>
        hPledges e (pledged_of_noted hp)⟩
    · rcases mem_of_noted hw with hNew | hOld
      · cases hNew
        rcases hAnswer with
          ⟨d', cell', f, hDrives', hOutput, rfl⟩ | ⟨hNone, _⟩
        · obtain rfl := hs.inv.sane.sole t d d' cell cell'
            hDrives hDrives'
          obtain ⟨_, rfl⟩ := hDrives.unique hDrives'
          exact ⟨f, rfl, hOutput⟩
        · exact absurd hDrives (hNone d cell)
      · exact hLinked.answered w hOld
    · rcases mem_of_noted hk with hNew | hOld
      · cases hNew
      · exact hLinked.asked k a hOld

------------------------------------------------------------
-- Running Tasks
------------------------------------------------------------

/- A session with a task that nothing has happened to. -/
def Session.tasked (s : Session) : Session :=
  s.withTasks (s.tasks.push ⟨[], []⟩)

theorem Session.story_tasked
    (t : Ref) :
    s.tasked.story t = s.story t := by
  simp only [story, tasked, withTasks, getD_push]
  split
  · next hNew =>
      rw [getD_of_size_le _ (Nat.le_of_eq hNew.symm)]
      rfl
  · rfl

/- A new task is nobody's work yet. -/
theorem Driving.bare_tasked
    (hs : (Driving held excused).Sound s) :
    Bare held excused s s.tasks.size .fresh s.tasked := by
  have hExtends : s.Extends s.tasked :=
    extends_withTasks (by simp) fun t => ⟨[], story_tasked t⟩
  have hUnmoved : ∀ t, s.Unmoved t s.tasked := fun t =>
    unmoved_withTasks hExtends (story_tasked t)
  have hStory : s.tasked.story s.tasks.size = [] := by
    rw [story_tasked, story,
      getD_of_size_le _ (Nat.le_refl _)]
    rfl
  have hOld : ∀ t' < s.tasked.tasks.size, t' ≠ s.tasks.size →
      t' < s.tasks.size := by
    intro t' ht' hOther
    have hLt : t' < s.tasks.size + 1 := by
      simpa [Session.tasked, withTasks] using ht'
    omega
  refine ⟨
    { sane := sane_withTasks hs.inv.sane hExtends
      stocked := { hs.stocked.mono fun _ =>
        hExtends.harmless with }
      lt := by simp [Session.tasked, withTasks]
      free := fun hHeld =>
        Nat.lt_irrefl _ (hs.inv.held _ hHeld).1
      others := fun t' ht' hOther hFree =>
        (hs.inv.placed t' (hOld t' ht' hOther) hFree).unmoved
          (hUnmoved t') hExtends
      minded := fun t' ht' hOther hFree =>
        (hs.inv.minded t' (hOld t' ht' hOther) hFree).unmoved
          (hUnmoved t')
      holds := fun t' ht' =>
        (hs.inv.held t' ht').unmoved (hUnmoved t') hExtends
      since := ⟨hExtends, fun t' _ => hUnmoved t',
        .of_drivers rfl⟩
      spared := fun t' _ hLost =>
        ⟨hLost.of_unmoved (hUnmoved t') fun _ _ hw => hw,
          (hUnmoved t').turns⟩
      course := hStory ▸ .nil }, ?_, ?_⟩
  · intro d cell hDrives
    exact Nat.lt_irrefl _ (hs.inv.sane.owner _ d cell hDrives)
  · intro m hm
    rw [hStory] at hm
    cases hm

/-
  Running a task keeps the world of tasks, and whoever runs
  it is answered with a future if what its code returns is of
  the declared type.
-/
theorem Driving.ensures_runTask
    (hAll : ∀ held excused,
      (Driving held excused).Serves caller)
    (hs : (Driving held excused).Sound s)
    {em : Emitter}
    {code : Closure}
    (hFit : ∀ c ∈ em.listener, s.Harmless c.core)
    (hCode : s.Harmless code)
    (m : Value)
    {declared : Prop}
    (hDeclared : declared →
      (Task.opening caller code
        { em with task := s.tasks.size }).Ensures s.tasked
          fun r _ => ∀ v, r = .ok v → v.isDeclared) :
    (Task.run caller m code em).Ensures s fun r s' =>
      (Driving held excused).Moves s s' ∧
        (declared → ∃ f, r = .ok (.future f)) := by
  have hBare := Driving.bare_tasked hs
  have hExtends := hBare.work.since.extends_
  have hTask : ({ em with task := s.tasks.size } :
      Emitter).task = s.tasks.size := rfl
  have hLaunch := hBare.launch hAll hTask
    (fun c hm => hExtends.harmless (hFit c hm))
    (hExtends.harmless hCode) hDeclared m
  unfold Task.run
  refine Run.ensures_alloc_bind.mpr
    (Run.Ensures.bind (Run.Ensures.mono hLaunch ?_))
  rintro r s₁ ⟨hMoves, hLt, hAnswer, hReturned⟩
  cases r with
  | error e =>
      refine ⟨hMoves, fun hTyped => ?_⟩
      rcases hReturned hTyped with ⟨f, hf⟩
      cases hf
  | ok output =>
      refine Run.ensures_alter_bind.mpr
        (Run.ensures_pure.mpr ⟨?_, hReturned⟩)
      exact hMoves.trans (Driving.moves_answered hMoves.sound
        hLt hBare.work.free (hAnswer output rfl))

/- Running a task keeps the world of tasks. -/
theorem Driving.keeps_runTask
    (hAll : ∀ held excused,
      (Driving held excused).Serves caller)
    (hs : (Driving held excused).Sound s)
    {em : Emitter}
    {code : Closure}
    (hFit : ∀ c ∈ em.listener, s.Harmless c.core)
    (hCode : s.Harmless code)
    (m : Value) :
    (Driving held excused).Keeps
      (Task.run caller m code em) s := by
  have hRun := Driving.ensures_runTask hAll hs hFit hCode m
    (False.elim : False → _)
  exact hRun.mono fun _ _ h => h.1

end Launch

end Resumption

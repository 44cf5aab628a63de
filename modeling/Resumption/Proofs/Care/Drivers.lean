import Resumption.Proofs.Care.Ends

/-
  What drivers do in the careful world: they hold their tasks
  while they work on them, and release them when they wait or
  have come to an end.

  Main declarations:
    * `Made`, `Stepped`
    * `Holding.emit`, `Holding.stand`
    * `Holding.register`, `Holding.suspend`
    * `Holding.handOff`
    * `Holding.jump`, `Holding.advance`
    * `Caring.keeps_resume`
-/

namespace Resumption

open Session World

variable {held : List Ref}
variable {s s₀ s₁ s' : Session}
variable {t d m : Ref}
variable {cell : DriverCell}
variable {caller : Caller}
variable {opened : List Ref}
variable {F : Footprint}

/- What code comes back to is what it was. -/
theorem Session.Carries.abides
    {code : Closure}
    {args : List Value}
    (h : s.Carries m t code args opened F)
    (hAbides : Abides t s s') :
    s'.Carries m t code args opened F :=
  h.later hAbides.sustains fun c hc =>
    hAbides.cells c (h.belongs hc)

/- So is what a step comes back to. -/
theorem Session.Opens.abides
    {v : Value}
    (h : s.Opens m t v opened F)
    (hAbides : Abides t s s') :
    s'.Opens m t v opened F :=
  h.later hAbides.sustains fun c hc =>
    hAbides.cells c (h.belongs hc)

/- Whose code is at hand matters to no task. -/
theorem Session.untouched_task
    (s : Session)
    (task home : Option Ref)
    (chronicle : List Incident)
    (t : Ref) :
    Abides t s
        { s with
          task := task
          home := home
          chronicle := chronicle } ∧
      Untouched t s
        { s with
          task := task
          home := home
          chronicle := chronicle } :=
  have hUntouched := { Untouched.refl t s with }
  ⟨Untouched.abides hUntouched { Sustains.refl s with },
    hUntouched⟩

theorem Caring.sound_task
    (hs : (Caring held).Sound s)
    (task home : Option Ref)
    (chronicle : List Incident) :
    (Caring held).Sound
      { s with
        task := task
        home := home
        chronicle := chronicle } := by
  have hSame := s.untouched_task task home chronicle
  exact sound_onward hs (hSame default).1.sustains
    (fun t => (hSame t).2)
    (fun f w hw => (hSame default).1.sustains.careful
      (hs.inv.watchers f w hw))
    hs.inv.checks (Nat.le_refl _) { hs.stocked with }

/-
  The code of a task that is held has made something that
  comes back to all open cleanups; or it has failed, and none
  is open.
-/
structure Made
    (held : List Ref)
    (s₀ : Session)
    (t m : Ref)
    (r : Except Value Value)
    (s : Session) : Prop where
  holding : Holding held s₀ t s
  made : ∀ v, r = .ok v → ∃ opened F,
    s.Opens m t v opened F ∧ Care.Leaves (s.care t) opened
  failed : ∀ e, r = .error e → Care.Leaves (s.care t) []

/- Something is noted of the task, and nothing is of its code. -/
theorem Made.noted
    {k : Moment}
    {r : Except Value Value}
    (h : Made held s₀ t m r s)
    (hGoes : ¬ k.Quits)
    (hHands : ∀ v, k = .handsOver v → ∃ f, v = .future f) :
    Made held s₀ t m r (s.noted t k) := by
  have hSame := (Session.Revises.noted s t k).abides
    (care_noted s t t k)
  refine ⟨h.holding.noted hGoes hHands, fun v hv => ?_,
    fun e he => ?_⟩
  · rcases h.made v hv with ⟨opened, G, hOpens, hLeaves⟩
    exact ⟨opened, G, hOpens.abides hSame,
      hSame.care.symm ▸ hLeaves⟩
  · exact hSame.care.symm ▸ h.failed e he

namespace Holding

------------------------------------------------------------
-- Tasks that Are Held
------------------------------------------------------------

/- Nobody else touches the code of a task that is held. -/
theorem abides
    (h : (Caring (t :: held)).Moves s s') :
    Abides t s s' :=
  (h.rel.held t List.mem_cons_self).abides h.rel.sustains

/- Nor its driver. -/
theorem drives
    (h : (Caring (t :: held)).Moves s s')
    (hDrives : s.Drives t d cell) :
    s'.Drives t d cell :=
  ((h.rel.held t List.mem_cons_self).drives d cell).mpr hDrives

/-
  A task whose driver has asked for nothing may be released
  when all its cleanups are compensated.
-/
theorem cleared
    (h : Holding held s₀ t s)
    (hLeaves : Care.Leaves (s.care t) []) :
    (Caring held).Moves s₀ s := by
  rcases h.sound.inv.held t List.mem_cons_self with
    ⟨_, hOngoing, hSpent⟩
  refine h.release (.refl t s) (fun _ => id)
    (h.sound.inv.handsOver t) fun d cell hDrives => ?_
  refine .cleared (hSpent d cell hDrives)
    ⟨0, s.care t, rfl, hLeaves, ?_⟩
  rintro ⟨outcome, hMem⟩
  exact absurd trivial (hOngoing _ hMem)

/- Its listener is told of an event. -/
theorem tell
    {em : Emitter}
    {event : Event}
    (h : Holding held s₀ t s)
    (hc : (Caring (t :: held)).Serves caller)
    (hTask : em.task = t)
    (hFit : ∀ c ∈ em.listener, c.Careful s) :
    (em.emit caller event).Ensures s fun r s' =>
      r = .ok () ∧ Holding held s₀ t s' ∧ Abides t s s' ∧
        ∀ d cell, s'.Drives t d cell ↔ s.Drives t d cell := by
  have h₁ := h.noted (m := .told event) id nofun
  have hRevises := Session.Revises.noted s t (.told event)
  unfold Emitter.emit
  rw [hTask]
  refine Run.ensures_alter_bind.mpr ?_
  refine Run.Ensures.mono ((keeps_tell hc h₁.sound
    (fun c hm => hRevises.sustains.careful (hFit c hm))
    event).and tell_ne_error) ?_
  rintro r s' ⟨hMoves, hOk⟩
  refine ⟨hOk, h₁.moves hMoves, ?_,
    (hMoves.rel.held t List.mem_cons_self).drives⟩
  exact (hRevises.abides (care_noted s t t _)).trans
    (abides hMoves)

/- Its driver tells it. -/
theorem emit
    {event : Event}
    (h : Holding held s₀ t s)
    (hc : (Caring (t :: held)).Serves caller)
    (hDrives : s.Drives t d cell) :
    (Driver.emit caller d event).Ensures s fun r s' =>
      r = .ok () ∧ Holding held s₀ t s' ∧
        s'.Drives t d cell ∧ Abides t s s' := by
  have hRow : (Table.drivers.rows s).getD d default = cell :=
    hDrives.getD
  unfold Driver.emit
  refine Run.ensures_row_bind.mpr ?_
  rw [hRow]
  refine Run.Ensures.mono (h.tell hc hDrives.2
    (fits_listener h.sound hDrives)) ?_
  rintro r s' ⟨hOk, h₁, hSame, hStill⟩
  exact ⟨hOk, h₁, (hStill d cell).mpr hDrives, hSame⟩

/- The driver enters a state that is not its last. -/
theorem stand
    {state : DriverState}
    (h : Holding held s₀ t s)
    (hDrives : s.Drives t d cell)
    (hGoes : ¬ state.IsFinal) :
    Holding held s₀ t ((s.noted t (.stands state)).reseated d
        ({ · with state := state })) ∧
      ((s.noted t (.stands state)).reseated d
        ({ · with state := state })).Drives t d
          { cell with state := state } ∧
      Abides t s ((s.noted t (.stands state)).reseated d
        ({ · with state := state })) := by
  have h₁ := h.noted (m := .stands state) hGoes nofun
  have h₂ := h₁.reseated (g := ({ · with state := state }))
    hDrives (fun _ => rfl) fun _ => rfl
  refine ⟨h₂.1, h₂.2, Session.Revises.abides ?_
    (care_noted s t t (.stands state))⟩
  exact (Session.Revises.noted s t _).trans
    (.reseated hDrives fun _ => rfl)

------------------------------------------------------------
-- Suspending
------------------------------------------------------------

/-
  A driver that is to resume what carries all open cleanups
  asks an awaiter to be called back.
-/
theorem register
    (h : Holding held s₀ t s)
    (hc : (Caring held).Serves caller)
    (hDrives : s.Drives t d cell)
    (hPrimed : s.Primed t cell)
    (awaiter : Value) :
    (Driver.register caller d awaiter).Ensures s
      fun _ s' => (Caring held).Moves s₀ s' := by
  rcases h.sound.inv.held t List.mem_cons_self with
    ⟨_, hOngoing, hSpent⟩
  have hRow : (Table.drivers.rows s).getD d default = cell :=
    hDrives.getD
  have hSole := Caring.sole h.sound hDrives
  let s₁ := s.reseated d fun c =>
    { c with fired := c.fired.push false }
  let asked : Moment :=
    .asks (some cell.fired.size) (s₁.keeper? awaiter)
  let s₂ := s₁.noted t asked
  let s₃ := s₂.withIncident
    (.awaits d cell.fired.size (s₂.source? awaiter))
  have hReseated : s.Revises t s₁ :=
    .reseated hDrives fun _ => rfl
  have hNoted : s₁.Revises t s₂ := .noted s₁ t asked
  have hTold : s₂.Revises t s₃ := .withIncident s₂ t _
  have hRevises := (hReseated.trans hNoted).trans hTold
  have hDrives₁ := hDrives.altered
    (g := fun c => { c with fired := c.fired.push false })
    fun _ => rfl
  -- The task is released before the awaiter is asked, which
  -- may call back at once.
  have hMoves : (Caring held).Moves s₀ s₃ := by
    refine h.release hRevises (fun i hMem => ?_)
      (fun v hMem => ?_) fun d' cell' hDrives' => ?_
    · exact care_noted s₁ t t asked ▸ hMem
    · exact h.sound.inv.handsOver t v
        ((mem_of_noted (s := s₁) hMem).resolve_left nofun)
    · obtain rfl := Session.Drives.of_reseated (s := s) hDrives'
        hDrives hSole fun _ => rfl
      refine .suspended ⟨fun m' hMem => ?_,
        (hSpent d cell hDrives).asked, hPrimed.later
          (hRevises.abides (care_noted s₁ t t asked)) rfl rfl
            rfl⟩
      rcases mem_of_noted (s := s₁) hMem with rfl | hOld
      · exact id
      · exact hOngoing m' hOld
  unfold Driver.register
  refine Run.ensures_row_bind.mpr ?_
  rw [hRow]
  refine Run.ensures_alter_bind.mpr ?_
  refine ensures_keeper_bind.mpr ?_
  refine (ensures_note_bind hDrives₁).mpr ?_
  refine ensures_source_bind.mpr ?_
  refine Run.ensures_modify_bind.mpr ?_
  refine Keeps.of_moves hMoves ?_
  have hRegister : (Caring held).Keeps (Awaiter.register caller
      awaiter (.driverResume d cell.fired.size)) s₃ :=
    (Caring.hosts hc).keeps_register hc hMoves.sound awaiter
      trivial
  refine hRegister.attempt.bind fun registered s₄ h₄ => ?_
  cases registered with
  | ok u => exact keeps_pure.mpr (.refl h₄.sound)
  | error e =>
      -- Whatever the awaiter did, the task is broken off here.
      have hDrives₃ : s₃.Drives t d _ := hDrives₁
      rcases Caring.drives h₄.rel.sustains hDrives₃ with
        ⟨cell₄, hDrives₄⟩
      exact Caring.keeps_breaking (m := .unregistered e) hc
        h₄.sound hDrives₄ h.free trivial e

/- A driver suspends where a step carries all open cleanups. -/
theorem suspend
    {l : Ref}
    {code : Closure}
    (h : Holding held s₀ t s)
    (hAll : Caring.Serving caller)
    (hDrives : s.Drives t d cell)
    (hFirst : cell.first = none)
    (hMachine : cell.machine = .machine m)
    (hBears : s.Bears m l (some code))
    (hCarries : s.Carries m t code [] opened F)
    (hLeaves : Care.Leaves (s.care t) opened)
    (awaiter : Value) :
    (Driver.suspend caller d awaiter (.label l)).Ensures s
      fun _ s' => (Caring held).Moves s₀ s' := by
  have hPrimed : s.Primed t { cell with current := .label l } :=
    ⟨hFirst, m, l, code, opened, F, hMachine, rfl, hBears,
      hCarries, hLeaves⟩
  have h₁ := h.reseated (g := ({ · with current := .label l }))
    hDrives (fun _ => rfl) fun _ => rfl
  have hSame₁ := (Session.Revises.reseated
    (g := ({ · with current := .label l })) hDrives
      fun _ => rfl).abides rfl
  have hGoes : ¬ DriverState.suspended.IsFinal := id
  rcases h₁.1.stand h₁.2 hGoes with ⟨h₂, hDrives₂, hSame₂⟩
  unfold Driver.suspend
  refine Run.ensures_alter_bind.mpr ?_
  refine (ensures_setState_bind h₁.2).mpr ?_
  generalize ((s.reseated d _).noted t _).reseated d _ = s₂ at *
  have h₃ := h₂.noted (m := .suspends (.label l)) id nofun
  have hSame₃ := (Session.Revises.noted s₂ t
    (.suspends (.label l))).abides (care_noted s₂ t t _)
  refine (ensures_note_bind hDrives₂).mpr ?_
  refine Run.Ensures.bind (Run.Ensures.mono
    ((keeps_field h₃.sound (.label l) "id").and
      (ensures_field (.label l) "id")) ?_)
  rintro r s₄ ⟨h₄, _, hMissing⟩
  cases r with
  | error e => cases hMissing e rfl
  | ok id' =>
      refine Run.Ensures.bind (Run.Ensures.mono
        ((h₃.moves h₄).emit (hAll _) (drives h₄ hDrives₂)) ?_)
      rintro r s₅ ⟨rfl, h₅, hDrives₅, hSame₅⟩
      have hSame := (((hSame₁.trans hSame₂).trans hSame₃).trans
        (abides h₄)).trans hSame₅
      exact h₅.register (hAll held) hDrives₅
        (hPrimed.later hSame rfl rfl rfl) awaiter

------------------------------------------------------------
-- Handing Off
------------------------------------------------------------

/-
  While all cleanups are compensated, others may do something
  first, and may as well fail.
-/
theorem bind
    {α β : Type}
    {act : Run α}
    {next : α → Run β}
    (h : Holding held s₀ t s)
    (hLeaves : Care.Leaves (s.care t) [])
    (hAct : (Caring (t :: held)).Keeps act s)
    (hNext : ∀ a s₁, (Caring (t :: held)).Moves s s₁ →
      Holding held s₀ t s₁ → Care.Leaves (s₁.care t) [] →
      (next a).Ensures s₁
        fun _ s' => (Caring held).Moves s₀ s') :
    (act >>= next).Ensures s
      fun _ s' => (Caring held).Moves s₀ s' := by
  refine Run.Ensures.bind (Run.Ensures.mono hAct ?_)
  intro r s₁ hMoves
  have hLeaves₁ : Care.Leaves (s₁.care t) [] := by
    rw [(abides hMoves).care]
    exact hLeaves
  cases r with
  | ok a => exact hNext a s₁ hMoves (h.moves hMoves) hLeaves₁
  | error e => exact (h.moves hMoves).cleared hLeaves₁

/- The driver takes the outcome that there is already. -/
theorem conclude
    (h : Holding held s₀ t s)
    (hAll : Caring.Serving caller)
    (hDrives : s.Drives t d cell)
    (hLeaves : Care.Leaves (s.care t) [])
    (awaiter : Value) :
    (Driver.conclude caller d awaiter).Ensures s
      fun _ s' => (Caring held).Moves s₀ s' := by
  have h₁ := h.noted (m := .concludes) id nofun
  unfold Driver.conclude
  refine (ensures_note_bind hDrives).mpr ?_
  have hResult := ((Caring.hosts (hAll _)).keeps_result
    (hAll (t :: held)) h₁.sound awaiter).attempt
  refine h₁.bind ?_ hResult fun ended s₂ hMoves h₂ hLeaves₂ => ?_
  · rw [care_noted]
    exact hLeaves
  · have hDrives₂ := drives hMoves hDrives
    split <;>
      exact h₂.finish (hAll held) hDrives₂ hLeaves₂ _

/- The driver is to end by what a future ends by. -/
theorem await
    (h : Holding held s₀ t s)
    (hAll : Caring.Serving caller)
    (hDrives : s.Drives t d cell)
    (hLeaves : Care.Leaves (s.care t) [])
    (awaiter : Value) :
    (do
      Driver.setState d .suspended
      Driver.note d (.asks none (← Awaiter.keeper? awaiter))
      discard <| Awaiter.register caller awaiter
        (.driverOutcome d awaiter) : Run Unit).Ensures s
      fun _ s' => (Caring held).Moves s₀ s' := by
  have hGoes : ¬ DriverState.suspended.IsFinal := id
  rcases h.stand hDrives hGoes with ⟨h₁, hDrives₁, hSame₁⟩
  refine (ensures_setState_bind hDrives).mpr ?_
  generalize (s.noted t _).reseated d _ = s₁ at *
  rcases h₁.sound.inv.held t List.mem_cons_self with
    ⟨hLt, hOngoing, hSpent⟩
  refine ensures_keeper_bind.mpr ?_
  refine (ensures_note_bind hDrives₁).mpr ?_
  have hMoves : (Caring held).Moves s₀
      (s₁.noted t (.asks none (s₁.keeper? awaiter))) := by
    refine h₁.release (.noted s₁ t _)
      (fun i hMem => care_noted s₁ t t _ ▸ hMem)
      (fun v hMem => h₁.sound.inv.handsOver t v
        ((mem_of_noted hMem).resolve_left nofun))
      fun d' cell' hDrives' => ?_
    refine .cleared (hSpent d' cell' hDrives')
      ⟨0, s₁.care t, care_noted s₁ t t _, ?_, ?_⟩
    · rw [hSame₁.care]
      exact hLeaves
    · rintro ⟨outcome, hMem⟩
      exact absurd trivial (hOngoing _
        ((mem_of_noted hMem).resolve_left nofun))
  refine Keeps.of_moves hMoves (Keeps.discard ?_)
  refine (Caring.hosts (hAll held)).keeps_register (hAll held)
    hMoves.sound awaiter ?_
  refine ⟨_, s₁.keeper? awaiter, hDrives₁.1, ?_⟩
  rw [hDrives₁.2]
  exact (mem_noted_iff hLt).mpr (.inl rfl)

/- A driver hands off when all cleanups are compensated. -/
theorem handOff
    (h : Holding held s₀ t s)
    (hAll : Caring.Serving caller)
    (hDrives : s.Drives t d cell)
    (hLeaves : Care.Leaves (s.care t) [])
    (f : Ref) :
    (Driver.handOff caller d (.future f)).Ensures s
      fun _ s' => (Caring held).Moves s₀ s' := by
  have hc := hAll (t :: held)
  have hHosts := Caring.hosts hc
  have h₁ := h.noted (m := .handsOver (.future f)) id
    fun v hSame => ⟨f, (Moment.handsOver.inj hSame).symm⟩
  unfold Driver.handOff
  refine (ensures_note_bind hDrives).mpr ?_
  refine h₁.bind ?_ (hHosts.keeps_awaiterWith hc h₁.sound _ _)
    fun awaiter s₂ hMoves₂ h₂ hLeaves₂ => ?_
  · rw [care_noted]
    exact hLeaves
  refine Run.Ensures.bind (Run.Ensures.mono
    (h₂.emit hc (drives hMoves₂ hDrives)) ?_)
  rintro r s₃ ⟨rfl, h₃, hDrives₃, hSame₃⟩
  refine h₃.bind (hSame₃.care.symm ▸ hLeaves₂)
    (hHosts.keeps_completed hc h₃.sound awaiter)
    fun done s₄ hMoves₄ h₄ hLeaves₄ => ?_
  have hDrives₄ := drives hMoves₄ hDrives₃
  split
  · exact h₄.conclude hAll hDrives₄ hLeaves₄ awaiter
  · exact h₄.await hAll hDrives₄ hLeaves₄ awaiter

------------------------------------------------------------
-- Jumping
------------------------------------------------------------

/- The code of a task that is held is run as the task's. -/
theorem withTask
    {body : Run Value}
    (h : Holding held s₀ t s)
    (hm : m < s.machines.size)
    (hBody : ∀ s₁, (Stint.mk held t m []).Active s₁ →
      Abides t s s₁ →
        (Stint.mk held t m []).Yields F body s₁) :
    (Run.withTask t body).Ensures s fun r s' =>
      Made held s₀ t m r s' ∧ s.Sustains s' ∧
        ∀ d cell, s'.Drives t d cell ↔ s.Drives t d cell := by
  have hIn := s.untouched_task (some t) (some t)
    (.enters t s.ambient :: s.chronicle)
  have hActive : (Stint.mk held t m []).Active
      (Run.entering t s) :=
    ⟨Caring.sound_task h.sound _ _ _, rfl, h.free, hm⟩
  refine Run.ensures_withTask.mpr (Run.Ensures.mono
    (hBody _ hActive (hIn t).1) ?_)
  intro r s₂ hMakes
  have hWorks := hMakes.works
  have hOut := s₂.untouched_task s.task s.home s₂.chronicle
  have hSame := (hOut t).1
  have hSustains := ((hIn t).1.sustains.trans
    hWorks.sustains).trans hSame.sustains
  refine ⟨⟨⟨Caring.sound_task hWorks.sound _ _ _, h.free,
    h.since.trans ⟨hSustains, rfl, fun t' ht' => ?_⟩⟩, ?_, ?_⟩,
    hSustains, hWorks.parked.drives⟩
  · exact ((hIn t').2.trans (hWorks.held t' ht')).trans
      (hOut t').2
  · intro v hv
    rcases hMakes.made v hv with ⟨opened, G, hOpens, hLeaves, _⟩
    refine ⟨opened, G, hOpens.abides hSame, ?_⟩
    rw [hSame.care]
    simpa [Stint.Leaves] using hLeaves
  · intro e he
    rw [hSame.care]
    simpa [Stint.Leaves] using hMakes.failed e he

/- A driver jumps to what carries all open cleanups. -/
theorem jump
    {l : Ref}
    {code : Closure}
    (h : Holding held s₀ t s)
    (hc : Stint.Carrying caller)
    (hDrives : s.Drives t d cell)
    (hMachine : cell.machine = .machine m)
    (hBears : s.Bears m l (some code))
    (hCarries : s.Carries m t code [] opened F)
    (hLeaves : Care.Leaves (s.care t) opened) :
    (Driver.jump caller d (.label l)).Ensures s fun r s' =>
      Made held s₀ t m r s' ∧ s'.Drives t d cell := by
  have hDrives₁ : (s.noted t (.jumps (.label l)
      (s.ending cell).isSome)).Drives t d cell := hDrives
  have hSame₁ := (Session.Revises.noted s t (.jumps (.label l)
    (s.ending cell).isSome)).abides (care_noted s t t _)
  have h₁ := h.noted (m := .jumps (.label l)
    (s.ending cell).isSome) id nofun
  unfold Driver.jump
  refine (ensures_hasSettled_bind hDrives).mpr ?_
  refine (ensures_note_bind hDrives).mpr ?_
  generalize s.noted t _ = s₁ at *
  have hBears₁ := hSame₁.sustains.bears _ _ _ hBears
  have hCarries₁ := hCarries.abides hSame₁
  have hLeaves₁ : Care.Leaves (s₁.care t) opened :=
    hSame₁.care.symm ▸ hLeaves
  refine Run.ensures_row_bind.mpr ?_
  rw [show (Table.drivers.rows s₁).getD d default = cell
    from hDrives₁.getD, hDrives₁.2, hMachine]
  refine Run.Ensures.bind (Run.ensures_attempt.mpr
    (Run.Ensures.mono
      (h₁.withTask (F := F) hBears₁.lt_machines
        fun s₂ hActive hSame₂ => ?_) ?_))
  · refine .jump hc hActive ?_
      (hSame₂.sustains.bears _ _ _ hBears₁)
      (hCarries₁.abides hSame₂)
    simpa [Stint.Leaves, hSame₂.care] using hLeaves₁
  · rintro r s₃ ⟨hMade, _, hStill⟩
    have hDrives₃ := (hStill d cell).mpr hDrives₁
    have hLands := hMade.noted (k := .lands (.label l)) id
      fun _ h => by cases h
    refine (ensures_note_bind hDrives₃).mpr ?_
    cases r with
    | ok v => exact Run.ensures_pure.mpr ⟨hLands, hDrives₃⟩
    | error e => exact Run.ensures_raise.mpr ⟨hLands, hDrives₃⟩

------------------------------------------------------------
-- Advancing
------------------------------------------------------------

end Holding

/- The next step of a driver was made by its task's code. -/
structure Stepped
    (held : List Ref)
    (s₀ : Session)
    (t d : Ref)
    (r : Except Value Value)
    (s : Session) : Prop where
  reached : ∃ m cell, Made held s₀ t m r s ∧
    s.Drives t d cell ∧ cell.first = none ∧
      cell.machine = .machine m
  isStep : ∀ v, r = .ok v → v.isStep

namespace Holding

/- A driver that is called back jumps to where it is primed. -/
theorem nextStep
    (h : Holding held s₀ t s)
    (hAll : Caring.Serving caller)
    (hc : Stint.Carrying caller)
    (hDrives : s.Drives t d cell)
    (hPrimed : s.Primed t cell) :
    (Driver.nextStep caller d).Ensures s
      (Stepped held s₀ t d) := by
  rcases hPrimed.carries with ⟨m, l, code, opened, F, hMachine,
    hCurrent, hBears, hCarries, hLeaves⟩
  have hHeld := hAll (t :: held)
  unfold Driver.nextStep
  refine Run.ensures_row_bind.mpr ?_
  rw [show (Table.drivers.rows s).getD d default = cell
    from hDrives.getD, hPrimed.first, hCurrent]
  refine Run.Ensures.bind (Run.Ensures.mono
    ((keeps_field h.sound (.label l) "id").and
      (ensures_field (.label l) "id")) ?_)
  rintro r s₁ ⟨hMoves₁, _, hMissing⟩
  cases r with
  | error e => cases hMissing e rfl
  | ok id' =>
  refine Run.Ensures.bind (Run.Ensures.mono
    ((h.moves hMoves₁).emit hHeld (drives hMoves₁ hDrives)) ?_)
  rintro r s₂ ⟨rfl, h₂, hDrives₂, hSame₂⟩
  have hSame := (abides hMoves₁).trans hSame₂
  refine Run.Ensures.bind (Run.Ensures.mono (h₂.jump hc hDrives₂
    hMachine (hSame.sustains.bears _ _ _ hBears)
    (hCarries.abides hSame) (hSame.care.symm ▸ hLeaves)) ?_)
  rintro r s₃ ⟨hMade, hDrives₃⟩
  cases r with
  | error e =>
      exact ⟨⟨m, cell, hMade, hDrives₃, hPrimed.first, hMachine⟩,
        nofun⟩
  | ok step =>
      change (if step.isStep then _ else _ :
        Run Value).Ensures s₃ _
      split
      · next hStep =>
          refine Run.ensures_pure.mpr ⟨⟨m, cell, hMade, hDrives₃,
            hPrimed.first, hMachine⟩, ?_⟩
          rintro _ ⟨⟩
          exact hStep
      · next hNot =>
          -- What is no step comes back to nothing that is open.
          rcases hMade.made step rfl with
            ⟨opened₃, G, hOpens, hLeaves₃⟩
          obtain rfl := hOpens.ends_of_not (by simpa using hNot)
          have hDefect : (Caring (t :: held)).Keeps (do
              let id ← Run.field (.label l) "id"
              Run.defect (.malformedStep id step) : Run Value)
              s₃ :=
            (keeps_field hMade.holding.sound _ _).bind
              fun id' s₄ h₄ => keeps_defect h₄.sound _
          refine Run.Ensures.mono (hDefect.and
            (raises_bind fun _ _ => raises_defect _)) ?_
          rintro r s₄ ⟨h₄, e, rfl⟩
          refine ⟨⟨m, cell, ⟨hMade.holding.moves h₄, nofun,
            fun _ _ => ?_⟩, drives h₄ hDrives₃, hPrimed.first,
            hMachine⟩, nofun⟩
          rw [(abides h₄).care]
          exact hLeaves₃

/- A driver that was just made takes the step it was made for. -/
theorem firstStep
    {step : Value}
    (h : Holding held s₀ t s)
    (hDrives : s.Drives t d cell)
    (hFirst : cell.first = some step)
    (hMachine : cell.machine = .machine m)
    (hStep : step.isStep)
    (hOpens : s.Opens m t step opened F)
    (hLeaves : Care.Leaves (s.care t) opened) :
    (Driver.nextStep caller d).Ensures s
      (Stepped held s₀ t d) := by
  have h₁ := h.reseated (g := ({ · with first := none }))
    hDrives (fun _ => rfl) fun _ => rfl
  have hSame := (Session.Revises.reseated
    (g := ({ · with first := none })) hDrives
      fun _ => rfl).abides rfl
  unfold Driver.nextStep
  refine Run.ensures_row_bind.mpr ?_
  rw [show (Table.drivers.rows s).getD d default = cell
    from hDrives.getD, hFirst]
  refine Run.ensures_alter_bind.mpr (Run.ensures_pure.mpr ?_)
  refine ⟨⟨m, _, ⟨h₁.1, ?_, nofun⟩, h₁.2, rfl, hMachine⟩, ?_⟩
  · rintro _ ⟨⟩
    exact ⟨opened, F, hOpens.abides hSame, hLeaves⟩
  · rintro _ ⟨⟩
    exact hStep

end Holding

/- With its next step a driver waits, or ends its task. -/
theorem Stepped.goesOn
    (hAll : Caring.Serving caller)
    (step : Except Value Value) :
    Stepped held s₀ t d step s →
    (match step with
      | .error e => Driver.fail caller d e
      | .ok step =>
          match step.step? with
          | none => return ()
          | some (.finish v) => Driver.succeed caller d v
          | some (.handOff future) =>
              Driver.handOff caller d future
          | some (.suspend awaiter label) =>
              Driver.suspend caller d awaiter label :
        Run Unit).Ensures s
      fun _ s' => (Caring held).Moves s₀ s' := by
  intro h
  rcases h.reached with
    ⟨m, cell, hMade, hDrives, hFirst, hMachine⟩
  cases step with
  | error e =>
      exact hMade.holding.finish (hAll held) hDrives
        (hMade.failed e rfl) (.rejected e)
  | ok step =>
      rcases Option.isSome_iff_exists.mp (h.isStep step rfl)
        with ⟨view, hView⟩
      rcases hMade.made step rfl with
        ⟨opened, F, hOpens, hLeaves⟩
      simp only [hView]
      cases view with
      | finish v =>
          obtain ⟨_, rfl⟩ := hOpens.ends_of_finish hView
          exact hMade.holding.finish (hAll held) hDrives hLeaves
            (.fulfilled v)
      | handOff future =>
          obtain ⟨⟨f, rfl⟩, rfl⟩ :=
            hOpens.future_of_handOff hView
          exact hMade.holding.handOff hAll hDrives hLeaves f
      | suspend awaiter label =>
          rcases hOpens.carries_of_suspend hView with
            ⟨l, code, rfl, hBears, hCarries⟩
          exact hMade.holding.suspend hAll hDrives hFirst
            hMachine hBears hCarries hLeaves awaiter

/- A driver that takes a step goes on with it. -/
theorem Holding.advance
    (h : Holding held s₀ t s)
    (hAll : Caring.Serving caller)
    (hDrives : s.Drives t d cell)
    (hNext : ∀ s₁, Holding held s₀ t s₁ →
      s₁.Drives t d { cell with state := .running } →
      Abides t s s₁ →
      (Driver.nextStep caller d).Ensures s₁
        (Stepped held s₀ t d)) :
    (Driver.advance caller d).Ensures s
      fun _ s' => (Caring held).Moves s₀ s' := by
  have hGoes : ¬ DriverState.running.IsFinal := id
  rcases h.stand hDrives hGoes with ⟨h₁, hDrives₁, hSame₁⟩
  unfold Driver.advance
  refine (ensures_setState_bind hDrives).mpr ?_
  refine Run.Ensures.bind (Run.ensures_attempt.mpr
    (Run.Ensures.mono (hNext _ h₁ hDrives₁ hSame₁) ?_))
  intro step s₂ hStepped
  exact Stepped.goesOn hAll step hStepped

------------------------------------------------------------
-- Calling Back
------------------------------------------------------------

namespace Caring

/- A driver whose callback fires has asked for nothing else. -/
theorem holds_fired
    {callback : Nat}
    (hs : (Caring held).Sound s)
    (hDrives : s.Drives t d cell)
    (hFree : t ∉ held)
    (h : s.Suspended t cell)
    (hLeft : cell.fired.getD callback true = false) :
    Holding held s t (s.reseated d fun c =>
      { c with fired := c.fired.setIfInBounds callback true }) ∧
    (Caring held).Moves s (s.reseated d fun c =>
      { c with fired := c.fired.setIfInBounds callback true }) := by
  have hSole := sole hs hDrives
  have hSpent := h.single.fire hLeft
  have hLt := (hs.inv.staffed t).lt d cell hDrives
  have hRevises : s.Revises t (s.reseated d fun c =>
      { c with fired := c.fired.setIfInBounds callback true }) :=
    .reseated hDrives fun _ => rfl
  have hCells : ∀ d' cell', (s.reseated d fun c =>
      { c with fired := c.fired.setIfInBounds callback true }
      ).Drives t d' cell' → cell' = { cell with
        fired := cell.fired.setIfInBounds callback true } :=
    fun d' cell' hDrives' => Session.Drives.of_reseated (s := s)
      hDrives' hDrives hSole fun _ => rfl
  refine ⟨⟨revised hs hRevises (fun t' ht' => by simp [ht'])
    (fun _ => id) (hs.inv.handsOver t)
    (fun hNot => absurd List.mem_cons_self hNot)
    fun _ => ⟨hLt, h.ongoing, ?_⟩, hFree,
    hRevises.heeds hFree⟩, ?_⟩
  · intro d' cell' hDrives'
    rw [hCells d' cell' hDrives']
    exact hSpent
  · refine moves_revised hs hFree hRevises (fun _ => id)
      (fun _ => id) fun d' cell' hDrives' => ?_
    rw [hCells d' cell' hDrives']
    refine .suspended ⟨h.ongoing, fun i j hi => ?_,
      h.primed.later (hRevises.abides rfl) rfl rfl rfl⟩
    exact absurd ((hSpent i).symm.trans hi) (by simp)

/- A callback of a driver may be called by anyone. -/
theorem keeps_resume
    (hAll : Caring.Serving caller)
    (hc : Stint.Carrying caller)
    (hs : (Caring held).Sound s)
    (d callback : Ref)
    (failure : Value) :
    (Caring held).Keeps
      (Driver.resume caller d callback failure) s := by
  cases hCell : s.drivers[d]? with
  | none =>
      have hRow : (Table.drivers.rows s).getD d default =
          default := by
        simp [Table.drivers, hCell]
      unfold Driver.resume
      refine keeps_row_bind.mpr ?_
      rw [hRow]
      exact keeps_pure.mpr (.refl hs)
  | some cell =>
      have hDrives : s.Drives cell.emitter.task d cell :=
        ⟨hCell, rfl⟩
      refine ensures_resume hDrives (fun _ => .refl hs)
        fun hLeft hState => ?_
      have hNot : ¬ cell.Spent := fun hSpent => by
        simp [hSpent callback] at hLeft
      have hFree : cell.emitter.task ∉ held := fun hIn =>
        hNot ((hs.inv.held _ hIn).2.2 d cell hDrives)
      -- A driver that can still be called back is suspended.
      have hSafe := hs.inv.safe _ d cell hFree hDrives
      cases hSafe with
      | cleared hSpent => exact absurd hSpent hNot
      | broken hOver => exact absurd hState hOver
      | suspended h =>
      rcases holds_fired hs hDrives hFree h hLeft with
        ⟨h₁, hMoves₁⟩
      have hDrives₁ := hDrives.altered (g := fun c => { c with
        fired := c.fired.setIfInBounds callback true })
        fun _ => rfl
      have hSame₁ := (Session.Revises.reseated
        (g := fun c => { c with
          fired := c.fired.setIfInBounds callback true })
        hDrives fun _ => rfl).abides rfl
      refine Run.ensures_alter_bind.mpr ?_
      change Run.Ensures _ (s.reseated d fun c => { c with
        fired := c.fired.setIfInBounds callback true }) _
      generalize s.reseated d _ = s₁ at *
      split
      · refine (Keeps.bind (keeps_field hMoves₁.sound failure
          "error") fun e s₂ h₂ => ?_).of_moves hMoves₁
        rcases drives h₂.rel.sustains hDrives₁ with
          ⟨cell₂, hDrives₂⟩
        exact keeps_breaking (m := .refused e) (hAll held)
          h₂.sound hDrives₂ hFree trivial e
      · refine h₁.advance hAll hDrives₁
          fun s₂ h₂ hDrives₂ hSame₂ => ?_
        exact h₂.nextStep hAll hc hDrives₂ (h.primed.later
          (hSame₁.trans hSame₂) rfl rfl rfl)

end Caring

end Resumption

import Resumption.Proofs.Care.Drivers

/-
  How tasks begin in the careful world: the code of a task is
  run while nobody else may touch it, and a driver goes on
  with the step that it makes, if that suspends.

  Main declarations:
    * `Holding.start`
    * `Stint.Yields.firstStep`
    * `Holding.launch`
    * `Caring.keeps_runTask`
-/

namespace Resumption

open Session World

variable {held : List Ref}
variable {s s₀ s₁ s' : Session}
variable {t d m : Ref}
variable {cell : DriverCell}
variable {caller : Caller}
variable {opened : List Ref}
variable {F : Footprint}

------------------------------------------------------------
-- Outputs
------------------------------------------------------------

/- The output of a driver is made when its task was started. -/
theorem Caring.keeps_makeOutput
    (hc : (Caring held).Serves caller)
    (hs : (Caring held).Sound s)
    (hDrives : s.Drives t d cell)
    (hFree : t ∉ held) :
    (Caring held).Keeps (Driver.makeOutput d) s := by
  have hHosts := hosts hc
  have hOutput : ∀ (f : Ref) s₁, (Caring held).Moves s s₁ →
      (Caring held).Keeps (do
        Table.drivers.alter d ({ · with output := some f })
        return f : Run Ref) s₁ := by
    intro f s₁ h₁
    rcases drives h₁.rel.sustains hDrives with ⟨cell₁, hDrives₁⟩
    refine Keeps.bind (keeps_alter (moves_reseated h₁.sound
      (g := ({ · with output := some f })) hDrives₁ hFree
      (fun _ => rfl) rfl rfl rfl rfl rfl)) fun _ _ h₂ => ?_
    exact keeps_pure.mpr (.refl h₂.sound)
  unfold Driver.makeOutput
  refine keeps_row_bind.mpr ?_
  split
  · exact (hHosts.keeps_settled hs _).bind hOutput
  · exact Keeps.bind (keeps_alloc (hHosts.newFuture none hs))
      hOutput

/- A driver starts with a step that carries what is open. -/
theorem Holding.start
    {em : Emitter}
    {first : Value}
    (h : Holding held s₀ t s)
    (hAll : Caring.Serving caller)
    (hTask : em.task = t)
    (hFit : ∀ c ∈ em.listener, c.Careful s)
    (hNone : ∀ d cell, ¬ s.Drives t d cell)
    (hStep : first.isStep)
    (hOpens : s.Opens m t first opened F)
    (hLeaves : Care.Leaves (s.care t) opened) :
    (Driver.start caller (.machine m) first em).Ensures s
      fun _ s' => (Caring held).Moves s₀ s' := by
  rcases h.sound.inv.held t List.mem_cons_self with
    ⟨hLt, hOngoing, _⟩
  have hRevises : s.Revises t
      (s.driven (.fresh (.machine m) first em)) :=
    .driven hTask hLt hNone hFit
  have h₁ : Holding held s₀ t
      (s.driven (.fresh (.machine m) first em)) := by
    refine h.revised hRevises rfl (h.sound.inv.handsOver t)
      hOngoing fun d' cell' hCell => ?_
    rcases drives_driven.mp hCell with hOld | ⟨_, rfl, _⟩
    · exact absurd hOld (hNone d' cell')
    · exact fun _ => rfl
  have hDrives₁ : (s.driven (.fresh (.machine m) first em)).Drives
      t s.drivers.size (.fresh (.machine m) first em) :=
    drives_driven.mpr (.inr ⟨rfl, rfl, hTask⟩)
  have hAdvance := h₁.anew.advance hAll hDrives₁
    fun s₂ h₂ hDrives₂ hSame₂ => by
      have hSame := (hRevises.abides rfl).trans hSame₂
      exact h₂.firstStep hDrives₂ rfl rfl hStep
        (hOpens.abides hSame) (hSame.care.symm ▸ hLeaves)
  unfold Driver.start
  refine Run.ensures_alloc_bind.mpr ?_
  refine Run.Ensures.bind (Run.Ensures.mono hAdvance ?_)
  intro r s₂ h₂
  cases r with
  | error e => exact h₁.onto h₂
  | ok u =>
      rcases Caring.drives h₂.rel.sustains hDrives₁ with
        ⟨cell₂, hDrives₂⟩
      refine Keeps.of_moves (h₁.onto h₂) (Keeps.bind
        (Caring.keeps_makeOutput (hAll held) h₂.sound hDrives₂
          h.free) fun f s₃ h₃ => ?_)
      exact keeps_pure.mpr (.refl h₃.sound)

------------------------------------------------------------
-- First Steps
------------------------------------------------------------

/- The first step of a task is made by its code. -/
theorem Stint.Yields.firstStep
    {W : Stint}
    {code : Closure}
    (hc : Stint.Carrying caller)
    (hActive : W.Active s)
    (hLeaves : W.Leaves opened s)
    (hCarries : s.Carries W.machine W.task code [] opened F) :
    W.Yields F (Task.firstStep caller code) s := by
  unfold Task.firstStep
  refine Run.Ensures.bind (Run.Ensures.mono
    (hc hActive hLeaves hCarries) ?_)
  rintro (e | first) s₁ hMakes
  · exact ⟨hMakes.works, nofun, hMakes.failed⟩
  change (if first.isStep then _ else _ : Run Value).Ensures s₁ _
  split
  · exact Run.ensures_pure.mpr hMakes
  · next hNot =>
    rcases hMakes.made first rfl with ⟨_, _, hOpens, hLeaves₁, _⟩
    obtain rfl := hOpens.ends_of_not (by simpa using hNot)
    exact sooner (H := .none)
      (.defect (hActive.later hMakes.works) hLeaves₁ _)
      hMakes.works fun _ _ hc => hc.elim

namespace Holding

/- A task ends with its first step. -/
theorem endAtOnce
    {em : Emitter}
    {event : Event}
    (h : Holding held s₀ t s)
    (hAll : Caring.Serving caller)
    (hTask : em.task = t)
    (hFit : ∀ c ∈ em.listener, c.Careful s)
    (hLeaves : Care.Leaves (s.care t) [])
    (outcome : Outcome) :
    (do
      em.emit caller event
      return .future (← Future.settled outcome) :
        Run Value).Ensures s
      fun _ s' => (Caring held).Moves s₀ s' := by
  have hc := hAll (t :: held)
  refine Run.Ensures.bind (Run.Ensures.mono
    (h.tell hc hTask hFit) ?_)
  rintro r s₁ ⟨rfl, h₁, hSame, _⟩
  refine h₁.bind (hSame.care.symm ▸ hLeaves)
    ((Caring.hosts hc).keeps_settled h₁.sound outcome)
    fun f s₂ _ h₂ hLeaves₂ => ?_
  exact Run.ensures_pure.mpr (h₂.cleared hLeaves₂)

/- The first step of a task is made, and seen to. -/
theorem launch
    {em : Emitter}
    {code : Closure}
    (h : Holding held s₀ t s)
    (hAll : Caring.Serving caller)
    (hc : Stint.Carrying caller)
    (hTask : em.task = t)
    (hFit : ∀ c ∈ em.listener, c.Careful s)
    (hNone : ∀ d cell, ¬ s.Drives t d cell)
    (hm : m < s.machines.size)
    (hCode : s.Carries m t code [] [] .none)
    (hLeaves : Care.Leaves (s.care t) []) :
    (Task.launch caller (.machine m) code em).Ensures s
      fun _ s' => (Caring held).Moves s₀ s' := by
  have hHeld := hAll (t :: held)
  unfold Task.launch
  refine Run.Ensures.bind (Run.Ensures.mono
    (h.tell hHeld hTask hFit) ?_)
  rintro r s₁ ⟨rfl, h₁, hSame₁, hStill₁⟩
  have hMachines₁ := hSame₁.sustains.machines
  rw [hTask]
  -- The listener may do anything, but not to this task.
  have hFirst : ∀ s₂, (Stint.mk held t m []).Active s₂ →
      Abides t s₁ s₂ → (Stint.mk held t m []).Yields .none
        (Task.firstStep caller code) s₂ := by
    intro s₂ hActive hSame₂
    have hSame := hSame₁.trans hSame₂
    refine .firstStep hc hActive ?_ (hCode.abides hSame)
    simpa [Stint.Leaves, hSame.care] using hLeaves
  have hBody := h₁.withTask (Nat.lt_of_lt_of_le hm hMachines₁)
    hFirst
  have hIsStep : (Run.withTask t
      (Task.firstStep caller code)).Ensures s₁ fun r _ =>
        ∀ v, r = .ok v → v.isStep ∧ True :=
    Run.ensures_withTask.mpr
      (ensures_firstStep fun _ _ _ _ _ => trivial)
  refine Run.Ensures.bind (Run.ensures_attempt.mpr
    (Run.Ensures.mono (hBody.and hIsStep) ?_))
  rintro r s₂ ⟨⟨hMade, hSustains₂, hStill₂⟩, hStep⟩
  have h₂ := hMade.holding
  have hFit₂ : ∀ c ∈ em.listener, c.Careful s₂ := fun c hm =>
    hSustains₂.careful (hSame₁.sustains.careful (hFit c hm))
  cases r with
  | error e =>
      exact h₂.endAtOnce hAll hTask hFit₂ (hMade.failed e rfl)
        (.rejected e)
  | ok first =>
      have hFirst := (hStep first rfl).1
      rcases Option.isSome_iff_exists.mp hFirst with
        ⟨view, hView⟩
      rcases hMade.made first rfl with
        ⟨opened, F, hOpens, hLeaves₂⟩
      simp only [Run.Follows, hView]
      cases view with
      | finish v =>
          obtain ⟨_, rfl⟩ := hOpens.ends_of_finish hView
          exact h₂.endAtOnce hAll hTask hFit₂ hLeaves₂
            (.fulfilled v)
      | handOff future =>
          obtain ⟨_, rfl⟩ := hOpens.future_of_handOff hView
          refine Run.Ensures.bind (Run.Ensures.mono
            (h₂.tell hHeld hTask hFit₂) ?_)
          rintro r s₃ ⟨rfl, h₃, hSame₃, _⟩
          exact Run.ensures_pure.mpr
            (h₃.cleared (hSame₃.care.symm ▸ hLeaves₂))
      | suspend awaiter label =>
          refine h₂.start hAll hTask hFit₂ (fun d cell hCell => ?_)
            hFirst hOpens hLeaves₂
          exact hNone d cell ((hStill₁ d cell).mp
            ((hStill₂ d cell).mp hCell))

end Holding

------------------------------------------------------------
-- Running Tasks
------------------------------------------------------------

namespace Caring

/- A new task is held, and nothing was done for it yet. -/
theorem holds_tasked
    (hs : (Caring held).Sound s) :
    Holding held s s.tasks.size s.tasked := by
  have hRevises := Session.Revises.tasked s
  have hFree : s.tasks.size ∉ held := fun hIn =>
    Nat.lt_irrefl _ (hs.inv.held _ hIn).1
  have hRow : s.tasked.tasks.getD s.tasks.size default =
      ⟨[], []⟩ := by
    simp [Session.tasked, withTasks]
  have hStory : s.tasked.story s.tasks.size = [] :=
    congrArg (·.story) hRow
  have hCare : s.tasked.care s.tasks.size = [] :=
    congrArg (·.care) hRow
  refine ⟨revised hs hRevises (fun t' ht' => by simp [ht'])
    (fun i hMem => ?_) (fun v hMem => ?_)
    (fun hNot => absurd List.mem_cons_self hNot)
    fun _ => ⟨by simp [Session.tasked, withTasks],
      fun m hMem => ?_, fun d cell hCell => ?_⟩,
    hFree, hRevises.heeds hFree⟩
  · rw [hCare] at hMem
    cases hMem
  · rw [hStory] at hMem
    cases hMem
  · rw [hStory] at hMem
    cases hMem
  · exact absurd ((hs.inv.staffed _).lt d cell hCell)
      (Nat.lt_irrefl _)

/- A task is run on a machine, and whoever runs it answered. -/
theorem keeps_runTask
    {code : Closure}
    {em : Emitter}
    (hAll : Caring.Serving caller)
    (hc : Stint.Carrying caller)
    (hs : (Caring held).Sound s)
    (hm : m < s.machines.size)
    (hCode : ∀ t, s.Carries m t code [] [] .none)
    (hFit : ∀ c ∈ em.listener, c.Careful s) :
    (Caring held).Keeps
      (Task.run caller (.machine m) code em) s := by
  have h₁ := holds_tasked hs
  have hSustains := (Session.Revises.tasked s).sustains
  have hCare : s.tasked.care s.tasks.size = [] := by
    simp [Session.care, Session.tasked, withTasks]
  unfold Task.run
  refine Run.ensures_alloc_bind.mpr ?_
  refine Run.Ensures.bind (Run.Ensures.mono
    (h₁.launch hAll hc rfl
      (fun c hc => hSustains.careful (hFit c hc))
      (fun d cell hCell => ?_) hm
      ((hCode _).later hSustains fun _ hc => hc.elim)
      (hCare ▸ .nil)) ?_)
  · exact absurd ((hs.inv.staffed _).lt d cell hCell)
      (Nat.lt_irrefl _)
  intro r s₂ h₂
  cases r with
  | error e => exact h₂
  | ok output =>
      have h₃ := moves_noted (m := .answers output) h₂.sound
        h₁.free (fun _ => id) (fun _ h => by cases h)
          fun _ h => by cases h
      refine Run.ensures_alter_bind.mpr (Run.ensures_pure.mpr ?_)
      exact h₂.trans h₃

end Caring

end Resumption

import Resumption.Proofs.World.Constructs

/-
  How tasks are brought to an end, in every world that does
  not mind what drivers note of themselves.

  Main declarations:
    * `World.Directs`
    * `World.Directs.keeps_emit`
    * `World.Directs.keeps_finish`
    * `World.Directs.keeps_conclude`
    * `World.Directs.keeps_makeOutput`
-/

namespace Resumption

namespace World

variable {W : World}
variable {s : Session}
variable {caller : Caller}

------------------------------------------------------------
-- Worlds that Direct Drivers
------------------------------------------------------------

/-
  Drivers may note what they do, and change but for their
  emitters and for the callbacks that they have handed out;
  they may settle their outputs.
-/
structure Directs
    (W : World)
    (caller : Caller) : Prop
    extends W.Hosts caller, W.Founds where
  serves : W.Serves caller
  note : ∀ {s} (t : Ref) m, W.Sound s →
    W.Moves s
      { s with
        tasks := s.tasks.modify t fun cell =>
          { cell with story := m :: cell.story } }
  alterDriver : ∀ {s} (d : Ref) {g : DriverCell → DriverCell},
    W.Sound s → (∀ cell, (g cell).emitter = cell.emitter) →
    (∀ cell, cell.fired.size ≤ (g cell).fired.size) →
    W.Moves s { s with drivers := s.drivers.modify d g }
  output_loose : ∀ {s} {d f : Ref}, W.Sound s →
    (s.drivers.getD d default).output = some f → W.loose s f

namespace Directs

variable (hD : W.Directs caller)

include hD

------------------------------------------------------------
-- Notes and Events
------------------------------------------------------------

theorem keeps_note
    (hs : W.Sound s)
    (t : Ref)
    (m : Moment) :
    W.Keeps (Run.note t m) s :=
  keeps_alter (hD.note t m hs)

theorem keeps_noteDriver
    (hs : W.Sound s)
    (d : Ref)
    (m : Moment) :
    W.Keeps (Driver.note d m) s :=
  keeps_row_bind.mpr (hD.keeps_note hs _ m)

theorem keeps_setState
    (hs : W.Sound s)
    (d : Ref)
    (state : DriverState) :
    W.Keeps (Driver.setState d state) s :=
  (hD.keeps_noteDriver hs d _).bind fun _ _ h₁ =>
    keeps_alter (hD.alterDriver d h₁.sound (fun _ => rfl)
      fun _ => Nat.le_refl _)

theorem keeps_emit
    (hs : W.Sound s)
    {em : Emitter}
    (hFit : ∀ c ∈ em.listener, W.fit s c)
    (event : Event) :
    W.Keeps (em.emit caller event) s :=
  (hD.keeps_note hs em.task _).bind fun _ _ h₁ =>
    keeps_tell hD.serves h₁.sound
      (fun c hc => h₁.fit (hFit c hc)) event

theorem keeps_emitDriver
    (hs : W.Sound s)
    (d : Ref)
    (event : Event) :
    W.Keeps (Driver.emit caller d event) s :=
  keeps_row_bind.mpr (hD.keeps_emit hs
    (hs.stocked.listeners d) event)

omit hD in
theorem keeps_hasSettled
    (hs : W.Sound s)
    (d : Ref) :
    W.Keeps (Driver.hasSettled d) s := by
  unfold Driver.hasSettled
  refine keeps_row_bind.mpr ?_
  split
  · exact (Hosts.keeps_settlement? hs _).bind fun _ _ h₁ =>
      keeps_pure.mpr (.refl h₁.sound)
  · exact keeps_pure.mpr (.refl hs)

------------------------------------------------------------
-- Ends
------------------------------------------------------------

theorem keeps_settleDriver
    (hs : W.Sound s)
    (d : Ref)
    (outcome : Outcome) :
    W.Keeps (Driver.settle caller d outcome) s := by
  have hLoose : ∀ f, (s.drivers.getD d default).output =
      some f → W.loose s f := fun _ => hD.output_loose hs
  unfold Driver.settle
  refine keeps_row_bind.mpr ?_
  refine (hD.keeps_noteDriver hs d _).bind fun _ s₁ h₁ => ?_
  refine Keeps.bind (keeps_alter (hD.tend _ .settled h₁.sound))
    fun _ s₂ h₂ => ?_
  split
  · next f hOutput =>
      exact (hD.settle outcome h₂.sound
        ((h₁.trans h₂).loose (hLoose f hOutput))).discard
  · exact keeps_alter (hD.alterDriver d h₂.sound
      (fun _ => rfl) fun _ => Nat.le_refl _)

theorem keeps_finish
    (hs : W.Sound s)
    (d : Ref)
    (outcome : Outcome) :
    W.Keeps (Driver.finish caller d outcome) s := by
  unfold Driver.finish
  refine (hD.keeps_setState hs d _).bind fun _ s₁ h₁ => ?_
  exact (hD.keeps_emitDriver h₁.sound d _).bind fun _ _ h₂ =>
    hD.keeps_settleDriver h₂.sound d outcome

theorem keeps_conclude
    (hs : W.Sound s)
    (d : Ref)
    (awaiter : Value) :
    W.Keeps (Driver.conclude caller d awaiter) s := by
  unfold Driver.conclude
  refine (hD.keeps_noteDriver hs d _).bind fun _ s₁ h₁ => ?_
  refine (hD.toHosts.keeps_result hD.serves h₁.sound
    awaiter).attempt.bind fun ended s₂ h₂ => ?_
  split <;> exact hD.keeps_finish h₂.sound d _

------------------------------------------------------------
-- Outputs
------------------------------------------------------------

/- The output of a driver is a new future. -/
theorem keeps_makeOutput
    (hs : W.Sound s)
    (d : Ref) :
    W.Keeps (Driver.makeOutput d) s := by
  unfold Driver.makeOutput
  refine keeps_row_bind.mpr ?_
  have hOutput : ∀ (f : Ref) s₁, W.Moves s s₁ →
      W.Keeps (do
        Table.drivers.alter d ({ · with output := some f })
        return f : Run Ref) s₁ :=
    fun f s₁ h₁ => Keeps.bind (keeps_alter (hD.alterDriver d
      h₁.sound (fun _ => rfl) fun _ => Nat.le_refl _))
        fun _ _ h₂ => keeps_pure.mpr (.refl h₂.sound)
  split
  · exact (hD.keeps_settled hs _).bind hOutput
  · exact Keeps.bind (keeps_alloc (hD.newFuture none hs)) hOutput

/- A task that ends at once has a settled future. -/
theorem keeps_answer
    (hs : W.Sound s)
    (outcome : Outcome) :
    W.Keeps (do
      return .future (← Future.settled outcome) : Run Value) s :=
  (hD.keeps_settled hs outcome).bind fun _ _ h₁ =>
    keeps_pure.mpr (.refl h₁.sound)

/- The first step of a task has to be one. -/
theorem keeps_firstStep
    (hs : W.Sound s)
    {code : Closure}
    (hFit : W.fit s code) :
    W.Keeps (Task.firstStep caller code) s := by
  unfold Task.firstStep
  refine (hD.serves.call hs hFit []).bind fun first s₁ h₁ => ?_
  split
  · exact keeps_pure.mpr (.refl h₁.sound)
  · exact keeps_defect h₁.sound _

end Directs

end World

end Resumption

import Resumption.Proofs.Veil.Courses
import Resumption.Proofs.World.Drivers

/-
  How drivers advance, in every world that has them at home
  when they enter the code of their tasks and when they ask
  for callbacks.  Whatever a driver does before leaves the
  ambient context as it was, so that it is at home still.

  Main declarations:
    * `World.Advances`
    * `World.Advances.keeps_suspend`
    * `World.Advances.keeps_advance`
    * `World.Advances.keeps_resume`
-/

namespace Resumption

namespace World

open Session

variable {W : World}
variable {home : Session → Ref → Prop}
variable {s : Session}
variable {caller : Caller}
variable {d : Ref}

------------------------------------------------------------
-- Worlds with Drivers at Home
------------------------------------------------------------

/-
  A driver that is at home may hand off and register there,
  and enter the code of its task.
-/
structure Advances
    (W : World)
    (home : Session → Ref → Prop)
    (caller : Caller) : Prop
    extends W.Directs caller where
  clear : Veil.clear.Serves caller caller
  stays : ∀ {s s' d}, home s d → W.Moves s s' →
    s'.ambient = s.ambient → home s' d
  entered : ∀ {s d} {act : Run Value}, W.Sound s → home s d →
    (∀ s', W.Moves s s' → W.Keeps act s') →
    W.Keeps (Run.withTask
      (s.drivers.getD d default).emitter.task act) s
  handOff : ∀ {s d} v, W.Sound s → home s d →
    W.Keeps (Driver.handOff caller d v) s
  register : ∀ {s d} awaiter, W.Sound s → home s d →
    W.Keeps (Driver.register caller d awaiter) s

namespace Advances

variable (hA : W.Advances home caller)

include hA

/- A driver is at home still after whatever it has done. -/
theorem keeps_bind
    {α β : Type}
    {act : Run α}
    {f : α → Run β}
    (hHome : home s d)
    (h : W.Keeps act s)
    (hGoes : Run.Goes act)
    (hf : ∀ a s', W.Sound s' → home s' d → W.Keeps (f a) s') :
    W.Keeps (act >>= f) s :=
  h.bind_with (hGoes s) fun a s' h' hOnward =>
    hf a s' h'.sound (hA.stays hHome h' hOnward.ambient)

/- So it is when it has changed itself. -/
theorem alter_bind
    {β : Type}
    {f : Unit → Run β}
    {g : DriverCell → DriverCell}
    (hs : W.Sound s)
    (hHome : home s d)
    (hEmitter : ∀ cell, (g cell).emitter = cell.emitter)
    (hFired : ∀ cell, cell.fired.size ≤ (g cell).fired.size)
    (hf : ∀ s', W.Sound s' → home s' d → W.Keeps (f ()) s') :
    W.Keeps (Table.drivers.alter d g >>= f) s := by
  have h₁ := hA.alterDriver d hs hEmitter hFired
  refine Run.ensures_alter_bind.mpr (Keeps.of_moves h₁ ?_)
  exact hf _ h₁.sound (hA.stays hHome h₁ rfl)

------------------------------------------------------------
-- Suspending
------------------------------------------------------------

theorem keeps_suspend
    (hs : W.Sound s)
    (hHome : home s d)
    (awaiter label : Value) :
    W.Keeps (Driver.suspend caller d awaiter label) s := by
  have hD := hA.toDirects
  unfold Driver.suspend
  refine hA.alter_bind hs hHome (fun _ => rfl)
    (fun _ => Nat.le_refl _) fun s₁ h₁ hHome₁ => ?_
  refine hA.keeps_bind hHome₁ (hD.keeps_setState h₁ d _)
    (Veil.matches_setState (V := .clear) d _).goes
    fun _ s₂ h₂ hHome₂ => ?_
  refine hA.keeps_bind hHome₂ (hD.keeps_noteDriver h₂ d _)
    (Veil.matches_noteDriver (V := .clear) d _).goes
    fun _ s₃ h₃ hHome₃ => ?_
  refine hA.keeps_bind hHome₃ (keeps_field h₃ label "id")
    (Veil.matches_field (V := .clear) label nofun).goes
    fun id s₄ h₄ hHome₄ => ?_
  exact hA.keeps_bind hHome₄ (hD.keeps_emitDriver h₄ d _)
    (Veil.matches_emitDriver hA.clear d _).goes
    fun _ s₅ h₅ hHome₅ => hA.register awaiter h₅ hHome₅

------------------------------------------------------------
-- Advancing
------------------------------------------------------------

theorem keeps_jump
    (hs : W.Sound s)
    (hHome : home s d)
    (label : Value) :
    W.Keeps (Driver.jump caller d label) s := by
  have hD := hA.toDirects
  unfold Driver.jump
  refine hA.keeps_bind hHome (Directs.keeps_hasSettled hs d)
    (Veil.matches_hasSettled (V := .clear) d).goes
    fun settled s₁ h₁ hHome₁ => ?_
  refine hA.keeps_bind hHome₁ (hD.keeps_noteDriver h₁ d _)
    (Veil.matches_noteDriver (V := .clear) d _).goes
    fun _ s₂ h₂ hHome₂ => ?_
  refine keeps_row_bind.mpr ?_
  refine (hA.entered h₂ hHome₂ fun s₃ h₃ =>
    (keeps_machineOf h₃.sound _).bind fun m s₄ h₄ =>
      hD.toFounds.keeps_jump hD.serves h₄.sound m
        label).attempt.bind fun landing s₃ h₃ => ?_
  refine (hD.keeps_noteDriver h₃.sound d _).bind
    fun _ s₄ h₄ => ?_
  split
  · exact keeps_pure.mpr (.refl h₄.sound)
  · exact keeps_raise.mpr (.refl h₄.sound)

theorem keeps_nextStep
    (hs : W.Sound s)
    (hHome : home s d) :
    W.Keeps (Driver.nextStep caller d) s := by
  unfold Driver.nextStep
  refine keeps_row_bind.mpr ?_
  split
  · exact hA.alter_bind hs hHome (fun _ => rfl)
      (fun _ => Nat.le_refl _) fun _ h₁ _ =>
        keeps_pure.mpr (.refl h₁)
  · split
    · exact (keeps_newPlain hs _ _).bind fun _ _ h₁ =>
        keeps_raise.mpr (.refl h₁.sound)
    · refine hA.keeps_bind hHome (keeps_field hs _ _)
        (Veil.matches_field (V := .clear) _ nofun).goes
        fun id s₁ h₁ hHome₁ => ?_
      refine hA.keeps_bind hHome₁
        (hA.toDirects.keeps_emitDriver h₁ d _)
        (Veil.matches_emitDriver hA.clear d _).goes
        fun _ s₂ h₂ hHome₂ => ?_
      refine (hA.keeps_jump h₂ hHome₂ _).bind
        fun step s₃ h₃ => ?_
      split
      · exact keeps_pure.mpr (.refl h₃.sound)
      · exact (keeps_field h₃.sound _ _).bind fun _ _ h₄ =>
          keeps_defect h₄.sound _

/- A driver that is at home takes the next step there. -/
theorem keeps_advance
    (hs : W.Sound s)
    (hHome : home s d) :
    W.Keeps (Driver.advance caller d) s := by
  have hD := hA.toDirects
  unfold Driver.advance
  refine hA.keeps_bind hHome (hD.keeps_setState hs d _)
    (Veil.matches_setState (V := .clear) d _).goes
    fun _ s₁ h₁ hHome₁ => ?_
  refine hA.keeps_bind hHome₁
    (hA.keeps_nextStep h₁ hHome₁).attempt
    (Veil.matches_nextStep hA.clear d).goes.attempt
    fun ended s₂ h₂ hHome₂ => ?_
  split
  · exact hD.keeps_finish h₂ d _
  · split
    · exact keeps_pure.mpr (.refl h₂)
    · exact hD.keeps_finish h₂ d _
    · exact hA.handOff _ h₂ hHome₂
    · exact hA.keeps_suspend h₂ hHome₂ _ _

/-
  A driver that is called back has to be at home, unless it is
  called with a failure.
-/
theorem keeps_resume
    (hs : W.Sound s)
    {failure : Value}
    (hHome : d < s.drivers.size → failure.truthy = false →
      home s d)
    (callback : Ref) :
    W.Keeps (Driver.resume caller d callback failure) s := by
  have hD := hA.toDirects
  unfold Driver.resume
  refine keeps_row_bind.mpr ?_
  split
  · exact keeps_pure.mpr (.refl hs)
  · next hOpen =>
      have hd : d < s.drivers.size := by
        refine Nat.lt_of_not_le fun hOut => hOpen ?_
        rw [show (Table.drivers.rows s).getD d default =
          default from getD_of_size_le _ hOut]
        rfl
      have h₁ := hD.alterDriver d
        (g := fun c =>
          { c with fired := c.fired.setIfInBounds callback true })
        hs (fun _ => rfl) (fun _ => by simp)
      refine Run.ensures_alter_bind.mpr (Keeps.of_moves h₁ ?_)
      split
      · refine (keeps_field h₁.sound _ _).bind
          fun e s₂ h₂ => ?_
        exact (hD.keeps_noteDriver h₂.sound d _).bind
          fun _ _ h₃ => hD.keeps_finish h₃.sound d _
      · next hUnfailed =>
          exact hA.keeps_advance h₁.sound (hA.stays
            (hHome hd (Bool.eq_false_iff.mpr hUnfailed)) h₁ rfl)

end Advances

end World

end Resumption

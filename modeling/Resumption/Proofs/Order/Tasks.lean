import Resumption.Proofs.Order.World
import Resumption.Proofs.Task.Reachable
import Resumption.Proofs.World.Advances

/-
  Tasks leave label tables and constructs in order, and so
  does whatever client code asks for, to any depth.

  Main declarations:
    * `Ordering.directs`, `Ordering.advances`
    * `Ordering.keeps_runTask`
    * `Ordering.employs`
    * `Ordering.serves`
    * `Session.Reachable.orderly`
-/

namespace Resumption

open Session World

namespace Ordering

variable {s s' : Session}
variable {caller : Caller}

section Serving

variable (hc : Ordering.Serves caller)

include hc

------------------------------------------------------------
-- Directing Drivers
------------------------------------------------------------

/- What drivers note of themselves is no matter. -/
theorem directs : Ordering.Directs caller where
  toHosts := hosts hc
  toFounds := founds
  serves := hc
  note _ _ hs :=
    moves hs ⟨rfl, rfl, rfl, rfl, rfl, rfl, rfl, rfl⟩
  alterDriver _ _ hs _ _ :=
    moves hs ⟨rfl, rfl, rfl, rfl, rfl, rfl, rfl, rfl⟩
  output_loose _ _ := trivial

omit hc in
theorem keeps_alterDriver
    (hs : Ordering.Sound s)
    (d : Ref)
    (f : DriverCell → DriverCell) :
    Ordering.Keeps (Table.drivers.alter d f) s :=
  keeps_alter (moves hs ⟨rfl, rfl, rfl, rfl, rfl, rfl, rfl, rfl⟩)

theorem keeps_handOff
    (hs : Ordering.Sound s)
    (d : Ref)
    (v : Value) :
    Ordering.Keeps (Driver.handOff caller d v) s := by
  have hD := directs hc
  unfold Driver.handOff
  refine (hD.keeps_noteDriver hs d _).bind fun _ s₁ h₁ => ?_
  refine (hD.keeps_awaiterWith hc h₁.sound v false).bind
    fun awaiter s₂ h₂ => ?_
  refine (hD.keeps_emitDriver h₂.sound d _).bind
    fun _ s₃ h₃ => ?_
  refine (hD.keeps_completed hc h₃.sound awaiter).bind
    fun isDone s₄ h₄ => ?_
  split
  · exact hD.keeps_conclude h₄.sound d awaiter
  · refine (hD.keeps_setState h₄.sound d _).bind
      fun _ s₅ h₅ => ?_
    refine ensures_keeper_bind.mpr ?_
    refine (hD.keeps_noteDriver h₅.sound d _).bind
      fun _ s₆ h₆ => ?_
    exact (hD.keeps_register hc h₆.sound awaiter
      trivial).discard

------------------------------------------------------------
-- Suspending
------------------------------------------------------------

theorem keeps_registerDriver
    (hs : Ordering.Sound s)
    (d : Ref)
    (awaiter : Value) :
    Ordering.Keeps (Driver.register caller d awaiter) s := by
  have hD := directs hc
  unfold Driver.register
  refine keeps_row_bind.mpr ?_
  refine (keeps_alterDriver hs d _).bind fun _ s₁ h₁ => ?_
  refine ensures_keeper_bind.mpr ?_
  refine (hD.keeps_noteDriver h₁.sound d _).bind
    fun _ s₂ h₂ => ?_
  refine ensures_source_bind.mpr ?_
  -- What a driver asks an awaiter for is no matter.
  refine Keeps.bind (keeps_modify (moves h₂.sound
    (.withIncident s₂ fun _ => rfl))) fun _ s₃ h₃ => ?_
  refine (hD.keeps_register hc h₃.sound awaiter
    trivial).attempt.bind fun ended s₄ h₄ => ?_
  split
  · exact keeps_pure.mpr (.refl h₄.sound)
  · exact (hD.keeps_noteDriver h₄.sound d _).bind fun _ _ h₅ =>
      hD.keeps_finish h₅.sound d _

------------------------------------------------------------
-- Advancing
------------------------------------------------------------

omit hc in
/- Whose code runs is no matter. -/
theorem keeps_withTask
    {α : Type}
    {act : Run α}
    (hs : Ordering.Sound s)
    (t : Ref)
    (h : ∀ s', Ordering.Moves s s' → Ordering.Keeps act s') :
    Ordering.Keeps (Run.withTask t act) s := by
  have hIn : Ordering.Moves s (Run.entering t s) :=
    moves hs { SameGround.withIncident s
      (i := .enters t s.ambient) (fun _ => rfl) with }
  refine Run.ensures_withTask.mpr (Run.Ensures.mono (h _ hIn) ?_)
  intro r s' h'
  have hOut : Ordering.Moves s'
      { s' with task := s.task, home := s.home } :=
    moves h'.sound ⟨rfl, rfl, rfl, rfl, rfl, rfl, rfl, rfl⟩
  exact (hIn.trans h').trans hOut

variable (hClear : Veil.clear.Serves caller caller)

include hClear

/- Where a driver is at home is no matter either. -/
theorem advances :
    Ordering.Advances (fun _ _ => True) caller where
  toDirects := directs hc
  clear := hClear
  stays _ _ _ := trivial
  entered hs _ h := keeps_withTask hs _ h
  handOff v hs _ := keeps_handOff hc hs _ v
  register awaiter hs _ := keeps_registerDriver hc hs _ awaiter

------------------------------------------------------------
-- Starting
------------------------------------------------------------

theorem keeps_startDriver
    (hs : Ordering.Sound s)
    (m first : Value)
    (em : Emitter) :
    Ordering.Keeps (Driver.start caller m first em) s := by
  unfold Driver.start
  refine Keeps.bind (keeps_alloc (moves hs
    ⟨rfl, rfl, rfl, rfl, rfl, rfl, rfl, rfl⟩)) fun d s₁ h₁ => ?_
  refine ((advances hc hClear).keeps_advance h₁.sound
    trivial).bind fun _ s₂ h₂ => ?_
  exact ((directs hc).keeps_makeOutput h₂.sound d).bind
    fun _ _ h₃ => keeps_pure.mpr (.refl h₃.sound)

theorem keeps_launch
    (hs : Ordering.Sound s)
    (m : Value)
    (code : Closure)
    (em : Emitter) :
    Ordering.Keeps (Task.launch caller m code em) s := by
  have hD := directs hc
  have hFit : ∀ s₁, ∀ c ∈ em.listener, Ordering.fit s₁ c :=
    fun _ _ _ => trivial
  unfold Task.launch
  refine (hD.keeps_emit hs (hFit _) _).bind fun _ s₁ h₁ => ?_
  refine (keeps_withTask h₁.sound _ fun s₂ h₂ =>
    hD.keeps_firstStep h₂.sound trivial).attempt.bind
      fun ended s₂ h₂ => ?_
  split
  · exact (hD.keeps_emit h₂.sound (hFit _) _).bind
      fun _ _ h₃ => hD.keeps_answer h₃.sound _
  · split
    · exact keeps_pure.mpr (.refl h₂.sound)
    · exact (hD.keeps_emit h₂.sound (hFit _) _).bind
        fun _ _ h₃ => hD.keeps_answer h₃.sound _
    · exact (hD.keeps_emit h₂.sound (hFit _) _).bind
        fun _ _ h₃ => keeps_pure.mpr (.refl h₃.sound)
    · exact keeps_startDriver hc hClear h₂.sound m _ em

theorem keeps_runTask
    (hs : Ordering.Sound s)
    (m : Value)
    (code : Closure)
    (em : Emitter) :
    Ordering.Keeps (Task.run caller m code em) s := by
  unfold Task.run
  refine Keeps.bind (keeps_alloc (moves hs
    ⟨rfl, rfl, rfl, rfl, rfl, rfl, rfl, rfl⟩)) fun t s₁ h₁ => ?_
  refine (keeps_launch hc hClear h₁.sound m code _).bind
    fun output s₂ h₂ => ?_
  exact ((directs hc).keeps_note h₂.sound t _).bind fun _ _ h₃ =>
    keeps_pure.mpr (.refl h₃.sound)

------------------------------------------------------------
-- Everything
------------------------------------------------------------

/- Tasks leave everything in order. -/
theorem employs : Ordering.Employs caller where
  toHosts := hosts hc
  toFounds := founds
  serves := hc
  run m hs _ _ := keeps_runTask hc hClear hs m _ _
  resume _ hs _ := (advances hc hClear).keeps_resume hs
    (fun _ _ => trivial) _
  conclude hs _ := (directs hc).keeps_conclude hs _ _
  posted hs _ := World.keeps_enter hc hs _ _ trivial

omit hc hClear in
/- A caller of any depth leaves everything in order. -/
theorem serves
    (rounds depth : Nat) :
    Ordering.Serves (.ofDepth rounds depth) := by
  induction depth with
  | zero =>
      intro c args s _ _
      exact Run.ensures_exhaust
  | succ depth ih =>
      intro c args s hs _
      exact Run.Ensures.mono
        ((employs ih (Veil.serves_clear rounds depth)).keeps_enterFit
          hs trivial args)
        fun _ _ h => ⟨h, trivial⟩

end Serving

end Ordering

/- Whatever comes about is in order. -/
theorem Session.Reachable.orderly
    {s : Session}
    (h : s.Reachable) :
    s.Orderly :=
  (h.moves_in (Ordering.sound orderly_empty) fun rounds depth =>
    Ordering.employs (Ordering.serves rounds depth)
      (Veil.serves_clear rounds depth)).sound.inv

end Resumption

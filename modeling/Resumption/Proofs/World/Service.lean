import Resumption.Proofs.World.Constructs
import Resumption.Proofs.World.Requests

/-
  Client code keeps every world in which tasks can be run:
  whatever it asks for, and whatever is called on its behalf.

  Main declarations:
    * `World.Employs`
    * `World.Employs.keeps_request`
    * `World.Employs.keeps_program`
    * `World.Employs.keeps_enterFit`
-/

namespace Resumption

namespace World

variable {W : World}
variable {s : Session}
variable {caller : Caller}

------------------------------------------------------------
-- Worlds that Employ Tasks
------------------------------------------------------------

/-
  Tasks can be run in a world that hosts futures and in which
  constructs are founded, by a caller that serves it.
-/
structure Employs
    (W : World)
    (caller : Caller) : Prop
    extends W.Hosts caller, W.Founds where
  serves : W.Serves caller
  run : ∀ {s code em} m, W.Sound s → W.fit s code →
    (∀ c ∈ em.listener, W.fit s c) →
    W.Keeps (Task.run caller m code em) s
  resume : ∀ {s d callback} failure, W.Sound s →
    W.fit s (.driverResume d callback) →
    W.Keeps (Driver.resume caller d callback failure) s
  conclude : ∀ {s d awaiter}, W.Sound s →
    W.fit s (.driverOutcome d awaiter) →
    W.Keeps (Driver.conclude caller d awaiter) s
  posted : ∀ {s entered context callback}, W.Sound s →
    W.fit s (.posted entered context callback) →
    W.Keeps (Context.enter caller entered context callback) s

namespace Employs

variable (hE : W.Employs caller)

include hE

------------------------------------------------------------
-- Builders
------------------------------------------------------------

theorem keeps_newBuilder
    (hs : W.Sound s)
    (m captured : Value) :
    W.Keeps (Builder.new m captured) s := by
  unfold Builder.new
  exact Keeps.bind (keeps_alloc (hE.newBuilder _ hs))
    fun _ _ h₁ => keeps_pure.mpr (.refl h₁.sound)

theorem keeps_builderBind
    (hs : W.Sound s)
    (m source : Value)
    {rest : Closure}
    (hRest : W.fit s rest) :
    W.Keeps (Builder.bind caller m source rest) s := by
  have hW := hE.toHosts
  have hF := hE.toFounds
  unfold Builder.bind
  split
  · refine keeps_row_bind.mpr (keeps_get_bind.mpr ?_)
    refine (keeps_chronicle hs rfl).bind fun _ s₁ h₁ => ?_
    have hStill := h₁.fit hRest
    split
    · exact hF.keeps_bind hW hE.serves h₁.sound _ _ hStill
    · exact hF.keeps_bindDetached hW hE.serves h₁.sound _ _
        hStill
  · exact hF.keeps_bind hW hE.serves hs _ _ hRest

theorem keeps_returnFrom
    (hs : W.Sound s)
    (b source : Value) :
    W.Keeps (Builder.returnFrom caller b source) s := by
  unfold Builder.returnFrom
  split
  · exact keeps_newStep hs _
  · refine (Hosts.keeps_isAwaitable hs source).bind
      fun isOne s₁ h₁ => ?_
    split
    · exact hE.keeps_builderBind h₁.sound b source
        (hE.own s₁ rfl)
    · exact (hE.toHosts.keeps_ofSource h₁.sound source).bind
        fun _ _ h₂ => keeps_newStep h₂.sound _

theorem keeps_startTask
    (hs : W.Sound s)
    {em : Emitter}
    {code : Closure}
    (hFit : ∀ c ∈ em.listener, W.fit s c)
    (hCode : W.fit s code)
    (captured : Bool)
    (assertions : Value) :
    W.Keeps (Task.start caller captured assertions code em)
      s := by
  unfold Task.start
  refine (hE.toFounds.keeps_newMachine hs assertions).bind
    fun m s₁ h₁ => ?_
  refine (hE.keeps_newBuilder h₁.sound m _).bind
    fun b s₂ h₂ => ?_
  have h₁₂ := h₁.trans h₂
  exact hE.run m h₂.sound
    ((hE.applied [b]).mpr (h₁₂.fit hCode))
    fun c hm => h₁₂.fit (hFit c hm)

------------------------------------------------------------
-- Requests
------------------------------------------------------------

/- The listener that a client gives is client code. -/
theorem fit_listener
    (s : Session)
    (options : TaskOptions Program) :
    ∀ c ∈ options.emitter.listener, W.fit s c := by
  intro c hc
  rcases Option.map_eq_some_iff.mp hc with ⟨code, _, rfl⟩
  exact hE.client s code

theorem keeps_request
    (hs : W.Sound s)
    (request : Request Program) :
    W.Keeps (request.perform caller) s := by
  have hW := hE.toHosts
  have hF := hE.toFounds
  have hc := hE.serves
  have hCode : ∀ s code, W.fit s (.client code) := hE.client
  by_cases hBuilds : request.Builds
  · cases request with
    | newMachine assertions => exact hF.keeps_newMachine hs _
    | allocate m =>
        refine (keeps_machineOf hs m).bind fun m s₁ h₁ => ?_
        exact (hF.keeps_allocate h₁.sound m).bind fun _ _ h₂ =>
          keeps_pure.mpr (.refl h₂.sound)
    | install m code =>
        refine (keeps_machineOf hs m).bind fun m s₁ h₁ => ?_
        exact Keeps.bind
          (hF.keeps_install h₁.sound m (hCode s₁ code))
          fun _ _ h₂ => keeps_pure.mpr (.refl h₂.sound)
    | replace m l code =>
        refine (keeps_machineOf hs m).bind fun m s₁ h₁ => ?_
        exact Keeps.quietly
          (hF.keeps_replace h₁.sound m l (hCode s₁ code)
            (.inr ⟨code, rfl⟩))
    | jump m l =>
        exact (keeps_machineOf hs m).bind fun m _ h₁ =>
          hF.keeps_jump hc h₁.sound m l
    | forge id m => exact hF.keeps_forge hs id m
    | bind m source rest =>
        exact hE.keeps_builderBind hs m source (hCode s rest)
    | bindDetached m source rest =>
        exact hF.keeps_bindDetached hW hc hs m source
          (hCode s rest)
    | awaitResult m awaiter rest =>
        exact hF.keeps_awaitResult hW hc hs m awaiter
          (hCode s rest)
    | sequence m first rest =>
        exact (keeps_builderMachine hs m).bind fun m s₁ h₁ =>
          hF.keeps_buildSequence hc h₁.sound m first
            (hCode s₁ rest)
    | whileLoop m condition body =>
        exact (keeps_builderMachine hs m).bind fun m s₁ h₁ =>
          hF.keeps_buildLoop hc h₁.sound m
            (hCode s₁ condition) (hCode s₁ body)
    | forLoop m items body =>
        refine (keeps_builderMachine hs m).bind
          fun m s₁ h₁ => ?_
        refine (keeps_cursorOf hc h₁.sound items).bind
          fun c s₂ h₂ => ?_
        exact hF.keeps_buildCleanup hc h₂.sound m
          ((hF.cursorLoop m c).mpr (hCode s₂ body))
          (hF.own s₂ rfl)
    | tryWith m code handler =>
        exact (keeps_builderMachine hs m).bind fun m s₁ h₁ =>
          hF.keeps_buildRecovery hc h₁.sound m
            (hCode s₁ code) (hCode s₁ handler)
    | tryFinally m code compensation =>
        exact (keeps_builderMachine hs m).bind fun m s₁ h₁ =>
          hF.keeps_buildCleanup hc h₁.sound m
            (hCode s₁ code) (hCode s₁ compensation)
    | «using» m resource body =>
        exact (keeps_builderMachine hs m).bind fun m s₁ h₁ =>
          hF.keeps_buildCleanup hc h₁.sound m
            ((hF.applied [resource]).mpr (hCode s₁ body))
            (hF.own s₁ rfl)
    | run m code options =>
        exact hE.run m hs (hCode s code)
          (hE.fit_listener s options)
    | task captured assertions code options =>
        exact hE.keeps_startTask hs (hE.fit_listener s options)
          (hCode s code) captured assertions
    | newBuilder m captured => exact hE.keeps_newBuilder hs m _
    | returnFrom b source =>
        exact (keeps_require hs b).bind fun _ _ h₁ =>
          hE.keeps_returnFrom h₁.sound b source
    | _ => exact absurd hBuilds id
  · exact hW.keeps_perform hc hs hBuilds
      fun code _ => hCode s code

------------------------------------------------------------
-- Programs
------------------------------------------------------------

/- Client code keeps the world, whatever it asks for. -/
theorem keeps_program
    {s : Session}
    (hs : W.Sound s)
    (program : Program) :
    W.Keeps (program.run caller) s := by
  match program with
  | .done v => exact keeps_pure.mpr (.refl hs)
  | .fail e => exact keeps_raise.mpr (.refl hs)
  | .perform request k =>
      exact (hE.keeps_request hs request).bind
        fun v _ h₁ => keeps_program h₁.sound (k v)
  | .attempt body k =>
      exact (keeps_program hs body).attempt.bind
        fun outcome _ h₁ => keeps_program h₁.sound (k outcome)

------------------------------------------------------------
-- Closures
------------------------------------------------------------

/- Entering a closure that may be stored keeps the world. -/
theorem keeps_enterFit
    (hs : W.Sound s)
    {closure : Closure}
    (h : W.fit s closure)
    (args : List Value) :
    W.Keeps (closure.enter caller args) s := by
  have hW := hE.toHosts
  have hF := hE.toFounds
  have hc := hE.serves
  cases closure with
  | client code =>
      exact Keeps.bind (keeps_calling hs) fun _ _ h₁ =>
        hE.keeps_program h₁.sound (code args)
  | applied f fixed =>
      exact hc.call hs ((hF.applied fixed).mp h) fixed
  | received awaiter rest =>
      exact hW.keeps_enterReceived hc hs awaiter
        ((hF.received awaiter).mp h)
  | finished => exact keeps_newStep hs _
  | jump m l => exact hF.keeps_jump hc hs m _
  | sequenceEntry i => exact hF.keeps_enterSequence hW hc hs i
  | sequenceResume i resume =>
      exact hF.keeps_resumeSequence hc hs i resume
  | loopHead m entry condition body =>
      rcases (hF.loopHead m entry).mp h with ⟨hOn, hBody⟩
      exact hF.keeps_enterLoop hc hs m entry hOn hBody
  | recoveryEntry i => exact hF.keeps_enterRecovery hW hc hs i
  | recoveryOutcome i awaiter =>
      exact hF.keeps_recoveryOutcome hW hc hs i awaiter
  | cleanupEntry i => exact hF.keeps_enterCleanup hW hc hs i
  | cleanupOutcome i awaiter =>
      exact hF.keeps_cleanupOutcome hW hc hs i awaiter
  | release resource => exact keeps_release hc hs resource
  | cursorLoop m c body =>
      exact hF.keeps_buildLoop hc hs m (hF.own s rfl)
        ((hF.cursorItem c).mpr ((hF.cursorLoop m c).mp h))
  | cursorAdvance c => exact keeps_advanceCursor hc hs c
  | cursorItem c body =>
      have hBody := (hF.cursorItem c).mp h
      exact (keeps_current hs c).bind fun v _ h₁ =>
        hc.call h₁.sound (h₁.fit hBody) [v]
  | cursorClose c => exact Keeps.quietly (keeps_close hc hs c)
  | driverResume d callback =>
      exact Keeps.quietly (hE.resume _ hs h)
  | driverOutcome d awaiter =>
      exact Keeps.quietly (hE.conclude hs h)
  | resumption context callback =>
      exact World.keeps_resume hc hs context
        ((hF.resumption context).mp h)
  | posted entered context callback => exact hE.posted hs h
  | bridge f p => exact Hosts.keeps_cross hs f p
  | settleFuture f fulfil =>
      have hLoose := (W.fit_settleFuture fulfil).mp h
      exact Keeps.bind (hW.settle _ hs hLoose) fun _ _ h₁ =>
        keeps_pure.mpr (.refl h₁.sound)
  | settlePromise p called fulfil =>
      exact keeps_enterSettle hs p called fulfil _

end Employs

end World

end Resumption

import Resumption.Proofs.World.Values
import Resumption.Jobs

/-
  Promises, awaiters, awaitables and probes keep every world
  that hosts futures, and so do the jobs that are queued.

  A world hosts futures when it is kept by making, watching
  and settling them; the rest is derived from that, one
  library function after the other.

  Main declarations:
    * `World.Hosts`
    * `World.Hosts.keeps_adopt`
    * `World.Hosts.keeps_completed`,
      `World.Hosts.keeps_result`,
      `World.Hosts.keeps_register`
    * `World.Hosts.keeps_turn`
-/

namespace Resumption

namespace World

------------------------------------------------------------
-- Worlds that Host Futures
------------------------------------------------------------

/-
  Futures can be made, watched and settled in a world, where
  those who are told of it are called by a caller.
-/
structure Hosts
    (W : World)
    (caller : Caller) : Prop where
  newFuture : ∀ {s} settlement, W.Sound s →
    W.Moves s
      { s with
        futures := s.futures.push ⟨settlement, #[], none, []⟩ }
  newFuture_loose : ∀ {s} settlement, W.Sound s →
    W.loose
      { s with
        futures := s.futures.push ⟨settlement, #[], none, []⟩ }
      s.futures.size
  setPromise : ∀ {s} f p, W.Sound s →
    W.Moves s
      { s with
        futures :=
          s.futures.modify f ({ · with promise := some p }) }
  newAwaiter : ∀ {s} {cell : AwaiterCell}, W.Sound s →
    cell.Fits (W.fit s) →
    W.Moves s { s with awaiters := s.awaiters.push cell }
  newDeferred : ∀ {s d}, W.Sound s →
    (∀ f, d = .future f → W.loose s f) →
    W.Moves s { s with deferreds := s.deferreds.push d }
  newControlled : ∀ {s f} a, W.Sound s → W.loose s f →
    W.Moves s
      { s with
        controlled := s.controlled.push ⟨a, f, 0, 0, 0, 0⟩ }
  countControlled : ∀ {s} c g, W.Sound s →
    (∀ cell : ControlledCell, (g cell).future = cell.future) →
    W.Moves s { s with controlled := s.controlled.modify c g }
  deferred_loose : ∀ {s} {r f : Ref}, W.Sound s →
    s.deferreds[r]? = some (.future f) → W.loose s f
  controlled_loose : ∀ {s} {r : Ref} {cell}, W.Sound s →
    s.controlled[r]? = some cell → W.loose s cell.future
  settle : ∀ {s f} outcome, W.Sound s → W.loose s f →
    W.Keeps (Future.settle caller f outcome) s
  watch : ∀ {s} {f : Ref} {w}, W.Sound s → W.fit s w →
    W.Keeps (Future.watch caller f w) s

variable {W : World}
variable {s s' : Session}
variable {caller : Caller}

------------------------------------------------------------
-- Promises
------------------------------------------------------------

theorem keeps_newPromise
    (hs : W.Sound s) :
    W.Keeps Promise.new s := by
  unfold Promise.new
  refine keeps_get_bind.mpr (keeps_alloc ?_)
  refine hs.moves_of_kernel rfl
    { hs.stocked with promises := ?_ }
  intro r q
  simp only [Table.promises, getD_push]
  split
  · intro hq
    simp at hq
  · exact hs.stocked.promises r q

/- A promise's own context is none of a world's business. -/
theorem keeps_within
    {α : Type}
    {act : Run α}
    (hs : W.Sound s)
    (p : Ref)
    (h : ∀ s', W.Moves s s' → W.Keeps act s') :
    W.Keeps (Promise.within p act) s :=
  keeps_row_bind.mpr (Keeps.elsewhere hs fun s₁ h₁ _ => h s₁ h₁)

/- Queueing reactions keeps the world. -/
private theorem keeps_enqueueAll
    (outcome : Outcome)
    (reactions : List Reaction)
    (hs : W.Sound s)
    (hFit : ∀ r ∈ reactions, r.Fits (W.fit s)) :
    W.Keeps
      (reactions.forM fun r => Run.enqueue (.react r outcome))
      s := by
  induction reactions generalizing s with
  | nil => exact keeps_pure.mpr (.refl hs)
  | cons r rest ih =>
      have hHead : Job.Fits (W.fit s) (.react r outcome) :=
        hFit r List.mem_cons_self
      refine Keeps.bind (keeps_enqueue hs hHead)
        fun _ s₁ h₁ => ?_
      refine ih h₁.sound fun q hq => ?_
      exact (hFit q (List.mem_cons_of_mem _ hq)).mono
        fun _ => h₁.fit

theorem keeps_settlePromise
    (hs : W.Sound s)
    (p : Ref)
    (outcome : Outcome) :
    W.Keeps (Promise.settle p outcome) s := by
  unfold Promise.settle
  refine keeps_row_bind.mpr ?_
  split
  · exact keeps_pure.mpr (.refl hs)
  · refine Keeps.bind (keeps_alter ?_) fun _ s₁ h₁ => ?_
    · refine hs.moves_of_kernel rfl
        { hs.stocked with promises := ?_ }
      intro r q
      simp only [Table.promises, getD_modify]
      split
      · intro hq
        simp at hq
      · exact hs.stocked.promises r q
    · refine keeps_enqueueAll _ _ h₁.sound fun q hq => ?_
      exact (hs.stocked.promises p q hq).mono fun _ => h₁.fit

theorem keeps_resolve
    (hs : W.Sound s)
    (p : Ref)
    (v : Value) :
    W.Keeps (Promise.resolve p v) s := by
  unfold Promise.resolve
  split
  · exact (keeps_newTypeError hs).bind fun _ _ h₁ =>
      keeps_settlePromise h₁.sound _ _
  · split
    · exact keeps_enqueue hs trivial
    · exact keeps_settlePromise hs _ _

theorem keeps_concludePromise
    (hs : W.Sound s)
    (p : Ref)
    (outcome : Outcome) :
    W.Keeps (Promise.conclude p outcome) s := by
  unfold Promise.conclude
  split
  · exact keeps_resolve hs _ _
  · exact keeps_settlePromise hs _ _

/- Settling a promise throws nothing. -/
private theorem calm_settlePromise
    (p : Ref)
    (outcome : Outcome) :
    Run.Calm (Promise.settle p outcome) := by
  refine Run.Calm.bind (fun _ => Run.ensures_row.mpr ⟨_, rfl⟩)
    fun cell => ?_
  split
  · exact Run.calm_pure _
  · refine Run.Calm.bind
      (fun _ => Run.ensures_alter.mpr ⟨_, rfl⟩) fun _ => ?_
    exact Run.Calm.forM (fun _ => Run.calm_modify _) _

private theorem calm_resolve
    (p : Ref)
    (v : Value) :
    Run.Calm (Promise.resolve p v) := by
  unfold Promise.resolve
  split
  · have hError : Run.Calm Run.newTypeError :=
      Run.Calm.bind
        (fun _ => Run.ensures_modifyGet.mpr ⟨_, rfl⟩)
        fun _ => Run.calm_pure _
    exact hError.bind fun _ => calm_settlePromise _ _
  · split
    · exact Run.calm_modify _
    · exact calm_settlePromise _ _

/- So the promise of a future settles without a throw. -/
theorem calm_cross
    (f p : Ref) :
    Run.Calm (Future.cross f p) := by
  have hConclude : ∀ outcome,
      Run.Calm (Promise.conclude p outcome) := by
    intro outcome
    cases outcome with
    | fulfilled v => exact calm_resolve p v
    | rejected e => exact calm_settlePromise p _
  refine Run.Calm.bind (Run.Calm.bind
    (fun _ => Run.ensures_row.mpr ⟨_, rfl⟩)
    fun _ => Run.calm_pure _) fun found => ?_
  cases found with
  | none => exact Run.calm_pure _
  | some t =>
      exact (hConclude t.outcome).bind fun _ => Run.calm_pure _

theorem keeps_ofValue
    (hs : W.Sound s)
    (v : Value) :
    W.Keeps (Promise.ofValue v) s := by
  unfold Promise.ofValue
  split
  · exact keeps_pure.mpr (.refl hs)
  · refine (keeps_newPromise hs).bind fun p s₁ h₁ => ?_
    refine (keeps_resolve h₁.sound _ _).bind fun _ s₂ h₂ => ?_
    exact keeps_pure.mpr (.refl h₂.sound)

theorem keeps_react
    (hs : W.Sound s)
    (p : Ref)
    {onFulfilled onRejected : Option Closure}
    (hFulfilled : ∀ c ∈ onFulfilled, W.fit s c)
    (hRejected : ∀ c ∈ onRejected, W.fit s c) :
    W.Keeps (Promise.react p onFulfilled onRejected) s := by
  unfold Promise.react
  refine (keeps_newPromise hs).bind fun derived s₁ h₁ => ?_
  have hReaction :
      Reaction.Fits (W.fit s₁)
        ⟨onFulfilled, onRejected, derived⟩ :=
    ⟨fun c hc => h₁.fit (hFulfilled c hc),
     fun c hc => h₁.fit (hRejected c hc)⟩
  refine keeps_row_bind.mpr ?_
  split
  · refine Keeps.bind (keeps_enqueue h₁.sound ?_)
      fun _ s₂ h₂ => keeps_pure.mpr (.refl h₂.sound)
    exact hReaction
  · refine Keeps.bind (keeps_alter ?_) fun _ s₂ h₂ =>
      keeps_pure.mpr (.refl h₂.sound)
    refine h₁.sound.moves_of_kernel rfl
      { h₁.sound.stocked with promises := ?_ }
    intro r q
    simp only [Table.promises, getD_modify]
    split
    · intro hq
      simp only [Array.toList_push, List.mem_append,
        List.mem_singleton] at hq
      rcases hq with hOld | rfl
      · exact h₁.sound.stocked.promises r q hOld
      · exact hReaction
    · exact h₁.sound.stocked.promises r q

theorem keeps_runReaction
    (hc : W.Serves caller)
    (hs : W.Sound s)
    {r : Reaction}
    (hFit : r.Fits (W.fit s))
    (outcome : Outcome) :
    W.Keeps (Promise.runReaction caller r outcome) s := by
  unfold Promise.runReaction
  cases outcome with
  | fulfilled v =>
      cases hHandler : r.onFulfilled with
      | none => exact keeps_concludePromise hs _ _
      | some code =>
          refine Keeps.bind (Keeps.attempt (keeps_within hs _
            fun s₁ h₁ => ?_)) fun ended s₁ h₁ => ?_
          · exact hc.call h₁.sound
              (h₁.fit (hFit.1 code hHandler)) _
          · split <;> exact keeps_concludePromise h₁.sound _ _
  | rejected e =>
      cases hHandler : r.onRejected with
      | none => exact keeps_concludePromise hs _ _
      | some code =>
          refine Keeps.bind (Keeps.attempt (keeps_within hs _
            fun s₁ h₁ => ?_)) fun ended s₁ h₁ => ?_
          · exact hc.call h₁.sound
              (h₁.fit (hFit.2 code hHandler)) _
          · split <;> exact keeps_concludePromise h₁.sound _ _

theorem keeps_enterSettle
    (hs : W.Sound s)
    (p called : Ref)
    (fulfil : Bool)
    (v : Value) :
    W.Keeps (Promise.enterSettle p called fulfil v) s := by
  unfold Promise.enterSettle
  refine keeps_row_bind.mpr ?_
  split
  · exact keeps_pure.mpr (.refl hs)
  · refine (keeps_setLatch hs called).bind fun _ s₁ h₁ => ?_
    refine (keeps_concludePromise h₁.sound _ _).bind
      fun _ s₂ h₂ => ?_
    exact keeps_pure.mpr (.refl h₂.sound)

theorem keeps_handlerValue
    (hs : W.Sound s)
    {handler : Option Closure}
    (hFit : ∀ c ∈ handler, W.fit s c) :
    W.Keeps (Promise.handlerValue handler) s := by
  unfold Promise.handlerValue
  split
  · next code => exact keeps_newFunction hs (hFit code rfl)
  · exact keeps_pure.mpr (.refl hs)

namespace Hosts

variable (hW : W.Hosts caller)

include hW

------------------------------------------------------------
-- Futures and Promises
------------------------------------------------------------

theorem keeps_settled
    (hs : W.Sound s)
    (outcome : Outcome) :
    W.Keeps (Future.settled outcome) s := by
  unfold Future.settled
  refine (keeps_freshStamp hs).bind fun id s₁ h₁ => ?_
  exact keeps_alloc (hW.newFuture (some ⟨id, outcome⟩) h₁.sound)

omit hW in
theorem keeps_settlement?
    (hs : W.Sound s)
    (f : Ref) :
    W.Keeps (Future.settlement? f) s :=
  keeps_row_bind.mpr (keeps_pure.mpr (.refl hs))

omit hW in
theorem keeps_futureResult
    (hs : W.Sound s)
    (f : Ref) :
    W.Keeps (Future.result f) s := by
  unfold Future.result
  refine (keeps_settlement? hs f).bind fun found s₁ h₁ => ?_
  split
  · exact keeps_defect h₁.sound _
  · split
    · exact keeps_pure.mpr (.refl h₁.sound)
    · exact keeps_raise.mpr (.refl h₁.sound)

omit hW in
theorem keeps_cross
    (hs : W.Sound s)
    (f p : Ref) :
    W.Keeps (Future.cross f p) s := by
  unfold Future.cross
  refine (keeps_settlement? hs f).bind fun found s₁ h₁ => ?_
  split
  · exact keeps_pure.mpr (.refl h₁.sound)
  · refine (keeps_concludePromise h₁.sound _ _).bind
      fun _ s₂ h₂ => ?_
    exact keeps_pure.mpr (.refl h₂.sound)

theorem keeps_promiseOf
    (hs : W.Sound s)
    (f : Ref) :
    W.Keeps (Future.promiseOf caller f) s := by
  unfold Future.promiseOf
  refine keeps_row_bind.mpr ?_
  split
  · exact keeps_pure.mpr (.refl hs)
  · refine (keeps_newPromise hs).bind fun p s₁ h₁ => ?_
    refine Keeps.bind
      (hW.watch h₁.sound (W.fit_bridge s₁ f p))
      fun _ s₂ h₂ => ?_
    refine Keeps.bind
      (keeps_alter (hW.setPromise f p h₂.sound))
      fun _ s₃ h₃ => ?_
    exact keeps_pure.mpr (.refl h₃.sound)

theorem keeps_futureReact
    (hs : W.Sound s)
    (f : Ref)
    {onFulfilled onRejected : Option Closure}
    (hFulfilled : ∀ c ∈ onFulfilled, W.fit s c)
    (hRejected : ∀ c ∈ onRejected, W.fit s c) :
    W.Keeps
      (Future.react caller f onFulfilled onRejected) s := by
  unfold Future.react
  refine (hW.keeps_promiseOf hs f).bind fun p s₁ h₁ => ?_
  exact keeps_react h₁.sound p
    (fun c hm => h₁.fit (hFulfilled c hm))
    (fun c hm => h₁.fit (hRejected c hm))

/-
  The future of a source that is none settles in a job: the
  reaction that settles it may be stored, as anyone may
  settle a new future.
-/
theorem keeps_ofSource
    (hs : W.Sound s)
    (source : Value) :
    W.Keeps (Future.ofSource source) s := by
  unfold Future.ofSource
  split
  · exact keeps_pure.mpr (.refl hs)
  · unfold Future.new
    refine Run.ensures_alloc_bind.mpr ?_
    have hNew := hW.newFuture none hs
    have hLoose := hW.newFuture_loose none hs
    refine Keeps.of_moves hNew ?_
    refine (keeps_ofValue hNew.sound source).bind
      fun p s₁ h₁ => ?_
    have hFit : ∀ fulfil,
        W.fit s₁ (.settleFuture s.futures.size fulfil) :=
      fun fulfil =>
        (W.fit_settleFuture fulfil).mpr (h₁.loose hLoose)
    refine (keeps_react h₁.sound p ?_ ?_).discard.bind
      fun _ s₂ h₂ => keeps_pure.mpr (.refl h₂.sound)
    · intro c hm
      obtain rfl := Option.some.inj hm
      exact hFit true
    · intro c hm
      obtain rfl := Option.some.inj hm
      exact hFit false

theorem keeps_later
    (hs : W.Sound s)
    (outcome : Outcome) :
    W.Keeps (Future.later outcome) s := by
  unfold Future.later
  refine (keeps_newPromise hs).bind fun p s₁ h₁ => ?_
  refine Keeps.bind (keeps_modify ?_) fun _ s₂ h₂ =>
    hW.keeps_ofSource h₂.sound _
  exact h₁.sound.moves_of_kernel rfl { h₁.sound.stocked with }

------------------------------------------------------------
-- Then Methods
------------------------------------------------------------

theorem keeps_reactTo
    (hc : W.Serves caller)
    (hs : W.Sound s)
    (source : Value)
    {onFulfilled onRejected : Option Closure}
    (hFulfilled : ∀ c ∈ onFulfilled, W.fit s c)
    (hRejected : ∀ c ∈ onRejected, W.fit s c) :
    W.Keeps
      (Promise.reactTo caller source onFulfilled onRejected)
      s := by
  unfold Promise.reactTo
  split
  · exact (hW.keeps_futureReact hs _ hFulfilled
      hRejected).bind fun _ _ h₁ =>
        keeps_pure.mpr (.refl h₁.sound)
  · exact (keeps_react hs _ hFulfilled hRejected).bind
      fun _ _ h₁ => keeps_pure.mpr (.refl h₁.sound)
  · next t =>
      refine (keeps_handlerValue hs hFulfilled).bind
        fun res s₁ h₁ => ?_
      refine (keeps_handlerValue h₁.sound
        fun c hm => h₁.fit (hRejected c hm)).bind
          fun rej s₂ h₂ => ?_
      exact keeps_row_bind.mpr
        (hc.call h₂.sound (h₂.sound.stocked.thenables t) _)
  · refine (keeps_handlerValue hs hFulfilled).bind
      fun res s₁ h₁ => ?_
    refine (keeps_handlerValue h₁.sound
      fun c hm => h₁.fit (hRejected c hm)).bind
        fun rej s₂ h₂ => ?_
    exact keeps_callMethod hc h₂.sound _ _ _

theorem keeps_adopt
    (hc : W.Serves caller)
    (hs : W.Sound s)
    (source : Value)
    (p : Ref) :
    W.Keeps (Promise.adopt caller source p) s := by
  unfold Promise.adopt
  refine (keeps_newLatch hs).bind fun called s₁ h₁ => ?_
  refine Keeps.bind (Keeps.attempt
    (keeps_within h₁.sound p fun s₂ h₂ => ?_))
    fun ended s₂ h₂ => ?_
  · refine hW.keeps_reactTo hc h₂.sound source ?_ ?_
    · intro c hm
      obtain rfl := Option.some.inj hm
      exact W.fit_settlePromise _ p called true
    · intro c hm
      obtain rfl := Option.some.inj hm
      exact W.fit_settlePromise _ p called false
  · split
    · exact keeps_pure.mpr (.refl h₂.sound)
    · exact (keeps_enterSettle h₂.sound _ _ _ _).discard

------------------------------------------------------------
-- Settling from Outside
------------------------------------------------------------

theorem keeps_newDeferredFuture
    (hs : W.Sound s) :
    W.Keeps Deferred.newFuture s := by
  unfold Deferred.newFuture Future.new
  refine Run.ensures_alloc_bind.mpr ?_
  have hNew := hW.newFuture none hs
  refine Keeps.of_moves hNew ?_
  refine Keeps.bind (keeps_alloc
    (hW.newDeferred hNew.sound fun f hf => ?_))
    fun _ s₁ h₁ => keeps_pure.mpr (.refl h₁.sound)
  obtain rfl := Deferred.future.inj hf
  exact hW.newFuture_loose none hs

theorem keeps_newDeferredPromise
    (hs : W.Sound s) :
    W.Keeps Deferred.newPromise s := by
  unfold Deferred.newPromise
  refine (keeps_newPromise hs).bind fun p s₁ h₁ => ?_
  refine (keeps_newLatch h₁.sound).bind fun called s₂ h₂ => ?_
  refine Keeps.bind (keeps_alloc
    (hW.newDeferred h₂.sound fun f hf => ?_))
    fun _ s₃ h₃ => keeps_pure.mpr (.refl h₃.sound)
  cases hf

theorem keeps_settleDeferred
    (hs : W.Sound s)
    (d : Value)
    (outcome : Outcome) :
    W.Keeps (Deferred.settle caller d outcome) s := by
  unfold Deferred.settle
  split
  · next r =>
      refine keeps_get_bind.mpr ?_
      cases hRow : s.deferreds[r]? with
      | none => exact keeps_typeError hs
      | some cell =>
          cases cell with
          | future f =>
              have hLoose := hW.deferred_loose hs hRow
              exact Keeps.bind (hW.settle outcome hs hLoose)
                fun _ _ h₁ => keeps_pure.mpr (.refl h₁.sound)
          | promise p called =>
              cases outcome with
              | fulfilled v => exact keeps_enterSettle hs _ _ _ _
              | rejected e => exact keeps_enterSettle hs _ _ _ _
  · exact keeps_typeError hs

------------------------------------------------------------
-- Awaiters
------------------------------------------------------------

theorem keeps_newAwaiter
    (hs : W.Sound s)
    {cell : AwaiterCell}
    (hFit : cell.Fits (W.fit s)) :
    W.Keeps (Awaiter.new cell) s := by
  unfold Awaiter.new
  exact Keeps.bind (keeps_alloc (hW.newAwaiter hs hFit))
    fun _ _ h₁ => keeps_pure.mpr (.refl h₁.sound)

/- A use of a controlled awaitable is counted. -/
theorem keeps_count
    (hs : W.Sound s)
    (c : Ref)
    {g : ControlledCell → ControlledCell}
    (hg : ∀ cell, (g cell).future = cell.future) :
    W.Keeps (Table.controlled.alter c g) s :=
  keeps_alter (hW.countControlled c g hs hg)

theorem keeps_ofNested
    (hc : W.Serves caller)
    (hs : W.Sound s)
    (n : Nat)
    (v : Value) :
    W.Keeps (Awaiter.ofNested caller n v) s := by
  induction n generalizing s v with
  | zero => exact Run.ensures_exhaust
  | succ n ih =>
      unfold Awaiter.ofNested
      split
      · exact hW.keeps_newAwaiter hs trivial
      · next a =>
          refine keeps_row_bind.mpr ?_
          have hOld := hs.stocked.awaitables a
          split
          · exact hW.keeps_newAwaiter hs trivial
          · exact Keeps.bind (hW.keeps_count hs _ fun _ => rfl)
              fun _ _ h₁ => hW.keeps_newAwaiter h₁.sound trivial
          · next reporter hCell =>
              rw [show s.awaitables.getD a default =
                .custom reporter from hCell] at hOld
              exact hW.keeps_newAwaiter hs hOld
          · exact ih hs _
      · exact keeps_callMethod hc hs _ _ _

theorem keeps_awaiterOf
    (hc : W.Serves caller)
    (hs : W.Sound s)
    (v : Value) :
    W.Keeps (Awaiter.ofValue caller v) s :=
  hW.keeps_ofNested hc hs _ v

theorem keeps_completed
    (hc : W.Serves caller)
    (hs : W.Sound s)
    (awaiter : Value) :
    W.Keeps (Awaiter.completed caller awaiter) s := by
  unfold Awaiter.completed
  split
  · next r =>
      refine keeps_row_bind.mpr ?_
      have hOld := hs.stocked.awaiters r
      split
      · exact (keeps_settlement? hs _).bind fun _ _ h₁ =>
          keeps_pure.mpr (.refl h₁.sound)
      · refine Keeps.bind (hW.keeps_count hs _ fun _ => rfl)
          fun _ s₁ h₁ => ?_
        refine keeps_row_bind.mpr ?_
        exact (keeps_settlement? h₁.sound _).bind fun _ _ h₂ =>
          keeps_pure.mpr (.refl h₂.sound)
      · next reporter hCell =>
          rw [show s.awaiters.getD r default =
            .custom reporter from hCell] at hOld
          exact hc.call hs hOld.1 _
  · exact keeps_field hs _ _

theorem keeps_result
    (hc : W.Serves caller)
    (hs : W.Sound s)
    (awaiter : Value) :
    W.Keeps (Awaiter.result caller awaiter) s := by
  unfold Awaiter.result
  split
  · next r =>
      refine keeps_row_bind.mpr ?_
      have hOld := hs.stocked.awaiters r
      split
      · exact keeps_futureResult hs _
      · refine Keeps.bind (hW.keeps_count hs _ fun _ => rfl)
          fun _ s₁ h₁ => ?_
        exact keeps_row_bind.mpr (keeps_futureResult h₁.sound _)
      · next reporter hCell =>
          rw [show s.awaiters.getD r default =
            .custom reporter from hCell] at hOld
          exact hc.call hs hOld.2.1 _
  · exact keeps_callMethod hc hs _ _ _

theorem keeps_registerFuture
    (hs : W.Sound s)
    (f : Ref)
    (captured : Bool)
    {callback : Closure}
    (hFit : W.fit s callback) :
    W.Keeps
      (Awaiter.registerFuture caller f captured callback)
      s := by
  unfold Awaiter.registerFuture
  refine keeps_get_bind.mpr ?_
  split
  · exact hW.watch hs (W.fit_resumption _ hFit)
  · exact hW.watch hs hFit

theorem keeps_register
    (hc : W.Serves caller)
    (hs : W.Sound s)
    (awaiter : Value)
    {callback : Closure}
    (hFit : W.fit s callback) :
    W.Keeps (Awaiter.register caller awaiter callback) s := by
  unfold Awaiter.register
  split
  · next r =>
      refine keeps_row_bind.mpr ?_
      have hOld := hs.stocked.awaiters r
      split
      · exact hW.keeps_registerFuture hs _ _ hFit
      · refine Keeps.bind (hW.keeps_count hs _ fun _ => rfl)
          fun _ s₁ h₁ => ?_
        exact keeps_row_bind.mpr
          (hW.keeps_registerFuture h₁.sound _ _
            (h₁.fit hFit))
      · next reporter hCell =>
          rw [show s.awaiters.getD r default =
            .custom reporter from hCell] at hOld
          refine (keeps_newFunction hs hFit).bind
            fun f s₁ h₁ => ?_
          exact (hc.call h₁.sound (h₁.fit hOld.2.2) _).discard
  · refine (keeps_newFunction hs hFit).bind fun f s₁ h₁ => ?_
    exact (keeps_callMethod hc h₁.sound _ _ _).discard

------------------------------------------------------------
-- Awaitables
------------------------------------------------------------

omit hW in
theorem keeps_isAwaitable
    (hs : W.Sound s)
    (v : Value) :
    W.Keeps (Awaitable.isAwaitable v) s := by
  unfold Awaitable.isAwaitable
  split
  · split <;> exact keeps_pure.mpr (.refl hs)
  · exact keeps_typeError hs

omit hW in
theorem keeps_isConfigurable
    (hs : W.Sound s)
    (v : Value) :
    W.Keeps (Awaitable.isConfigurable v) s := by
  unfold Awaitable.isConfigurable
  split
  · split
    · exact keeps_pure.mpr (.refl hs)
    · refine keeps_row_bind.mpr ?_
      split <;> exact keeps_pure.mpr (.refl hs)
    · exact keeps_pure.mpr (.refl hs)
  · exact keeps_typeError hs

omit hW in
theorem keeps_newAwaitable
    (hs : W.Sound s)
    {cell : AwaitableCell}
    (hFit : cell.Fits (W.fit s)) :
    W.Keeps (Table.awaitables.alloc cell) s := by
  refine keeps_alloc (hs.moves_of_kernel rfl
    { hs.stocked with awaitables := ?_ })
  intro r
  simp only [Table.awaitables, getD_push]
  split
  · exact hFit
  · exact hs.stocked.awaitables r

omit hW in
theorem keeps_configure
    (hc : W.Serves caller)
    (hs : W.Sound s)
    (v captured : Value) :
    W.Keeps (Awaitable.configure caller v captured) s := by
  unfold Awaitable.configure
  split
  · exact Keeps.bind (keeps_newAwaitable hs trivial)
      fun _ _ h₁ => keeps_pure.mpr (.refl h₁.sound)
  · next a =>
      refine keeps_row_bind.mpr ?_
      have hOld := hs.stocked.awaitables a
      split
      · next base code hCell =>
          rw [show s.awaitables.getD a default =
            .configurable base code from hCell] at hOld
          exact hc.call hs hOld _
      · exact keeps_typeError hs
  · exact keeps_callMethod hc hs _ _ _

theorem keeps_awaiterWith
    (hc : W.Serves caller)
    (hs : W.Sound s)
    (v : Value)
    (captured : Bool) :
    W.Keeps (Awaitable.awaiterWith caller v captured) s := by
  unfold Awaitable.awaiterWith
  split
  · exact hW.keeps_newAwaiter hs trivial
  · exact (keeps_configure hc hs _ _).bind fun _ _ h₁ =>
      hW.keeps_awaiterOf hc h₁.sound _

theorem keeps_detachedAwaiter
    (hc : W.Serves caller)
    (hs : W.Sound s)
    (v : Value) :
    W.Keeps (Awaitable.detachedAwaiter caller v) s := by
  unfold Awaitable.detachedAwaiter
  refine (keeps_isConfigurable hs v).bind fun _ s₁ h₁ => ?_
  split
  · exact hW.keeps_awaiterWith hc h₁.sound _ _
  · exact hW.keeps_awaiterOf hc h₁.sound _

theorem keeps_toAwaitable
    (hs : W.Sound s)
    (source : Value) :
    W.Keeps (Awaitable.ofSource source) s := by
  unfold Awaitable.ofSource
  refine (keeps_isAwaitable hs source).bind fun _ s₁ h₁ => ?_
  split
  · exact keeps_pure.mpr (.refl h₁.sound)
  · exact hW.keeps_ofSource h₁.sound _

end Hosts

end World

end Resumption

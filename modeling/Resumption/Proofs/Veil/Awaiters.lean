import Resumption.Proofs.Veil.Library

/-
  Promises and awaiters do the same under a veil.

  An awaiter may have lost its context rule where contexts
  are hidden; as none is ambient there, it registers its
  callback as the other one does.

  Main declarations:
    * `Veil.matches_conclude`, `Veil.matches_reactTo`
    * `Veil.matches_ofSource`
    * `Veil.matches_ofValue`
    * `Veil.matches_register`
-/

namespace Resumption

open Run

namespace Veil

variable {V : Veil}
variable {α β : Type}
variable {Q : α → β → Prop}
variable {c c' : Caller}

------------------------------------------------------------
-- Promises
------------------------------------------------------------

theorem matches_newPromise :
    V.Matches Eq Promise.new Promise.new :=
  matches_ambient.bind fun _ =>
    column_promises.alloc (by simp [promiseRow])

/- Both sides run in the context that the promise was made in. -/
theorem matches_within
    {act : Run α}
    {act' : Run β}
    (p : Ref)
    (h : V.Matches Q act act') :
    V.Matches Q (Promise.within p act)
      (Promise.within p act') := by
  refine column_promises.row_bind ?_
  rintro cell _ rfl
  exact h.elsewhere _

theorem matches_enqueueReactions
    (reactions : List Reaction)
    (outcome : Outcome) :
    V.Matches Eq
      (reactions.forM fun r => enqueue (.react r outcome))
      ((reactions.map V.reaction).forM fun r =>
        enqueue (.react r outcome)) := by
  induction reactions with
  | nil => exact matches_pure rfl
  | cons r rest ih =>
      exact (matches_enqueue rfl rfl).bind fun _ => ih

theorem matches_settlePromise
    (p : Ref)
    (outcome : Outcome) :
    V.Matches Eq (Promise.settle p outcome)
      (Promise.settle p outcome) := by
  refine column_promises.row_bind ?_
  rintro cell _ rfl
  simp only [promiseRow, Array.toList_map]
  split
  · exact matches_pure rfl
  · refine (column_promises.alter p ?_).bind fun _ =>
      matches_enqueueReactions _ outcome
    rintro _ _ rfl
    simp [promiseRow]

theorem matches_resolve
    (p : Ref)
    (v : Value) :
    V.Matches Eq (Promise.resolve p v)
      (Promise.resolve p v) := by
  unfold Promise.resolve
  split
  · exact matches_newTypeError.bind fun e =>
      matches_settlePromise p _
  · split
    · exact matches_enqueue rfl rfl
    · exact matches_settlePromise p _

theorem matches_conclude
    (p : Ref)
    (outcome : Outcome) :
    V.Matches Eq (Promise.conclude p outcome)
      (Promise.conclude p outcome) := by
  cases outcome with
  | fulfilled v => exact matches_resolve p v
  | rejected e => exact matches_settlePromise p _

theorem matches_promiseOfValue
    (v : Value) :
    V.Matches Eq (Promise.ofValue v) (Promise.ofValue v) := by
  unfold Promise.ofValue
  split
  · exact matches_pure rfl
  · exact matches_newPromise.bind fun p =>
      (matches_resolve p v).bind fun _ => matches_pure rfl

theorem matches_reactPromise
    (p : Ref)
    (onFulfilled onRejected : Option Closure) :
    V.Matches Eq (Promise.react p onFulfilled onRejected)
      (Promise.react p (onFulfilled.map V.closure)
        (onRejected.map V.closure)) := by
  refine matches_newPromise.bind fun derived => ?_
  refine column_promises.row_bind ?_
  rintro cell _ rfl
  simp only [promiseRow]
  cases cell.outcome with
  | some outcome =>
      exact (matches_enqueue rfl rfl).bind fun _ =>
        matches_pure rfl
  | none =>
      refine (column_promises.alter p ?_).bind fun _ =>
        matches_pure rfl
      rintro _ _ rfl
      simp [promiseRow, reaction]

/- A promise is concluded alike by what a handler does. -/
theorem matches_handled
    (hc : V.Serves c c')
    (p : Ref)
    (handler : Closure)
    (v : Value) :
    V.Matches Eq
      (do
        match ← Run.attempt
            (Promise.within p (c.call handler [v])) with
        | .ok w => Promise.conclude p (.fulfilled w)
        | .error e => Promise.conclude p (.rejected e))
      (do
        match ← Run.attempt
            (Promise.within p
              (c'.call (V.closure handler) [v])) with
        | .ok w => Promise.conclude p (.fulfilled w)
        | .error e => Promise.conclude p (.rejected e)) := by
  refine (matches_within _ (hc.call handler [v])).attempt.bind
    fun ended => ?_
  cases ended with
  | ok w => exact matches_conclude _ _
  | error e => exact matches_conclude _ _

theorem matches_runReaction
    (hc : V.Serves c c')
    (r : Reaction)
    (outcome : Outcome) :
    V.Matches Eq (Promise.runReaction c r outcome)
      (Promise.runReaction c' (V.reaction r) outcome) := by
  rcases r with ⟨onFulfilled, onRejected, derived⟩
  cases outcome with
  | fulfilled v =>
      cases onFulfilled with
      | none => exact matches_conclude derived (.fulfilled v)
      | some handler =>
          exact matches_handled hc derived handler v
  | rejected e =>
      cases onRejected with
      | none => exact matches_conclude derived (.rejected e)
      | some handler =>
          exact matches_handled hc derived handler e

theorem matches_enterSettle
    (p called : Ref)
    (fulfil : Bool)
    (v : Value) :
    V.Matches Eq (Promise.enterSettle p called fulfil v)
      (Promise.enterSettle p called fulfil v) := by
  refine column_latches.row_bind ?_
  rintro was _ rfl
  split
  · exact matches_pure rfl
  · refine (column_latches.alter called fun _ _ _ => rfl).bind
      fun _ => ?_
    exact (matches_conclude p _).bind fun _ => matches_pure rfl

------------------------------------------------------------
-- Futures and Promises
------------------------------------------------------------

theorem matches_cross
    (f p : Ref) :
    V.Matches Eq (Future.cross f p) (Future.cross f p) := by
  refine (matches_settlement? f).bind fun settlement => ?_
  cases settlement with
  | none => exact matches_pure rfl
  | some t =>
      exact (matches_conclude p t.outcome).bind fun _ =>
        matches_pure rfl

theorem matches_promiseOf
    (hc : V.Serves c c')
    (f : Ref) :
    V.Matches Eq (Future.promiseOf c f)
      (Future.promiseOf c' f) := by
  refine column_futures.row_bind ?_
  rintro cell _ rfl
  simp only [futureRow]
  cases cell.promise with
  | some p => exact matches_pure rfl
  | none =>
      refine matches_newPromise.bind fun p => ?_
      refine (matches_watch hc f (.bridge f p)).bind fun _ => ?_
      refine (column_futures.alter f ?_).bind fun _ =>
        matches_pure rfl
      rintro _ _ rfl
      rfl

theorem matches_reactFuture
    (hc : V.Serves c c')
    (f : Ref)
    (onFulfilled onRejected : Option Closure) :
    V.Matches Eq (Future.react c f onFulfilled onRejected)
      (Future.react c' f (onFulfilled.map V.closure)
        (onRejected.map V.closure)) :=
  (matches_promiseOf hc f).bind fun p =>
    matches_reactPromise p onFulfilled onRejected

/- What is awaited as a future is one. -/
theorem matches_ofSource_future
    (source : Value) :
    V.Matches (fun v v' => v = v' ∧ ∃ f, v = .future f)
      (Future.ofSource source) (Future.ofSource source) := by
  unfold Future.ofSource
  split
  · exact matches_pure ⟨rfl, _, rfl⟩
  · refine matches_newFuture.bind fun f => ?_
    refine (matches_promiseOfValue source).bind fun p => ?_
    exact (matches_reactPromise p
      (some (.settleFuture f true))
      (some (.settleFuture f false))).discard.bind fun _ =>
        matches_pure ⟨rfl, _, rfl⟩

theorem matches_ofSource
    (source : Value) :
    V.Matches Eq (Future.ofSource source)
      (Future.ofSource source) :=
  (matches_ofSource_future source).mono fun _ _ h => h.1

theorem matches_later
    (outcome : Outcome) :
    V.Matches Eq (Future.later outcome)
      (Future.later outcome) := by
  refine matches_newPromise.bind fun p => ?_
  refine Matches.bind ?_ fun _ => matches_ofSource _
  exact matches_modify (fun _ => .of_still ⟨rfl, rfl, rfl, rfl⟩)
    fun _ _ hSees =>
      { hSees with immediates := by rw [hSees.immediates] }

theorem matches_handlerValue
    (handler : Option Closure) :
    V.Matches Eq (Promise.handlerValue handler)
      (Promise.handlerValue (handler.map V.closure)) := by
  cases handler with
  | none => exact matches_pure rfl
  | some code => exact matches_newFunction code

/- Whatever has a then method, it is called the same way. -/
theorem matches_reactTo
    (hc : V.Serves c c')
    (source : Value)
    (onFulfilled onRejected : Option Closure) :
    V.Matches Eq
      (Promise.reactTo c source onFulfilled onRejected)
      (Promise.reactTo c' source (onFulfilled.map V.closure)
        (onRejected.map V.closure)) := by
  unfold Promise.reactTo
  split
  · exact (matches_reactFuture hc _ _ _).bind fun _ =>
      matches_pure rfl
  · exact (matches_reactPromise _ _ _).bind fun _ =>
      matches_pure rfl
  · refine (matches_handlerValue onFulfilled).bind fun res => ?_
    refine (matches_handlerValue onRejected).bind fun rej => ?_
    refine column_thenables.row_bind ?_
    rintro code _ rfl
    exact hc.call code _
  · refine (matches_handlerValue onFulfilled).bind fun res => ?_
    refine (matches_handlerValue onRejected).bind fun rej => ?_
    exact matches_callMethod hc source "then" _

theorem matches_adopt
    (hc : V.Serves c c')
    (source : Value)
    (p : Ref) :
    V.Matches Eq (Promise.adopt c source p)
      (Promise.adopt c' source p) := by
  refine (column_latches.alloc rfl).bind fun called => ?_
  refine (matches_within p (matches_reactTo hc source
    (some (.settlePromise p called true))
    (some (.settlePromise p called false)))).attempt.bind
      fun ended => ?_
  cases ended with
  | ok v => exact matches_pure rfl
  | error e => exact (matches_enterSettle _ _ _ _).discard

theorem matches_newDeferredFuture :
    V.Matches Eq Deferred.newFuture Deferred.newFuture :=
  matches_newFuture.bind fun _ =>
    (column_deferreds.alloc rfl).bind fun _ => matches_pure rfl

theorem matches_newDeferredPromise :
    V.Matches Eq Deferred.newPromise Deferred.newPromise :=
  matches_newPromise.bind fun _ =>
    (column_latches.alloc rfl).bind fun _ =>
      (column_deferreds.alloc rfl).bind fun _ =>
        matches_pure rfl

theorem matches_settleDeferred
    (hc : V.Serves c c')
    (d : Value)
    (outcome : Outcome) :
    V.Matches Eq (Deferred.settle c d outcome)
      (Deferred.settle c' d outcome) := by
  unfold Deferred.settle
  split
  · next r =>
      have hFuture : ∀ f, V.Matches Eq
          (do return Value.bool (← Future.settle c f outcome))
          (do return .bool (← Future.settle c' f outcome)) :=
        fun f => (matches_settle hc f outcome).bind fun _ =>
          matches_pure rfl
      refine matches_get_bind (fun s => ?_) fun s t hSees => ?_
      · split
        · exact (hFuture _).goes
        · exact (matches_enterSettle (V := V) _ _ _ _).goes
        · exact (matches_enterSettle (V := V) _ _ _ _).goes
        · exact goes_typeError
      · rw [hSees.deferreds.eq]
        split
        · exact hFuture _
        · exact matches_enterSettle _ _ _ _
        · exact matches_enterSettle _ _ _ _
        · exact matches_typeError
  · exact matches_typeError

------------------------------------------------------------
-- Awaiters
------------------------------------------------------------

theorem matches_newAwaiter
    {cell cell' : AwaiterCell}
    (h : V.AwaiterRow cell cell') :
    V.Matches Eq (Awaiter.new cell) (Awaiter.new cell') :=
  (column_awaiters.alloc h).bind fun _ => matches_pure rfl

/- A future's awaiter may lose its context rule. -/
theorem matches_newFutureAwaiter
    {captured captured' : Bool}
    (f : Ref)
    (h : V.contexts = false → captured' = captured) :
    V.Matches Eq (Awaiter.new (.future f captured))
      (Awaiter.new (.future f captured')) :=
  matches_newAwaiter (.future f h)

theorem matches_ofNested
    (hc : V.Serves c c')
    (n : Nat)
    (v : Value) :
    V.Matches Eq (Awaiter.ofNested c n v)
      (Awaiter.ofNested c' n v) := by
  induction n generalizing v with
  | zero =>
      exact ⟨fun _ => ensures_exhaust, fun _ => ensures_exhaust⟩
  | succ n ih =>
      unfold Awaiter.ofNested
      split
      · exact matches_newFutureAwaiter _ fun _ => rfl
      · refine column_awaitables.row_bind ?_
        rintro cell _ rfl
        cases cell with
        | configured f captured =>
            exact matches_newFutureAwaiter f fun _ => rfl
        | controlled i =>
            refine (column_controlled.alter i ?_).bind fun _ =>
              matches_newAwaiter (.controlled i)
            rintro _ _ rfl
            rfl
        | custom r => exact matches_newAwaiter (.custom r)
        | configurable base code => exact ih base
      · exact matches_callMethod hc v _ _

theorem matches_ofValue
    (hc : V.Serves c c')
    (v : Value) :
    V.Matches Eq (Awaiter.ofValue c v)
      (Awaiter.ofValue c' v) := by
  unfold Awaiter.ofValue
  rw [hc.rounds]
  exact matches_ofNested hc _ v

theorem matches_completed
    (hc : V.Serves c c')
    (awaiter : Value) :
    V.Matches Eq (Awaiter.completed c awaiter)
      (Awaiter.completed c' awaiter) := by
  unfold Awaiter.completed
  split
  · refine column_awaiters.row_bind ?_
    intro cell cell' hRow
    cases hRow with
    | future f h =>
        exact (matches_settlement? f).bind fun _ =>
          matches_pure rfl
    | controlled i =>
        refine (column_controlled.alter i ?_).bind fun _ => ?_
        · rintro _ _ rfl
          rfl
        · refine column_controlled.row_bind ?_
          rintro cell _ rfl
          exact (matches_settlement? _).bind fun _ =>
            matches_pure rfl
    | custom r => exact hc.call r.completed []
  · exact matches_field awaiter (by simp [capturedKey])

theorem matches_result
    (hc : V.Serves c c')
    (awaiter : Value) :
    V.Matches Eq (Awaiter.result c awaiter)
      (Awaiter.result c' awaiter) := by
  unfold Awaiter.result
  split
  · refine column_awaiters.row_bind ?_
    intro cell cell' hRow
    cases hRow with
    | future f h => exact matches_futureResult f
    | controlled i =>
        refine (column_controlled.alter i ?_).bind fun _ => ?_
        · rintro _ _ rfl
          rfl
        · refine column_controlled.row_bind ?_
          rintro cell _ rfl
          exact matches_futureResult _
    | custom r => exact hc.call r.result []
  · exact matches_callMethod hc awaiter _ _

/- Where contexts are hidden, none is ambient. -/
theorem matches_ambient_bind
    {f : Value → Run α}
    {f' : Value → Run β}
    (hGo : ∀ a, Goes (f a))
    (h : ∀ a, (V.contexts = true → a.truthy = false) →
      V.Matches Q (f a) (f' a)) :
    V.Matches Q (ambient >>= f) (ambient >>= f') := by
  change V.Matches Q (get >>= fun s => f s.ambient)
    (get >>= fun s => f' s.ambient)
  refine matches_get_bind (fun _ => hGo _) fun s t hSees => ?_
  rw [hSees.ambient]
  exact h _ hSees.plain

/-
  A callback is registered alike whatever the context rule,
  where there is no ambient context to keep.
-/
theorem matches_registerFuture
    {captured captured' : Bool}
    (hc : V.Serves c c')
    (f : Ref)
    (h : V.contexts = false → captured' = captured)
    (callback : Closure) :
    V.Matches Eq (Awaiter.registerFuture c f captured callback)
      (Awaiter.registerFuture c' f captured'
        (V.closure callback)) := by
  have hWatch := matches_watch hc f callback
  have hKeep := fun a => matches_watch hc f
    (.resumption a callback)
  refine matches_ambient_bind (fun a => ?_) fun a hPlain => ?_
  · split
    · exact (hKeep a).goes
    · exact hWatch.goes
  · cases hContexts : V.contexts with
    | true =>
        simp only [hPlain hContexts, Bool.and_false]
        exact hWatch
    | false =>
        rw [h hContexts]
        split
        · exact hKeep a
        · exact hWatch

theorem matches_register
    (hc : V.Serves c c')
    (awaiter : Value)
    (callback : Closure) :
    V.Matches Eq (Awaiter.register c awaiter callback)
      (Awaiter.register c' awaiter (V.closure callback)) := by
  unfold Awaiter.register
  split
  · refine column_awaiters.row_bind ?_
    intro cell cell' hRow
    cases hRow with
    | future f h => exact matches_registerFuture hc f h callback
    | controlled i =>
        refine (column_controlled.alter i ?_).bind fun _ => ?_
        · rintro _ _ rfl
          rfl
        · refine column_controlled.row_bind ?_
          rintro cell _ rfl
          exact matches_registerFuture hc _ (fun _ => rfl)
            callback
    | custom r =>
        exact (matches_newFunction callback).bind fun f =>
          (hc.call r.register [f]).discard
  · exact (matches_newFunction callback).bind fun f =>
      (matches_callMethod hc awaiter _ _).discard

------------------------------------------------------------
-- Awaitables
------------------------------------------------------------

theorem matches_isAwaitable
    (v : Value) :
    V.Matches Eq (Awaitable.isAwaitable v)
      (Awaitable.isAwaitable v) := by
  unfold Awaitable.isAwaitable
  split
  · split <;> exact matches_pure rfl
  · exact matches_typeError

theorem matches_isConfigurable
    (v : Value) :
    V.Matches Eq (Awaitable.isConfigurable v)
      (Awaitable.isConfigurable v) := by
  unfold Awaitable.isConfigurable
  split
  · split
    · exact matches_pure rfl
    · refine column_awaitables.row_bind ?_
      rintro cell _ rfl
      cases cell <;> exact matches_pure rfl
    · exact matches_pure rfl
  · exact matches_typeError

theorem matches_configure
    (hc : V.Serves c c')
    (v captured : Value) :
    V.Matches Eq (Awaitable.configure c v captured)
      (Awaitable.configure c' v captured) := by
  unfold Awaitable.configure
  split
  · exact (column_awaitables.alloc rfl).bind fun _ =>
      matches_pure rfl
  · refine column_awaitables.row_bind ?_
    rintro cell _ rfl
    cases cell with
    | configurable base code => exact hc.call code _
    | _ => exact matches_typeError
  · exact matches_callMethod hc v _ _

theorem matches_awaiterWith
    (hc : V.Serves c c')
    (v : Value)
    (captured : Bool) :
    V.Matches Eq (Awaitable.awaiterWith c v captured)
      (Awaitable.awaiterWith c' v captured) := by
  unfold Awaitable.awaiterWith
  split
  · exact matches_newFutureAwaiter _ fun _ => rfl
  · exact (matches_configure hc v _).bind fun w =>
      matches_ofValue hc w

theorem matches_detachedAwaiter
    (hc : V.Serves c c')
    (v : Value) :
    V.Matches Eq (Awaitable.detachedAwaiter c v)
      (Awaitable.detachedAwaiter c' v) := by
  refine (matches_isConfigurable v).bind fun configurable => ?_
  split
  · exact matches_awaiterWith hc v false
  · exact matches_ofValue hc v

theorem matches_toAwaitable
    (source : Value) :
    V.Matches Eq (Awaitable.ofSource source)
      (Awaitable.ofSource source) := by
  refine (matches_isAwaitable source).bind fun awaitable => ?_
  split
  · exact matches_pure rfl
  · exact matches_ofSource source

theorem matches_customAwaitable
    (r : Reporter) :
    V.Matches Eq (Awaitable.custom r)
      (Awaitable.custom (V.reporter r)) :=
  (column_awaitables.alloc rfl).bind fun _ => matches_pure rfl

theorem matches_configurable
    (base : Value)
    (code : Closure) :
    V.Matches Eq (Awaitable.configurable base code)
      (Awaitable.configurable base (V.closure code)) :=
  (column_awaitables.alloc rfl).bind fun _ => matches_pure rfl

end Veil

end Resumption

import Resumption.Proofs.Leads

/-
  Wider bounds change no end.

  A run that ends within some bounds ends alike, and in the
  same session, within all wider bounds: callers with more
  rounds and depth do what those with fewer do wherever these
  come to an end.

  Main declarations:
    * `Run.Narrows`, `Caller.Narrows`
    * `Caller.Narrows.perform`, `Caller.Narrows.enter`
    * `Caller.Narrows.ofDepth`
-/

namespace Resumption

namespace Run

variable {α β : Type}

------------------------------------------------------------
-- Narrower Runs
------------------------------------------------------------

/- Wherever the one run ends, the other ends in the same way. -/
def Narrows (act act' : Run α) : Prop :=
  ∀ s out, act s = some out → act' s = some out

namespace Narrows

variable {act act' : Run α}

theorem refl (act : Run α) : act.Narrows act :=
  fun _ _ h => h

theorem exhaust : (Run.exhaust : Run α).Narrows act' :=
  nofun

theorem bind
    {f f' : α → Run β}
    (h : act.Narrows act')
    (hf : ∀ a, (f a).Narrows (f' a)) :
    (act >>= f).Narrows (act' >>= f') := by
  intro s out hRun
  cases hAct : act s with
  | none =>
      rw [bind_of_none hAct] at hRun
      cases hRun
  | some first =>
      rcases first with ⟨r, s₁⟩
      rw [bind_of_end hAct] at hRun
      rw [bind_of_end (h s _ hAct)]
      cases r with
      | ok a => exact hf a s₁ out hRun
      | error e => exact hRun

theorem map
    (g : α → β)
    (h : act.Narrows act') :
    (g <$> act).Narrows (g <$> act') :=
  h.bind fun _ => .refl _

theorem discard
    (h : act.Narrows act') :
    (Functor.discard act).Narrows (Functor.discard act') :=
  h.map _

theorem quietly
    (h : act.Narrows act') :
    (Run.quietly act).Narrows (Run.quietly act') :=
  h.discard.bind fun _ => .refl _

theorem attempt
    (h : act.Narrows act') :
    (Run.attempt act).Narrows (Run.attempt act') := by
  intro s out hRun
  cases hAct : act s with
  | none => simp [Run.attempt, hAct] at hRun
  | some end_ =>
      simpa [Run.attempt, hAct, h s _ hAct] using hRun

theorem withAmbient
    (ambient : Value)
    (h : act.Narrows act') :
    (Run.withAmbient ambient act).Narrows
      (Run.withAmbient ambient act') := by
  intro s out hRun
  cases hAct : act (becoming ambient s) with
  | none => simp [Run.withAmbient, hAct] at hRun
  | some end_ =>
      simpa [Run.withAmbient, hAct, h _ _ hAct] using hRun

theorem abroad
    (h : act.Narrows act') :
    (Run.abroad act).Narrows (Run.abroad act') := by
  intro s out hRun
  cases hAct : act { s with home := none } with
  | none => simp [Run.abroad, hAct] at hRun
  | some end_ =>
      simpa [Run.abroad, hAct, h _ _ hAct] using hRun

theorem withTask
    (t : Ref)
    (h : act.Narrows act') :
    (Run.withTask t act).Narrows (Run.withTask t act') := by
  intro s out hRun
  cases hAct : act (entering t s) with
  | none => simp [Run.withTask, hAct] at hRun
  | some end_ =>
      simpa [Run.withTask, hAct, h _ _ hAct] using hRun

theorem aside
    (h : act.Narrows act') :
    (Run.aside act).Narrows (Run.aside act') := by
  intro s out hRun
  cases hAct : act { s with aside := true } with
  | none => simp [Run.aside, hAct] at hRun
  | some end_ =>
      simpa [Run.aside, hAct, h _ _ hAct] using hRun

/- There may be more rounds, too. -/
theorem iterate
    {round round' : Run (Option α)}
    {n n' : Nat}
    (h : round.Narrows round')
    (hn : n ≤ n') :
    (Run.iterate n round).Narrows (Run.iterate n' round') := by
  induction n generalizing n' with
  | zero => exact .exhaust
  | succ n ih =>
      cases n' with
      | zero => exact (Nat.not_succ_le_zero n hn).elim
      | succ n' =>
          intro s out hRun
          simp only [Run.iterate] at hRun ⊢
          cases hRound : round s with
          | none => simp [hRound] at hRun
          | some first =>
              rw [h s _ hRound]
              rw [hRound] at hRun
              rcases first with ⟨e | _ | a, s₁⟩
              · exact hRun
              · exact ih (Nat.le_of_succ_le_succ hn) s₁ out hRun
              · exact hRun

end Narrows

end Run

/- The one caller goes no further than the other. -/
structure Caller.Narrows (c c' : Caller) : Prop where
  rounds : c.rounds ≤ c'.rounds
  call : ∀ closure args,
    (c.call closure args).Narrows (c'.call closure args)

namespace Caller.Narrows

open Run (Narrows)

variable {c c' : Caller}
variable (hc : c.Narrows c')

include hc

------------------------------------------------------------
-- Functions and Contexts
------------------------------------------------------------

theorem callValue
    (f : Value)
    (args : List Value) :
    (Run.callValue c f args).Narrows
      (Run.callValue c' f args) := by
  cases f with
  | function r => exact (Narrows.refl _).bind fun f => hc.call f args
  | _ => exact .refl _

theorem callMethod
    (v : Value)
    (key : String)
    (args : List Value) :
    (Run.callMethod c v key args).Narrows
      (Run.callMethod c' v key args) := by
  unfold Run.callMethod
  cases v.method? key with
  | none => exact .refl _
  | some f => exact hc.callValue f args

theorem post
    (context f : Value) :
    (Context.post c context f).Narrows
      (Context.post c' context f) := by
  unfold Context.post
  cases context with
  | context i =>
      refine (Narrows.refl _).bind fun row => ?_
      cases row.posting with
      | recording posts =>
          exact (Narrows.refl _).bind fun _ =>
            (hc.callValue f []).discard.bind fun _ => .refl _
      | custom code => exact hc.call code [f]
  | _ => exact hc.callMethod _ _ _

theorem resume
    (context : Value)
    (callback : Closure) :
    (Context.resume c context callback).Narrows
      (Context.resume c' context callback) := by
  unfold Context.resume
  refine (Narrows.refl _).bind fun entered => ?_
  refine (Narrows.refl _).bind fun posted => ?_
  refine (Narrows.refl _).bind fun _ => ?_
  refine (hc.post context posted).attempt.bind fun o => ?_
  cases o with
  | ok v => exact .refl _
  | error e =>
      refine (Narrows.refl _).bind fun wasEntered => ?_
      cases wasEntered with
      | true => exact .refl _
      | false =>
          exact (Narrows.refl _).bind fun failure =>
            (hc.call callback [failure]).discard.bind
              fun _ => .refl _

theorem enterContext
    (entered : Ref)
    (context : Value)
    (callback : Closure) :
    (Context.enter c entered context callback).Narrows
      (Context.enter c' entered context callback) := by
  unfold Context.enter Run.elsewhere
  exact (Narrows.refl _).bind fun _ =>
    ((hc.call callback []).abroad.withAmbient context).discard.bind
      fun _ => .refl _

------------------------------------------------------------
-- Futures and Promises
------------------------------------------------------------

theorem notify
    (watchers : List Closure)
    (failure : Option Value) :
    (Future.notify c watchers failure).Narrows
      (Future.notify c' watchers failure) := by
  induction watchers generalizing failure with
  | nil => exact .refl _
  | cons w rest ih =>
      refine (hc.call w []).attempt.bind fun o => ?_
      cases o with
      | ok v => exact ih failure
      | error e => exact ih _

theorem settleFuture
    (f : Ref)
    (outcome : Outcome) :
    (Future.settle c f outcome).Narrows
      (Future.settle c' f outcome) := by
  unfold Future.settle
  refine (Narrows.refl _).bind fun row => ?_
  split
  · exact .refl _
  · refine (Narrows.refl _).bind fun id => ?_
    refine (Narrows.refl _).bind fun _ => ?_
    exact (hc.notify _ _).bind fun _ => .refl _

theorem watch
    (f : Ref)
    (w : Closure) :
    (Future.watch c f w).Narrows (Future.watch c' f w) := by
  unfold Future.watch
  refine (Narrows.refl _).bind fun settlement => ?_
  split
  · exact (hc.call w []).discard
  · exact .refl _

theorem promiseOf
    (f : Ref) :
    (Future.promiseOf c f).Narrows (Future.promiseOf c' f) := by
  unfold Future.promiseOf
  refine (Narrows.refl _).bind fun row => ?_
  cases row.promise with
  | some p => exact .refl _
  | none =>
      exact (Narrows.refl _).bind fun p =>
        (hc.watch f _).bind fun _ => .refl _

theorem reactTo
    (source : Value)
    (onFulfilled onRejected : Option Closure) :
    (Promise.reactTo c source onFulfilled onRejected).Narrows
      (Promise.reactTo c' source onFulfilled onRejected) := by
  cases source with
  | future f =>
      exact Narrows.bind ((hc.promiseOf f).bind fun _ => .refl _)
        fun _ => .refl _
  | promise p => exact .refl _
  | thenable t =>
      exact (Narrows.refl _).bind fun res =>
        (Narrows.refl _).bind fun rej =>
          (Narrows.refl _).bind fun code => hc.call code _
  | _ =>
      exact (Narrows.refl _).bind fun res =>
        (Narrows.refl _).bind fun rej => hc.callMethod _ _ _

theorem settleDeferred
    (d : Value)
    (outcome : Outcome) :
    (Deferred.settle c d outcome).Narrows
      (Deferred.settle c' d outcome) := by
  cases d with
  | deferred r =>
      refine (Narrows.refl _).bind fun s => ?_
      rcases s.deferreds[r]? with _ | f | ⟨p, called⟩
      · cases outcome <;> exact .refl _
      · cases outcome <;>
          exact (hc.settleFuture f _).bind fun _ => .refl _
      · cases outcome <;> exact .refl _
  | _ => exact .refl _

theorem complete
    (v : Value)
    (outcome : Outcome) :
    (Probe.complete c v outcome).Narrows
      (Probe.complete c' v outcome) := by
  cases v with
  | controlled r =>
      refine (Narrows.refl _).bind fun s => ?_
      cases s.controlled[r]? with
      | none => exact .refl _
      | some row =>
          exact (hc.settleFuture row.future outcome).discard.bind
            fun _ => .refl _
  | _ => exact .refl _

------------------------------------------------------------
-- Awaiters
------------------------------------------------------------

theorem ofNested
    {n n' : Nat}
    (hn : n ≤ n')
    (v : Value) :
    (Awaiter.ofNested c n v).Narrows
      (Awaiter.ofNested c' n' v) := by
  induction n generalizing n' v with
  | zero => exact .exhaust
  | succ n ih =>
      cases n' with
      | zero => exact (Nat.not_succ_le_zero n hn).elim
      | succ n' =>
          cases v with
          | future f => exact .refl _
          | awaitable a =>
              refine (Narrows.refl _).bind fun row => ?_
              cases row with
              | configurable base code =>
                  exact ih (Nat.le_of_succ_le_succ hn) base
              | _ => exact .refl _
          | _ =>
              simp only [Awaiter.ofNested]
              exact hc.callMethod _ _ _

theorem ofValue
    (v : Value) :
    (Awaiter.ofValue c v).Narrows (Awaiter.ofValue c' v) :=
  hc.ofNested hc.rounds v

theorem completed
    (awaiter : Value) :
    (Awaiter.completed c awaiter).Narrows
      (Awaiter.completed c' awaiter) := by
  cases awaiter with
  | awaiter r =>
      refine (Narrows.refl _).bind fun row => ?_
      cases row with
      | custom reporter => exact hc.call reporter.completed []
      | _ => exact .refl _
  | _ => exact .refl _

theorem result
    (awaiter : Value) :
    (Awaiter.result c awaiter).Narrows
      (Awaiter.result c' awaiter) := by
  cases awaiter with
  | awaiter r =>
      refine (Narrows.refl _).bind fun row => ?_
      cases row with
      | custom reporter => exact hc.call reporter.result []
      | _ => exact .refl _
  | _ =>
      simp only [Awaiter.result]
      exact hc.callMethod _ _ _

theorem registerFuture
    (f : Ref)
    (captured : Bool)
    (callback : Closure) :
    (Awaiter.registerFuture c f captured callback).Narrows
      (Awaiter.registerFuture c' f captured callback) := by
  unfold Awaiter.registerFuture
  refine (Narrows.refl _).bind fun ambient => ?_
  split <;> exact hc.watch f _

theorem register
    (awaiter : Value)
    (callback : Closure) :
    (Awaiter.register c awaiter callback).Narrows
      (Awaiter.register c' awaiter callback) := by
  cases awaiter with
  | awaiter r =>
      refine (Narrows.refl _).bind fun row => ?_
      cases row with
      | future f captured => exact hc.registerFuture f captured _
      | controlled i =>
          exact (Narrows.refl _).bind fun _ =>
            (Narrows.refl _).bind fun row =>
              hc.registerFuture row.future false callback
      | custom reporter =>
          exact (Narrows.refl _).bind fun f =>
            (hc.call reporter.register [f]).discard
  | _ =>
      exact (Narrows.refl _).bind fun f =>
        (hc.callMethod _ _ _).discard

theorem configure
    (v captured : Value) :
    (Awaitable.configure c v captured).Narrows
      (Awaitable.configure c' v captured) := by
  cases v with
  | future f => exact .refl _
  | awaitable a =>
      refine (Narrows.refl _).bind fun row => ?_
      cases row with
      | configurable base code => exact hc.call code [captured]
      | _ => exact .refl _
  | _ =>
      simp only [Awaitable.configure]
      exact hc.callMethod _ _ _

theorem awaiterWith
    (v : Value)
    (captured : Bool) :
    (Awaitable.awaiterWith c v captured).Narrows
      (Awaitable.awaiterWith c' v captured) := by
  cases v with
  | future f => exact .refl _
  | _ =>
      exact (hc.configure _ _).bind fun awaitable =>
        hc.ofValue awaitable

theorem detachedAwaiter
    (v : Value) :
    (Awaitable.detachedAwaiter c v).Narrows
      (Awaitable.detachedAwaiter c' v) := by
  unfold Awaitable.detachedAwaiter
  refine (Narrows.refl _).bind fun configurable => ?_
  cases configurable with
  | true => exact hc.awaiterWith v false
  | false => exact hc.ofValue v

------------------------------------------------------------
-- Labels and Awaiting
------------------------------------------------------------

theorem jump
    (m : Ref)
    (l : Value) :
    (Label.jump c m l).Narrows (Label.jump c' m l) := by
  unfold Label.jump
  refine (Narrows.refl _).bind fun r => ?_
  refine (Narrows.refl _).bind fun row => ?_
  cases row.code with
  | none => exact .refl _
  | some code => exact (hc.call code []).bind fun _ => .refl _

theorem awaitResult
    (m awaiter : Value)
    (rest : Closure) :
    (Await.awaitResult c m awaiter rest).Narrows
      (Await.awaitResult c' m awaiter rest) := by
  unfold Await.awaitResult
  refine (hc.completed awaiter).bind fun isDone => ?_
  split
  · exact (hc.result awaiter).bind fun v => hc.call rest [v]
  · exact .refl _

theorem enterReceived
    (awaiter : Value)
    (rest : Closure) :
    (Await.enterReceived c awaiter rest).Narrows
      (Await.enterReceived c' awaiter rest) :=
  (hc.result awaiter).bind fun v => hc.call rest [v]

theorem bind
    (m source : Value)
    (rest : Closure) :
    (Await.bind c m source rest).Narrows
      (Await.bind c' m source rest) :=
  (Narrows.refl _).bind fun awaitable =>
    (hc.ofValue awaitable).bind fun awaiter =>
      hc.awaitResult m awaiter rest

theorem bindDetached
    (m source : Value)
    (rest : Closure) :
    (Await.bindDetached c m source rest).Narrows
      (Await.bindDetached c' m source rest) :=
  (Narrows.refl _).bind fun awaitable =>
    (hc.detachedAwaiter awaitable).bind fun awaiter =>
      hc.awaitResult m awaiter rest

theorem bindBuilder
    (m source : Value)
    (rest : Closure) :
    (Builder.bind c m source rest).Narrows
      (Builder.bind c' m source rest) := by
  cases m with
  | builder b =>
      refine (Narrows.refl _).bind fun row => ?_
      refine (Narrows.refl _).bind fun s => ?_
      refine (Narrows.refl _).bind fun _ => ?_
      split
      · exact hc.bind _ _ _
      · exact hc.bindDetached _ _ _
  | _ => exact hc.bind _ _ _

theorem returnFrom
    (b source : Value) :
    (Builder.returnFrom c b source).Narrows
      (Builder.returnFrom c' b source) := by
  cases source with
  | future f => exact .refl _
  | _ =>
      simp only [Builder.returnFrom]
      refine (Narrows.refl _).bind fun awaitable => ?_
      split
      · exact hc.bindBuilder _ _ _
      · exact .refl _

------------------------------------------------------------
-- Sequences and Loops
------------------------------------------------------------

theorem buildSequence
    (m first : Value)
    (rest : Closure) :
    (Sequence.build c m first rest).Narrows
      (Sequence.build c' m first rest) := by
  unfold Sequence.build
  refine (Narrows.refl _).bind fun m => ?_
  refine (Narrows.refl _).bind fun rest => ?_
  refine (Narrows.refl _).bind fun entry => ?_
  refine (Narrows.refl _).bind fun s => ?_
  refine (Narrows.refl _).bind fun i => ?_
  exact (Narrows.refl _).bind fun _ => hc.jump m _

theorem enterSequence
    (i : Ref) :
    (Sequence.enter c i).Narrows (Sequence.enter c' i) := by
  unfold Sequence.enter
  refine (Narrows.refl _).bind fun row => ?_
  split
  · exact .refl _
  · rcases row.step.step? with _ | v | f | ⟨awaiter, resume⟩
    · exact .refl _
    · exact hc.jump _ _
    · exact (hc.ofValue f).bind fun awaiter =>
        hc.awaitResult _ awaiter _
    · exact .refl _

theorem resumeSequence
    (i : Ref)
    (label : Value) :
    (Sequence.resume c i label).Narrows
      (Sequence.resume c' i label) :=
  (Narrows.refl _).bind fun row =>
    (hc.jump row.machine label).bind fun _ =>
      (Narrows.refl _).bind fun _ => hc.jump row.machine _

theorem round
    (m entry : Ref)
    (condition body : Closure) :
    (Loop.round c m entry condition body).Narrows
      (Loop.round c' m entry condition body) := by
  unfold Loop.round
  refine (hc.call condition []).bind fun holds => ?_
  split
  · refine (hc.call body []).bind fun step => ?_
    split
    · exact .refl _
    · have hBuild := (hc.buildSequence (.machine m) step
        (.jump m entry)).map some
      rcases step.step? with _ | v | f | ⟨awaiter, resume⟩
      · exact hBuild
      · exact .refl _
      · exact hBuild
      · exact hBuild
  · exact .refl _

theorem enterLoop
    (m entry : Ref)
    (condition body : Closure) :
    (Loop.enter c m entry condition body).Narrows
      (Loop.enter c' m entry condition body) :=
  (hc.round m entry condition body).iterate hc.rounds

theorem buildLoop
    (m : Value)
    (condition body : Closure) :
    (Loop.build c m condition body).Narrows
      (Loop.build c' m condition body) :=
  (Narrows.refl _).bind fun m =>
    (Narrows.refl _).bind fun _ =>
      (Narrows.refl _).bind fun _ => hc.jump m _

------------------------------------------------------------
-- Recoveries
------------------------------------------------------------

theorem recover
    (handler : Closure)
    (e : Value) :
    (Recovery.recover c handler e).Narrows
      (Recovery.recover c' handler e) := by
  unfold Recovery.recover
  split
  · exact .refl _
  · exact hc.call handler [e]

theorem recoveryOutcome
    (i : Ref)
    (awaiter : Value) :
    (Recovery.outcome c i awaiter).Narrows
      (Recovery.outcome c' i awaiter) := by
  unfold Recovery.outcome
  refine (hc.result awaiter).attempt.bind fun o => ?_
  cases o with
  | ok v => exact .refl _
  | error e =>
      exact (Narrows.refl _).bind fun row => hc.recover _ e

theorem enterRecovery
    (i : Ref) :
    (Recovery.enter c i).Narrows (Recovery.enter c' i) := by
  unfold Recovery.enter
  refine (Narrows.refl _).bind fun row => ?_
  refine (hc.jump row.machine row.inner).attempt.bind
    fun o => ?_
  cases o with
  | error e => exact hc.recover _ e
  | ok step =>
      dsimp only
      split
      · exact .refl _
      · rcases step.step? with _ | v | f | ⟨awaiter, resume⟩
        · exact .refl _
        · exact .refl _
        · refine (hc.ofValue f).bind fun awaiter => ?_
          refine (hc.completed awaiter).bind fun isDone => ?_
          split
          · exact hc.recoveryOutcome i awaiter
          · exact .refl _
        · exact .refl _

theorem buildRecovery
    (m : Value)
    (body handler : Closure) :
    (Recovery.build c m body handler).Narrows
      (Recovery.build c' m body handler) :=
  (Narrows.refl _).bind fun m =>
    (Narrows.refl _).bind fun _ =>
      (Narrows.refl _).bind fun _ =>
        (Narrows.refl _).bind fun _ =>
          (Narrows.refl _).bind fun _ =>
            (Narrows.refl _).bind fun _ => hc.jump m _

------------------------------------------------------------
-- Cleanups
------------------------------------------------------------

theorem compensate
    (i : Ref) :
    (Cleanup.compensate c i).Narrows
      (Cleanup.compensate c' i) := by
  unfold Cleanup.compensate
  refine (Narrows.refl _).bind fun row => ?_
  split
  · exact .refl _
  · exact (Narrows.refl _).bind fun _ =>
      (Narrows.refl _).bind fun _ =>
        (hc.call row.compensation []).discard

theorem cleanupOutcome
    (i : Ref)
    (awaiter : Value) :
    (Cleanup.outcome c i awaiter).Narrows
      (Cleanup.outcome c' i awaiter) := by
  unfold Cleanup.outcome
  refine (hc.result awaiter).attempt.bind fun o => ?_
  cases o <;> exact (hc.compensate i).bind fun _ => .refl _

theorem enterCleanup
    (i : Ref) :
    (Cleanup.enter c i).Narrows (Cleanup.enter c' i) := by
  unfold Cleanup.enter
  refine (Narrows.refl _).bind fun row => ?_
  refine (hc.jump row.machine row.inner).attempt.bind
    fun o => ?_
  cases o with
  | error e => exact (hc.compensate i).bind fun _ => .refl _
  | ok step =>
      dsimp only
      split
      · exact .refl _
      · rcases step.step? with _ | v | f | ⟨awaiter, resume⟩
        · exact .refl _
        · exact (hc.compensate i).bind fun _ => .refl _
        · refine (hc.ofValue f).bind fun awaiter => ?_
          refine (hc.completed awaiter).bind fun isDone => ?_
          split
          · exact hc.cleanupOutcome i awaiter
          · exact .refl _
        · exact .refl _

theorem buildCleanup
    (m : Value)
    (body compensation : Closure) :
    (Cleanup.build c m body compensation).Narrows
      (Cleanup.build c' m body compensation) :=
  (Narrows.refl _).bind fun m =>
    (Narrows.refl _).bind fun _ =>
      (Narrows.refl _).bind fun _ =>
        (Narrows.refl _).bind fun _ =>
          (Narrows.refl _).bind fun _ =>
            (Narrows.refl _).bind fun _ =>
              (Narrows.refl _).bind fun _ => hc.jump m _

theorem dispose
    (resource : Value) :
    (Resource.dispose c resource).Narrows
      (Resource.dispose c' resource) := by
  cases resource with
  | resource r =>
      refine (Narrows.refl _).bind fun row => ?_
      cases row with
      | tracked name logged count => exact .refl _
      | custom code => exact hc.call code []
  | _ =>
      simp only [Resource.dispose]
      exact hc.callMethod _ _ _

theorem release
    (resource : Value) :
    (Resource.release c resource).Narrows
      (Resource.release c' resource) := by
  unfold Resource.release
  split
  · exact .refl _
  · exact (hc.dispose resource).discard.bind fun _ => .refl _

------------------------------------------------------------
-- Iteration
------------------------------------------------------------

theorem newCursor
    (v : Value) :
    (Cursor.new c v).Narrows (Cursor.new c' v) := by
  have hStart : (Cursor.start c v).Narrows
      (Cursor.start c' v) := by
    cases v with
    | iterable i =>
        refine (Narrows.refl _).bind fun row => ?_
        cases row with
        | counting items count => exact .refl _
        | custom start next close =>
            exact (hc.call start []).discard.bind fun _ => .refl _
    | _ => exact .refl _
  exact hStart.bind fun _ => .refl _

theorem next
    (checked : Bool)
    (i : Ref) :
    (Cursor.next c checked i).Narrows
      (Cursor.next c' checked i) := by
  unfold Cursor.next
  refine (Narrows.refl _).bind fun row => ?_
  cases row.source with
  | custom j =>
      refine (Narrows.refl _).bind fun row => ?_
      cases row with
      | counting items count => exact .refl _
      | custom start next close =>
          exact (hc.call next []).bind fun _ => .refl _
  | text rest => cases rest <;> exact .refl _
  | _ => exact .refl _

theorem close
    (i : Ref) :
    (Cursor.close c i).Narrows (Cursor.close c' i) := by
  unfold Cursor.close
  refine (Narrows.refl _).bind fun row => ?_
  cases row.source with
  | custom j =>
      refine (Narrows.refl _).bind fun row => ?_
      rcases row with ⟨items, count⟩ | ⟨start, next, _ | code⟩
      · exact .refl _
      · exact .refl _
      · exact (hc.call code []).map some
  | _ => exact .refl _

theorem buildIteration
    (m items : Value)
    (body : Closure) :
    (Iteration.build c m items body).Narrows
      (Iteration.build c' m items body) :=
  (hc.newCursor items).bind fun _ => hc.buildCleanup m _ _

theorem collect
    (i : Ref)
    (n : Nat)
    (items : Array Value) :
    (Iteration.collect c i n items).Narrows
      (Iteration.collect c' i n items) := by
  induction n generalizing items with
  | zero => exact (hc.close i).bind fun _ => .refl _
  | succ n ih =>
      refine (hc.next true i).bind fun found => ?_
      cases found with
      | none => exact .refl _
      | some v => exact ih _

theorem drain
    (items : Value)
    (limit : Nat) :
    (Iteration.drain c items limit).Narrows
      (Iteration.drain c' items limit) := by
  unfold Iteration.drain
  split
  · exact .refl _
  · exact (hc.newCursor items).bind fun i =>
      (hc.collect i limit #[]).bind fun _ => .refl _

------------------------------------------------------------
-- Tasks
------------------------------------------------------------

theorem emit
    (em : Emitter)
    (event : Event) :
    (em.emit c event).Narrows (em.emit c' event) := by
  unfold Emitter.emit Emitter.tell
  refine (Narrows.refl _).bind fun _ => ?_
  cases em.listener with
  | none => exact .refl _
  | some code =>
      exact (Narrows.refl _).bind fun stamp =>
        (hc.call code _).aside.attempt.bind fun _ => .refl _

theorem emitDriver
    (d : Ref)
    (event : Event) :
    (Driver.emit c d event).Narrows (Driver.emit c' d event) :=
  (Narrows.refl _).bind fun row => hc.emit row.emitter event

theorem settleDriver
    (d : Ref)
    (outcome : Outcome) :
    (Driver.settle c d outcome).Narrows
      (Driver.settle c' d outcome) := by
  unfold Driver.settle
  refine (Narrows.refl _).bind fun row => ?_
  refine (Narrows.refl _).bind fun _ => ?_
  refine (Narrows.refl _).bind fun _ => ?_
  cases row.output with
  | none => exact .refl _
  | some f => exact (hc.settleFuture f outcome).discard

theorem finish
    (d : Ref)
    (outcome : Outcome) :
    (Driver.finish c d outcome).Narrows
      (Driver.finish c' d outcome) :=
  (Narrows.refl _).bind fun _ =>
    (hc.emitDriver d _).bind fun _ => hc.settleDriver d outcome

theorem concludeDriver
    (d : Ref)
    (awaiter : Value) :
    (Driver.conclude c d awaiter).Narrows
      (Driver.conclude c' d awaiter) := by
  unfold Driver.conclude
  refine (Narrows.refl _).bind fun _ => ?_
  refine (hc.result awaiter).attempt.bind fun o => ?_
  cases o <;> exact hc.finish d _

theorem handOffDriver
    (d : Ref)
    (future : Value) :
    (Driver.handOff c d future).Narrows
      (Driver.handOff c' d future) := by
  unfold Driver.handOff
  refine (Narrows.refl _).bind fun _ => ?_
  refine (hc.awaiterWith future false).bind fun awaiter => ?_
  refine (hc.emitDriver d _).bind fun _ => ?_
  refine (hc.completed awaiter).bind fun isDone => ?_
  split
  · exact hc.concludeDriver d awaiter
  · exact (Narrows.refl _).bind fun _ =>
      (Narrows.refl _).bind fun keeper =>
        (Narrows.refl _).bind fun _ =>
          (hc.register awaiter _).discard

theorem registerDriver
    (d : Ref)
    (awaiter : Value) :
    (Driver.register c d awaiter).Narrows
      (Driver.register c' d awaiter) := by
  unfold Driver.register
  refine (Narrows.refl _).bind fun row => ?_
  refine (Narrows.refl _).bind fun _ => ?_
  refine (Narrows.refl _).bind fun keeper => ?_
  refine (Narrows.refl _).bind fun _ => ?_
  refine (Narrows.refl _).bind fun source => ?_
  refine (Narrows.refl _).bind fun _ => ?_
  refine (hc.register awaiter _).attempt.bind fun o => ?_
  cases o with
  | ok v => exact .refl _
  | error e =>
      exact (Narrows.refl _).bind fun _ => hc.finish d _

theorem suspendDriver
    (d : Ref)
    (awaiter label : Value) :
    (Driver.suspend c d awaiter label).Narrows
      (Driver.suspend c' d awaiter label) :=
  (Narrows.refl _).bind fun _ =>
    (Narrows.refl _).bind fun _ =>
      (Narrows.refl _).bind fun _ =>
        (Narrows.refl _).bind fun _ =>
          (hc.emitDriver d _).bind fun _ =>
            hc.registerDriver d awaiter

theorem jumpDriver
    (d : Ref)
    (label : Value) :
    (Driver.jump c d label).Narrows
      (Driver.jump c' d label) := by
  unfold Driver.jump
  refine (Narrows.refl _).bind fun settled => ?_
  refine (Narrows.refl _).bind fun _ => ?_
  refine (Narrows.refl _).bind fun row => ?_
  have hBody := (Narrows.refl (Label.machineOf row.machine)).bind
    fun m => hc.jump m label
  exact (hBody.withTask row.emitter.task).attempt.bind
    fun _ => .refl _

theorem nextStep
    (d : Ref) :
    (Driver.nextStep c d).Narrows (Driver.nextStep c' d) := by
  unfold Driver.nextStep
  refine (Narrows.refl _).bind fun row => ?_
  cases row.first with
  | some step => exact .refl _
  | none =>
      dsimp only
      split
      · exact .refl _
      · exact (Narrows.refl _).bind fun id =>
          (hc.emitDriver d _).bind fun _ =>
            (hc.jumpDriver d _).bind fun _ => .refl _

theorem advanceDriver
    (d : Ref) :
    (Driver.advance c d).Narrows (Driver.advance c' d) := by
  unfold Driver.advance
  refine (Narrows.refl _).bind fun _ => ?_
  refine (hc.nextStep d).attempt.bind fun o => ?_
  cases o with
  | error e => exact hc.finish d _
  | ok step =>
      dsimp only
      rcases step.step? with _ | v | f | ⟨awaiter, label⟩
      · exact .refl _
      · exact hc.finish d _
      · exact hc.handOffDriver d f
      · exact hc.suspendDriver d awaiter label

theorem resumeDriver
    (d callback : Ref)
    (failure : Value) :
    (Driver.resume c d callback failure).Narrows
      (Driver.resume c' d callback failure) := by
  unfold Driver.resume
  refine (Narrows.refl _).bind fun row => ?_
  split
  · exact .refl _
  · refine (Narrows.refl _).bind fun _ => ?_
    split
    · exact (Narrows.refl _).bind fun e =>
        (Narrows.refl _).bind fun _ => hc.finish d _
    · exact hc.advanceDriver d

theorem launch
    (m : Value)
    (code : Closure)
    (emitter : Emitter) :
    (Task.launch c m code emitter).Narrows
      (Task.launch c' m code emitter) := by
  have hFirst : (Task.firstStep c code).Narrows
      (Task.firstStep c' code) :=
    (hc.call code []).bind fun _ => .refl _
  unfold Task.launch
  refine (hc.emit emitter _).bind fun _ => ?_
  refine (hFirst.withTask emitter.task).attempt.bind
    fun o => ?_
  cases o with
  | error e => exact (hc.emit emitter _).bind fun _ => .refl _
  | ok first =>
      dsimp only
      rcases first.step? with _ | v | f | ⟨awaiter, label⟩
      · exact .refl _
      · exact (hc.emit emitter _).bind fun _ => .refl _
      · exact (hc.emit emitter _).bind fun _ => .refl _
      · exact (Narrows.refl _).bind fun d =>
          (hc.advanceDriver d).bind fun _ => .refl _

theorem runTask
    (m : Value)
    (code : Closure)
    (emitter : Emitter) :
    (Task.run c m code emitter).Narrows
      (Task.run c' m code emitter) :=
  (Narrows.refl _).bind fun _ =>
    (hc.launch m code _).bind fun _ => .refl _

------------------------------------------------------------
-- Requests, Programs and Closures
------------------------------------------------------------

theorem construct
    (cls props options : Value) :
    (Run.construct c cls props options).Narrows
      (Run.construct c' cls props options) := by
  have hMessage : ∀ cls, (Run.taggedMessage c cls props).Narrows
      (Run.taggedMessage c' cls props) := by
    intro cls
    cases cls with
    | custom r =>
        refine (Narrows.refl _).bind fun row => ?_
        cases row.message with
        | none => exact .refl _
        | some code =>
            exact (hc.call code [props]).bind fun _ => .refl _
    | _ => exact .refl _
  cases cls with
  | errorClass cls => exact (hMessage cls).bind fun _ => .refl _
  | _ => exact .refl _

theorem perform
    (request : Request Program) :
    (request.perform c).Narrows (request.perform c') := by
  cases request with
  | call f args => exact hc.callValue f args
  | newTagged cls props options =>
      exact hc.construct cls props options
  | jump m l => exact (Narrows.refl _).bind fun m => hc.jump m l
  | bind m source rest => exact hc.bindBuilder m source _
  | bindDetached m source rest =>
      exact hc.bindDetached m source _
  | awaitResult m awaiter rest =>
      exact hc.awaitResult m awaiter _
  | sequence m first rest =>
      exact (Narrows.refl _).bind fun m =>
        hc.buildSequence m first _
  | whileLoop m condition body =>
      exact (Narrows.refl _).bind fun m => hc.buildLoop m _ _
  | forLoop m items body =>
      exact (Narrows.refl _).bind fun m =>
        hc.buildIteration m items _
  | tryWith m code handler =>
      exact (Narrows.refl _).bind fun m => hc.buildRecovery m _ _
  | tryFinally m code compensation =>
      exact (Narrows.refl _).bind fun m => hc.buildCleanup m _ _
  | «using» m resource body =>
      exact (Narrows.refl _).bind fun m => hc.buildCleanup m _ _
  | run m code options => exact hc.runTask m _ _
  | task captured assertions code options =>
      exact (Narrows.refl _).bind fun m =>
        (Narrows.refl _).bind fun b => hc.runTask m _ _
  | returnFrom b source =>
      exact (Narrows.refl _).bind fun _ => hc.returnFrom b source
  | settle d outcome => exact hc.settleDeferred d outcome
  | awaiterOf source => exact hc.ofValue source
  | configureAwait source captured =>
      exact hc.configure source captured
  | isCompleted awaiter => exact hc.completed awaiter
  | getResult awaiter => exact hc.result awaiter
  | onCompleted awaiter code =>
      exact (hc.register awaiter _).quietly
  | react source onFulfilled onRejected =>
      exact hc.reactTo source _ _
  | post context f => exact (hc.post context f).quietly
  | runInContext context code =>
      exact (hc.call _ []).abroad.withAmbient context
  | settleControlled i outcome => exact hc.complete i outcome
  | drain items limit =>
      cases limit with
      | int n => exact hc.drain items n.toNat
      | _ => exact .refl _
  | dispose resource => exact (hc.dispose resource).quietly
  | _ => exact .refl _

theorem program
    (p : Program) :
    (p.run c).Narrows (p.run c') := by
  match p with
  | .done v => exact .refl _
  | .fail e => exact .refl _
  | .perform r k =>
      exact (hc.perform r).bind fun v => program (k v)
  | .attempt body k =>
      exact (program body).attempt.bind fun o => program (k o)

theorem enter
    (closure : Closure)
    (args : List Value) :
    (closure.enter c args).Narrows (closure.enter c' args) := by
  cases closure with
  | client code =>
      exact (Narrows.refl _).bind fun _ => hc.program (code args)
  | applied f args => exact hc.call f args
  | received awaiter rest => exact hc.enterReceived awaiter rest
  | jump m l => exact hc.jump m _
  | sequenceEntry i => exact hc.enterSequence i
  | sequenceResume i resume => exact hc.resumeSequence i resume
  | loopHead m entry condition body =>
      exact hc.enterLoop m entry condition body
  | recoveryEntry i => exact hc.enterRecovery i
  | recoveryOutcome i awaiter => exact hc.recoveryOutcome i awaiter
  | cleanupEntry i => exact hc.enterCleanup i
  | cleanupOutcome i awaiter => exact hc.cleanupOutcome i awaiter
  | release resource => exact hc.release resource
  | cursorLoop m i body => exact hc.buildLoop m _ _
  | cursorAdvance i =>
      exact (hc.next false i).bind fun _ => .refl _
  | cursorItem i body =>
      exact (Narrows.refl _).bind fun v => hc.call body [v]
  | cursorClose i => exact (hc.close i).quietly
  | driverResume d callback =>
      exact (hc.resumeDriver d callback _).quietly
  | driverOutcome d awaiter =>
      exact (hc.concludeDriver d awaiter).quietly
  | resumption context callback => exact hc.resume context callback
  | posted entered context callback =>
      exact hc.enterContext entered context callback
  | settleFuture f fulfil =>
      exact (hc.settleFuture f _).bind fun _ => .refl _
  | _ => exact .refl _

omit hc in
/- More rounds and more depth are wider bounds. -/
theorem ofDepth
    {rounds rounds' depth depth' : Nat}
    (hRounds : rounds ≤ rounds')
    (hDepth : depth ≤ depth') :
    (Caller.ofDepth rounds depth).Narrows
      (Caller.ofDepth rounds' depth') := by
  have hBounds : ∀ depth depth',
      (Caller.ofDepth rounds depth).rounds ≤
        (Caller.ofDepth rounds' depth').rounds := by
    intro depth depth'
    rw [Run.rounds_ofDepth, Run.rounds_ofDepth]
    exact hRounds
  induction depth generalizing depth' with
  | zero => exact ⟨hBounds 0 depth', fun _ _ => .exhaust⟩
  | succ depth ih =>
      cases depth' with
      | zero => exact (Nat.not_succ_le_zero depth hDepth).elim
      | succ depth' =>
          exact ⟨hBounds _ _, fun closure args =>
            (ih (Nat.le_of_succ_le_succ hDepth)).enter closure
              args⟩

end Caller.Narrows

end Resumption

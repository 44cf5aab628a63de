import Resumption.Proofs.Task.HandOff
import Resumption.Proofs.World.Drivers

/-
  Running a task and driving it allocate no labels.

  Whatever becomes of the label count of a machine while a
  task is run or driven is what becomes of it in the calls
  that are made on the task's behalf: if each call takes the
  count by some relation, then so do the calls together, and
  so does the driver.

  Main declarations:
    * `Run.Counts`
    * `World.counting`
    * `Task.counts_run`
    * `Driver.counts_resume`, `Driver.counts_conclude`
-/

namespace Resumption

------------------------------------------------------------
-- Counting
------------------------------------------------------------

/-
  However a run ends, the label count of a machine has gone
  by a relation.
-/
def Run.Counts
    {α : Type}
    (Q : Nat → Nat → Prop)
    (m : Ref)
    (act : Run α) : Prop :=
  ∀ s, act.Ensures s fun _ s' =>
    Q (s.labelCount (.machine m)) (s'.labelCount (.machine m))

/- A relation by which a count may go any number of times. -/
structure Accrues (Q : Nat → Nat → Prop) : Prop where
  refl : ∀ n, Q n n
  trans : ∀ {a b c}, Q a b → Q b c → Q a c

/- The label count of a machine goes by a relation. -/
def World.counting
    {Q : Nat → Nat → Prop}
    (hQ : Accrues Q)
    (m : Ref) : World where
  inv _ := True
  rel s s' :=
    Q (s.labelCount (.machine m)) (s'.labelCount (.machine m))
  fit _ _ := True
  calls _ _ _ := True
  after _ _ _ _ _ := True
  loose _ _ := True
  rel_refl _ := hQ.refl _
  rel_trans := hQ.trans
  fit_mono _ _ := trivial
  loose_mono _ _ := trivial
  fit_default _ := trivial
  fit_bridge _ _ _ := trivial
  fit_settlePromise _ _ _ _ := trivial
  fit_settleFuture _ := Iff.rfl
  fit_resumption _ _ := trivial
  fit_posted _ _ _ := trivial
  calls_of_fit _ _ := trivial
  inv_kernel _ _ := trivial
  rel_kernel {s s'} hKernel := by
    have hMachines : s.kernel.machines = s'.kernel.machines :=
      congrArg Session.machines hKernel
    change Q _ (s'.kernel.machines.getD m default).labels.size
    rw [← hMachines]
    exact hQ.refl _
  inv_posts _ _ _ := trivial
  rel_posts _ _ _ := hQ.refl _

namespace World.Counting

variable {Q : Nat → Nat → Prop}
variable {hQ : Accrues Q}
variable {m : Ref}
variable {caller : Caller}
variable {s s' : Session}
variable {α : Type}

/- There is nothing to mind but the count. -/
theorem sound (s : Session) :
    (counting hQ m).Sound s where
  inv := trivial
  stocked :=
    { functions := fun _ => trivial
      classes := fun _ _ _ => trivial
      promises := fun _ _ _ =>
        ⟨fun _ _ => trivial, fun _ _ => trivial⟩
      microtasks := fun j _ => by
        cases j with
        | react _ _ =>
            exact ⟨fun _ _ => trivial, fun _ _ => trivial⟩
        | adopt _ _ => trivial
        | report _ => trivial
      awaiters := fun r => by
        cases s.awaiters.getD r default with
        | custom _ => exact ⟨trivial, trivial, trivial⟩
        | _ => trivial
      awaitables := fun r => by
        cases s.awaitables.getD r default with
        | custom _ => exact ⟨trivial, trivial, trivial⟩
        | _ => trivial
      thenables := fun _ => trivial
      contexts := fun r => by
        cases (s.contexts.getD r default).posting with
        | recording _ => trivial
        | custom _ => trivial
      iterables := fun r => by
        cases s.iterables.getD r default with
        | counting _ _ => trivial
        | custom _ _ _ =>
            exact ⟨trivial, trivial, fun _ _ => trivial⟩
      resources := fun r => by
        cases s.resources.getD r default with
        | tracked _ _ _ => trivial
        | custom _ => trivial
      listeners := fun _ _ _ => trivial }

/- What leaves the machines alone leaves the count alone. -/
theorem moves
    (h : s'.machines = s.machines) :
    (counting hQ m).Moves s s' where
  sound := sound s'
  rel := by
    change Q (s.labelCount (.machine m))
      (s'.labelCount (.machine m))
    simp only [Session.labelCount, h]
    exact hQ.refl _

/- To keep such a world is to count by its relation. -/
theorem keeps_iff
    {act : Run α} :
    (∀ s, (counting hQ m).Keeps act s) ↔ Run.Counts Q m act :=
  ⟨fun h s => (h s).mono fun _ _ hMoves => hMoves.rel,
    fun h s => (h s).mono fun _ s' hRel => ⟨sound s', hRel⟩⟩

variable (hCalls : ∀ code args,
  Run.Counts Q m (caller.call code args))

include hCalls

theorem serves :
    (counting hQ m).Serves caller :=
  fun c args s _ _ => (hCalls c args s).mono
    fun _ s' hRel => ⟨⟨sound s', hRel⟩, trivial⟩

/- Those who are told of a future are called. -/
theorem keeps_notify
    (watchers : List Closure)
    (failure : Option Value)
    (s : Session) :
    (counting hQ m).Keeps
      (Future.notify caller watchers failure) s := by
  induction watchers generalizing failure s with
  | nil => exact keeps_pure.mpr (.refl (sound s))
  | cons w rest ih =>
      refine ((serves hCalls).call (sound s) trivial []
        ).attempt.bind fun ended s₁ _ => ?_
      cases ended with
      | ok _ => exact ih failure s₁
      | error e => exact ih _ s₁

theorem keeps_settleFuture
    (f : Ref)
    (outcome : Outcome)
    (s : Session) :
    (counting hQ m).Keeps (Future.settle caller f outcome) s := by
  unfold Future.settle
  refine keeps_row_bind.mpr ?_
  split
  · exact keeps_pure.mpr (.refl (sound s))
  · refine (keeps_freshStamp (sound s)).bind fun id s₁ _ => ?_
    refine Keeps.bind (keeps_alter (moves rfl)) fun _ s₂ _ => ?_
    refine (keeps_notify hCalls _ _ s₂).bind fun failed s₃ _ => ?_
    cases failed with
    | some e => exact keeps_raise.mpr (.refl (sound s₃))
    | none => exact keeps_pure.mpr (.refl (sound s₃))

theorem hosts :
    (counting hQ m).Hosts caller where
  newFuture _ _ := moves rfl
  newFuture_loose _ _ := trivial
  setPromise _ _ _ := moves rfl
  newAwaiter _ _ := moves rfl
  newDeferred _ _ := moves rfl
  newControlled _ _ _ := moves rfl
  countControlled _ _ _ _ := moves rfl
  deferred_loose _ _ := trivial
  controlled_loose _ _ := trivial
  settle outcome _ _ := keeps_settleFuture hCalls _ outcome _
  watch {s f w} _ _ := by
    unfold Future.watch
    refine Keeps.bind (Hosts.keeps_settlement? (sound s) f)
      fun t s₁ _ => ?_
    split
    · exact ((serves hCalls).call (sound s₁) trivial []).discard
    · exact keeps_alter (moves rfl)

------------------------------------------------------------
-- Notes and Events
------------------------------------------------------------

omit hCalls in
theorem keeps_note
    (t : Ref)
    (i : Moment)
    (s : Session) :
    (counting hQ m).Keeps (Run.note t i) s :=
  keeps_alter (moves rfl)

omit hCalls in
theorem keeps_noteDriver
    (d : Ref)
    (i : Moment)
    (s : Session) :
    (counting hQ m).Keeps (Driver.note d i) s :=
  keeps_row_bind.mpr (keeps_note _ i s)

omit hCalls in
theorem keeps_setState
    (d : Ref)
    (state : DriverState)
    (s : Session) :
    (counting hQ m).Keeps (Driver.setState d state) s :=
  (keeps_noteDriver d _ s).bind fun _ _ _ =>
    keeps_alter (moves rfl)

theorem keeps_emit
    (em : Emitter)
    (event : Event)
    (s : Session) :
    (counting hQ m).Keeps (em.emit caller event) s :=
  (keeps_note em.task _ s).bind fun _ s₁ _ =>
    keeps_tell (serves hCalls) (sound s₁)
      (fun _ _ => trivial) event

theorem keeps_emitDriver
    (d : Ref)
    (event : Event)
    (s : Session) :
    (counting hQ m).Keeps (Driver.emit caller d event) s :=
  keeps_row_bind.mpr (keeps_emit hCalls _ event s)

omit hCalls in
theorem keeps_withTask
    {act : Run α}
    (t : Ref)
    (h : ∀ s, (counting hQ m).Keeps act s)
    (s : Session) :
    (counting hQ m).Keeps (Run.withTask t act) s := by
  have hIn : (counting hQ m).Moves s (Run.entering t s) :=
    moves rfl
  refine Run.ensures_withTask.mpr ((h _).mono fun _ s' h' => ?_)
  have hOut : (counting hQ m).Moves s'
      { s' with task := s.task, home := s.home } := moves rfl
  exact (hIn.trans h').trans hOut

------------------------------------------------------------
-- Ending a Task
------------------------------------------------------------

theorem keeps_settle
    (d : Ref)
    (outcome : Outcome)
    (s : Session) :
    (counting hQ m).Keeps (Driver.settle caller d outcome) s := by
  unfold Driver.settle
  refine keeps_row_bind.mpr ?_
  refine (keeps_noteDriver d _ s).bind fun _ s₁ _ => ?_
  refine Keeps.bind (keeps_alter (moves rfl)) fun _ s₂ _ => ?_
  split
  · exact (keeps_settleFuture hCalls _ outcome s₂).discard
  · exact keeps_alter (moves rfl)

theorem keeps_finish
    (d : Ref)
    (outcome : Outcome)
    (s : Session) :
    (counting hQ m).Keeps (Driver.finish caller d outcome) s :=
  (keeps_setState d _ s).bind fun _ s₁ _ =>
    (keeps_emitDriver hCalls d _ s₁).bind fun _ s₂ _ =>
      keeps_settle hCalls d outcome s₂

theorem keeps_conclude
    (d : Ref)
    (awaiter : Value)
    (s : Session) :
    (counting hQ m).Keeps (Driver.conclude caller d awaiter)
      s := by
  unfold Driver.conclude
  refine (keeps_noteDriver d _ s).bind fun _ s₁ _ => ?_
  refine ((hosts hCalls).keeps_result (serves hCalls) (sound s₁)
    awaiter).attempt.bind fun ended s₂ _ => ?_
  cases ended <;> exact keeps_finish hCalls d _ s₂

------------------------------------------------------------
-- Waiting
------------------------------------------------------------

theorem keeps_register
    (d : Ref)
    (awaiter : Value)
    (s : Session) :
    (counting hQ m).Keeps (Driver.register caller d awaiter)
      s := by
  unfold Driver.register
  refine keeps_row_bind.mpr ?_
  refine Keeps.bind (keeps_alter (moves rfl)) fun _ s₁ _ => ?_
  refine ensures_keeper_bind.mpr ?_
  refine (keeps_noteDriver d _ s₁).bind fun _ s₂ _ => ?_
  refine ensures_source_bind.mpr ?_
  refine Keeps.bind (keeps_modify (moves rfl)) fun _ s₃ _ => ?_
  refine ((hosts hCalls).keeps_register (serves hCalls) (sound s₃)
    awaiter trivial).attempt.bind fun ended s₄ _ => ?_
  cases ended with
  | ok _ => exact keeps_pure.mpr (.refl (sound s₄))
  | error e =>
      exact (keeps_noteDriver d _ s₄).bind fun _ s₅ _ =>
        keeps_finish hCalls d _ s₅

theorem keeps_handOff
    (d : Ref)
    (future : Value)
    (s : Session) :
    (counting hQ m).Keeps (Driver.handOff caller d future) s := by
  have hHosts : (counting hQ m).Hosts caller := hosts hCalls
  have hServes : (counting hQ m).Serves caller := serves hCalls
  unfold Driver.handOff
  refine (keeps_noteDriver d _ s).bind fun _ s₁ _ => ?_
  refine (hHosts.keeps_awaiterWith hServes (sound s₁) future
    false).bind fun awaiter s₂ _ => ?_
  refine (keeps_emitDriver hCalls d _ s₂).bind fun _ s₃ _ => ?_
  refine (hHosts.keeps_completed hServes (sound s₃)
    awaiter).bind fun isDone s₄ _ => ?_
  split
  · exact keeps_conclude hCalls d awaiter s₄
  · refine (keeps_setState d _ s₄).bind fun _ s₅ _ => ?_
    refine ensures_keeper_bind.mpr ?_
    refine (keeps_noteDriver d _ s₅).bind fun _ s₆ _ => ?_
    exact (hHosts.keeps_register hServes (sound s₆) awaiter
      trivial).discard

theorem keeps_suspend
    (d : Ref)
    (awaiter label : Value)
    (s : Session) :
    (counting hQ m).Keeps
      (Driver.suspend caller d awaiter label) s := by
  unfold Driver.suspend
  refine Keeps.bind (keeps_alter (moves rfl)) fun _ s₁ _ => ?_
  refine (keeps_setState d _ s₁).bind fun _ s₂ _ => ?_
  refine (keeps_noteDriver d _ s₂).bind fun _ s₃ _ => ?_
  refine (keeps_field (sound s₃) label "id").bind
    fun id s₄ _ => ?_
  exact (keeps_emitDriver hCalls d _ s₄).bind fun _ s₅ _ =>
    keeps_register hCalls d awaiter s₅

------------------------------------------------------------
-- Advancing
------------------------------------------------------------

/- A jump calls what is under the label. -/
theorem keeps_jump
    (m' : Ref)
    (label : Value)
    (s : Session) :
    (counting hQ m).Keeps (Label.jump caller m' label) s := by
  unfold Label.jump
  refine (keeps_owned (sound s) m' label).bind fun l s₁ _ => ?_
  refine keeps_row_bind.mpr ?_
  split
  · exact keeps_defect (sound s₁) _
  · next code _ =>
      refine ((serves hCalls).call (sound s₁) (c := code) trivial
        []).bind fun step s₂ _ => ?_
      refine keeps_row_bind.mpr ?_
      split
      · exact Keeps.bind (keeps_modify (moves rfl))
          fun _ s₃ _ => keeps_defect (sound s₃) _
      · exact keeps_pure.mpr (.refl (sound s₂))

theorem keeps_jumpDriver
    (d : Ref)
    (label : Value)
    (s : Session) :
    (counting hQ m).Keeps (Driver.jump caller d label) s := by
  unfold Driver.jump
  refine (Directs.keeps_hasSettled (sound s) d).bind
    fun settled s₁ _ => ?_
  refine (keeps_noteDriver d _ s₁).bind fun _ s₂ _ => ?_
  refine keeps_row_bind.mpr ?_
  refine (keeps_withTask _ (fun s₃ =>
    (keeps_machineOf (sound s₃) _).bind fun m' s₄ _ =>
      keeps_jump hCalls m' label s₄) s₂).attempt.bind
        fun landing s₅ _ => ?_
  refine (keeps_noteDriver d _ s₅).bind fun _ s₆ _ => ?_
  cases landing with
  | ok step => exact keeps_pure.mpr (.refl (sound s₆))
  | error e => exact keeps_raise.mpr (.refl (sound s₆))

theorem keeps_nextStep
    (d : Ref)
    (s : Session) :
    (counting hQ m).Keeps (Driver.nextStep caller d) s := by
  unfold Driver.nextStep
  refine keeps_row_bind.mpr ?_
  split
  · exact Keeps.bind (keeps_alter (moves rfl))
      fun _ s₁ _ => keeps_pure.mpr (.refl (sound s₁))
  · split
    · exact (keeps_newPlain (sound s) _ _).bind fun _ s₁ _ =>
        keeps_raise.mpr (.refl (sound s₁))
    · refine (keeps_field (sound s) _ _).bind fun id s₁ _ => ?_
      refine (keeps_emitDriver hCalls d _ s₁).bind
        fun _ s₂ _ => ?_
      refine (keeps_jumpDriver hCalls d _ s₂).bind
        fun step s₃ _ => ?_
      split
      · exact keeps_pure.mpr (.refl (sound s₃))
      · exact (keeps_field (sound s₃) _ _).bind fun _ s₄ _ =>
          keeps_defect (sound s₄) _

theorem keeps_advance
    (d : Ref)
    (s : Session) :
    (counting hQ m).Keeps (Driver.advance caller d) s := by
  unfold Driver.advance
  refine (keeps_setState d _ s).bind fun _ s₁ _ => ?_
  refine (keeps_nextStep hCalls d s₁).attempt.bind
    fun ended s₂ _ => ?_
  split
  · exact keeps_finish hCalls d _ s₂
  · split
    · exact keeps_pure.mpr (.refl (sound s₂))
    · exact keeps_finish hCalls d _ s₂
    · exact keeps_handOff hCalls d _ s₂
    · exact keeps_suspend hCalls d _ _ s₂

theorem keeps_resume
    (d callback : Ref)
    (failure : Value)
    (s : Session) :
    (counting hQ m).Keeps
      (Driver.resume caller d callback failure) s := by
  unfold Driver.resume
  refine keeps_row_bind.mpr ?_
  split
  · exact keeps_pure.mpr (.refl (sound s))
  · refine Keeps.bind (keeps_alter (moves rfl)) fun _ s₁ _ => ?_
    split
    · refine (keeps_field (sound s₁) _ _).bind fun e s₂ _ => ?_
      exact (keeps_noteDriver d _ s₂).bind fun _ s₃ _ =>
        keeps_finish hCalls d _ s₃
    · exact keeps_advance hCalls d s₁

------------------------------------------------------------
-- Running a Task
------------------------------------------------------------

omit hCalls in
theorem keeps_makeOutput
    (d : Ref)
    (s : Session) :
    (counting hQ m).Keeps (Driver.makeOutput d) s := by
  have hOutput : ∀ (f : Ref) s₁, (counting hQ m).Keeps (do
      Table.drivers.alter d ({ · with output := some f })
      return f : Run Ref) s₁ :=
    fun f s₁ => Keeps.bind (keeps_alter (moves rfl))
      fun _ s₂ _ => keeps_pure.mpr (.refl (sound s₂))
  unfold Driver.makeOutput
  refine keeps_row_bind.mpr ?_
  split
  · refine Keeps.bind ?_ fun f s₁ _ => hOutput f s₁
    exact (keeps_freshStamp (sound s)).bind fun id s₁ _ =>
      keeps_alloc (moves rfl)
  · exact Keeps.bind (keeps_alloc (moves rfl))
      fun f s₁ _ => hOutput f s₁

theorem keeps_launch
    (m' : Value)
    (code : Closure)
    (em : Emitter)
    (s : Session) :
    (counting hQ m).Keeps (Task.launch caller m' code em) s := by
  have hAnswer : ∀ outcome s, (counting hQ m).Keeps (do
      return .future (← Future.settled outcome) : Run Value) s :=
    fun outcome s => ((hosts hCalls).keeps_settled (sound s)
      outcome).bind fun _ s₁ _ => keeps_pure.mpr (.refl (sound s₁))
  have hFirst : ∀ s, (counting hQ m).Keeps
      (Task.firstStep caller code) s := by
    intro s
    unfold Task.firstStep
    refine ((serves hCalls).call (sound s) (c := code) trivial
      []).bind fun first s₁ _ => ?_
    split
    · exact keeps_pure.mpr (.refl (sound s₁))
    · exact keeps_defect (sound s₁) _
  unfold Task.launch
  refine (keeps_emit hCalls em _ s).bind fun _ s₁ _ => ?_
  refine (keeps_withTask _ hFirst s₁).attempt.bind
    fun ended s₂ _ => ?_
  split
  · exact (keeps_emit hCalls em _ s₂).bind fun _ s₃ _ =>
      hAnswer _ s₃
  · split
    · exact keeps_pure.mpr (.refl (sound s₂))
    · exact (keeps_emit hCalls em _ s₂).bind fun _ s₃ _ =>
        hAnswer _ s₃
    · exact (keeps_emit hCalls em _ s₂).bind fun _ s₃ _ =>
        keeps_pure.mpr (.refl (sound s₃))
    · unfold Driver.start
      refine Keeps.bind (keeps_alloc (moves rfl))
        fun d s₃ _ => ?_
      refine (keeps_advance hCalls d s₃).bind fun _ s₄ _ => ?_
      exact (keeps_makeOutput d s₄).bind fun _ s₅ _ =>
        keeps_pure.mpr (.refl (sound s₅))

end World.Counting

------------------------------------------------------------
-- Running and Driving
------------------------------------------------------------

section Counts

open World World.Counting

variable {Q : Nat → Nat → Prop}
variable {m : Ref}
variable {caller : Caller}

/- A task is run by what is called on its behalf. -/
theorem Task.counts_run
    (hQ : Accrues Q)
    (hCalls : ∀ code args,
      Run.Counts Q m (caller.call code args))
    (m' : Value)
    (code : Closure)
    (em : Emitter) :
    Run.Counts Q m (Task.run caller m' code em) := by
  have hKeeps : ∀ s, (counting hQ m).Keeps
      (Task.run caller m' code em) s := by
    intro s
    unfold Task.run
    refine Keeps.bind (keeps_alloc (moves rfl)) fun t s₁ _ => ?_
    refine (keeps_launch hCalls m' code _ s₁).bind
      fun output s₂ _ => ?_
    exact (keeps_note t _ s₂).bind fun _ s₃ _ =>
      keeps_pure.mpr (.refl (sound s₃))
  exact keeps_iff.mp hKeeps

/- So is one that is resumed, -/
theorem Driver.counts_resume
    (hQ : Accrues Q)
    (hCalls : ∀ code args,
      Run.Counts Q m (caller.call code args))
    (d callback : Ref)
    (failure : Value) :
    Run.Counts Q m (Driver.resume caller d callback failure) := by
  have hKeeps : ∀ s, (counting hQ m).Keeps
      (Driver.resume caller d callback failure) s :=
    World.Counting.keeps_resume hCalls d callback failure
  exact keeps_iff.mp hKeeps

/- and one that ends by the outcome of an awaiter. -/
theorem Driver.counts_conclude
    (hQ : Accrues Q)
    (hCalls : ∀ code args,
      Run.Counts Q m (caller.call code args))
    (d : Ref)
    (awaiter : Value) :
    Run.Counts Q m (Driver.conclude caller d awaiter) := by
  have hKeeps : ∀ s, (counting hQ m).Keeps
      (Driver.conclude caller d awaiter) s :=
    World.Counting.keeps_conclude hCalls d awaiter
  exact keeps_iff.mp hKeeps

end Counts

end Resumption

import Resumption.Proofs.Ensures

/-
  Worlds: invariants of sessions that client code may rely on
  to be kept by whatever it calls.

  A world consists of an invariant, of a relation between
  the sessions before and after a computation, and of a
  condition on the closures that may be called.  It says
  nothing about tables that it does not look at; the others
  are the kernel of a session.

  Main declarations:
    * `Session.kernel`, `Session.Stocked`
    * `World`, `World.Sound`, `World.Moves`, `World.Keeps`
    * `World.Keeps.bind`
-/

namespace Resumption

------------------------------------------------------------
-- The Kernel of a Session
------------------------------------------------------------

/-
  Incidents that a world may care for: that a task's code is
  entered, that a driver asks to be called back, that
  something is posted, and that a compensation is invoked.
-/
def Incident.pivotal : Incident → Bool
  | .enters _ _ => true
  | .awaits _ _ _ => true
  | .posts _ _ => true
  | .compensates _ => true
  | _ => false

/-
  What a world may look at: labels, futures, who settles
  them and who waits for them, constructs, tasks and their
  drivers, and what of the past it may care for.
-/
def Session.kernel (s : Session) : Session :=
  { Session.empty with
    chronicle := s.chronicle.filter Incident.pivotal
    task := s.task
    machines := s.machines
    labels := s.labels
    futures := s.futures
    deferreds := s.deferreds
    awaiters := s.awaiters
    controlled := s.controlled
    sequences := s.sequences
    recoveries := s.recoveries
    cleanups := s.cleanups
    drivers := s.drivers
    builders := s.builders
    tasks := s.tasks }

/- No world cares for other incidents. -/
theorem Session.kernel_withIncident
    (s : Session)
    {i : Incident}
    (h : i.pivotal = false) :
    s.kernel = (s.withIncident i).kernel := by
  simp [kernel, withIncident, h]

theorem Session.kernel_calling
    (s : Session) :
    s.kernel = (Run.calling s).kernel := by
  cases hHome : s.home with
  | none => rw [Run.calling_of_abroad hHome]
  | some t =>
      rw [Run.calling_of_home hHome]
      exact s.kernel_withIncident rfl

theorem Session.kernel_logging
    (s : Session)
    (d : Datum) :
    s.kernel = (Run.logging d s).kernel := by
  cases hAside : s.aside with
  | true => simp [kernel, Run.logging, hAside]
  | false =>
      simp [kernel, Run.logging, hAside, Incident.pivotal]

------------------------------------------------------------
-- Stored Closures
------------------------------------------------------------

/- A closure without what resumes or posts it on a context. -/
def Closure.core : Closure → Closure
  | .resumption _ callback => callback.core
  | .posted _ _ callback => callback.core
  | c => c

/- Both handlers of a reaction satisfy a condition. -/
def Reaction.Fits
    (fit : Closure → Prop)
    (r : Reaction) : Prop :=
  (∀ c ∈ r.onFulfilled, fit c) ∧ ∀ c ∈ r.onRejected, fit c

/- The handlers of a reaction to be run satisfy a condition. -/
def Job.Fits
    (fit : Closure → Prop) : Job → Prop
  | .react r _ => r.Fits fit
  | _ => True

/- The code of a reporter satisfies a condition. -/
def Reporter.Fits
    (fit : Closure → Prop)
    (r : Reporter) : Prop :=
  fit r.completed ∧ fit r.result ∧ fit r.register

/- The code behind an awaiter satisfies a condition. -/
def AwaiterCell.Fits
    (fit : Closure → Prop) : AwaiterCell → Prop
  | .custom r => r.Fits fit
  | _ => True

/- The code behind an awaitable satisfies a condition. -/
def AwaitableCell.Fits
    (fit : Closure → Prop) : AwaitableCell → Prop
  | .custom r => r.Fits fit
  | .configurable _ code => fit code
  | _ => True

/- The code that a context posts by satisfies a condition. -/
def Posting.Fits
    (fit : Closure → Prop) : Posting → Prop
  | .custom code => fit code
  | .recording _ => True

/- The code of an iterable satisfies a condition. -/
def IterableCell.Fits
    (fit : Closure → Prop) : IterableCell → Prop
  | .custom start next close =>
      fit start ∧ fit next ∧ ∀ c ∈ close, fit c
  | .counting _ _ => True

/- The code that releases a resource satisfies a condition. -/
def ResourceCell.Fits
    (fit : Closure → Prop) : ResourceCell → Prop
  | .custom code => fit code
  | .tracked _ _ _ => True

/-
  Every closure that a session stores for anyone to call
  satisfies a condition.  The code of labels and constructs
  and the watchers of futures are not among them.
-/
structure Session.Stocked
    (fit : Closure → Prop)
    (s : Session) : Prop where
  functions : ∀ r : Nat, fit (s.functions.getD r default)
  classes : ∀ r : Nat,
    ∀ c ∈ (s.classes.getD r default).message, fit c
  promises : ∀ r : Nat,
    ∀ q ∈ (s.promises.getD r default).reactions.toList,
      q.Fits fit
  microtasks : ∀ j ∈ s.microtasks, j.Fits fit
  awaiters : ∀ r : Nat, (s.awaiters.getD r default).Fits fit
  awaitables : ∀ r : Nat,
    (s.awaitables.getD r default).Fits fit
  thenables : ∀ r : Nat, fit (s.thenables.getD r default)
  contexts : ∀ r : Nat,
    (s.contexts.getD r default).posting.Fits fit
  iterables : ∀ r : Nat, (s.iterables.getD r default).Fits fit
  resources : ∀ r : Nat, (s.resources.getD r default).Fits fit
  listeners : ∀ d : Nat,
    ∀ c ∈ (s.drivers.getD d default).emitter.listener, fit c

section Monotonicity

variable {fit fit' : Closure → Prop}

theorem Reaction.Fits.mono
    {r : Reaction}
    (h : r.Fits fit)
    (hFit : ∀ c, fit c → fit' c) :
    r.Fits fit' :=
  ⟨fun c hc => hFit c (h.1 c hc), fun c hc => hFit c (h.2 c hc)⟩

theorem Job.Fits.mono
    {j : Job}
    (h : j.Fits fit)
    (hFit : ∀ c, fit c → fit' c) :
    j.Fits fit' := by
  cases j with
  | react r o => exact Reaction.Fits.mono h hFit
  | adopt v p => trivial
  | report e => trivial

theorem Reporter.Fits.mono
    {r : Reporter}
    (h : r.Fits fit)
    (hFit : ∀ c, fit c → fit' c) :
    r.Fits fit' :=
  ⟨hFit _ h.1, hFit _ h.2.1, hFit _ h.2.2⟩

theorem AwaiterCell.Fits.mono
    {cell : AwaiterCell}
    (h : cell.Fits fit)
    (hFit : ∀ c, fit c → fit' c) :
    cell.Fits fit' := by
  cases cell with
  | custom r => exact Reporter.Fits.mono h hFit
  | future f captured => trivial
  | controlled c => trivial

theorem AwaitableCell.Fits.mono
    {cell : AwaitableCell}
    (h : cell.Fits fit)
    (hFit : ∀ c, fit c → fit' c) :
    cell.Fits fit' := by
  cases cell with
  | custom r => exact Reporter.Fits.mono h hFit
  | configurable base code => exact hFit _ h
  | configured f captured => trivial
  | controlled c => trivial

theorem Posting.Fits.mono
    {p : Posting}
    (h : p.Fits fit)
    (hFit : ∀ c, fit c → fit' c) :
    p.Fits fit' := by
  cases p with
  | custom code => exact hFit _ h
  | recording posts => trivial

theorem IterableCell.Fits.mono
    {cell : IterableCell}
    (h : cell.Fits fit)
    (hFit : ∀ c, fit c → fit' c) :
    cell.Fits fit' := by
  cases cell with
  | custom start next close =>
      exact ⟨hFit _ h.1, hFit _ h.2.1,
        fun c hc => hFit c (h.2.2 c hc)⟩
  | counting items count => trivial

theorem ResourceCell.Fits.mono
    {cell : ResourceCell}
    (h : cell.Fits fit)
    (hFit : ∀ c, fit c → fit' c) :
    cell.Fits fit' := by
  cases cell with
  | custom code => exact hFit _ h
  | tracked name logged count => trivial

/- A weaker condition holds of stored closures too. -/
theorem Session.Stocked.mono
    {s : Session}
    (h : s.Stocked fit)
    (hFit : ∀ c, fit c → fit' c) :
    s.Stocked fit' where
  functions r := hFit _ (h.functions r)
  classes r c hc := hFit _ (h.classes r c hc)
  promises r q hq := (h.promises r q hq).mono hFit
  microtasks j hj := (h.microtasks j hj).mono hFit
  awaiters r := (h.awaiters r).mono hFit
  awaitables r := (h.awaitables r).mono hFit
  thenables r := hFit _ (h.thenables r)
  contexts r := (h.contexts r).mono hFit
  iterables r := (h.iterables r).mono hFit
  resources r := (h.resources r).mono hFit
  listeners d c hc := hFit _ (h.listeners d c hc)

end Monotonicity

------------------------------------------------------------
-- Worlds
------------------------------------------------------------

/-
  A world: an invariant, the change that computations may
  make, the closures that may be stored, those that may be
  called, what calling one of them brings about besides, and
  the futures that anyone may settle.
-/
structure World where
  inv : Session → Prop
  rel : Session → Session → Prop
  fit : Session → Closure → Prop
  calls : Session → Closure → List Value → Prop
  after : Session → Closure → List Value →
    Except Value Value → Session → Prop
  loose : Session → Ref → Prop
  rel_refl : ∀ s, rel s s
  rel_trans : ∀ {s₁ s₂ s₃},
    rel s₁ s₂ → rel s₂ s₃ → rel s₁ s₃
  fit_mono : ∀ {s s' c}, rel s s' → fit s c → fit s' c
  loose_mono : ∀ {s s' f}, rel s s' → loose s f → loose s' f
  fit_default : ∀ s, fit s default
  fit_bridge : ∀ s f p, fit s (.bridge f p)
  fit_settlePromise : ∀ s p called fulfil,
    fit s (.settlePromise p called fulfil)
  fit_settleFuture : ∀ {s f} fulfil,
    fit s (.settleFuture f fulfil) ↔ loose s f
  fit_resumption : ∀ {s c} context,
    fit s c → fit s (.resumption context c)
  fit_posted : ∀ {s c} entered context,
    fit s c → fit s (.posted entered context c)
  calls_of_fit : ∀ {s c} args, fit s c → calls s c args
  inv_kernel : ∀ {s s'}, s.kernel = s'.kernel → inv s → inv s'
  rel_kernel : ∀ {s s'}, s.kernel = s'.kernel → rel s s'
  inv_posts : ∀ {s c} context, fit s c → inv s →
    inv (s.withIncident (.posts context c))
  rel_posts : ∀ {s c} context, fit s c → inv s →
    rel s (s.withIncident (.posts context c))

namespace World

variable (W : World)

/- A session of a world. -/
structure Sound (s : Session) : Prop where
  inv : W.inv s
  stocked : s.Stocked (W.fit s)

/- A session of a world that another one may turn into. -/
structure Moves (s s' : Session) : Prop where
  sound : W.Sound s'
  rel : W.rel s s'

/- However a computation ends, the world is kept. -/
def Keeps
    {α : Type}
    (act : Run α)
    (s : Session) : Prop :=
  act.Ensures s fun _ s' => W.Moves s s'

/-
  A caller keeps the world when it calls what may be called,
  and brings about what the call is for.
-/
def Serves (caller : Caller) : Prop :=
  ∀ c args s, W.Sound s → W.calls s c args →
    (caller.call c args).Ensures s fun r s' =>
      W.Moves s s' ∧ W.after s c args r s'

variable {W}
variable {s s₁ s₂ s' : Session}
variable {α β : Type}

------------------------------------------------------------
-- Moves
------------------------------------------------------------

theorem Moves.refl
    (h : W.Sound s) :
    W.Moves s s :=
  ⟨h, W.rel_refl s⟩

theorem Moves.trans
    (h : W.Moves s s₁)
    (h' : W.Moves s₁ s₂) :
    W.Moves s s₂ :=
  ⟨h'.sound, W.rel_trans h.rel h'.rel⟩

/- What may be stored may be stored ever after. -/
theorem Moves.fit
    {c : Closure}
    (h : W.Moves s s')
    (hc : W.fit s c) :
    W.fit s' c :=
  W.fit_mono h.rel hc

/- Who may be settled by anyone may be so ever after. -/
theorem Moves.loose
    {f : Ref}
    (h : W.Moves s s')
    (hf : W.loose s f) :
    W.loose s' f :=
  W.loose_mono h.rel hf

/-
  A change outside of the kernel moves along, if what is
  stored afterwards may be stored.
-/
theorem Sound.moves_of_kernel
    (h : W.Sound s)
    (hKernel : s.kernel = s'.kernel)
    (hStocked : s'.Stocked (W.fit s)) :
    W.Moves s s' where
  sound :=
    { inv := W.inv_kernel hKernel h.inv
      stocked := hStocked.mono fun _ hc =>
        W.fit_mono (W.rel_kernel hKernel) hc }
  rel := W.rel_kernel hKernel

/- A callback that may be stored may be posted. -/
theorem Sound.moves_posts
    {c : Closure}
    (h : W.Sound s)
    (context : Value)
    (hFit : W.fit s c) :
    W.Moves s (s.withIncident (.posts context c)) where
  sound :=
    { inv := W.inv_posts context hFit h.inv
      stocked :=
        Session.Stocked.mono { h.stocked with } fun _ hc =>
          W.fit_mono (W.rel_posts context hFit h.inv) hc }
  rel := W.rel_posts context hFit h.inv

------------------------------------------------------------
-- Keeping a World
------------------------------------------------------------

theorem Keeps.of_moves
    {act : Run α}
    (h : W.Moves s s₁)
    (hAct : W.Keeps act s₁) :
    act.Ensures s₁ fun _ s' => W.Moves s s' :=
  Run.Ensures.mono hAct fun _ _ hMoves => h.trans hMoves

@[simp] theorem keeps_pure
    {a : α} :
    W.Keeps (pure a : Run α) s ↔ W.Moves s s :=
  Run.ensures_pure

@[simp] theorem keeps_raise
    {e : Value} :
    W.Keeps (Run.raise e : Run α) s ↔ W.Moves s s :=
  Run.ensures_raise

/- Two computations in sequence keep what both keep. -/
theorem Keeps.bind
    {act : Run α}
    {f : α → Run β}
    (h : W.Keeps act s)
    (hf : ∀ a s', W.Moves s s' → W.Keeps (f a) s') :
    W.Keeps (act >>= f) s := by
  refine Run.Ensures.bind (Run.Ensures.mono h ?_)
  intro r s' hMoves
  cases r with
  | ok a => exact (hf a s' hMoves).of_moves hMoves
  | error e => exact hMoves

/- What is known of how the first one ends may be relied on. -/
theorem Keeps.bind_with
    {act : Run α}
    {f : α → Run β}
    {P : Except Value α → Session → Prop}
    (h : W.Keeps act s)
    (hKnown : act.Ensures s P)
    (hf : ∀ a s', W.Moves s s' → P (.ok a) s' →
      W.Keeps (f a) s') :
    W.Keeps (act >>= f) s := by
  refine Run.Ensures.bind ((Run.Ensures.and h hKnown).mono ?_)
  rintro r s' ⟨hMoves, hEnd⟩
  cases r with
  | ok a => exact (hf a s' hMoves hEnd).of_moves hMoves
  | error e => exact hMoves

/- Attempting a computation keeps what it keeps. -/
theorem Keeps.attempt
    {act : Run α}
    (h : W.Keeps act s) :
    W.Keeps (Run.attempt act) s :=
  Run.ensures_attempt.mpr h

/- Leaving a result unused keeps what the computation keeps. -/
theorem Keeps.discard
    {act : Run α}
    (h : W.Keeps act s) :
    W.Keeps (Functor.discard act) s :=
  Run.Ensures.discard h

/- Mapping a result keeps what the computation keeps. -/
theorem Keeps.map
    {act : Run α}
    {g : α → β}
    (h : W.Keeps act s) :
    W.Keeps (g <$> act) s :=
  Run.Ensures.map h

/- Answering with nothing keeps what the computation keeps. -/
theorem Keeps.quietly
    {act : Run α}
    (h : W.Keeps act s) :
    W.Keeps (Run.quietly act) s :=
  Run.Ensures.quietly h

/- Rounds that all keep a world keep it together. -/
theorem Keeps.iterate
    {round : Run (Option α)}
    (hRound : ∀ s', W.Moves s s' → W.Keeps round s')
    (hs : W.Sound s)
    (n : Nat) :
    W.Keeps (Run.iterate n round) s := by
  refine Run.Ensures.iterate ?_ n (Moves.refl hs)
  intro s₁ hMoves
  refine Run.Ensures.mono (hRound s₁ hMoves) ?_
  intro r s₂ hRest
  match r with
  | .ok (some a) => exact hMoves.trans hRest
  | .ok none => exact hMoves.trans hRest
  | .error e => exact hMoves.trans hRest

/- How objects are numbered is no part of a world. -/
theorem Keeps.aside
    {act : Run α}
    (hs : W.Sound s)
    (h : ∀ s', W.Moves s s' → W.Keeps act s') :
    W.Keeps (Run.aside act) s := by
  have hIn : W.Moves s { s with aside := true } :=
    hs.moves_of_kernel rfl { hs.stocked with }
  refine Run.ensures_aside.mpr ?_
  refine Run.Ensures.mono (h _ hIn) ?_
  intro r s' hMoves
  have hOut : W.Moves s' { s' with aside := s.aside } :=
    hMoves.sound.moves_of_kernel rfl
      { hMoves.sound.stocked with }
  exact (hIn.trans hMoves).trans hOut

/- Neither is where tasks are at home. -/
theorem Keeps.abroad
    {act : Run α}
    (hs : W.Sound s)
    (h : ∀ s', W.Moves s s' → s'.ambient = s.ambient →
      W.Keeps act s') :
    W.Keeps (Run.abroad act) s := by
  have hIn : W.Moves s { s with home := none } :=
    hs.moves_of_kernel rfl { hs.stocked with }
  refine Run.ensures_abroad.mpr ?_
  refine Run.Ensures.mono (h _ hIn rfl) ?_
  intro r s' hMoves
  have hOut : W.Moves s' { s' with home := s.home } :=
    hMoves.sound.moves_of_kernel rfl
      { hMoves.sound.stocked with }
  exact (hIn.trans hMoves).trans hOut

/- The ambient context is no part of a world. -/
theorem Keeps.withAmbient
    {act : Run α}
    {ambient : Value}
    (hs : W.Sound s)
    (h : ∀ s', W.Moves s s' → s'.ambient = ambient →
      W.Keeps act s') :
    W.Keeps (Run.withAmbient ambient act) s := by
  have hIn : W.Moves s (Run.becoming ambient s) :=
    hs.moves_of_kernel rfl { hs.stocked with }
  refine Run.ensures_withAmbient.mpr ?_
  refine Run.Ensures.mono (h _ hIn rfl) ?_
  intro r s' hMoves
  have hOut :
      W.Moves s' { s' with ambient := s.ambient } :=
    hMoves.sound.moves_of_kernel rfl
      { hMoves.sound.stocked with }
  exact (hIn.trans hMoves).trans hOut

theorem Keeps.elsewhere
    {act : Run α}
    {ambient : Value}
    (hs : W.Sound s)
    (h : ∀ s', W.Moves s s' → s'.ambient = ambient →
      W.Keeps act s') :
    W.Keeps (Run.elsewhere ambient act) s :=
  Keeps.withAmbient hs fun _ h₁ hIn =>
    Keeps.abroad h₁.sound fun s₂ h₂ hSame =>
      h s₂ (h₁.trans h₂) (hSame.trans hIn)

end World

end Resumption

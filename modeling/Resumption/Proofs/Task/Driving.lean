import Resumption.Proofs.Task.Standing

/-
  The world of tasks: every task is in a phase that its
  story leads to, whatever client code does.

  Some tasks are held: somebody is at work on them, and
  nothing that is called meanwhile moves them.  Some are
  excused: somebody will settle their output in a moment.

  Main declarations:
    * `Closure.Harmless`
    * `Session.Network`
    * `Sane`, `Standing`, `Session.Due`
    * `Driving`
-/

namespace Resumption

------------------------------------------------------------
-- Harmless Closures
------------------------------------------------------------

/-
  A closure that anyone may keep and call: what it holds
  tells no driver that a future has settled, unless nothing
  can come of that or the driver went astray, and settles no
  future but one that anyone may settle.
-/
def Closure.Harmless
    (idle : Ref → Ref → Prop)
    (stray loose : Ref → Prop) : Closure → Prop
  | .applied f _ => f.Harmless idle stray loose
  | .received _ rest => rest.Harmless idle stray loose
  | .loopHead _ _ condition body =>
      condition.Harmless idle stray loose ∧
        body.Harmless idle stray loose
  | .cursorLoop _ _ body => body.Harmless idle stray loose
  | .cursorItem _ body => body.Harmless idle stray loose
  | .resumption _ callback =>
      callback.Harmless idle stray loose
  | .posted _ _ callback => callback.Harmless idle stray loose
  | .driverResume d callback => idle d callback
  | .driverOutcome d _ => stray d
  | .settleFuture f _ => loose f
  | _ => True

theorem Closure.Harmless.mono
    {idle idle' : Ref → Ref → Prop}
    {stray stray' loose loose' : Ref → Prop}
    (hIdle : ∀ d callback, idle d callback → idle' d callback)
    (hStray : ∀ d, stray d → stray' d)
    (hLoose : ∀ f, loose f → loose' f)
    {c : Closure}
    (h : c.Harmless idle stray loose) :
    c.Harmless idle' stray' loose' := by
  induction c with
  | applied f args ih => exact ih h
  | received awaiter rest ih => exact ih h
  | loopHead m entry condition body ihCondition ihBody =>
      exact ⟨ihCondition h.1, ihBody h.2⟩
  | cursorLoop m c body ih => exact ih h
  | cursorItem c body ih => exact ih h
  | resumption context callback ih => exact ih h
  | posted entered context callback ih => exact ih h
  | driverResume d callback => exact hIdle d callback h
  | driverOutcome d awaiter => exact hStray d h
  | settleFuture f fulfil => exact hLoose f h
  | _ => trivial

/- Posting a closure does no more harm than the closure. -/
theorem Closure.harmless_core
    {idle : Ref → Ref → Prop}
    {stray loose : Ref → Prop}
    (c : Closure) :
    c.core.Harmless idle stray loose ↔
      c.Harmless idle stray loose := by
  induction c with
  | resumption context callback ih => exact ih
  | posted entered context callback ih => exact ih
  | _ => exact Iff.rfl

------------------------------------------------------------
-- Sane Sessions
------------------------------------------------------------

namespace Session

/- A future that is there, and that no driver settles. -/
def Loose
    (s : Session)
    (f : Ref) : Prop :=
  f < s.futures.size ∧ ¬ s.IsOutput f

/- A closure that anyone may keep in a session. -/
def Harmless
    (s : Session)
    (c : Closure) : Prop :=
  c.Harmless s.Idle s.Stray s.Loose

/-
  A closure by which a driver waits for a future: it resumes
  the task, or reads the future's outcome and nothing else.
-/
def IsPledge
    (s : Session)
    (f : Ref)
    (w : Closure) : Prop :=
  ∃ (d : Nat) (cell : DriverCell),
    s.drivers[d]? = some cell ∧
      ((∃ callback, w = .driverResume d callback) ∨
        ∃ a : Nat, w = .driverOutcome d (.awaiter a) ∧
          s.awaiters[a]? = some (.future f false))

variable {s s' : Session}

theorem Extends.loose
    (h : s.Extends s')
    {f : Ref}
    (hf : s.Loose f) :
    s'.Loose f :=
  ⟨Nat.lt_of_lt_of_le hf.1 h.futures,
   fun hOut => hf.2 (h.outputs f hf.1 hOut)⟩

theorem Extends.harmless
    (h : s.Extends s')
    {c : Closure}
    (hc : s.Harmless c) :
    s'.Harmless c :=
  Closure.Harmless.mono (fun _ _ => h.idle) (fun _ => h.stray)
    (fun _ => h.loose) hc

theorem Extends.isPledge
    (h : s.Extends s')
    {f : Ref}
    {w : Closure}
    (hw : s.IsPledge f w) :
    s'.IsPledge f w := by
  rcases hw with ⟨d, cell, hCell, hKind⟩
  rcases h.drivers d cell hCell with ⟨cell', hCell', _, _⟩
  refine ⟨d, cell', hCell', hKind.imp_right ?_⟩
  rintro ⟨a, rfl, hAwaiter⟩
  exact ⟨a, rfl, h.awaiters a _ hAwaiter⟩

/- What is harmless tells no driver of anything. -/
theorem Harmless.not_tokens
    {w : Closure}
    (h : s.Harmless w.core)
    (d : Ref)
    (e : Errand) :
    ¬ s.Tokens d e w := by
  intro hToken
  cases e with
  | resume =>
      rcases hToken with ⟨callback, rfl, hIdle⟩
      exact hIdle h
  | conclude =>
      rcases hToken with ⟨⟨awaiter, rfl⟩, hStray⟩
      exact hStray h

/- A pledge is harmless, or how a driver is told. -/
theorem IsPledge.tokens
    {f : Ref}
    {w : Closure}
    (h : s.IsPledge f w)
    (hHarm : ¬ s.Harmless w) :
    ∃ t d cell e, s.Drives t d cell ∧ s.Tokens d e w := by
  rcases h with
    ⟨d, cell, hCell, ⟨callback, rfl⟩ | ⟨a, rfl, _⟩⟩
  · exact ⟨_, d, cell, .resume, ⟨hCell, rfl⟩, callback, rfl,
      hHarm⟩
  · exact ⟨_, d, cell, .conclude, ⟨hCell, rfl⟩, ⟨_, rfl⟩,
      hHarm⟩

end Session

------------------------------------------------------------
-- Networks
------------------------------------------------------------

/- A driver or a promise is told of a settlement. -/
def Closure.IsNative : Closure → Prop
  | .driverResume _ _ => True
  | .driverOutcome _ _ => True
  | .bridge _ _ => True
  | _ => False

/- What a step hands off or names is what it is declared as. -/
def Moment.Declared : Moment → Prop
  | .handsOver v => ∃ f, v = .future f
  | .suspends l => ¬ l.isMissing
  | _ => True

/-
  The tasks of a session are a network: nobody else than
  their drivers, and promises, ever came to wait for any
  future, and the fields of steps had their declared types.
-/
structure Session.Network (s : Session) : Prop where
  audience : ∀ f, ∀ w ∈ s.audience f, w.IsNative
  declared : ∀ t, ∀ m ∈ s.story t, m.Declared

/- What has become a network was one all along. -/
theorem Session.Extends.network
    {s s' : Session}
    (h : s.Extends s')
    (hNetwork : s'.Network) :
    s.Network where
  audience f w hw := hNetwork.audience f w (h.audience f w hw)
  declared t m hm := hNetwork.declared t m (h.mem_story hm)

/- No driver of a network went astray. -/
theorem Session.Stray.not_network
    {s : Session}
    {d : Ref}
    (h : s.Stray d) :
    ¬ s.Network := by
  rcases h with ⟨cell, v, _, hMem, hv⟩
  intro hNetwork
  rcases hNetwork.declared _ _ hMem with ⟨f, hf⟩
  exact hv f hf

section Tasks

open Session

/-
  The tables of a session fit together: each driver has a
  task and an output of its own, each future is watched by
  what may watch it, and what constructs keep is harmless.
-/
structure Sane (s : Session) : Prop where
  owner : ∀ t d cell, s.Drives t d cell → t < s.tasks.size
  sole : ∀ t d d' cell cell',
    s.Drives t d cell → s.Drives t d' cell' → d = d'
  output_lt : ∀ f, s.IsOutput f → f < s.futures.size
  output_sole : ∀ (f : Ref) (d d' : Nat)
    (cell cell' : DriverCell),
    s.drivers[d]? = some cell → s.drivers[d']? = some cell' →
      cell.output = some f → cell'.output = some f → d = d'
  watcher : ∀ f, ∀ w ∈ s.watchers f,
    s.Harmless w ∨ s.IsPledge f w
  unwatched : ∀ f, (s.outcome? f).isSome → s.watchers f = []
  once : ∀ d e f f' w w', w ∈ s.watchers f →
    w' ∈ s.watchers f' → s.Tokens d e w → s.Tokens d e w' →
      f = f'
  apart : ∀ f, (s.watchers f).Pairwise fun w w' =>
    ∀ d e, s.Tokens d e w → ¬ s.Tokens d e w'
  audience : ∀ f, ∀ w ∈ s.watchers f, w ∈ s.audience f
  code : ∀ l : Nat, ∀ c ∈ (s.labels.getD l default).code,
    s.Harmless c
  handler : ∀ i : Nat,
    s.Harmless (s.recoveries.getD i default).handler
  compensation : ∀ i : Nat,
    s.Harmless (s.cleanups.getD i default).compensation
  deferred : ∀ (r f : Nat),
    s.deferreds[r]? = some (.future f) → s.Loose f
  controlled : ∀ (r : Nat) (cell : ControlledCell),
    s.controlled[r]? = some cell → s.Loose cell.future

------------------------------------------------------------
-- The World of Tasks
------------------------------------------------------------

/-
  How all tasks stand while some are held and some are
  excused: the others rest in a phase of their course.
-/
structure Standing
    (held excused : List Ref)
    (s : Session) : Prop where
  sane : Sane s
  placed : ∀ t < s.tasks.size, t ∉ held →
    Placed (t ∈ excused) s t
  minded : ∀ t < s.tasks.size, t ∉ held →
    Minds (t ∈ excused) s t
  held : ∀ t ∈ held, Held s t

/- No driver that there was got another output, or one at all. -/
def Session.KeepsOutputs (s s' : Session) : Prop :=
  ∀ (d : Nat) (cell cell' : DriverCell),
    s.drivers[d]? = some cell → s'.drivers[d]? = some cell' →
      cell'.output = cell.output

/- Nothing is lost, and held tasks are left alone. -/
structure Leaves
    (held : List Ref)
    (s s' : Session) : Prop where
  extends_ : s.Extends s'
  unmoved : ∀ t ∈ held, s.Unmoved t s'
  outputs : s.KeepsOutputs s'

/- Besides, nobody is lost. -/
structure Passes
    (held : List Ref)
    (s s' : Session) : Prop extends Leaves held s s' where
  spares : s.Spares s'

/-
  The future that a task's driver waits for has settled, and
  the closure tells the driver.
-/
inductive Session.Due
    (s : Session)
    (t : Ref) : Closure → Prop where
  | resume
      {d callback : Ref}
      {cell : DriverCell}
      {l id : Value}
      (hDrives : s.Drives t d cell)
      (hPledged : ¬ s.Pledged d .resume)
      (hLeft : cell.fired.getD callback true = false)
      (hIdle : ¬ s.Idle d callback)
      (hCourse : Course (s.story t) (.waiting l id)) :
      Due s t (.driverResume d callback)
  | conclude
      {d a f : Ref}
      {cell : DriverCell}
      {p : Phase}
      (hDrives : s.Drives t d cell)
      (hPledged : ¬ s.Pledged d .conclude)
      (hSteady : ¬ s.Stray d)
      (hAwaiter : s.awaiters[a]? = some (.future f false))
      (hSettled : (s.outcome? f).isSome)
      (hCourse : Course (s.story t) p)
      (hPledges : p.Pledges .conclude) :
      Due s t (.driverOutcome d (.awaiter a))

theorem Session.Due.unmoved
    {s s' : Session}
    {t : Ref}
    {c : Closure}
    (h : s.Due t c)
    (hUnmoved : s.Unmoved t s')
    (hExtends : s.Extends s') :
    s'.Due t c := by
  cases h with
  | @resume d k cell l id hDrives hPledged hLeft hIdle
      hCourse =>
      exact .resume ((hUnmoved.drives d cell).mpr hDrives)
        (fun hp => hPledged (hUnmoved.pledged hDrives hp))
        hLeft (fun hp => hIdle (hUnmoved.idle hDrives hp))
        (hUnmoved.story ▸ hCourse)
  | @conclude d a f cell p hDrives hPledged hSteady hAwaiter
      hSettled hCourse hPledges =>
      refine .conclude ((hUnmoved.drives d cell).mpr hDrives)
        (fun hp => hPledged (hUnmoved.pledged hDrives hp))
        (fun hp => hSteady (hUnmoved.stray hDrives hp))
        (hExtends.awaiters a _ hAwaiter) ?_
        (hUnmoved.story ▸ hCourse) hPledges
      rcases Option.isSome_iff_exists.mp hSettled with ⟨o, ho⟩
      rw [hExtends.settled f o ho]
      rfl

end Tasks

section Kernels

variable {s s' : Session}

theorem Session.KeepsOutputs.of_drivers
    (h : s'.drivers = s.drivers) :
    s.KeepsOutputs s' := by
  intro d cell cell' hCell hCell'
  rw [h, hCell] at hCell'
  exact congrArg _ (Option.some.inj hCell').symm

/- Who is moved by nothing gets no other output. -/
theorem Session.KeepsOutputs.of_unmoved
    (h : ∀ t, s.Unmoved t s') :
    s.KeepsOutputs s' := by
  intro d cell cell' hCell hCell'
  have hDrives := ((h _).drives d cell).mpr ⟨hCell, rfl⟩
  rw [hDrives.1] at hCell'
  exact congrArg _ (Option.some.inj hCell').symm

/- Whatever a session extends, so does one with its kernel. -/
theorem Session.Extends.of_kernel
    (h : s.kernel = s'.kernel) :
    s.Extends s' := by
  cases s
  cases s'
  injection h
  subst_vars
  exact { Session.Extends.refl _ with }

theorem Session.Unmoved.of_kernel
    (h : s.kernel = s'.kernel)
    (t : Ref) :
    s.Unmoved t s' := by
  cases s
  cases s'
  injection h
  subst_vars
  exact { Session.Unmoved.refl t _ with }

theorem Session.Spares.of_kernel
    (h : s.kernel = s'.kernel) :
    s.Spares s' := by
  refine .of_unmoved (.of_kernel h) ?_
  cases s
  cases s'
  injection h
  subst_vars
  exact fun _ _ hw => hw

theorem Sane.of_kernel
    (h : s.kernel = s'.kernel)
    (hs : Sane s) :
    Sane s' := by
  cases s
  cases s'
  injection h
  subst_vars
  exact { hs with }

end Kernels

------------------------------------------------------------
-- Holding and Excusing
------------------------------------------------------------

section Holding

variable {s s' : Session}
variable {held excused : List Ref}
variable {t : Ref}

theorem Leaves.refl
    (held : List Ref)
    (s : Session) :
    Leaves held s s :=
  ⟨.refl s, fun t _ => .refl t s, .of_drivers rfl⟩

theorem Leaves.trans
    {s₁ s₂ s₃ : Session}
    (h : Leaves held s₁ s₂)
    (h' : Leaves held s₂ s₃) :
    Leaves held s₁ s₃ where
  extends_ := h.extends_.trans h'.extends_
  unmoved t ht := (h.unmoved t ht).trans (h'.unmoved t ht)
  outputs d cell₁ cell₃ h₁ h₃ := by
    rcases h.extends_.drivers d cell₁ h₁ with ⟨cell₂, h₂, _⟩
    exact (h'.outputs d cell₂ cell₃ h₂ h₃).trans
      (h.outputs d cell₁ cell₂ h₁ h₂)

theorem Passes.refl
    (held : List Ref)
    (s : Session) :
    Passes held s s :=
  ⟨.refl held s, .refl s⟩

theorem Passes.trans
    {s₁ s₂ s₃ : Session}
    (h : Passes held s₁ s₂)
    (h' : Passes held s₂ s₃) :
    Passes held s₁ s₃ :=
  ⟨h.toLeaves.trans h'.toLeaves, h.spares.trans h'.spares⟩

/- What leaves more tasks alone leaves fewer alone. -/
theorem Leaves.of_cons
    (h : Leaves (t :: held) s s') :
    Leaves held s s' :=
  ⟨h.extends_, fun t' ht' =>
    h.unmoved t' (List.mem_cons_of_mem t ht'), h.outputs⟩

/- A task that was held can rest. -/
theorem Standing.rest
    (h : Standing (t :: held) excused s)
    (hPlaced : Placed (t ∈ excused) s t)
    (hMinds : Minds (t ∈ excused) s t) :
    Standing held excused s where
  sane := h.sane
  placed t' ht' hHeld := by
    by_cases hSame : t' = t
    · exact hSame ▸ hPlaced
    · exact h.placed t' ht' (by simp [hSame, hHeld])
  minded t' ht' hHeld := by
    by_cases hSame : t' = t
    · exact hSame ▸ hMinds
    · exact h.minded t' ht' (by simp [hSame, hHeld])
  held t' ht' := h.held t' (List.mem_cons_of_mem t ht')

/- A task that nobody can move on can be held. -/
theorem Standing.hold
    (h : Standing held excused s)
    (hHeld : Held s t) :
    Standing (t :: held) excused s where
  sane := h.sane
  placed t' ht' hOther :=
    h.placed t' ht' fun hMem =>
      hOther (List.mem_cons_of_mem t hMem)
  minded t' ht' hOther :=
    h.minded t' ht' fun hMem =>
      hOther (List.mem_cons_of_mem t hMem)
  held t' ht' := by
    rcases List.mem_cons.mp ht' with rfl | hOld
    · exact hHeld
    · exact h.held t' hOld

/- An excuse can be given for a while. -/
theorem Standing.excuse
    (h : Standing held excused s)
    (t : Ref) :
    Standing held (t :: excused) s where
  sane := h.sane
  placed t' ht' hHeld :=
    (h.placed t' ht' hHeld).mono (List.mem_cons_of_mem t)
  minded t' ht' hHeld :=
    (h.minded t' ht' hHeld).mono (List.mem_cons_of_mem t)
  held := h.held

/- What happens to no task leaves them all as they stand. -/
theorem Standing.unmoved
    (h : Standing held excused s)
    (hSane : Sane s')
    (hExtends : s.Extends s')
    (hSize : s'.tasks.size = s.tasks.size)
    (hUnmoved : ∀ t, s.Unmoved t s') :
    Standing held excused s' where
  sane := hSane
  placed t ht hHeld :=
    (h.placed t (hSize ▸ ht) hHeld).unmoved (hUnmoved t) hExtends
  minded t ht hHeld :=
    (h.minded t (hSize ▸ ht) hHeld).unmoved (hUnmoved t)
  held t ht := (h.held t ht).unmoved (hUnmoved t) hExtends

end Holding

------------------------------------------------------------
-- The World
------------------------------------------------------------

/-
  The world of tasks, some of them held and some excused.  A
  driver that is called back goes on; in a network it throws
  nothing.
-/
def Driving (held excused : List Ref) : World where
  inv := Standing held excused
  rel := Passes held
  fit s c := s.Harmless c.core
  calls s c _ := s.Harmless c ∨ ∃ t, t ∉ held ∧ s.Due t c
  after s c args r s' := args = [] →
    (∀ t, t ∉ held → s.Due t c → s.turns t < s'.turns t) ∧
      (c.IsNative → ∀ e, r = .error e → ¬ s'.Network)
  loose := Session.Loose
  rel_refl := .refl held
  rel_trans h h' := h.trans h'
  fit_mono h hc := h.extends_.harmless hc
  loose_mono h hf := h.extends_.loose hf
  fit_default _ := trivial
  fit_bridge _ _ _ := trivial
  fit_settlePromise _ _ _ _ := trivial
  fit_settleFuture _ := Iff.rfl
  fit_resumption _ h := h
  fit_posted _ _ h := h
  calls_of_fit {_ c} _ h := .inl ((Closure.harmless_core c).mp h)
  inv_kernel h hs :=
    hs.unmoved (hs.sane.of_kernel h) (.of_kernel h)
      (congrArg (·.tasks.size) h).symm
      (Session.Unmoved.of_kernel h)
  rel_kernel h :=
    ⟨⟨.of_kernel h, fun t _ => .of_kernel h t,
      .of_unmoved fun t => .of_kernel h t⟩, .of_kernel h⟩
  inv_posts _ _ hs :=
    hs.unmoved { hs.sane with } { Session.Extends.refl _ with }
      rfl fun t => { Session.Unmoved.refl t _ with }
  rel_posts {s _} _ _ _ :=
    ⟨⟨{ Session.Extends.refl s with },
      fun t _ => { Session.Unmoved.refl t s with },
      .of_unmoved fun t => { Session.Unmoved.refl t s with }⟩,
      .of_unmoved (fun t => { Session.Unmoved.refl t s with })
        fun _ _ hw => hw⟩

section Driving

variable {s s' : Session}
variable {held excused : List Ref}

/- What happens to no task moves along. -/
theorem Standing.moves
    (h : (Driving held excused).Sound s)
    (hSane : Sane s')
    (hExtends : s.Extends s')
    (hSize : s'.tasks.size = s.tasks.size)
    (hUnmoved : ∀ t, s.Unmoved t s')
    (hWatchers : ∀ f, ∀ w ∈ s.watchers f, w ∈ s'.watchers f)
    (hStocked : s'.Stocked ((Driving held excused).fit s)) :
    (Driving held excused).Moves s s' where
  sound :=
    { inv := Standing.unmoved h.inv hSane hExtends hSize hUnmoved
      stocked := hStocked.mono fun _ hc =>
        hExtends.harmless hc }
  rel := ⟨⟨hExtends, fun t _ => hUnmoved t,
    .of_unmoved hUnmoved⟩, .of_unmoved hUnmoved hWatchers⟩

end Driving

end Resumption

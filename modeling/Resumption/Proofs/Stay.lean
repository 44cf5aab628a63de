import Resumption.Proofs.Task.Standing

/-
  The world of one task that stays on the context that it was
  started in.

  A future that settles owes the task's driver one post to
  that context for each callback that waited for it.  What is
  owed is paid in full before anything else goes on, unless
  it is spared for later.

  Main declarations:
    * `Session.entries`, `Session.awaited`, `Session.posted`
    * `Stay`, `Stay.Admits`
    * `Stay.Accounts`, `Stay.Owed`
    * `Staying`
-/

namespace Resumption

------------------------------------------------------------
-- What a Chronicle Tells
------------------------------------------------------------

/-
  The callback of a driver that a closure is, if it is not to
  read how a hand-off ended.
-/
def Closure.callback?
    (d : Ref) : Closure → Option (Option Ref)
  | .driverResume d' callback =>
      if d' = d then some (some callback) else none
  | .driverOutcome d' _ => if d' = d then some none else none
  | _ => none

namespace Incident

/- The context that the code of a task was entered in. -/
def entry?
    (t : Ref) : Incident → Option Value
  | .enters t' ambient => if t' = t then some ambient else none
  | _ => none

/- The callback that a driver asked with, and what it asked. -/
def asked?
    (d : Ref) : Incident → Option (Ref × Option (Ref × Bool))
  | .awaits d' callback source =>
      if d' = d then some (callback, source) else none
  | _ => none

/- Where a callback of a driver was posted. -/
def posted?
    (d : Ref) : Incident → Option (Value × Option Ref)
  | .posts context callback =>
      (callback.callback? d).map fun k => (context, k)
  | _ => none

end Incident

namespace Session

/-
  The contexts in which the code of a task was entered, the
  latest first.
-/
def entries
    (s : Session)
    (t : Ref) : List Value :=
  s.chronicle.filterMap (Incident.entry? t)

/- The context in which a task was started. -/
def startedIn
    (s : Session)
    (t : Ref) : Option Value :=
  (s.entries t).getLast?

/- The suspensions of a driver: each with its callback. -/
def awaited
    (s : Session)
    (d : Ref) : List (Ref × Option (Ref × Bool)) :=
  s.chronicle.filterMap (Incident.asked? d)

/- What was posted for a driver, and where. -/
def posted
    (s : Session)
    (d : Ref) : List (Value × Option Ref) :=
  s.chronicle.filterMap (Incident.posted? d)

/- The task of a driver. -/
def taskOf
    (s : Session)
    (d : Ref) : Ref :=
  (s.drivers.getD d default).emitter.task

/- How many callbacks a driver has handed out. -/
def handedOut
    (s : Session)
    (d : Ref) : Nat :=
  (s.drivers.getD d default).fired.size

/- A task has no driver. -/
def Undriven
    (s : Session)
    (t : Ref) : Prop :=
  ∀ d < s.drivers.size, s.taskOf d ≠ t

variable {s s' : Session}

/- All of that is in the kernel. -/
private theorem filterMap_kernel
    {α : Type}
    {f : Incident → Option α}
    (hf : ∀ i, i.pivotal = false → f i = none)
    (h : s.kernel = s'.kernel) :
    s'.chronicle.filterMap f = s.chronicle.filterMap f := by
  have hKept : ∀ s : Session,
      s.chronicle.filterMap f =
        s.kernel.chronicle.filterMap f := by
    intro s
    simp only [kernel, List.filterMap_filter]
    refine congrArg (List.filterMap · _) (funext fun i => ?_)
    cases hi : i.pivotal with
    | true => simp
    | false => simp [hf i hi]
  rw [hKept s', hKept s, h]

theorem entries_kernel
    (h : s.kernel = s'.kernel)
    (t : Ref) :
    s'.entries t = s.entries t := by
  refine filterMap_kernel (fun i hi => ?_) h
  cases i <;> first | rfl | cases hi

theorem awaited_kernel
    (h : s.kernel = s'.kernel)
    (d : Ref) :
    s'.awaited d = s.awaited d := by
  refine filterMap_kernel (fun i hi => ?_) h
  cases i <;> first | rfl | cases hi

theorem posted_kernel
    (h : s.kernel = s'.kernel)
    (d : Ref) :
    s'.posted d = s.posted d := by
  refine filterMap_kernel (fun i hi => ?_) h
  cases i <;> first | rfl | cases hi

end Session

------------------------------------------------------------
-- Stays
------------------------------------------------------------

/- A task, its driver, and the context that it is to stay on. -/
structure Stay where
  task : Ref
  driver : Ref
  context : Value
  truthy : context.truthy = true

namespace Stay

variable (H : Stay)

/- A callback of the driver. -/
def callback (k : Ref) : Closure :=
  .driverResume H.driver k

/- How the driver waits for a future to settle. -/
def summons (k : Ref) : Closure :=
  .resumption H.context (H.callback k)

/-
  A closure that anyone may keep and call: it calls the driver
  back on no other context.
-/
def Fits (H : Stay) : Closure → Prop
  | .applied f _ => H.Fits f
  | .received _ rest => H.Fits rest
  | .loopHead _ _ condition body =>
      H.Fits condition ∧ H.Fits body
  | .cursorLoop _ _ body => H.Fits body
  | .cursorItem _ body => H.Fits body
  | .resumption _ callback => H.Fits callback
  | .posted _ context callback =>
      H.Fits callback ∨
        context = H.context ∧ ∃ k, callback = H.callback k
  | .driverResume d _ => d ≠ H.driver
  | .driverOutcome d _ => d ≠ H.driver
  | _ => True

/-
  What is asked of the past: the task was started on the
  context, it is the driver's and nobody else's, and it
  awaited futures only, by their default awaiters, or handed
  off to them.
-/
structure Admits (s : Session) : Prop where
  started : ∀ context, s.startedIn H.task = some context →
    context = H.context
  defaults : H.driver < s.drivers.size →
    ∀ p ∈ s.awaited H.driver, ∃ f, p.2 = some (f, true)
  owns : H.driver < s.drivers.size →
    s.taskOf H.driver = H.task
  sole : ∀ d < s.drivers.size, s.taskOf d = H.task →
    d = H.driver
  handsFutures : ∀ v, .handsOver v ∈ s.story H.task →
    ∃ f, v = .future f

/- A future that the driver waited for owes it a post. -/
def Owed
    (s : Session)
    (k : Ref) : Prop :=
  ∃ f, (k, some (f, true)) ∈ s.awaited H.driver ∧
    (s.outcome? f).isSome ∧
      (H.context, some k) ∉ s.posted H.driver

/- A closure that may wait for a future. -/
def Watches
    (s : Session)
    (f : Ref)
    (w : Closure) : Prop :=
  H.Fits w ∨
    (∃ k, w = H.summons k ∧
      (k, some (f, true)) ∈ s.awaited H.driver) ∨
    ∃ awaiter, w = .driverOutcome H.driver awaiter

/-
  The books of a stay: the task was entered on its context
  only, its driver has one watcher for each future that it
  waits for, and one post for others at most.
-/
structure Accounts (s : Session) : Prop where
  entered : ∀ context ∈ s.entries H.task, context = H.context
  unborn : s.tasks.size ≤ H.task →
    s.entries H.task = [] ∧ s.Undriven H.task
  distinct : ((s.awaited H.driver).map Prod.fst).Nodup
  numbered : ∀ p ∈ s.awaited H.driver,
    p.1 < s.handedOut H.driver
  posts : ∀ p ∈ s.posted H.driver, ∃ k f,
    p = (H.context, some k) ∧
      (k, some (f, true)) ∈ s.awaited H.driver ∧
        (s.outcome? f).isSome
  once : (s.posted H.driver).Nodup
  watcher : ∀ f, ∀ w ∈ s.watchers f, H.Watches s f w
  apart : ∀ f, (s.watchers f).Pairwise fun w w' =>
    ∀ k, w = H.summons k → w' ≠ H.summons k
  settled : ∀ f, (s.outcome? f).isSome → s.watchers f = []
  waits : ∀ k f, (k, some (f, true)) ∈ s.awaited H.driver →
    s.outcome? f = none → H.summons k ∈ s.watchers f

/- What labels and constructs keep may be kept. -/
structure Stores (s : Session) : Prop where
  code : ∀ l : Nat, ∀ c ∈ (s.labels.getD l default).code,
    H.Fits c
  handler : ∀ i : Nat,
    H.Fits (s.recoveries.getD i default).handler
  compensation : ∀ i : Nat,
    H.Fits (s.cleanups.getD i default).compensation

------------------------------------------------------------
-- Going On
------------------------------------------------------------

/- What a stay asks of the past is only added to. -/
structure Follows (s s' : Session) : Prop where
  entries : s.entries H.task <:+ s'.entries H.task
  awaited : s.awaited H.driver <:+ s'.awaited H.driver
  story : ∀ m ∈ s.story H.task, m ∈ s'.story H.task
  tasks : s.tasks.size ≤ s'.tasks.size
  drivers : s.drivers.size ≤ s'.drivers.size
  taskOf : ∀ d < s.drivers.size, s'.taskOf d = s.taskOf d
  awaiters : ∀ (a : Nat) (cell : AwaiterCell),
    s.awaiters[a]? = some cell → s'.awaiters[a]? = some cell

/-
  While the task is shut, which it is before its code is
  entered, it is not entered.
-/
def Shuts
    (shut : Prop)
    (s s' : Session) : Prop :=
  shut → H.task < s.tasks.size → s.Undriven H.task →
    s'.Undriven H.task ∧ s'.entries H.task = s.entries H.task

/- No more is owed than before, and what is spared still is. -/
structure Repays
    (spared : Ref → Prop)
    (s s' : Session) : Prop where
  repaid : ∀ k, H.Owed s' k → H.Owed s k
  spared : ∀ k, spared k → H.Owed s k → H.Owed s' k

/- Nothing has happened that a stay would account for. -/
structure Same (s s' : Session) : Prop where
  entries : s'.entries H.task = s.entries H.task
  awaited : s'.awaited H.driver = s.awaited H.driver
  posted : s'.posted H.driver = s.posted H.driver
  outcome? : ∀ f, s'.outcome? f = s.outcome? f
  watchers : ∀ f, s'.watchers f = s.watchers f
  story : ∀ m ∈ s.story H.task, m ∈ s'.story H.task
  tasks : s.tasks.size ≤ s'.tasks.size
  drivers : s'.drivers.size = s.drivers.size
  taskOf : ∀ d, s'.taskOf d = s.taskOf d
  handedOut : s.handedOut H.driver ≤ s'.handedOut H.driver
  awaiters : ∀ (a : Nat) (cell : AwaiterCell),
    s.awaiters[a]? = some cell → s'.awaiters[a]? = some cell

section Going

variable {H}
variable {s s' s₁ s₂ s₃ : Session}
variable {spared : Ref → Prop}
variable {shut : Prop}

theorem Follows.refl
    (s : Session) :
    H.Follows s s where
  entries := List.suffix_refl _
  awaited := List.suffix_refl _
  story _ h := h
  tasks := Nat.le_refl _
  drivers := Nat.le_refl _
  taskOf _ _ := rfl
  awaiters _ _ h := h

theorem Follows.trans
    (h : H.Follows s₁ s₂)
    (h' : H.Follows s₂ s₃) :
    H.Follows s₁ s₃ where
  entries := h.entries.trans h'.entries
  awaited := h.awaited.trans h'.awaited
  story m hm := h'.story m (h.story m hm)
  tasks := Nat.le_trans h.tasks h'.tasks
  drivers := Nat.le_trans h.drivers h'.drivers
  taskOf d hd :=
    (h'.taskOf d (Nat.lt_of_lt_of_le hd h.drivers)).trans
      (h.taskOf d hd)
  awaiters a cell hCell :=
    h'.awaiters a cell (h.awaiters a cell hCell)

/- What is admitted was admitted all along. -/
theorem Admits.before
    (h' : H.Admits s')
    (h : H.Follows s s') :
    H.Admits s where
  started context hStarted := by
    refine h'.started context ?_
    rcases h.entries with ⟨later, hEntries⟩
    rw [Session.startedIn, ← hEntries, List.getLast?_append]
    rw [Session.startedIn] at hStarted
    simp [hStarted]
  defaults hd p hp :=
    h'.defaults (Nat.lt_of_lt_of_le hd h.drivers) p
      (h.awaited.subset hp)
  owns hd := by
    rw [← h.taskOf _ hd]
    exact h'.owns (Nat.lt_of_lt_of_le hd h.drivers)
  sole d hd hTask :=
    h'.sole d (Nat.lt_of_lt_of_le hd h.drivers)
      ((h.taskOf d hd).trans hTask)
  handsFutures v hv := h'.handsFutures v (h.story _ hv)

theorem Shuts.refl
    (s : Session) :
    H.Shuts shut s s :=
  fun _ _ h => ⟨h, rfl⟩

theorem Shuts.trans
    (h : H.Shuts shut s₁ s₂)
    (h' : H.Shuts shut s₂ s₃)
    (hTasks : s₁.tasks.size ≤ s₂.tasks.size) :
    H.Shuts shut s₁ s₃ := by
  intro hShut hBorn hUndriven
  rcases h hShut hBorn hUndriven with ⟨hUndriven₂, hSame⟩
  rcases h' hShut (Nat.lt_of_lt_of_le hBorn hTasks) hUndriven₂
    with ⟨hUndriven₃, hSame'⟩
  exact ⟨hUndriven₃, hSame'.trans hSame⟩

theorem Repays.refl
    (s : Session) :
    H.Repays spared s s :=
  ⟨fun _ h => h, fun _ _ h => h⟩

theorem Repays.trans
    (h : H.Repays spared s₁ s₂)
    (h' : H.Repays spared s₂ s₃) :
    H.Repays spared s₁ s₃ where
  repaid k hk := h.repaid k (h'.repaid k hk)
  spared k hSpared hk :=
    h'.spared k hSpared (h.spared k hSpared hk)

theorem Same.refl
    (s : Session) :
    H.Same s s where
  entries := rfl
  awaited := rfl
  posted := rfl
  outcome? _ := rfl
  watchers _ := rfl
  story _ h := h
  tasks := Nat.le_refl _
  drivers := rfl
  taskOf _ := rfl
  handedOut := Nat.le_refl _
  awaiters _ _ h := h

theorem Same.of_kernel
    (h : s.kernel = s'.kernel) :
    H.Same s s' := by
  have hEntries := Session.entries_kernel h H.task
  have hAwaited := Session.awaited_kernel h H.driver
  have hPosted := Session.posted_kernel h H.driver
  cases s
  cases s'
  injection h
  subst_vars
  exact { Same.refl _ with
    entries := hEntries
    awaited := hAwaited
    posted := hPosted }

theorem Same.follows
    (h : H.Same s s') :
    H.Follows s s' where
  entries := h.entries ▸ List.suffix_refl _
  awaited := h.awaited ▸ List.suffix_refl _
  story := h.story
  tasks := h.tasks
  drivers := Nat.le_of_eq h.drivers.symm
  taskOf d _ := h.taskOf d
  awaiters := h.awaiters

theorem Same.undriven
    (h : H.Same s s')
    {t : Ref}
    (ht : s.Undriven t) :
    s'.Undriven t := by
  intro d hd
  rw [h.taskOf]
  exact ht d (h.drivers ▸ hd)

theorem Same.shuts
    (h : H.Same s s') :
    H.Shuts shut s s' :=
  fun _ _ hUndriven => ⟨h.undriven hUndriven, h.entries⟩

theorem Same.owed_iff
    (h : H.Same s s')
    (k : Ref) :
    H.Owed s' k ↔ H.Owed s k := by
  simp only [Owed, h.awaited, h.outcome?, h.posted]

theorem Same.repays
    (h : H.Same s s') :
    H.Repays spared s s' :=
  ⟨fun k => (h.owed_iff k).mp, fun k _ => (h.owed_iff k).mpr⟩

theorem Same.accounts
    (h : H.Same s s')
    (hs : H.Accounts s) :
    H.Accounts s' where
  entered := by
    rw [h.entries]
    exact hs.entered
  unborn hUnborn := by
    rcases hs.unborn (Nat.le_trans h.tasks hUnborn) with
      ⟨hNone, hUndriven⟩
    exact ⟨h.entries.trans hNone, h.undriven hUndriven⟩
  distinct := by
    rw [h.awaited]
    exact hs.distinct
  numbered p hp := by
    rw [h.awaited] at hp
    exact Nat.lt_of_lt_of_le (hs.numbered p hp) h.handedOut
  posts := by
    simp only [h.posted, h.awaited, h.outcome?]
    exact hs.posts
  once := by
    rw [h.posted]
    exact hs.once
  watcher := by
    simp only [h.watchers, Watches, h.awaited]
    exact hs.watcher
  apart := by
    simp only [h.watchers]
    exact hs.apart
  settled := by
    simp only [h.outcome?, h.watchers]
    exact hs.settled
  waits := by
    simp only [h.awaited, h.outcome?, h.watchers]
    exact hs.waits

theorem Stores.of_kernel
    (h : s.kernel = s'.kernel)
    (hs : H.Stores s) :
    H.Stores s' := by
  cases s
  cases s'
  injection h
  subst_vars
  exact { hs with }

/- What may be kept is no callback of the driver. -/
theorem Fits.callback?_eq_none
    {c : Closure}
    (h : H.Fits c) :
    c.callback? H.driver = none := by
  cases c with
  | driverResume d k => exact if_neg h
  | driverOutcome d awaiter => exact if_neg h
  | _ => rfl

/- Posting what may be kept is none of a stay's business. -/
theorem Fits.same
    {c : Closure}
    (h : H.Fits c)
    (s : Session)
    (context : Value) :
    H.Same s (s.withIncident (.posts context c)) :=
  { Same.refl s with
    posted := by
      simp [Session.posted, Session.withIncident,
        Incident.posted?, h.callback?_eq_none] }

/- To post something is to add to the past. -/
theorem follows_posts
    (s : Session)
    (context : Value)
    (c : Closure) :
    H.Follows s (s.withIncident (.posts context c)) :=
  { Follows.refl s with }

end Going

end Stay

------------------------------------------------------------
-- The World of a Stay
------------------------------------------------------------

/-
  The world of a stay, in which some of what is owed may be
  spared for later, and the task may be shut.  Whoever summons
  the driver must owe it that, and has paid by the end.  The
  driver is called back with its context ambient, or with a
  failure.
-/
def Staying
    (H : Stay)
    (spared : Ref → Prop)
    (shut : Prop) : World where
  inv s := H.Admits s → H.Accounts s ∧ H.Stores s
  rel s s' := H.Follows s s' ∧ H.Shuts shut s s' ∧
    (H.Admits s' → H.Repays spared s s')
  fit s c := H.Admits s → H.Fits c
  calls s c args := H.Admits s →
    H.Fits c ∨
    (∃ k, c = H.summons k ∧ H.Owed s k ∧ ¬ spared k) ∨
    (∃ k, c = H.callback k ∧
      (s.ambient = H.context ∨
        (args.headD .undefined).truthy = true)) ∨
    ∃ awaiter, c = .driverOutcome H.driver awaiter
  after _ c _ _ s' := H.Admits s' →
    ∀ k, c = H.summons k → ¬ H.Owed s' k
  loose _ _ := True
  rel_refl s := ⟨.refl s, .refl s, fun _ => .refl s⟩
  rel_trans h h' :=
    ⟨h.1.trans h'.1, h.2.1.trans h'.2.1 h.1.tasks,
      fun hAdmits =>
        (h.2.2 (hAdmits.before h'.1)).trans (h'.2.2 hAdmits)⟩
  fit_mono h hc hAdmits := hc (hAdmits.before h.1)
  loose_mono _ _ := trivial
  fit_default _ _ := trivial
  fit_bridge _ _ _ _ := trivial
  fit_settlePromise _ _ _ _ _ := trivial
  fit_settleFuture _ := ⟨fun _ => trivial, fun _ _ => trivial⟩
  fit_resumption _ h := h
  fit_posted _ _ h hAdmits := .inl (h hAdmits)
  calls_of_fit _ h hAdmits := .inl (h hAdmits)
  inv_kernel h hs hAdmits := by
    have hSame := Stay.Same.of_kernel (H := H) h
    rcases hs (hAdmits.before hSame.follows) with
      ⟨hAccounts, hStores⟩
    exact ⟨hSame.accounts hAccounts, hStores.of_kernel h⟩
  rel_kernel h := by
    have hSame := Stay.Same.of_kernel (H := H) h
    exact ⟨hSame.follows, hSame.shuts, fun _ => hSame.repays⟩
  inv_posts {s c} context hFit hs hAdmits := by
    have hBefore := hAdmits.before
      (Stay.follows_posts s context c)
    have hSame := (hFit hBefore).same s context
    rcases hs hBefore with ⟨hAccounts, hStores⟩
    exact ⟨hSame.accounts hAccounts, { hStores with }⟩
  rel_posts {s c} context hFit _ := by
    refine ⟨Stay.follows_posts s context c,
      fun _ _ h => ⟨h, rfl⟩, fun hAdmits => ?_⟩
    have hBefore := hAdmits.before
      (Stay.follows_posts s context c)
    exact ((hFit hBefore).same s context).repays

namespace Stay

variable {H : Stay}
variable {s s' : Session}
variable {spared : Ref → Prop}
variable {shut : Prop}

/- A change that keeps the books moves along. -/
theorem moves_of
    (hs : (Staying H spared shut).Sound s)
    (hFollows : H.Follows s s')
    (hShuts : H.Shuts shut s s')
    (hBooks : H.Admits s' → H.Accounts s → H.Stores s →
      H.Accounts s' ∧ H.Stores s' ∧ H.Repays spared s s')
    (hStocked : s'.Stocked ((Staying H spared shut).fit s)) :
    (Staying H spared shut).Moves s s' := by
  have hRel : (Staying H spared shut).rel s s' := by
    refine ⟨hFollows, hShuts, fun hAdmits => ?_⟩
    rcases hs.inv (hAdmits.before hFollows) with
      ⟨hAccounts, hStores⟩
    exact (hBooks hAdmits hAccounts hStores).2.2
  refine ⟨⟨fun hAdmits => ?_, hStocked.mono fun _ hc =>
    (Staying H spared shut).fit_mono hRel hc⟩, hRel⟩
  rcases hs.inv (hAdmits.before hFollows) with
    ⟨hAccounts, hStores⟩
  have hBooks' := hBooks hAdmits hAccounts hStores
  exact ⟨hBooks'.1, hBooks'.2.1⟩

/- So does a change that a stay does not account for. -/
theorem Same.moves
    (h : H.Same s s')
    (hs : (Staying H spared shut).Sound s)
    (hStores : H.Admits s → H.Stores s → H.Stores s')
    (hStocked : s'.Stocked ((Staying H spared shut).fit s)) :
    (Staying H spared shut).Moves s s' :=
  moves_of hs h.follows h.shuts
    (fun hAdmits hAccounts hKept => ⟨h.accounts hAccounts,
      hStores (hAdmits.before h.follows) hKept, h.repays⟩)
    hStocked

end Stay

end Resumption

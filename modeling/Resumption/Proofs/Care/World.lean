import Resumption.Proofs.Care.Chains
import Resumption.Proofs.Order.World

/-
  The world of careful code, while some tasks are held: they
  are being worked on by their drivers, and left alone by
  everyone else.

  The driver of a task that is not held waits with all open
  cleanups in the chain that it resumes, or all cleanups of
  the task have been compensated, or an awaiter or a context
  has refused it and the task was ended from outside.

  Main declarations:
    * `BrokenOff`
    * `Session.Suspended`, `Session.Cleared`, `Session.Safe`
    * `Session.Untouched`, `Session.Abides`
    * `Session.Staffed`
    * `Guarded`, `Heeds`
    * `Caring`
    * `Caring.hosts`
-/

namespace Resumption

open Session World

------------------------------------------------------------
-- Stories
------------------------------------------------------------

/- Moments after which a driver resumes its task no more. -/
def Moment.Quits : Moment → Prop
  | .stands state => state.IsFinal
  | .settles _ => True
  | .asks none _ => True
  | _ => False

/- A driver ends its task without an end of its code. -/
def Moment.Breaks : Moment → Prop
  | .unregistered _ => True
  | .refused _ => True
  | _ => False

instance : DecidablePred Moment.Breaks
  | .unregistered _ => isTrue trivial
  | .refused _ => isTrue trivial
  | .told _ => isFalse id
  | .stands _ => isFalse id
  | .suspends _ => isFalse id
  | .jumps _ _ => isFalse id
  | .lands _ => isFalse id
  | .handsOver _ => isFalse id
  | .asks _ _ => isFalse id
  | .concludes => isFalse id
  | .settles _ => isFalse id
  | .answers _ => isFalse id

/-
  A task was broken off: an awaiter threw when it was asked
  to call back, or a context refused the callback, before
  the output was settled.
-/
def BrokenOff (story : List Moment) : Prop :=
  ∃ later m earlier, story = later ++ m :: earlier ∧
    m.Breaks ∧ ∀ outcome, .settles outcome ∉ earlier

/- It was so ever after. -/
theorem BrokenOff.later
    {story story' : List Moment}
    (h : BrokenOff story)
    (hLater : story <:+ story') :
    BrokenOff story' := by
  rcases h with ⟨later, m, earlier, rfl, hBreaks, hOpen⟩
  rcases hLater with ⟨latest, rfl⟩
  exact ⟨latest ++ later, m, earlier,
    (List.append_assoc _ _ _).symm, hBreaks, hOpen⟩

namespace Session

/- What became of a task's cleanups, the latest first. -/
def care
    (s : Session)
    (t : Ref) : List Care :=
  (s.tasks.getD t default).care

/- A task's driver can still resume it. -/
def Ongoing
    (s : Session)
    (t : Ref) : Prop :=
  ∀ m ∈ s.story t, ¬ m.Quits

------------------------------------------------------------
-- Tasks that Are Not Held
------------------------------------------------------------

/-
  What a driver resumes carries all cleanups of its task that
  are open.
-/
structure Primed
    (s : Session)
    (t : Ref)
    (cell : DriverCell) : Prop where
  first : cell.first = none
  carries : ∃ m l code opened F,
    cell.machine = .machine m ∧ cell.current = .label l ∧
      s.Bears m l (some code) ∧
      s.Carries m t code [] opened F ∧
      Care.Leaves (s.care t) opened

/-
  A driver waits, if for anything, to be called back by one
  callback.
-/
structure Suspended
    (s : Session)
    (t : Ref)
    (cell : DriverCell) : Prop where
  ongoing : s.Ongoing t
  single : cell.Single
  primed : s.Primed t cell

/-
  All cleanups of a task were compensated before its output
  was settled for the first time, if it was.
-/
def Cleared
    (s : Session)
    (t : Ref) : Prop :=
  ∃ n earlier, s.care t = List.replicate n .settled ++ earlier ∧
    Care.Leaves earlier [] ∧
    ((∃ outcome, .settles outcome ∈ s.story t) → 0 < n)

/- How a task stands whose driver is not at work. -/
inductive Safe
    (s : Session)
    (t : Ref)
    (cell : DriverCell) : Prop where
  | suspended (h : s.Suspended t cell)
  | cleared (hSpent : cell.Spent) (h : s.Cleared t)
  | broken
      (hState : cell.state ≠ .suspended)
      (h : BrokenOff (s.story t))

/- The driver of a task did nothing. -/
structure Parked
    (t : Ref)
    (s s' : Session) : Prop where
  story : s'.story t = s.story t
  drives : ∀ d cell, s'.Drives t d cell ↔ s.Drives t d cell

/- Nobody did anything to a task, or to a cell of it. -/
structure Untouched
    (t : Ref)
    (s s' : Session) : Prop extends Parked t s s' where
  care : s'.care t = s.care t
  cells : ∀ c, s.Belongs t c → s.SameAt s' c

variable {s s₁ s' : Session}
variable {t : Ref}

theorem Parked.refl
    (t : Ref)
    (s : Session) :
    Parked t s s :=
  ⟨rfl, fun _ _ => Iff.rfl⟩

theorem Parked.trans
    (h : Parked t s s₁)
    (h' : Parked t s₁ s') :
    Parked t s s' :=
  ⟨h'.story.trans h.story, fun d cell =>
    (h'.drives d cell).trans (h.drives d cell)⟩

/- A driver that did nothing can still resume its task. -/
theorem Parked.ongoing
    (h : Parked t s s')
    (hOngoing : s.Ongoing t) :
    s'.Ongoing t := by
  unfold Ongoing
  rw [h.story]
  exact hOngoing

theorem Untouched.refl
    (t : Ref)
    (s : Session) :
    Untouched t s s :=
  ⟨.refl t s, rfl, fun c _ => by cases c <;> rfl⟩

theorem Untouched.trans
    (h : Untouched t s s₁)
    (h' : Untouched t s₁ s') :
    Untouched t s s' where
  toParked := h.toParked.trans h'.toParked
  care := h'.care.trans h.care
  cells c hc := by
    have hSame := h.cells c hc
    exact hSame.trans (h'.cells c ((hSame.belongs_iff t).mpr hc))

theorem Untouched.of_kernel
    (h : s.kernel = s'.kernel)
    (t : Ref) :
    Untouched t s s' := by
  cases s
  cases s'
  injection h
  subst_vars
  exact
    { story := rfl
      drives := fun _ _ => Iff.rfl
      care := rfl
      cells := fun c hc => by
        cases c with
        | cursor i => exact hc.elim
        | _ => rfl }

/-
  A task's code is as it was: its cells, and what became of
  its cleanups.
-/
structure Abides
    (t : Ref)
    (s s' : Session) : Prop where
  sustains : s.Sustains s'
  care : s'.care t = s.care t
  cells : ∀ c, s.Belongs t c → s.SameAt s' c

theorem Abides.trans
    (h : Abides t s s₁)
    (h' : Abides t s₁ s') :
    Abides t s s' where
  sustains := h.sustains.trans h'.sustains
  care := h'.care.trans h.care
  cells c hc := by
    have hSame := h.cells c hc
    exact hSame.trans (h'.cells c ((hSame.belongs_iff t).mpr hc))

theorem Untouched.abides
    (h : Untouched t s s')
    (hSustains : s.Sustains s') :
    Abides t s s' :=
  ⟨hSustains, h.care, h.cells⟩

/- What is resumed is carried for as long as the code abides. -/
theorem Primed.later
    {cell cell' : DriverCell}
    (h : s.Primed t cell)
    (hAbides : Abides t s s')
    (hFirst : cell'.first = cell.first)
    (hMachine : cell'.machine = cell.machine)
    (hCurrent : cell'.current = cell.current) :
    s'.Primed t cell' := by
  rcases h.carries with ⟨m, l, code, opened, F, hMachine',
    hCurrent', hBears, hCarries, hLeaves⟩
  refine ⟨hFirst.trans h.first, m, l, code, opened, F,
    hMachine.trans hMachine', hCurrent.trans hCurrent',
    hAbides.sustains.bears _ _ _ hBears,
    hCarries.later hAbides.sustains fun c hc =>
      hAbides.cells c (hCarries.belongs hc), ?_⟩
  rw [hAbides.care]
  exact hLeaves

/- A task that is driven is there, and has one driver. -/
structure Staffed
    (s : Session)
    (t : Ref) : Prop where
  lt : ∀ d cell, s.Drives t d cell → t < s.tasks.size
  sole : ∀ d d' cell cell',
    s.Drives t d cell → s.Drives t d' cell' → d = d'

theorem Staffed.later
    (h : s.Staffed t)
    (hSustains : s.Sustains s')
    (hDrives : ∀ d cell, s'.Drives t d cell →
      ∃ old, s.Drives t d old) :
    s'.Staffed t where
  lt d cell hCell := by
    rcases hDrives d cell hCell with ⟨old, hOld⟩
    exact Nat.lt_of_lt_of_le (h.lt d old hOld) hSustains.tasks
  sole d d' cell cell' hCell hCell' := by
    rcases hDrives d cell hCell with ⟨old, hOld⟩
    rcases hDrives d' cell' hCell' with ⟨old', hOld'⟩
    exact h.sole d d' old old' hOld hOld'

/- A task that nobody touched stands as it stood. -/
theorem Safe.untouched
    {cell : DriverCell}
    (h : s.Safe t cell)
    (hSustains : s.Sustains s')
    (hUntouched : Untouched t s s') :
    s'.Safe t cell := by
  cases h with
  | suspended h =>
      exact .suspended ⟨hUntouched.ongoing h.ongoing, h.single,
        h.primed.later (hUntouched.abides hSustains) rfl rfl
          rfl⟩
  | cleared hSpent h =>
      refine .cleared hSpent ?_
      unfold Cleared
      rw [hUntouched.care, hUntouched.story]
      exact h
  | broken hState h =>
      refine .broken hState ?_
      rw [hUntouched.story]
      exact h

end Session

------------------------------------------------------------
-- Guarded Sessions
------------------------------------------------------------

/-
  All tasks are safe but those that are held, and those are
  for nobody but their drivers to resume.
-/
structure Guarded
    (held : List Ref)
    (s : Session) : Prop where
  watchers : ∀ f, ∀ w ∈ s.watchers f, w.Careful s
  checks : ∀ m < s.machines.size,
    (s.machines.getD m default).assertions = true
  staffed : ∀ t, s.Staffed t
  entered : ∀ t i, .entered i ∈ s.care t → i < s.cleanups.size
  handsOver : ∀ t v, .handsOver v ∈ s.story t →
    ∃ f, v = .future f
  safe : ∀ t d cell, t ∉ held → s.Drives t d cell →
    s.Safe t cell
  held : ∀ t ∈ held, t < s.tasks.size ∧ s.Ongoing t ∧
    ∀ d cell, s.Drives t d cell → cell.Spent

/- What everyone leaves of a session, and of held tasks. -/
structure Heeds
    (held : List Ref)
    (s s' : Session) : Prop where
  sustains : s.Sustains s'
  task : s'.task = s.task
  held : ∀ t ∈ held, Untouched t s s'

section Guarded

variable {held : List Ref}
variable {s s₁ s' : Session}

theorem Heeds.refl
    (held : List Ref)
    (s : Session) :
    Heeds held s s :=
  ⟨.refl s, rfl, fun t _ => .refl t s⟩

theorem Heeds.trans
    (h : Heeds held s s₁)
    (h' : Heeds held s₁ s') :
    Heeds held s s' :=
  ⟨h.sustains.trans h'.sustains, h'.task.trans h.task, fun t ht =>
    (h.held t ht).trans (h'.held t ht)⟩

/-
  A session remains guarded where no driver did anything, and
  nobody touched a task that is not held.
-/
theorem Guarded.onward
    (h : Guarded held s)
    (hSustains : s.Sustains s')
    (hParked : ∀ t, Parked t s s')
    (hFree : ∀ t, t ∉ held → Untouched t s s')
    (hWatchers : ∀ f, ∀ w ∈ s'.watchers f, w.Careful s')
    (hChecks : ∀ m < s'.machines.size,
      (s'.machines.getD m default).assertions = true)
    (hEntered : ∀ t i, .entered i ∈ s'.care t →
      i < s'.cleanups.size) :
    Guarded held s' where
  watchers := hWatchers
  checks := hChecks
  staffed t := (h.staffed t).later hSustains fun d cell hCell =>
    ⟨cell, ((hParked t).drives d cell).mp hCell⟩
  entered := hEntered
  handsOver t v hMem :=
    h.handsOver t v ((hParked t).story ▸ hMem)
  safe t d cell hHeld hDrives :=
    (h.safe t d cell hHeld
      (((hParked t).drives d cell).mp hDrives)).untouched
        hSustains (hFree t hHeld)
  held t ht := by
    rcases h.held t ht with ⟨hLt, hOngoing, hSpent⟩
    exact ⟨Nat.lt_of_lt_of_le hLt hSustains.tasks,
      (hParked t).ongoing hOngoing, fun d cell hDrives =>
        hSpent d cell (((hParked t).drives d cell).mp hDrives)⟩

/- Sessions with the same kernel are guarded alike. -/
theorem Guarded.of_kernel
    (hKernel : s.kernel = s'.kernel)
    (h : Guarded held s) :
    Guarded held s' := by
  have hSustains := Sustains.of_kernel hKernel
  have hUntouched := Untouched.of_kernel hKernel
  have hFutures : s.futures = s'.futures :=
    congrArg (·.futures) hKernel
  have hMachines : s.machines = s'.machines :=
    congrArg (·.machines) hKernel
  have hCleanups : s.cleanups = s'.cleanups :=
    congrArg (·.cleanups) hKernel
  refine h.onward hSustains (fun t => (hUntouched t).toParked)
    (fun t _ => hUntouched t) (fun f w hw => ?_)
    (hMachines ▸ h.checks) (fun t i hMem => ?_)
  · refine hSustains.careful (h.watchers f w ?_)
    unfold Session.watchers at hw ⊢
    rwa [hFutures]
  · rw [(hUntouched t).care] at hMem
    exact hCleanups ▸ h.entered t i hMem

end Guarded

------------------------------------------------------------
-- The World
------------------------------------------------------------

/- The world of careful code, while some tasks are held. -/
def Caring (held : List Ref) : World where
  inv := Guarded held
  rel := Heeds held
  fit s c := c.Careful s
  calls s c _ := c.Careful s
  after _ _ _ _ _ := True
  loose _ _ := True
  rel_refl := .refl held
  rel_trans h h' := h.trans h'
  fit_mono h hc := h.sustains.careful hc
  loose_mono _ _ := trivial
  fit_default _ _ := .done
  fit_bridge _ _ _ := trivial
  fit_settlePromise _ _ _ _ := trivial
  fit_settleFuture _ := Iff.rfl
  fit_resumption _ h := h
  fit_posted _ _ h := h
  calls_of_fit _ h := h
  inv_kernel := Guarded.of_kernel
  rel_kernel h :=
    ⟨.of_kernel h, (congrArg (·.task) h).symm,
      fun t _ => .of_kernel h t⟩
  inv_posts {s c} context _ h :=
    have hSustains :
        s.Sustains (s.withIncident (.posts context c)) :=
      { Sustains.refl s with }
    h.onward hSustains (fun t => { Parked.refl t s with })
      (fun t _ => { Untouched.refl t s with })
      (fun f w hw => hSustains.careful (h.watchers f w hw))
      h.checks h.entered
  rel_posts {s _} _ _ _ :=
    ⟨{ Sustains.refl s with }, rfl,
      fun t _ => { Untouched.refl t s with }⟩

namespace Caring

variable {held : List Ref}
variable {s s' : Session}
variable {caller : Caller}

/- What happens to no task is sound. -/
theorem sound_onward
    (hs : (Caring held).Sound s)
    (hSustains : s.Sustains s')
    (hUntouched : ∀ t, Untouched t s s')
    (hWatchers : ∀ f, ∀ w ∈ s'.watchers f, w.Careful s')
    (hChecks : ∀ m < s'.machines.size,
      (s'.machines.getD m default).assertions = true)
    (hCleanups : s.cleanups.size ≤ s'.cleanups.size)
    (hStocked : s'.Stocked ((Caring held).fit s)) :
    (Caring held).Sound s' where
  inv := hs.inv.onward hSustains
    (fun t => (hUntouched t).toParked)
    (fun t _ => hUntouched t) hWatchers hChecks
    fun t i hMem => Nat.lt_of_lt_of_le
      (hs.inv.entered t i ((hUntouched t).care ▸ hMem))
      hCleanups
  stocked := hStocked.mono fun _ hc => hSustains.careful hc

/- It moves along while the task at hand is the same. -/
theorem moves
    (hs : (Caring held).Sound s)
    (hSustains : s.Sustains s')
    (hTask : s'.task = s.task)
    (hUntouched : ∀ t, Untouched t s s')
    (hWatchers : ∀ f, ∀ w ∈ s'.watchers f, w.Careful s')
    (hChecks : ∀ m < s'.machines.size,
      (s'.machines.getD m default).assertions = true)
    (hCleanups : s.cleanups.size ≤ s'.cleanups.size)
    (hStocked : s'.Stocked ((Caring held).fit s)) :
    (Caring held).Moves s s' where
  sound := sound_onward hs hSustains hUntouched hWatchers hChecks
    hCleanups hStocked
  rel := ⟨hSustains, hTask, fun t _ => hUntouched t⟩

------------------------------------------------------------
-- Futures
------------------------------------------------------------

/- Futures are changed, and watched by what anyone may call. -/
theorem moves_futures
    (hs : (Caring held).Sound s)
    {futures : Array FutureCell}
    (h : ∀ f, ∀ w ∈ (futures.getD f default).watchers.toList,
      w.Careful s) :
    (Caring held).Moves s { s with futures := futures } := by
  have hSustains : s.Sustains { s with futures := futures } :=
    { Sustains.refl s with }
  exact moves hs hSustains rfl
    (fun t => { Untouched.refl t s with })
    (fun f w hw => hSustains.careful (h f w hw))
    hs.inv.checks (Nat.le_refl _) { hs.stocked with }

/- Everyone who waits may be told. -/
theorem keeps_notify
    (hc : (Caring held).Serves caller)
    (hs : (Caring held).Sound s)
    (watchers : List Closure)
    (hWatchers : ∀ w ∈ watchers, w.Careful s)
    (failure : Option Value) :
    (Caring held).Keeps
      (Future.notify caller watchers failure) s := by
  induction watchers generalizing failure s with
  | nil => exact keeps_pure.mpr (.refl hs)
  | cons w rest ih =>
      unfold Future.notify
      have hCall : (Caring held).Keeps (caller.call w []) s :=
        hc.call hs (hWatchers w List.mem_cons_self) []
      refine hCall.attempt.bind fun r s₁ h₁ => ?_
      have hRest : ∀ w ∈ rest, w.Careful s₁ := fun w hw =>
        h₁.fit (hWatchers w (List.mem_cons_of_mem _ hw))
      cases r with
      | ok v => exact ih h₁.sound hRest failure
      | error e => exact ih h₁.sound hRest (failure <|> some e)

theorem keeps_settle
    (hc : (Caring held).Serves caller)
    (hs : (Caring held).Sound s)
    (f : Ref)
    (outcome : Outcome) :
    (Caring held).Keeps (Future.settle caller f outcome) s := by
  unfold Future.settle
  refine keeps_row_bind.mpr ?_
  split
  · exact keeps_pure.mpr (.refl hs)
  · refine (keeps_freshStamp hs).bind fun id s₁ h₁ => ?_
    have hOld : ∀ w ∈ s.watchers f, w.Careful s₁ :=
      fun w hw => h₁.fit (hs.inv.watchers f w hw)
    have hLeft : ∀ f', ∀ w ∈ ((s₁.futures.modify f fun c =>
        { c with
          settlement := some ⟨id, outcome⟩
          watchers := #[] }).getD f' default).watchers.toList,
        w.Careful s₁ := by
      intro f' w hw
      rw [getD_modify] at hw
      split at hw
      · simp at hw
      · exact h₁.sound.inv.watchers f' w hw
    refine Keeps.bind (keeps_alter (moves_futures h₁.sound
      hLeft)) fun _ s₂ h₂ => ?_
    refine (keeps_notify hc h₂.sound _
      (fun w hw => h₂.fit (hOld w hw)) none).bind
        fun failure s₃ h₃ => ?_
    split
    · exact keeps_raise.mpr (.refl h₃.sound)
    · exact keeps_pure.mpr (.refl h₃.sound)

theorem keeps_watch
    (hc : (Caring held).Serves caller)
    (hs : (Caring held).Sound s)
    (f : Ref)
    {w : Closure}
    (hw : w.Careful s) :
    (Caring held).Keeps (Future.watch caller f w) s := by
  unfold Future.watch
  refine (Hosts.keeps_settlement? hs f).bind fun o s₁ h₁ => ?_
  have hw₁ : w.Careful s₁ := h₁.fit hw
  split
  · exact (hc.call h₁.sound hw₁ []).discard
  · refine keeps_alter (moves_futures h₁.sound
      fun f' w' hw' => ?_)
    rw [getD_modify] at hw'
    split at hw'
    · rcases Array.mem_push.mp (Array.mem_toList_iff.mp hw')
        with hOld | rfl
      · exact h₁.sound.inv.watchers f' w'
          (Array.mem_toList_iff.mpr hOld)
      · exact hw₁
    · exact h₁.sound.inv.watchers f' w' hw'

/- What happens outside of tasks and futures moves along. -/
theorem moves_aside
    (hs : (Caring held).Sound s)
    (hSustains : s.Sustains s')
    (hTask : s'.task = s.task)
    (hUntouched : ∀ t, Untouched t s s')
    (hFutures : s'.futures = s.futures)
    (hMachines : s'.machines = s.machines)
    (hCleanups : s'.cleanups = s.cleanups)
    (hStocked : s'.Stocked ((Caring held).fit s)) :
    (Caring held).Moves s s' := by
  refine moves hs hSustains hTask hUntouched (fun f w hw => ?_)
    (hMachines ▸ hs.inv.checks)
    (Nat.le_of_eq (congrArg _ hCleanups.symm)) hStocked
  refine hSustains.careful (hs.inv.watchers f w ?_)
  unfold Session.watchers at hw ⊢
  rwa [hFutures] at hw

/- Futures are hosted. -/
theorem hosts
    (hc : (Caring held).Serves caller) :
    (Caring held).Hosts caller where
  newFuture {s} settlement hs := by
    refine moves_futures hs fun f w hw => ?_
    rw [getD_push] at hw
    split at hw
    · simp at hw
    · exact hs.inv.watchers f w hw
  newFuture_loose _ _ := trivial
  setPromise {s} f p hs := by
    refine moves_futures hs fun f' w hw => ?_
    rw [getD_modify] at hw
    split at hw <;> exact hs.inv.watchers f' w hw
  newAwaiter {s cell} hs hFits := by
    refine moves_aside hs { Sustains.refl s with } rfl
      (fun t => { Untouched.refl t s with }) rfl rfl rfl
      { hs.stocked with awaiters := fun r => ?_ }
    exact forall_getD_push (AwaiterCell.Fits _)
      hs.stocked.awaiters hFits r
  newDeferred {s _} hs _ :=
    moves_aside hs { Sustains.refl s with } rfl
      (fun t => { Untouched.refl t s with }) rfl rfl rfl
      { hs.stocked with }
  newControlled {s _} _ hs _ :=
    moves_aside hs { Sustains.refl s with } rfl
      (fun t => { Untouched.refl t s with }) rfl rfl rfl
      { hs.stocked with }
  countControlled {s} _ _ hs _ :=
    moves_aside hs { Sustains.refl s with } rfl
      (fun t => { Untouched.refl t s with }) rfl rfl rfl
      { hs.stocked with }
  deferred_loose _ _ := trivial
  controlled_loose _ _ := trivial
  settle outcome hs _ := keeps_settle hc hs _ outcome
  watch hs hw := keeps_watch hc hs _ hw

end Caring

end Resumption

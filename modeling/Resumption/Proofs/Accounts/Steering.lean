import Resumption.Proofs.Accounts.Courses
import Resumption.Proofs.Network.Turns
import Resumption.Proofs.Veil.Requests

/-
  Steering: what a driver does about itself, and how often it
  has told that its task suspends, and that it resumes.

  Whoever listens only records.

  Main declarations:
    * `Session.suspensions`, `Session.resumptions`
    * `Session.Passes`, `Session.Steers`
    * `Run.Answers`
    * `Emitter.Discreet`, `Emitter.answers_emit`
    * `DriverCell.Tends`, `DriverCell.Dozes`
-/

namespace Resumption

open Run

------------------------------------------------------------
-- Suspensions and Resumptions
------------------------------------------------------------

/- Does a moment tell that the task suspends? -/
def Moment.suspending : Moment → Bool
  | .told (.suspend _) => true
  | _ => false

/- Does it tell that the task resumes? -/
def Moment.resuming : Moment → Bool
  | .told (.resume _) => true
  | _ => false

/- How often it was told that a task suspends. -/
def Session.suspensions
    (s : Session)
    (t : Ref) : Nat :=
  (s.story t).countP Moment.suspending

/- How often it was told that a task resumes. -/
def Session.resumptions
    (s : Session)
    (t : Ref) : Nat :=
  (s.story t).countP Moment.resuming

theorem Session.story_of_stories
    {s s' : Session}
    (h : s'.stories = s.stories)
    (t : Ref) :
    s'.story t = s.story t := by
  have hStory : ∀ s : Session,
      s.story t = s.stories.getD t [] := by
    intro s
    simp only [story, stories, Array.getD_eq_getD_getElem?,
      Array.getElem?_map]
    cases s.tasks[t]? <;> rfl
  rw [hStory, h, ← hStory]

/- One more moment was told of. -/
theorem Session.story_recorded
    {s : Session}
    {t : Ref}
    (ht : t < s.tasks.size)
    (m : Moment) :
    (s.recorded t m).story t = m :: s.story t := by
  simp only [story, recorded, getD_modify, ht, and_self,
    if_true]

theorem List.countP_cons_toNat
    {α : Type}
    (p : α → Bool)
    (a : α)
    (as : List α) :
    (a :: as).countP p = as.countP p + (p a).toNat := by
  rw [List.countP_cons]
  cases p a <;> rfl

------------------------------------------------------------
-- Passing
------------------------------------------------------------

/-
  Nothing changed but drivers, what is remembered of the past
  or logged, and which task runs; so often was it told that a
  task suspends and resumes.
-/
structure Session.Passes
    (t : Ref)
    (n k : Nat)
    (s s' : Session) : Prop where
  aside : ∃ events chronicle task home log microtasks drivers
      tasks,
    s' = { s with
      events := events
      chronicle := chronicle
      task := task
      home := home
      log := log
      microtasks := microtasks
      drivers := drivers
      tasks := tasks }
  size : s'.tasks.size = s.tasks.size
  suspended : s'.suspensions t = s.suspensions t + n
  resumed : s'.resumptions t = s.resumptions t + k

/- So it is, and a driver is as it is said to be. -/
structure Session.Steers
    (t d : Ref)
    (cell : DriverCell)
    (n k : Nat)
    (s s' : Session) : Prop
    extends Session.Passes t n k s s' where
  cell : s'.drivers[d]? = some cell

variable {ν : Type}
variable {S : Supply ν}
variable {t d f : Ref}
variable {cell cell' : DriverCell}
variable {n n' k k' : Nat}
variable {s s₁ s' : Session}

namespace Session.Passes

theorem trans
    (h : s.Passes t n k s₁)
    (h' : s₁.Passes t n' k' s') :
    s.Passes t (n + n') (k + k') s' where
  aside := by
    rcases h.aside with ⟨_, _, _, _, _, _, _, _, rfl⟩
    rcases h'.aside with ⟨_, _, _, _, _, _, _, _, rfl⟩
    exact ⟨_, _, _, _, _, _, _, _, rfl⟩
  size := h'.size.trans h.size
  suspended := by rw [h'.suspended, h.suspended, Nat.add_assoc]
  resumed := by rw [h'.resumed, h.resumed, Nat.add_assoc]

/- What leaves the tasks alone tells of nothing. -/
theorem of_tasks
    (hAside : ∃ events chronicle task home log microtasks
        drivers,
      s' = { s with
        events := events
        chronicle := chronicle
        task := task
        home := home
        log := log
        microtasks := microtasks
        drivers := drivers }) :
    s.Passes t 0 0 s' := by
  rcases hAside with ⟨_, _, _, _, _, _, _, rfl⟩
  exact ⟨⟨_, _, _, _, _, _, _, _, rfl⟩, rfl, rfl, rfl⟩

theorem recorded
    (ht : t < s.tasks.size)
    (m : Moment) :
    s.Passes t m.suspending.toNat m.resuming.toNat
      (s.recorded t m) where
  aside := ⟨_, _, _, _, _, _, _, _, rfl⟩
  size := by simp [Session.recorded]
  suspended := by
    rw [suspensions, story_recorded ht, List.countP_cons_toNat]
    rfl
  resumed := by
    rw [resumptions, story_recorded ht, List.countP_cons_toNat]
    rfl

theorem futures
    (h : s.Passes t n k s') :
    s'.futures = s.futures := by
  rcases h.aside with ⟨_, _, _, _, _, _, _, _, rfl⟩
  rfl

theorem controlled
    (h : s.Passes t n k s') :
    s'.controlled = s.controlled := by
  rcases h.aside with ⟨_, _, _, _, _, _, _, _, rfl⟩
  rfl

theorem outcome?_eq
    (h : s.Passes t n k s')
    (f : Ref) :
    s'.outcome? f = s.outcome? f := by
  rw [outcome?, h.futures]
  rfl

theorem watchers_eq
    (h : s.Passes t n k s')
    (f : Ref) :
    s'.watchers f = s.watchers f := by
  rw [watchers, h.futures]
  rfl

theorem retains
    {kept : Cell → Prop}
    (h : s.Passes t n k s') :
    Session.Retains kept s s' := by
  rcases h.aside with ⟨_, _, _, _, _, _, _, _, rfl⟩
  exact
    { Session.Retains.refl kept s with
      same := fun c _ _ => by cases c <;> rfl }

theorem ready
    (h : s.Passes t n k s')
    (hs : S.Ready s) :
    S.Ready s' := by
  rcases h.aside with ⟨_, _, _, _, _, _, _, _, rfl⟩
  exact { hs with }

theorem view_eq
    (h : s.Passes t n k s') :
    S.view s' = S.view s := by
  rcases h.aside with ⟨_, _, _, _, _, _, _, _, rfl⟩
  rfl

end Session.Passes

namespace Session.Steers

theorem trans
    (h : s.Steers t d cell n k s₁)
    (h' : s₁.Steers t d cell' n' k' s') :
    s.Steers t d cell' (n + n') (k + k') s' :=
  ⟨h.toPasses.trans h'.toPasses, h'.cell⟩

end Session.Steers

------------------------------------------------------------
-- Runs That Answer
------------------------------------------------------------

namespace Run

variable {α β : Type}

/- Whatever a run ends in, it answers so, in such a session. -/
def Answers
    (act : Run α)
    (s : Session)
    (a : α)
    (P : Session → Prop) : Prop :=
  act.Ensures s fun r s' => r = .ok a ∧ P s'

variable {act : Run α}
variable {a : α}
variable {P : Session → Prop}

theorem Answers.of_eq
    (h : act s = some (.ok a, s'))
    (hP : P s') :
    act.Answers s a P := by
  intro r s₁ hRun
  cases h.symm.trans hRun
  exact ⟨rfl, hP⟩

theorem Answers.mono
    {P' : Session → Prop}
    (h : act.Answers s a P)
    (hP : ∀ s', P s' → P' s') :
    act.Answers s a P' :=
  Ensures.mono h fun _ s' hBoth => ⟨hBoth.1, hP s' hBoth.2⟩

/- What comes next comes after the answer. -/
theorem Answers.then
    {rest : α → Run β}
    {post : Except Value β → Session → Prop}
    (h : act.Answers s a P)
    (hRest : ∀ s', P s' → (rest a).Ensures s' post) :
    (act >>= rest).Ensures s post := by
  refine Ensures.bind (Ensures.mono h ?_)
  rintro _ s₁ ⟨rfl, hP⟩
  exact hRest s₁ hP

end Run

------------------------------------------------------------
-- Listening
------------------------------------------------------------

/- Whoever hears of the events only records them, or throws. -/
def Emitter.Discreet (em : Emitter) : Prop :=
  ∀ listener, em.listener = some listener →
    ∃ code, listener = .client code ∧
      ∀ args, (code args).Records

/- Events are noted; a listener leaves nothing but records. -/
theorem Emitter.answers_emit
    {em : Emitter}
    {rounds depth : Nat}
    (hDiscreet : em.Discreet)
    (ht : em.task < s.tasks.size)
    (event : Event) :
    (em.emit (.ofDepth rounds depth) event).Answers s () fun s' =>
      s.Passes em.task (Moment.told event).suspending.toNat
          (Moment.told event).resuming.toNat s' ∧
        s'.drivers = s.drivers := by
  have hNoted := Session.Passes.recorded ht (.told event)
  refine (Answers.of_eq (Run.note_eq em.task (.told event) s)
    rfl).then fun s₁ hs₁ => ?_
  subst hs₁
  unfold tell
  cases hListener : em.listener with
  | none => exact ensures_pure.mpr ⟨rfl, hNoted, rfl⟩
  | some listener =>
      rcases hDiscreet listener hListener with
        ⟨code, rfl, hRecords⟩
      refine Ensures.bind (ensures_modifyGet.mpr ?_)
      refine Ensures.bind (ensures_attempt.mpr ?_)
      have hServes : Veil.Serves ⟨false, none, true⟩
          (.ofDepth rounds depth) (.ofDepth rounds depth) :=
        Veil.serves_ofDepth (fun h => by cases h) depth
      have hMurmurs := fun args =>
        hServes.records code args (hRecords args)
      refine ((hMurmurs _).ensures_aside _).mono ?_
      rintro r _ ⟨-, _, _, _, rfl⟩
      refine ensures_modify_bind.mpr ?_
      cases r with
      | ok v =>
          exact ensures_pure.mpr ⟨rfl, hNoted.trans
            (.of_tasks ⟨_, _, _, _, _, _, _, rfl⟩), rfl⟩
      | error e =>
          exact ensures_modify.mpr ⟨rfl, hNoted.trans
            (.of_tasks ⟨_, _, _, _, _, _, _, rfl⟩), rfl⟩

/- A driver of a task that nobody interferes with. -/
structure DriverCell.Tends
    (cell : DriverCell)
    (t : Ref) : Prop where
  task : cell.emitter.task = t
  discreet : cell.emitter.Discreet

/-
  A driver that, called back, is to jump to a label on a
  machine, and has an output to settle.
-/
structure DriverCell.Dozes
    (cell : DriverCell)
    (m l callback out : Ref) : Prop
    extends cell.Sleeps l callback where
  machine : cell.machine = .machine m
  first : cell.first = none
  output : cell.output = some out

/- Where a driver stands once it is called back. -/
def DriverCell.woken
    (cell : DriverCell)
    (callback : Ref) : DriverCell :=
  { cell with
    fired := cell.fired.setIfInBounds callback true
    state := .running }

namespace Driver

------------------------------------------------------------
-- What a Driver Does about Itself
------------------------------------------------------------

variable {rounds depth : Nat}

theorem answers_row
    (h : s.drivers[d]? = some cell) :
    (Table.drivers.row d).Answers s cell (s = ·) :=
  .of_eq (row_eq h) rfl

theorem answers_alter
    (h : s.drivers[d]? = some cell)
    (t : Ref)
    (g : DriverCell → DriverCell) :
    (Table.drivers.alter d g).Answers s ()
      (s.Steers t d (g cell) 0 0) := by
  refine .of_eq rfl ⟨.of_tasks ⟨_, _, _, _, _, _, _, rfl⟩, ?_⟩
  exact (altered_steers h g).cell

theorem answers_note
    (h : s.drivers[d]? = some cell)
    (hTends : cell.Tends t)
    (ht : t < s.tasks.size)
    (m : Moment) :
    (note d m).Answers s ()
      (s.Steers t d cell m.suspending.toNat
        m.resuming.toNat) := by
  have hNote : note d m s = some (.ok (), s.recorded t m) := by
    rw [← hTends.task]
    exact bind_of_end (row_eq h)
  exact .of_eq hNote ⟨.recorded ht m, h⟩

theorem answers_setState
    (h : s.drivers[d]? = some cell)
    (hTends : cell.Tends t)
    (ht : t < s.tasks.size)
    (state : DriverState) :
    (setState d state).Answers s ()
      (s.Steers t d { cell with state := state } 0 0) := by
  refine (answers_note h hTends ht _).then fun s₁ hNoted => ?_
  exact (answers_alter hNoted.cell t _).mono fun s' hAltered =>
    hNoted.trans hAltered

theorem answers_emit
    (h : s.drivers[d]? = some cell)
    (hTends : cell.Tends t)
    (ht : t < s.tasks.size)
    (event : Event) :
    (emit (.ofDepth rounds depth) d event).Answers s ()
      (s.Steers t d cell (Moment.told event).suspending.toNat
        (Moment.told event).resuming.toNat) := by
  refine (answers_row h).then ?_
  rintro _ rfl
  refine (Emitter.answers_emit hTends.discreet
    (hTends.task ▸ ht) event).mono ?_
  rintro s' ⟨hPasses, hDrivers⟩
  exact ⟨hTends.task ▸ hPasses, hDrivers ▸ h⟩

end Driver

end Resumption

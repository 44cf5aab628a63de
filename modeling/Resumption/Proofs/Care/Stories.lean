import Resumption.Proofs.Care.Brackets
import Resumption.Proofs.Task.Launch

/-
  What drivers change of their tasks, and of themselves: all
  other tasks are left as they are.

  A driver may hold its task, and release it when the task is
  safe again.

  Main declarations:
    * `Session.Revises`
    * `Session.Revises.noted`, `Session.Revises.reseated`
    * `Caring.revised`
    * `Holding`, `Holding.revised`, `Holding.release`
-/

namespace Resumption

open Session World

variable {held held' : List Ref}
variable {s s₁ s' : Session}
variable {t t' d : Ref}
variable {m : Moment}
variable {cell : DriverCell}

------------------------------------------------------------
-- Tasks Left Alone
------------------------------------------------------------

theorem Session.care_noted
    (s : Session)
    (t t' : Ref)
    (m : Moment) :
    (s.noted t m).care t' = s.care t' := by
  simp only [care, noted, withTasks, getD_modify]
  split <;> rfl

theorem Session.care_tended
    (t t' : Nat)
    (c : Care) :
    (s.tended t c).care t' =
      if t = t' ∧ t' < s.tasks.size then c :: s.care t'
      else s.care t' := by
  simp only [care, tended, withTasks, getD_modify]
  split <;> rfl

/- A driver that changes drives the task that it drove. -/
theorem Session.drives_altered
    {g : DriverCell → DriverCell}
    (hEmitter : ∀ cell, (g cell).emitter = cell.emitter)
    {d' : Ref}
    {cell' : DriverCell} :
    (s.reseated d g).Drives t' d' cell' ↔
      ∃ old, s.Drives t' d' old ∧
        cell' = if d = d' then g old else old := by
  unfold Session.Drives
  rw [getElem?_reseated]
  constructor
  · rintro ⟨hCell, rfl⟩
    split at hCell
    · rcases Option.map_eq_some_iff.mp hCell with
        ⟨old, hOld, rfl⟩
      exact ⟨old, ⟨hOld, hEmitter old ▸ rfl⟩, by simp [*]⟩
    · exact ⟨cell', ⟨hCell, rfl⟩, by simp [*]⟩
  · rintro ⟨old, ⟨hOld, rfl⟩, rfl⟩
    split
    · simp [hOld, hEmitter]
    · simp [hOld]

theorem Session.Drives.altered
    {g : DriverCell → DriverCell}
    (h : s.Drives t d cell)
    (hEmitter : ∀ cell, (g cell).emitter = cell.emitter) :
    (s.reseated d g).Drives t d (g cell) :=
  (drives_altered hEmitter).mpr ⟨cell, h, (if_pos rfl).symm⟩

/-
  A session in which a driver's task and the driver changed,
  and no other task, machine or cell did.
-/
structure Session.Revises
    (t : Ref)
    (s s' : Session) : Prop where
  sustains : s.Sustains s'
  task : s'.task = s.task
  others : ∀ t', t' ≠ t → Untouched t' s s'
  cells : ∀ c, s.SameAt s' c
  staffed : s.Staffed t → s'.Staffed t
  futures : s'.futures = s.futures
  machines : s'.machines = s.machines
  cleanups : s'.cleanups = s.cleanups
  stocked : s.Stocked (Closure.Careful s) →
    s'.Stocked (Closure.Careful s')

namespace Session.Revises

theorem trans
    (h : s.Revises t s₁)
    (h' : s₁.Revises t s') :
    s.Revises t s' where
  sustains := h.sustains.trans h'.sustains
  task := h'.task.trans h.task
  others t' ht' := (h.others t' ht').trans (h'.others t' ht')
  cells c := (h.cells c).trans (h'.cells c)
  staffed hStaffed := h'.staffed (h.staffed hStaffed)
  futures := h'.futures.trans h.futures
  machines := h'.machines.trans h.machines
  cleanups := h'.cleanups.trans h.cleanups
  stocked hs := h'.stocked (h.stocked hs)

/- The code abides if nothing is said of its cleanups. -/
theorem abides
    (h : s.Revises t s')
    (hCare : s'.care t = s.care t) :
    Abides t s s' :=
  ⟨h.sustains, hCare, fun c _ => h.cells c⟩

theorem refl
    (t : Ref)
    (s : Session) :
    s.Revises t s where
  sustains := .refl s
  task := rfl
  others t' _ := .refl t' s
  cells c := by cases c <;> rfl
  staffed := id
  futures := rfl
  machines := rfl
  cleanups := rfl
  stocked := id

/- Something else is remembered. -/
theorem withIncident
    (s : Session)
    (t : Ref)
    (i : Incident) :
    s.Revises t (s.withIncident i) :=
  have hSustains : s.Sustains (s.withIncident i) :=
    { Sustains.refl s with }
  { Revises.refl t s with
    sustains := hSustains
    others := fun t' _ => { Untouched.refl t' s with }
    staffed := fun h => { h with }
    stocked := fun hs => Session.Stocked.mono { hs with }
      fun _ => hSustains.careful }

/- What is kept of a task changes. -/
private theorem recorded
    {tasks : Array TaskCell}
    (hSustains : s.Sustains (s.withTasks tasks))
    (hOthers : ∀ t' ≠ t, tasks.getD t' default =
      s.tasks.getD t' default) :
    s.Revises t (s.withTasks tasks) :=
  { Revises.refl t s with
    sustains := hSustains
    others := fun t' ht' =>
      { Untouched.refl t' s with
        story := congrArg (·.story) (hOthers t' ht')
        care := congrArg (·.care) (hOthers t' ht') }
    staffed := fun h => h.later hSustains fun _ cell hCell =>
      ⟨cell, hCell⟩
    stocked := fun hs => Session.Stocked.mono { hs with }
      fun _ => hSustains.careful }

private theorem getD_modify_ne
    {t' : Nat}
    {t : Nat}
    (h : t' ≠ t)
    (f : TaskCell → TaskCell) :
    (s.tasks.modify t f).getD t' default =
      s.tasks.getD t' default := by
  rw [getD_modify, if_neg fun hSame => h hSame.1.symm]

/- A moment is noted of a task. -/
theorem noted
    (s : Session)
    (t : Ref)
    (m : Moment) :
    s.Revises t (s.noted t m) := by
  refine recorded ?_ fun t' ht' => getD_modify_ne ht' _
  refine
    { Sustains.refl s with
      tasks := by simp [withTasks]
      stories := fun t' => ?_ }
  change _ <:+ (s.noted t m).story t'
  rw [story_noted]
  split
  · exact List.suffix_cons _ _
  · exact List.suffix_rfl

/- Something is noted of what became of its cleanups. -/
theorem tended
    (s : Session)
    (t : Ref)
    (c : Care) :
    s.Revises t (s.tended t c) := by
  refine recorded ?_ fun t' ht' => getD_modify_ne ht' _
  refine
    { Sustains.refl s with
      tasks := by simp [withTasks]
      stories := fun t' => ?_ }
  exact (story_tended t t' c).symm ▸ List.suffix_rfl

/- A task is begun. -/
theorem tasked
    (s : Session) :
    s.Revises s.tasks.size s.tasked := by
  refine recorded ?_ fun t' ht' => ?_
  · refine
      { Sustains.refl s with
        tasks := by simp [withTasks]
        stories := fun t' => ?_ }
    exact (story_tasked t').symm ▸ List.suffix_rfl
  · rw [getD_push, if_neg ht']

/- Its driver changes. -/
theorem reseated
    {g : DriverCell → DriverCell}
    (hDrives : s.Drives t d cell)
    (hEmitter : ∀ cell, (g cell).emitter = cell.emitter) :
    s.Revises t (s.reseated d g) := by
  have hSustains : s.Sustains (s.reseated d g) :=
    { Sustains.refl s with
      drivers := fun d' old hOld => by
        rw [getElem?_reseated]
        split
        · exact ⟨g old, by simp [hOld], hEmitter old⟩
        · exact ⟨old, hOld, rfl⟩ }
  have hOther : ∀ t' ≠ t, ∀ d' old, s.Drives t' d' old →
      d ≠ d' := by
    rintro t' ht' d' old hOld rfl
    exact ht' (hDrives.unique hOld).1.symm
  refine
    { Revises.refl t s with
      sustains := hSustains
      others := fun t' ht' =>
        { Untouched.refl t' s with drives := fun d' cell' => ?_ }
      staffed := fun h => h.later hSustains fun d' cell' hCell =>
        ((drives_altered hEmitter).mp hCell).imp fun _ => (·.1)
      stocked := fun hs => ?_ }
  · rw [drives_altered hEmitter]
    constructor
    · rintro ⟨old, hOld, rfl⟩
      rwa [if_neg (hOther t' ht' d' old hOld)]
    · intro hOld
      exact ⟨cell', hOld,
        (if_neg (hOther t' ht' d' cell' hOld)).symm⟩
  · have hCareful : ∀ c : Closure, c.Careful s → c.Careful _ :=
      fun _ => hSustains.careful
    refine Session.Stocked.mono { hs with listeners := ?_ }
      hCareful
    exact fun d' => forall_getD_modify
      (fun c : DriverCell => ∀ l ∈ c.emitter.listener, l.Careful s)
      hs.listeners d (fun c hc => by rwa [hEmitter c]) d'

/- It gets a driver, which it did not have. -/
theorem driven
    (hTask : cell.emitter.task = t)
    (hLt : t < s.tasks.size)
    (hNone : ∀ d old, ¬ s.Drives t d old)
    (hFit : ∀ c ∈ cell.emitter.listener, c.Careful s) :
    s.Revises t (s.driven cell) := by
  have hSustains : s.Sustains (s.driven cell) :=
    { Sustains.refl s with
      drivers := fun d' old hOld =>
        ⟨old, driver_driven cell hOld, rfl⟩ }
  have hNew : ∀ d' cell', (s.driven cell).Drives t d' cell' →
      d' = s.drivers.size := by
    intro d' cell' hCell
    rcases drives_driven.mp hCell with hOld | ⟨hSame, _⟩
    · exact absurd hOld (hNone d' cell')
    · exact hSame
  refine
    { Revises.refl t s with
      sustains := hSustains
      others := fun t' ht' =>
        { Untouched.refl t' s with drives := fun d' cell' => ?_ }
      staffed := fun h => ⟨fun _ _ _ => hLt, ?_⟩
      stocked := fun hs => ?_ }
  · rw [drives_driven]
    refine ⟨fun hCell => ?_, .inl⟩
    rcases hCell with hOld | ⟨_, _, hSame⟩
    · exact hOld
    · exact absurd (hSame.symm.trans hTask) ht'
  · intro d₁ d₂ cell₁ cell₂ h₁ h₂
    exact (hNew d₁ cell₁ h₁).trans (hNew d₂ cell₂ h₂).symm
  · have hCareful : ∀ c : Closure, c.Careful s → c.Careful _ :=
      fun _ => hSustains.careful
    refine Session.Stocked.mono { hs with listeners := ?_ }
      hCareful
    exact forall_getD_push
      (fun c : DriverCell => ∀ l ∈ c.emitter.listener, l.Careful s)
      hs.listeners hFit

end Session.Revises

------------------------------------------------------------
-- Holding Tasks, and Releasing Them
------------------------------------------------------------

namespace Caring

/-
  The world is sound when all other tasks are held as before,
  and the one that was changed is held or safe.
-/
theorem revised
    (hs : (Caring held).Sound s)
    (h : s.Revises t s')
    (hSame : ∀ t', t' ≠ t → (t' ∈ held' ↔ t' ∈ held))
    (hCare : ∀ i, .entered i ∈ s'.care t →
      .entered i ∈ s.care t)
    (hHandsOver : ∀ v, .handsOver v ∈ s'.story t →
      ∃ f, v = .future f)
    (hSafe : t ∉ held' → ∀ d cell, s'.Drives t d cell →
      s'.Safe t cell)
    (hHeld : t ∈ held' → t < s'.tasks.size ∧ s'.Ongoing t ∧
      ∀ d cell, s'.Drives t d cell → cell.Spent) :
    (Caring held').Sound s' where
  inv :=
    { watchers := fun f w hw => by
        refine h.sustains.careful (hs.inv.watchers f w ?_)
        unfold Session.watchers at hw ⊢
        rwa [h.futures] at hw
      checks := h.machines ▸ hs.inv.checks
      staffed := fun t' => by
        by_cases hOwn : t' = t
        · subst hOwn
          exact h.staffed (hs.inv.staffed t')
        · refine (hs.inv.staffed t').later h.sustains
            fun d cell hCell => ⟨cell, ?_⟩
          exact ((h.others t' hOwn).drives d cell).mp hCell
      entered := fun t' i hMem => by
        rw [h.cleanups]
        by_cases hOwn : t' = t
        · subst hOwn
          exact hs.inv.entered t' i (hCare i hMem)
        · rw [(h.others t' hOwn).care] at hMem
          exact hs.inv.entered t' i hMem
      handsOver := fun t' v hMem => by
        by_cases hOwn : t' = t
        · subst hOwn
          exact hHandsOver v hMem
        · rw [(h.others t' hOwn).story] at hMem
          exact hs.inv.handsOver t' v hMem
      safe := fun t' d cell hFree hDrives => by
        by_cases hOwn : t' = t
        · subst hOwn
          exact hSafe hFree d cell hDrives
        · have hOther := h.others t' hOwn
          exact (hs.inv.safe t' d cell
            (fun hIn => hFree ((hSame t' hOwn).mpr hIn))
            ((hOther.drives d cell).mp hDrives)).untouched
              h.sustains hOther
      held := fun t' hIn => by
        by_cases hOwn : t' = t
        · subst hOwn
          exact hHeld hIn
        · have hOther := h.others t' hOwn
          rcases hs.inv.held t' ((hSame t' hOwn).mp hIn) with
            ⟨hLt, hOngoing, hSpent⟩
          exact ⟨Nat.lt_of_lt_of_le hLt h.sustains.tasks,
            hOther.ongoing hOngoing,
            fun d cell hDrives => hSpent d cell
              ((hOther.drives d cell).mp hDrives)⟩ }
  stocked := h.stocked hs.stocked

end Caring

/- Whoever holds others leaves them alone. -/
theorem Session.Revises.heeds
    (h : s.Revises t s')
    (hFree : t ∉ held) :
    Heeds held s s' :=
  ⟨h.sustains, h.task, fun t' ht' => h.others t' fun hOwn =>
    hFree (hOwn ▸ ht')⟩

/- A task is held since a session. -/
structure Holding
    (held : List Ref)
    (s₀ : Session)
    (t : Ref)
    (s : Session) : Prop where
  sound : (Caring (t :: held)).Sound s
  free : t ∉ held
  since : Heeds held s₀ s

namespace Holding

variable {s₀ : Session}

/- It may as well be held since now. -/
theorem anew
    (h : Holding held s₀ t s) :
    Holding held s t s :=
  ⟨h.sound, h.free, .refl held s⟩

theorem onto
    (h : Holding held s₀ t s)
    (hMoves : (Caring held).Moves s s') :
    (Caring held).Moves s₀ s' :=
  ⟨hMoves.sound, h.since.trans hMoves.rel⟩

/- Others may do something. -/
theorem moves
    (h : Holding held s₀ t s)
    (hMoves : (Caring (t :: held)).Moves s s') :
    Holding held s₀ t s' where
  sound := hMoves.sound
  free := h.free
  since := h.since.trans ⟨hMoves.rel.sustains, hMoves.rel.task,
    fun t' ht' =>
    hMoves.rel.held t' (List.mem_cons_of_mem _ ht')⟩

/- The task may change as long as its driver is at work. -/
theorem revised
    (h : Holding held s₀ t s)
    (hRevises : s.Revises t s')
    (hCare : s'.care t = s.care t)
    (hHandsOver : ∀ v, .handsOver v ∈ s'.story t →
      ∃ f, v = .future f)
    (hOngoing : s'.Ongoing t)
    (hSpent : ∀ d cell, s'.Drives t d cell → cell.Spent) :
    Holding held s₀ t s' where
  sound := Caring.revised h.sound hRevises (fun _ _ => Iff.rfl)
    (fun _ hMem => hCare ▸ hMem) hHandsOver
    (fun hFree => absurd List.mem_cons_self hFree)
    fun _ => ⟨Nat.lt_of_lt_of_le
      (h.sound.inv.held t List.mem_cons_self).1
      hRevises.sustains.tasks, hOngoing, hSpent⟩
  free := h.free
  since := h.since.trans (hRevises.heeds h.free)

/- The task is released when it is safe. -/
theorem release
    (h : Holding held s₀ t s)
    (hRevises : s.Revises t s')
    (hCare : ∀ i, .entered i ∈ s'.care t →
      .entered i ∈ s.care t)
    (hHandsOver : ∀ v, .handsOver v ∈ s'.story t →
      ∃ f, v = .future f)
    (hSafe : ∀ d cell, s'.Drives t d cell → s'.Safe t cell) :
    (Caring held).Moves s₀ s' where
  sound := Caring.revised h.sound hRevises
    (fun t' ht' => by simp [ht']) hCare hHandsOver
    (fun _ => hSafe) fun hIn => absurd hIn h.free
  rel := h.since.trans (hRevises.heeds h.free)

/- Something is noted that does not mean an end. -/
theorem noted
    (h : Holding held s₀ t s)
    (hGoes : ¬ m.Quits)
    (hHands : ∀ v, m = .handsOver v → ∃ f, v = .future f) :
    Holding held s₀ t (s.noted t m) := by
  rcases h.sound.inv.held t List.mem_cons_self with
    ⟨_, hOngoing, hSpent⟩
  refine h.revised (.noted s t m) (care_noted s t t m)
    (fun v hMem => ?_) (fun m' hMem => ?_) hSpent
  · rcases mem_of_noted hMem with hNew | hOld
    · exact hHands v hNew.symm
    · exact h.sound.inv.handsOver t v hOld
  · rcases mem_of_noted hMem with rfl | hOld
    · exact hGoes
    · exact hOngoing m' hOld

/- Its driver may change, but has asked for nothing. -/
theorem reseated
    {g : DriverCell → DriverCell}
    (h : Holding held s₀ t s)
    (hDrives : s.Drives t d cell)
    (hEmitter : ∀ cell, (g cell).emitter = cell.emitter)
    (hFired : ∀ cell, (g cell).fired = cell.fired) :
    Holding held s₀ t (s.reseated d g) ∧
      (s.reseated d g).Drives t d (g cell) := by
  rcases h.sound.inv.held t List.mem_cons_self with
    ⟨_, hOngoing, hSpent⟩
  refine ⟨h.revised (.reseated hDrives hEmitter) rfl
    (h.sound.inv.handsOver t) hOngoing ?_, ?_⟩
  · intro d' cell' hDrives'
    rcases (drives_altered hEmitter).mp hDrives' with
      ⟨old, hOld, rfl⟩
    have hOldSpent := hSpent d' old hOld
    split
    · unfold DriverCell.Spent
      rw [hFired old]
      exact hOldSpent
    · exact hOldSpent
  · exact hDrives.altered hEmitter

end Holding

end Resumption

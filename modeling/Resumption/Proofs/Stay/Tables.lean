import Resumption.Proofs.Stay
import Resumption.Proofs.Task.Tables
import Resumption.Proofs.World.Constructs

/-
  Changes of a session's tables in the world of a stay.  New
  futures, labels, constructs and awaiters are none of its
  business, and neither is what drivers note; new watchers
  are, and so is the entry into the task's code.

  Main declarations:
    * `Stay.founds`
    * `Stay.moves_newFuture`, `Stay.moves_watched`
    * `Stay.moves_alterDriver`, `Stay.moves_note`
    * `Stay.moves_newTask`, `Stay.moves_entering`
-/

namespace Resumption

namespace Stay

open Session World

variable {H : Stay}
variable {s s' : Session}
variable {spared : Ref → Prop}
variable {shut : Prop}

------------------------------------------------------------
-- Labels and Constructs
------------------------------------------------------------

/- Labels and constructs are founded in the world of a stay. -/
theorem founds : (Staying H spared shut).Founds where
  own _ c hOwn _ := by
    cases c <;> trivial
  client _ _ _ := trivial
  applied _ := Iff.rfl
  received _ := Iff.rfl
  loopHead _ _ := imp_and
  cursorLoop _ _ := Iff.rfl
  cursorItem _ := Iff.rfl
  resumption _ := Iff.rfl
  code l hs hCode hAdmits := (hs.inv hAdmits).2.code l _ hCode
  newMachine _ hs :=
    Same.moves { Same.refl _ with } hs (fun _ h => { h with })
      { hs.stocked with }
  enlist _ _ hs _ _ :=
    Same.moves { Same.refl _ with } hs (fun _ h => { h with })
      { hs.stocked with }
  newLabel _ _ hs :=
    Same.moves { Same.refl _ with } hs
      (fun _ h => { h with
        code := forall_getD_push
          (fun cell : LabelCell => ∀ c ∈ cell.code, H.Fits c)
          h.code (by simp) })
      { hs.stocked with }
  setCode {_ c} l hs hFit _ :=
    Same.moves { Same.refl _ with } hs
      (fun hAdmits h => { h with
        code := forall_getD_modify
          (fun cell : LabelCell => ∀ c ∈ cell.code, H.Fits c)
          h.code l fun _ _ c' hc =>
            Option.some.inj hc ▸ hFit hAdmits })
      { hs.stocked with }
  handler i hs hAdmits := (hs.inv hAdmits).2.handler i
  compensation i hs hAdmits := (hs.inv hAdmits).2.compensation i
  newSequence _ hs :=
    Same.moves { Same.refl _ with } hs (fun _ h => { h with })
      { hs.stocked with }
  alterSequence _ _ hs :=
    Same.moves { Same.refl _ with } hs (fun _ h => { h with })
      { hs.stocked with }
  newRecovery hs hFit :=
    Same.moves { Same.refl _ with } hs
      (fun hAdmits h => { h with
        handler := forall_getD_push
          (H.Fits ∘ RecoveryCell.handler) h.handler
          (hFit hAdmits) })
      { hs.stocked with }
  alterRecovery i _ hs :=
    Same.moves { Same.refl _ with } hs
      (fun _ h => { h with
        handler := forall_getD_modify
          (H.Fits ∘ RecoveryCell.handler) h.handler i
          fun _ hCell => hCell })
      { hs.stocked with }
  newCleanup hs hFit _ :=
    Same.moves { Same.refl _ with } hs
      (fun hAdmits h => { h with
        compensation := forall_getD_push
          (H.Fits ∘ CleanupCell.compensation) h.compensation
          (hFit hAdmits) })
      { hs.stocked with }
  alterCleanup i _ hs :=
    Same.moves { Same.refl _ with } hs
      (fun _ h => { h with
        compensation := forall_getD_modify
          (H.Fits ∘ CleanupCell.compensation) h.compensation i
          fun _ hCell => hCell })
      { hs.stocked with }
  compensating i hs _ :=
    Same.moves { Same.refl _ with } hs
      (fun _ h => { h with
        compensation := forall_getD_modify
          (H.Fits ∘ CleanupCell.compensation) h.compensation i
          fun _ hCell => hCell })
      { hs.stocked with }
  newBuilder _ hs :=
    Same.moves { Same.refl _ with } hs (fun _ h => { h with })
      { hs.stocked with }
  tend t c hs := by
    refine Same.moves { Same.refl _ with
      story := fun m hm => ?_
      tasks := by simp } hs (fun _ h => { h with })
      { hs.stocked with }
    simp only [story, getD_modify]
    split <;> exact hm

------------------------------------------------------------
-- Tasks and Drivers
------------------------------------------------------------

/- A moment is added to the story of some task. -/
theorem moves_note
    (hs : (Staying H spared shut).Sound s)
    (t : Ref)
    (m : Moment) :
    (Staying H spared shut).Moves s
      { s with
        tasks := s.tasks.modify t fun c =>
          { c with story := m :: c.story } } := by
  refine Same.moves { Same.refl _ with
    story := fun m' hm => ?_
    tasks := by simp } hs (fun _ h => { h with })
    { hs.stocked with }
  simp only [story, getD_modify]
  split
  · exact List.mem_cons_of_mem m hm
  · exact hm

theorem moves_newTask
    (hs : (Staying H spared shut).Sound s) :
    (Staying H spared shut).Moves s
      { s with tasks := s.tasks.push ⟨[], []⟩ } := by
  refine Same.moves { Same.refl _ with
    story := fun m hm => ?_
    tasks := by simp } hs (fun _ h => { h with })
    { hs.stocked with }
  simp only [story, getD_push]
  split
  · next hNew =>
      rw [story, getD_of_size_le _ (Nat.le_of_eq hNew.symm)]
        at hm
      exact hm
  · exact hm

/-
  A driver keeps its emitter, and callbacks that it has
  handed out.
-/
theorem moves_alterDriver
    (hs : (Staying H spared shut).Sound s)
    (d : Ref)
    {g : DriverCell → DriverCell}
    (hEmitter : ∀ cell, (g cell).emitter = cell.emitter)
    (hFired : ∀ cell, cell.fired.size ≤ (g cell).fired.size) :
    (Staying H spared shut).Moves s
      { s with drivers := s.drivers.modify d g } := by
  refine Same.moves { Same.refl _ with
    drivers := by simp
    taskOf := fun d' => ?_
    handedOut := ?_ } hs (fun _ h => { h with })
    { hs.stocked with listeners := fun d' => ?_ }
  · simp only [taskOf, getD_modify]
    split
    · rw [hEmitter]
    · rfl
  · simp only [handedOut, getD_modify]
    split
    · exact hFired _
    · exact Nat.le_refl _
  · have hOld := hs.stocked.listeners d'
    simp only [getD_modify]
    split
    · rw [hEmitter]
      exact hOld
    · exact hOld

/- A driver is added, for a task that was there. -/
theorem moves_newDriver
    (hs : (Staying H spared shut).Sound s)
    {cell : DriverCell}
    (hOpen : shut → cell.emitter.task ≠ H.task)
    (hTask : cell.emitter.task < s.tasks.size)
    (hFit : ∀ c ∈ cell.emitter.listener,
      (Staying H spared shut).fit s c) :
    (Staying H spared shut).Moves s
      { s with drivers := s.drivers.push cell } := by
  have hTaskOf : ∀ d : Nat,
      Session.taskOf { s with drivers := s.drivers.push cell }
        d = if d = s.drivers.size then cell.emitter.task
          else s.taskOf d := by
    intro d
    simp only [taskOf, getD_push]
    split <;> rfl
  have hUndriven : cell.emitter.task ≠ H.task →
      s.Undriven H.task →
      Session.Undriven
        { s with drivers := s.drivers.push cell } H.task := by
    intro hOther hOld d hd
    rw [hTaskOf]
    split
    · exact hOther
    · next hNe =>
        refine hOld d ?_
        have hd' : d < s.drivers.size + 1 := by simpa using hd
        omega
  refine moves_of hs { Follows.refl s with
    drivers := by simp
    taskOf := fun d hd => by
      rw [hTaskOf, if_neg (Nat.ne_of_lt hd)] }
    (fun hShut _ hOld => ⟨hUndriven (hOpen hShut) hOld, rfl⟩)
    (fun _ h hStores => ⟨{ h with
      unborn := fun hUnborn => ?_
      numbered := fun p hp => ?_ }, { hStores with },
      ⟨fun _ hk => hk, fun _ _ hk => hk⟩⟩)
    { hs.stocked with
      listeners := forall_getD_push
        (fun cell : DriverCell =>
          ∀ c ∈ cell.emitter.listener,
            (Staying H spared shut).fit s c)
        hs.stocked.listeners hFit }
  · rcases h.unborn hUnborn with ⟨hNone, hOld⟩
    refine ⟨hNone, hUndriven ?_ hOld⟩
    exact Nat.ne_of_lt (Nat.lt_of_lt_of_le hTask hUnborn)
  · have hOld := h.numbered p hp
    simp only [handedOut, getD_push]
    split
    · next hNew =>
        rw [handedOut, getD_of_size_le _
          (Nat.le_of_eq hNew.symm)] at hOld
        exact absurd hOld (Nat.not_lt_zero _)
    · exact hOld

/- When code of a task is entered, it is where it is entered. -/
theorem entries_entering
    (t : Ref)
    (s : Session) :
    (Run.entering t s).entries H.task =
      if t = H.task then s.ambient :: s.entries H.task
      else s.entries H.task := by
  simp only [entries, Run.entering, withIncident,
    List.filterMap_cons, Incident.entry?]
  split <;> simp_all

theorem follows_entering
    (t : Ref)
    (s : Session) :
    H.Follows s (Run.entering t s) :=
  { Follows.refl s with
    entries := by
      rw [entries_entering]
      split
      · exact List.suffix_cons _ _
      · exact List.suffix_refl _ }

/-
  Code of a task is entered.  If it is the task that stays, its
  context is ambient.
-/
theorem moves_entering
    (hs : (Staying H spared shut).Sound s)
    {t : Ref}
    (hBorn : H.Admits s → t = H.task → t < s.tasks.size)
    (hOpen : shut → s.Undriven H.task → t ≠ H.task)
    (hAmbient : H.Admits (Run.entering t s) → t = H.task →
      s.ambient = H.context) :
    (Staying H spared shut).Moves s (Run.entering t s) := by
  refine moves_of hs (follows_entering t s) ?_ ?_
    { hs.stocked with }
  · intro hShut _ hUndriven
    refine ⟨hUndriven, ?_⟩
    rw [entries_entering, if_neg (hOpen hShut hUndriven)]
  · intro hAdmits h hStores
    refine ⟨{ h with
      entered := ?_
      unborn := fun hUnborn => ?_ }, { hStores with },
      ⟨fun _ hk => hk, fun _ _ hk => hk⟩⟩
    · rw [entries_entering]
      split
      · next hSame =>
          rintro context (_ | ⟨_, hOld⟩)
          · exact hAmbient hAdmits hSame
          · exact h.entered context hOld
      · exact h.entered
    · rw [entries_entering, if_neg]
      · exact h.unborn hUnborn
      · intro hSame
        have hLt := hBorn (hAdmits.before (follows_entering t s))
          hSame
        exact Nat.not_lt.mpr hUnborn (hSame ▸ hLt)

/- Code of a task runs, and the books are kept by it. -/
theorem ensures_withTask
    {α : Type}
    {act : Run α}
    (hs : (Staying H spared shut).Sound s)
    {t : Ref}
    (hBorn : H.Admits s → t = H.task → t < s.tasks.size)
    (hOpen : shut → s.Undriven H.task → t ≠ H.task)
    (hAmbient : H.Admits (Run.entering t s) → t = H.task →
      s.ambient = H.context)
    (h : ∀ s', (Staying H spared shut).Moves s s' →
      (Staying H spared shut).Keeps act s') :
    (Run.withTask t act).Ensures s fun _ s' =>
      (Staying H spared shut).Moves s s' ∧
        H.Follows (Run.entering t s) s' := by
  have hIn := moves_entering hs hBorn hOpen hAmbient
  refine Run.ensures_withTask.mpr
    (Run.Ensures.mono (h _ hIn) ?_)
  intro r s' h'
  have hOut : (Staying H spared shut).Moves s'
      { s' with task := s.task, home := s.home } :=
    Same.moves { Same.refl s' with } h'.sound
      (fun _ hStores => { hStores with })
      { h'.sound.stocked with }
  exact ⟨(hIn.trans h').trans hOut, h'.rel.1.trans hOut.rel.1⟩

------------------------------------------------------------
-- Futures and Watchers
------------------------------------------------------------

/- What the driver waits for is there. -/
theorem Accounts.lt_of_awaited
    (h : H.Accounts s)
    {k f : Nat}
    (hAwaited : (k, some (f, true)) ∈ s.awaited H.driver) :
    f < s.futures.size := by
  refine Nat.lt_of_not_le fun hOut => ?_
  have hWaits := h.waits k f hAwaited (outcome?_of_size_le hOut)
  rw [watchers, getD_of_size_le _ hOut] at hWaits
  cases hWaits

/- A new future is none that the driver waits for. -/
theorem moves_newFuture
    (settlement : Option Settlement)
    (hs : (Staying H spared shut).Sound s) :
    (Staying H spared shut).Moves s
      (s.withFutures
        (s.futures.push ⟨settlement, #[], none, []⟩)) := by
  refine moves_of hs { Follows.refl s with }
    (fun _ _ h => ⟨h, rfl⟩) (fun _ h hStores => ?_)
    { hs.stocked with }
  have hOutcome : ∀ {k f},
      (k, some (f, true)) ∈ s.awaited H.driver →
      (s.withFutures (s.futures.push
        ⟨settlement, #[], none, []⟩)).outcome? f =
          s.outcome? f := by
    intro k f hAwaited
    rw [outcome?_newFuture, if_neg]
    exact Nat.ne_of_lt (h.lt_of_awaited hAwaited)
  refine ⟨{ h with
    posts := fun p hp => ?_
    watcher := ?_
    apart := ?_
    settled := fun f hf => ?_
    waits := fun k f hAwaited hNone => ?_ }, { hStores with },
    ⟨?_, ?_⟩⟩
  · rcases h.posts p hp with ⟨k, f, rfl, hAwaited, hSettled⟩
    exact ⟨k, f, rfl, hAwaited, hOutcome hAwaited ▸ hSettled⟩
  · simp only [watchers_newFuture]
    exact h.watcher
  · simp only [watchers_newFuture]
    exact h.apart
  · rw [watchers_newFuture]
    rw [outcome?_newFuture] at hf
    split at hf
    · next hNew =>
        rw [watchers, getD_of_size_le _
          (Nat.le_of_eq hNew.symm)]
        rfl
    · exact h.settled f hf
  · rw [watchers_newFuture]
    exact h.waits k f hAwaited (hOutcome hAwaited ▸ hNone)
  · rintro k ⟨f, hAwaited, hSettled, hUnposted⟩
    exact ⟨f, hAwaited, hOutcome hAwaited ▸ hSettled, hUnposted⟩
  · rintro k _ ⟨f, hAwaited, hSettled, hUnposted⟩
    exact ⟨f, hAwaited, (hOutcome hAwaited).symm ▸ hSettled,
      hUnposted⟩

/-
  A pending future gets a watcher that is none of the stay's
  business, or is to read how a hand-off ends.
-/
theorem moves_watched
    {f : Ref}
    {w : Closure}
    (hs : (Staying H spared shut).Sound s)
    (hPending : s.outcome? f = none)
    (hWatcher : H.Admits s →
      H.Fits w ∨ ∃ awaiter, w = .driverOutcome H.driver awaiter) :
    (Staying H spared shut).Moves s (s.watched f w) := by
  refine moves_of hs { Follows.refl s with }
    (fun _ _ h => ⟨h, rfl⟩) (fun hAdmits h hStores => ?_)
    { hs.stocked with }
  have hNew := hWatcher (hAdmits.before { Follows.refl s with })
  refine ⟨{ h with
    posts := ?_
    watcher := fun f' w' hw' => ?_
    apart := fun f' => ?_
    settled := fun f' hf' => ?_
    waits := fun k f' hAwaited hNone => ?_ }, { hStores with },
    ⟨?_, ?_⟩⟩
  · simp only [outcome?_watched]
    exact h.posts
  · rcases mem_watchers_watched hw' with hOld | ⟨rfl, _⟩
    · exact h.watcher f' w' hOld
    · exact hNew.imp_right .inr
  · rw [watchers_watched]
    split
    · refine List.pairwise_append.mpr
        ⟨h.apart f', List.pairwise_singleton _ _, ?_⟩
      rintro w₁ - w₂ hw₂ k rfl
      rw [List.mem_singleton.mp hw₂]
      rintro rfl
      rcases hNew with hFit | ⟨_, hOther⟩
      · exact hFit rfl
      · cases hOther
    · exact h.apart f'
  · rw [outcome?_watched] at hf'
    rw [watchers_watched, if_neg, h.settled f' hf']
    rintro ⟨rfl, _⟩
    rw [hPending] at hf'
    cases hf'
  · rw [outcome?_watched] at hNone
    exact mem_watched_of_mem w (h.waits k f' hAwaited hNone)
  · rintro k ⟨f', hAwaited, hSettled, hUnposted⟩
    rw [outcome?_watched] at hSettled
    exact ⟨f', hAwaited, hSettled, hUnposted⟩
  · rintro k _ ⟨f', hAwaited, hSettled, hUnposted⟩
    refine ⟨f', hAwaited, ?_, hUnposted⟩
    rwa [outcome?_watched]

theorem moves_setPromise
    (f p : Ref)
    (hs : (Staying H spared shut).Sound s) :
    (Staying H spared shut).Moves s
      (s.withFutures
        (s.futures.modify f ({ · with promise := some p }))) :=
  Same.moves { Same.refl s with
    outcome? := outcome?_setPromise f p
    watchers := watchers_setPromise f p } hs
    (fun _ h => { h with }) { hs.stocked with }

theorem moves_newAwaiter
    {cell : AwaiterCell}
    (hs : (Staying H spared shut).Sound s)
    (hFit : cell.Fits ((Staying H spared shut).fit s)) :
    (Staying H spared shut).Moves s
      { s with awaiters := s.awaiters.push cell } := by
  refine Same.moves { Same.refl s with
    awaiters := fun a old hOld => ?_ } hs
    (fun _ h => { h with })
    { hs.stocked with
      awaiters := forall_getD_push (AwaiterCell.Fits _)
        hs.stocked.awaiters hFit }
  have hLt : a < s.awaiters.size :=
    (Array.getElem?_eq_some_iff.mp hOld).1
  simp only [Array.getElem?_push, Nat.ne_of_lt hLt, if_false]
  exact hOld

end Stay

end Resumption

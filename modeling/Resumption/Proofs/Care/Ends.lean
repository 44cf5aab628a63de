import Resumption.Proofs.Care.Stories

/-
  How tasks come to an end in the careful world.

  A driver that has ended its task with all cleanups
  compensated may end it again, whatever others do in the
  meantime; and so may one that broke it off.

  Main declarations:
    * `Session.Quit`
    * `Caring.moves_noted`, `Caring.moves_stood`
    * `Caring.moves_broken`, `Caring.moves_settled`
    * `Caring.keeps_ending`, `Caring.keeps_finish`
    * `Holding.finish`
    * `Caring.keeps_conclude`
-/

namespace Resumption

open Session World

variable {held : List Ref}
variable {s s₀ s₁ s' : Session}
variable {t d : Ref}
variable {m : Moment}
variable {cell : DriverCell}
variable {caller : Caller}
variable {outcome : Outcome}

------------------------------------------------------------
-- Tasks that Are Over
------------------------------------------------------------

/- A task's driver resumes it no more. -/
def Session.Quit
    (s : Session)
    (t : Ref) : Prop :=
  ∃ m ∈ s.story t, m.Quits

/- It does not afterwards either. -/
theorem Session.Quit.later
    (h : s.Quit t)
    (hSustains : s.Sustains s') :
    s'.Quit t := by
  rcases h with ⟨m, hMem, hQuits⟩
  exact ⟨m, (hSustains.stories t).subset hMem, hQuits⟩

theorem Session.Quit.not_ongoing
    (h : s.Quit t) :
    ¬ s.Ongoing t := by
  rcases h with ⟨m, hMem, hQuits⟩
  exact fun hOngoing => hOngoing m hMem hQuits

/- There is a story only of a task that there is. -/
theorem Session.Quit.lt
    (h : s.Quit t) :
    t < s.tasks.size := by
  rcases h with ⟨m, hMem, _⟩
  refine Nat.lt_of_not_le fun hOut => ?_
  unfold Session.story at hMem
  rw [getD_of_size_le _ hOut] at hMem
  cases hMem

namespace Caring

/- A task whose driver has quit is not held. -/
theorem free_of_quit
    (hs : (Caring held).Sound s)
    (h : s.Quit t) :
    t ∉ held :=
  fun hIn => h.not_ongoing (hs.inv.held t hIn).2.1

/- A task that is not held may change as long as it is safe. -/
theorem moves_revised
    (hs : (Caring held).Sound s)
    (hFree : t ∉ held)
    (hRevises : s.Revises t s')
    (hCare : ∀ i, .entered i ∈ s'.care t →
      .entered i ∈ s.care t)
    (hHandsOver : ∀ v, .handsOver v ∈ s'.story t →
      .handsOver v ∈ s.story t)
    (hSafe : ∀ d cell, s'.Drives t d cell → s'.Safe t cell) :
    (Caring held).Moves s s' where
  sound := revised hs hRevises (fun _ _ => Iff.rfl) hCare
    (fun v hMem => hs.inv.handsOver t v (hHandsOver v hMem))
    (fun _ => hSafe) fun hIn => absurd hIn hFree
  rel := hRevises.heeds hFree

end Caring

/- What is noted of a task. -/
theorem Session.mem_noted_iff
    {m' : Moment}
    (hLt : t < s.tasks.size) :
    m' ∈ (s.noted t m).story t ↔ m' = m ∨ m' ∈ s.story t := by
  rw [story_noted, if_pos ⟨rfl, hLt⟩, List.mem_cons]

/-
  A safe task remains safe when something is noted that is no
  end of it.
-/
theorem Session.Safe.noted
    (h : s.Safe t cell)
    (hGoes : s.Ongoing t → ¬ m.Quits)
    (hSettles : ∀ outcome, m ≠ .settles outcome) :
    (s.noted t m).Safe t cell := by
  have hRevises := Session.Revises.noted s t m
  cases h with
  | suspended h =>
      have hAbides := hRevises.abides (care_noted s t t m)
      refine .suspended ⟨fun m' hMem => ?_, h.single,
        h.primed.later hAbides rfl rfl rfl⟩
      rcases mem_of_noted hMem with rfl | hOld
      · exact hGoes h.ongoing
      · exact h.ongoing m' hOld
  | cleared hSpent h =>
      rcases h with ⟨n, earlier, hCare, hLeaves, hSettled⟩
      refine .cleared hSpent ⟨n, earlier, ?_, hLeaves, ?_⟩
      · rw [care_noted]
        exact hCare
      · rintro ⟨outcome, hMem⟩
        rcases mem_of_noted hMem with hNew | hOld
        · exact absurd hNew.symm (hSettles outcome)
        · exact hSettled ⟨outcome, hOld⟩
  | broken hState h =>
      exact .broken hState
        (h.later (hRevises.sustains.stories t))

/- What a driver is safe by is not all of its cell. -/
theorem Session.Safe.reseated
    {g : DriverCell → DriverCell}
    (h : s.Safe t cell)
    (hRevises : s.Revises t (s.reseated d g))
    (hFired : (g cell).fired = cell.fired)
    (hState : (g cell).state = cell.state)
    (hFirst : (g cell).first = cell.first)
    (hMachine : (g cell).machine = cell.machine)
    (hCurrent : (g cell).current = cell.current) :
    (s.reseated d g).Safe t (g cell) := by
  cases h with
  | suspended h =>
      refine .suspended ⟨h.ongoing, ?_, h.primed.later
        (hRevises.abides rfl) hFirst hMachine hCurrent⟩
      unfold DriverCell.Single
      rw [hFired]
      exact h.single
  | cleared hSpent h =>
      refine .cleared ?_ h
      unfold DriverCell.Spent
      rw [hFired]
      exact hSpent
  | broken hState' h =>
      exact .broken (hState ▸ hState') h

/- It remains safe when its driver, which has quit, does again. -/
theorem Session.Safe.stood
    {state : DriverState}
    (h : s.Safe t cell)
    (hQuit : s.Quit t)
    (hFinal : state.IsFinal)
    (d : Ref) :
    ((s.noted t (.stands state)).reseated d
      ({ · with state := state })).Safe t
        { cell with state := state } := by
  have hNoted := h.noted (m := .stands state)
    (fun hOngoing => absurd hOngoing hQuit.not_ongoing) nofun
  cases hNoted with
  | suspended h =>
      have hStill := hQuit.later
        (Session.Revises.noted s t (.stands state)).sustains
      exact absurd h.ongoing hStill.not_ongoing
  | cleared hSpent h => exact .cleared hSpent h
  | broken _ h =>
      refine .broken ?_ h
      rintro rfl
      exact hFinal

/-
  It is safe when it is broken off, unless its cleanups were
  all compensated by then.
-/
theorem Session.Safe.brokenOff
    {state : DriverState}
    (h : s.Safe t cell)
    (hLt : t < s.tasks.size)
    (hBreaks : m.Breaks)
    (hFinal : state.IsFinal)
    (d : Ref) :
    (((s.noted t m).noted t (.stands state)).reseated d
      ({ · with state := state })).Safe t
        { cell with state := state } := by
  have hNot : state ≠ .suspended := by
    rintro rfl
    exact hFinal
  have hLt' : t < (s.noted t m).tasks.size := by
    simpa [Session.noted, withTasks] using hLt
  have hStory : ((s.noted t m).noted t (.stands state)).story t =
      [.stands state] ++ m :: s.story t := by
    rw [story_noted, if_pos ⟨rfl, hLt'⟩, story_noted,
      if_pos ⟨rfl, hLt⟩]
    rfl
  cases h with
  | suspended h =>
      -- Nothing was settled while the driver could go on.
      refine .broken hNot ⟨_, m, _, hStory, hBreaks, ?_⟩
      exact fun outcome hMem => h.ongoing _ hMem trivial
  | cleared hSpent h =>
      rcases h with ⟨n, earlier, hCare, hLeaves, hSettled⟩
      refine .cleared hSpent ⟨n, earlier, ?_, hLeaves, ?_⟩
      · rw [← hCare, ← care_noted s t t m,
          ← care_noted (s.noted t m) t t (.stands state)]
        rfl
      · rintro ⟨outcome, hMem⟩
        refine hSettled ⟨outcome, ?_⟩
        change _ ∈ ((s.noted t m).noted t
          (.stands state)).story t at hMem
        rw [hStory] at hMem
        rcases List.mem_cons.mp hMem with hNew | hMem
        · cases hNew
        · rcases List.mem_cons.mp hMem with rfl | hOld
          · exact hBreaks.elim
          · exact hOld
  | broken _ h =>
      refine .broken hNot (h.later ?_)
      change _ <:+ ((s.noted t m).noted t (.stands state)).story t
      rw [hStory]
      exact ⟨[.stands state, m], rfl⟩

/-
  It is safe when its output is settled once more, by a driver
  that has quit.
-/
theorem Session.Safe.settled
    (h : s.Safe t cell)
    (hQuit : s.Quit t) :
    ((s.noted t (.settles outcome)).tended t .settled).Safe t
      cell := by
  have hLt := hQuit.lt
  have hLt' : t < (s.noted t (.settles outcome)).tasks.size := by
    simpa [Session.noted, withTasks] using hLt
  have hStory := story_tended
    (s := s.noted t (.settles outcome)) t t .settled
  cases h with
  | suspended h => exact absurd h.ongoing hQuit.not_ongoing
  | cleared hSpent h =>
      rcases h with ⟨n, earlier, hCare, hLeaves, _⟩
      refine .cleared hSpent ⟨n + 1, earlier, ?_, hLeaves,
        fun _ => Nat.succ_pos n⟩
      rw [care_tended, if_pos ⟨rfl, hLt'⟩, care_noted, hCare]
      rfl
  | broken hState h =>
      refine .broken hState (h.later ?_)
      rw [hStory]
      exact (Session.Revises.noted s t _).sustains.stories t

------------------------------------------------------------
-- Changes of Tasks that Are Not Held
------------------------------------------------------------

/- A task has one driver, and knows what became of it. -/
theorem Session.Drives.of_reseated
    {g : DriverCell → DriverCell}
    {d' : Ref}
    {cell' : DriverCell}
    (h : (s.reseated d g).Drives t d' cell')
    (hDrives : s.Drives t d cell)
    (hSole : ∀ d' cell', s.Drives t d' cell' → d = d')
    (hEmitter : ∀ cell, (g cell).emitter = cell.emitter) :
    cell' = g cell := by
  rcases (drives_altered hEmitter).mp h with ⟨old, hOld, rfl⟩
  obtain rfl := hSole d' old hOld
  rw [if_pos rfl, (hDrives.unique hOld).2]

namespace Caring

/- A task's driver is its only one. -/
theorem sole
    (hs : (Caring held).Sound s)
    (h : s.Drives t d cell) :
    ∀ d' cell', s.Drives t d' cell' → d = d' :=
  fun d' cell' h' =>
    (hs.inv.staffed t).sole d d' cell cell' h h'

/- A driver still drives its task, whatever others do. -/
theorem drives
    (h : s.Sustains s')
    (hDrives : s.Drives t d cell) :
    ∃ cell', s'.Drives t d cell' := by
  rcases h.drivers d cell hDrives.1 with ⟨cell', hCell', hSame⟩
  exact ⟨cell', hCell', hSame ▸ hDrives.2⟩

/- Something may be noted that is no end of a task. -/
theorem moves_noted
    (hs : (Caring held).Sound s)
    (hFree : t ∉ held)
    (hGoes : s.Ongoing t → ¬ m.Quits)
    (hSettles : ∀ outcome, m ≠ .settles outcome)
    (hHands : ∀ v, m ≠ .handsOver v) :
    (Caring held).Moves s (s.noted t m) :=
  moves_revised hs hFree (.noted s t m)
    (fun _ hMem => care_noted s t t m ▸ hMem)
    (fun v hMem =>
      (mem_of_noted hMem).resolve_left (Ne.symm (hHands v)))
    fun d cell hDrives =>
      (hs.inv.safe t d cell hFree hDrives).noted hGoes hSettles

/- A driver may change but for what it is safe by. -/
theorem moves_reseated
    {g : DriverCell → DriverCell}
    (hs : (Caring held).Sound s)
    (hDrives : s.Drives t d cell)
    (hFree : t ∉ held)
    (hEmitter : ∀ cell, (g cell).emitter = cell.emitter)
    (hFired : (g cell).fired = cell.fired)
    (hState : (g cell).state = cell.state)
    (hFirst : (g cell).first = cell.first)
    (hMachine : (g cell).machine = cell.machine)
    (hCurrent : (g cell).current = cell.current) :
    (Caring held).Moves s (s.reseated d g) := by
  have hRevises := Session.Revises.reseated hDrives hEmitter
  refine moves_revised hs hFree hRevises (fun _ hMem => hMem)
    (fun _ hMem => hMem) fun d' cell' hDrives' => ?_
  obtain rfl := hDrives'.of_reseated hDrives (sole hs hDrives)
    hEmitter
  exact (hs.inv.safe t d cell hFree hDrives).reseated hRevises
    hFired hState hFirst hMachine hCurrent

/- A driver that has quit may enter a last state again. -/
theorem moves_stood
    {state : DriverState}
    (hs : (Caring held).Sound s)
    (hDrives : s.Drives t d cell)
    (hQuit : s.Quit t)
    (hFinal : state.IsFinal) :
    (Caring held).Moves s
      ((s.noted t (.stands state)).reseated d
        ({ · with state := state })) := by
  have hFree := free_of_quit hs hQuit
  have hSole := sole hs hDrives
  refine moves_revised hs hFree
    ((Session.Revises.noted s t _).trans
      (.reseated hDrives fun _ => rfl))
    (fun _ hMem => care_noted s t t (.stands state) ▸ hMem)
    (fun v hMem => (mem_of_noted hMem).resolve_left nofun)
    fun d' cell' hDrives' => ?_
  obtain rfl := hDrives'.of_reseated hDrives hSole fun _ => rfl
  exact (hs.inv.safe t d cell hFree hDrives).stood hQuit hFinal d

/- A driver that waits may be broken off. -/
theorem moves_broken
    {state : DriverState}
    (hs : (Caring held).Sound s)
    (hDrives : s.Drives t d cell)
    (hFree : t ∉ held)
    (hBreaks : m.Breaks)
    (hFinal : state.IsFinal) :
    (Caring held).Moves s
      (((s.noted t m).noted t (.stands state)).reseated d
        ({ · with state := state })) := by
  have hLt := (hs.inv.staffed t).lt d cell hDrives
  have hSole := sole hs hDrives
  refine moves_revised hs hFree
    (((Session.Revises.noted s t m).trans (.noted _ t _)).trans
      (.reseated hDrives fun _ => rfl))
    (fun i hMem => ?_) (fun v hMem => ?_)
    fun d' cell' hDrives' => ?_
  · change _ ∈ ((s.noted t m).noted t _).care t at hMem
    rwa [care_noted, care_noted] at hMem
  · rcases mem_of_noted hMem with hNew | hMem
    · cases hNew
    · rcases mem_of_noted hMem with rfl | hOld
      · exact hBreaks.elim
      · exact hOld
  · obtain rfl := hDrives'.of_reseated hDrives hSole
      fun _ => rfl
    exact (hs.inv.safe t d cell hFree hDrives).brokenOff hLt
      hBreaks hFinal d

/- A driver that has quit may settle its output again. -/
theorem moves_settled
    (hs : (Caring held).Sound s)
    (hQuit : s.Quit t)
    (outcome : Outcome) :
    (Caring held).Moves s
      ((s.noted t (.settles outcome)).tended t .settled) := by
  have hFree := free_of_quit hs hQuit
  refine moves_revised hs hFree
    ((Session.Revises.noted s t _).trans (.tended _ t _))
    (fun i hMem => ?_) (fun v hMem => ?_)
    fun d' cell' hDrives' =>
      (hs.inv.safe t d' cell' hFree hDrives').settled hQuit
  · rw [care_tended] at hMem
    split at hMem
    · rcases List.mem_cons.mp hMem with hNew | hMem
      · cases hNew
      · rwa [care_noted] at hMem
    · rwa [care_noted] at hMem
  · rw [story_tended] at hMem
    exact (mem_of_noted hMem).resolve_left nofun

------------------------------------------------------------
-- Ending Tasks
------------------------------------------------------------

/- The listener may be told of what is no end of a task. -/
theorem keeps_emit
    {event : Event}
    (hc : (Caring held).Serves caller)
    (hs : (Caring held).Sound s)
    (hDrives : s.Drives t d cell)
    (hFree : t ∉ held) :
    (Driver.emit caller d event).Ensures s fun r s' =>
      r = .ok () ∧ (Caring held).Moves s s' := by
  have h₁ := moves_noted (m := .told event) hs hFree
    (fun _ => id) nofun nofun
  refine (ensures_emit hDrives).mpr ?_
  refine Run.Ensures.mono ((keeps_tell hc h₁.sound
    (fits_listener h₁.sound hDrives) event).and tell_ne_error) ?_
  rintro r s' ⟨hMoves, hOk⟩
  exact ⟨hOk, h₁.trans hMoves⟩

/- A driver that has quit settles its output. -/
theorem keeps_settleOutput
    (hc : (Caring held).Serves caller)
    (hs : (Caring held).Sound s)
    (hDrives : s.Drives t d cell)
    (hQuit : s.Quit t)
    (outcome : Outcome) :
    (Caring held).Keeps (Driver.settle caller d outcome) s := by
  have hRow : (Table.drivers.rows s).getD d default = cell :=
    hDrives.getD
  have h₁ := moves_settled hs hQuit outcome
  unfold Driver.settle
  refine keeps_row_bind.mpr ?_
  rw [hRow]
  refine (ensures_note_bind hDrives).mpr ?_
  rw [hDrives.2]
  refine Run.ensures_alter_bind.mpr ?_
  change Run.Ensures _
    ((s.noted t (.settles outcome)).tended t .settled) _
  split
  · exact ((keeps_settle hc h₁.sound _ outcome).discard).of_moves
      h₁
  · refine Run.ensures_alter.mpr (h₁.trans ?_)
    exact moves_reseated h₁.sound hDrives (free_of_quit hs hQuit)
      (fun _ => rfl) rfl rfl rfl rfl rfl

/- A driver that has quit says so, and settles its output. -/
theorem keeps_ending
    {event : Event}
    (hc : (Caring held).Serves caller)
    (hs : (Caring held).Sound s)
    (hDrives : s.Drives t d cell)
    (hQuit : s.Quit t)
    (outcome : Outcome) :
    (Caring held).Keeps (do
      Driver.emit caller d event
      Driver.settle caller d outcome) s := by
  refine Run.Ensures.bind (Run.Ensures.mono
    (keeps_emit hc hs hDrives (free_of_quit hs hQuit)) ?_)
  rintro r s₁ ⟨rfl, h₁⟩
  rcases drives h₁.rel.sustains hDrives with ⟨cell₁, hDrives₁⟩
  exact (keeps_settleOutput hc h₁.sound hDrives₁
    (hQuit.later h₁.rel.sustains) outcome).of_moves h₁

/- A driver that has quit ends its task. -/
theorem keeps_finish
    (hc : (Caring held).Serves caller)
    (hs : (Caring held).Sound s)
    (hDrives : s.Drives t d cell)
    (hQuit : s.Quit t)
    (outcome : Outcome) :
    (Caring held).Keeps (Driver.finish caller d outcome) s := by
  have h₁ := moves_stood hs hDrives hQuit
    (DriverState.isFinal_ofOutcome outcome)
  unfold Driver.finish
  refine (ensures_setState_bind hDrives).mpr ?_
  rcases drives h₁.rel.sustains hDrives with ⟨cell₁, hDrives₁⟩
  exact (keeps_ending hc h₁.sound hDrives₁
    (hQuit.later h₁.rel.sustains) outcome).of_moves h₁

/- A driver that waits is broken off, and ends its task. -/
theorem keeps_breaking
    (hc : (Caring held).Serves caller)
    (hs : (Caring held).Sound s)
    (hDrives : s.Drives t d cell)
    (hFree : t ∉ held)
    (hBreaks : m.Breaks)
    (e : Value) :
    (Caring held).Keeps (do
      Driver.note d m
      Driver.fail caller d e) s := by
  have h₁ := moves_broken hs hDrives hFree hBreaks
    (DriverState.isFinal_ofOutcome (.rejected e))
  refine (ensures_note_bind hDrives).mpr ?_
  refine (ensures_setState_bind (s := s.noted t m) hDrives).mpr ?_
  rcases drives h₁.rel.sustains hDrives with ⟨cell₁, hDrives₁⟩
  have hLt := (hs.inv.staffed t).lt d cell hDrives
  have hLt' : t < (s.noted t m).tasks.size := by
    simpa [Session.noted, withTasks] using hLt
  refine (keeps_ending hc h₁.sound hDrives₁
    ⟨.stands (.ofOutcome (.rejected e)), ?_,
      DriverState.isFinal_ofOutcome (.rejected e)⟩ _).of_moves h₁
  exact (mem_noted_iff (s := s.noted t m) hLt').mpr (.inl rfl)

/- A driver that was to end by an outcome ends by it. -/
theorem keeps_conclude
    (hc : (Caring held).Serves caller)
    (hs : (Caring held).Sound s)
    (h : s.Entrusts d)
    (awaiter : Value) :
    (Caring held).Keeps (Driver.conclude caller d awaiter) s := by
  rcases h with ⟨cell, future, hCell, hMem⟩
  have hDrives : s.Drives cell.emitter.task d cell := ⟨hCell, rfl⟩
  have hQuit : s.Quit cell.emitter.task := ⟨_, hMem, trivial⟩
  have h₁ := moves_noted (m := .concludes) hs
    (free_of_quit hs hQuit) (fun _ => id) nofun nofun
  unfold Driver.conclude
  refine (ensures_note_bind hDrives).mpr ?_
  refine Keeps.of_moves h₁ ?_
  refine ((hosts hc).keeps_result hc h₁.sound
    awaiter).attempt.bind fun ended s₂ h₂ => ?_
  have hMoves := h₁.trans h₂
  rcases drives hMoves.rel.sustains hDrives with
    ⟨cell₂, hDrives₂⟩
  have hQuit₂ := hQuit.later hMoves.rel.sustains
  split <;> exact keeps_finish hc h₂.sound hDrives₂ hQuit₂ _

end Caring

/- A driver at work ends its task when all is compensated. -/
theorem Holding.finish
    (h : Holding held s₀ t s)
    (hc : (Caring held).Serves caller)
    (hDrives : s.Drives t d cell)
    (hLeaves : Care.Leaves (s.care t) [])
    (outcome : Outcome) :
    (Driver.finish caller d outcome).Ensures s
      fun _ s' => (Caring held).Moves s₀ s' := by
  rcases h.sound.inv.held t List.mem_cons_self with
    ⟨hLt, hOngoing, hSpent⟩
  have hFinal := DriverState.isFinal_ofOutcome outcome
  have hSole := Caring.sole h.sound hDrives
  have h₁ := h.release
    ((Session.Revises.noted s t
      (.stands (.ofOutcome outcome))).trans
      (.reseated (g := ({ · with state := .ofOutcome outcome }))
        hDrives fun _ => rfl))
    (fun i hMem =>
      care_noted s t t (.stands (.ofOutcome outcome)) ▸ hMem)
    (fun v hMem => h.sound.inv.handsOver t v
      ((mem_of_noted hMem).resolve_left nofun))
    fun d' cell' hDrives' => by
      obtain rfl := hDrives'.of_reseated hDrives hSole
        fun _ => rfl
      refine .cleared (hSpent d cell hDrives) ⟨0, s.care t,
        care_noted s t t _, hLeaves, ?_⟩
      rintro ⟨outcome', hMem⟩
      exact absurd trivial (hOngoing _
        ((mem_of_noted hMem).resolve_left nofun))
  unfold Driver.finish
  refine (ensures_setState_bind hDrives).mpr ?_
  have hDrives₁ := hDrives.altered
    (g := ({ · with state := .ofOutcome outcome })) fun _ => rfl
  refine (Caring.keeps_ending hc h₁.sound hDrives₁
    ⟨.stands (.ofOutcome outcome), ?_, hFinal⟩ outcome).of_moves h₁
  exact (mem_noted_iff hLt).mpr (.inl rfl)

end Resumption

import Resumption.Proofs.Care.Stints

/-
  How the code of a task changes its cells, and what is known
  of the task's cleanups.

  New cells are no matter to anyone, for nobody owns them
  yet; old ones are changed by the task that they belong to.

  Main declarations:
    * `Caring.moves_withSequence`
    * `Caring.moves_withRecovery`
    * `Caring.moves_withCleanup`
    * `Stint.Active.resequences`, `Stint.Active.recovers`
    * `Stint.Active.protects`
    * `Stint.Active.tends`
    * `Stint.ensures_compensate`
-/

namespace Resumption

open Session World

variable {s s' : Session}

------------------------------------------------------------
-- New Cells
------------------------------------------------------------

/- A new row is none that belongs to anyone. -/
private theorem push_same
    {α : Type}
    {rows : Array α}
    {i : Nat}
    {old : α}
    (h : rows[i]? = some old)
    (row : α) :
    (rows.push row)[i]? = rows[i]? := by
  have hLt := (Array.getElem?_eq_some_iff.mp h).1
  rw [Array.getElem?_push, if_neg (Nat.ne_of_lt hLt)]

/- Where there is no row yet, there is none of a task's. -/
theorem Session.not_belongs_new
    (s : Session)
    (t : Ref) :
    ¬ s.Belongs t (.sequence s.sequences.size) ∧
      ¬ s.Belongs t (.recovery s.recoveries.size) ∧
      ¬ s.Belongs t (.cleanup s.cleanups.size) := by
  refine ⟨?_, ?_, ?_⟩ <;>
    · rintro ⟨row, hRow, _⟩
      simp at hRow

namespace Caring

variable {held : List Ref}
variable {m : Ref}

private theorem moves_withSequenceRow
    (hs : (Caring held).Sound s)
    (row : SequenceCell) :
    (Caring held).Moves s (s.withSequenceRow row) := by
  refine moves_aside hs { Sustains.refl s with } rfl
    (fun t => { Untouched.refl t s with cells := fun c hc => ?_ })
    rfl rfl rfl { hs.stocked with }
  cases c with
  | sequence i =>
      rcases hc with ⟨old, hOld, _⟩
      exact push_same hOld row
  | _ => rfl

private theorem moves_withRecoveryRow
    (hs : (Caring held).Sound s)
    (row : RecoveryCell) :
    (Caring held).Moves s (s.withRecoveryRow row) := by
  refine moves_aside hs { Sustains.refl s with } rfl
    (fun t => { Untouched.refl t s with cells := fun c hc => ?_ })
    rfl rfl rfl { hs.stocked with }
  cases c with
  | recovery i =>
      rcases hc with ⟨old, hOld, _⟩
      exact push_same hOld row
  | _ => rfl

private theorem moves_withCleanupRow
    (hs : (Caring held).Sound s)
    (row : CleanupCell) :
    (Caring held).Moves s (s.withCleanupRow row) := by
  have hSustains : s.Sustains (s.withCleanupRow row) :=
    { Sustains.refl s with }
  refine moves hs hSustains rfl
    (fun t => { Untouched.refl t s with cells := fun c hc => ?_ })
    (fun f w hw => hSustains.careful (hs.inv.watchers f w hw))
    hs.inv.checks (by simp [Session.withCleanupRow])
    { hs.stocked with }
  cases c with
  | cleanup i =>
      rcases hc with ⟨old, hOld, _⟩
      exact push_same hOld row
  | _ => rfl

/- A new sequence is no matter to anyone. -/
theorem moves_withSequence
    (hs : (Caring held).Sound s)
    (hm : m < s.machines.size)
    (step : Value)
    (rest : Closure) :
    (Caring held).Moves s (s.withSequence m step rest) := by
  have h₁ := moves_withLabel hs m (some rest)
  have h₂ := moves_withLabel h₁.sound m none
  have h₃ := moves_withSequenceRow h₂.sound
    ⟨m, (Sequence.newSite s m rest).entry, step, s.labels.size,
      s.task⟩
  have h₄ := moves_relabelled h₃.sound
    (Sequence.bears_entry hm step rest)
    (.sequenceEntry s.sequences.size)
  exact ((h₁.trans h₂).trans h₃).trans h₄

/- So is a new recovery. -/
theorem moves_withRecovery
    (hs : (Caring held).Sound s)
    (hm : m < s.machines.size)
    (body handler : Closure) :
    (Caring held).Moves s (s.withRecovery m body handler) := by
  have h₁ := moves_withLabel hs m none
  have h₂ := moves_withLabel h₁.sound m (some body)
  have h₃ := moves_withRecoveryRow h₂.sound
    ⟨m, s.labels.size, .label (s.withLabel m none).labels.size,
      handler, s.task⟩
  have h₄ := moves_relabelled h₃.sound
    (Recovery.bears_entry hm body handler)
    (.recoveryEntry s.recoveries.size)
  exact ((h₁.trans h₂).trans h₃).trans h₄

/- So is a new cleanup, before its body is entered. -/
theorem moves_withCleanup
    (hs : (Caring held).Sound s)
    (hm : m < s.machines.size)
    (body compensation : Closure) :
    (Caring held).Moves s
      (s.withCleanup m body compensation) := by
  have h₁ := moves_withLabel hs m none
  have h₂ := moves_withLabel h₁.sound m (some body)
  have h₃ := moves_withCleanupRow h₂.sound
    ⟨m, s.labels.size, .label (s.withLabel m none).labels.size,
      compensation, false, s.task⟩
  have h₄ := moves_relabelled h₃.sound
    (Cleanup.bears_entry hm body compensation)
    (.cleanupEntry s.cleanups.size)
  exact ((h₁.trans h₂).trans h₃).trans h₄

end Caring

------------------------------------------------------------
-- Changing Cells
------------------------------------------------------------

namespace Stint

variable {W : Stint}
variable {F : Footprint}
variable {i : Ref}

/-
  The task's own code may change what nobody else owns, and
  add to what became of the task's cleanups.
-/
private theorem Active.works
    (h : W.Active s)
    (hSustains : s.Sustains s')
    (hTask : s'.task = s.task)
    (hParked : ∀ t, Parked t s s')
    (hOthers : ∀ t, t ≠ W.task → Untouched t s s')
    (hSame : ∀ c, s.Belongs W.task c → ¬ F c → s.SameAt s' c)
    (hFutures : s'.futures = s.futures)
    (hMachines : s'.machines = s.machines)
    (hCleanups : s.cleanups.size ≤ s'.cleanups.size)
    (hEntered : ∀ i, .entered i ∈ s'.care W.task →
      i < s'.cleanups.size)
    (hStocked : s'.Stocked (W.world.fit s)) :
    W.Works F s s' where
  sound :=
    { inv := by
        refine h.sound.inv.onward hSustains hParked
          (fun t ht => hOthers t ?_) (fun f w hw => ?_)
          (hMachines ▸ h.sound.inv.checks) (fun t i hMem => ?_)
        · rintro rfl
          exact ht List.mem_cons_self
        · refine hSustains.careful (h.sound.inv.watchers f w ?_)
          unfold Session.watchers at hw ⊢
          rwa [hFutures] at hw
        · by_cases hOwn : t = W.task
          · subst hOwn
            exact hEntered i hMem
          · rw [(hOthers t hOwn).care] at hMem
            exact Nat.lt_of_lt_of_le
              (h.sound.inv.entered t i hMem) hCleanups
      stocked := hStocked.mono fun _ hc => hSustains.careful hc }
  sustains := hSustains
  task := hTask
  held t ht := hOthers t fun hOwn => h.free (hOwn ▸ ht)
  parked := hParked W.task
  same := hSame

/- A cell that is changed is none of another task's. -/
private theorem Active.alters
    {c : Cell}
    (h : W.Active s)
    (hOwn : s.Belongs W.task c)
    (hSustains : s.Sustains s')
    (hTask : s'.task = s.task)
    (hTasks : s'.tasks = s.tasks)
    (hDrivers : s'.drivers = s.drivers)
    (hSame : ∀ c', c' ≠ c → ∀ t, s.Belongs t c' → s.SameAt s' c')
    (hFutures : s'.futures = s.futures)
    (hMachines : s'.machines = s.machines)
    (hCleanups : s'.cleanups.size = s.cleanups.size)
    (hStocked : s'.Stocked (W.world.fit s)) :
    W.Works (.only c) s s' := by
  have hStory : ∀ t, s'.story t = s.story t := fun t => by
    unfold Session.story
    rw [hTasks]
  have hCare : ∀ t, s'.care t = s.care t := fun t => by
    unfold Session.care
    rw [hTasks]
  have hParked : ∀ t, Parked t s s' := fun t =>
    ⟨hStory t, fun d cell => by
      unfold Session.Drives
      rw [hDrivers]⟩
  refine h.works hSustains hTask hParked (fun t ht => ?_)
    (fun c' hc' hNot => hSame c' hNot W.task hc') hFutures
    hMachines (Nat.le_of_eq hCleanups.symm) (fun i hMem => ?_)
    hStocked
  · refine ⟨hParked t, hCare t, fun c' hc' => hSame c' ?_ t hc'⟩
    rintro rfl
    exact ht (hc'.unique hOwn)
  · rw [hCare] at hMem
    rw [hCleanups]
    exact h.sound.inv.entered W.task i hMem

private theorem modify_same
    {α : Type}
    {rows : Array α}
    {i j : Nat}
    (h : j ≠ i)
    (f : α → α) :
    (rows.modify i f)[j]? = rows[j]? := by
  rw [Array.getElem?_modify, if_neg (Ne.symm h)]

/- A sequence of the task may come to another step. -/
theorem Active.resequences
    (h : W.Active s)
    (hOwn : s.Belongs W.task (.sequence i))
    (step : Value) :
    W.Works (.only (.sequence i)) s (s.resequenced i step) := by
  refine h.alters hOwn { Sustains.refl s with } rfl rfl rfl
    (fun c hNe t _ => ?_) rfl rfl rfl
    { h.sound.stocked with }
  cases c with
  | sequence j =>
      exact modify_same (fun hj => hNe (congrArg _ hj)) _
  | _ => rfl

/- A recovery of the task may resume elsewhere. -/
theorem Active.recovers
    (h : W.Active s)
    (hOwn : s.Belongs W.task (.recovery i))
    (l : Ref) :
    W.Works (.only (.recovery i)) s (s.recovering i l) := by
  refine h.alters hOwn { Sustains.refl s with } rfl rfl rfl
    (fun c hNe t _ => ?_) rfl rfl rfl
    { h.sound.stocked with }
  cases c with
  | recovery j =>
      exact modify_same (fun hj => hNe (congrArg _ hj)) _
  | _ => rfl

/- So may a cleanup. -/
theorem Active.protects
    (h : W.Active s)
    (hOwn : s.Belongs W.task (.cleanup i))
    (l : Ref) :
    W.Works (.only (.cleanup i)) s (s.protecting i l) := by
  refine h.alters hOwn { Sustains.refl s with } rfl rfl rfl
    (fun c hNe t _ => ?_) rfl rfl
    (by simp [Session.protecting]) { h.sound.stocked with }
  cases c with
  | cleanup j =>
      exact modify_same (fun hj => hNe (congrArg _ hj)) _
  | _ => rfl

/- Its compensation may be invoked. -/
private theorem Active.compensates
    (h : W.Active s)
    (hOwn : s.Belongs W.task (.cleanup i)) :
    W.Works (.only (.cleanup i)) s (s.compensating i) := by
  refine h.alters hOwn { Sustains.refl s with } rfl rfl rfl
    (fun c hNe t _ => ?_) rfl rfl
    (by simp [Session.compensating]) { h.sound.stocked with }
  cases c with
  | cleanup j =>
      exact modify_same (fun hj => hNe (congrArg _ hj)) _
  | _ => rfl

------------------------------------------------------------
-- Tending Cleanups
------------------------------------------------------------

/- What becomes of the task's cleanups is added to. -/
theorem Active.tends
    (h : W.Active s)
    (c : Care)
    (hEntered : ∀ i, c = .entered i → i < s.cleanups.size) :
    W.Works F s (s.tending c) ∧
      (s.tending c).care W.task = c :: s.care W.task := by
  have hLt : W.task < s.tasks.size :=
    (h.sound.inv.held W.task List.mem_cons_self).1
  have hTending : s.tending c =
      s.noting (s.tasks.modify W.task fun cell =>
        { cell with care := c :: cell.care }) := by
    unfold Session.tending
    rw [h.task]
  have hCare : ∀ t, (s.tending c).care t =
      if t = W.task then c :: s.care t else s.care t := by
    intro t
    rw [hTending]
    simp only [Session.care, Session.noting, getD_modify]
    by_cases hOwn : t = W.task
    · subst hOwn
      simp [hLt]
    · simp [hOwn, Ne.symm hOwn]
  have hStory : ∀ t, (s.tending c).story t = s.story t := by
    intro t
    rw [hTending]
    simp only [Session.story, Session.noting, getD_modify]
    split <;> rfl
  have hSustains : s.Sustains (s.tending c) := by
    rw [hTending]
    refine
      { Sustains.refl s with
        tasks := by simp [Session.noting]
        stories := fun t => ?_ }
    exact hTending ▸ hStory t ▸ List.suffix_rfl
  have hParked : ∀ t, Parked t s (s.tending c) := fun t =>
    ⟨hStory t, fun d cell => by rw [hTending]; exact Iff.rfl⟩
  have hSame : ∀ c', s.SameAt (s.tending c) c' := by
    intro c'
    rw [hTending]
    cases c' <;> rfl
  refine ⟨h.works hSustains (by rw [hTending]; rfl) hParked
    (fun t ht => ⟨hParked t, ?_, fun c' _ => hSame c'⟩)
    (fun c' _ _ => hSame c') ?_ ?_ ?_ (fun i hMem => ?_) ?_, ?_⟩
  · rw [hCare, if_neg ht]
  · rw [hTending]; rfl
  · rw [hTending]; rfl
  · rw [hTending]; exact Nat.le_refl _
  · have hSize :
        (s.tending c).cleanups.size = s.cleanups.size := by
      rw [hTending]; rfl
    rw [hCare, if_pos rfl] at hMem
    rw [hSize]
    rcases List.mem_cons.mp hMem with hNew | hOld
    · exact hEntered i hNew.symm
    · exact h.sound.inv.entered W.task i hOld
  · rw [hTending]; exact { h.sound.stocked with }
  · rw [hCare, if_pos rfl]

/- One more cleanup is open when its body is entered. -/
theorem Active.opens
    (h : W.Active s)
    (hLt : i < s.cleanups.size)
    (hNew : .entered i ∉ s.care W.task)
    (hLeaves : W.Leaves [] s) :
    W.Works F s (s.tending (.entered i)) ∧
      (W.inside i).Leaves [] (s.tending (.entered i)) := by
  rcases h.tends (F := F) (.entered i) (fun j hj => by
    injection hj with hj; exact hj ▸ hLt) with ⟨hWorks, hCare⟩
  refine ⟨hWorks, ?_⟩
  change Care.Leaves ((s.tending (.entered i)).care W.task) _
  rw [hCare]
  exact .entered hLeaves hNew

/-
  The innermost cleanup is open no more when its compensation
  has been invoked, however that ended.
-/
theorem ensures_compensate
    {caller : Caller}
    {row : CleanupCell}
    (hc : W.world.Serves caller)
    (hActive : W.Active s)
    (hLeaves : (W.inside i).Leaves [] s)
    (hRow : s.cleanups[i]? = some row)
    (hTask : row.task = some W.task)
    (hFlag : row.compensated = false)
    (hCompensation : row.compensation.Careful s) :
    (Cleanup.compensate caller i).Ensures s fun _ s' =>
      W.Works (.only (.cleanup i)) s s' ∧ W.Leaves [] s' := by
  have hCell : (Table.cleanups.rows s).getD i default = row := by
    simp [Table.cleanups, hRow]
  unfold Cleanup.compensate
  refine Run.ensures_row_bind.mpr ?_
  rw [hCell, hFlag]
  have h₁ := hActive.compensates ⟨row, hRow, hTask⟩
  have hActive₁ := hActive.later h₁
  rcases hActive₁.tends (F := .none) (.compensated i)
    (fun _ h => by cases h) with ⟨h₂, hCare⟩
  have hActive₂ := hActive₁.later h₂
  have h₁₂ := h₁.trans h₂ fun _ _ hc => hc.elim
  have hLeaves₂ : W.Leaves []
      ((s.compensating i).tending (.compensated i)) := by
    unfold Leaves
    rw [hCare]
    exact .compensated hLeaves
  refine Run.ensures_modify_bind.mpr (Run.Ensures.bind ?_)
  intro r₂ s₂ hRun
  rw [Run.tendHere_tending] at hRun
  obtain ⟨rfl, rfl⟩ := Prod.mk.inj (Option.some.inj hRun)
  have hCall : W.world.Keeps
      (caller.call row.compensation []) _ :=
    hc.call hActive₂.sound
      (h₁₂.sustains.careful hCompensation) []
  refine Run.Ensures.discard (Run.Ensures.mono hCall ?_)
  intro r₃ s₃ h₃
  exact ⟨h₁₂.trans (.of_moves (F := .none) h₃)
    fun _ _ hc => hc.elim, hLeaves₂.moves h₃⟩

end Stint

end Resumption

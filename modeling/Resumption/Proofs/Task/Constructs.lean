import Resumption.Proofs.Task.Tables
import Resumption.Proofs.World.Constructs

/-
  Labels and constructs can be founded in the world of tasks:
  whatever is installed under labels, and whatever constructs
  make of it, no task is moved but through its driver.

  Main declarations:
    * `Driving.founds`
-/

namespace Resumption

namespace Driving

open Session World

variable {s s' : Session}
variable {held excused : List Ref}

/- Whatever is harmless may be stored and called. -/
theorem fit_of_harmless
    {c : Closure}
    (h : s.Harmless c) :
    (Driving held excused).fit s c :=
  (Closure.harmless_core c).mpr h

theorem keeps_call
    {caller : Caller}
    (hc : (Driving held excused).Serves caller)
    (hs : (Driving held excused).Sound s)
    {c : Closure}
    (h : s.Harmless c)
    (args : List Value) :
    (Driving held excused).Keeps (caller.call c args) s :=
  hc.keeps hs (.inl h)

------------------------------------------------------------
-- Labels
------------------------------------------------------------

/- A label is added, with nothing under it yet. -/
private theorem moves_newLabel
    (hs : (Driving held excused).Sound s)
    (id machine : Value) :
    (Driving held excused).Moves s
      { s with labels := s.labels.push ⟨id, machine, none⟩ } := by
  have hExtends :
      s.Extends { s with
        labels := s.labels.push ⟨id, machine, none⟩ } :=
    { Extends.refl s with
      labels := by simp
      ids := fun l hl => by
        simp only [labelId, getD_push, Nat.ne_of_lt hl,
          if_false] }
  refine Standing.moves hs ?_ hExtends rfl
    (fun t => { Unmoved.refl t s with }) (fun _ _ hw => hw)
    { hs.stocked with }
  refine { hs.inv.sane with code := fun l c hc => ?_ }
  simp only [getD_push] at hc
  split at hc
  · cases hc
  · exact hs.inv.sane.code l c hc

/- Harmless code is put under a label. -/
private theorem moves_setCode
    (hs : (Driving held excused).Sound s)
    (l : Ref)
    {code : Closure}
    (hFit : (Driving held excused).fit s code) :
    (Driving held excused).Moves s
      { s with
        labels := s.labels.modify l
          ({ · with code := some code }) } := by
  have hExtends :
      s.Extends { s with
        labels := s.labels.modify l
          ({ · with code := some code }) } :=
    { Extends.refl s with
      labels := by simp
      ids := fun l' _ => by
        simp only [labelId, getD_modify]
        split <;> rfl }
  refine Standing.moves hs ?_ hExtends rfl
    (fun t => { Unmoved.refl t s with }) (fun _ _ hw => hw)
    { hs.stocked with }
  refine { hs.inv.sane with code := fun l' c hc => ?_ }
  simp only [getD_modify] at hc
  split at hc
  · rw [← Option.some.inj hc]
    exact (Closure.harmless_core code).mp hFit
  · exact hs.inv.sane.code l' c hc

------------------------------------------------------------
-- Constructs
------------------------------------------------------------

/- No task cares for machines, sequences and builders. -/
private theorem moves_rows
    (hs : (Driving held excused).Sound s)
    (machines : Array MachineCell)
    (sequences : Array SequenceCell)
    (builders : Array BuilderCell) :
    (Driving held excused).Moves s
      { s with
        machines := machines
        sequences := sequences
        builders := builders } :=
  Standing.moves hs { hs.inv.sane with }
    { Extends.refl s with } rfl
    (fun t => { Unmoved.refl t s with }) (fun _ _ hw => hw)
    { hs.stocked with }

/- No task cares for what is remembered of the past. -/
private theorem moves_incident
    (hs : (Driving held excused).Sound s)
    (i : Incident) :
    (Driving held excused).Moves s (s.withIncident i) :=
  Standing.moves hs { hs.inv.sane with }
    { Extends.refl s with } rfl
    (fun t => { Unmoved.refl t s with }) (fun _ _ hw => hw)
    { hs.stocked with }

/- Handlers and compensations that are harmless may be kept. -/
private theorem moves_constructs
    (hs : (Driving held excused).Sound s)
    {recoveries : Array RecoveryCell}
    {cleanups : Array CleanupCell}
    (hHandler : ∀ i : Nat,
      s.Harmless (recoveries.getD i default).handler)
    (hCompensation : ∀ i : Nat,
      s.Harmless (cleanups.getD i default).compensation) :
    (Driving held excused).Moves s
      { s with
        recoveries := recoveries
        cleanups := cleanups } :=
  Standing.moves hs
    { hs.inv.sane with
      handler := hHandler
      compensation := hCompensation }
    { Extends.refl s with } rfl
    (fun t => { Unmoved.refl t s with }) (fun _ _ hw => hw)
    { hs.stocked with }

/- What becomes of cleanups is no part of a task's story. -/
private theorem moves_tend
    (hs : (Driving held excused).Sound s)
    (t : Ref)
    (c : Care) :
    (Driving held excused).Moves s
      { s with
        tasks := s.tasks.modify t fun cell =>
          { cell with care := c :: cell.care } } := by
  have hStory : ∀ t', (s.withTasks (s.tasks.modify t
      fun cell => { cell with care := c :: cell.care })).story
        t' = s.story t' := by
    intro t'
    simp only [story, withTasks, getD_modify]
    split <;> rfl
  have hExtends : s.Extends (s.withTasks (s.tasks.modify t
      fun cell => { cell with care := c :: cell.care })) :=
    extends_withTasks (by simp) fun t' => ⟨[], hStory t'⟩
  exact Standing.moves hs
    (sane_withTasks hs.inv.sane hExtends) hExtends
    (Array.size_modify ..)
    (fun t' => unmoved_withTasks hExtends (hStory t'))
    (fun _ _ hw => hw) { hs.stocked with }

/- Labels and constructs are founded in the world of tasks. -/
theorem founds : (Driving held excused).Founds where
  own s c hOwn := by
    cases c <;> trivial
  client _ _ := trivial
  applied {_ f} _ := (Closure.harmless_core f).symm
  received {_ rest} _ := (Closure.harmless_core rest).symm
  loopHead {_ condition body} _ _ :=
    and_congr (Closure.harmless_core condition).symm
      (Closure.harmless_core body).symm
  cursorLoop {_ body} _ _ := (Closure.harmless_core body).symm
  cursorItem {_ body} _ := (Closure.harmless_core body).symm
  resumption _ := Iff.rfl
  code l hs hCode :=
    fit_of_harmless (hs.inv.sane.code l _ hCode)
  newMachine _ hs := moves_rows hs _ _ _
  enlist _ _ hs _ _ := moves_rows hs _ _ _
  newLabel id machine hs := moves_newLabel hs id machine
  setCode l hs hFit _ := moves_setCode hs l hFit
  handler i hs := fit_of_harmless (hs.inv.sane.handler i)
  compensation i hs :=
    fit_of_harmless (hs.inv.sane.compensation i)
  newSequence _ hs := moves_rows hs _ _ _
  alterSequence _ _ hs := moves_rows hs _ _ _
  newRecovery {s _} hs hFit :=
    moves_constructs hs
      (forall_getD_push (s.Harmless ∘ RecoveryCell.handler)
        hs.inv.sane.handler ((Closure.harmless_core _).mp hFit))
      hs.inv.sane.compensation
  alterRecovery {s} i _ hs :=
    moves_constructs hs
      (forall_getD_modify (s.Harmless ∘ RecoveryCell.handler)
        hs.inv.sane.handler i fun _ h => h)
      hs.inv.sane.compensation
  newCleanup {s _} hs hFit _ :=
    moves_constructs hs hs.inv.sane.handler
      (forall_getD_push (s.Harmless ∘ CleanupCell.compensation)
        hs.inv.sane.compensation
        ((Closure.harmless_core _).mp hFit))
  alterCleanup {s} i _ hs :=
    moves_constructs hs hs.inv.sane.handler
      (forall_getD_modify (s.Harmless ∘ CleanupCell.compensation)
        hs.inv.sane.compensation i fun _ h => h)
  compensating {s} i hs _ :=
    have h₁ := moves_incident hs (.compensates i)
    h₁.trans (moves_constructs h₁.sound hs.inv.sane.handler
      (forall_getD_modify (s.Harmless ∘ CleanupCell.compensation)
        hs.inv.sane.compensation i fun _ h => h))
  newBuilder _ hs := moves_rows hs _ _ _
  tend t c hs := moves_tend hs t c

end Driving

end Resumption

import Resumption.Proofs.Routine.Footprint

/-
  How labels are made and jumped to, while nothing of old
  changes.

  A label that was allocated bears nothing, until code is
  installed under it; from then on it bears that code.  A
  machine that checks its jumps reports what is no step.

  Main declarations:
    * `Value.Reports`
    * `Session.withLabel`, `Session.relabelled`
    * `Label.leads_jump`, `Label.leads_jump_malformed`
-/

namespace Resumption

open Run

variable {s s' : Session}
variable {m l : Ref}

/- Changing the row that was added last. -/
theorem modify_push
    {α : Type}
    (rows : Array α)
    (row : α)
    (f : α → α) :
    (rows.push row).modify rows.size f = rows.push (f row) := by
  apply Array.ext
  · simp
  · intro r hIn _
    rw [Array.getElem_modify]
    by_cases hLast : r = rows.size
    · subst hLast
      simp
    · have hLt : r < rows.size := by
        simp at hIn
        omega
      simp [Array.getElem_push, hLt, Nat.ne_of_gt hLt]

------------------------------------------------------------
-- Reporting Defects
------------------------------------------------------------

/- An error that tells of a defect. -/
def Value.Reports
    (e : Value)
    (d : Defect) : Prop :=
  ∃ id id' tag message,
    e = .tagged id d.cls tag message (.record id' d.props) none

theorem Value.Reports.isDefect
    {e : Value}
    {d : Defect}
    (h : e.Reports d) :
    e.isDefect = true := by
  rcases h with ⟨_, _, _, _, rfl⟩
  exact d.isDefect_cls

/- A session in which some objects were made. -/
def Session.numbering
    (s : Session)
    (n : Nat) : Session :=
  n.repeat Session.stamped s

/- Objects that are made are no matter. -/
theorem Setting.moves_numbering
    {ν : Type}
    (E : Setting ν)
    (s : Session)
    (n : Nat) :
    E.Moves .none s (s.numbering n) := by
  induction n with
  | zero => exact .refl E .none s
  | succ n ih =>
      refine ih.none_trans ?_
      exact
        { retains :=
            { Session.Retains.refl (fun _ => True) _ with
              same := fun c _ _ => by cases c <;> rfl }
          backdrop := rfl
          foreign := fun _ _ => rfl }

/- Nor is what is remembered of the past. -/
theorem Setting.moves_withIncident
    {ν : Type}
    (E : Setting ν)
    (s : Session)
    (i : Incident) :
    E.Moves .none s (s.withIncident i) where
  retains :=
    { Session.Retains.refl (fun _ => True) s with
      same := fun c _ _ => by cases c <;> rfl }
  backdrop := rfl
  foreign _ _ := rfl

theorem Setting.moves_calling
    {ν : Type}
    (E : Setting ν)
    (s : Session) :
    E.Moves .none s (calling s) where
  retains :=
    { Session.Retains.refl (fun _ => True) s with
      same := fun c _ _ => by cases c <;> rfl }
  backdrop := rfl
  foreign _ _ := rfl

theorem Setting.Agrees.calling
    {ν : Type}
    {E : Setting ν}
    {R : Reading ν}
    (h : E.Agrees s R) :
    E.Agrees (calling s) R :=
  h.of_moves (E.moves_calling s) rfl

/- A defect that is raised is reported. -/
theorem Run.defect_eq
    {α : Type}
    (d : Defect)
    (s : Session) :
    ∃ e, e.Reports d ∧
      (Run.defect d : Run α) s =
        some (.error e, s.numbering 2) :=
  ⟨_, ⟨_, _, _, _, rfl⟩, rfl⟩

------------------------------------------------------------
-- Bearing Code
------------------------------------------------------------

namespace Session

/- A session with one more label. -/
def withLabel
    (s : Session)
    (m : Ref)
    (code : Option Closure) : Session :=
  let number := (s.machines.getD m default).labels.size
  { s with
    labels := s.labels.push ⟨.int number, .machine m, code⟩
    machines := s.machines.modify m fun c =>
      { c with labels := c.labels.push s.labels.size } }

/- A session with one more machine. -/
def withMachine
    (s : Session)
    (checks : Bool) : Session :=
  { s with machines := s.machines.push ⟨#[], checks⟩ }

/- A session with code under a label. -/
def relabelled
    (s : Session)
    (l : Ref)
    (code : Closure) : Session :=
  { s with
    labels := s.labels.modify l ({ · with code := some code }) }

theorem Bears.lt
    {code : Option Closure}
    (h : s.Bears m l code) :
    l < s.labels.size := by
  rcases h with ⟨n, hLabel, _⟩
  exact (Array.getElem?_eq_some_iff.mp hLabel).1

/- A machine that has allocated a label is there. -/
theorem Bears.lt_machines
    {code : Option Closure}
    (h : s.Bears m l code) :
    m < s.machines.size := by
  rcases h with ⟨n, _, hTable⟩
  refine Nat.lt_of_not_le fun hSize => ?_
  rw [getD_of_size_le _ hSize] at hTable
  cases hTable

/- One more label leaves the others as they were. -/
theorem Bears.withLabel
    {m' : Ref}
    {code : Option Closure}
    (h : s.Bears m l code)
    (code' : Option Closure) :
    (s.withLabel m' code').Bears m l code := by
  rcases h with ⟨n, hLabel, hTable⟩
  have hLt : l < s.labels.size :=
    (Array.getElem?_eq_some_iff.mp hLabel).1
  refine ⟨n, ?_, ?_⟩
  · have hOld : l ≠ s.labels.size := Nat.ne_of_lt hLt
    simp only [Session.withLabel, Array.getElem?_push,
      if_neg hOld]
    exact hLabel
  · simp only [Session.withLabel, getD_modify]
    by_cases hSame : m' = m ∧ m < s.machines.size
    · rw [if_pos hSame]
      rcases hSame with ⟨rfl, _⟩
      have hIn : n <
          (s.machines.getD m' default).labels.size :=
        (Array.getElem?_eq_some_iff.mp hTable).1
      have hOld : n ≠
          (s.machines.getD m' default).labels.size :=
        Nat.ne_of_lt hIn
      simp only [Array.getElem?_push, if_neg hOld]
      exact hTable
    · rw [if_neg hSame]
      exact hTable

/- The label that was added bears what it was added with. -/
theorem bears_withLabel
    (hm : m < s.machines.size)
    (code : Option Closure) :
    (s.withLabel m code).Bears m s.labels.size code := by
  refine ⟨(s.machines.getD m default).labels.size, ?_, ?_⟩
  · simp [Session.withLabel]
  · simp only [Session.withLabel, getD_modify, true_and,
      if_pos hm]
    simp

/- The new label is in its machine's table. -/
theorem Tidy.withLabel
    {code : Option Closure}
    (h : s.Tidy) :
    (s.withLabel m code).Tidy := by
  intro m' l' hIn
  have hOld : l' ∈ (s.machines.getD m' default).labels ∨
      l' = s.labels.size := by
    simp only [Session.withLabel, getD_modify] at hIn
    split at hIn
    · exact Array.mem_push.mp hIn
    · exact .inl hIn
  rcases hOld with hOld | rfl
  · exact Nat.lt_of_lt_of_le (h m' l' hOld)
      (by simp [Session.withLabel])
  · simp [Session.withLabel]

/- Code under a label that bore nothing. -/
theorem Bears.relabelled
    (h : s.Bears m l none)
    (code : Closure) :
    (s.relabelled l code).Bears m l (some code) := by
  rcases h with ⟨n, hLabel, hTable⟩
  refine ⟨n, ?_, hTable⟩
  simp [Session.relabelled, Array.getElem?_modify, hLabel]

theorem Bears.relabelled_of_ne
    {l' : Ref}
    {code : Option Closure}
    (h : s.Bears m l code)
    (hNe : l' ≠ l)
    (code' : Closure) :
    (s.relabelled l' code').Bears m l code := by
  rcases h with ⟨n, hLabel, hTable⟩
  refine ⟨n, ?_, hTable⟩
  simp [Session.relabelled, Array.getElem?_modify, hNe,
    hLabel]

end Session

namespace Setting

variable {ν : Type}

/- One more machine is a move. -/
theorem moves_withMachine
    (E : Setting ν)
    (s : Session)
    (checks : Bool) :
    E.Moves .none s (s.withMachine checks) where
  retains :=
    { Session.Retains.refl (fun _ => True) s with
      machine := by simp [Session.withMachine]
      checks := by
        intro m hm
        simp only [Session.withMachine, getD_push,
          if_neg (Nat.ne_of_lt hm)]
      tidy := by
        intro hTidy m l hIn
        simp only [Session.withMachine, getD_push] at hIn
        split at hIn
        · simp at hIn
        · exact hTidy m l hIn
      bears := by
        rintro m l code ⟨n, hLabel, hTable⟩
        refine ⟨n, hLabel, ?_⟩
        simp only [Session.withMachine, getD_push]
        by_cases hNew : m = s.machines.size
        · subst hNew
          rw [getD_of_size_le _ (Nat.le_refl _)] at hTable
          cases hTable
        · rw [if_neg hNew]
          exact hTable
      same := fun c _ _ => by cases c <;> rfl }
  backdrop := rfl
  foreign _ _ := rfl

/- One more label is a move. -/
theorem moves_withLabel
    (E : Setting ν)
    (s : Session)
    (m : Ref)
    (code : Option Closure) :
    E.Moves .none s (s.withLabel m code) where
  retains :=
    { Session.Retains.refl _ s with
      machine := by simp [Session.withLabel]
      checks := by
        intro m' _
        simp only [Session.withLabel, getD_modify]
        split <;> rfl
      tidy := fun h => h.withLabel
      bears := fun _ _ _ h => h.withLabel _ }
  backdrop := rfl
  foreign _ _ := rfl

/- So is code under a label that bore nothing. -/
theorem moves_relabelled
    (E : Setting ν)
    (h : s.Bears m l none)
    (code : Closure) :
    E.Moves .none s (s.relabelled l code) where
  retains :=
    { Session.Retains.refl _ s with
      tidy := by
        intro hTidy m' l' hIn
        simpa [Session.relabelled] using hTidy m' l' hIn
      bears := by
        intro m' l' code' hBears
        refine hBears.relabelled_of_ne ?_ code
        intro hSame
        subst hSame
        rcases h with ⟨n, hLabel, _⟩
        rcases hBears with ⟨n', hLabel', _⟩
        rw [hLabel] at hLabel'
        cases hLabel' }
  backdrop := rfl
  foreign _ _ := rfl

end Setting

namespace Session

/- Labels are no part of what a routine remembers. -/
@[simp] theorem memory_withLabel
    (s : Session)
    (m : Ref)
    (code : Option Closure)
    (own : Territory) :
    (s.withLabel m code).memory own = s.memory own := by
  simp only [memory, withLabel]

@[simp] theorem memory_relabelled
    (s : Session)
    (l : Ref)
    (code : Closure)
    (own : Territory) :
    (s.relabelled l code).memory own = s.memory own := by
  simp only [memory, relabelled]

end Session

------------------------------------------------------------
-- Making and Using Labels
------------------------------------------------------------

namespace Label

theorem allocate_eq
    (m : Ref)
    (s : Session) :
    allocate m s =
      some (.ok s.labels.size, s.withLabel m none) :=
  rfl

theorem install_eq
    (m : Ref)
    (code : Closure)
    (s : Session) :
    install m code s =
      some (.ok s.labels.size, s.withLabel m (some code)) := by
  have hEnd : install m code s =
      some (.ok s.labels.size,
        (s.withLabel m none).relabelled s.labels.size
          code) :=
    rfl
  rw [hEnd]
  simp only [Session.withLabel, Session.relabelled,
    modify_push]

/- A label that a machine made is one of its own. -/
theorem owned_eq
    {code : Option Closure}
    (h : s.Bears m l code) :
    owned m (.label l) s = some (.ok l, s) := by
  have hOwns : owns s m l = true := by
    rcases h with ⟨n, hLabel, hTable⟩
    have hRow : s.labels.getD l default =
        ⟨.int n, .machine m, code⟩ := by
      simp [Array.getD_eq_getD_getElem?, hLabel]
    simpa [owns, hRow, Value.same] using hTable
  have hEnd : owned m (.label l) s =
      (if owns s m l then (return l : Run Ref)
        else refuse (.label l)) s :=
    rfl
  rw [hEnd, if_pos hOwns]
  rfl

theorem replace_eq
    {code : Option Closure}
    (h : s.Bears m l code)
    (code' : Closure) :
    replace m (.label l) code' s =
      some (.ok (), s.relabelled l code') := by
  exact bind_of_end (owned_eq h)

/- Code under a label is looked up. -/
theorem jump_eq
    {code : Closure}
    (h : s.Bears m l (some code)) :
    ∃ id, ∀ c, jump c m (.label l) s =
      (do
        let step ← c.call code []
        if (← Table.machines.row m).assertions
            && !step.isStep then
          Run.chronicle (.malformed id)
          Run.defect (.malformedStep id step)
        else
          return step : Run Value) s := by
  rcases h with ⟨n, hLabel, hTable⟩
  refine ⟨.int n, fun c => ?_⟩
  have hRow : Table.labels.row l s =
      some (.ok ⟨.int n, .machine m, some code⟩, s) := by
    have hEnd : Table.labels.row l s =
        some (.ok (s.labels.getD l default), s) := rfl
    rw [hEnd]
    simp [Array.getD_eq_getD_getElem?, hLabel]
  exact step_eq (owned_eq ⟨n, hLabel, hTable⟩)
    (step_eq hRow rfl)

/- What ends a step-producing run: a step, or a failure. -/
def Steps (r : Except Value Value) : Prop :=
  ∀ step, r = .ok step → step.isStep = true

/- A jump ends as the code under the label does. -/
theorem leads_jump
    {code : Closure}
    {r : Except Value Value}
    (h : s.Bears m l (some code))
    (hCall : Leads (fun c => c.call code []) s r s')
    (hSteps : Steps r) :
    Leads (fun c => jump c m (.label l)) s r s' := by
  rcases jump_eq h with ⟨id, hJump⟩
  refine Leads.congr ?_ hJump
  cases r with
  | error e => exact hCall.bind_error
  | ok step =>
      refine hCall.bind (.step rfl ?_)
      simp only [hSteps step rfl, Bool.not_true, Bool.and_false,
        Bool.false_eq_true, if_false]
      exact .pure step

/- A jump that checks reports what is no step. -/
theorem leads_jump_malformed
    {code : Closure}
    {v : Value}
    (h : s.Bears m l (some code))
    (hCall : Leads (fun c => c.call code []) s (.ok v) s')
    (hChecks :
      (s'.machines.getD m default).assertions = true)
    (hNot : v.isStep = false) :
    ∃ id e, e.Reports (.malformedStep id v) ∧
      Leads (fun c => jump c m (.label l)) s (.error e)
        ((s'.withIncident (.malformed id)).numbering 2) := by
  rcases jump_eq h with ⟨id, hJump⟩
  rcases Run.defect_eq (α := Value) (.malformedStep id v)
      (s'.withIncident (.malformed id)) with ⟨e, hReports, hDefect⟩
  refine ⟨id, e, hReports, Leads.congr ?_ hJump⟩
  refine hCall.bind (.step rfl ?_)
  have hRow : ((Table.machines.rows s').getD m
      default).assertions = true := hChecks
  simp only [hRow, hNot, Bool.not_false, Bool.and_self,
    if_true]
  exact .step rfl (.of_eq fun _ => hDefect)

/- A jump to a label that bears nothing is reported. -/
theorem leads_jump_uninstalled
    (h : s.Bears m l none) :
    ∃ id e, e.Reports (.uninstalledLabel id) ∧
      Leads (fun c => jump c m (.label l)) s (.error e)
        (s.numbering 2) := by
  rcases h with ⟨n, hLabel, hTable⟩
  have hRow : Table.labels.row l s =
      some (.ok ⟨.int n, .machine m, none⟩, s) := by
    have hEnd : Table.labels.row l s =
        some (.ok (s.labels.getD l default), s) := rfl
    rw [hEnd]
    simp [Array.getD_eq_getD_getElem?, hLabel]
  rcases Run.defect_eq (α := Value)
      (.uninstalledLabel (.int n)) s with
    ⟨e, hReports, hDefect⟩
  refine ⟨.int n, e, hReports, ?_⟩
  exact .step (owned_eq ⟨n, hLabel, hTable⟩)
    (.step hRow (.of_eq fun _ => hDefect))

/- So is one to a label that the machine did not allocate. -/
theorem leads_jump_foreign
    (h : owns s m l = false) :
    ∃ e, e.Reports
        (.foreignLabel (s.labels.getD l default).id) ∧
      Leads (fun c => jump c m (.label l)) s (.error e)
        (s.numbering 2) := by
  let id := (s.labels.getD l default).id
  rcases Run.defect_eq (α := Ref) (.foreignLabel id) s with
    ⟨e, hReports, hDefect⟩
  have hOwned : owned m (.label l) s =
      some (.error e, s.numbering 2) := by
    have hEnd : owned m (.label l) s =
        (if owns s m l then (return l : Run Ref)
          else refuse (.label l)) s :=
      rfl
    have hId : Run.field (.label l) "id" s =
        some (.ok id, s) := rfl
    simp only [hEnd, h, Bool.false_eq_true, if_false]
    exact step_eq hId hDefect
  exact ⟨e, hReports, .bind_error (.of_eq fun _ => hOwned)⟩

end Label

end Resumption

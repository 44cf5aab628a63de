import Resumption.Proofs.Routine.Awaits
import Resumption.Proofs.Routine.Deeds

/-
  A breach of the protocol is answered by the defect that
  its reading stops with.

  Main declarations:
    * `Breach.delivers`
-/

namespace Resumption

open Run

variable {ν : Type}
variable {E : Setting ν}
variable {s s' : Session}
variable {R : Reading ν}
variable {e : Value}

------------------------------------------------------------
-- Reaching a Machine
------------------------------------------------------------

/- A builder tells which machine it records in. -/
theorem Builder.field_machine
    (h : E.Calm s) :
    Run.field (.builder E.builder) "machine" s =
      some (.ok (.machine E.machine), s) := by
  rcases h.builder with ⟨captured, hRow⟩
  have hEnd : Run.field (.builder E.builder) "machine" s =
      some (.ok ((s.property? (.builder E.builder)
        "machine").getD .undefined), s) := rfl
  have hCell : s.builders.getD E.builder default =
      ⟨.machine E.machine, captured⟩ := by
    simp [Array.getD_eq_getD_getElem?, hRow]
  rw [hEnd]
  simp [Session.property?, Session.fieldsOf, hCell]

/- Code that begins by asking for the machine. -/
theorem Program.leads_machine
    {k : Value → Program}
    {r : Except Value Value}
    (hCalm : E.Calm s)
    (h : Leads (fun c => (k (.machine E.machine)).run c)
      s r s') :
    Leads (fun c => (Program.perform (.field
      (.builder E.builder) (.str "machine")) k).run c) s r s' := by
  have hField : Leads (fun c => (Request.field
      (.builder E.builder) (.str "machine")).perform c) s
      (.ok (.machine E.machine)) s :=
    .of_eq fun _ => step_eq (text_str "machine" s)
      (Builder.field_machine hCalm)
  exact hField.bind h

/- A jump that is refused is what client code fails with. -/
theorem Program.leads_jumpOn
    {l : Ref}
    (hCalm : E.Calm s)
    (h : Leads (fun c => Label.jump c E.machine (.label l))
      s (.error e) s') :
    Leads (fun c => (Program.jumpOn (.builder E.builder)
      (.label l)).run c) s (.error e) s' := by
  have hRequest : Leads (fun c => (Request.jump
      (.machine E.machine) (.label l)).perform c) s
      (.error e) s' :=
    .step (a := E.machine) rfl h
  exact Program.leads_machine hCalm hRequest.bind_error

------------------------------------------------------------
-- Breaches
------------------------------------------------------------

namespace Breach

/- What is raised is what the reading stops with. -/
theorem delivers_of_leads
    {act : Caller → Run Value}
    {b : Breach ν}
    (hAgrees : E.Agrees s R)
    (hMoves : E.Moves .none s s')
    (hMemory : s'.memory E.own = s.memory E.own)
    (hRaises : b.Raises e)
    (hLeads : Leads act s (.error e) (s'.numbering 2)) :
    E.Delivers hands .none act s (.error (.breached b)) R := by
  have hMore := E.moves_numbering s' 2
  exact .fails hLeads (hMoves.none_trans hMore) hRaises
    ((hAgrees.of_moves hMoves hMemory).of_moves hMore rfl)

/- A label of another machine is refused. -/
theorem delivers_borrowedLabel
    (hAgrees : E.Agrees s R) :
    E.Delivers hands .none
      (fun c => ((Breach.borrowedLabel (ν := ν)).code E.place
        (.builder E.builder)).run c) s
      (.error (.breached .borrowedLabel)) R := by
  let s₁ := s.withMachine true
  let s₂ := s₁.withLabel s.machines.size none
  have hMoves : E.Moves .none s s₂ :=
    (E.moves_withMachine s true).none_trans
      (E.moves_withLabel s₁ _ none)
  have hOwns : Label.owns s₂ E.machine s.labels.size = false := by
    have hNe : s.machines.size ≠ E.machine :=
      Nat.ne_of_gt hAgrees.calm.machine
    have hCell : s₂.labels.getD s.labels.size default =
        ⟨.int (s₁.machines.getD s.machines.size
          default).labels.size, .machine s.machines.size,
          none⟩ := by
      simp [s₂, s₁, Session.withLabel, Session.withMachine]
    simp [Label.owns, hCell, Value.same, hNe]
  rcases Label.leads_jump_foreign hOwns with
    ⟨e, hReports, hJump⟩
  refine delivers_of_leads hAgrees hMoves rfl ⟨_, hReports⟩ ?_
  have hNew : Leads (fun c =>
      (Request.newMachine .undefined).perform c) s
      (.ok (.machine s.machines.size)) s₁ :=
    .of_eq fun _ => rfl
  have hAllocate : Leads (fun c =>
      (Request.allocate (.machine s.machines.size)).perform c)
      s₁ (.ok (.label s.labels.size)) s₂ :=
    .of_eq fun _ => rfl
  exact hNew.bind (hAllocate.bind
    (Program.leads_jumpOn (hMoves.calm hAgrees.calm) hJump))

/- So is a handle that no machine allocated. -/
theorem delivers_forgedLabel
    (id : Value)
    (hAgrees : E.Agrees s R) :
    E.Delivers hands .none
      (fun c => ((Breach.forgedLabel (ν := ν) id).code E.place
        (.builder E.builder)).run c) s
      (.error (.breached (.forgedLabel id))) R := by
  let row : LabelCell := ⟨id, .machine E.machine, none⟩
  let s₁ : Session := { s with labels := s.labels.push row }
  have hMoves : E.Moves .none s s₁ :=
    { retains :=
        { Session.Retains.refl (fun _ => True) s with
          tidy := by
            intro hTidy m l hIn
            have hLt := hTidy m l hIn
            simp only [s₁, Array.size_push]
            exact Nat.lt_succ_of_lt hLt
          bears := by
            rintro m l code ⟨n, hLabel, hTable⟩
            refine ⟨n, ?_, hTable⟩
            have hLt := (Array.getElem?_eq_some_iff.mp hLabel).1
            simp only [s₁, Array.getElem?_push,
              if_neg (Nat.ne_of_lt hLt)]
            exact hLabel
          same := fun c _ _ => by cases c <;> rfl }
      backdrop := rfl
      foreign := fun _ _ => rfl }
  have hCell : s₁.labels.getD s.labels.size default = row := by
    simp [s₁]
  have hOwns : Label.owns s₁ E.machine s.labels.size = false := by
    -- A table lists no label that was not there.
    have hNot : ∀ n : Nat,
        (s.machines.getD E.machine default).labels[n]? ≠
          some s.labels.size := by
      intro n hEntry
      have hIn := Array.mem_of_getElem? hEntry
      exact Nat.lt_irrefl _ (hAgrees.calm.tidy _ _ hIn)
    unfold Label.owns
    simp only [hCell, row]
    split
    · rename_i n
      have hFalse := hNot n
      simpa [s₁, Value.same] using hFalse
    · rfl
  rcases Label.leads_jump_foreign hOwns with
    ⟨e, hReports, hJump⟩
  rw [hCell] at hReports
  refine delivers_of_leads hAgrees hMoves rfl hReports ?_
  have hForge : Leads (fun c =>
      (Request.forge id (.machine E.machine)).perform c) s
      (.ok (.label s.labels.size)) s₁ :=
    .of_eq fun _ => rfl
  exact Program.leads_machine hAgrees.calm (hForge.bind
    (Program.leads_jumpOn (hMoves.calm hAgrees.calm) hJump))

/- There is nothing under a label that was only allocated. -/
theorem delivers_uninstalledLabel
    (hAgrees : E.Agrees s R) :
    E.Delivers hands .none
      (fun c => ((Breach.uninstalledLabel (ν := ν)).code E.place
        (.builder E.builder)).run c) s
      (.error (.breached .uninstalledLabel)) R := by
  have hMoves := E.moves_withLabel s E.machine none
  have hBears := s.bears_withLabel hAgrees.calm.machine none
  rcases Label.leads_jump_uninstalled hBears with
    ⟨id, e, hReports, hJump⟩
  refine delivers_of_leads hAgrees hMoves
    (s.memory_withLabel _ _ _) ⟨id, hReports⟩ ?_
  have hAllocate : Leads (fun c =>
      (Request.allocate (.machine E.machine)).perform c) s
      (.ok (.label s.labels.size))
      (s.withLabel E.machine none) :=
    .of_eq fun _ => rfl
  exact Program.leads_machine hAgrees.calm (hAllocate.bind
    (Program.leads_jumpOn (hMoves.calm hAgrees.calm) hJump))

/- What is no step is refused where jumps are checked. -/
theorem delivers_malformedStep
    {v : Value}
    (hNot : v.isStep = false)
    (hChecks : E.checks = true)
    (hAgrees : E.Agrees s R) :
    E.Delivers hands .none
      (fun c => ((Breach.malformedStep (ν := ν) v hNot).code
        E.place (.builder E.builder)).run c) s
      (.error (.breached (.malformedStep v hNot))) R := by
  let code : Closure := .client fun _ => .done v
  let s₁ := s.withLabel E.machine (some code)
  have hMoves := E.moves_withLabel s E.machine (some code)
  have hBears :=
    s.bears_withLabel hAgrees.calm.machine (some code)
  have hCalm := hMoves.calm hAgrees.calm
  have hCall : Leads (fun c => c.call code []) s₁ (.ok v)
      (calling s₁) :=
    .client (.pure v)
  rcases Label.leads_jump_malformed hBears hCall
      (hCalm.checks.trans hChecks) hNot with
    ⟨id, e, hReports, hJump⟩
  have hMore := hMoves.none_trans ((E.moves_calling s₁).none_trans
    (E.moves_withIncident (calling s₁) (.malformed id)))
  have hMemory :
      ((calling s₁).withIncident (.malformed id)).memory
        E.own = s.memory E.own :=
    s.memory_withLabel E.machine (some code) E.own
  refine delivers_of_leads hAgrees hMore hMemory
    ⟨id, hReports⟩ ?_
  have hInstall : Leads (fun c => (Request.install
      (.machine E.machine) fun _ => .done v).perform c) s
      (.ok (.label s.labels.size)) s₁ :=
    .step (a := E.machine) rfl
      (.step (Label.install_eq E.machine code s) (.pure _))
  exact Program.leads_machine hAgrees.calm (hInstall.bind
    (Program.leads_jumpOn hCalm hJump))

/- A future that never settles has no result to read. -/
theorem delivers_unsettledResult
    {x : ν}
    (hNever : E.fates x = some .never)
    (hAgrees : E.Agrees s R) :
    E.Delivers hands .none
      (fun c => ((Breach.unsettledResult x).code E.place
        (.builder E.builder)).run c) s
      (.error (.breached (.unsettledResult x))) R := by
  let row : AwaiterCell := .future (E.place x) true
  let s₁ := s.withAwaiter row
  have hMoves := E.moves_withAwaiter s row
  have hPending : ¬ s.Settled (E.place x) := by
    intro hSettled
    rcases Session.settled_iff.mp hSettled with ⟨outcome, hAs⟩
    exact (hAgrees.calm.fated x _ hNever).2 outcome hAs
  have hNone :
      (s₁.futures.getD (E.place x) default).settlement = none :=
    Option.not_isSome_iff_eq_none.mp hPending
  rcases Run.defect_eq (α := Value)
      (.notCompleted "getResult()") s₁ with
    ⟨e, hReports, hDefect⟩
  have hSettlement : Future.settlement? (E.place x) s₁ =
      some (.ok none, s₁) := by
    rw [← hNone]
    rfl
  have hResult : Future.result (E.place x) s₁ =
      some (.error e, s₁.numbering 2) :=
    step_eq hSettlement hDefect
  rcases Awaiter.row_eq (s.reads_withAwaiter (E.place x) true)
    with ⟨captured, hRow⟩
  have hCell : Table.awaiters.row s.awaiters.size s₁ =
      some (.ok (.future (E.place x) captured), s₁) := by
    rw [← hRow]
    rfl
  refine delivers_of_leads hAgrees hMoves
    (s.memory_withAwaiter _ _) hReports ?_
  have hRead : Leads (fun c => (Request.getResult
      (.awaiter s.awaiters.size)).perform c) s₁ (.error e)
      (s₁.numbering 2) :=
    .step hCell (.of_eq fun _ => hResult)
  exact (Awaiter.leads_ofValue (E.place x) s).bind
    hRead.bind_error

/- A breach stops the reading, and its code raises a defect. -/
theorem delivers
    {b : Breach ν}
    (hApplies : b.Applies E.toOutlook)
    (hAgrees : E.Agrees s R) :
    E.Delivers hands .none
      (fun c => (b.code E.place (.builder E.builder)).run c) s
      (.error (.breached b)) R := by
  cases b with
  | borrowedLabel => exact delivers_borrowedLabel hAgrees
  | forgedLabel id => exact delivers_forgedLabel id hAgrees
  | uninstalledLabel => exact delivers_uninstalledLabel hAgrees
  | malformedStep v hNot =>
      exact delivers_malformedStep hNot hApplies hAgrees
  | unsettledResult x =>
      exact delivers_unsettledResult hApplies hAgrees

end Breach

end Resumption

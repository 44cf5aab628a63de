import Resumption.Session

/-
  The course of a task: which moments can follow which.

  A course leads from phase to phase.  In a phase the driver
  is either at work, and nobody else can move the task on,
  or it rests until a callback or a settlement comes.  Most
  tasks end once.  One whose awaiter throws although it had
  called back can be ended again, and is spoilt from then on.

  Main declarations:
    * `Phase`, `Phase.Leads`
    * `Course`, `Course.det`, `Course.closed`, `Course.phase_over`
-/

namespace Resumption

------------------------------------------------------------
-- Verdicts
------------------------------------------------------------

/- How a task can end, as far as its listener is told. -/
inductive Verdict where
  | success
  | failure (error : Value)

/- The verdict that an event tells, if it tells one. -/
def Event.verdict? : Event → Option Verdict
  | .success _ => some .success
  | .failure e _ => some (.failure e)
  | _ => none

/- The verdict that an outcome amounts to. -/
def Outcome.verdict : Outcome → Verdict
  | .fulfilled _ => .success
  | .rejected e => .failure e

@[simp] theorem Event.verdict?_ofOutcome
    (synchronous : Bool)
    (outcome : Outcome) :
    (Event.ofOutcome synchronous outcome).verdict? =
      some outcome.verdict := by
  cases outcome <;> rfl

/- A driver has ended its task in one of two states. -/
def DriverState.IsFinal : DriverState → Prop
  | .fulfilled => True
  | .faulted => True
  | _ => False

instance : DecidablePred DriverState.IsFinal
  | .notStarted => isFalse id
  | .running => isFalse id
  | .suspended => isFalse id
  | .fulfilled => isTrue trivial
  | .faulted => isTrue trivial

theorem DriverState.isFinal_ofOutcome
    (outcome : Outcome) :
    (DriverState.ofOutcome outcome).IsFinal := by
  cases outcome <;> trivial

------------------------------------------------------------
-- Phases
------------------------------------------------------------

/- Where a task is between two moments. -/
inductive Phase where
  /- Nothing has happened. -/
  | fresh
  /- The first step is being produced. -/
  | begun
  /- It ended with its first step. -/
  | atOnce (v : Verdict)
  /- Its first step handed it off. -/
  | passedOn
  /- The driver has a step to take. -/
  | taking
  /- The driver is to suspend. -/
  | parking
  /- It has named the label to resume at. -/
  | named (label : Value)
  /- It waits for a callback. -/
  | waiting (label id : Value)
  /- It was called back. -/
  | resuming (label id : Value)
  /- It is to jump. -/
  | called (label : Value)
  /- It jumps. -/
  | inside (label : Value)
  /- It was decided how it ends. -/
  | deciding
  /- It is in its last state. -/
  | ending
  /- It told how it ends. -/
  | closing (v : Verdict)
  /- It settled its output. -/
  | ended (v : Verdict)
  /- It is to hand the task off to a future. -/
  | offering
  /- It told that it hands off. -/
  | offered
  /- It waits for the future that it handed off to. -/
  | handing
  /- An awaiter threw while it waits for that future. -/
  | objecting
  /- It is in its last state all the same. -/
  | overturning
  /- It told a failure, and the future can still settle. -/
  | overruling (v : Verdict)
  /- It failed, and the future can still settle. -/
  | overruled (v : Verdict)
  /- It is to end again. -/
  | relapsing
  /- It told of more than one end. -/
  | spoilt
  /- It handed off to something that is no future. -/
  | wild

/- The moments in which a task that has ended ends again. -/
def Moment.Ends : Moment → Prop
  | .told event => event.verdict?.isSome
  | .stands state => state.IsFinal
  | .concludes => True
  | .unregistered _ => True
  | .settles _ => True
  | _ => False

/- The moments of a task that was handed off to no future. -/
def Moment.Strays : Moment → Prop
  | .told .handOff => True
  | .stands .suspended => True
  | .asks _ _ => True
  | m => m.Ends

namespace Phase

/- One moment leads from one phase to another. -/
inductive Leads : Phase → Moment → Phase → Prop where
  -- Without a driver
  | start : Leads fresh (.told .start) begun
  | finish
      {event v}
      (h : event.verdict? = some v) :
      Leads begun (.told event) (atOnce v)
  | passOn : Leads begun (.told .handOff) passedOn
  | answer {p v} : Leads p (.answers v) p
  -- Suspending and resuming
  | drive : Leads begun (.stands .running) taking
  | park : Leads taking (.stands .suspended) parking
  | name {l} : Leads parking (.suspends l) (named l)
  | wait {l id} :
      Leads (named l) (.told (.suspend id)) (waiting l id)
  | ask {l id k a} :
      Leads (waiting l id) (.asks (some k) a) (waiting l id)
  | wake {l id} :
      Leads (waiting l id) (.stands .running) (resuming l id)
  | resume
      {l id id'}
      (h : ∀ n, id = .int n → id' = id) :
      Leads (resuming l id) (.told (.resume id')) (called l)
  | jump {l} : Leads (called l) (.jumps l false) (inside l)
  | land {l} : Leads (inside l) (.lands l) taking
  -- Ending
  | end_
      {state}
      (h : state.IsFinal) :
      Leads taking (.stands state) ending
  | fail
      {l id state}
      (h : state.IsFinal) :
      Leads (resuming l id) (.stands state) ending
  | stuck {l e} : Leads (named l) (.unregistered e) deciding
  | unregistered {l id e} :
      Leads (waiting l id) (.unregistered e) deciding
  | refused {l id e} :
      Leads (waiting l id) (.refused e) deciding
  | decide
      {state}
      (h : state.IsFinal) :
      Leads deciding (.stands state) ending
  | tell
      {event v}
      (h : event.verdict? = some v) :
      Leads ending (.told event) (closing v)
  | settle
      {outcome v}
      (h : outcome.verdict = v) :
      Leads (closing v) (.settles outcome) (ended v)
  -- Handing off
  | handOver {f} :
      Leads taking (.handsOver (.future f)) offering
  | offer : Leads offering (.told .handOff) offered
  | conclude : Leads offered .concludes deciding
  | hand : Leads offered (.stands .suspended) handing
  | entrust {a} : Leads handing (.asks none a) handing
  | concludeLater : Leads handing .concludes deciding
  -- Ending a task that waits for another future
  | object {e} : Leads handing (.unregistered e) objecting
  | overturn
      {state}
      (h : state.IsFinal) :
      Leads objecting (.stands state) overturning
  | overrule
      {event v}
      (h : event.verdict? = some v) :
      Leads overturning (.told event) (overruling v)
  | settleOver
      {outcome v}
      (h : outcome.verdict = v) :
      Leads (overruling v) (.settles outcome) (overruled v)
  | settleAgain {outcome v} :
      Leads (overruled v) (.settles outcome) (overruled v)
  -- Ending again
  | relapse
      {v m}
      (h : m = .concludes ∨ ∃ e, m = .unregistered e) :
      Leads (ended v) m relapsing
  | relapseOver
      {v m}
      (h : m = .concludes ∨ ∃ e, m = .unregistered e) :
      Leads (overruling v) m relapsing
  | relapseOverruled
      {v m}
      (h : m = .concludes ∨ ∃ e, m = .unregistered e) :
      Leads (overruled v) m relapsing
  | stand
      {state}
      (h : state.IsFinal) :
      Leads relapsing (.stands state) relapsing
  | spoil
      {event v}
      (h : event.verdict? = some v) :
      Leads relapsing (.told event) spoilt
  | again {m} (h : m.Ends) : Leads spoilt m spoilt
  -- Handing off to no future
  | stray
      {v}
      (h : ∀ f, v ≠ .future f) :
      Leads taking (.handsOver v) wild
  | strayOn {m} (h : m.Strays) : Leads wild m wild

end Phase

------------------------------------------------------------
-- Courses
------------------------------------------------------------

/- A story, the latest moment first, leads to a phase. -/
inductive Course : List Moment → Phase → Prop where
  | nil : Course [] .fresh
  | cons
      {story p m q}
      (h : Course story p)
      (hLeads : p.Leads m q) :
      Course (m :: story) q

/- A moment leads to one phase. -/
theorem Phase.Leads.det
    {p q q' : Phase}
    {m : Moment}
    (h : p.Leads m q)
    (h' : p.Leads m q') :
    q = q' := by
  cases h <;> cases h' <;>
    simp_all [DriverState.IsFinal, Event.verdict?, Moment.Ends,
      Moment.Strays]

/- Only in these phases a driver has been in a last state. -/
def Phase.Over : Phase → Prop
  | .ending => True
  | .closing _ => True
  | .ended _ => True
  | .overturning => True
  | .overruling _ => True
  | .overruled _ => True
  | .relapsing => True
  | .spoilt => True
  | .wild => True
  | _ => False

theorem Phase.Over.closed
    {p q : Phase}
    {m : Moment}
    (h : p.Over)
    (hLeads : p.Leads m q) :
    q.Over := by
  cases hLeads <;> first | exact h | trivial

theorem Phase.Leads.over
    {p q : Phase}
    {state : DriverState}
    (h : p.Leads (.stands state) q)
    (hFinal : state.IsFinal) :
    q.Over := by
  cases h with
  | relapse hAgain | relapseOver hAgain
  | relapseOverruled hAgain =>
      rcases hAgain with hSame | ⟨e, hSame⟩ <;> cases hSame
  | drive | park | wake | hand => exact hFinal.elim
  | _ => trivial

namespace Course

/- A story leads to one phase. -/
theorem det
    {story : List Moment}
    {p q : Phase}
    (h : Course story p)
    (h' : Course story q) :
    p = q := by
  induction h generalizing q with
  | nil =>
      cases h'
      rfl
  | cons _ hLeads ih =>
      cases h' with
      | cons h₁ hLeads' =>
          rw [ih h₁] at hLeads
          exact hLeads.det hLeads'

/-
  A course that was in phases which nothing leads out of is
  in one of them ever after.
-/
theorem closed
    {Inside : Phase → Prop}
    (hInside : ∀ {p m q},
      Inside p → p.Leads m q → Inside q)
    {story : List Moment}
    {p : Phase}
    (h : Course story p)
    (hp : Inside p)
    (later : List Moment)
    {q : Phase}
    (h' : Course (later ++ story) q) :
    Inside q := by
  induction later generalizing q with
  | nil => exact det h h' ▸ hp
  | cons m later ih =>
      cases h' with
      | cons h₁ hLeads => exact hInside (ih h₁) hLeads

/- A task went astray if it was handed off to no future. -/
theorem wild_iff
    {story : List Moment}
    {p : Phase}
    (h : Course story p) :
    p = .wild ↔
      ∃ v, .handsOver v ∈ story ∧ ∀ f, v ≠ .future f := by
  induction h with
  | nil => simp
  | @cons story p m q _ hLeads ih =>
      cases hLeads with
      | stray hv => simpa using .inl hv
      | strayOn hStrays =>
          refine ⟨fun _ => ?_, fun _ => rfl⟩
          rcases ih.mp rfl with ⟨v, hMem, hv⟩
          exact ⟨v, List.mem_cons_of_mem _ hMem, hv⟩
      | relapse hAgain | relapseOver hAgain
      | relapseOverruled hAgain =>
          rcases hAgain with rfl | ⟨e, rfl⟩ <;> simpa using ih
      | again hEnds =>
          have hOther : ∀ v, Moment.handsOver v ≠ m := by
            rintro v rfl
            exact hEnds
          simpa [hOther] using ih
      | _ => simpa using ih

/- A driver that was in a last state is in a phase for that. -/
theorem phase_over
    {story : List Moment}
    {p : Phase}
    {state : DriverState}
    (h : Course story p)
    (hMem : .stands state ∈ story)
    (hFinal : state.IsFinal) :
    p.Over := by
  induction h with
  | nil => cases hMem
  | cons _ hLeads ih =>
      rcases List.mem_cons.mp hMem with rfl | hEarlier
      · exact hLeads.over hFinal
      · exact (ih hEarlier).closed hLeads

end Course

end Resumption

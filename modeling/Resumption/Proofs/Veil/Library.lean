import Resumption.Proofs.Veil.Values
import Resumption.Awaiter

/-
  Labels, futures, contexts, promises and awaiters do the same
  under a veil.

  Main declarations:
    * `Veil.matches_jump`
    * `Veil.matches_settle`
    * `Veil.matches_resume`
    * `Veil.matches_register`
-/

namespace Resumption

open Run

namespace Veil

variable {V : Veil}
variable {s t : Session}
variable {c c' : Caller}

------------------------------------------------------------
-- Labels
------------------------------------------------------------

theorem matches_machineOf
    (m : Value) :
    V.Matches Eq (Label.machineOf m) (Label.machineOf m) := by
  unfold Label.machineOf
  split
  · exact matches_pure rfl
  · exact matches_typeError

/- A machine that is made under the veil may check nothing. -/
theorem matches_newMachine
    (assertions : Value) :
    V.Matches Eq (Label.newMachine assertions)
      (Label.newMachine
        (if V.checks then .bool false else assertions)) := by
  refine (column_machines.alloc ?_).bind fun _ =>
    matches_pure rfl
  cases hChecks : V.checks with
  | true => simp [machineRow, hChecks, Value.isMissing,
      Value.truthy]
  | false => simp [machineRow, hChecks]

theorem matches_allocate
    (m : Ref) :
    V.Matches Eq (Label.allocate m) (Label.allocate m) := by
  refine column_machines.row_bind ?_
  rintro cell _ rfl
  refine (column_labels.alloc rfl).bind fun l => ?_
  refine (column_machines.alter m ?_).bind fun _ =>
    matches_pure rfl
  rintro _ _ rfl
  rfl

theorem matches_install
    (m : Ref)
    (code : Closure) :
    V.Matches Eq (Label.install m code)
      (Label.install m (V.closure code)) := by
  refine (matches_allocate m).bind fun l => ?_
  refine (column_labels.alter l ?_).bind fun _ =>
    matches_pure rfl
  rintro _ _ rfl
  rfl

theorem matches_forge
    (id m : Value) :
    V.Matches Eq (Label.forge id m) (Label.forge id m) :=
  (column_labels.alloc rfl).bind fun _ => matches_pure rfl

/- Who owns a label is seen under every veil. -/
theorem Sees.owns_eq
    (h : V.Sees s t)
    (m l : Ref) :
    Label.owns t m l = Label.owns s m l := by
  have hLabel : t.labels.getD l default =
      V.labelRow (s.labels.getD l default) :=
    h.labels.row l
  have hMachine : t.machines.getD m default =
      V.machineRow (s.machines.getD m default) :=
    h.machines.row m
  simp only [Label.owns, hLabel, hMachine, labelRow, machineRow]

theorem matches_refuse
    {α β : Type}
    {R : α → β → Prop}
    (l : Value) :
    V.Matches R (Label.refuse l : Run α)
      (Label.refuse l : Run β) :=
  (matches_field l (by simp [capturedKey])).bind fun id =>
    matches_defect _

theorem matches_owned
    (m : Ref)
    (l : Value) :
    V.Matches Eq (Label.owned m l) (Label.owned m l) := by
  have hRefuse : V.Matches Eq (Label.refuse l : Run Ref)
      (Label.refuse l) :=
    matches_refuse l
  refine matches_get_bind (fun s => ?_) fun s t hSees => ?_
  · split
    · split
      · exact goes_pure _
      · exact hRefuse.goes
    · exact hRefuse.goes
  · split
    · rw [hSees.owns_eq]
      split
      · exact matches_pure rfl
      · exact hRefuse
    · exact hRefuse

theorem matches_replace
    (m : Ref)
    (l : Value)
    (code : Closure) :
    V.Matches Eq (Label.replace m l code)
      (Label.replace m l (V.closure code)) := by
  refine (matches_owned m l).bind fun r => ?_
  refine column_labels.alter r ?_
  rintro _ _ rfl
  rfl

/-
  A jump ends as it does under the veil, unless it refuses
  what it led to and the veil hides that jumps check that.
-/
theorem matches_jump
    (hc : V.Serves c c')
    (m : Ref)
    (l : Value) :
    V.Matches Eq (Label.jump c m l) (Label.jump c' m l) := by
  refine (matches_owned m l).bind fun r => ?_
  refine column_labels.row_bind ?_
  rintro cell _ rfl
  simp only [labelRow]
  cases cell.code with
  | none => exact matches_defect _
  | some code =>
      refine (hc.call code []).bind fun step => ?_
      refine column_machines.row_bind ?_
      intro machine machine' hRow
      have hAsserts : machine'.assertions =
          (machine.assertions && !V.checks) := by
        rw [hRow, machineRow]
      by_cases hRefuses :
          (machine.assertions && !step.isStep) = true
      · rw [if_pos hRefuses]
        cases hChecks : V.checks with
        | true =>
            refine matches_shown ?_ rfl
              (matches_defect (V := V) (R := Eq) _).goes
            simp [Hides, hChecks]
        | false =>
            have hSame : (machine'.assertions
                && !step.isStep) = true := by
              simpa [hAsserts, hChecks] using hRefuses
            rw [if_pos hSame]
            exact (matches_chronicle rfl rfl rfl rfl).bind fun _ =>
              matches_defect _
      · have hNot : ¬ (machine'.assertions
            && !step.isStep) = true := by
          intro h
          simp only [hAsserts, Bool.and_eq_true] at h
          simp [h.1.1, h.2] at hRefuses
        rw [if_neg hRefuses, if_neg hNot]
        exact matches_pure rfl

------------------------------------------------------------
-- Futures
------------------------------------------------------------

theorem matches_newFuture :
    V.Matches Eq Future.new Future.new :=
  column_futures.alloc (by simp [futureRow])

theorem matches_settlement?
    (f : Ref) :
    V.Matches Eq (Future.settlement? f)
      (Future.settlement? f) := by
  refine column_futures.row_bind ?_
  rintro cell _ rfl
  exact matches_pure rfl

/- The watchers are told under the veil, one after the other. -/
theorem matches_notify
    (hc : V.Serves c c')
    (watchers : List Closure)
    (failure : Option Value) :
    V.Matches Eq (Future.notify c watchers failure)
      (Future.notify c' (watchers.map V.closure) failure) := by
  induction watchers generalizing failure with
  | nil => exact matches_pure rfl
  | cons w rest ih =>
      refine (hc.call w []).attempt.bind fun told => ?_
      cases told with
      | ok v => exact ih failure
      | error e => exact ih _

theorem matches_settle
    (hc : V.Serves c c')
    (f : Ref)
    (outcome : Outcome) :
    V.Matches Eq (Future.settle c f outcome)
      (Future.settle c' f outcome) := by
  refine column_futures.row_bind ?_
  rintro cell _ rfl
  simp only [futureRow, Array.toList_map]
  split
  · exact matches_pure rfl
  · refine matches_freshStamp.bind fun id => ?_
    refine (column_futures.alter f ?_).bind fun _ => ?_
    · rintro _ _ rfl
      simp [futureRow]
    · refine (matches_notify hc _ none).bind fun failure => ?_
      cases failure with
      | some e => exact matches_raise e
      | none => exact matches_pure rfl

theorem matches_watch
    (hc : V.Serves c c')
    (f : Ref)
    (w : Closure) :
    V.Matches Eq (Future.watch c f w)
      (Future.watch c' f (V.closure w)) := by
  refine (matches_settlement? f).bind fun settlement => ?_
  split
  · exact (hc.call w []).discard
  · refine column_futures.alter f ?_
    rintro _ _ rfl
    simp [futureRow]

theorem matches_settled
    (outcome : Outcome) :
    V.Matches Eq (Future.settled outcome)
      (Future.settled outcome) :=
  matches_freshStamp.bind fun _ =>
    column_futures.alloc (by simp [futureRow])

theorem matches_futureResult
    (f : Ref) :
    V.Matches Eq (Future.result f) (Future.result f) := by
  refine (matches_settlement? f).bind fun settlement => ?_
  cases settlement with
  | none => exact matches_defect _
  | some settlement =>
      dsimp only
      cases settlement.outcome with
      | fulfilled v => exact matches_pure rfl
      | rejected e => exact matches_raise e

------------------------------------------------------------
-- Functions and Contexts
------------------------------------------------------------

theorem matches_newFunction
    (code : Closure) :
    V.Matches Eq (newFunction code)
      (newFunction (V.closure code)) :=
  (column_functions.alloc rfl).bind fun _ => matches_pure rfl

theorem matches_callValue
    (hc : V.Serves c c')
    (f : Value)
    (args : List Value) :
    V.Matches Eq (callValue c f args) (callValue c' f args) := by
  unfold callValue
  split
  · refine column_functions.row_bind ?_
    rintro code _ rfl
    exact hc.call code args
  · exact matches_typeError

theorem matches_callMethod
    (hc : V.Serves c c')
    (v : Value)
    (key : String)
    (args : List Value) :
    V.Matches Eq (callMethod c v key args)
      (callMethod c' v key args) := by
  unfold callMethod
  split
  · exact matches_callValue hc _ args
  · exact matches_typeError

theorem matches_recording
    (name : Value) :
    V.Matches Eq (Context.recording name)
      (Context.recording name) :=
  (column_contexts.alloc rfl).bind fun _ => matches_pure rfl

theorem matches_customContext
    (name : Value)
    (post : Closure) :
    V.Matches Eq (Context.custom name post)
      (Context.custom name (V.closure post)) :=
  (column_contexts.alloc rfl).bind fun _ => matches_pure rfl

theorem matches_post
    (hc : V.Serves c c')
    (context f : Value) :
    V.Matches Eq (Context.post c context f)
      (Context.post c' context f) := by
  unfold Context.post
  split
  · next r =>
      refine column_contexts.row_bind ?_
      rintro cell _ rfl
      simp only [contextRow]
      cases cell.posting with
      | recording posts =>
          refine (column_contexts.alter r ?_).bind fun _ => ?_
          · rintro cell _ rfl
            rcases cell with ⟨name, _ | _⟩ <;> rfl
          · exact (matches_callValue hc f []).discard.bind
              fun _ => matches_pure rfl
      | custom code => exact hc.call code _
  · exact matches_callMethod hc context "post" _

/- A callback is posted under the veil as it is without. -/
theorem matches_resume
    (hc : V.Serves c c')
    (context : Value)
    (callback : Closure) :
    V.Matches Eq (Context.resume c context callback)
      (Context.resume c' context (V.closure callback)) := by
  refine (column_latches.alloc rfl).bind fun entered => ?_
  refine (matches_newFunction
    (.posted entered context callback)).bind fun posted => ?_
  refine (matches_chronicle (i := .posts context callback)
    (j := .posts context (V.closure callback))
    rfl rfl rfl rfl).bind fun _ => ?_
  refine (matches_post hc context posted).attempt.bind
    fun ended => ?_
  cases ended with
  | ok v => exact matches_pure rfl
  | error e =>
      refine column_latches.row_bind ?_
      rintro was _ rfl
      split
      · exact matches_raise e
      · refine (matches_newRecord _).bind fun failure => ?_
        exact (hc.call callback [failure]).discard.bind
          fun _ => matches_pure rfl

theorem matches_enterContext
    (hc : V.Serves c c')
    (entered : Ref)
    (context : Value)
    (callback : Closure) :
    V.Matches Eq (Context.enter c entered context callback)
      (Context.enter c' entered context
        (V.closure callback)) := by
  refine (column_latches.alter entered fun _ _ _ => rfl).bind
    fun _ => ?_
  exact ((hc.call callback []).elsewhere context).discard.bind
    fun _ => matches_pure rfl

end Veil

end Resumption

import Resumption.Proofs.Task.Work

/-
  A driver ends its task: it enters its last state, tells its
  listener, and settles its output.  What can come between
  depends on whether it waits for a future that it handed
  its task off to.

  Main declarations:
    * `Ended`
    * `Busy.settle`
    * `Busy.finish`, `Busy.finishOver`, `Busy.finishOpen`
    * `Driving.ensures_unregistered`
-/

namespace Resumption

open Session World

section Ends

variable {held excused : List Ref}
variable {s₀ s s' : Session}
variable {t d : Ref}
variable {p q : Phase}
variable {cell : DriverCell}
variable {e : Option Outcome}
variable {caller : Caller}
variable {α : Type}

------------------------------------------------------------
-- Ends and Errors
------------------------------------------------------------

/-
  The world has moved.  What is thrown has something to be
  blamed for it, and is thrown in no network.
-/
structure Ended
    (held excused : List Ref)
    (s₀ : Session)
    (blame : Prop)
    (r : Except Value α)
    (s : Session) : Prop where
  moves : (Driving held excused).Moves s₀ s
  quiet : ∀ e, r = .error e → blame ∧ ¬ s.Network

theorem Ended.ok
    {blame : Prop}
    {a : α}
    (h : (Driving held excused).Moves s₀ s) :
    Ended held excused s₀ blame (.ok a) s :=
  ⟨h, by simp⟩

theorem Ended.mono
    {blame blame' : Prop}
    {r : Except Value α}
    (h : Ended held excused s₀ blame r s)
    (hBlame : blame → blame') :
    Ended held excused s₀ blame' r s :=
  ⟨h.moves, fun err hErr =>
    ⟨hBlame (h.quiet err hErr).1, (h.quiet err hErr).2⟩⟩

theorem Ended.after
    {blame : Prop}
    {r : Except Value α}
    (h : Ended held excused s blame r s')
    (hMoves : (Driving held excused).Moves s₀ s) :
    Ended held excused s₀ blame r s' :=
  ⟨hMoves.trans h.moves, h.quiet⟩

/- Of a driver that went astray nothing else is known. -/
theorem Ended.of_stray
    {r : Except Value α}
    (hMoves : (Driving held excused).Moves s s')
    (hStray : s.Stray d) :
    Ended held excused s True r s' :=
  ⟨hMoves, fun _ _ => ⟨trivial,
    (hMoves.rel.extends_.stray hStray).not_network⟩⟩

/- What ends the work counts from where the work began. -/
theorem Busy.ended
    {blame : Prop}
    {r : Except Value α}
    (h : Busy held excused s₀ t d cell p e s)
    (hEnded : Ended held excused s blame r s')
    (hExpects : p.expects? = none) :
    Ended held excused s₀ blame r s' :=
  ⟨h.onto hEnded.moves hExpects, hEnded.quiet⟩

/- A task that is over waits for no callback. -/
theorem Phase.Over.expects?
    (h : p.Over) :
    p.expects? = none := by
  cases p <;> first | rfl | exact h.elim

theorem Phase.Over.not_resume
    (h : p.Over) :
    ¬ p.Pledges .resume := by
  intro hPledges
  cases p <;> first | exact h.elim | cases hPledges

/- An output settles when the task is over. -/
theorem Phase.Leads.over_of_settles
    {outcome : Outcome}
    (h : p.Leads (.settles outcome) q) :
    q.Over := by
  cases h with
  | relapse hAgain | relapseOver hAgain
  | relapseOverruled hAgain =>
      rcases hAgain with hSame | ⟨_, hSame⟩ <;> cases hSame
  | _ => trivial

/- A task with an outcome is mindful of having ended. -/
theorem Mindful.of_ended
    {excused : Prop}
    (hOver : p.Over)
    (hEnding : (s.ending cell).isSome) :
    Mindful excused s d cell p := by
  cases p <;>
    first | trivial | exact .inr hEnding

------------------------------------------------------------
-- Steps of a Driver
------------------------------------------------------------

theorem Session.Drives.getD
    (h : s.Drives t d cell) :
    s.drivers.getD d default = cell := by
  simp [h.1]

theorem Session.Drives.lt
    (h : s.Drives t d cell) :
    d < s.drivers.size :=
  (Array.getElem?_eq_some_iff.mp h.1).1

theorem ensures_note_bind
    {m : Moment}
    {f : Unit → Run α}
    {post : Except Value α → Session → Prop}
    (h : s.Drives t d cell) :
    (Driver.note d m >>= f).Ensures s post ↔
      (f ()).Ensures (s.noted t m) post := by
  change ((Run.note ((Table.drivers.rows s).getD d
    default).emitter.task m) >>= f).Ensures s post ↔ _
  rw [show (Table.drivers.rows s).getD d default = cell
    from h.getD, h.2]
  exact Iff.rfl

theorem ensures_note
    {m : Moment}
    {post : Except Value Unit → Session → Prop}
    (h : s.Drives t d cell) :
    (Driver.note d m).Ensures s post ↔
      post (.ok ()) (s.noted t m) := by
  change (Run.note ((Table.drivers.rows s).getD d
    default).emitter.task m).Ensures s post ↔ _
  rw [show (Table.drivers.rows s).getD d default = cell
    from h.getD, h.2]
  exact Run.ensures_alter

/- A change of state keeps a driver's emitter and output. -/
theorem mild_state
    (state : DriverState) :
    Mild ({ · with state := state }) :=
  ⟨fun _ => rfl, fun _ => rfl, fun _ => Nat.le_refl _⟩

theorem ensures_setState_bind
    {state : DriverState}
    {f : Unit → Run α}
    {post : Except Value α → Session → Prop}
    (h : s.Drives t d cell) :
    (Driver.setState d state >>= f).Ensures s post ↔
      (f ()).Ensures
        ((s.noted t (.stands state)).reseated d
          ({ · with state := state })) post := by
  unfold Driver.setState
  rw [bind_assoc, ensures_note_bind h]
  exact Iff.rfl

/-
  A driver enters a state, and its task another phase.  In a
  last state nobody is to resume the task.
-/
theorem Busy.stood
    (h : Busy held excused s₀ t d cell p e s)
    {state : DriverState}
    (hLeads : p.Leads (.stands state) q)
    (hPledges : ∀ e, s.Pledged d e →
      q.Pledges e ∨ e = .resume ∧ state.IsFinal) :
    Busy held excused s₀ t d { cell with state := state } q e
      ((s.noted t (.stands state)).reseated d
        ({ · with state := state })) := by
  have hNoted : Busy held excused s₀ t d cell q e
      (s.noted t (.stands state)) :=
    { work := h.work.noted hLeads
      desk := h.desk.noted trivial fun e hp => by
        rcases hPledges e (pledged_of_noted hp) with
          hStill | ⟨rfl, hFinal⟩
        · exact hStill
        · exact absurd hp (not_pledged_of_final
            h.desk.drives h.work.lt hFinal)
      ending := h.ending }
  exact hNoted.reseated (mild_state state) fun _ => rfl

theorem ensures_emit
    {event : Event}
    {post : Except Value Unit → Session → Prop}
    (h : s.Drives t d cell) :
    (Driver.emit caller d event).Ensures s post ↔
      (cell.emitter.tell caller event).Ensures
        (s.noted t (.told event)) post := by
  unfold Driver.emit Emitter.emit
  rw [Run.ensures_row_bind,
    show (Table.drivers.rows s).getD d default = cell
      from h.getD, h.2]
  exact Iff.rfl

/- The listener of a driver may be told of its events. -/
theorem fits_listener
    {W : World}
    (hs : W.Sound s)
    (h : s.Drives t d cell) :
    ∀ c ∈ cell.emitter.listener, W.fit s c := by
  have hStocked := hs.stocked.listeners d
  rw [show s.drivers.getD d default = cell from h.getD]
    at hStocked
  exact hStocked

/-
  While the listener is told of an event, the task is held
  if it waits for no future.
-/
theorem Busy.emit
    (h : Busy held excused s₀ t d cell p e s)
    (hc : (Driving (t :: held) excused).Serves caller)
    {event : Event}
    (hLeads : p.Leads (.told event) q)
    (hShut : cell.Shut)
    (hFree : ∀ e, ¬ s.Pledged d e)
    (hTame : q ≠ .wild)
    {post : Except Value Unit → Session → Prop}
    (hPost : ∀ s', Busy held excused s₀ t d cell q e s' →
      s.Extends s' → (∀ e, ¬ s'.Pledged d e) →
        post (.ok ()) s') :
    (Driver.emit caller d event).Ensures s post := by
  have h₁ := h.noted hLeads trivial fun e hp =>
    absurd hp (hFree e)
  have hFree₁ : ∀ e,
      ¬ (s.noted t (.told event)).Pledged d e :=
    fun e hp => hFree e (pledged_of_noted hp)
  have hs₁ := h₁.work.hold (h₁.desk.still h₁.work.sane
    h₁.work.course hShut hFree₁ hTame)
  refine (ensures_emit h.desk.drives).mpr ?_
  have hTell := keeps_tell hc hs₁
    (fits_listener hs₁ h₁.desk.drives) event
  refine Run.Ensures.mono (hTell.and tell_ne_error) ?_
  rintro r s' ⟨hMoves, rfl⟩
  have hUnmoved := hMoves.rel.unmoved t List.mem_cons_self
  exact hPost s' (h₁.moved hMoves)
    ((s.extends_noted t _).trans hMoves.rel.extends_)
    fun e hp => hFree₁ e (hUnmoved.pledged h₁.desk.drives hp)

------------------------------------------------------------
-- Settling the Output
------------------------------------------------------------

/- Whoever a future is to tell is awaited by a free task. -/
theorem AtWork.awaits
    (h : AtWork held excused s₀ t p s)
    (hOwn : ∀ d cell e, s.Drives t d cell → s.Pledged d e →
      e = .conclude ∧ p.Pledges e)
    {t' d' f : Ref}
    {cell' : DriverCell}
    {e : Errand}
    {w : Closure}
    (hDrives : s.Drives t' d' cell')
    (hw : w ∈ s.watchers f)
    (hToken : s.Tokens d' e w) :
    t' ∉ held ∧ s.Awaits t' cell' w := by
  by_cases hSame : t' = t
  · subst hSame
    obtain ⟨rfl, hPledges⟩ :=
      hOwn d' cell' e hDrives ⟨f, w, hw, hToken⟩
    rcases hToken with ⟨⟨awaiter, rfl⟩, _⟩
    exact ⟨h.free, .conclude h.course hPledges⟩
  · have hFree : t' ∉ held := fun hHeld =>
      ((h.holds t' hHeld).2 d' cell' hDrives).unpledged e
        ⟨f, w, hw, hToken⟩
    have hLt := h.sane.owner t' d' cell' hDrives
    exact ⟨hFree, (h.others t' hLt hSame hFree).awaits
      (h.minded t' hLt hSame hFree) h.sane hDrives hw hToken⟩

/- A task that is over is told of nothing but an outcome. -/
theorem Busy.pledges_of_drives
    (h : Busy held excused s₀ t d cell p e s)
    (hOver : p.Over)
    {d' : Ref}
    {cell' : DriverCell}
    {e' : Errand}
    (hDrives : s.Drives t d' cell')
    (hPledged : s.Pledged d' e') :
    e' = .conclude ∧ p.Pledges e' := by
  obtain rfl := h.work.sane.sole t d d' cell cell'
    h.desk.drives hDrives
  have hPledges := h.desk.pledges e' hPledged
  cases e' with
  | resume => exact absurd hPledges hOver.not_resume
  | conclude => exact ⟨rfl, hPledges⟩

/- A cell with an outcome for an output that is not made yet. -/
def DriverCell.endedEarly
    (cell : DriverCell)
    (outcome : Outcome) : DriverCell :=
  { cell with early := cell.early <|> some outcome }

/-
  The output settles, unless it has, and the task rests.
  Those who watch the output are told then.
-/
theorem Busy.settle
    (h : Busy held excused s₀ t d cell p e s)
    (hAll : ∀ held, (Driving held excused).Serves caller)
    {outcome : Outcome}
    (hLeads : p.Leads (.settles outcome) q)
    (hRests : q.Rests (t ∈ excused))
    (hPledges : ∀ e, s.Pledged d e → q.Pledges e)
    (hSuits : ∀ s' (cell' : DriverCell),
      cell'.fired = cell.fired → cell'.state = cell.state →
        s'.ending cell' = some (e.getD outcome) →
          Suits s' cell' q) :
    (Driver.settle caller d outcome).Ensures s
      (Ended held excused s₀ (cell.output ≠ none)) := by
  have hOver := hLeads.over_of_settles
  have hMindful : ∀ s' (cell' : DriverCell),
      s'.ending cell' = some (e.getD outcome) →
        Mindful (t ∈ excused) s' d cell' q :=
    fun s' cell' hEnding =>
      .of_ended hOver (by rw [hEnding]; rfl)
  have hNoted := h.noted hLeads trivial hPledges
  have hBusy : Busy held excused s₀ t d cell q e
      ((s.noted t (.settles outcome)).tended t .settled) :=
    { work := hNoted.work.tended t .settled
      desk := hNoted.desk.moved (unmoved_tended t t .settled)
      ending := hNoted.ending }
  unfold Driver.settle
  refine Run.ensures_row_bind.mpr ?_
  rw [show (Table.drivers.rows s).getD d default = cell
    from h.desk.drives.getD]
  refine (ensures_note_bind h.desk.drives).mpr ?_
  rw [h.desk.drives.2]
  refine Run.ensures_alter_bind.mpr ?_
  cases hOutput : cell.output with
  | none =>
      change (Table.drivers.alter d
        (·.endedEarly outcome)).Ensures
          ((s.noted t (.settles outcome)).tended t .settled) _
      generalize (s.noted t (.settles outcome)).tended t
        .settled = s₁ at hBusy
      have hMild : Mild (·.endedEarly outcome) :=
        ⟨fun _ => rfl, fun _ => rfl, fun _ => Nat.le_refl _⟩
      have hEarly : cell.early = e := by
        rw [← hBusy.ending, Session.ending, hOutput]
      have hEnding : (s₁.reseated d
          (·.endedEarly outcome)).ending
            (cell.endedEarly outcome) =
              some (e.getD outcome) := by
        unfold Session.ending DriverCell.endedEarly
        rw [hOutput]
        subst hEarly
        cases cell.early <;> rfl
      have hDesk := hBusy.desk.reseated hMild
      have hWork := hBusy.work.reseated hMild hBusy.desk.drives
      refine Run.ensures_alter.mpr (.ok (hWork.rest hRests
        (hDesk.seated (hSuits _ _ rfl rfl hEnding))
        (hDesk.minds hWork.sane hWork.course
          (hMindful _ _ hEnding)) fun hLost => ?_))
      exact absurd hLost (not_lost hWork.course hOver.expects?)
  | some f =>
      change (discard (Future.settle caller f outcome) :
        Run Unit).Ensures
          ((s.noted t (.settles outcome)).tended t .settled) _
      generalize (s.noted t (.settles outcome)).tended t
        .settled = s₁ at hBusy
      have hOutcome : s₁.outcome? f = e := by
        rw [← hBusy.ending, Session.ending, hOutput]
      refine Run.Ensures.discard ?_
      cases e with
      | some o =>
          refine Driving.ensures_settle_of_settled
            (by rw [hOutcome]; rfl) (.ok ?_)
          exact hBusy.rest hRests
            (hSuits _ cell rfl rfl hBusy.ending)
            (hMindful _ _ hBusy.ending) hOver.expects?
      | none =>
          rcases hBusy.work.settling hBusy.desk.drives hOutput
            hOutcome outcome with ⟨hWork, hLeaves⟩
          have hLt := hBusy.work.sane.output_lt f
            ⟨d, cell, hBusy.desk.drives.1, hOutput⟩
          have hEnding : (Driving.settling s₁ f outcome).ending
              cell = some outcome := by
            have hRead := outcome?_settledAt
              (s := s₁.stamped)
              f f s₁.stamp outcome
            rw [if_pos ⟨rfl, hLt⟩] at hRead
            rw [Session.ending, hOutput]
            exact hRead
          have hFuture := refuture_settledAt
            (hBusy.work.counted s₁.stamped.objects
              s₁.stamped.events).sane
            hOutcome s₁.stamp outcome
          have hDesk : Desk (Driving.settling s₁ f outcome)
              t d cell q :=
            ⟨hBusy.desk.drives, { hBusy.desk.linked with },
              fun e hp => hBusy.desk.pledges e
                (hFuture.pledged hp)⟩
          have hSound := hWork.sound hRests
            (hDesk.seated (hSuits _ cell rfl rfl hEnding))
            (hDesk.minds hWork.sane hWork.course
              (hMindful _ _ hEnding))
          refine Run.Ensures.mono
            (Driving.ensures_settlePending hAll
              hBusy.work.sane hLt hOutcome hSound hLeaves
              fun t' d' cell' e' hDrives w hw hToken =>
                hBusy.work.awaits
                  (fun d'' cell'' e'' =>
                    hBusy.pledges_of_drives hOver)
                  hDrives hw hToken) ?_
          intro r s' hSettled
          refine ⟨hBusy.onto hSettled.moves hOver.expects?, ?_⟩
          intro err hErr
          refine ⟨by simp, fun hNetwork => ?_⟩
          rw [hSettled.quiet hNetwork] at hErr
          cases hErr

------------------------------------------------------------
-- Coming Back to a Task
------------------------------------------------------------

/- A task that nobody holds rests in a phase that suits it. -/
theorem Driving.busy
    (hs : (Driving held excused).Sound s)
    (hDrives : s.Drives t d cell)
    (hFree : t ∉ held) :
    ∃ p : Phase, p.Rests (t ∈ excused) ∧ Suits s cell p ∧
      Mindful (t ∈ excused) s d cell p ∧
      Busy held excused s t d cell p (s.ending cell) s := by
  have hLt := hs.inv.sane.owner t d cell hDrives
  rcases hs.inv.placed t hLt hFree with
    ⟨p, hRests, hCourse, hSeated⟩
  rcases hSeated with ⟨hNone, _⟩ |
    ⟨d', cell', hDrives', hLinked, hSuits, hPledges⟩
  · exact absurd hDrives (hNone d cell)
  · have hSame :=
      hs.inv.sane.sole t d d' cell cell' hDrives hDrives'
    subst hSame
    have hCell := Option.some.inj
      (hDrives.1.symm.trans hDrives'.1)
    subst hCell
    exact ⟨p, hRests, hSuits,
      hs.inv.minded t hLt hFree d cell p hDrives hCourse,
      .begin_ hs hLt hFree hCourse,
      ⟨hDrives, hLinked, hPledges⟩, rfl⟩

/-
  Whatever others did, a task that was in phases which
  nothing leads out of is in one of them.
-/
theorem Driving.busy_after
    {Inside : Phase → Prop}
    (hInside : ∀ {p m q},
      Inside p → p.Leads m q → Inside q)
    (hMoves : (Driving held excused).Moves s s')
    (hDrives : s.Drives t d cell)
    (hFree : t ∉ held)
    (hCourse : Course (s.story t) p)
    (hp : Inside p) :
    ∃ cell' q, Inside q ∧ cell'.output = cell.output ∧
      q.Rests (t ∈ excused) ∧ Suits s' cell' q ∧
      Busy held excused s' t d cell' q (s'.ending cell') s' := by
  rcases hMoves.rel.extends_.drivers d cell hDrives.1 with
    ⟨cell', hCell', hEmitter, _⟩
  have hDrives' : s'.Drives t d cell' :=
    ⟨hCell', by rw [hEmitter, hDrives.2]⟩
  rcases Driving.busy hMoves.sound hDrives' hFree with
    ⟨q, hRests, hSuits, _, hBusy⟩
  rcases hMoves.rel.extends_.stories t with ⟨later, hLater⟩
  refine ⟨cell', q, ?_,
    hMoves.rel.outputs d cell cell' hDrives.1 hCell',
    hRests, hSuits, hBusy⟩
  exact hCourse.closed hInside hp later
    (hLater ▸ hBusy.work.course)

------------------------------------------------------------
-- Ending for Good
------------------------------------------------------------

/-
  A driver ends its task while it waits for no future: the
  task is held until its output settles.
-/
theorem Busy.finish
    (h : Busy held excused s₀ t d cell p none s)
    (hAll : ∀ held, (Driving held excused).Serves caller)
    (hLeads : ∀ state : DriverState, state.IsFinal →
      p.Leads (.stands state) .ending)
    (hPledged : ¬ s.Pledged d .conclude)
    (outcome : Outcome) :
    (Driver.finish caller d outcome).Ensures s
      (Ended held excused s₀ (cell.output ≠ none)) := by
  have hFinal := DriverState.isFinal_ofOutcome outcome
  have h₁ := h.stood (hLeads _ hFinal) fun e hp => by
    cases e with
    | resume => exact .inr ⟨rfl, hFinal⟩
    | conclude => exact absurd hp hPledged
  unfold Driver.finish
  refine (ensures_setState_bind h.desk.drives).mpr ?_
  refine Run.Ensures.bind (h₁.emit (hAll (t :: held))
    (.tell (Event.verdict?_ofOutcome false outcome))
    (.inr hFinal) (h₁.desk.unpledged rfl) (by simp) ?_)
  intro s₂ h₂ _ _
  refine h₂.settle hAll (.settle rfl) trivial
    h₂.desk.pledges ?_
  intro s' cell' _ hState hEnding
  refine ⟨.inr ?_, by rw [hEnding]; rfl⟩
  rw [hState]
  exact hFinal

------------------------------------------------------------
-- Ending Again and Again
------------------------------------------------------------

/- In these phases a task can end any number of times. -/
def Phase.Open (p : Phase) : Prop :=
  p = .spoilt ∨ p = .wild

theorem Phase.Open.closed
    {m : Moment}
    (h : p.Open)
    (hLeads : p.Leads m q) :
    q.Open := by
  rcases h with rfl | rfl <;> cases hLeads <;> simp [Open]

/- What suits an open phase depends on no output. -/
theorem Phase.Open.suits
    (h : p.Open)
    {cell' : DriverCell}
    (hFired : cell'.fired = cell.fired)
    (hState : cell'.state = cell.state)
    (hSuits : Suits s cell p) :
    Suits s' cell' p := by
  rcases h with rfl | rfl
  · simpa only [Suits, DriverCell.Shut, DriverCell.Spent,
      hFired, hState] using hSuits
  · simpa only [Suits, DriverCell.Spent, hFired] using hSuits

/- The output of a task that can end again is settled at will. -/
theorem Busy.settleOpen
    (h : Busy held excused s₀ t d cell p e s)
    (hAll : ∀ held, (Driving held excused).Serves caller)
    (hOpen : p.Open)
    (hSuits : Suits s cell p)
    (outcome : Outcome) :
    (Driver.settle caller d outcome).Ensures s
      (Ended held excused s₀ (cell.output ≠ none)) := by
  refine h.settle hAll ?_ ?_ h.desk.pledges ?_
  · rcases hOpen with rfl | rfl
    · exact .again trivial
    · exact .strayOn trivial
  · rcases hOpen with rfl | rfl <;> trivial
  · intro s' cell' hFired hState _
    exact hOpen.suits hFired hState hSuits

/-
  A driver ends a task that can end again.  While its
  listener is told, others may end the task once more.
-/
theorem Busy.finishOpen
    (h : Busy held excused s₀ t d cell p e s)
    (hAll : ∀ held, (Driving held excused).Serves caller)
    (hPhase : p = .relapsing ∨ p.Open)
    (hSpent : p = .wild → cell.Spent)
    (hKnown : p ≠ .wild → t ∈ excused ∨ e.isSome)
    (outcome : Outcome) :
    (Driver.finish caller d outcome).Ensures s
      (Ended held excused s₀ (cell.output ≠ none)) := by
  have hFinal := DriverState.isFinal_ofOutcome outcome
  have hVerdict := Event.verdict?_ofOutcome false outcome
  have hStands : p.Leads (.stands (.ofOutcome outcome)) p := by
    rcases hPhase with rfl | rfl | rfl
    · exact .stand hFinal
    · exact .again hFinal
    · refine .strayOn ?_
      cases outcome <;> trivial
  have hTold : ∃ q : Phase, q.Open ∧
      q.Rests (t ∈ excused) ∧
      (∀ e, p.Pledges e → q.Pledges e) ∧
      p.Leads (.told (.ofOutcome false outcome)) q ∧
      (∀ s', Suits s'
        { cell with state := .ofOutcome outcome } q) ∧
      ∀ s' cell', s'.ending cell' = e →
        Mindful (t ∈ excused) s' d cell' q := by
    rcases hPhase with rfl | rfl | rfl
    · refine ⟨.spoilt, .inl rfl, trivial, fun _ => id,
        .spoil hVerdict, fun _ => .inr hFinal, ?_⟩
      rintro _ _ rfl
      exact hKnown (by simp)
    · refine ⟨.spoilt, .inl rfl, trivial, fun _ => id,
        .again ?_, fun _ => .inr hFinal, ?_⟩
      · simp [Moment.Ends, hVerdict]
      · rintro _ _ rfl
        exact hKnown (by simp)
    · refine ⟨.wild, .inr rfl, trivial, fun _ => id,
        .strayOn ?_, fun _ => hSpent rfl, fun _ _ _ => trivial⟩
      cases outcome <;> simp [Moment.Strays, Moment.Ends,
        Event.ofOutcome, Event.verdict?]
  rcases hTold with ⟨q, hOpen, hRests, hPledges, hLeads,
    hSuits, hMindful⟩
  have h₁ := h.stood hStands fun e hp =>
    .inl (h.desk.pledges e hp)
  have h₂ := h₁.noted hLeads trivial fun e hp =>
    hPledges e (h₁.desk.pledges e hp)
  have hExpects : q.expects? = none := by
    rcases hOpen with rfl | rfl <;> rfl
  have hMoves := h₂.rest hRests (hSuits _)
    (hMindful _ _ h₂.ending) hExpects
  unfold Driver.finish
  refine (ensures_setState_bind h.desk.drives).mpr ?_
  refine Run.Ensures.bind
    ((ensures_emit h₁.desk.drives).mpr ?_)
  have hTell := keeps_tell (hAll held) hMoves.sound
    (fits_listener hMoves.sound h₂.desk.drives)
    (.ofOutcome false outcome)
  refine Run.Ensures.mono (hTell.and tell_ne_error) ?_
  rintro r s₃ ⟨hLater, rfl⟩
  rcases Driving.busy_after Phase.Open.closed hLater
    h₂.desk.drives h.work.free h₂.work.course hOpen with
      ⟨cell₃, q₃, hOpen₃, hOutput, _, hSuits₃, h₃⟩
  refine Run.Ensures.mono
    (h₃.settleOpen hAll hOpen₃ hSuits₃ outcome) ?_
  intro r s' hEnd
  exact (hEnd.after (hMoves.trans hLater)).mono
    fun hSome => hOutput ▸ hSome

------------------------------------------------------------
-- Ending All the Same
------------------------------------------------------------

theorem Busy.excuse
    (h : Busy held excused s₀ t d cell p e s)
    (t' : Ref) :
    Busy held (t' :: excused) s₀ t d cell p e s where
  work :=
    { h.work with
      others := fun t'' ht'' hOther hFree =>
        (h.work.others t'' ht'' hOther hFree).mono
          (List.mem_cons_of_mem t')
      minded := fun t'' ht'' hOther hFree =>
        (h.work.minded t'' ht'' hOther hFree).mono
          (List.mem_cons_of_mem t') }
  desk := h.desk
  ending := h.ending

/- Who is at work on a task needs no excuse for it. -/
theorem Busy.unexcuse
    (h : Busy held (t :: excused) s₀ t d cell p e s) :
    Busy held excused s₀ t d cell p e s where
  work :=
    { h.work with
      others := fun t' ht' hOther hFree =>
        (h.work.others t' ht' hOther hFree).mono fun hMem =>
          (List.mem_cons.mp hMem).resolve_left hOther
      minded := fun t' ht' hOther hFree =>
        (h.work.minded t' ht' hOther hFree).mono fun hMem =>
          (List.mem_cons.mp hMem).resolve_left hOther }
  desk := h.desk
  ending := h.ending

/- The phases of a task that failed while it was handed off. -/
def Phase.Overrules (v : Verdict) (p : Phase) : Prop :=
  p = .overruling v ∨ p = .overruled v ∨ p = .relapsing ∨
    p = .spoilt

theorem Phase.Overrules.closed
    {v : Verdict}
    {m : Moment}
    (h : p.Overrules v)
    (hLeads : p.Leads m q) :
    q.Overrules v := by
  rcases h with rfl | rfl | rfl | rfl <;> cases hLeads <;>
    simp [Overrules]

/-
  A driver fails its task although it waits for a future.
  While its listener is told, the future may settle.
-/
theorem Busy.finishOver
    (h : Busy held excused s₀ t d cell .objecting none s)
    (hAll : ∀ held excused,
      (Driving held excused).Serves caller)
    (hSpent : cell.Spent)
    (outcome : Outcome) :
    (Driver.finish caller d outcome).Ensures s
      (Ended held excused s₀ (cell.output ≠ none)) := by
  have hFinal := DriverState.isFinal_ofOutcome outcome
  have h₁ := h.stood (.overturn hFinal) fun e hp =>
    .inl (h.desk.pledges e hp)
  have h₂ := (h₁.noted
    (.overrule (Event.verdict?_ofOutcome false outcome))
    trivial h₁.desk.pledges).excuse t
  have hMoves := h₂.rest List.mem_cons_self
    ⟨hSpent, h₂.ending⟩ trivial rfl
  unfold Driver.finish
  refine (ensures_setState_bind h.desk.drives).mpr ?_
  refine Run.Ensures.bind
    ((ensures_emit h₁.desk.drives).mpr ?_)
  have hTell := keeps_tell (hAll held (t :: excused))
    hMoves.sound (fits_listener hMoves.sound h₂.desk.drives)
    (.ofOutcome false outcome)
  refine Run.Ensures.mono (hTell.and tell_ne_error) ?_
  rintro r s₃ ⟨hLater, rfl⟩
  rcases Driving.busy_after Phase.Overrules.closed hLater
    h₂.desk.drives h.work.free h₂.work.course (.inl rfl) with
      ⟨cell₃, q, hOver, hOutput, hRests, hSuits, hBusy⟩
  have h₃ := hBusy.unexcuse
  have hSettle : (Driver.settle caller d outcome).Ensures s₃
      (Ended held excused s₃ (cell₃.output ≠ none)) := by
    rcases hOver with rfl | rfl | rfl | rfl
    · refine h₃.settle (hAll · excused) (.settleOver rfl)
        trivial h₃.desk.pledges ?_
      intro s' cell' hFired _ hEnding
      rw [hSuits.2] at hEnding
      refine ⟨?_, by rw [hEnding]; rfl⟩
      simpa only [DriverCell.Spent, hFired] using hSuits.1
    · refine h₃.settle (hAll · excused) .settleAgain
        trivial h₃.desk.pledges ?_
      intro s' cell' hFired _ hEnding
      rcases Option.map_eq_some_iff.mp hSuits.2 with
        ⟨o, ho, hVerdict⟩
      rw [ho] at hEnding
      refine ⟨?_, by rw [hEnding]; exact congrArg some hVerdict⟩
      simpa only [DriverCell.Spent, hFired] using hSuits.1
    · exact absurd hRests id
    · exact h₃.settleOpen (hAll · excused) (.inl rfl) hSuits
        outcome
  refine Run.Ensures.mono hSettle ?_
  intro r s' hEnd
  refine ⟨⟨hEnd.moves.sound,
    (hMoves.rel.trans hLater.rel).trans hEnd.moves.rel⟩, ?_⟩
  exact (hEnd.mono fun hSome => hOutput ▸ hSome).quiet

------------------------------------------------------------
-- Awaiters That Throw
------------------------------------------------------------

/-
  A driver fails its task because an awaiter threw, in
  whatever phase the task has come to by then.
-/
theorem Driving.ensures_unregistered
    (hAll : ∀ held excused,
      (Driving held excused).Serves caller)
    (hs : (Driving held excused).Sound s)
    (hDrives : s.Drives t d cell)
    (hFree : t ∉ held)
    (err : Value) :
    (do
      Driver.note d (.unregistered err)
      Driver.fail caller d err : Run Unit).Ensures s
        (Ended held excused s (cell.output ≠ none)) := by
  refine (ensures_note_bind hDrives).mpr ?_
  rcases Driving.busy hs hDrives hFree with
    ⟨p, hRests, hSuits, hMindful, h⟩
  have hClean : p.Leads (.unregistered err) .deciding →
      (∀ e, s.Pledged d e → Phase.Pledges .deciding e) →
      s.ending cell = none →
      (Driver.fail caller d err).Ensures
        (s.noted t (.unregistered err))
        (Ended held excused s (cell.output ≠ none)) := by
    intro hLeads hPledges hEnding
    rw [hEnding] at h
    have h₁ := h.noted hLeads trivial hPledges
    exact h₁.finish (hAll · excused) (fun _ => .decide)
      (fun hp => nomatch h₁.desk.pledges .conclude hp)
      (.rejected err)
  have hAgain : p.Leads (.unregistered err) .relapsing →
      (∀ e, s.Pledged d e → Phase.Pledges .relapsing e) →
      t ∈ excused ∨ (s.ending cell).isSome →
      (Driver.fail caller d err).Ensures
        (s.noted t (.unregistered err))
        (Ended held excused s (cell.output ≠ none)) := by
    intro hLeads hPledges hKnown
    have h₁ := h.noted hLeads trivial hPledges
    exact h₁.finishOpen (hAll · excused) (.inl rfl)
      (by simp) (fun _ => hKnown) (.rejected err)
  cases p with
  | named l =>
      exact hClean .stuck (fun e hp =>
        nomatch h.desk.pledges e hp) hSuits.2
  | waiting l n =>
      exact hClean .unregistered h.desk.pledges
        hSuits.2.2.2.1
  | handing =>
      rw [hSuits.2] at h
      exact (h.noted .object trivial
        h.desk.pledges).finishOver hAll hSuits.1 (.rejected err)
  | ended v =>
      refine hAgain (.relapse (.inr ⟨err, rfl⟩))
        (fun e hp => nomatch h.desk.pledges e hp) (.inr ?_)
      exact Option.isSome_map.symm.trans
        (Option.isSome_of_eq_some hSuits.2)
  | overruling v =>
      exact hAgain (.relapseOver (.inr ⟨err, rfl⟩))
        h.desk.pledges (.inl hRests)
  | overruled v =>
      refine hAgain (.relapseOverruled (.inr ⟨err, rfl⟩))
        h.desk.pledges (.inr ?_)
      exact Option.isSome_map.symm.trans
        (Option.isSome_of_eq_some hSuits.2)
  | spoilt =>
      have h₁ := h.noted (m := .unregistered err)
        (.again trivial) trivial h.desk.pledges
      exact h₁.finishOpen (hAll · excused) (.inr (.inl rfl))
        (by simp) (fun _ => hMindful) (.rejected err)
  | wild =>
      have h₁ := h.noted (m := .unregistered err)
        (.strayOn trivial) trivial h.desk.pledges
      exact h₁.finishOpen (hAll · excused) (.inr (.inr rfl))
        (fun _ => hSuits) (by simp) (.rejected err)
  | _ => exact absurd hSuits id

end Ends

end Resumption

import Resumption.Proofs.Task.HandOff

/-
  A driver suspends its task until a callback comes, and then
  jumps to the label that it had named.  A callback counts
  once, and only while the task waits for it.

  Main declarations:
    * `Busy.suspend`
    * `Busy.nextStep`, `Busy.advanceFirst`
    * `Driving.ensures_resumeIdle`, `Driving.ensures_resumeDue`
-/

namespace Resumption

open Session World

------------------------------------------------------------
-- Callbacks
------------------------------------------------------------

section Callbacks

variable {cell : DriverCell}

/- A new callback of a driver is left. -/
theorem DriverCell.asked_left
    (cell : DriverCell) :
    (cell.fired.push false).getD cell.fired.size true =
      false := by
  simp [Array.getD]

/- A new callback of a driver is the only one left. -/
theorem DriverCell.Spent.asked
    (h : cell.Spent) :
    DriverCell.Single
      { cell with fired := cell.fired.push false } := by
  have hLast : ∀ i, (cell.fired.push false).getD i true =
      false → i = cell.fired.size := by
    intro i hi
    have hOld := h i
    by_cases hLt : i < cell.fired.size
    · have hIn : i < cell.fired.size + 1 := by omega
      simp [Array.getD, hLt] at hOld
      simp [Array.getD, hIn, Array.getElem_push, hLt, hOld]
        at hi
    · by_cases hSame : i = cell.fired.size
      · exact hSame
      · have hOut : ¬ i < cell.fired.size + 1 := by omega
        simp [Array.getD, hOut] at hi
  intro i j hi hj
  exact (hLast i hi).trans (hLast j hj).symm

/- When the only callback that is left fires, none is left. -/
theorem DriverCell.Single.fire
    (h : cell.Single)
    {i : Nat}
    (hi : cell.fired.getD i true = false) :
    DriverCell.Spent
      { cell with
        fired := cell.fired.setIfInBounds i true } := by
  intro j
  change (cell.fired.setIfInBounds i true).getD j true = true
  by_cases hSame : i = j
  · subst hSame
    by_cases hLt : i < cell.fired.size
    · simp [Array.getD, hLt]
    · simp [Array.getD, hLt]
  · have hOther : (cell.fired.setIfInBounds i true).getD j true
        = cell.fired.getD j true := by
      by_cases hLt : j < cell.fired.size
      · simp [Array.getD, hLt, hSame]
      · simp [Array.getD, hLt]
    rw [hOther]
    cases hj : cell.fired.getD j true with
    | true => rfl
    | false => exact absurd (h i j hi hj) hSame

end Callbacks

section Suspension

variable {held excused : List Ref}
variable {s₀ s s' : Session}
variable {t d : Ref}
variable {cell : DriverCell}
variable {caller : Caller}
variable {α β : Type}

------------------------------------------------------------
-- Fields and Tasks
------------------------------------------------------------

/-
  A field that can be read is what the session has, and only
  what is missing has no fields to read.
-/
theorem ensures_field
    (v : Value)
    (key : String) :
    (Run.field v key).Ensures s fun r _ =>
      (∀ w, r = .ok w →
        w = (s.property? v key).getD .undefined) ∧
      ∀ e, r = .error e → v.isMissing := by
  unfold Run.field
  split
  · next hMissing =>
      refine Run.Ensures.bind (Run.Ensures.bind ?_)
      refine Run.ensures_modifyGet.mpr ?_
      refine Run.ensures_pure.mpr (Run.ensures_raise.mpr ?_)
      exact ⟨by simp, fun _ _ => hMissing⟩
  · refine Run.ensures_get_bind.mpr (Run.ensures_pure.mpr ?_)
    refine ⟨fun w hw => ?_, by simp⟩
    cases hw
    rfl

/- What counts as true is not missing. -/
theorem Value.not_missing_of_truthy
    {v : Value}
    (h : v.truthy) :
    ¬ v.isMissing := by
  cases v <;> simp_all [Value.truthy, Value.isMissing]

/- Every end of a run is an error. -/
def Run.Raises
    (act : Run α)
    (s : Session) : Prop :=
  act.Ensures s fun r _ => ∃ e, r = .error e

theorem raises_bind
    {act : Run β}
    {f : β → Run α}
    (h : ∀ b s', (f b).Raises s') :
    (act >>= f).Raises s := by
  refine Run.Ensures.bind fun r s' _ => ?_
  cases r with
  | ok b => exact h b s'
  | error e => exact ⟨e, rfl⟩

theorem raises_defect
    (defect : Defect) :
    (Run.defect defect : Run α).Raises s :=
  raises_bind fun e _ => Run.ensures_raise.mpr ⟨e, rfl⟩

/-
  Which task is the present one is no part of its standing,
  and neither is which one is at home.
-/
theorem Driving.moves_task
    (hs : (Driving held excused).Sound s)
    (task home : Option Ref)
    (chronicle : List Incident) :
    (Driving held excused).Moves s
      { s with
        task := task
        home := home
        chronicle := chronicle } :=
  Standing.moves hs { hs.inv.sane with }
    { Extends.refl s with } rfl
    (fun t => { Unmoved.refl t s with }) (fun _ _ hw => hw)
    { hs.stocked with }

theorem Driving.keeps_withTask
    {act : Run α}
    (hs : (Driving held excused).Sound s)
    (t : Ref)
    (h : ∀ s', (Driving held excused).Moves s s' →
      (Driving held excused).Keeps act s') :
    (Driving held excused).Keeps (Run.withTask t act) s := by
  have hIn := Driving.moves_task hs (some t) (some t)
    (.enters t s.ambient :: s.chronicle)
  refine Run.ensures_withTask.mpr ?_
  refine Run.Ensures.mono (h _ hIn) ?_
  intro r s' hMoves
  exact (hIn.trans hMoves).trans
    (Driving.moves_task hMoves.sound s.task s.home s'.chronicle)

/- A driver knows whether its task has ended. -/
theorem ensures_hasSettled_bind
    {f : Bool → Run α}
    {post : Except Value α → Session → Prop}
    (h : s.Drives t d cell) :
    (Driver.hasSettled d >>= f).Ensures s post ↔
      (f (s.ending cell).isSome).Ensures s post := by
  have hRow : (Table.drivers.rows s).getD d default = cell :=
    h.getD
  unfold Driver.hasSettled Session.ending
  rw [bind_assoc, Run.ensures_row_bind, hRow]
  cases cell.output with
  | none => exact Iff.rfl
  | some f' =>
      rw [← Driving.settlement_of_outcome?]
      exact Iff.rfl

------------------------------------------------------------
-- Suspending
------------------------------------------------------------

theorem mild_fired
    {g : Array Bool → Array Bool}
    (hSize : ∀ fired, fired.size ≤ (g fired).size) :
    Mild fun c => { c with fired := g c.fired } :=
  ⟨fun _ => rfl, fun _ => rfl, fun c => hSize c.fired⟩

theorem mild_current
    (label : Value) :
    Mild fun c => { c with current := label } :=
  ⟨fun _ => rfl, fun _ => rfl, fun _ => Nat.le_refl _⟩

/-
  A driver that has just asked for a callback gives it away,
  or has a future keep it, or is called back at once.
-/
theorem Busy.giveCallback
    {l id : Value}
    {callback : Nat}
    (h : Busy held excused s₀ t d cell (.waiting l id) none s)
    (hAll : ∀ held excused,
      (Driving held excused).Serves caller)
    (awaiter : Value)
    (hSuits : Suits s cell (.waiting l id))
    (hState : cell.state = .suspended)
    (hLeft : cell.fired.getD callback true = false)
    (hFree : ∀ e, ¬ s.Pledged d e)
    (hAsked : s.asked? t =
      some (some callback, s.keeper? awaiter))
    (hEscaped : s.Escaped d callback ↔
      s.keeper? awaiter = none) :
    (Awaiter.register caller awaiter
      (.driverResume d callback)).Ensures s fun r s' =>
        (Driving held excused).Moves s₀ s' ∧
          ∀ e, r = .error e →
            (Driving held excused).Moves s s' := by
  have hMindful : ∀ s' future,
      s'.asked? t = some (some callback, future) →
      (∀ f, ∀ w ∈ s'.watchers f, s'.Tokens d .resume w →
        w = .driverResume d callback ∧ future = some f) →
      Mindful (t ∈ excused) s' d cell (.waiting l id) := by
    intro s' future hLast hTokens
    refine ⟨hState, callback, future, ?_, hLeft, hTokens⟩
    rw [h.desk.drives.2]
    exact hLast
  have hNone := hMindful s _ hAsked fun f w hw hToken =>
    absurd ⟨f, w, hw, hToken⟩ (hFree .resume)
  cases hKeeper : s.keeper? awaiter with
  | none =>
      rw [hKeeper] at hAsked
      have hMoves := h.wait trivial hSuits hNone (by
        rintro ⟨_, _, _, _, _, f, _, _, _, hLast, _⟩
        cases hAsked.symm.trans hLast)
      have hFit : (Driving held excused).fit s
          (.driverResume d callback) :=
        .inl (hEscaped.mpr hKeeper)
      refine Run.Ensures.mono
        ((Driving.hosts (hAll · excused)).keeps_register
          (hAll held excused) hMoves.sound awaiter hFit) ?_
      intro r s' hKept
      exact ⟨hMoves.trans hKept, fun _ _ => hKept⟩
  | some f =>
      have hIdle : ¬ s.Idle d callback := by
        rintro (hOut | hOver)
        · rw [hEscaped.mp hOut] at hKeeper
          cases hKeeper
        · rcases h.desk.drives.over_iff.mp hOver with
            ⟨state, hFinal, hMem⟩
          exact h.work.course.phase_over hMem hFinal
      refine ensures_registerKept hKeeper fun hLt =>
        Driving.ensures_watch (fun _ => ?_) fun hPending => ?_
      · have hs := h.sound trivial hSuits hNone
        have hDue : s.Due t (.driverResume d callback) :=
          .resume h.desk.drives (hFree .resume) hLeft hIdle
            h.work.course
        refine Run.Ensures.mono (hAll held excused _ [] s hs
          (.inr ⟨t, h.work.free, hDue⟩)) ?_
        rintro r s' ⟨hMoves, hAfter⟩
        exact ⟨h.work.onto hMoves fun _ =>
          (hAfter rfl).1 t h.work.free hDue,
          fun _ _ => hMoves⟩
      · rcases h.waits (f := f) rfl hPending
          (hFree .resume) ⟨d, cell, h.desk.drives.1,
            .inl ⟨callback, rfl⟩⟩ ⟨callback, rfl, hIdle⟩
          (by rw [hAsked, hKeeper, if_pos hLt])
          with ⟨h₁, hLost, hTokens⟩
        rw [if_pos hLt] at hTokens
        rw [hKeeper] at hAsked
        have hMoves := h₁.wait trivial
          (hSuits.extends (s.extends_watched f _)
            (h₁.ending.trans h.ending.symm))
          (hMindful _ (some f) hAsked hTokens) hLost
        exact ⟨hMoves, by simp⟩

/-
  A driver asks an awaiter for a new callback.  From then on
  its task waits, whatever the awaiter does.
-/
theorem Busy.ask
    {l id awaiter : Value}
    {callback : Nat}
    (h : Busy held excused s₀ t d cell (.waiting l id) none s)
    (hAll : ∀ held excused,
      (Driving held excused).Serves caller)
    (hSuits : Suits s cell (.waiting l id))
    (hState : cell.state = .suspended)
    (hLeft : cell.fired.getD callback true = false)
    (hOwn : callback < cell.fired.size)
    (hNew : ∀ future, .asks (some callback) future ∉ s.story t)
    (hFree : ∀ e, ¬ s.Pledged d e) :
    (do
      Driver.note d (.asks (some callback)
        (← Awaiter.keeper? awaiter))
      Run.chronicle (.awaits d callback
        (← Awaiter.source? awaiter))
      match ← Run.attempt (Awaiter.register caller awaiter
        (.driverResume d callback)) with
      | .ok _ => return ()
      | .error e =>
          Driver.note d (.unregistered e)
          Driver.fail caller d e : Run Unit).Ensures s
      (Ended held excused s₀ (cell.output ≠ none)) := by
  refine ensures_keeper_bind.mpr ?_
  refine (ensures_note_bind h.desk.drives).mpr ?_
  have h₁ := h.noted
    (m := .asks (some callback) (s.keeper? awaiter)) .ask hOwn
    h.desk.pledges
  have hEscaped : (s.noted t (.asks (some callback)
      (s.keeper? awaiter))).Escaped d callback ↔
        s.keeper? awaiter = none := by
    rw [h₁.desk.drives.escaped_iff, story_noted,
      if_pos ⟨rfl, h.work.lt⟩, List.mem_cons]
    constructor
    · rintro (hSame | hOld)
      · injection hSame with _ hNone
        exact hNone.symm
      · exact absurd hOld (hNew none)
    · intro hNone
      rw [hNone]
      exact .inl rfl
  refine ensures_source_bind.mpr ?_
  refine Run.ensures_modify_bind.mpr ?_
  have h₂ := h₁.withIncident (.awaits d callback
    (Session.source? (s.noted t (.asks (some callback)
      (s.keeper? awaiter))) awaiter))
  have hGiven := h₂.giveCallback hAll awaiter
    (hSuits.extends { s.extends_noted t _ with } rfl) hState hLeft
    (fun e hp => hFree e (pledged_of_noted hp))
    (asked?_noted h.work.lt) hEscaped
  refine Run.Ensures.bind (Run.ensures_attempt.mpr
    (Run.Ensures.mono hGiven ?_))
  rintro registered s₂ ⟨hMoves, hThrown⟩
  cases registered with
  | ok u => exact Run.ensures_pure.mpr (.ok hMoves)
  | error e =>
      have hKept := hThrown e rfl
      rcases hKept.rel.extends_.drivers d _ h₂.desk.drives.1
        with ⟨cell₂, hCell₂, hEmitter, _⟩
      have hDrives : s₂.Drives t d cell₂ :=
        ⟨hCell₂, by rw [hEmitter, h₂.desk.drives.2]⟩
      have hOutput := hKept.rel.outputs d _ cell₂
        h₂.desk.drives.1 hCell₂
      refine Run.Ensures.mono (Driving.ensures_unregistered hAll
        hKept.sound hDrives h.work.free e) ?_
      intro r s' hEnded
      exact (hEnded.after hMoves).mono
        fun hSome => hOutput ▸ hSome

/- A driver that has named a label asks to be called back. -/
theorem Busy.register
    {l id : Value}
    (h : Busy held excused s₀ t d cell (.waiting l id) none s)
    (hAll : ∀ held excused,
      (Driving held excused).Serves caller)
    (hSpent : cell.Spent)
    (hState : cell.state = .suspended)
    (hFree : ∀ e, ¬ s.Pledged d e)
    (hCurrent : cell.current = l)
    (hFirst : cell.first = none)
    (hId : ∀ n, id = .int n →
      s.property? l "id" = some (.int n))
    (awaiter : Value) :
    (Driver.register caller d awaiter).Ensures s
      (Ended held excused s₀ (cell.output ≠ none)) := by
  have hMild := mild_fired (g := (·.push false)) (by simp)
  have hExtends := extends_reseated (s := s) (d := d) hMild
  have h₁ := h.reseated hMild fun _ => rfl
  unfold Driver.register
  refine Run.ensures_row_bind.mpr ?_
  rw [show (Table.drivers.rows s).getD d default = cell
    from h.desk.drives.getD]
  refine Run.ensures_alter_bind.mpr ?_
  refine h₁.ask hAll ⟨hCurrent, hFirst, hSpent.asked, h₁.ending,
    fun n hn => hExtends.property?_id (hId n hn)⟩ hState
    cell.asked_left (by simp) (fun future hMem => ?_) ?_
  · exact Nat.lt_irrefl _ (h.desk.linked.asked _ future hMem)
  · rintro e ⟨f, w, hw, hToken⟩
    exact hFree e ⟨f, w, hw, hExtends.tokens hToken⟩

/- A driver suspends: it names a label and waits. -/
theorem Busy.suspend
    (h : Busy held excused s₀ t d cell .taking none s)
    (hAll : ∀ held excused,
      (Driving held excused).Serves caller)
    (hSpent : cell.Spent)
    (hFirst : cell.first = none)
    (awaiter label : Value) :
    (Driver.suspend caller d awaiter label).Ensures s
      (Ended held excused s₀
        (cell.output ≠ none ∨ label.isMissing)) := by
  have h₁ := h.reseated (mild_current label) fun _ => rfl
  have h₂ := h₁.stood .park fun e hp =>
    .inl (h₁.desk.pledges e hp)
  have h₃ := h₂.noted (.name (l := label)) trivial
    h₂.desk.pledges
  have hs₃ := h₃.hold (.inl hSpent) rfl
  unfold Driver.suspend
  refine Run.ensures_alter_bind.mpr ?_
  refine (ensures_setState_bind h₁.desk.drives).mpr ?_
  refine (ensures_note_bind h₂.desk.drives).mpr ?_
  refine Run.Ensures.bind (Run.Ensures.mono
    ((keeps_field hs₃ label "id").and (ensures_field label "id"))
    ?_)
  rintro r s₄ ⟨hMoves, hRead, hMissing⟩
  have h₄ := h₃.moved hMoves
  cases r with
  | error e =>
      have hGone := hMissing e rfl
      refine ⟨h₄.rest trivial ⟨hSpent, h₄.ending⟩ hGone rfl,
        fun _ _ => ⟨.inr hGone, fun hNetwork => ?_⟩⟩
      refine hNetwork.declared t (.suspends label) ?_ hGone
      refine hMoves.rel.extends_.mem_story ?_
      rw [story_noted, if_pos ⟨rfl, h₂.work.lt⟩]
      exact List.mem_cons_self
  | ok labelId =>
      refine Run.Ensures.bind (h₄.emit
        (hAll (t :: held) excused) .wait (.inl hSpent)
        (h₄.desk.unpledged rfl) (by simp) ?_)
      intro s₅ h₅ hExtends hFree
      refine Run.Ensures.mono (h₅.register hAll hSpent rfl hFree
        rfl hFirst ?_ awaiter)
        fun _ _ hEnded => hEnded.mono .inl
      intro n hn
      have hOld := hRead labelId rfl
      subst hn
      refine hExtends.property?_id
        (hMoves.rel.extends_.property?_id ?_)
      cases hProperty : Session.property? _ label "id" with
      | none =>
          rw [hProperty] at hOld
          cases hOld
      | some v =>
          rw [hProperty] at hOld
          rw [hOld]
          rfl

------------------------------------------------------------
-- Jumping
------------------------------------------------------------

/-
  A driver jumps while its task has not ended, and nobody
  else moves the task until the jump lands.
-/
theorem Busy.jump
    {l : Value}
    (h : Busy held excused s₀ t d cell (.called l) none s)
    (hAll : ∀ held excused,
      (Driving held excused).Serves caller)
    (hSpent : cell.Spent)
    {post : Except Value Value → Session → Prop}
    (hPost : ∀ r s',
      Busy held excused s₀ t d cell .taking none s' →
        post r s') :
    (Driver.jump caller d l).Ensures s post := by
  have h₁ := h.noted (.jump (l := l)) trivial h.desk.pledges
  have hs₁ := h₁.hold (.inl hSpent) rfl
  have hc := hAll (t :: held) excused
  unfold Driver.jump
  refine (ensures_hasSettled_bind h.desk.drives).mpr ?_
  rw [h.ending]
  refine (ensures_note_bind h.desk.drives).mpr ?_
  refine Run.ensures_row_bind.mpr ?_
  have hBody : ∀ driver : DriverCell,
      (Driving (t :: held) excused).Keeps
        (Run.withTask driver.emitter.task do
          Label.jump caller
            (← Label.machineOf driver.machine) l)
        (s.noted t (.jumps l false)) := fun driver =>
    Driving.keeps_withTask hs₁ driver.emitter.task fun s₂ h₂ =>
      (World.keeps_machineOf h₂.sound _).bind fun m s₃ h₃ =>
        Driving.founds.keeps_jump hc h₃.sound m l
  refine Run.Ensures.bind (Run.ensures_attempt.mpr
    (Run.Ensures.mono (hBody _) ?_))
  intro landing s₂ hMoves
  have h₂ := h₁.moved hMoves
  have h₃ := h₂.noted (.land (l := l)) trivial h₂.desk.pledges
  refine (ensures_note_bind h₂.desk.drives).mpr ?_
  cases landing with
  | ok step => exact Run.ensures_pure.mpr (hPost _ _ h₃)
  | error e => exact Run.ensures_raise.mpr (hPost _ _ h₃)

------------------------------------------------------------
-- Taking Steps
------------------------------------------------------------

/-
  A driver has come to its next step, or failed to: it is at
  work on the task, which can take the step or fail.
-/
def Advances
    (held excused : List Ref)
    (s₀ : Session)
    (t d : Ref)
    (r : Except Value Value)
    (s : Session) : Prop :=
  ∃ cell p, Busy held excused s₀ t d cell p none s ∧
    cell.Spent ∧ cell.first = none ∧
      (p = .taking ∨
        (∃ l id, p = .resuming l id) ∧ ∃ e, r = .error e) ∧
      ∀ step, r = .ok step → step.isStep

theorem Busy.advances
    (h : Busy held excused s₀ t d cell .taking none s)
    (hSpent : cell.Spent)
    (hFirst : cell.first = none)
    {r : Except Value Value}
    (hStep : ∀ step, r = .ok step → step.isStep) :
    Advances held excused s₀ t d r s :=
  ⟨cell, .taking, h, hSpent, hFirst, .inl rfl, hStep⟩

/- The next step is what the label to resume at leads to. -/
theorem Busy.nextStep
    {l id : Value}
    (h : Busy held excused s₀ t d cell (.resuming l id) none s)
    (hAll : ∀ held excused,
      (Driving held excused).Serves caller)
    (hSpent : cell.Spent)
    (hCurrent : cell.current = l)
    (hFirst : cell.first = none)
    (hId : ∀ n, id = .int n →
      s.property? l "id" = some (.int n)) :
    (Driver.nextStep caller d).Ensures s
      (Advances held excused s₀ t d) := by
  have hs := h.hold (.inl hSpent) rfl
  have hc := hAll (t :: held) excused
  have hFails : ∀ {s₁} (e : Value),
      (Driving (t :: held) excused).Moves s s₁ →
        Advances held excused s₀ t d (.error e) s₁ :=
    fun e hMoves => ⟨cell, _, h.moved hMoves, hSpent, hFirst,
      .inr ⟨⟨l, id, rfl⟩, e, rfl⟩, by simp⟩
  unfold Driver.nextStep
  refine Run.ensures_row_bind.mpr ?_
  rw [show (Table.drivers.rows s).getD d default = cell
    from h.desk.drives.getD, hFirst, hCurrent]
  dsimp only
  split
  · refine Run.Ensures.bind (Run.Ensures.mono
      (keeps_newPlain hs _ _) ?_)
    intro r s₁ hMoves
    cases r with
    | ok e => exact Run.ensures_raise.mpr (hFails e hMoves)
    | error e => exact hFails e hMoves
  · refine Run.Ensures.bind (Run.Ensures.mono
      ((keeps_field hs l "id").and (ensures_field l "id")) ?_)
    rintro r s₁ ⟨hMoves, hRead, _⟩
    cases r with
    | error e => exact hFails e hMoves
    | ok id' =>
        have hSame : ∀ n, id = .int n → id' = id := by
          intro n hn
          rw [hRead id' rfl, hId n hn, hn]
          rfl
        have h₁ := h.moved hMoves
        refine Run.Ensures.bind (h₁.emit hc (.resume hSame)
          (.inl hSpent) (h₁.desk.unpledged rfl) (by simp) ?_)
        intro s₂ h₂ _ _
        refine Run.Ensures.bind (h₂.jump hAll hSpent ?_)
        intro r s₃ h₃
        cases r with
        | error e => exact h₃.advances hSpent hFirst (by simp)
        | ok step =>
            change (if step.isStep then _ else _ :
              Run Value).Ensures s₃ _
            split
            · next hStep =>
                refine Run.ensures_pure.mpr
                  (h₃.advances hSpent hFirst ?_)
                intro step' hSame
                cases hSame
                exact hStep
            · have hs₃ := h₃.hold (.inl hSpent) rfl
              have hDefect :
                  (Driving (t :: held) excused).Keeps
                    (do
                      let id ← Run.field l "id"
                      Run.defect (.malformedStep id step) :
                        Run Value) s₃ :=
                (keeps_field hs₃ l "id").bind fun id' s₄ h₄ =>
                  keeps_defect h₄.sound _
              refine Run.Ensures.mono (hDefect.and
                (raises_bind fun _ _ => raises_defect _)) ?_
              rintro r s₄ ⟨h₄, e, rfl⟩
              exact (h₃.moved h₄).advances hSpent hFirst
                (by simp)

/- With its next step a driver goes on, or fails the task. -/
theorem Advances.ensures
    (hAll : ∀ held excused,
      (Driving held excused).Serves caller)
    (step : Except Value Value) :
    Advances held excused s₀ t d step s →
    (match step with
      | .error e => Driver.fail caller d e
      | .ok step =>
          match step.step? with
          | none => return ()
          | some (.finish v) => Driver.succeed caller d v
          | some (.handOff future) =>
              Driver.handOff caller d future
          | some (.suspend awaiter label) =>
              Driver.suspend caller d awaiter label :
        Run Unit).Ensures s
      (Ended held excused s₀ True) := by
  rintro ⟨cell, p, h, hSpent, hFirst, hPhase, hStep⟩
  have hEnds : ∀ state : DriverState, state.IsFinal →
      p.Leads (.stands state) .ending := by
    intro state hFinal
    rcases hPhase with rfl | ⟨⟨l, id, rfl⟩, _⟩
    · exact .end_ hFinal
    · exact .fail hFinal
  have hFree : ¬ s.Pledged d .conclude := by
    rcases hPhase with rfl | ⟨⟨l, id, rfl⟩, _⟩
    · exact h.desk.unpledged rfl _
    · exact h.desk.unpledged rfl _
  have hFinish : ∀ outcome,
      (Driver.finish caller d outcome).Ensures s
        (Ended held excused s₀ True) := fun outcome =>
    Run.Ensures.mono
      (h.finish (hAll · excused) hEnds hFree outcome)
      fun _ _ hEnded => hEnded.mono fun _ => trivial
  cases step with
  | error e => exact hFinish (.rejected e)
  | ok step =>
      have hTaking : p = .taking := by
        rcases hPhase with hTaking | ⟨_, e, he⟩
        · exact hTaking
        · cases he
      subst hTaking
      rcases Option.isSome_iff_exists.mp
        (hStep step rfl) with ⟨view, hView⟩
      simp only [hView]
      cases view with
      | finish v => exact hFinish (.fulfilled v)
      | handOff future => exact h.handOff hAll hSpent future
      | suspend awaiter label =>
          exact Run.Ensures.mono
            (h.suspend hAll hSpent hFirst awaiter label)
            fun _ _ hEnded => hEnded.mono fun _ => trivial

/- A driver takes a step from where it can take one. -/
theorem ensures_advance
    (hAll : ∀ held excused,
      (Driving held excused).Serves caller)
    (hDrives : s.Drives t d cell)
    (hNext : (Driver.nextStep caller d).Ensures
      ((s.noted t (.stands .running)).reseated d
        ({ · with state := .running }))
      (Advances held excused s₀ t d)) :
    (Driver.advance caller d).Ensures s
      (Ended held excused s₀ True) := by
  unfold Driver.advance
  refine (ensures_setState_bind hDrives).mpr ?_
  refine Run.Ensures.bind (Run.ensures_attempt.mpr
    (Run.Ensures.mono hNext ?_))
  intro step s' hAdvances
  exact Advances.ensures hAll step hAdvances

/- The first step, which suspends, has been produced already. -/
theorem Busy.advanceFirst
    {step awaiter label : Value}
    (h : Busy held excused s₀ t d cell .begun none s)
    (hAll : ∀ held excused,
      (Driving held excused).Serves caller)
    (hSpent : cell.Spent)
    (hFirst : cell.first = some step)
    (hView : step.step? = some (.suspend awaiter label)) :
    (Driver.advance caller d).Ensures s
      (Ended held excused s₀
        (cell.output ≠ none ∨ label.isMissing)) := by
  have hMild : Mild fun c => { c with first := none } :=
    ⟨fun _ => rfl, fun _ => rfl, fun _ => Nat.le_refl _⟩
  have h₁ := h.stood .drive fun e hp =>
    .inl (h.desk.pledges e hp)
  unfold Driver.advance
  refine (ensures_setState_bind h.desk.drives).mpr ?_
  generalize (s.noted t (.stands .running)).reseated d
    ({ · with state := .running }) = s₁ at h₁ ⊢
  have h₂ := h₁.reseated hMild fun _ => rfl
  refine Run.Ensures.bind (Run.ensures_attempt.mpr ?_)
  unfold Driver.nextStep
  refine Run.ensures_row_bind.mpr ?_
  rw [show (Table.drivers.rows s₁).getD d default =
    { cell with state := .running } from h₁.desk.drives.getD]
  dsimp only
  rw [hFirst]
  refine Run.ensures_alter_bind.mpr (Run.ensures_pure.mpr ?_)
  simp only [Run.Follows, hView]
  exact h₂.suspend hAll hSpent rfl awaiter label

------------------------------------------------------------
-- Calling Back
------------------------------------------------------------

/- A callback that is left is one that the task waits for. -/
theorem Suits.waiting
    {p : Phase}
    {callback : Nat}
    (hSuits : Suits s cell p)
    (hLeft : cell.fired.getD callback true = false)
    (hState : cell.state = .suspended) :
    ∃ l id, p = .waiting l id := by
  have hSpent : ¬ cell.Spent := by
    intro hSpent
    rw [hSpent callback] at hLeft
    cases hLeft
  have hShut : ¬ cell.Shut := by
    rintro (hOld | hFinal)
    · exact hSpent hOld
    · rw [hState] at hFinal
      exact hFinal
  cases p with
  | waiting l id => exact ⟨l, id, rfl⟩
  | ended v => exact absurd hSuits.1 hShut
  | spoilt => exact absurd hSuits hShut
  | wild => exact absurd hSuits hSpent
  | named l | handing | overruling v | overruled v =>
      exact absurd hSuits.1 hSpent
  | _ => exact absurd hSuits id

/- A driver whose task waits is called back. -/
theorem Busy.resume
    {l id : Value}
    {callback : Nat}
    (h : Busy held excused s t d cell (.waiting l id) none s)
    (hAll : ∀ held excused,
      (Driving held excused).Serves caller)
    (hSuits : Suits s cell (.waiting l id))
    (hLeft : cell.fired.getD callback true = false)
    (hFree : ¬ s.Pledged d .resume)
    (failure : Value) :
    (do
      Table.drivers.alter d fun c =>
        { c with
          fired := c.fired.setIfInBounds callback true }
      if failure.truthy then
        let e ← Run.field failure "error"
        Driver.note d (.refused e)
        Driver.fail caller d e
      else
        Driver.advance caller d : Run Unit).Ensures s
      fun r s' => Ended held excused s True r s' ∧
        (failure.truthy = false → s.turns t < s'.turns t) := by
  rcases hSuits with ⟨hCurrent, hFirst, hSingle, _, hId⟩
  have hSpent := hSingle.fire hLeft
  have hMild := mild_fired (g := (·.setIfInBounds callback true))
    (by simp)
  have hExtends := extends_reseated (s := s) (d := d) hMild
  have h₁ := h.reseated hMild fun _ => rfl
  have hId₁ := fun n hn => hExtends.property?_id (hId n hn)
  have hFree₁ : ∀ e, ¬ (s.reseated d fun c => { c with
      fired := c.fired.setIfInBounds callback true }).Pledged
        d e := by
    rintro e ⟨f, w, hw, hToken⟩
    have hp : s.Pledged d e :=
      ⟨f, w, hw, hExtends.tokens hToken⟩
    obtain rfl : e = .resume :=
      (h.desk.pledges e hp).unique rfl
    exact hFree hp
  refine Run.ensures_alter_bind.mpr ?_
  split
  · next hFailure =>
      have hs₁ := h₁.work.hold (h₁.desk.still h₁.work.sane
        h₁.work.course (.inl hSpent) hFree₁ (by simp))
      refine Run.Ensures.bind (Run.Ensures.mono
        ((keeps_field hs₁ failure "error").and
          (ensures_field failure "error")) ?_)
      rintro r s₂ ⟨hMoves, _, hMissing⟩
      have h₂ := h₁.moved hMoves
      cases r with
      | error e =>
          exact absurd (hMissing e rfl)
            (Value.not_missing_of_truthy hFailure)
      | ok e =>
          have h₃ := h₂.noted (.refused (e := e)) trivial
            h₂.desk.pledges
          refine (ensures_note_bind h₂.desk.drives).mpr ?_
          refine Run.Ensures.mono (h₃.finish (hAll · excused)
            (fun _ => .decide)
            (fun hp => nomatch h₃.desk.pledges _ hp)
            (.rejected e)) fun r s' hEnded => ?_
          refine ⟨hEnded.mono fun _ => trivial, fun hNot => ?_⟩
          rw [hFailure] at hNot
          cases hNot
  · have h₂ := h₁.stood .wake fun e hp =>
      absurd hp (hFree₁ e)
    have hTurn := turns_noted (m := .stands .running)
      h₁.work.lt rfl
    refine Run.Ensures.mono (ensures_advance hAll
      h₁.desk.drives (h₂.anew.nextStep hAll hSpent hCurrent
        hFirst hId₁)) fun r s' hEnded => ?_
    exact ⟨h₂.ended hEnded rfl, fun _ =>
      Nat.lt_of_lt_of_le hTurn
        (hEnded.moves.rel.extends_.turns t)⟩

/- What a driver does when it is called back. -/
theorem ensures_resume
    {callback : Ref}
    {failure : Value}
    {post : Except Value Unit → Session → Prop}
    (hDrives : s.Drives t d cell)
    (hStale : cell.fired.getD callback true = true ∨
      cell.state ≠ .suspended → post (.ok ()) s)
    (hLive : cell.fired.getD callback true = false →
      cell.state = .suspended →
      (do
        Table.drivers.alter d fun c =>
          { c with
            fired := c.fired.setIfInBounds callback true }
        if failure.truthy then
          let e ← Run.field failure "error"
          Driver.note d (.refused e)
          Driver.fail caller d e
        else
          Driver.advance caller d : Run Unit).Ensures s post) :
    (Driver.resume caller d callback failure).Ensures s
      post := by
  unfold Driver.resume
  refine Run.ensures_row_bind.mpr ?_
  rw [show (Table.drivers.rows s).getD d default = cell
    from hDrives.getD]
  split
  · next hGuard =>
      refine Run.ensures_pure.mpr (hStale ?_)
      simpa using hGuard
  · next hNot =>
      have hGuard : cell.fired.getD callback true = false ∧
          cell.state = .suspended := by
        simpa using hNot
      exact hLive hGuard.1 hGuard.2

/-
  A callback that anyone may have keeps the world.  Unless
  the task waits for it, which no task does that is held,
  nothing comes of it.
-/
theorem Driving.ensures_resumeIdle
    (hAll : ∀ held excused,
      (Driving held excused).Serves caller)
    (hs : (Driving held excused).Sound s)
    {callback : Ref}
    (hIdle : s.Idle d callback)
    (failure : Value) :
    (Driver.resume caller d callback failure).Ensures s
      (Ended held excused s True) := by
  have hDriver : ∃ cell : DriverCell,
      s.drivers[d]? = some cell := by
    rcases hIdle with ⟨cell, hCell, _⟩ | ⟨cell, _, hCell, _⟩
    · exact ⟨cell, hCell⟩
    · exact ⟨cell, hCell⟩
  rcases hDriver with ⟨cell, hCell⟩
  have hDrives : s.Drives cell.emitter.task d cell :=
    ⟨hCell, rfl⟩
  refine ensures_resume hDrives (fun _ => .ok (.refl hs))
    fun hLeft hState => ?_
  have hFree : cell.emitter.task ∉ held := by
    intro hHeld
    rcases ((hs.inv.held _ hHeld).2 d cell hDrives).shut with
      (hSpent | hFinal) | hMeant
    · rw [hSpent callback] at hLeft
      cases hLeft
    · rw [hState] at hFinal
      exact hFinal
    · exact hMeant callback hLeft hIdle
  rcases Driving.busy hs hDrives hFree with
    ⟨p, _, hSuits, hMindful, h⟩
  rcases hSuits.waiting hLeft hState with ⟨l, id, rfl⟩
  rw [hSuits.2.2.2.1] at h
  have hAlone : ¬ s.Pledged d .resume := by
    rcases hMindful with ⟨_, k, a, _, hLeft', hTokens⟩
    rintro ⟨f, w, hw, hToken⟩
    obtain rfl := hSuits.2.2.1 callback k hLeft hLeft'
    obtain ⟨rfl, _⟩ := hTokens f w hw hToken
    rcases hToken with ⟨_, hSame, hMeant⟩
    cases hSame
    exact hMeant hIdle
  exact Run.Ensures.mono
    (h.resume hAll hSuits hLeft hAlone failure)
    fun _ _ hEnded => hEnded.1

/- A driver is called back by the future that it waits for. -/
theorem Driving.ensures_resumeDue
    (hAll : ∀ held excused,
      (Driving held excused).Serves caller)
    (hs : (Driving held excused).Sound s)
    (hFree : t ∉ held)
    {callback : Ref}
    (hDue : s.Due t (.driverResume d callback))
    (failure : Value) :
    (Driver.resume caller d callback failure).Ensures s
      fun r s' => Ended held excused s True r s' ∧
        (failure.truthy = false → s.turns t < s'.turns t) := by
  cases hDue with
  | @resume _ _ cell l id hDrives hPledged hLeft hIdle
      hCourse =>
  rcases Driving.busy hs hDrives hFree with
    ⟨p, _, hSuits, hMindful, h⟩
  obtain rfl := hCourse.det h.work.course
  rw [hSuits.2.2.2.1] at h
  refine ensures_resume hDrives (fun hStale => ?_)
    fun _ _ => ?_
  · rcases hStale with hFired | hState
    · rw [hLeft] at hFired
      cases hFired
    · exact absurd hMindful.1 hState
  · exact h.resume hAll hSuits hLeft hPledged failure

end Suspension

end Resumption

import Resumption.Proofs.Stretches

/-
  The protocol of a loop over items.

  What the loop does is a trace of acts: it asks its cursor
  for the next item, runs its body on it, resumes the body,
  learns what the body handed off to, and closes the cursor.
  Where the loop has got to is read off the trace, and so is
  what is due next.

  Main declarations:
    * `Iteration.Act`, `Iteration.Stage`
    * `Iteration.Act.Due`, `Iteration.Lawful`
    * `Iteration.Lawful.yielded_eq`
    * `Iteration.outcome_of_closed`
-/

namespace Resumption

namespace Iteration

------------------------------------------------------------
-- The Protocol
------------------------------------------------------------

/-
  What a loop does, and how that ends: it asks its cursor for
  the next item, it invokes its body on an item, it resumes
  the body where that is suspended, it takes note of how a
  future that the body handed off to has settled, and it
  closes its cursor.
-/
inductive Act where
  | next (answer : Except Value (Option Value))
  | invoke (item : Value) (result : Except Value Value)
  | resume
      (awaiter label : Value)
      (result : Except Value Value)
  | settle (f : Ref) (outcome : Outcome)
  | close (answer : Except Value (Option Value))

/- Where a loop has got to. -/
inductive Stage where
  /- No item is at hand, and the cursor was not closed. -/
  | ready
  /- An item was yielded. -/
  | holding (item : Value)
  /- The body is suspended. -/
  | suspended (awaiter label : Value)
  /- The body handed off. -/
  | handed (f : Ref)
  /- There will be no other item. -/
  | ended (own : Except Value Value)
  /- The cursor was closed. -/
  | closed (outcome : Except Value Value)
  /- The body made no step, or handed off to no future. -/
  | astray

/- Where the loop is when a stretch of its body has ended. -/
def Stage.of : Except Value Value → Stage
  | .error e => .ended (.error e)
  | .ok step =>
      match step.step? with
      | some (.finish _) => .ready
      | some (.suspend awaiter label) => .suspended awaiter label
      | some (.handOff (.future f)) => .handed f
      | _ => .astray

/- Where the loop is after an act. -/
def Stage.after (stage : Stage) : Act → Stage
  | .next (.ok (some v)) => .holding v
  | .next (.ok none) => .ended (.ok .undefined)
  | .next (.error e) => .ended (.error e)
  | .invoke _ r => .of r
  | .resume _ _ r => .of r
  | .settle _ (.fulfilled _) => .ready
  | .settle _ (.rejected e) => .ended (.error e)
  | .close answer =>
      match stage with
      | .ended own => .closed (overridden own answer)
      | _ => stage

/- Where the loop is after all acts, of which the latest is first. -/
def reached (trace : List Act) : Stage :=
  trace.foldr (fun act stage => stage.after act) .ready

/- What is due, and when. -/
inductive Act.Due : Stage → Act → Prop where
  | next {answer} : Due .ready (.next answer)
  | invoke {v r} : Due (.holding v) (.invoke v r)
  | resume {awaiter label r} :
      Due (.suspended awaiter label) (.resume awaiter label r)
  | settle {f o} : Due (.handed f) (.settle f o)
  | close {own answer} : Due (.ended own) (.close answer)

/- Is the loop waiting for something to complete? -/
def Stage.Waits : Stage → Prop
  | .suspended _ _ => True
  | .handed _ => True
  | _ => False

/- Every act of a trace was due after those before it. -/
def Lawful (trace : List Act) : Prop :=
  ∀ later act earlier, trace = later ++ act :: earlier →
    act.Due (reached earlier)

theorem Lawful.earlier
    {act : Act}
    {trace : List Act}
    (h : Lawful (act :: trace)) :
    Lawful trace :=
  fun later act' earlier hTrace =>
    h (act :: later) act' earlier (by rw [hTrace]; rfl)

theorem Lawful.due
    {act : Act}
    {trace : List Act}
    (h : Lawful (act :: trace)) :
    act.Due (reached trace) :=
  h [] act trace rfl

------------------------------------------------------------
-- What the Protocol Says
------------------------------------------------------------

/- The item that an act yields. -/
def Act.yielded? : Act → Option Value
  | .next (.ok found) => found
  | _ => none

/- The item that an act invokes the body on. -/
def Act.invoked? : Act → Option Value
  | .invoke v _ => some v
  | _ => none

/- Does an act close the cursor? -/
def Act.isClose : Act → Bool
  | .close _ => true
  | _ => false

/- What an act failed with. -/
def Act.failure? : Act → Option Value
  | .next (.error e) => some e
  | .invoke _ (.error e) => some e
  | .resume _ _ (.error e) => some e
  | .settle _ (.rejected e) => some e
  | .close (.error e) => some e
  | _ => none

/- The item that the body was not yet invoked on. -/
def Stage.held : Stage → List Value
  | .holding v => [v]
  | _ => []

/- How often the cursor was closed by now. -/
def Stage.closings : Stage → Nat
  | .closed _ => 1
  | _ => 0

theorem Stage.held_of
    (r : Except Value Value) :
    (Stage.of r).held = [] := by
  unfold Stage.of
  split
  · rfl
  · split <;> rfl

theorem Stage.closings_of
    (r : Except Value Value) :
    (Stage.of r).closings = 0 := by
  unfold Stage.of
  split
  · rfl
  · split <;> rfl

/-
  The body was invoked on exactly the items that were
  yielded, in their order, but for the one at hand.
-/
theorem Lawful.yielded_eq
    {trace : List Act}
    (h : Lawful trace) :
    trace.filterMap Act.yielded? =
      (reached trace).held ++ trace.filterMap Act.invoked? := by
  induction trace with
  | nil => rfl
  | cons act trace ih =>
      have hRest := ih h.earlier
      have hDue := h.due
      change _ = ((reached trace).after act).held ++ _
      cases hStage : reached trace <;> rw [hStage] at hDue hRest <;>
        cases hDue
      · next answer =>
          rcases answer with e | _ | v
          · exact hRest
          · exact hRest
          · exact congrArg (v :: ·) hRest
      · next v r => exact hRest.trans (by rw [Stage.after, Stage.held_of]; rfl)
      · next awaiter label r =>
          exact hRest.trans (by rw [Stage.after, Stage.held_of]; rfl)
      · next f o => cases o <;> exact hRest
      · exact hRest

/- The cursor was closed once if it is closed, and else never. -/
theorem Lawful.closings_eq
    {trace : List Act}
    (h : Lawful trace) :
    trace.countP Act.isClose = (reached trace).closings := by
  induction trace with
  | nil => rfl
  | cons act trace ih =>
      have hRest := ih h.earlier
      have hDue := h.due
      change _ = ((reached trace).after act).closings
      cases hStage : reached trace <;> rw [hStage] at hDue hRest <;>
        cases hDue
      · next answer =>
          rcases answer with e | _ | v <;> exact hRest
      · next v r =>
          exact hRest.trans (Stage.closings_of r).symm
      · next awaiter label r =>
          exact hRest.trans (Stage.closings_of r).symm
      · next f o => cases o <;> exact hRest
      · next own answer =>
          rw [List.countP_cons_of_pos rfl, hRest]
          rfl

/- Once the cursor was closed, nothing is done any more. -/
theorem Lawful.close_last
    {later earlier : List Act}
    {answer : Except Value (Option Value)}
    (h : Lawful (later ++ .close answer :: earlier)) :
    later = [] := by
  rcases later.eq_nil_or_concat with rfl | ⟨later, act, rfl⟩
  · rfl
  · have hClose := h (later ++ [act]) (.close answer) earlier
      (by simp)
    have hAct := h later act (.close answer :: earlier)
      (by simp)
    change act.Due ((reached earlier).after (.close answer))
      at hAct
    cases hStage : reached earlier <;> rw [hStage] at hClose <;>
      cases hClose
    rw [hStage] at hAct
    cases hAct

/-
  Once the cursor has run out or failed, nothing is done any
  more but to close it.
-/
theorem Lawful.next_last
    {later earlier : List Act}
    {answer : Except Value (Option Value)}
    (h : Lawful (later ++ .next answer :: earlier))
    (hNone : ∀ v, answer ≠ .ok (some v)) :
    later = [] ∨ ∃ closing, later = [.close closing] := by
  rcases later.eq_nil_or_concat with rfl | ⟨later, act, rfl⟩
  · exact .inl rfl
  · have hAct := h later act (.next answer :: earlier)
      (by simp)
    change act.Due ((reached earlier).after (.next answer))
      at hAct
    obtain ⟨closing, rfl⟩ : ∃ closing, act = .close closing := by
      rcases answer with e | _ | v
      · cases hAct
        exact ⟨_, rfl⟩
      · cases hAct
        exact ⟨_, rfl⟩
      · exact (hNone v rfl).elim
    have hClosed : Lawful
        (later ++ .close closing :: .next answer :: earlier) := by
      simpa using h
    have hLast : later = [] := hClosed.close_last
    subst hLast
    exact .inr ⟨closing, rfl⟩

/-
  A loop that is over has run out of items and finishes with
  undefined, or what happened last failed.
-/
theorem own_of_ended
    {trace : List Act}
    {own : Except Value Value}
    (h : reached trace = .ended own) :
    ∃ act earlier, trace = act :: earlier ∧
      (act = .next (.ok none) ∧ own = .ok .undefined ∨
        ∃ e, act.failure? = some e ∧ own = .error e) := by
  have hOf : ∀ {r : Except Value Value}, Stage.of r = .ended own →
      ∃ e, r = .error e ∧ own = .error e := by
    intro r hStage
    unfold Stage.of at hStage
    split at hStage
    · next e =>
        cases hStage
        exact ⟨e, rfl, rfl⟩
    · split at hStage <;> cases hStage
  cases trace with
  | nil => cases h
  | cons act trace =>
      refine ⟨act, trace, rfl, ?_⟩
      change (reached trace).after act = _ at h
      cases act with
      | next answer =>
          rcases answer with e | _ | v
          · cases h
            exact .inr ⟨e, rfl, rfl⟩
          · cases h
            exact .inl ⟨rfl, rfl⟩
          · cases h
      | invoke v r =>
          rcases hOf h with ⟨e, rfl, hOwn⟩
          exact .inr ⟨e, rfl, hOwn⟩
      | resume awaiter label r =>
          rcases hOf h with ⟨e, rfl, hOwn⟩
          exact .inr ⟨e, rfl, hOwn⟩
      | settle f o =>
          cases o with
          | fulfilled v => cases h
          | rejected e =>
              cases h
              exact .inr ⟨e, rfl, rfl⟩
      | close answer =>
          cases hStage : reached trace <;>
            simp [Stage.after, hStage] at h

/- A loop that is closed has come to what own outcome it had. -/
theorem outcome_of_closed
    {trace : List Act}
    {outcome : Except Value Value}
    (h : Lawful trace)
    (hStage : reached trace = .closed outcome) :
    ∃ answer act earlier own,
      trace = .close answer :: act :: earlier ∧
      outcome = overridden own answer ∧
      (act = .next (.ok none) ∧ own = .ok .undefined ∨
        ∃ e, act.failure? = some e ∧ own = .error e) := by
  have hNot : ∀ {r : Except Value Value},
      Stage.of r ≠ .closed outcome := by
    intro r hStage
    have hClosings := Stage.closings_of r
    rw [hStage] at hClosings
    cases hClosings
  cases trace with
  | nil => cases hStage
  | cons act trace =>
      have hDue := h.due
      change (reached trace).after act = _ at hStage
      cases act with
      | next answer => rcases answer with e | _ | v <;> cases hStage
      | invoke v r => exact (hNot hStage).elim
      | resume awaiter label r => exact (hNot hStage).elim
      | settle f o => cases o <;> cases hStage
      | close answer =>
          generalize hOver : reached trace = stage at hDue hStage
          cases hDue with
          | @close own =>
              cases hStage
              rcases own_of_ended hOver with
                ⟨act, earlier, rfl, hOwn⟩
              exact ⟨answer, act, earlier, own, rfl, rfl, hOwn⟩

end Iteration

end Resumption

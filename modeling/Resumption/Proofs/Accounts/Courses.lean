import Resumption.Proofs.Accounts.Meeting
import Resumption.Proofs.Network.Futures

/-
  Courses: code from where it starts, through as many
  resumptions as there are.

  Each step that suspends is resumed at most once, whenever
  there is an outcome.  Meanwhile anything may have been done
  by others, but to what the code comes back to.  Labels are
  counted while the code itself goes on, and only then.

  Main declarations:
    * `Session.made`, `Session.awaited?`
    * `Supply.Course`, `Supply.Stands`
    * `Supply.Course.reaches`
    * `Supply.Course.accounted`
-/

namespace Resumption

open Run

------------------------------------------------------------
-- Courses
------------------------------------------------------------

/- The cells that were made between two sessions. -/
def Session.made (s s' : Session) : Footprint :=
  fun c => s'.Has c ∧ ¬ s.Has c

/- The future that an awaiter reports on, if it does. -/
def Session.awaited?
    (s : Session)
    (a : Ref) : Option Ref :=
  match s.awaiters[a]? with
  | some (.future f _) => some f
  | some (.controlled c) =>
      some (s.controlled.getD c default).future
  | _ => none

/- A future that settles has an outcome from then on. -/
theorem Session.outcome?_settling
    {s : Session}
    {f g : Ref}
    {o : Outcome}
    (hFuture : f < s.futures.size) :
    (s.settling f o).outcome? g =
      if g = f then some o else s.outcome? g := by
  simp only [outcome?, settling, futures_modify hFuture]
  split <;> rfl

namespace Supply

variable {ν : Type}
variable (S : Supply ν)

/-
  How code may have come to an end or a step, from a session:
  with the cells that it made, the wakings it has had, and
  the labels that were allocated while it went on.
-/
inductive Course
    (p : Program)
    (s₀ : Session) :
    Footprint → List (Waking ν) → Nat →
      Except Value Value → Session → Prop where
  | starts
      {rounds depth r s}
      (hRun : p.run (.ofDepth rounds depth) s₀ = some (r, s)) :
      Course p s₀ (s₀.made s) [] (S.count s - S.count s₀) r s
  | resumes
      {K later n step s₁ a l o s₂ rounds depth r s}
      (hEarlier : Course p s₀ K later n (.ok step) s₁)
      (hStep : step.step? =
        some (.suspend (.awaiter a) (.label l)))
      (hRetains : Session.Retains K s₁ s₂)
      (hReady : S.Ready s₂)
      (hTells : s₂.Reveals (s₁.awaited? a) o)
      (hRun : Label.jump (.ofDepth rounds depth) S.machine
        (.label l) s₂ = some (r, s)) :
      Course p s₀ (K.or (s₂.made s))
        (later ++ [⟨o, S.view s₂⟩])
        (n + (S.count s - S.count s₂)) r s

/-
  A run ended as an account tells, or in a step that waits
  for what the account tells to be pending.
-/
inductive Stands (s : Session) :
    Except Value Value → Ending ν → Prop where
  | ends
      {r ending}
      (hEnded : S.Ended r ending) :
      Stands s r ending
  | pauses
      {step a l x src}
      (hStep : step.step? =
        some (.suspend (.awaiter a) (.label l)))
      (hAwaits : S.Awaits s a x src)
      (hPending : ∀ f, src = some f → s.outcome? f = none) :
      Stands s (.ok step) (.paused x)

/-
  The last stretch of a course: it came from a session, with
  an account of its own, and what that tells is what the
  account of it all tells after the earlier wakings.
-/
structure Stretch
    (k : Nat)
    (A : Account ν)
    (s₀ : Session)
    (K : Footprint)
    (later : List (Waking ν))
    (n : Nat)
    (r : Except Value Value)
    (s : Session)
    (F : Footprint)
    (B : Account ν)
    (C : Charge ν)
    (s₁ : Session) : Prop where
  ready : S.Ready s₁
  comes : S.Comes (S.Resumes k) F B s₁ r s
  foot : ∀ c, F c ∨ s₁.made s c → K c
  tells : ∀ more R, B (S.view s₁) more R →
    A (S.view s₀) (later ++ more) (R.after C)
  labels : n = C.labels + (S.count s - S.count s₁)
  waits : C.waits.length = later.length

variable {S}
variable {p : Program}
variable {A : Account ν}
variable {s₀ s₁ s₂ s s' : Session}
variable {K F : Footprint}
variable {later : List (Waking ν)}
variable {n k rounds depth : Nat}
variable {r : Except Value Value}
variable {x : ν}
variable {a : Ref}
variable {src : Option Ref}

/- What an awaiter reports on is behind what was awaited. -/
theorem Awaits.awaited?_eq
    (h : S.Awaits s a x src)
    (hs : S.Ready s) :
    s.awaited? a = src := by
  unfold Session.awaited?
  cases h with
  | future hRow _ => rw [hRow]
  | controlled hRow hOrigin =>
      rw [hRow]
      exact congrArg some (hs.controlled _ _ _ _ hOrigin).2.2
  | custom hRow _ => rw [hRow]

/- Labels are only ever added. -/
theorem Moves.count_sub
    {c : Charge ν}
    (h : S.Moves F c s s') :
    S.count s' - S.count s = c.labels := by
  rw [h.labels]
  exact Nat.add_sub_cancel_left ..

/- Code that has come from where it starts is on a stretch. -/
theorem Meets.stretch
    (hMeets : S.Meets p A)
    (hs : S.Ready s₀)
    (k : Nat)
    (hRun : p.run (.ofDepth rounds depth) s₀ = some (r, s)) :
    S.Stretch k A s₀ (s₀.made s) [] (S.count s - S.count s₀) r s
      .none A .none s₀ where
  ready := hs
  comes := realizes_iff.mp (hMeets k _ _ s₀ hs) _ _ hRun
  foot := by
    rintro c (hc | hc)
    · exact hc.elim
    · exact hc
  tells := by
    intro more R hA
    rw [Report.after_none]
    exact hA
  labels := (Nat.zero_add _).symm
  waits := rfl

/-
  Where a stretch paused, what is next there is a stretch
  from when it is resumed.
-/
theorem Stretch.resumed
    {step : Value}
    {l : Ref}
    {o : Outcome}
    {B : Account ν}
    {C : Charge ν}
    (h : S.Stretch (k + 1) A s₀ K later n (.ok step) s₁
      F B C s')
    (hStep : step.step? =
      some (.suspend (.awaiter a) (.label l)))
    (hRetains : Session.Retains K s₁ s₂)
    (hReady : S.Ready s₂)
    (hTells : s₂.Reveals (s₁.awaited? a) o)
    (hRun : Label.jump (.ofDepth rounds depth) S.machine
      (.label l) s₂ = some (r, s)) :
    ∃ F' B' C', S.Stretch k A s₀ (K.or (s₂.made s))
      (later ++ [⟨o, S.view s₂⟩])
      (n + (S.count s - S.count s₂)) r s F' B' C' s₂ := by
  cases h.comes with
  | ends hMoves hStill hEnded hTells' =>
      cases hEnded with
      | finishes hStep' => cases hStep.symm.trans hStep'
      | handsOff hStep' _ => cases hStep.symm.trans hStep'
  | suspends hStep' hPauses =>
      rename_i a' l' x src c F' B'
      cases hStep.symm.trans hStep'
      have hReady₁ := hPauses.moves.ready h.ready
      rw [hPauses.awaits.awaited?_eq hReady₁] at hTells
      have hFoot : ∀ c, F' c → K c := by
        intro c hc
        rcases hPauses.foot c hc with ⟨hHas, hOld⟩
        refine h.foot c ?_
        by_cases hFirst : s'.Has c
        · exact .inl (hOld hFirst)
        · exact .inr ⟨hHas, hFirst⟩
      have hRests : S.Rests F' s₁ s₂ :=
        ⟨hRetains.weaken fun c _ => hFoot c, hReady⟩
      have hNext : S.Realizes k F'
          (Label.jump (.ofDepth rounds depth) S.machine
            (.label l)) s₂ (B' o) :=
        hPauses.next.wakes k (Nat.lt_succ_self k) rounds depth s₂
          o hRests hTells
      refine ⟨F', B' o, C.plus c,
        { ready := hReady
          comes := realizes_iff.mp hNext _ _ hRun
          foot := ?_
          tells := fun more R hB => ?_
          labels := ?_
          waits := ?_ }⟩
      · rintro c (hc | hc)
        · exact .inl (hFoot c hc)
        · exact .inr hc
      · have hAll := h.tells _ _ (hPauses.later _ _ _ _ hB)
        rw [Report.after_after] at hAll
        rw [List.append_assoc]
        exact hAll
      · rw [h.labels, hPauses.moves.count_sub]
        rfl
      · simp only [Charge.plus, List.length_append, h.waits,
          hPauses.waits, List.length_cons, List.length_nil]

/-
  A course has a last stretch, and may go on from there
  through as many resumptions.  The induction is on the
  course.
-/
theorem Course.stretch
    (h : S.Course p s₀ K later n r s)
    (hs : S.Ready s₀)
    (hMeets : S.Meets p A) :
    ∀ k, ∃ F B C s₁,
      S.Stretch k A s₀ K later n r s F B C s₁ := by
  induction h with
  | starts hRun =>
      exact fun k => ⟨_, _, _, _, hMeets.stretch hs k hRun⟩
  | resumes hEarlier hStep hRetains hReady hTells hRun ih =>
      intro k
      rcases ih (k + 1) with ⟨F, B, C, s₁, hStretch⟩
      rcases hStretch.resumed hStep hRetains hReady hTells hRun
        with ⟨F', B', C', hNext⟩
      exact ⟨F', B', C', _, hNext⟩

/-
  A course comes to what the account tells, and allocates just
  the labels that the account charges for.
-/
theorem Course.accounted
    (h : S.Course p s₀ K later n r s)
    (hs : S.Ready s₀)
    (hMeets : S.Meets p A) :
    ∃ R, A (S.view s₀) later R ∧ S.Stands s r R.ending ∧
      R.view = S.view s ∧ R.left = [] ∧ R.charge.labels = n := by
  rcases h.stretch hs hMeets 0 with ⟨F, B, C, s₁, hStretch⟩
  have hLabels := hStretch.labels
  cases hStretch.comes with
  | ends hMoves hStill hEnded hTells =>
      have hAll := hStretch.tells _ _ (hTells [])
      rw [List.append_nil] at hAll
      rw [hMoves.count_sub] at hLabels
      exact ⟨_, hAll, .ends hEnded, rfl, rfl, hLabels.symm⟩
  | suspends hStep hPauses =>
      have hAll := hStretch.tells _ _ hPauses.tells
      rw [List.append_nil] at hAll
      rw [hPauses.moves.count_sub] at hLabels
      exact ⟨_, hAll, .pauses hStep hPauses.awaits
        hPauses.pending, rfl, rfl, hLabels.symm⟩

end Supply

end Resumption

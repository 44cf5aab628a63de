import Resumption.Proofs.Network.Networks
import Resumption.Proofs.Routine.Lawful

/-
  Networks of lawful members: what the members' readings end
  with is a value, or a value that was thrown, unless a
  source never settles.

  Main declarations:
    * `Network.Lawful`
    * `Network.Foretold.plains`, `Network.Foretold.settles`
-/

namespace Resumption

open Direct (landed Plain)

variable {ν : Type}

namespace Network

/- Every member breaches nothing and gives steps alone. -/
def Lawful (N : Network ν) : Prop :=
  ∀ t m, N.member t = some m → m.routine.Lawful

variable {N : Network ν}
variable {φ : ν → Fate}
variable {o : ν → Except (Stop ν) Value}
variable {R : ν → Reading ν}
variable {s₀ : Session}
variable {done : List ν}
variable {acts : List (Act ν)}

/- What a member is told of a future that it is given. -/
theorem fates_outlook
    {m : Member ν}
    {x : ν}
    {fate : Fate}
    (h : (N.outlook φ m).fates x = some fate) :
    m.inputs x = true ∧ φ x = fate := by
  have hFate : (if m.inputs x then some (φ x) else none) =
      some fate := h
  split at hFate
  · rename_i hx
    cases hFate
    exact ⟨hx, rfl⟩
  · cases hFate

/- What a reading that ends plainly has its output come to. -/
theorem ofResult_of_plain
    {O : Outlook ν}
    {o : Except (Stop ν) Value}
    (h : Plain O o) :
    (∃ outcome, Fate.ofResult o = .known outcome) ∨
      ∃ x, o = .error (.stuck x) ∧ O.fates x = some .never := by
  match o with
  | .ok v => exact .inl ⟨.fulfilled v, rfl⟩
  | .error (.thrown e) => exact .inl ⟨.rejected e, rfl⟩
  | .error (.stuck x) => exact .inr ⟨x, rfl, h⟩

/-
  The reading of a lawful member ends plainly, if no future
  that it is given is rejected with a defect.
-/
theorem Foretold.plain
    {t : ν}
    {m : Member ν}
    (h : N.Foretold φ s₀ o R)
    (hLawful : N.Lawful)
    (hMember : N.member t = some m)
    (hGiven : ∀ x, m.inputs x = true → φ x ≠ .defect) :
    Plain (N.outlook φ m) (o t) := by
  have hClean : (N.outlook φ m).Clean := by
    intro x hx
    rcases fates_outlook hx with ⟨hInput, hFate⟩
    exact hGiven x hInput hFate
  rcases h.reads t m hMember with ⟨n, o₁, hRead, hLanded⟩
  have hPlain := (hLawful t m hMember).plain hClean hRead
  rw [← hLanded, hPlain.landed_eq]
  exact hPlain

/-
  So do those of all members that are started in turn.  What
  holds of the sources' fates, and of all that settle but are
  no defects, holds of what those members are given.
-/
theorem Foretold.plains
    {P : Fate → Prop}
    (h : N.Foretold φ s₀ o R)
    (hLawful : N.Lawful)
    (hKnown : ∀ outcome, P (.known outcome))
    (hDefect : ¬ P .defect)
    (hSources : ∀ x, N.member x = none → P (φ x))
    (hReady : N.Ready [] acts) :
    ∀ t, .start t ∈ acts → ∃ m, N.member t = some m ∧
      Plain (N.outlook φ m) (o t) ∧
        ∀ x, m.inputs x = true → P (φ x) := by
  have hPlain : ∀ t m, N.member t = some m →
      (∀ x, m.inputs x = true → P (φ x)) →
        Plain (N.outlook φ m) (o t) := by
    intro t m hMember hInputs
    exact h.plain hLawful hMember
      fun x hx hFate => hDefect (hFate ▸ hInputs x hx)
  have hGiven := hReady.given (P := fun x => P (φ x)) hSources
    (fun t m hMember hInputs => ?_) (fun x hx => by cases hx)
  · intro t ht
    rcases hGiven t ht with ⟨m, hMember, hInputs⟩
    exact ⟨m, hMember, hPlain t m hMember hInputs, hInputs⟩
  · rw [h.fates t m hMember]
    rcases ofResult_of_plain (hPlain t m hMember hInputs) with
      ⟨outcome, hOutcome⟩ | ⟨x, hStuck, hNever⟩
    · rw [hOutcome]
      exact hKnown outcome
    · rcases fates_outlook hNever with ⟨hInput, hFate⟩
      have hStill : P .never := hFate ▸ hInputs x hInput
      rw [hStuck]
      exact hStill

/-
  Where all sources settle, so do the outputs of all members
  that are started in turn.
-/
theorem Foretold.settles
    (h : N.Foretold φ s₀ o R)
    (hSources : ∀ x, N.member x = none → φ x ≠ .never)
    (hReady : N.Ready [] acts) :
    ∀ t, .start t ∈ acts → ∀ x, o t ≠ .error (.stuck x) := by
  have hEnds : ∀ t m, N.member t = some m →
      (∀ x, m.inputs x = true → φ x ≠ .never) →
        ∀ x, o t ≠ .error (.stuck x) := by
    intro t m hMember hInputs x hStuck
    rcases h.reads t m hMember with ⟨n, o₁, hRead, hLanded⟩
    have hSame : o₁ = .error (.stuck x) := by
      rw [hStuck] at hLanded
      match o₁ with
      | .error (.stuck y) => exact hLanded
    rw [hSame] at hRead
    rcases fates_outlook (Routine.never_of_stuck hRead) with
      ⟨hInput, hFate⟩
    exact hInputs x hInput hFate
  have hGiven := hReady.given (P := fun x => φ x ≠ .never)
    hSources (fun t m hMember hInputs => ?_)
    (fun x hx => by cases hx)
  · intro t ht
    rcases hGiven t ht with ⟨m, hMember, hInputs⟩
    exact hEnds t m hMember hInputs
  · rw [h.fates t m hMember]
    intro hNever
    match ho : o t with
    | .error (.stuck x) => exact hEnds t m hMember hInputs x ho
    | .ok _ | .error (.thrown _) | .error (.breached _)
    | .error (.given _) | .error (.malformed _)
    | .error (.broken _) =>
        rw [ho] at hNever
        cases hNever

end Network

/- A future that answers an end has settled. -/
theorem Session.Answers.settled
    {s : Session}
    {place : ν → Ref}
    {f : Ref}
    {o : Except (Stop ν) Value}
    (h : s.Answers place f o)
    (hEnds : ∀ x, o ≠ .error (.stuck x)) :
    s.Settled f := by
  refine Session.settled_iff.mpr ?_
  match o with
  | .ok v => exact ⟨_, h⟩
  | .error (.thrown e) => exact ⟨_, h⟩
  | .error (.breached b) =>
      rcases h with ⟨e, _, hSettled⟩
      exact ⟨_, hSettled⟩
  | .error (.given v) | .error (.malformed v) =>
      rcases h with ⟨_, e, _, hSettled⟩
      exact ⟨_, hSettled⟩
  | .error (.broken x) =>
      rcases h with ⟨e, _, _, hSettled⟩
      exact ⟨_, hSettled⟩
  | .error (.stuck x) => exact (hEnds x rfl).elim

/- A future that answers a plain end has settled or not by it. -/
theorem Session.Answers.settledAs_iff
    {O : Outlook ν}
    {s : Session}
    {place : ν → Ref}
    {f : Ref}
    {o : Except (Stop ν) Value}
    {outcome : Outcome}
    (h : s.Answers place f o)
    (hPlain : Plain O o) :
    s.SettledAs f outcome ↔ o = outcome.result := by
  constructor
  · intro hs
    match o with
    | .ok v =>
        cases hs.unique h
        rfl
    | .error (.thrown e) =>
        cases hs.unique h
        rfl
    | .error (.stuck x) =>
        exact (h (Session.settled_iff.mpr ⟨outcome, hs⟩)).elim
  · rintro rfl
    cases outcome with
    | fulfilled v => exact h
    | rejected e => exact h

end Resumption

import Resumption.Proofs.Network.Lawful
import Resumption.Proofs.Network.Openings
import Resumption.Proofs.Network.Schedules

/-
  A network comes to the same by every schedule that
  completes it: each output settles with one outcome, and
  each member does the same deeds in the same order, however
  starts and settlements are interleaved.

  Main declarations:
    * `Network.Completes`
    * `Network.outputs_independent_of_schedule`
-/

namespace Resumption

open Direct (landed Plain)

variable {ν : Type}

namespace Network

/-
  A schedule starts every member, and settles every source
  with the outcome that is given for it.
-/
structure Completes
    (N : Network ν)
    (outcomes : ν → Outcome)
    (acts : List (Act ν)) : Prop where
  ready : N.Ready [] acts
  starts : ∀ t m, N.member t = some m → .start t ∈ acts
  settles : ∀ x outcome, N.member x = none →
    (.settle x outcome ∈ acts ↔ outcome = outcomes x)

variable {N : Network ν}
variable {φ : ν → Fate}
variable {outcomes : ν → Outcome}
variable {o : ν → Except (Stop ν) Value}
variable {R : ν → Reading ν}
variable {S : State ν}
variable {acts acts' : List (Act ν)}

/- A schedule that completes settles the sources as foretold. -/
theorem Completes.sources
    (h : N.Completes outcomes acts)
    (hSources : ∀ x, N.member x = none →
      φ x = .known (outcomes x)) :
    N.Sources φ acts where
  settled x outcome hx := by
    have hSource := h.ready.source hx
    rw [hSources x hSource,
      (h.settles x outcome hSource).mp hx]
  pending x hx hNone :=
    (hNone _ ((h.settles x _ hx).mpr rfl)).elim

/- Every lawful member's reading ends with an outcome. -/
theorem Completes.outcome
    {t : ν}
    {m : Member ν}
    (h : N.Completes outcomes acts)
    (hLawful : N.Lawful)
    (hSources : ∀ x, N.member x = none →
      φ x = .known (outcomes x))
    (hForetold : N.Foretold φ S.session o R)
    (hMember : N.member t = some m) :
    ∃ outcome, o t = Outcome.result outcome := by
  let P : Fate → Prop := fun fate =>
    ∃ outcome, fate = .known outcome
  have hDefect : ¬ P .defect := by
    rintro ⟨_, hSame⟩
    cases hSame
  rcases hForetold.plains (P := P) hLawful
      (fun outcome => ⟨outcome, rfl⟩) hDefect
      (fun x hx => ⟨_, hSources x hx⟩) h.ready t
      (h.starts t m hMember) with
    ⟨m', _, hPlain, hGiven⟩
  refine hPlain.outcome fun x hNever => ?_
  rcases fates_outlook hNever with ⟨hInput, hFate⟩
  rcases hGiven x hInput with ⟨_, hKnown⟩
  rw [hFate] at hKnown
  cases hKnown

/-
  By any two schedules that complete a network with the same
  outcomes of its sources, each output settles, and answers
  the same end; and each member leaves the same memory.  The
  outputs of lawful members settle with the same outcomes.
-/
theorem outputs_independent_of_schedule
    (hOpens : N.Opens S)
    (hSeparate : N.Separate)
    (hSources : ∀ x, N.member x = none →
      φ x = .known (outcomes x))
    (hForetold : N.Foretold φ S.session o R)
    (h : N.Completes outcomes acts)
    (h' : N.Completes outcomes acts') :
    ∃ S₁ S₂, N.Plays acts S S₁ ∧ N.Plays acts' S S₂ ∧
      ∀ t m, N.member t = some m →
        ∃ f₁ f₂,
          S₁.place t = some f₁ ∧ S₂.place t = some f₂ ∧
          S₁.session.Settled f₁ ∧ S₂.session.Settled f₂ ∧
          S₁.session.Answers (S₁.view m) f₁ (o t) ∧
          S₂.session.Answers (S₂.view m) f₂ (o t) ∧
          S₁.session.memory m.own = S₂.session.memory m.own ∧
          (N.Lawful → ∃ outcome,
            S₁.session.SettledAs f₁ outcome ∧
              S₂.session.SettledAs f₂ outcome) := by
  rcases plays hOpens hSeparate hForetold h.ready
      (h.sources hSources) with
    ⟨S₁, hPlays₁, hAnswers₁⟩
  rcases plays hOpens hSeparate hForetold h'.ready
      (h'.sources hSources) with
    ⟨S₂, hPlays₂, hAnswers₂⟩
  refine ⟨S₁, S₂, hPlays₁, hPlays₂, fun t m hMember => ?_⟩
  have hStart := h.starts t m hMember
  rcases hAnswers₁ t m hMember hStart with
    ⟨f₁, hPlace₁, hMemory₁, hEnd₁⟩
  rcases hAnswers₂ t m hMember (h'.starts t m hMember) with
    ⟨f₂, hPlace₂, hMemory₂, hEnd₂⟩
  have hEnds : ∀ x, o t ≠ .error (.stuck x) := by
    refine hForetold.settles (fun x hx hNever => ?_) h.ready t
      hStart
    rw [hSources x hx] at hNever
    cases hNever
  refine ⟨f₁, f₂, hPlace₁, hPlace₂, hEnd₁.settled hEnds,
    hEnd₂.settled hEnds, hEnd₁, hEnd₂,
    hMemory₁.trans hMemory₂.symm, fun hLawful => ?_⟩
  rcases h.outcome hLawful hSources hForetold hMember with
    ⟨outcome, hOutcome⟩
  have hPlain : Plain (N.outlook φ m) (o t) := by
    rw [hOutcome]
    exact Direct.Plain.result outcome
  exact ⟨outcome, (hEnd₁.settledAs_iff hPlain).mpr hOutcome,
    (hEnd₂.settledAs_iff hPlain).mpr hOutcome⟩

/- A task that awaits the source, and one that awaits it. -/
def relayRoutines
    (source first : Fin 3) :
    Fin 3 → Option (Routine (Fin 3)) :=
  List.get [none,
    some (.await source fun v =>
      .act (.log (.int 100)) fun _ => .ret v),
    some (.tryFinally (.await first .ret)
      (.act (.log (.int 200)) fun _ => .done .undefined))]

/- The source is settled last, or it is settled first. -/
theorem outputs_independent_of_schedule_relay :
    ∃ S₁ S₂ f₁ f₂,
      (ofRoutines (relayRoutines 0 1)).Plays
        [.start 1, .start 2, .settle 0 (.fulfilled (.int 5))]
        (State.fresh [0]) S₁ ∧
      (ofRoutines (relayRoutines 0 1)).Plays
        [.settle 0 (.fulfilled (.int 5)), .start 1, .start 2]
        (State.fresh [0]) S₂ ∧
      S₁.place 2 = some f₁ ∧ S₂.place 2 = some f₂ ∧
      S₁.session.SettledAs f₁ (.fulfilled (.int 5)) ∧
      S₂.session.SettledAs f₂ (.fulfilled (.int 5)) ∧
      S₁.session.memory (.hundred 2) =
        S₂.session.memory (.hundred 2) := by
  let N := ofRoutines (relayRoutines 0 1)
  let S : State (Fin 3) := State.fresh [0]
  let five := Outcome.fulfilled (.int 5)
  let R : Fin 3 → Reading (Fin 3) := fun t =>
    if t = 1 then ⟨⟨[], [.int 100]⟩, [0]⟩
    else ⟨⟨[], [.int 200]⟩, [1]⟩
  have hForetold : N.Foretold (fun _ => .known five) S.session
      (fun _ => .ok (.int 5)) R := by
    refine ⟨fun t m hMember => ⟨4, .ok (.int 5), ?_, rfl⟩,
      fun _ _ _ => rfl⟩
    match t with
    | 1 | 2 =>
        cases hMember
        rfl
  have hSettles : ∀ x outcome, N.member x = none →
      ((x = 0 ∧ outcome = five) ↔ outcome = five) := by
    intro x outcome hSource
    match x with
    | 0 => exact and_iff_right rfl
    | 1 | 2 => cases hSource
  have hStarts : ∀ t m, N.member t = some m →
      t = 1 ∨ t = 2 := by
    intro t m hMember
    match t with
    | 0 => cases hMember
    | 1 => exact .inl rfl
    | 2 => exact .inr rfl
  have hLast : N.Completes (fun _ => five)
      [.start 1, .start 2, .settle 0 five] := {
    ready := ⟨by decide, ⟨_, rfl, by decide⟩,
      by decide, ⟨_, rfl, by decide⟩, by decide, rfl, trivial⟩
    starts := by simpa using hStarts
    settles := by simpa using hSettles }
  have hFirst : N.Completes (fun _ => five)
      [.settle 0 five, .start 1, .start 2] := {
    ready := ⟨by decide, rfl, by decide, ⟨_, rfl, by decide⟩,
      by decide, ⟨_, rfl, by decide⟩, trivial⟩
    starts := by simpa using hStarts
    settles := by simpa using hSettles }
  rcases outputs_independent_of_schedule
      (ofRoutines_opens (relayRoutines 0 1))
      (ofRoutines_separate _) (fun _ _ => rfl)
      hForetold hLast hFirst with
    ⟨S₁, S₂, hPlays₁, hPlays₂, hEnds⟩
  rcases hEnds 2 _ rfl with
    ⟨f₁, f₂, hPlace₁, hPlace₂, _, _, hEnd₁, hEnd₂, hMemory, _⟩
  exact ⟨S₁, S₂, f₁, f₂, hPlays₁, hPlays₂, hPlace₁, hPlace₂,
    hEnd₁, hEnd₂, hMemory⟩

end Network

end Resumption

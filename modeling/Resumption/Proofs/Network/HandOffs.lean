import Resumption.Proofs.Network.Lawful
import Resumption.Proofs.Network.Openings
import Resumption.Proofs.Network.Schedules
import Resumption.Proofs.Routine.Trails

/-
  Handing off to a future comes to the same as awaiting it
  and returning what it gives, wherever a member does so and
  whenever the future settles, if it does.

  Main declarations:
    * `Network.Alike`
    * `Network.handing_off_agrees_with_awaiting`
-/

namespace Resumption

open Direct (landed Plain)

variable {ν : Type}

namespace Network

/- Two networks whose members hand off in other places. -/
structure Alike (N N' : Network ν) : Prop where
  member : ∀ t m, N.member t = some m →
    ∃ routine, m.routine.Alike routine ∧
      N'.member t = some { m with routine := routine }
  source : ∀ x, N.member x = none → N'.member x = none
  handle : N'.handle = N.handle
  releases : N'.releases = N.releases

variable {N N' : Network ν}
variable {φ : ν → Fate}
variable {o : ν → Except (Stop ν) Value}
variable {R : ν → Reading ν}
variable {S : State ν}
variable {s₀ : Session}
variable {done : List ν}
variable {acts : List (Act ν)}

namespace Alike

/- A member of the one network is a member of the other. -/
theorem of_member
    {t : ν}
    {m' : Member ν}
    (h : N.Alike N')
    (hMember : N'.member t = some m') :
    ∃ m, N.member t = some m ∧
      m.routine.Alike m'.routine ∧
      m' = { m with routine := m'.routine } := by
  cases hm : N.member t with
  | none =>
      rw [h.source t hm] at hMember
      cases hMember
  | some m =>
      rcases h.member t m hm with ⟨routine, hAlike, hSame⟩
      rw [hMember] at hSame
      cases hSame
      exact ⟨m, rfl, hAlike, rfl⟩

theorem source_iff
    {x : ν}
    (h : N.Alike N') :
    N'.member x = none ↔ N.member x = none := by
  constructor
  · intro hx
    cases hm : N.member x with
    | none => rfl
    | some m =>
        rcases h.member x m hm with ⟨routine, _, hSame⟩
        rw [hx] at hSame
        cases hSame
  · exact h.source x

theorem opens
    (h : N.Alike N')
    (hOpens : N.Opens S) :
    N'.Opens S where
  ambient := hOpens.ambient
  tidy := hOpens.tidy
  resource r release hr := by
    rw [h.releases] at hr
    exact hOpens.resource r release hr
  source x hx := by
    rw [h.handle]
    exact hOpens.source x (h.source_iff.mp hx)
  apart x y r hx hy :=
    hOpens.apart x y r (h.source_iff.mp hx) (h.source_iff.mp hy)
  member t m' hMember := by
    rcases h.of_member hMember with ⟨m, hm, _, _⟩
    exact hOpens.member t m hm

theorem separate
    (h : N.Alike N')
    (hSeparate : N.Separate) :
    N'.Separate := by
  intro t u m' w' ht hu hNe
  rcases h.of_member ht with ⟨m, hm, _, hSame⟩
  rcases h.of_member hu with ⟨w, hw, _, hSame'⟩
  rw [hSame, hSame']
  exact hSeparate t u m w hm hw hNe

theorem ready
    (h : N.Alike N')
    (hReady : N.Ready done acts) :
    N'.Ready done acts := by
  induction acts generalizing done with
  | nil => trivial
  | cons act acts ih =>
      cases act with
      | start t =>
          rcases hReady with ⟨hNew, ⟨m, hMember, hGiven⟩, hRest⟩
          rcases h.member t m hMember with ⟨routine, _, hSame⟩
          refine ⟨hNew, ⟨_, hSame, fun x hx => ?_⟩, ih hRest⟩
          rw [h.source_iff]
          exact hGiven x hx
      | settle x outcome =>
          rcases hReady with ⟨hNew, hSource, hRest⟩
          exact ⟨hNew, h.source x hSource, ih hRest⟩

theorem sources
    (h : N.Alike N')
    (hSources : N.Sources φ acts) :
    N'.Sources φ acts where
  settled := hSources.settled
  pending x hx := hSources.pending x (h.source_iff.mp hx)

/- The readings of the one network are those of the other. -/
theorem foretold
    (h : N.Alike N')
    (hForetold : N.Foretold φ s₀ o R) :
    N'.Foretold φ s₀ o R where
  reads t m' hMember := by
    rcases h.of_member hMember with ⟨m, hm, hAlike, hSame⟩
    rcases hForetold.reads t m hm with ⟨n, o₁, hRead, hLanded⟩
    have hOutlook : N'.outlook φ m' = N.outlook φ m := by
      rw [hSame]
      simp only [outlook, h.releases]
    have hOwn : m'.own = m.own := by
      rw [hSame]
    refine ⟨n + 1, o₁, ?_, hLanded⟩
    rw [hOutlook, hOwn]
    exact hAlike.direct_eq hRead
  fates t m' hMember := by
    rcases h.of_member hMember with ⟨m, hm, _, _⟩
    exact hForetold.fates t m hm

end Alike

/-
  In two networks that differ in where they hand off and
  where they await, each output answers the same end, and
  each member leaves the same memory.  Outputs of lawful
  members settle with the same outcomes, or not at all.
-/
theorem handing_off_agrees_with_awaiting
    (hAlike : N.Alike N')
    (hOpens : N.Opens S)
    (hSeparate : N.Separate)
    (hForetold : N.Foretold φ S.session o R)
    (hReady : N.Ready [] acts)
    (hSources : N.Sources φ acts) :
    ∃ S₁ S₂, N.Plays acts S S₁ ∧ N'.Plays acts S S₂ ∧
      ∀ t m, N.member t = some m → .start t ∈ acts →
        ∃ f₁ f₂,
          S₁.place t = some f₁ ∧ S₂.place t = some f₂ ∧
          S₁.session.Answers (S₁.view m) f₁ (o t) ∧
          S₂.session.Answers (S₂.view m) f₂ (o t) ∧
          S₁.session.memory m.own = S₂.session.memory m.own ∧
          (N.Lawful → ∀ outcome,
            S₁.session.SettledAs f₁ outcome ↔
              S₂.session.SettledAs f₂ outcome) := by
  rcases plays hOpens hSeparate hForetold hReady hSources with
    ⟨S₁, hPlays₁, hAnswers₁⟩
  rcases plays (hAlike.opens hOpens) (hAlike.separate hSeparate)
      (hAlike.foretold hForetold) (hAlike.ready hReady)
      (hAlike.sources hSources) with
    ⟨S₂, hPlays₂, hAnswers₂⟩
  refine ⟨S₁, S₂, hPlays₁, hPlays₂, fun t m hMember ht => ?_⟩
  rcases hAlike.member t m hMember with ⟨routine, _, hMember'⟩
  rcases hAnswers₁ t m hMember ht with
    ⟨f₁, hPlace₁, hMemory₁, hEnd₁⟩
  rcases hAnswers₂ t _ hMember' ht with
    ⟨f₂, hPlace₂, hMemory₂, hEnd₂⟩
  refine ⟨f₁, f₂, hPlace₁, hPlace₂, hEnd₁, hEnd₂,
    hMemory₁.trans hMemory₂.symm, fun hLawful outcome => ?_⟩
  have hClean : ∀ x, N.member x = none → φ x ≠ .defect := by
    intro x hx hDefect
    by_cases hSettled : ∃ outcome, .settle x outcome ∈ acts
    · rcases hSettled with ⟨outcome, hSettle⟩
      rw [hSources.settled x outcome hSettle] at hDefect
      cases hDefect
    · rw [hSources.pending x hx fun outcome hSettle =>
        hSettled ⟨outcome, hSettle⟩] at hDefect
      cases hDefect
  rcases hForetold.plains (P := (· ≠ .defect)) hLawful
      (fun _ => nofun) (fun h => h rfl) hClean hReady t ht with
    ⟨_, _, hPlain, _⟩
  exact (hEnd₁.settledAs_iff hPlain).trans
    (hEnd₂.settledAs_iff hPlain).symm

/- A task that does something within a protected body. -/
def protectedRoutines
    (body : Routine (Fin 2)) :
    Fin 2 → Option (Routine (Fin 2)) :=
  List.get [none, some (.tryFinally body
    (.act (.log (.int 100)) fun _ => .done .undefined))]

/- It hands off, or it awaits, to a source that is rejected. -/
theorem handing_off_agrees_with_awaiting_protected :
    ∃ S₁ S₂ f₁ f₂,
      (ofRoutines (protectedRoutines (.handOff 0))).Plays
        [.start 1, .settle 0 (.rejected (.str "late"))]
        (State.fresh [0]) S₁ ∧
      (ofRoutines (protectedRoutines (.await 0 .ret))).Plays
        [.start 1, .settle 0 (.rejected (.str "late"))]
        (State.fresh [0]) S₂ ∧
      S₁.place 1 = some f₁ ∧ S₂.place 1 = some f₂ ∧
      S₁.session.SettledAs f₁ (.rejected (.str "late")) ∧
      S₂.session.SettledAs f₂ (.rejected (.str "late")) ∧
      S₁.session.memory (.hundred 1) =
        S₂.session.memory (.hundred 1) := by
  let N := ofRoutines (protectedRoutines (.handOff 0))
  let N' := ofRoutines (protectedRoutines (.await 0 .ret))
  let S : State (Fin 2) := State.fresh [0]
  let late := Outcome.rejected (.str "late")
  have hAlike : N.Alike N' := by
    refine ⟨fun t m hMember => ?_, fun x hx => ?_, rfl, rfl⟩
    · match t with
      | 1 =>
          cases hMember
          exact ⟨_, .tryFinally (.awaits 0), rfl⟩
    · match x with
      | 0 => rfl
      | 1 => cases hx
  have hForetold : N.Foretold (fun _ => .known late) S.session
      (fun _ => late.result)
      (fun _ => ⟨⟨[], [.int 100]⟩, [0]⟩) := by
    refine ⟨fun t m hMember => ⟨2, late.result, ?_, rfl⟩,
      fun _ _ _ => rfl⟩
    match t with
    | 1 =>
        cases hMember
        rfl
  have hReady : N.Ready [] [.start 1, .settle 0 late] :=
    ⟨by decide, ⟨_, rfl, by decide⟩, by decide, rfl, trivial⟩
  have hSources : N.Sources (fun _ => .known late)
      [.start 1, .settle 0 late] := by
    refine ⟨fun x outcome hx => ?_, fun x hx hNone => ?_⟩
    · rcases List.mem_cons.mp hx with hSame | hx
      · cases hSame
      · cases List.mem_singleton.mp hx
        rfl
    · match x with
      | 0 => exact (hNone late (by simp)).elim
      | 1 => cases hx
  rcases handing_off_agrees_with_awaiting hAlike
      (ofRoutines_opens (protectedRoutines (.handOff 0)))
      (ofRoutines_separate _) hForetold hReady hSources with
    ⟨S₁, S₂, hPlays₁, hPlays₂, hEnds⟩
  rcases hEnds 1 _ rfl (by simp) with
    ⟨f₁, f₂, hPlace₁, hPlace₂, hEnd₁, hEnd₂, hMemory, _⟩
  exact ⟨S₁, S₂, f₁, f₂, hPlays₁, hPlays₂, hPlace₁, hPlace₂,
    hEnd₁, hEnd₂, hMemory⟩

end Network

end Resumption

import Resumption.Proofs.Network.Lawful
import Resumption.Proofs.Network.Openings
import Resumption.Proofs.Network.Schedules
import Resumption.Proofs.Routine.Trails

/-
  A task follows the reading of its routine, however the
  sources are settled.

  At any time its log is a prefix of the reading's.  Its
  output is pending while a future that the reading awaits
  is; when they all have settled, it has settled as the
  reading ended.

  Main declarations:
    * `Network.task_follows_reading`
-/

namespace Resumption

open Direct (landed Plain)

variable {ν : Type}

namespace Network

open Classical in
/- The fates of sources of which some have been settled. -/
noncomputable def soFar
    (outcomes : ν → Outcome)
    (acts : List (Act ν))
    (x : ν) : Fate :=
  if ∃ outcome, Act.settle x outcome ∈ acts then
    .known (outcomes x)
  else .never

variable {N : Network ν}
variable {φ : ν → Fate}
variable {outcomes : ν → Outcome}
variable {S : State ν}
variable {t : ν}
variable {m : Member ν}
variable {done : List ν}
variable {acts : List (Act ν)}

/- A task that is started is not given its own output. -/
theorem Ready.inputs
    (h : N.Ready done acts)
    (hMember : N.member t = some m)
    (hStart : .start t ∈ acts) :
    m.inputs t = false := by
  refine Bool.eq_false_iff.mpr fun hInput => ?_
  induction acts generalizing done with
  | nil => cases hStart
  | cons act acts ih =>
      cases act with
      | start u =>
          rcases List.mem_cons.mp hStart with hSame | hStart
          · cases hSame
            rcases h with ⟨hNew, ⟨m', hMember', hGiven⟩, _⟩
            rw [hMember] at hMember'
            cases hMember'
            rcases hGiven t hInput with hSource | hDone
            · rw [hMember] at hSource
              cases hSource
            · exact hNew hDone
          · exact ih h.2.2 hStart
      | settle x outcome =>
          rcases List.mem_cons.mp hStart with hSame | hStart
          · cases hSame
          · exact ih h.2.2 hStart

/- What a member is told depends on what it is given alone. -/
theorem outlook_congr
    {φ' : ν → Fate}
    (h : ∀ x, m.inputs x = true → φ' x = φ x) :
    N.outlook φ' m = N.outlook φ m := by
  have hFates :
      (fun x => if m.inputs x then some (φ' x) else none) =
        fun x => if m.inputs x then some (φ x) else none := by
    funext x
    split
    · rename_i hx
      rw [h x hx]
    · rfl
  simp only [outlook, hFates]

/- What was settled so far defers what is to be settled. -/
theorem defers_soFar
    (N : Network ν)
    (m : Member ν)
    (outcomes : ν → Outcome)
    (acts : List (Act ν)) :
    (N.outlook (fun x => .known (outcomes x)) m).Defers
      (N.outlook (soFar outcomes acts) m) where
  own := rfl
  releases := rfl
  checks := rfl
  fates x := by
    simp only [outlook, soFar]
    split
    · split
      · exact .inl rfl
      · exact .inr ⟨rfl, rfl⟩
    · exact .inl rfl

/- What was settled so far is settled as its fate says. -/
theorem sources_soFar
    (N : Network ν)
    (hOutcomes : ∀ x outcome, .settle x outcome ∈ acts →
      outcome = outcomes x) :
    N.Sources (soFar outcomes acts) acts where
  settled x outcome hx := by
    have hSome : ∃ outcome, Act.settle x outcome ∈ acts :=
      ⟨outcome, hx⟩
    rw [soFar, if_pos hSome, hOutcomes x outcome hx]
  pending x _ hNone := by
    have hNot : ¬ ∃ outcome, Act.settle x outcome ∈ acts :=
      fun ⟨outcome, hx⟩ => hNone outcome hx
    rw [soFar, if_neg hNot]

open Classical in
/- A task that is alone in its network comes to its reading. -/
theorem plays_alone
    {n : Nat}
    {o : Except (Stop ν) Value}
    {R : Reading ν}
    (hMember : N.member t = some m)
    (hAlone : ∀ x, x ≠ t → N.member x = none)
    (hOpens : N.Opens S)
    (hReady : N.Ready [] acts)
    (hStart : .start t ∈ acts)
    (hSources : N.Sources φ acts)
    (hRead : m.routine.direct (N.outlook φ m) n
      ⟨S.session.memory m.own, []⟩ = some (o, R)) :
    ∃ S₁ f, N.Plays acts S S₁ ∧ S₁.place t = some f ∧
      S₁.session.memory m.own = R.memory ∧
      S₁.session.Answers (S₁.view m) f (landed o) := by
  have hOnly : ∀ u m', N.member u = some m' →
      u = t ∧ m' = m := by
    intro u m' hu
    by_cases hSame : u = t
    · subst hSame
      rw [hMember] at hu
      cases hu
      exact ⟨rfl, rfl⟩
    · rw [hAlone u hSame] at hu
      cases hu
  let φ' : ν → Fate := fun x =>
    if x = t then Fate.ofResult (landed o) else φ x
  have hOutlook : N.outlook φ' m = N.outlook φ m := by
    refine outlook_congr fun x hx => if_neg ?_
    rintro rfl
    rw [hReady.inputs hMember hStart] at hx
    cases hx
  have hForetold : N.Foretold φ' S.session
      (fun _ => landed o) (fun _ => R) := by
    refine ⟨fun u m' hu => ?_, fun u m' hu => ?_⟩
    · rcases hOnly u m' hu with ⟨rfl, rfl⟩
      refine ⟨n, o, ?_, rfl⟩
      rw [hOutlook]
      exact hRead
    · rcases hOnly u m' hu with ⟨rfl, _⟩
      exact if_pos rfl
  have hSeparate : N.Separate := by
    intro u v m₁ m₂ hu hv hNe
    rcases hOnly u m₁ hu with ⟨rfl, _⟩
    rcases hOnly v m₂ hv with ⟨rfl, _⟩
    exact (hNe rfl).elim
  have hElse : ∀ x, N.member x = none → φ' x = φ x := by
    intro x hx
    refine if_neg ?_
    rintro rfl
    rw [hMember] at hx
    cases hx
  have hSources' : N.Sources φ' acts := by
    refine ⟨fun x outcome hx => ?_, fun x hx hNone => ?_⟩
    · rw [hElse x (hReady.source hx)]
      exact hSources.settled x outcome hx
    · rw [hElse x hx]
      exact hSources.pending x hx hNone
  rcases plays hOpens hSeparate hForetold hReady hSources' with
    ⟨S₁, hPlays, hAnswers⟩
  rcases hAnswers t m hMember hStart with
    ⟨f, hPlace, hMemory, hEnd⟩
  exact ⟨S₁, f, hPlays, hPlace, hMemory, hEnd⟩

/-
  What a task comes to whose reading ends so when all sources
  settle, after some of them have.
-/
theorem comes_to
    {n : Nat}
    {o : Except (Stop ν) Value}
    {R' : Reading ν}
    (hMember : N.member t = some m)
    (hAlone : ∀ x, x ≠ t → N.member x = none)
    (hOpens : N.Opens S)
    (hRead : m.routine.direct
        (N.outlook (fun x => .known (outcomes x)) m) n
        ⟨S.session.memory m.own, []⟩ = some (o, R'))
    (hOutcomes : ∀ x outcome, .settle x outcome ∈ acts →
      outcome = outcomes x)
    (hReady : N.Ready [] acts)
    (hStart : .start t ∈ acts) :
    ∃ S₁ f, N.Plays acts S S₁ ∧ S₁.place t = some f ∧
      ((S₁.session.memory m.own = R'.memory ∧
          S₁.session.Answers (S₁.view m) f (landed o) ∧
          ∀ x ∈ R'.awaited,
            ∃ outcome, .settle x outcome ∈ acts) ∨
        ((S₁.session.memory m.own).log <+: R'.memory.log ∧
          ¬ S₁.session.Settled f ∧
          ∃ x ∈ R'.awaited,
            ∀ outcome, .settle x outcome ∉ acts)) := by
  let O := N.outlook (fun x => .known (outcomes x)) m
  let O' := N.outlook (soFar outcomes acts) m
  have hSources := sources_soFar N hOutcomes
  have hTrails := (Routine.Alike.refl m.routine).direct_trails
    (defers_soFar N m outcomes acts) n
  have hExtends := (hTrails _ o R' hRead).1
  have hFated : ∀ x ∈ R'.awaited, m.inputs x = true := by
    intro x hx
    rcases hExtends.fated x hx with hOld | hFate
    · cases hOld
    · rcases Option.isSome_iff_exists.mp hFate with ⟨fate, hFate⟩
      exact (fates_outlook hFate).1
  -- A source defers the reading where it was not settled yet.
  have hSettled : ∀ x ∈ R'.awaited,
      (O'.fates x = O.fates x ↔
        ∃ outcome, .settle x outcome ∈ acts) := by
    intro x hx
    simp only [O, O', outlook, soFar, hFated x hx, if_true]
    constructor
    · intro hSame
      split at hSame
      · assumption
      · cases hSame
    · intro hSome
      rw [if_pos hSome]
  cases (hTrails _ o R' hRead).2 (fun _ hx => by cases hx) with
  | same hSame hAgree =>
      rcases plays_alone hMember hAlone hOpens hReady hStart
          hSources hSame with
        ⟨S₁, f, hPlays, hPlace, hMemory, hEnd⟩
      exact ⟨S₁, f, hPlays, hPlace, .inl ⟨hMemory, hEnd,
        fun x hx => (hSettled x hx).mp (hAgree x hx)⟩⟩
  | @stuck x R₁ hStuck hBefore hAwaited hDeferred =>
      rcases plays_alone hMember hAlone hOpens hReady hStart
          hSources hStuck with
        ⟨S₁, f, hPlays, hPlace, hMemory, hEnd⟩
      refine ⟨S₁, f, hPlays, hPlace, .inr ⟨?_, hEnd, x, hAwaited,
        fun outcome hx => ?_⟩⟩
      · rw [hMemory]
        exact hBefore.log
      · exact hDeferred ((hSettled x hAwaited).mpr ⟨outcome, hx⟩)

/-
  Whenever a schedule is halted, a task's log is a prefix of
  that of its reading.  Its output is pending while a future
  that the reading awaits is to be settled; when none is, the
  output has settled as the reading ended, and all has been
  done that was read.
-/
theorem task_follows_reading
    {n : Nat}
    {o : Except (Stop ν) Value}
    {R' : Reading ν}
    (hMember : N.member t = some m)
    (hAlone : ∀ x, x ≠ t → N.member x = none)
    (hLawful : m.routine.Lawful)
    (hOpens : N.Opens S)
    (hRead : m.routine.direct
        (N.outlook (fun x => .known (outcomes x)) m) n
        ⟨S.session.memory m.own, []⟩ = some (o, R'))
    (hOutcomes : ∀ x outcome, .settle x outcome ∈ acts →
      outcome = outcomes x)
    (hReady : N.Ready [] acts)
    (hStart : .start t ∈ acts) :
    ∃ outcome, o = Outcome.result outcome ∧
      ∃ S', N.Plays acts S S' ∧
        ∀ acts₁ acts₂, acts = acts₁ ++ acts₂ →
          .start t ∈ acts₁ →
          ∃ S₁ f, N.Plays acts₁ S S₁ ∧ N.Plays acts₂ S₁ S' ∧
            S₁.place t = some f ∧
            (S₁.session.memory m.own).log <+: R'.memory.log ∧
            ((∃ x ∈ R'.awaited,
                ∀ outcome, .settle x outcome ∉ acts₁) →
              ¬ S₁.session.Settled f) ∧
            ((∀ x ∈ R'.awaited,
                ∃ outcome, .settle x outcome ∈ acts₁) →
              S₁.session.SettledAs f outcome ∧
                S₁.session.memory m.own = R'.memory) := by
  have hFates : ∀ x fate,
      (N.outlook (fun x => .known (outcomes x)) m).fates x =
        some fate → fate = .known (outcomes x) :=
    fun x fate hFate => (fates_outlook hFate).2.symm
  have hPlain := hLawful.plain
    (fun x hx => by cases hFates x _ hx) hRead
  rcases hPlain.outcome (fun x hx => by cases hFates x _ hx) with
    ⟨outcome, rfl⟩
  rcases comes_to hMember hAlone hOpens hRead hOutcomes hReady
      hStart with
    ⟨S', _, hPlays, _⟩
  refine ⟨outcome, rfl, S', hPlays, ?_⟩
  rintro acts₁ acts₂ rfl hStart₁
  rcases comes_to hMember hAlone hOpens hRead
      (fun x outcome hx =>
        hOutcomes x outcome (List.mem_append_left _ hx))
      hReady.halt hStart₁ with
    ⟨S₁, f, hPlays₁, hPlace, hState⟩
  rcases hPlays.halt with ⟨S₂, hFirst, hSecond⟩
  cases hPlays₁.unique hFirst
  refine ⟨S₁, f, hPlays₁, hSecond, hPlace, ?_⟩
  rcases hState with
    ⟨hMemory, hEnd, hAll⟩ | ⟨hLog, hPending, x, hx, hLeft⟩
  · rw [hPlain.landed_eq] at hEnd
    refine ⟨by simp only [hMemory, List.prefix_rfl], ?_,
      fun _ => ⟨(hEnd.settledAs_iff hPlain).mpr rfl, hMemory⟩⟩
    rintro ⟨x, hx, hNone⟩
    rcases hAll x hx with ⟨outcome', hSettle⟩
    exact (hNone outcome' hSettle).elim
  · refine ⟨hLog, fun _ => hPending, fun hAll => ?_⟩
    rcases hAll x hx with ⟨outcome', hSettle⟩
    exact (hLeft outcome' hSettle).elim

/-
  A routine that awaits one source and then another, within a
  protected body, and handles what is thrown.
-/
def handlingRoutines
    (first second : Fin 3) :
    Fin 3 → Option (Routine (Fin 3)) :=
  List.get [none, none, some (.tryWith
    (.tryFinally
      (.await first fun _ => .act (.log (.int 200)) fun _ =>
        .await second .ret)
      (.act (.log (.int 201)) fun _ => .done .undefined))
    fun e => .act (.log (.int 202)) fun _ => .ret e)]

/- The second source is settled when it is awaited already. -/
theorem task_follows_reading_handling :
    ∃ S₁ S₂ f₁ f₂,
      (ofRoutines (handlingRoutines 0 1)).Plays
        [.settle 0 (.fulfilled (.int 5)), .start 2]
        (State.fresh [0, 1]) S₁ ∧
      S₁.place 2 = some f₁ ∧ ¬ S₁.session.Settled f₁ ∧
      (S₁.session.memory (.hundred 2)).log <+:
        [.int 200, .int 201, .int 202] ∧
      (ofRoutines (handlingRoutines 0 1)).Plays
        [.settle 1 (.rejected (.str "late"))] S₁ S₂ ∧
      S₂.place 2 = some f₂ ∧
      S₂.session.SettledAs f₂ (.fulfilled (.str "late")) ∧
      (S₂.session.memory (.hundred 2)).log =
        [.int 200, .int 201, .int 202] := by
  let acts : List (Act (Fin 3)) :=
    [.settle 0 (.fulfilled (.int 5)), .start 2,
      .settle 1 (.rejected (.str "late"))]
  let outcomes : Fin 3 → Outcome := fun x =>
    if x = 0 then .fulfilled (.int 5)
    else .rejected (.str "late")
  let m := Member.numbered 2
    ((handlingRoutines 0 1 2).getD .zero)
  let R : Reading (Fin 3) :=
    ⟨⟨[], [.int 200, .int 201, .int 202]⟩, [1, 0]⟩
  have hRead : m.routine.direct
      ((ofRoutines (handlingRoutines 0 1)).outlook
        (fun x => .known (outcomes x)) m) 6
      ⟨⟨[], []⟩, []⟩ = some (.ok (.str "late"), R) := rfl
  have hLawful : m.routine.Lawful :=
    ⟨fun _ _ _ => trivial, fun _ _ => trivial⟩
  have hOutcomes : ∀ x outcome, .settle x outcome ∈ acts →
      outcome = outcomes x := by
    simp +contextual [acts, or_imp, outcomes]
  have hReady :
      (ofRoutines (handlingRoutines 0 1)).Ready [] acts :=
    ⟨by decide, rfl, by decide, ⟨m, rfl, by decide⟩,
      by decide, rfl, trivial⟩
  rcases task_follows_reading (t := 2) rfl (by decide) hLawful
      (ofRoutines_opens (handlingRoutines 0 1)) hRead hOutcomes
      hReady (by simp [acts]) with
    ⟨outcome, hSame, S₂, _, hHalts⟩
  obtain rfl : outcome = .fulfilled (.str "late") := by
    cases outcome <;> cases hSame
    rfl
  rcases hHalts [.settle 0 (.fulfilled (.int 5)), .start 2] _
      rfl (by simp) with
    ⟨S₁, f₁, hPlays, hRest, hPlace₁, hLog, hPending, _⟩
  rcases hHalts _ [] (List.append_nil _).symm
      (by simp [acts]) with
    ⟨_, f₂, _, hNone, hPlace₂, _, _, hSettles⟩
  cases hNone
  rcases hSettles (by simp [R, acts]) with
    ⟨hSettled, hMemory⟩
  exact ⟨S₁, S₂, f₁, f₂, hPlays, hPlace₁,
    hPending ⟨1, by simp [R], by simp⟩, hLog, hRest, hPlace₂,
    hSettled, congrArg Memory.log hMemory⟩

end Network

end Resumption

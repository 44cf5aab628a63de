import Resumption.Proofs.Network.Defects
import Resumption.Proofs.Task.Reachable

/-
  What is given in place of a step is a defect where a jump
  lands, and where a task begins: the output is rejected with
  a report of it, and no handler is given anything.

  A sequence reads its first step itself, without a jump.
  There the same mistake is an ordinary error.

  Main declarations:
    * `Network.malformed_steps_reported`
    * `Routine.sequencingNull`
-/

namespace Resumption

variable {ν : Type}

namespace Network

variable {N : Network ν}
variable {φ : ν → Fate}
variable {o : ν → Except (Stop ν) Value}
variable {R : ν → Reading ν}
variable {S : State ν}
variable {acts : List (Act ν)}

/-
  A member that gives something under a label that is no step
  is rejected with a report of what it gave, whatever is
  around it.  It leaves the memory of where it gave it, after
  the compensations around that point.
-/
theorem malformed_steps_reported
    {t : ν}
    {m : Member ν}
    {stop : Stop ν}
    {v : Value}
    {R' : Reading ν}
    (hOpens : N.Opens S)
    (hSeparate : N.Separate)
    (hForetold : N.Foretold φ S.session o R)
    (hReady : N.Ready [] acts)
    (hSources : N.Sources φ acts)
    (hRaises : N.Raises φ S.session t m stop R')
    (hGiven : stop.land = .malformed v)
    (hStart : .start t ∈ acts) :
    ∃ S' f l e, N.Plays acts S S' ∧ S'.place t = some f ∧
      e.Reports (.malformedStep l v) ∧
      S'.session.SettledAs f (.rejected e) ∧
      S'.session.memory m.own = R'.memory := by
  rcases plays hOpens hSeparate hForetold hReady hSources with
    ⟨S', hPlays, hAnswers⟩
  rcases hAnswers t m hRaises.member hStart with
    ⟨f, hPlace, hMemory, hEnd⟩
  rcases hRaises.foretold hForetold with ⟨_, hResult, rfl⟩
  rw [hResult, hGiven] at hEnd
  rcases hEnd with ⟨l, e, hReports, hSettled⟩
  exact ⟨S', f, l, e, hPlays, hPlace, hReports, hSettled,
    hMemory⟩

/- A sequence that ends in nothing, within a protected body. -/
def endingInNull
    (source : Fin 2) :
    Fin 2 → Option (Routine (Fin 2)) :=
  List.get [none, some (.tryWith
    (.combine (.await source .ret) (.give .null rfl))
    fun _ => .act (.log (.int 100)) fun _ => .ret .undefined)]

/- It is reported once the source has been settled. -/
theorem malformed_steps_reported_null :
    ∃ S' f l e,
      (ofRoutines (endingInNull 0)).Plays
        [.start 1, .settle 0 (.fulfilled (.int 5))]
        (State.fresh [0]) S' ∧
      S'.place 1 = some f ∧
      e.Reports (.malformedStep l .null) ∧
      S'.session.SettledAs f (.rejected e) ∧
      (S'.session.memory (.hundred 1)).log = [] := by
  let N := ofRoutines (endingInNull 0)
  let S : State (Fin 2) := State.fresh [0]
  let five := Outcome.fulfilled (.int 5)
  let φ : Fin 2 → Fate := fun x =>
    if x = 0 then .known five else .defect
  let R : Reading (Fin 2) := ⟨⟨[], []⟩, [0]⟩
  let stop : Stop (Fin 2) := .malformed .null
  have hRaises : ∀ m, N.member 1 = some m →
      N.Raises φ S.session 1 m stop R := by
    intro m hMember
    have hRest : Routine.Raises (N.outlook φ m)
        (.combine (.await 0 .ret) (.give .null rfl))
        ⟨⟨[], []⟩, []⟩ (.malformed .null) [] R := by
      cases hMember
      exact .rest (n := 2) (v := .int 5) rfl (.give rfl)
    cases hMember
    exact ⟨rfl, _, _, hRest.body, .nil⟩
  have hForetold : N.Foretold φ S.session
      (fun _ => .error stop) (fun _ => R) := by
    refine ⟨fun t m hMember => ?_, fun t m hMember => ?_⟩
    · match t with
      | 1 =>
          rcases hRaises m hMember with ⟨_, _, _, h, hRuns⟩
          rcases h.direct_eq hRuns with ⟨n, hRead⟩
          exact ⟨n, _, hRead, rfl⟩
    · match t with
      | 1 => rfl
  have hReady : N.Ready [] [.start 1, .settle 0 five] :=
    ⟨by decide, ⟨_, rfl, by decide⟩, by decide, rfl, trivial⟩
  have hSources : N.Sources φ [.start 1, .settle 0 five] := by
    refine ⟨fun x outcome hx => ?_, fun x hx hNone => ?_⟩
    · have hSame : x = 0 ∧ outcome = five := by
        simpa using hx
      rcases hSame with ⟨rfl, rfl⟩
      rfl
    · match x with
      | 0 => exact (hNone five (by simp)).elim
      | 1 => cases hx
  rcases malformed_steps_reported (ofRoutines_opens (endingInNull 0))
      (ofRoutines_separate _) hForetold hReady hSources
      (hRaises _ rfl) rfl (by simp) with
    ⟨S', f, l, e, hPlays, hPlace, hReports, hSettled, hMemory⟩
  exact ⟨S', f, l, e, hPlays, hPlace, hReports, hSettled,
    congrArg Memory.log hMemory⟩

end Network

/- A sequence that begins with nothing, in a protected body. -/
def Routine.sequencingNull : Routine (Fin 1) :=
  .tryWith (.combine (.give .null rfl) (.ret (.int 1)))
    fun _ => .act (.log (.text "handled")) fun _ =>
      .ret (.int 2)

/- A sequence has its first step handled as an ordinary error. -/
theorem Session.handled_sequencing_null :
    (Session.after (Routine.sequencingNull.task (fun _ => 0)
      true .undefined .undefined .undefined)).outcome? 0 matches
        some (.fulfilled (.int 2)) := by
  decide +kernel

end Resumption

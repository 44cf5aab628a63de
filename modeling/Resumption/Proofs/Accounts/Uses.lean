import Resumption.Proofs.Accounts.Balances
import Resumption.Proofs.Accounts.Labels
import Resumption.Proofs.Accounts.Performances

/-
  How often a task makes use of the awaitables that it binds,
  however its constructs are nested.

  Main declarations:
    * `Routine.uses_each_source_once_a_bind`
-/

namespace Resumption

open Run

/-
  A bind of an awaitable that completes on demand costs one
  awaiter, which is asked once; one registration if it was
  pending, and one read if it was not, or once the task has
  resumed.  A task uses its awaitables for its binds, and for
  nothing else, in whatever order they complete; and they are
  registered with as often as it was told that the task
  suspends on them.
-/
theorem Routine.uses_each_source_once_a_bind
    {ν : Type}
    (S : Supply ν) :
    (∀ x a c f (next : Value → Account ν) V later R,
      S.origin x = .controlled a c f →
      (∀ o, V.status x = some o →
        (S.binds x next V later R ↔
          ∃ R', Account.proceeding next o V later R' ∧
            R = R'.after ⟨0, [x], [], [x]⟩)) ∧
      (V.status x = none →
        (S.binds x next V [] R ↔
          R = ⟨.paused x, V, [], ⟨1, [x], [x], []⟩⟩) ∧
        ∀ w, S.binds x next V (w :: later) R ↔
          ∃ R', Account.proceeding next w.outcome w.view later
              R' ∧
            R = R'.after ⟨1, [x], [x], [x]⟩)) ∧
    ∀ (routine : Routine ν) start s₀ past told s,
      routine.Apt S → S.OnDemand → S.Alone s₀ none →
      S.Starts routine s₀ start →
      S.Performs start s₀ past told s →
      ∃ R, (∀ R', routine.account S (S.view s₀) past R' ↔
          R' = R) ∧
        R.left = [] ∧ R.Balanced ∧
        s.suspensions s₀.tasks.size = R.charge.waits.length ∧
        s.resumptions s₀.tasks.size = past.length ∧
        s.controlled.size = s₀.controlled.size ∧
        (∀ c < s₀.controlled.size,
          let cell := s₀.controlled.getD c default
          s.controlled.getD c default =
            { cell with
              awaiters :=
                cell.awaiters + S.tally R.charge.binds c
              completedChecks :=
                cell.completedChecks + S.tally R.charge.binds c
              resultReads :=
                cell.resultReads + S.tally R.charge.reads c
              registrations :=
                cell.registrations +
                  S.tally R.charge.waits c }) ∧
        ∀ x a c f, S.origin x = .controlled a c f →
          told f = S.tally R.charge.waits c := by
  refine ⟨?_, ?_⟩
  · intro x a c f next V later R hOrigin
    have hBinds : S.binds x next =
        .binds x (.proceeding next) := by
      simp only [Supply.binds, hOrigin, Origin.custom?]
    rw [hBinds]
    exact ⟨fun o => Account.binds_settled,
      fun hNone => ⟨Account.binds_pending hNone,
        fun w => Account.binds_woken hNone⟩⟩
  · intro routine start s₀ past told s hApt hDemand hAlone
      hStarts hPerforms
    have hBalanced := routine.account_balanced S
      (fun x => by
        rcases hDemand.controlled x with ⟨a, c, f, hOrigin⟩
        rw [hOrigin]
        rfl) hApt
      (fun x g hFuture => by
        rcases hDemand.controlled x with ⟨a, c, f, hOrigin⟩
        cases hOrigin.symm.trans hFuture)
    rcases hPerforms.seated hStarts hApt hDemand hAlone 0 with
      ⟨c, hSeated, hTold⟩
    rcases hSeated.tells with ⟨ending, V', hTells, hShows⟩
    refine ⟨⟨ending, V', [], c⟩, fun R' => ⟨fun hR' => ?_, ?_⟩,
      rfl, hBalanced _ _ _ hTells, hShows.suspended,
      hShows.resumed, hShows.size, hShows.row, hTold⟩
    · exact routine.account_single S _ _ _ _ hR' hTells
    · rintro rfl
      exact hTells

------------------------------------------------------------
-- Two Awaitables
------------------------------------------------------------

/- A cleanup around a bind that may fail, and two more. -/
def Routine.threeBinds : Routine Bool :=
  .tryFinally
    (.combine
      (.tryWith (.await true .ret) fun _ => .ret .undefined)
      (.await false fun _ => .await true .ret))
    (.done .undefined)

/- Two awaitables that complete on demand. -/
def Supply.twoOnDemand : Supply Bool where
  origin
    | true => .controlled 0 0 0
    | false => .controlled 1 1 1
  detached _ := false
  releases _ := none
  machine := 0
  builder := some 0

def Session.beforeThreeBinds : Session :=
  .after (.perform .controlled fun _ => .request .controlled)

/- A task with a builder of its own that nobody listens to, -/
def Request.threeBinds : Request Program :=
  .task true .undefined
    (Code.ofValue fun b =>
      Routine.threeBinds.written (Supply.twoOnDemand.on b))
    ⟨.undefined, .undefined, none⟩

/- how it is started, -/
def Run.startOfThreeBinds : Except Value Value × Session :=
  (Request.threeBinds.perform (.ofDepth 8 40)).ended
    .beforeThreeBinds

/- how the one awaitable fails, -/
def Run.firstOfThreeBinds : Except Value Value × Session :=
  ((Request.settleControlled (.controlled 0)
    (.rejected (.str "late"))).perform (.ofDepth 8 40)).ended
      startOfThreeBinds.2

/- and how the other completes. -/
def Run.lastOfThreeBinds : Except Value Value × Session :=
  ((Request.settleControlled (.controlled 1)
    (.fulfilled (.int 5))).perform (.ofDepth 8 40)).ended
      firstOfThreeBinds.2

/- The task is ready to start, and nobody waits. -/
theorem Supply.twoOnDemand_demand :
    Supply.twoOnDemand.OnDemand where
  controlled
    | true => ⟨0, 0, 0, rfl⟩
    | false => ⟨1, 1, 1, rfl⟩
  own
    | true, true, _ => rfl
    | false, false, _ => rfl

theorem Supply.twoOnDemand_ready :
    Supply.twoOnDemand.Ready
      (Session.beforeThreeBinds.machined true .undefined) where
  machine := by decide +kernel
  builder
    | 0, _ => ⟨.bool true, by rfl⟩
  resource _ _ h := by cases h
  behind
    | true, f, h => by
        cases h
        decide +kernel
    | false, f, h => by
        cases h
        decide +kernel
  configured
    | true, _, _, _, h => by cases h
    | false, _, _, _, h => by cases h
  controlled
    | true, _, _, _, h => by
        cases h
        exact ⟨rfl, by decide +kernel, by decide +kernel⟩
    | false, _, _, _, h => by
        cases h
        exact ⟨rfl, by decide +kernel, by decide +kernel⟩
  custom
    | true, _, _, _, _, h => by cases h
    | false, _, _, _, _, h => by cases h

/-
  The awaitable that is bound twice was registered with once,
  and read twice; the other was used once.
-/
theorem Routine.uses_each_source_once_a_bind_twice_bound :
    (∃ R, Supply.twoOnDemand.binds true
        (fun v => .ends (.finished v)) ⟨[], fun _ => none⟩ [] R ∧
      R.charge.waits = [true]) ∧
    ∃ past told R,
      Supply.twoOnDemand.Performs Request.threeBinds
        .beforeThreeBinds past told lastOfThreeBinds.2 ∧
      Routine.threeBinds.account .twoOnDemand
        (Supply.twoOnDemand.view .beforeThreeBinds) past R ∧
      Supply.twoOnDemand.tally R.charge.binds 0 = 2 ∧
      Supply.twoOnDemand.tally R.charge.reads 0 = 2 ∧
      told 0 = 1 ∧ told 1 = 1 ∧
      R.charge.waits.length = 2 := by
  have hAll := uses_each_source_once_a_bind Supply.twoOnDemand
  refine ⟨?_, ?_⟩
  · exact ⟨_, ((hAll.1 true 0 0 0 _ ⟨[], fun _ => none⟩ [] _
      rfl).2 rfl).1.mpr rfl, rfl⟩
  · have hStart : Request.threeBinds.perform (.ofDepth 8 40)
        .beforeThreeBinds =
          some (startOfThreeBinds.1, startOfThreeBinds.2) :=
      eq_ended (by decide +kernel)
    have hFirst : (Request.settleControlled (.controlled 0)
        (.rejected (.str "late"))).perform (.ofDepth 8 40)
          startOfThreeBinds.2 =
            some (firstOfThreeBinds.1, firstOfThreeBinds.2) :=
      eq_ended (by decide +kernel)
    have hLast : (Request.settleControlled (.controlled 1)
        (.fulfilled (.int 5))).perform (.ofDepth 8 40)
          firstOfThreeBinds.2 =
            some (lastOfThreeBinds.1, lastOfThreeBinds.2) :=
      eq_ended (by decide +kernel)
    have hStarts : Supply.twoOnDemand.Starts Routine.threeBinds
        .beforeThreeBinds Request.threeBinds :=
      .task (fun _ h => by cases h) (by decide +kernel)
        Supply.twoOnDemand_ready
    have hAlone : Supply.twoOnDemand.Alone .beforeThreeBinds
        none := by
      intro x f h _
      cases x <;> cases h <;> rfl
    have hApt : Routine.threeBinds.Apt Supply.twoOnDemand :=
      ⟨⟨fun _ => trivial, fun _ => trivial⟩,
        fun _ _ => trivial⟩
    have hPerforms := ((Supply.Performs.starts
      (S := .twoOnDemand) hStart).completes (x := true) rfl
        hFirst).completes (x := false) rfl hLast
    rcases hAll.2 _ _ _ _ _ _ hApt Supply.twoOnDemand_demand
      hAlone hStarts hPerforms with
      ⟨R, hR, -, -, hTold, -, -, hRows, hOn⟩
    have hZero := hRows 0 (by decide +kernel)
    have hOne := hRows 1 (by decide +kernel)
    have hBefore : ∀ c < 2,
        let cell := Session.beforeThreeBinds.controlled.getD c
          default
        cell.awaiters = 0 ∧ cell.resultReads = 0 ∧
          cell.registrations = 0 := by
      decide +kernel
    have hZeroBefore := hBefore 0 (by decide)
    have hOneBefore := hBefore 1 (by decide)
    have hZeroAfter :
        let cell := lastOfThreeBinds.2.controlled.getD 0 default
        cell.awaiters = 2 ∧ cell.resultReads = 2 ∧
          cell.registrations = 1 := by
      decide +kernel
    have hOneAfter : (lastOfThreeBinds.2.controlled.getD 1
        default).registrations = 1 := by
      decide +kernel
    simp only [hZero, hZeroBefore, Nat.zero_add] at hZeroAfter
    simp only [hOne, hOneBefore, Nat.zero_add] at hOneAfter
    refine ⟨_, _, R, hPerforms, (hR R).mpr rfl, hZeroAfter.1,
      hZeroAfter.2.1, ?_, ?_, ?_⟩
    · rw [hOn true 0 0 0 rfl]
      exact hZeroAfter.2.2
    · rw [hOn false 1 1 1 rfl]
      exact hOneAfter
    · rw [← hTold]
      decide +kernel

end Resumption

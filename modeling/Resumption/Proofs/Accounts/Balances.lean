import Resumption.Proofs.Accounts

/-
  Balances: what an account charges for where all sources are
  the library's own, and no future is handed off to.

  Whatever was bound has been read once, but for what is still
  waited for.  Whatever was waited for had been bound.  No
  construct adds to what its parts bind, wait for and read.

  Main declarations:
    * `Report.Balanced`
    * `Account.Balanced`, `Account.Carries`
    * `Routine.account_balanced`
-/

namespace Resumption

variable {ν : Type}

------------------------------------------------------------
-- Balanced Reports
------------------------------------------------------------

/- What a routine waits for. -/
def Ending.awaited : Ending ν → List ν
  | .paused x => [x]
  | _ => []

/-
  What was bound was read, in order, but for what is waited
  for.  What was waited for was bound, in order.
-/
structure Report.Balanced (R : Report ν) : Prop where
  reads : R.charge.binds = R.charge.reads ++ R.ending.awaited
  waits : R.charge.waits.Sublist R.charge.binds
  stays : ∀ x, R.ending ≠ .handed x

/- Labels alone are charged for. -/
structure Charge.Slight (c : Charge ν) : Prop where
  binds : c.binds = []
  waits : c.waits = []
  reads : c.reads = []

namespace Report.Balanced

variable {R : Report ν}
variable {c : Charge ν}

/- More labels change nothing. -/
theorem slight
    (h : R.Balanced)
    (hSlight : c.Slight) :
    (R.after c).Balanced where
  reads := by
    simp only [Report.after, Charge.plus, hSlight.binds,
      hSlight.reads, List.nil_append]
    exact h.reads
  waits := by
    simp only [Report.after, Charge.plus, hSlight.binds,
      hSlight.waits, List.nil_append]
    exact h.waits
  stays := h.stays

/- A part that waits for nothing is balanced in itself. -/
theorem after
    {R₁ : Report ν}
    (h : R.Balanced)
    (h₁ : R₁.Balanced)
    (hStill : R₁.ending.awaited = []) :
    (R.after R₁.charge).Balanced where
  reads := by
    have hReads := h₁.reads
    rw [hStill, List.append_nil] at hReads
    simp only [Report.after, Charge.plus, hReads, h.reads,
      List.append_assoc]
  waits := h₁.waits.append h.waits
  stays := h.stays

/- Where a part waits, it waits all the same. -/
theorem paused
    {R₁ : Report ν}
    (h₁ : R₁.Balanced)
    (hSame : R.ending = R₁.ending)
    (hSlight : R.charge.Slight) :
    (R.after R₁.charge).Balanced where
  reads := by
    simp only [Report.after, Charge.plus, hSlight.binds,
      hSlight.reads, List.append_nil, hSame]
    exact h₁.reads
  waits := by
    simp only [Report.after, Charge.plus, hSlight.binds,
      hSlight.waits, List.append_nil]
    exact h₁.waits
  stays x := by
    rw [Report.after, hSame]
    exact h₁.stays x

end Report.Balanced

theorem Charge.slight_none : (none : Charge ν).Slight :=
  ⟨rfl, rfl, rfl⟩

theorem Charge.slight_ofLabels (n : Nat) :
    (ofLabels n : Charge ν).Slight :=
  ⟨rfl, rfl, rfl⟩

------------------------------------------------------------
-- Balanced Accounts
------------------------------------------------------------

namespace Account

variable {A B : Account ν}
variable {x : ν}
variable {ending : Ending ν}

/- Whatever an account tells is balanced. -/
def Balanced (A : Account ν) : Prop :=
  ∀ V later R, A V later R → R.Balanced

/-
  What an account tells of what comes after a first part: if
  that paused, so does it all, and else it is balanced.
-/
def Carries
    (A : Account ν) : Ending ν → Prop
  | .paused x => ∀ V later R, A V later R →
      R.ending = .paused x ∧ R.charge.Slight
  | .handed _ => True
  | _ => A.Balanced

theorem balanced_finished (v : Value) :
    (ends (.finished v) : Account ν).Balanced := by
  rintro V later _ rfl
  exact ⟨rfl, .refl [], fun x h => by cases h⟩

theorem balanced_threw (e : Value) :
    (ends (.threw e) : Account ν).Balanced := by
  rintro V later _ rfl
  exact ⟨rfl, .refl [], fun x h => by cases h⟩

theorem Balanced.costing
    (h : A.Balanced)
    (n : Nat) :
    (A.costing (.ofLabels n)).Balanced := by
  rintro V later _ ⟨R, hR, rfl⟩
  exact (h V later R hR).slight (Charge.slight_ofLabels n)

/- What carries on from a balanced part is balanced with it. -/
theorem Balanced.andThen
    {next : Report ν → Account ν}
    (h : A.Balanced)
    (hNext : ∀ R, (next R).Carries R.ending) :
    (A.andThen next).Balanced := by
  rintro V later _ ⟨R₁, hFirst, R, hR, rfl⟩
  have h₁ := h V later R₁ hFirst
  have hCarries := hNext R₁
  cases hEnding : R₁.ending with
  | finished v =>
      rw [hEnding] at hCarries
      exact (hCarries _ _ R hR).after h₁ (by rw [hEnding]; rfl)
  | handed x => exact (h₁.stays x hEnding).elim
  | threw e =>
      rw [hEnding] at hCarries
      exact (hCarries _ _ R hR).after h₁ (by rw [hEnding]; rfl)
  | paused x =>
      rw [hEnding] at hCarries
      rcases hCarries _ _ R hR with ⟨hSame, hSlight⟩
      exact h₁.paused (hSame.trans hEnding.symm) hSlight

theorem balanced_effect
    {effect : Effect}
    {next : Except Value Value → Account ν}
    (hNext : ∀ r, (next r).Balanced) :
    (Account.effect effect next).Balanced :=
  fun _ later R hR => hNext _ _ later R hR

/- A bind of what has an outcome: it is read at once. -/
theorem binds_settled
    {next : Outcome → Account ν}
    {V : View ν}
    {later : List (Waking ν)}
    {R : Report ν}
    {o : Outcome}
    (hStatus : V.status x = some o) :
    binds x next V later R ↔
      ∃ R', next o V later R' ∧ R = R'.after ⟨0, [x], [], [x]⟩ := by
  constructor
  · rintro ⟨R₁, hAwaits, rfl⟩
    unfold awaits at hAwaits
    rw [hStatus] at hAwaits
    rcases hAwaits with ⟨R', hNext, rfl⟩
    exact ⟨R', hNext, Report.after_after ..⟩
  · rintro ⟨R', hNext, rfl⟩
    refine ⟨R'.after (.reading [x]), ?_, ?_⟩
    · unfold awaits
      rw [hStatus]
      exact ⟨R', hNext, rfl⟩
    · rw [Report.after_after]
      rfl

/- A bind of what is pending waits for it, -/
theorem binds_pending
    {next : Outcome → Account ν}
    {V : View ν}
    {R : Report ν}
    (hStatus : V.status x = none) :
    binds x next V [] R ↔
      R = ⟨.paused x, V, [], ⟨1, [x], [x], []⟩⟩ := by
  constructor
  · rintro ⟨R₁, hAwaits, rfl⟩
    unfold awaits at hAwaits
    rw [hStatus] at hAwaits
    cases hAwaits
    rfl
  · rintro rfl
    refine ⟨⟨.paused x, V, [], .pausing x⟩, ?_, rfl⟩
    unfold awaits
    rw [hStatus]
    rfl

/- and reads it when it is woken. -/
theorem binds_woken
    {next : Outcome → Account ν}
    {V : View ν}
    {w : Waking ν}
    {later : List (Waking ν)}
    {R : Report ν}
    (hStatus : V.status x = none) :
    binds x next V (w :: later) R ↔
      ∃ R', next w.outcome w.view later R' ∧
        R = R'.after ⟨1, [x], [x], [x]⟩ := by
  constructor
  · rintro ⟨R₁, hAwaits, rfl⟩
    unfold awaits at hAwaits
    rw [hStatus] at hAwaits
    rcases hAwaits with ⟨R₂, ⟨R', hNext, rfl⟩, rfl⟩
    refine ⟨R', hNext, ?_⟩
    rw [Report.after_after, Report.after_after]
    rfl
  · rintro ⟨R', hNext, rfl⟩
    refine ⟨(R'.after (.reading [x])).after (.pausing x),
      ?_, ?_⟩
    · unfold awaits
      rw [hStatus]
      exact ⟨R'.after (.reading [x]), ⟨R', hNext, rfl⟩, rfl⟩
    · rw [Report.after_after, Report.after_after]
      rfl

/- A source that is bound is read once there is an outcome. -/
theorem balanced_binds
    {next : Outcome → Account ν}
    (hNext : ∀ o, (next o).Balanced) :
    (binds x next).Balanced := by
  have hRead : ∀ {R : Report ν} {n waits}, R.Balanced →
      waits.Sublist [x] →
        (R.after ⟨n, [x], waits, [x]⟩).Balanced :=
    fun hR hWaits =>
      { reads := by
          simp only [Report.after, Charge.plus, hR.reads,
            List.append_assoc]
        waits := hWaits.append hR.waits
        stays := hR.stays }
  intro V later R hBinds
  cases hStatus : V.status x with
  | some o =>
      rcases (binds_settled hStatus).mp hBinds with
        ⟨R', hR', rfl⟩
      exact hRead (hNext o V later R' hR') (List.nil_sublist _)
  | none =>
      cases later with
      | nil =>
          rw [(binds_pending hStatus).mp hBinds]
          exact ⟨rfl, .refl [x], fun y h => by cases h⟩
      | cons w later =>
          rcases (binds_woken hStatus).mp hBinds with
            ⟨R', hR', rfl⟩
          exact hRead (hNext _ _ later R' hR') (.refl [x])

theorem balanced_proceeding
    {next : Value → Account ν}
    (hNext : ∀ v, (next v).Balanced)
    (o : Outcome) :
    (proceeding next o).Balanced := by
  cases o with
  | fulfilled v => exact hNext v
  | rejected e => exact balanced_threw e

------------------------------------------------------------
-- Constructs
------------------------------------------------------------

/- To end as a part ended carries on from it. -/
theorem carries_ends (ending : Ending ν) :
    (ends ending).Carries ending := by
  cases ending with
  | finished v => exact balanced_finished v
  | handed x => trivial
  | threw e => exact balanced_threw e
  | paused x =>
      rintro V later _ rfl
      exact ⟨rfl, Charge.slight_none⟩

theorem Carries.costing
    (h : A.Carries ending)
    (n : Nat) :
    (A.costing (.ofLabels n)).Carries ending := by
  cases ending with
  | finished v => exact Balanced.costing h n
  | handed x => trivial
  | threw e => exact Balanced.costing h n
  | paused x =>
      rintro V later _ ⟨R, hR, rfl⟩
      rcases h V later R hR with ⟨hSame, hSlight⟩
      exact ⟨hSame, hSlight.binds, hSlight.waits, hSlight.reads⟩

theorem carries_sequel
    (h : A.Balanced)
    (ending : Ending ν) :
    (sequel A ending).Carries ending := by
  cases ending with
  | finished v => exact h
  | handed x => trivial
  | threw e => exact balanced_threw e
  | paused x => exact carries_ends (.paused x)

theorem carries_linked
    (h : A.Balanced)
    (R : Report ν) :
    (linked A R).Carries R.ending := by
  unfold linked
  split
  · exact carries_ends R.ending
  · exact (carries_sequel h R.ending).costing _

theorem carries_round
    (h : A.Balanced)
    (R : Report ν) :
    (round A R).Carries R.ending := by
  unfold round
  split
  · next hFlat =>
      rcases hFlat.2 with ⟨v, hEnding⟩
      rw [hEnding]
      exact h
  · exact carries_linked h R

theorem balanced_each
    {body : Value → Account ν}
    (h : ∀ v, (body v).Balanced)
    (items : List Value) :
    (each body items).Balanced := by
  induction items with
  | nil => exact balanced_finished _
  | cons v items ih => exact (h v).andThen (carries_round ih)

theorem balanced_turned
    (hRest : B.Balanced)
    (h : A.Balanced)
    (r : Except Value Value) :
    (turned B A r).Balanced := by
  cases r with
  | ok v =>
      by_cases hTruthy : v.truthy = true
      · simp only [turned, if_pos hTruthy]
        exact h.andThen (carries_round hRest)
      · simp only [turned, if_neg hTruthy]
        exact balanced_finished _
  | error e => exact balanced_threw e

/- However many rounds there are, the loop is balanced. -/
theorem balanced_loop
    {condition : Effect}
    (h : A.Balanced) :
    (loop condition A).Balanced := by
  have hLooping : ∀ n, (looping condition A n).Balanced := by
    intro n
    induction n with
    | zero => exact fun _ _ _ hNever => hNever.elim
    | succ n ih => exact balanced_effect (balanced_turned ih h)
  rintro V later R ⟨n, hR⟩
  exact hLooping n V later R hR

theorem balanced_caught
    {handler : Value → Account ν}
    (h : ∀ e, (handler e).Balanced)
    (e : Value) :
    (caught handler e).Balanced := by
  unfold caught
  split
  · exact balanced_threw e
  · exact h e

theorem carries_recovered
    {handler : Value → Account ν}
    (h : ∀ e, (handler e).Balanced)
    (ending : Ending ν) :
    (recovered handler ending).Carries ending := by
  cases ending with
  | finished v => exact balanced_finished v
  | handed x => trivial
  | threw e => exact balanced_caught h e
  | paused x => exact carries_ends (.paused x)

theorem balanced_settling
    (h : (ends ending : Account ν).Balanced)
    (effect : Effect) :
    (settling effect ending).Balanced := by
  refine balanced_effect fun r => ?_
  cases r with
  | ok _ => exact h
  | error e => exact balanced_threw e

theorem carries_compensated
    (effect : Effect)
    (ending : Ending ν) :
    (compensated effect ending).Carries ending := by
  cases ending with
  | finished v =>
      exact balanced_settling (balanced_finished v) effect
  | handed x => trivial
  | threw e => exact balanced_settling (balanced_threw e) effect
  | paused x => exact carries_ends (.paused x)

theorem Balanced.protecting
    (h : A.Balanced)
    (effect : Effect) :
    (A.protecting effect).Balanced :=
  h.andThen fun R => carries_compensated effect R.ending

end Account

------------------------------------------------------------
-- Routines
------------------------------------------------------------

/-
  Where no source is client code and no name stands for a
  future to hand off to, a routine's account is balanced.  The
  induction is on the routine.
-/
theorem Routine.account_balanced
    (S : Supply ν)
    (routine : Routine ν)
    (hOwn : ∀ x, (S.origin x).custom? = none)
    (hApt : routine.Apt S)
    (hNever : ∀ x f, S.origin x ≠ .future f) :
    (routine.account S).Balanced := by
  induction routine with
  | ret v => exact Account.balanced_finished v
  | fail e => exact Account.balanced_threw e
  | breach offence => exact hApt.elim
  | give v h => exact hApt.elim
  | act deed k ih =>
      exact fun V later R hR => ih _ (hApt _) _ later R hR
  | await x rest ih =>
      have hBinds : (Routine.await x rest).account S =
          .binds x (.proceeding fun v => (rest v).account S) := by
        simp only [Routine.account, Supply.binds, hOwn x]
      rw [hBinds]
      exact Account.balanced_binds
        (Account.balanced_proceeding fun v => ih v (hApt v))
  | handOff x =>
      rcases hApt with ⟨f, hOrigin⟩
      exact (hNever x f hOrigin).elim
  | combine first rest ihFirst ihRest =>
      exact (ihFirst hApt.1).andThen
        (Account.carries_linked (ihRest hApt.2))
  | whileLoop condition body ih =>
      exact (Account.balanced_loop (ih hApt)).costing 1
  | forLoop items body ih =>
      exact (Account.balanced_each (fun v => ih v (hApt v))
        items).costing 3
  | tryWith body handler ihBody ihHandler =>
      exact ((ihBody hApt.1).andThen fun R =>
        Account.carries_recovered
          (fun e => ihHandler e (hApt.2 e)) R.ending).costing 2
  | tryFinally body compensation ih =>
      exact ((ih hApt).protecting compensation).costing 2
  | «using» resource body ih =>
      rintro V later R ⟨effect, _, hR⟩
      exact ((ih resource hApt.2).protecting effect).costing 2
        V later R hR

end Resumption

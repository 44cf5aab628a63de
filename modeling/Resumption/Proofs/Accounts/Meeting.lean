import Resumption.Proofs.Accounts.Iterations

/-
  A routine's code meets its account, and no two accounts of
  the same course differ.

  Main declarations:
    * `Supply.meets_written`
    * `Account.Single`
    * `Routine.account_single`
-/

namespace Resumption

open Run

variable {ν : Type}

------------------------------------------------------------
-- Code and Account
------------------------------------------------------------

namespace Supply

variable {S : Supply ν}

/- To hand off to a future is to end there. -/
theorem meets_handOff
    {x : ν}
    {f : Ref}
    (hOrigin : S.origin x = .future f) :
    S.Meets (.request (S.handing x)) (.ends (.handed x)) := by
  refine meets_request fun k rounds depth s hs => ?_
  have hStep : S.Realizes k .none
      (Run.newStep (.handOff (.future f))) s
      (.ends (.handed x)) :=
    realizes_ending rfl (idles_stamped s)
      (.handsOff (Value.step?_record_fields _ _) hOrigin)
  unfold handing
  rw [hOrigin]
  cases S.builder <;> exact hStep

/-
  Whatever the code of a routine does costs what its account
  says.  The induction is on the routine.
-/
theorem meets_written
    (routine : Routine ν)
    (hApt : routine.Apt S) :
    S.Meets (routine.written S) (routine.account S) := by
  induction routine with
  | ret v =>
      exact meets_request fun _ _ _ _ _ => realizes_finish v
  | fail e => exact fun _ _ _ _ _ => realizes_raise e
  | breach offence => exact hApt.elim
  | give v h => exact hApt.elim
  | act deed k ih => exact meets_act fun v => ih v (hApt v)
  | await x rest ih => exact meets_await fun v => ih v (hApt v)
  | handOff x =>
      rcases hApt with ⟨f, hOrigin⟩
      exact meets_handOff hOrigin
  | combine first rest ihFirst ihRest =>
      exact meets_combine (ihFirst hApt.1) (ihRest hApt.2)
  | whileLoop condition body ih => exact meets_while (ih hApt)
  | forLoop items body ih =>
      exact meets_forLoop fun v => ih v (hApt v)
  | tryWith body handler ihBody ihHandler =>
      exact meets_tryWith (ihBody hApt.1)
        fun e => ihHandler e (hApt.2 e)
  | tryFinally body compensation ih =>
      exact meets_tryFinally (ih hApt)
  | «using» resource body ih =>
      rcases hApt with ⟨hSome, hBody⟩
      rcases Option.isSome_iff_exists.mp hSome with
        ⟨effect, hRelease⟩
      have hMeets : S.Meets
          (.request (.using S.hub resource
            (Code.ofValue fun v => (body v).written S))) _ :=
        meets_using hRelease (ih resource hBody)
      intro k rounds depth s hs
      exact (hMeets k rounds depth s hs).tell fun later R hAll =>
        ⟨effect, hRelease, hAll⟩

end Supply

------------------------------------------------------------
-- Single Accounts
------------------------------------------------------------

namespace Account

variable {A B : Account ν}
variable {x : ν}
variable {c : Charge ν}

/- A course has no more than one account. -/
def Single (A : Account ν) : Prop :=
  ∀ V later R R', A V later R → A V later R' → R = R'

theorem single_ends (ending : Ending ν) :
    (ends ending).Single := by
  rintro V later _ _ rfl rfl
  rfl

theorem Single.costing
    (h : A.Single)
    (c : Charge ν) :
    (A.costing c).Single := by
  rintro _ _ _ _ ⟨R, hR, rfl⟩ ⟨R', hR', rfl⟩
  rw [h _ _ R R' hR hR']

theorem Single.andThen
    {next : Report ν → Account ν}
    (h : A.Single)
    (hNext : ∀ R, (next R).Single) :
    (A.andThen next).Single := by
  rintro _ _ R R' ⟨R₁, hR₁, hAll⟩ ⟨R₂, hR₂, hAll'⟩
  cases h _ _ R₁ R₂ hR₁ hR₂
  exact (hNext R₁).costing R₁.charge _ _ R R' hAll hAll'

theorem single_effect
    {effect : Effect}
    {next : Except Value Value → Account ν}
    (hNext : ∀ r, (next r).Single) :
    (Account.effect effect next).Single :=
  fun _ later R R' h h' => hNext _ _ later R R' h h'

theorem single_pauses
    {next : Outcome → Account ν}
    (hNext : ∀ o, (next o).Single) :
    (pauses x next).Single := by
  intro V later R R' h h'
  cases later with
  | nil => exact Eq.trans h (Eq.symm h')
  | cons w later =>
      exact (hNext w.outcome).costing _ _ later R R' h h'

theorem single_awaits
    {next : Outcome → Account ν}
    (hNext : ∀ o, (next o).Single) :
    (awaits x next).Single := by
  intro V later R R' h h'
  unfold awaits at h h'
  cases hStatus : V.status x with
  | some o =>
      rw [hStatus] at h h'
      exact hNext o V later R R' h h'
  | none =>
      rw [hStatus] at h h'
      exact single_pauses hNext V later R R' h h'

theorem single_proceeding
    {next : Value → Account ν}
    (hNext : ∀ v, (next v).Single)
    (o : Outcome) :
    (proceeding next o).Single := by
  cases o with
  | fulfilled v => exact hNext v
  | rejected e => exact single_ends _

theorem single_binds
    {next : Outcome → Account ν}
    (hNext : ∀ o, (next o).Single) :
    (binds x next).Single :=
  (single_awaits fun o => (hNext o).costing _).costing _

theorem single_returning
    {next : Value → Account ν}
    (hNext : ∀ v, (next v).Single)
    (r : Except Value Value) :
    (returning next r).Single := by
  cases r with
  | ok v => exact hNext v
  | error e => exact single_ends _

theorem single_asks
    {next : Value → Account ν}
    (completed result : Effect)
    (hNext : ∀ v, (next v).Single) :
    (asks x completed result next).Single := by
  have hReports : (reports x result next).Single :=
    (single_effect (single_returning hNext)).costing _
  refine (single_effect (single_returning fun v => ?_)).costing _
  unfold told
  split
  · exact hReports
  · exact single_pauses fun _ => hReports

theorem single_supply_binds
    {next : Value → Account ν}
    (S : Supply ν)
    (hNext : ∀ v, (next v).Single) :
    (S.binds x next).Single := by
  unfold Supply.binds
  split
  · exact single_asks _ _ hNext
  · exact single_binds (single_proceeding hNext)

------------------------------------------------------------
-- Constructs
------------------------------------------------------------

theorem single_sequel
    (h : A.Single)
    (ending : Ending ν) :
    (sequel A ending).Single := by
  cases ending with
  | finished v => exact h
  | handed x =>
      exact single_awaits (single_proceeding fun _ => h)
  | threw e => exact single_ends _
  | paused x => exact single_ends _

theorem single_linked
    (h : A.Single)
    (R : Report ν) :
    (linked A R).Single := by
  unfold linked
  split
  · exact single_ends _
  · exact (single_sequel h _).costing _

theorem single_round
    (h : A.Single)
    (R : Report ν) :
    (round A R).Single := by
  unfold round
  split
  · exact h
  · exact single_linked h R

theorem single_each
    {body : Value → Account ν}
    (h : ∀ v, (body v).Single)
    (items : List Value) :
    (each body items).Single := by
  induction items with
  | nil => exact single_ends _
  | cons v items ih => exact (h v).andThen (single_round ih)

theorem single_turned
    (hRest : B.Single)
    (h : A.Single)
    (r : Except Value Value) :
    (turned B A r).Single := by
  cases r with
  | ok v =>
      by_cases hTruthy : v.truthy = true
      · simp only [turned, if_pos hTruthy]
        exact h.andThen (single_round hRest)
      · simp only [turned, if_neg hTruthy]
        exact single_ends _
  | error e => exact single_ends _

theorem single_looping
    {condition : Effect}
    (h : A.Single)
    (n : Nat) :
    (looping condition A n).Single := by
  induction n with
  | zero => exact fun _ _ _ _ hNever => hNever.elim
  | succ n ih => exact single_effect (single_turned ih h)

/- What a rest tells besides, a condition leads to as well. -/
theorem turned_mono
    {r : Except Value Value}
    {V : View ν}
    {later : List (Waking ν)}
    {R : Report ν}
    {B' : Account ν}
    (hRest : ∀ V later R, B V later R → B' V later R)
    (h : turned B A r V later R) :
    turned B' A r V later R := by
  cases r with
  | error e => exact h
  | ok v =>
      by_cases hTruthy : v.truthy = true
      · simp only [turned, if_pos hTruthy] at h ⊢
        rcases h with ⟨R₁, hA, R₂, hRound, hR⟩
        rcases round_choice (C := fun _ : Unit => B')
          (fun V later R hB => ⟨(), hRest V later R hB⟩) hRound
          with ⟨_, hRound'⟩
        exact ⟨R₁, hA, R₂, hRound', hR⟩
      · simp only [turned, if_neg hTruthy] at h ⊢
        exact h

/- What is told with fewer rounds is told with more. -/
theorem looping_succ
    {condition : Effect}
    {V : View ν}
    {later : List (Waking ν)}
    {R : Report ν}
    {n : Nat}
    (h : looping condition A n V later R) :
    looping condition A (n + 1) V later R := by
  induction n generalizing V later R with
  | zero => exact h.elim
  | succ n ih => exact turned_mono (fun _ _ _ => ih) h

theorem looping_of_le
    {condition : Effect}
    {V : View ν}
    {later : List (Waking ν)}
    {R : Report ν}
    {n m : Nat}
    (h : looping condition A n V later R)
    (hLe : n ≤ m) :
    looping condition A m V later R := by
  induction hLe with
  | refl => exact h
  | step _ ih => exact looping_succ ih

/- A loop has one account, however many rounds it takes. -/
theorem single_loop
    {condition : Effect}
    (h : A.Single) :
    (loop condition A).Single := by
  rintro V later R R' ⟨n, hn⟩ ⟨m, hm⟩
  exact single_looping h (max n m) V later R R'
    (looping_of_le hn (Nat.le_max_left n m))
    (looping_of_le hm (Nat.le_max_right n m))

------------------------------------------------------------
-- Recoveries and Cleanups
------------------------------------------------------------

theorem single_caught
    {handler : Value → Account ν}
    (h : ∀ e, (handler e).Single)
    (e : Value) :
    (caught handler e).Single := by
  unfold caught
  split
  · exact single_ends _
  · exact h e

theorem single_recovered
    {handler : Value → Account ν}
    (h : ∀ e, (handler e).Single)
    (ending : Ending ν) :
    (recovered handler ending).Single := by
  cases ending with
  | finished v => exact single_ends _
  | handed x =>
      refine single_awaits fun o => ?_
      cases o with
      | fulfilled v => exact single_ends _
      | rejected e => exact single_caught h e
  | threw e => exact single_caught h e
  | paused x => exact single_ends _

theorem single_settling
    (effect : Effect)
    (ending : Ending ν) :
    (settling effect ending).Single := by
  refine single_effect fun r => ?_
  cases r <;> exact single_ends _

theorem single_compensated
    (effect : Effect)
    (ending : Ending ν) :
    (compensated effect ending).Single := by
  cases ending with
  | finished v => exact single_settling effect _
  | handed x =>
      refine single_awaits fun o => ?_
      cases o <;> exact single_settling effect _
  | threw e => exact single_settling effect _
  | paused x => exact single_ends _

theorem Single.protecting
    (h : A.Single)
    (effect : Effect) :
    (A.protecting effect).Single :=
  h.andThen fun R => single_compensated effect R.ending

end Account

------------------------------------------------------------
-- Routines
------------------------------------------------------------

/- No two accounts of the same course of a routine differ. -/
theorem Routine.account_single
    (S : Supply ν)
    (routine : Routine ν) :
    (routine.account S).Single := by
  induction routine with
  | ret v => exact Account.single_ends _
  | fail e => exact Account.single_ends _
  | breach offence => exact fun _ _ _ _ h => h.elim
  | give v h => exact fun _ _ _ _ h => h.elim
  | act deed k ih =>
      exact fun V later R R' h h' => ih _ _ later R R' h h'
  | await x rest ih =>
      exact Account.single_supply_binds S ih
  | handOff x => exact Account.single_ends _
  | combine first rest ihFirst ihRest =>
      exact ihFirst.andThen (Account.single_linked ihRest)
  | whileLoop condition body ih =>
      exact (Account.single_loop ih).costing _
  | forLoop items body ih =>
      exact (Account.single_each ih items).costing _
  | tryWith body handler ihBody ihHandler =>
      exact (ihBody.andThen fun R =>
        Account.single_recovered ihHandler R.ending).costing _
  | tryFinally body compensation ih =>
      exact (ih.protecting compensation).costing _
  | «using» resource body ih =>
      rintro V later R R' ⟨effect, hEffect, h⟩ ⟨_, hEffect', h'⟩
      cases hEffect.symm.trans hEffect'
      exact ((ih resource).protecting effect).costing _ V later R
        R' h h'

end Resumption

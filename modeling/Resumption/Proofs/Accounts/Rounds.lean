import Resumption.Proofs.Accounts.Meeting

/-
  Loops whose rounds all finish at once.

  Such a loop is charged for what its bodies are charged for,
  and besides for a number of labels that does not depend on
  how many rounds there are.

  Main declarations:
    * `Account.FlatLoop`, `Account.FlatEach`
    * `Account.labels_looping`, `Account.labels_each`
-/

namespace Resumption

namespace Account

variable {ν : Type}

------------------------------------------------------------
-- Flat Loops
------------------------------------------------------------

/-
  A condition and a body go through rounds that all finish at
  once, until the condition does not hold; the bodies' labels
  come to a number.
-/
inductive FlatLoop
    (condition : Effect)
    (body : Account ν) :
    View ν → List (Waking ν) → Nat → Prop where
  | done
      {V later v}
      (hCondition : (condition.upon V.vars).1 = .ok v)
      (hEnds : v.truthy = false) :
      FlatLoop condition body V later 0
  | round
      {V later v R n}
      (hCondition : (condition.upon V.vars).1 = .ok v)
      (hGoes : v.truthy = true)
      (hBody : body
        { V with vars := (condition.upon V.vars).2 } later R)
      (hFlat : R.Flat)
      (hRest : FlatLoop condition body R.view R.left n) :
      FlatLoop condition body V later (R.charge.labels + n)

/- So it is with a round for each item. -/
inductive FlatEach
    (body : Value → Account ν) :
    List Value → View ν → List (Waking ν) → Nat → Prop where
  | nil
      {V later} :
      FlatEach body [] V later 0
  | cons
      {v items V later R n}
      (hBody : body v V later R)
      (hFlat : R.Flat)
      (hRest : FlatEach body items R.view R.left n) :
      FlatEach body (v :: items) V later (R.charge.labels + n)

------------------------------------------------------------
-- Their Labels
------------------------------------------------------------

variable {V : View ν}
variable {later : List (Waking ν)}
variable {R : Report ν}
variable {n : Nat}

/- A flat round is charged for what its body is charged for. -/
theorem labels_round
    {body rest : Account ν}
    {R₁ : Report ν}
    (hSingle : body.Single)
    (hBody : body V later R₁)
    (hFlat : R₁.Flat)
    (h : body.andThen (round rest) V later R) :
    ∃ R', rest R₁.view R₁.left R' ∧
      R.charge.labels = R₁.charge.labels + R'.charge.labels := by
  rcases h with ⟨R₂, hBody', R', hRest, rfl⟩
  cases hSingle _ _ R₁ R₂ hBody hBody'
  rw [round, if_pos hFlat] at hRest
  exact ⟨R', hRest, rfl⟩

/- The induction is on the rounds. -/
theorem labels_looping
    {condition : Effect}
    {body : Account ν}
    (hSingle : body.Single)
    (hFlat : FlatLoop condition body V later n)
    (h : loop condition body V later R) :
    R.charge.labels = n := by
  rcases h with ⟨k, hk⟩
  induction hFlat generalizing k R with
  | done hCondition hEnds =>
      cases k with
      | zero => exact hk.elim
      | succ k =>
          simp only [looping, effect, turned, hCondition, hEnds,
            Bool.false_eq_true, if_false] at hk
          rw [hk]
          rfl
  | round hCondition hGoes hBody hFlat hRest ih =>
      cases k with
      | zero => exact hk.elim
      | succ k =>
          simp only [looping, effect, turned, hCondition, hGoes,
            if_true] at hk
          rcases labels_round hSingle hBody hFlat hk with
            ⟨R', hNext, hLabels⟩
          rw [hLabels, ih k hNext]

/- The induction is on the items. -/
theorem labels_each
    {body : Value → Account ν}
    {items : List Value}
    (hSingle : ∀ v, (body v).Single)
    (hFlat : FlatEach body items V later n)
    (h : each body items V later R) :
    R.charge.labels = n := by
  induction hFlat generalizing R with
  | nil =>
      rw [show R = _ from h]
      rfl
  | cons hBody hFlat hRest ih =>
      rcases labels_round (hSingle _) hBody hFlat h with
        ⟨R', hNext, hLabels⟩
      rw [hLabels, ih hNext]

end Account

end Resumption

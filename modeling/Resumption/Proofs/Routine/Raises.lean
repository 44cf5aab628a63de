import Resumption.Proofs.Routine.Trails

/-
  Where a routine raises a defect, and what its reading comes
  to by it.

  The defect is raised at an innermost point, which lies in
  constructs of any kind, nested to any depth.  The reading
  hands it to no handler, and runs the compensations around
  it, from the innermost outwards, before it stops with it.

  Main declarations:
    * `Stop.Defective`, `Stop.land`
    * `Effect.Runs`
    * `Routine.Raises`
    * `Routine.Raises.direct_eq`
-/

namespace Resumption

open Direct (Stepped landed)

variable {ν α : Type}

------------------------------------------------------------
-- Defects
------------------------------------------------------------

/- A stop that is a defect: no handler is given it. -/
structure Stop.Defective (stop : Stop ν) : Prop where
  unhandled : stop.handled? = none
  ends : stop.isStuck = false

/- What a stop is once code under a label has landed. -/
def Stop.land : Stop ν → Stop ν
  | .given v => .malformed v
  | stop => stop

theorem Direct.landed_error
    (stop : Stop ν) :
    landed (.error stop) = .error stop.land := by
  cases stop <;> rfl

theorem Stop.Defective.land
    {stop : Stop ν}
    (h : stop.Defective) :
    stop.land.Defective := by
  cases stop with
  | given v => exact ⟨rfl, rfl⟩
  | _ => exact h

------------------------------------------------------------
-- Compensations
------------------------------------------------------------

/- Effects are read one after another, and none throws. -/
inductive Effect.Runs (O : Outlook ν) :
    List Effect → Reading ν → Reading ν → Prop where
  | nil {R} :
      Runs O [] R R
  | cons
      {effect effects v R R₁ R₂}
      (h : effect.direct O R = some (.ok v, R₁))
      (hRest : Runs O effects R₁ R₂) :
      Runs O (effect :: effects) R R₂

/- The last effect is read when the others have been. -/
theorem Effect.Runs.last
    {O : Outlook ν}
    {effects : List Effect}
    {effect : Effect}
    {R R' : Reading ν}
    (h : Effect.Runs O (effects ++ [effect]) R R') :
    ∃ R₁ v, Effect.Runs O effects R R₁ ∧
      effect.direct O R₁ = some (.ok v, R') := by
  induction effects generalizing R with
  | nil =>
      cases h with
      | cons hLast hRest =>
          cases hRest
          exact ⟨R, _, .nil, hLast⟩
  | cons first effects ih =>
      cases h with
      | cons hFirst hRest =>
          rcases ih hRest with ⟨R₁, v, hRuns, hLast⟩
          exact ⟨R₁, v, .cons hFirst hRuns, hLast⟩

------------------------------------------------------------
-- Raising
------------------------------------------------------------

/-
  A routine, read from some point, raises a defect: what it
  stops with, the compensations around the point where it is
  raised, the innermost first, and how far the reading has
  come there.
-/
inductive Routine.Raises (O : Outlook ν) :
    Routine ν → Reading ν → Stop ν → List Effect →
      Reading ν → Prop where
  /- The protocol is breached. -/
  | breach
      {b R}
      (h : b.Applies O) :
      Raises O (.breach b) R (.breached b) [] R
  /- Something is given that is no step. -/
  | give
      {v hNot R}
      (h : O.checks = true) :
      Raises O (.give v hNot) R (.given v) [] R
  /- An instance of a defect class is thrown. -/
  | fail
      {e R}
      (h : e.isDefect = true) :
      Raises O (.fail e) R (.thrown e) [] R
  /- A future that is awaited was rejected with a defect. -/
  | awaits
      {x rest R stop R₁}
      (h : Direct.await O x R = some (.error stop, R₁))
      (hDefective : stop.Defective) :
      Raises O (.await x rest) R stop [] R₁
  | handsOff
      {x R stop R₁}
      (h : Direct.await O x R = some (.error stop, R₁))
      (hDefective : stop.Defective) :
      Raises O (.handOff x) R stop [] R₁
  | condition
      {condition body e R R₁}
      (h : condition.direct O R = some (.error (.thrown e), R₁))
      (hDefect : e.isDefect = true) :
      Raises O (.whileLoop condition body) R (.thrown e) [] R₁
  /- It is raised further on. -/
  | act
      {deed k v R R₁ stop cs R₂}
      (h : deed.direct O R = some (.ok v, R₁))
      (hRaises : Raises O (k v) R₁ stop cs R₂) :
      Raises O (.act deed k) R stop cs R₂
  | await
      {x rest v R R₁ stop cs R₂}
      (h : Direct.await O x R = some (.ok v, R₁))
      (hRaises : Raises O (rest v) R₁ stop cs R₂) :
      Raises O (.await x rest) R stop cs R₂
  /- It is raised within a construct. -/
  | first
      {first rest R stop cs R₁}
      (hRaises : Raises O first R stop cs R₁)
      (hStepped : ∀ v, stop ≠ .given v) :
      Raises O (.combine first rest) R stop cs R₁
  | rest
      {first rest n v R R₁ stop cs R₂}
      (h : first.direct O n R = some (.ok v, R₁))
      (hRaises : Raises O rest R₁ stop cs R₂) :
      Raises O (.combine first rest) R stop.land cs R₂
  | round
      {condition body v R R₁ stop cs R₂}
      (h : condition.direct O R = some (.ok v, R₁))
      (hTrue : v.truthy = true)
      (hRaises : Raises O body R₁ stop cs R₂)
      (hStepped : ∀ v, stop ≠ .given v) :
      Raises O (.whileLoop condition body) R stop cs R₂
  | rounds
      {condition body n v w R R₁ R₂ stop cs R₃}
      (h : condition.direct O R = some (.ok v, R₁))
      (hTrue : v.truthy = true)
      (hRound : body.direct O n R₁ = some (.ok w, R₂))
      (hRaises :
        Raises O (.whileLoop condition body) R₂ stop cs R₃) :
      Raises O (.whileLoop condition body) R stop cs R₃
  | item
      {v items body R stop cs R₁}
      (hRaises : Raises O (body v) R stop cs R₁)
      (hStepped : ∀ v, stop ≠ .given v) :
      Raises O (.forLoop (v :: items) body) R stop cs R₁
  | items
      {v items body n w R R₁ stop cs R₂}
      (h : (body v).direct O n R = some (.ok w, R₁))
      (hRaises : Raises O (.forLoop items body) R₁ stop cs R₂) :
      Raises O (.forLoop (v :: items) body) R stop cs R₂
  | body
      {body handler R stop cs R₁}
      (hRaises : Raises O body R stop cs R₁) :
      Raises O (.tryWith body handler) R stop.land cs R₁
  | handler
      {body handler n e R R₁ stop cs R₂}
      (h : body.direct O n R = some (.error (.thrown e), R₁))
      (hOrdinary : e.isDefect = false)
      (hRaises : Raises O (handler e) R₁ stop cs R₂) :
      Raises O (.tryWith body handler) R stop.land cs R₂
  | tryFinally
      {body compensation R stop cs R₁}
      (hRaises : Raises O body R stop cs R₁) :
      Raises O (.tryFinally body compensation) R stop.land
        (cs ++ [compensation]) R₁
  | uses
      {resource body release R stop cs R₁}
      (h : O.release resource = some release)
      (hRaises : Raises O (body resource) R stop cs R₁) :
      Raises O (.using resource body) R stop.land
        (cs ++ [release]) R₁

namespace Direct

variable {R R' : Reading ν}

theorem discard_ok
    {act : Direct ν α}
    {a : α}
    (h : act R = some (.ok a, R')) :
    (discard act) R = some (.ok ⟨⟩, R') :=
  bind_ok (f := fun _ => (return ⟨⟩ : Direct ν PUnit)) h

theorem discard_error
    {act : Direct ν α}
    {stop : Stop ν}
    (h : act R = some (.error stop, R')) :
    (discard act) R = some (.error stop, R') :=
  bind_error (f := fun _ => (return ⟨⟩ : Direct ν PUnit)) h

/- A defect passes a handler. -/
theorem handle_defective
    {body : Direct ν Value}
    {handler : Value → Direct ν Value}
    {stop : Stop ν}
    (h : body R = some (.error stop, R'))
    (hDefective : stop.Defective) :
    handle body handler R = some (.error stop, R') := by
  refine (tryCatch_error h).trans ?_
  rw [hDefective.unhandled]
  rfl

/- An ordinary error is handled. -/
theorem handle_ordinary
    {body : Direct ν Value}
    {handler : Value → Direct ν Value}
    {e : Value}
    (h : body R = some (.error (.thrown e), R'))
    (hOrdinary : e.isDefect = false) :
    handle body handler R = handler e R' := by
  refine (tryCatch_error h).trans ?_
  simp only [Stop.handled?, hOrdinary, Bool.false_eq_true,
    if_false]

/- Before a defect leaves a body the compensation is run. -/
theorem protect_defective
    {body compensation : Direct ν Value}
    {stop : Stop ν}
    {v : Value}
    {R₁ : Reading ν}
    (h : body R = some (.error stop, R₁))
    (hDefective : stop.Defective)
    (hCompensation : compensation R₁ = some (.ok v, R')) :
    protect body compensation R = some (.error stop, R') := by
  refine bind_error ((tryCatch_error h).trans ?_)
  rw [hDefective.ends]
  exact bind_ok (discard_ok hCompensation)

end Direct

namespace Routine

variable {O : Outlook ν}
variable {routine : Routine ν}
variable {R R₁ R' : Reading ν}
variable {o o' : Except (Stop ν) Value}

/- A reading is the same however much deeper it may go. -/
theorem direct_mono
    {n k : Nat}
    (hRead : routine.direct O n R = some (o, R'))
    (hLe : n ≤ k) :
    routine.direct O k R = some (o, R') := by
  induction hLe with
  | refl => exact hRead
  | step _ ih => exact (Alike.refl routine).direct_eq ih

/- There is one reading. -/
theorem direct_unique
    {n k : Nat}
    (h : routine.direct O n R = some (o, R'))
    (h' : routine.direct O k R = some (o', R₁)) :
    o = o' ∧ R' = R₁ := by
  have hFirst := direct_mono h (Nat.le_max_left n k)
  rw [direct_mono h' (Nat.le_max_right n k)] at hFirst
  cases hFirst
  exact ⟨rfl, rfl⟩

namespace Raises

variable {stop : Stop ν}
variable {cs : List Effect}

/- What is raised is a defect. -/
theorem defective
    (h : routine.Raises O R stop cs R₁) :
    stop.Defective := by
  have hThrown : ∀ {e : Value}, e.isDefect = true →
      (Stop.thrown e : Stop ν).Defective := by
    intro e hDefect
    refine ⟨?_, rfl⟩
    simp only [Stop.handled?, hDefect, if_true]
  induction h with
  | breach => exact ⟨rfl, rfl⟩
  | give => exact ⟨rfl, rfl⟩
  | fail h => exact hThrown h
  | awaits _ hDefective => exact hDefective
  | handsOff _ hDefective => exact hDefective
  | condition _ hDefect => exact hThrown hDefect
  | act _ _ ih => exact ih
  | await _ _ ih => exact ih
  | first _ _ ih => exact ih
  | rest _ _ ih => exact ih.land
  | round _ _ _ _ ih => exact ih
  | rounds _ _ _ _ ih => exact ih
  | item _ _ ih => exact ih
  | items _ _ ih => exact ih
  | body _ ih => exact ih.land
  | handler _ _ _ ih => exact ih.land
  | tryFinally _ ih => exact ih.land
  | uses _ _ ih => exact ih.land

/-
  The reading stops with the defect when the compensations
  around it have been run, from the innermost outwards, and
  nothing else.
-/
theorem direct_eq
    (h : routine.Raises O R stop cs R₁)
    (hRuns : Effect.Runs O cs R₁ R') :
    ∃ n, routine.direct O n R = some (.error stop, R') := by
  have hError : ∀ {stop : Stop ν}, (∀ v, stop ≠ .given v) →
      Stepped (.error stop : Except (Stop ν) Value) := by
    intro stop hNot v hSame
    cases hSame
    exact hNot v rfl
  induction h generalizing R' with
  | breach h =>
      cases hRuns
      exact ⟨1, Direct.breach_eq h⟩
  | give h =>
      cases hRuns
      refine ⟨1, ?_⟩
      simp only [Routine.direct, h, if_true]
      rfl
  | fail _ =>
      cases hRuns
      exact ⟨1, rfl⟩
  | awaits h _ =>
      cases hRuns
      exact ⟨1, Direct.bind_error h⟩
  | handsOff h _ =>
      cases hRuns
      exact ⟨1, h⟩
  | condition h _ =>
      cases hRuns
      exact ⟨1, Direct.bind_error h⟩
  | act h _ ih =>
      rcases ih hRuns with ⟨n, hRead⟩
      exact ⟨n + 1, (Direct.bind_ok h).trans hRead⟩
  | await h _ ih =>
      rcases ih hRuns with ⟨n, hRead⟩
      exact ⟨n + 1, (Direct.bind_ok h).trans hRead⟩
  | first _ hStepped ih =>
      rcases ih hRuns with ⟨n, hRead⟩
      exact ⟨n + 1, Direct.bind_error (Direct.discard_error
        (Direct.stepping_eq hRead (hError hStepped)))⟩
  | @rest _ _ n _ _ _ stop _ _ h _ ih =>
      rcases ih hRuns with ⟨k, hRead⟩
      have hFirst := direct_mono h (Nat.le_max_left n k)
      have hRest := Direct.land_eq
        (direct_mono hRead (Nat.le_max_right n k))
      rw [Direct.landed_error] at hRest
      exact ⟨max n k + 1, (Direct.bind_ok (Direct.discard_ok
        (Direct.stepping_eq hFirst
          (Direct.stepped_ok _)))).trans hRest⟩
  | round h hTrue _ hStepped ih =>
      rcases ih hRuns with ⟨n, hRead⟩
      refine ⟨n + 1, (Direct.bind_ok h).trans ?_⟩
      rw [if_pos hTrue]
      exact Direct.bind_error (Direct.discard_error
        (Direct.stepping_eq hRead (hError hStepped)))
  | @rounds _ _ n _ _ _ _ _ _ _ _ h hTrue hRound _ ih =>
      rcases ih hRuns with ⟨k, hRead⟩
      have hFirst := direct_mono hRound (Nat.le_max_left n k)
      have hRest := direct_mono hRead (Nat.le_max_right n k)
      refine ⟨max n k + 1, (Direct.bind_ok h).trans ?_⟩
      rw [if_pos hTrue]
      exact (Direct.bind_ok (Direct.discard_ok
        (Direct.stepping_eq hFirst
          (Direct.stepped_ok _)))).trans hRest
  | item _ hStepped ih =>
      rcases ih hRuns with ⟨n, hRead⟩
      exact ⟨n + 1, Direct.bind_error (Direct.discard_error
        (Direct.stepping_eq hRead (hError hStepped)))⟩
  | @items _ _ _ n _ _ _ _ _ _ h _ ih =>
      rcases ih hRuns with ⟨k, hRead⟩
      have hFirst := direct_mono h (Nat.le_max_left n k)
      have hDeep : k ≤ max n k + 1 :=
        Nat.le_succ_of_le (Nat.le_max_right n k)
      have hRest := direct_mono hRead hDeep
      exact ⟨max n k + 1, (Direct.bind_ok (Direct.discard_ok
        (Direct.stepping_eq hFirst
          (Direct.stepped_ok _)))).trans hRest⟩
  | body hRaises ih =>
      rcases ih hRuns with ⟨n, hRead⟩
      refine ⟨n + 1, ?_⟩
      rw [← Direct.landed_error]
      exact Direct.land_eq
        (Direct.handle_defective hRead hRaises.defective)
  | @handler _ _ n _ _ _ _ _ _ h hOrdinary _ ih =>
      rcases ih hRuns with ⟨k, hRead⟩
      have hBody := direct_mono h (Nat.le_max_left n k)
      have hHandler := direct_mono hRead (Nat.le_max_right n k)
      refine ⟨max n k + 1, ?_⟩
      rw [← Direct.landed_error]
      exact Direct.land_eq
        ((Direct.handle_ordinary hBody hOrdinary).trans hHandler)
  | tryFinally hRaises ih =>
      rcases hRuns.last with ⟨R₂, v, hInner, hLast⟩
      rcases ih hInner with ⟨n, hRead⟩
      refine ⟨n + 1, ?_⟩
      rw [← Direct.landed_error]
      exact Direct.land_eq (Direct.protect_defective hRead
        hRaises.defective hLast)
  | uses h hRaises ih =>
      rcases hRuns.last with ⟨R₂, v, hInner, hLast⟩
      rcases ih hInner with ⟨n, hRead⟩
      refine ⟨n + 1, ?_⟩
      simp only [Routine.direct, h]
      rw [← Direct.landed_error]
      exact Direct.land_eq (Direct.protect_defective hRead
        hRaises.defective hLast)

end Raises

end Routine

end Resumption

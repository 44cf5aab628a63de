import Resumption.Evaluate
import Resumption.Proofs.Ensures

/-
  How runs end when their bounds are wide enough.

  A run with a caller leads to an end if every caller of
  enough rounds and depth brings it there.  The rules below
  follow the primitives that library functions are made of,
  so that no bound is ever computed.

  Main declarations:
    * `Run.Leads`
    * `Run.Leads.bind`, `Run.Leads.attempt`
    * `Run.Leads.call`
    * `Run.Leads.again`
-/

namespace Resumption

/- One program after another is one program. -/
theorem Program.run_bind
    (p : Program)
    (f : Value → Program)
    (caller : Caller) :
    (p.bind f).run caller =
      p.run caller >>= fun v => (f v).run caller := by
  match p with
  | .done v => rfl
  | .fail e => rfl
  | .perform r k =>
      simp only [Program.bind, Program.run,
        LawfulMonad.bind_assoc]
      exact congrArg _ (funext fun v =>
        Program.run_bind (k v) f caller)
  | .attempt body k =>
      simp only [Program.bind, Program.run,
        LawfulMonad.bind_assoc]
      exact congrArg _ (funext fun o =>
        Program.run_bind (k o) f caller)

namespace Run

variable {α β : Type}
variable {s s' : Session}

------------------------------------------------------------
-- Ends
------------------------------------------------------------

/- With bounds that are wide enough, a run ends as told. -/
def Leads
    (act : Caller → Run α)
    (s : Session)
    (r : Except Value α)
    (s' : Session) : Prop :=
  ∃ bound, ∀ rounds depth,
    bound ≤ rounds → bound ≤ depth →
      act (.ofDepth rounds depth) s = some (r, s')

/- What needs no bounds leads to where it ends. -/
theorem Leads.of_eq
    {act : Caller → Run α}
    {r : Except Value α}
    (h : ∀ caller, act caller s = some (r, s')) :
    Leads act s r s' :=
  ⟨0, fun _ _ _ _ => h _⟩

theorem Leads.pure
    (a : α) :
    Leads (fun _ => (return a : Run α)) s (.ok a) s :=
  .of_eq fun _ => rfl

theorem Leads.raise
    (e : Value) :
    Leads (fun _ => (Run.raise e : Run α)) s (.error e) s :=
  .of_eq fun _ => rfl

/- There is one end that a run leads to. -/
theorem Leads.unique
    {act : Caller → Run α}
    {r r' : Except Value α}
    {s₁ : Session}
    (h : Leads act s r s')
    (h' : Leads act s r' s₁) :
    r = r' ∧ s' = s₁ := by
  rcases h with ⟨bound, h⟩
  rcases h' with ⟨bound', h'⟩
  have hFirst := h (max bound bound') (max bound bound')
    (Nat.le_max_left ..) (Nat.le_max_left ..)
  rw [h' _ _ (Nat.le_max_right ..) (Nat.le_max_right ..)]
    at hFirst
  cases hFirst
  exact ⟨rfl, rfl⟩

/- Two runs that agree from some bounds on lead to one end. -/
theorem Leads.congr
    {act act' : Caller → Run α}
    {r : Except Value α}
    (h : Leads act s r s')
    (hSame : ∀ caller, act' caller s = act caller s) :
    Leads act' s r s' := by
  rcases h with ⟨bound, h⟩
  refine ⟨bound, fun rounds depth hRounds hDepth => ?_⟩
  rw [hSame]
  exact h rounds depth hRounds hDepth

------------------------------------------------------------
-- Sequencing
------------------------------------------------------------

/- A part that is done at once, and where the rest ends. -/
theorem step_eq
    {act : Run α}
    {f : α → Run β}
    {a : α}
    {s₁ : Session}
    {end_ : Option (Except Value β × Session)}
    (h : act s = some (.ok a, s₁))
    (hNext : f a s₁ = end_) :
    (act >>= f) s = end_ :=
  (bind_of_end h).trans hNext

/- The second part begins where the first has finished. -/
theorem Leads.bind
    {act : Caller → Run α}
    {f : Caller → α → Run β}
    {a : α}
    {r : Except Value β}
    {s₁ : Session}
    (h : Leads act s (.ok a) s₁)
    (hNext : Leads (fun c => f c a) s₁ r s') :
    Leads (fun c => act c >>= f c) s r s' := by
  rcases h with ⟨bound, h⟩
  rcases hNext with ⟨bound', hNext⟩
  refine ⟨max bound bound', ?_⟩
  intro rounds depth hRounds hDepth
  have hFirst := h rounds depth (by omega) (by omega)
  have hSecond := hNext rounds depth (by omega) (by omega)
  exact (bind_of_end hFirst).trans hSecond

/- What the first part throws, the whole throws. -/
theorem Leads.bind_error
    {act : Caller → Run α}
    {f : Caller → α → Run β}
    {e : Value}
    (h : Leads act s (.error e) s') :
    Leads (fun c => act c >>= f c) s (.error e) s' := by
  rcases h with ⟨bound, h⟩
  refine ⟨bound, fun rounds depth hRounds hDepth => ?_⟩
  exact bind_of_end (h rounds depth hRounds hDepth)

/- A first part without bounds is done at once. -/
theorem Leads.step
    {act : Run α}
    {f : Caller → α → Run β}
    {a : α}
    {r : Except Value β}
    {s₁ : Session}
    (h : act s = some (.ok a, s₁))
    (hNext : Leads (fun c => f c a) s₁ r s') :
    Leads (fun c => act >>= f c) s r s' :=
  .bind (.of_eq fun _ => h) hNext

/- Mapping maps what a run finishes with. -/
theorem Leads.map
    {act : Caller → Run α}
    {r : Except Value α}
    (g : α → β)
    (h : Leads act s r s') :
    Leads (fun c => g <$> act c) s (r.map g) s' := by
  have hBind : Leads (fun c => act c >>= fun a =>
      (return g a : Run β)) s (r.map g) s' := by
    cases r with
    | ok a => exact h.bind (.pure (g a))
    | error e => exact h.bind_error
  exact hBind.congr fun caller => by rw [map_eq_pure_bind]

theorem Leads.discard
    {act : Caller → Run α}
    {r : Except Value α}
    (h : Leads act s r s') :
    Leads (fun c => Functor.discard (act c)) s
      (r.map fun _ => ⟨⟩) s' :=
  h.map _

theorem Leads.quietly
    {act : Caller → Run α}
    {r : Except Value α}
    (h : Leads act s r s') :
    Leads (fun c => Run.quietly (act c)) s
      (r.map fun _ => .undefined) s' := by
  have hDiscard := h.discard
  cases r with
  | ok a => exact hDiscard.bind (.pure _)
  | error e => exact hDiscard.bind_error

------------------------------------------------------------
-- Brackets
------------------------------------------------------------

theorem Leads.attempt
    {act : Caller → Run α}
    {r : Except Value α}
    (h : Leads act s r s') :
    Leads (fun c => Run.attempt (act c)) s (.ok r) s' := by
  rcases h with ⟨bound, h⟩
  refine ⟨bound, fun rounds depth hRounds hDepth => ?_⟩
  simp only [Run.attempt, h rounds depth hRounds hDepth]

theorem Leads.withTask
    {act : Caller → Run α}
    {r : Except Value α}
    (t : Ref)
    (h : Leads act (Run.entering t s) r s') :
    Leads (fun c => Run.withTask t (act c)) s r
      { s' with task := s.task, home := s.home } := by
  rcases h with ⟨bound, h⟩
  refine ⟨bound, fun rounds depth hRounds hDepth => ?_⟩
  simp only [Run.withTask, h rounds depth hRounds hDepth]

------------------------------------------------------------
-- Calls
------------------------------------------------------------

/- A caller has the rounds that it was made with. -/
@[simp] theorem rounds_ofDepth
    (rounds depth : Nat) :
    (Caller.ofDepth rounds depth).rounds = rounds := by
  cases depth <;> rfl

/- A call ends as the closure does when it is entered. -/
theorem Leads.call
    {closure : Closure}
    {args : List Value}
    {r : Except Value Value}
    (h : Leads (fun c => closure.enter c args) s r s') :
    Leads (fun c => c.call closure args) s r s' := by
  rcases h with ⟨bound, h⟩
  refine ⟨bound + 1, fun rounds depth hRounds hDepth => ?_⟩
  have hDeep : depth = depth - 1 + 1 := by omega
  have hEnter := h rounds (depth - 1) (by omega) (by omega)
  dsimp only
  rw [hDeep, Caller.call_ofDepth_succ]
  exact hEnter

/- Client code is its program, run. -/
theorem Leads.client
    {code : Code}
    {args : List Value}
    {r : Except Value Value}
    (h : Leads (fun c => (code args).run c)
      (Run.calling s) r s') :
    Leads (fun c => c.call (.client code) args) s r s' :=
  .call (.step rfl h)

------------------------------------------------------------
-- Rounds
------------------------------------------------------------

section Rounds

variable {round : Caller → Run (Option α)}
variable {used : Nat}

/- A round without a result is followed by the others. -/
theorem Leads.again
    {r : Except Value α}
    {s₁ : Session}
    (h : Leads round s (.ok none) s₁)
    (hRest : Leads
      (fun c => Run.iterate (c.rounds - (used + 1)) (round c))
      s₁ r s') :
    Leads (fun c => Run.iterate (c.rounds - used) (round c))
      s r s' := by
  rcases h with ⟨bound, h⟩
  rcases hRest with ⟨bound', hRest⟩
  refine ⟨max bound bound' + used + 1, ?_⟩
  intro rounds depth hRounds hDepth
  have hLeft : rounds - used = rounds - (used + 1) + 1 := by
    omega
  have hRound := h rounds depth (by omega) (by omega)
  have hEnd := hRest rounds depth (by omega) (by omega)
  dsimp only at hEnd ⊢
  rw [rounds_ofDepth] at hEnd ⊢
  rw [hLeft]
  simp only [Run.iterate, hRound]
  exact hEnd

/- The round that has a result is the last. -/
theorem Leads.last
    {a : α}
    (h : Leads round s (.ok (some a)) s') :
    Leads (fun c => Run.iterate (c.rounds - used) (round c))
      s (.ok a) s' := by
  rcases h with ⟨bound, h⟩
  refine ⟨bound + used + 1, ?_⟩
  intro rounds depth hRounds hDepth
  have hLeft : rounds - used = rounds - used - 1 + 1 := by
    omega
  have hRound := h rounds depth (by omega) (by omega)
  dsimp only
  rw [rounds_ofDepth, hLeft]
  simp only [Run.iterate, hRound]

/- So is one that throws. -/
theorem Leads.stop
    {e : Value}
    (h : Leads round s (.error e) s') :
    Leads (fun c => Run.iterate (c.rounds - used) (round c))
      s (.error e) s' := by
  rcases h with ⟨bound, h⟩
  refine ⟨bound + used + 1, ?_⟩
  intro rounds depth hRounds hDepth
  have hLeft : rounds - used = rounds - used - 1 + 1 := by
    omega
  have hRound := h rounds depth (by omega) (by omega)
  dsimp only
  rw [rounds_ofDepth, hLeft]
  simp only [Run.iterate, hRound]

/- A round that is the last, however it ends. -/
theorem Leads.once
    {r : Except Value α}
    (h : Leads round s (r.map some) s') :
    Leads (fun c => Run.iterate (c.rounds - used) (round c))
      s r s' := by
  cases r with
  | ok a => exact .last h
  | error e => exact .stop h

end Rounds

end Run

end Resumption

import Resumption.Proofs.Ends
import Resumption.Proofs.Order.Bodies

/-
  Code that produces steps, in stretches: from its start to
  where it suspends, and from there to where it suspends
  again or comes to an end.

  It is started once, and goes on by a jump to the label that
  its last step suspended on, once what that step awaits has
  completed.  What happens in between is up to an environment.
  What the library does around a body on its own account is
  tidy: no code under a label gives way, and nothing changes
  that client code can see.

  Main declarations:
    * `Session.Tidies`, `Session.Respects`
    * `Stretch`, `Concludes`
-/

namespace Resumption

open Session World

variable {s s₁ s₂ s' : Session}
variable {m l i : Ref}
variable {cells : List Ref}

------------------------------------------------------------
-- Tidiness
------------------------------------------------------------

namespace Session

/-
  What a session shows besides labels, constructs, awaiters,
  the care for tasks, and what is counted and remembered.
-/
def scenery (s : Session) : Session :=
  { s with
    objects := 0
    events := 0
    chronicle := []
    machines := #[]
    labels := #[]
    awaiters := #[]
    sequences := #[]
    recoveries := #[]
    cleanups := #[]
    tasks := #[] }

/-
  What the library does on its own account, for the given
  cleanups.
-/
structure Tidies
    (cells : List Ref)
    (s s' : Session) : Prop where
  orderly : s'.Orderly
  grows : s.Grows s'
  bears : ∀ m l code, s.Bears m l (some code) →
    s'.Bears m l (some code)
  cleanups : ∀ i, i ∉ cells → s'.cleanups[i]? = s.cleanups[i]?
  scenery : s'.scenery = s.scenery

/-
  Nobody disturbs the given cleanups, or puts code of its own
  where the library has put some.
-/
structure Respects
    (cells : List Ref)
    (s s' : Session) : Prop where
  cleanups : ∀ i ∈ cells, s'.cleanups[i]? = s.cleanups[i]?
  bears : ∀ m l code, ¬ code.IsClient →
    s.Bears m l (some code) → s'.Bears m l (some code)

namespace Tidies

theorem refl
    (hs : s.Orderly)
    (cells : List Ref) :
    s.Tidies cells s :=
  ⟨hs, .refl s, fun _ _ _ h => h, fun _ _ => rfl, rfl⟩

theorem trans
    (h : s.Tidies cells s₁)
    (h' : s₁.Tidies cells s') :
    s.Tidies cells s' where
  orderly := h'.orderly
  grows := h.grows.trans h'.grows
  bears m l code hBears :=
    h'.bears m l code (h.bears m l code hBears)
  cleanups i hi := (h'.cleanups i hi).trans (h.cleanups i hi)
  scenery := h'.scenery.trans h.scenery

/- What is tidy for some cleanups is so for more. -/
theorem mono
    {cells' : List Ref}
    (h : s.Tidies cells s')
    (hCells : ∀ i ∈ cells, i ∈ cells') :
    s.Tidies cells' s' :=
  { h with
    cleanups := fun i hi =>
      h.cleanups i fun hMem => hi (hCells i hMem) }

/- What is tidy disturbs no other cleanup. -/
theorem respects
    {cells' : List Ref}
    (h : s.Tidies cells s')
    (hCells : ∀ i ∈ cells', i ∉ cells) :
    s.Respects cells' s' where
  cleanups i hi := h.cleanups i (hCells i hi)
  bears m l code _ := h.bears m l code

/- What is tidy invokes the compensation of no other cleanup. -/
theorem compensations
    (h : s.Tidies cells s')
    (hs : s.Orderly)
    (hi : i ∉ cells) :
    s'.compensations i = s.compensations i := by
  rw [h.orderly.counted, hs.counted, h.cleanups i hi]

/- What leaves the ground as it was is tidy. -/
theorem of_ground
    (hs : s.Orderly)
    (h : s.SameGround s')
    (hScenery : s'.scenery = s.scenery) :
    s.Tidies cells s' where
  orderly := h.orderly hs
  grows := h.grows
  bears m l code hBears := by
    unfold Session.Bears at hBears ⊢
    rw [h.labels, h.machines]
    exact hBears
  cleanups _ _ := by rw [h.cleanups]
  scenery := hScenery

theorem stamped
    (hs : s.Orderly) :
    s.Tidies cells s.stamped :=
  of_ground hs ⟨rfl, rfl, rfl, rfl, rfl, rfl, rfl, rfl⟩ rfl

/- A label may be handed out. -/
theorem withLabel
    (hs : s.Orderly)
    (m : Ref)
    (code : Option Closure) :
    s.Tidies cells (s.withLabel m code) :=
  have hMoves := Ordering.moves_withLabel (Ordering.sound hs) m
    code
  ⟨hMoves.sound.inv, hMoves.rel, fun _ _ _ h => h.withLabel _,
    fun _ _ => rfl, rfl⟩

/- Code may be put under a label that bears none. -/
theorem relabelled
    (hs : s.Orderly)
    (hVacant : s.Bears m l none)
    (code : Closure) :
    s.Tidies cells (s.relabelled l code) := by
  have hMoves := hVacant.moves_relabelled (Ordering.sound hs) code
  refine ⟨hMoves.sound.inv, hMoves.rel, fun m' l' code' h => ?_,
    fun _ _ => rfl, rfl⟩
  refine h.relabelled_of_ne ?_ code
  rintro rfl
  rcases hVacant with ⟨n, hRow, _⟩
  rcases h with ⟨n', hRow', _⟩
  rw [hRow] at hRow'
  cases hRow'

/- An awaiter may be made. -/
theorem withAwaiter
    (hs : s.Orderly)
    (cell : AwaiterCell) :
    s.Tidies cells
      { s with awaiters := s.awaiters.push cell } where
  orderly := { hs with }
  grows := { Grows.refl s with
    awaiters := .push (fun _ => rfl) _ _ }
  bears _ _ _ h := h
  cleanups _ _ := rfl
  scenery := rfl

end Tidies

namespace Respects

theorem refl
    (s : Session)
    (cells : List Ref) :
    s.Respects cells s :=
  ⟨fun _ _ => rfl, fun _ _ _ _ h => h⟩

theorem trans
    (h : s.Respects cells s₁)
    (h' : s₁.Respects cells s') :
    s.Respects cells s' where
  cleanups i hi := (h'.cleanups i hi).trans (h.cleanups i hi)
  bears m l code hNot hBears :=
    h'.bears m l code hNot (h.bears m l code hNot hBears)

/- Whoever respects some cleanups respects fewer of them. -/
theorem mono
    {cells' : List Ref}
    (h : s.Respects cells s')
    (hCells : ∀ i ∈ cells', i ∈ cells) :
    s.Respects cells' s' :=
  { h with cleanups := fun i hi => h.cleanups i (hCells i hi) }

end Respects

end Session

------------------------------------------------------------
-- Environments
------------------------------------------------------------

/- What may happen in between, given some cleanups. -/
structure Meanwhile
    (cells : List Ref)
    (env : Session → Session → Prop) : Prop where
  grows : ∀ s s', env s s' → s.Grows s'
  orderly : ∀ s s', env s s' → s'.Orderly
  respects : ∀ s s', env s s' → s.Respects cells s'

/-
  What happens in between around the body of a cleanup: first
  the library tidies up.
-/
def Around
    (i : Ref)
    (env : Session → Session → Prop)
    (s s' : Session) : Prop :=
  ∃ s₁, s.Tidies [i] s₁ ∧ env s₁ s'

/- What happens in between inside of nested cleanups. -/
def Within
    (env : Session → Session → Prop) :
    List Ref → Session → Session → Prop
  | [] => env
  | i :: cells => Within (Around i env) cells

variable {env env' : Session → Session → Prop}

/- Tidying up for one cleanup leaves the others alone. -/
theorem Meanwhile.around
    (h : Meanwhile (i :: cells) env)
    (hi : i ∉ cells) :
    Meanwhile cells (Around i env) where
  grows := by
    rintro s s' ⟨s₁, hTidies, hEnv⟩
    exact hTidies.grows.trans (h.grows _ _ hEnv)
  orderly := by
    rintro s s' ⟨s₁, _, hEnv⟩
    exact h.orderly _ _ hEnv
  respects := by
    rintro s s' ⟨s₁, hTidies, hEnv⟩
    have hOthers : s.Respects cells s₁ :=
      hTidies.respects fun j hj => by
        rw [List.mem_singleton]
        rintro rfl
        exact hi hj
    exact hOthers.trans ((h.respects _ _ hEnv).mono
      fun j hj => List.mem_cons_of_mem i hj)

------------------------------------------------------------
-- Stretches
------------------------------------------------------------

/-
  What an awaiter reports on has completed.  Of awaiters that
  are made of client code nothing is asked.
-/
def Session.Completed
    (s : Session)
    (awaiter : Value) : Prop :=
  ∀ (a f : Nat) captured, awaiter = .awaiter a →
    s.awaiters[a]? = some (.future f captured) →
      (s.outcome? f).isSome

/-
  A stretch of code that produces steps: where it begins, how
  it ends and where.  The code is started, and each of its
  suspensions is resumed once, when what it awaits has
  completed.
-/
inductive Stretch
    (env : Session → Session → Prop)
    (m : Ref)
    (start : Caller → Run Value)
    (s : Session) :
    Session → Except Value Value → Session → Prop where
  | starts
      {r s'}
      (hRun : Run.Ends start s r s') :
      Stretch env m start s s r s'
  | resumes
      {s₀ step s₁ awaiter resume s₂ r s'}
      (h : Stretch env m start s s₀ (.ok step) s₁)
      (hStep : step.step? = some (.suspend awaiter resume))
      (hMeanwhile : env s₁ s₂)
      (hCompleted : s₂.Completed awaiter)
      (hRun : Run.Ends
        (fun caller => Label.jump caller m resume) s₂ r s') :
      Stretch env m start s s₂ r s'

/- What can be awaited, or handed off to, is a future. -/
def Value.Fits (step : Value) : Prop :=
  ∃ view, step.step? = some view ∧
    ∀ v, view = .handOff v → ∃ f, v = .future f

theorem Value.Fits.isStep
    {step : Value}
    (h : step.Fits) :
    step.isStep = true := by
  rcases h with ⟨view, hStep, _⟩
  simp [Value.isStep, hStep]

variable {start : Caller → Run Value}
variable {r : Except Value Value}

/- Code that starts as other code does has its stretches. -/
theorem Stretch.congr
    {start' : Caller → Run Value}
    {t : Session}
    (h : Stretch env m start s s₁ r s')
    (hStart : ∀ r s', Run.Ends start s r s' →
      Run.Ends start' t r s') :
    ∃ t₁, Stretch env m start' t t₁ r s' ∧
      (t₁ = s₁ ∨ s₁ = s ∧ t₁ = t) := by
  induction h with
  | starts hRun =>
      exact ⟨t, .starts (hStart _ _ hRun), .inr ⟨rfl, rfl⟩⟩
  | resumes _ hStep hMeanwhile hCompleted hRun ih =>
      rcases ih with ⟨t₁, h, _⟩
      exact ⟨_, .resumes h hStep hMeanwhile hCompleted hRun,
        .inl rfl⟩

/-
  Of two things in sequence, the first one ended the stretch
  by failing, or the stretch is one of the second.
-/
theorem Stretch.of_bind
    {α : Type}
    {first : Caller → Run α}
    {next : Caller → α → Run Value}
    (h : Stretch env m
      (fun caller => first caller >>= next caller) s s₁ r s') :
    (∃ e, Run.Ends first s (.error e) s' ∧ r = .error e) ∨
      ∃ a s₂ t, Run.Ends first s (.ok a) s₂ ∧
        Stretch env m (fun caller => next caller a) s₂ t r
          s' := by
  induction h with
  | starts hRun =>
      rcases hRun with ⟨rounds, depth, hRun⟩
      change (first (.ofDepth rounds depth) >>=
        next (.ofDepth rounds depth)) s = _ at hRun
      cases hFirst : first (.ofDepth rounds depth) s with
      | none =>
          rw [Run.bind_of_none hFirst] at hRun
          cases hRun
      | some out =>
          rcases out with ⟨q, s₂⟩
          have hEnds : Run.Ends first s q s₂ :=
            ⟨rounds, depth, hFirst⟩
          rw [Run.bind_of_end hFirst] at hRun
          cases q with
          | error e =>
              obtain ⟨rfl, rfl⟩ :=
                Prod.mk.inj (Option.some.inj hRun)
              exact .inl ⟨e, hEnds, rfl⟩
          | ok a =>
              exact .inr ⟨a, s₂, s₂, hEnds,
                .starts ⟨rounds, depth, hRun⟩⟩
  | resumes _ hStep hMeanwhile hCompleted hRun ih =>
      rcases ih with ⟨e, _, ⟨⟩⟩ | ⟨a, s₂, t, hEnds, h⟩
      exact .inr ⟨a, s₂, _, hEnds,
        .resumes h hStep hMeanwhile hCompleted hRun⟩

/- What a jump ends in has grown in order. -/
theorem Run.Ends.moves_jump
    {resume : Value}
    (hs : s.Orderly)
    (h : Run.Ends (fun caller => Label.jump caller m resume) s r
      s') :
    Ordering.Moves s s' := by
  rcases h with ⟨rounds, depth, hRun⟩
  exact Ordering.founds.keeps_jump (Ordering.serves rounds depth)
    (Ordering.sound hs) m resume _ _ hRun

/- So has what a call ends in. -/
theorem Run.Ends.moves_call
    {code : Closure}
    {args : List Value}
    (hs : s.Orderly)
    (h : Run.Ends (fun caller => caller.call code args) s r s') :
    Ordering.Moves s s' := by
  rcases h with ⟨rounds, depth, hRun⟩
  exact Ordering.call (Ordering.serves rounds depth)
    (Ordering.sound hs) code args _ _ hRun

/- So has what entering a closure ends in. -/
theorem Run.Ends.moves_enter
    {code : Closure}
    {args : List Value}
    (hs : s.Orderly)
    (h : Run.Ends (fun caller => code.enter caller args) s r s') :
    Ordering.Moves s s' :=
  (Run.ends_call_iff.mpr h).moves_call hs

/- Stretches stay in order, and every session grows. -/
theorem Stretch.moves
    (h : Stretch env m start s s₁ r s')
    (hs : s.Orderly)
    (hEnv : Meanwhile cells env)
    (hStart : ∀ r s', Run.Ends start s r s' →
      Ordering.Moves s s') :
    s.Grows s₁ ∧ s₁.Orderly ∧ Ordering.Moves s₁ s' := by
  induction h with
  | starts hRun => exact ⟨.refl s, hs, hStart _ _ hRun⟩
  | resumes _ _ hMeanwhile _ hRun ih =>
      rcases ih with ⟨hGrows, _, hMoves⟩
      have hOrderly := hEnv.orderly _ _ hMeanwhile
      exact ⟨hGrows.trans (hMoves.rel.trans
        (hEnv.grows _ _ hMeanwhile)), hOrderly,
        hRun.moves_jump hOrderly⟩

------------------------------------------------------------
-- Conclusions
------------------------------------------------------------

/-
  Code has come to its own end: it threw, it returned, or the
  future that it handed off to has settled, at once or in the
  meantime.
-/
inductive Concludes
    (env : Session → Session → Prop)
    (s : Session) :
    Except Value Value → Except Value Value → Session → Prop where
  | throws {e} : Concludes env s (.error e) (.error e) s
  | returns
      {step v}
      (hStep : step.step? = some (.finish v)) :
      Concludes env s (.ok step) (.ok v) s
  | settled
      {step f o}
      (hStep : step.step? = some (.handOff (.future f)))
      (hOutcome : s.outcome? f = some o) :
      Concludes env s (.ok step) o.read s
  | settles
      {step f o s'}
      (hStep : step.step? = some (.handOff (.future f)))
      (hPending : s.outcome? f = none)
      (hMeanwhile : env s s')
      (hOutcome : s'.outcome? f = some o) :
      Concludes env s (.ok step) o.read s'

/- What suspends has come to no end. -/
theorem Concludes.not_suspend
    {step awaiter resume : Value}
    {own : Except Value Value}
    (h : Concludes env s (.ok step) own s')
    (hStep : step.step? = some (.suspend awaiter resume)) :
    False := by
  cases h with
  | returns hStep' => rw [hStep] at hStep'; cases hStep'
  | settled hStep' _ => rw [hStep] at hStep'; cases hStep'
  | settles hStep' _ _ _ => rw [hStep] at hStep'; cases hStep'

/- What yields something has come to just that end, at once. -/
theorem Concludes.of_yields
    {q own own' : Except Value Value}
    (h : Concludes env s q own s')
    (hYields : Yields q own') :
    own = own' ∧ s' = s := by
  cases h with
  | throws =>
      cases own' with
      | ok v => exact hYields.elim
      | error e =>
          obtain rfl : _ = e := hYields
          exact ⟨rfl, rfl⟩
  | returns hStep =>
      cases own' with
      | error e => exact hYields.elim
      | ok v =>
          rw [show _ = _ from hYields] at hStep
          cases hStep
          exact ⟨rfl, rfl⟩
  | settled hStep _ =>
      cases own' with
      | error e => exact hYields.elim
      | ok v =>
          rw [show _ = _ from hYields] at hStep
          cases hStep
  | settles hStep _ _ _ =>
      cases own' with
      | error e => exact hYields.elim
      | ok v =>
          rw [show _ = _ from hYields] at hStep
          cases hStep

/- An outcome, unless what comes after it fails. -/
def overridden
    {α : Type}
    (own : Except Value Value) :
    Except Value α → Except Value Value
  | .ok _ => own
  | .error e => .error e

/- What comes after may answer anything, unless it fails. -/
@[simp] theorem overridden_map
    {α β : Type}
    (own : Except Value Value)
    (o : Except Value α)
    (f : α → β) :
    overridden own (o.map f) = overridden own o := by
  cases o <;> rfl

end Resumption

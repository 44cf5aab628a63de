import Resumption.Proofs.Bounds
import Resumption.Proofs.Routine.Labels

/-
  How runs end, whatever their bounds.

  A run ends if it does within some bounds, and there is one
  end to which it can come.  What a run does first can be
  taken off it: it turns to what is left, from where that
  begins, and ends just as this does.

  Main declarations:
    * `Run.Ends`, `Run.Steady`, `Run.Ends.unique`
    * `Run.Never`
    * `Run.TurnsTo`
-/

namespace Resumption

variable {s s' s₁ s₂ : Session}
variable {m l : Ref}

/- Within some bounds, a run ends as told. -/
def Run.Ends
    {α : Type}
    (act : Caller → Run α)
    (s : Session)
    (r : Except Value α)
    (s' : Session) : Prop :=
  ∃ rounds depth,
    act (.ofDepth rounds depth) s = some (r, s')

/- A call ends where the closure is entered, one level deeper. -/
theorem Run.ends_call_iff
    {code : Closure}
    {args : List Value}
    {r : Except Value Value} :
    Run.Ends (fun caller => caller.call code args) s r s' ↔
      Run.Ends (fun caller => code.enter caller args) s r s' := by
  constructor
  · rintro ⟨rounds, depth, hRun⟩
    cases depth with
    | zero => cases hRun
    | succ depth => exact ⟨rounds, depth, hRun⟩
  · rintro ⟨rounds, depth, hRun⟩
    exact ⟨rounds, depth + 1, hRun⟩

namespace Run

variable {α β : Type}
variable {act act₁ act₂ : Caller → Run α}
variable {f : Caller → α → Run β}
variable {r r' : Except Value α}

------------------------------------------------------------
-- Steadiness
------------------------------------------------------------

/- Wider bounds change no end of the run. -/
def Steady (act : Caller → Run α) : Prop :=
  ∀ c c' : Caller, c.Narrows c' → (act c).Narrows (act c')

theorem steady_const (act : Run α) :
    Steady fun _ => act :=
  fun _ _ _ => .refl act

theorem Steady.bind
    (h : Steady act)
    (hf : ∀ a, Steady fun c => f c a) :
    Steady fun c => act c >>= f c :=
  fun c c' hc => (h c c' hc).bind fun a => hf a c c' hc

/- All that the library runs is steady. -/
theorem steady_call
    (code : Closure)
    (args : List Value) :
    Steady fun c => c.call code args :=
  fun _ _ hc => hc.call code args

theorem steady_jump
    (m : Ref)
    (l : Value) :
    Steady fun c => Label.jump c m l :=
  fun _ _ hc => hc.jump m l

theorem steady_program (p : Program) :
    Steady fun c => p.run c :=
  fun _ _ hc => hc.program p

/- A steady run that ends once ends so in wider bounds. -/
theorem Steady.leads
    (h : Steady act)
    (hEnds : Ends act s r s') :
    Leads act s r s' := by
  rcases hEnds with ⟨rounds, depth, hRun⟩
  refine ⟨max rounds depth, fun _ _ hRounds hDepth => ?_⟩
  exact h _ _ (.ofDepth (Nat.le_trans (Nat.le_max_left ..) hRounds)
    (Nat.le_trans (Nat.le_max_right ..) hDepth)) s _ hRun

theorem Leads.ends
    (h : Leads act s r s') :
    Ends act s r s' := by
  rcases h with ⟨bound, h⟩
  exact ⟨bound, bound, h bound bound (Nat.le_refl _)
    (Nat.le_refl _)⟩

/- There is one end to which a steady run comes. -/
theorem Ends.unique
    (hAct : Steady act)
    (h : Ends act s r s₁)
    (h' : Ends act s r' s₂) :
    r = r' ∧ s₁ = s₂ :=
  (hAct.leads h).unique (hAct.leads h')

/- An end within bounds of which it is known that there is one. -/
theorem Steady.end_of_isSome
    {rounds depth : Nat}
    (hAct : Steady act)
    (h : Ends act s r s')
    (hSome : (act (.ofDepth rounds depth) s).isSome) :
    act (.ofDepth rounds depth) s = some (r, s') := by
  rcases Option.isSome_iff_exists.mp hSome with ⟨⟨r₁, s₁⟩, hRun⟩
  rcases Ends.unique hAct h ⟨rounds, depth, hRun⟩ with ⟨rfl, rfl⟩
  exact hRun

------------------------------------------------------------
-- Runs without an End
------------------------------------------------------------

/- A run never ends. -/
def Never
    (act : Caller → Run α)
    (s : Session) : Prop :=
  ∀ rounds depth, act (.ofDepth rounds depth) s = none

/- What never ends ends in nothing that comes after it. -/
theorem Never.bind
    (h : Never act s) :
    Never (fun c => act c >>= f c) s :=
  fun rounds depth => bind_of_none (h rounds depth)

------------------------------------------------------------
-- Sequencing
------------------------------------------------------------

theorem Ends.bind
    {a : α}
    {q : Except Value β}
    (hAct : Steady act)
    (hNext : ∀ a, Steady fun c => f c a)
    (h : Ends act s (.ok a) s₁)
    (h' : Ends (fun c => f c a) s₁ q s') :
    Ends (fun c => act c >>= f c) s q s' :=
  ((hAct.leads h).bind ((hNext a).leads h')).ends

theorem Ends.bind_error
    {e : Value}
    (h : Ends act s (.error e) s') :
    Ends (fun c => act c >>= f c) s (.error e) s' := by
  rcases h with ⟨rounds, depth, hRun⟩
  exact ⟨rounds, depth, bind_of_end hRun⟩

/- What ends with something after it ends without it. -/
theorem isSome_of_bind
    {first : Run α}
    {next : α → Run β}
    (h : ((first >>= next) s).isSome) :
    (first s).isSome := by
  cases hRun : first s with
  | none =>
      rw [bind_of_none hRun] at h
      cases h
  | some _ => rfl

theorem ends_of_eq
    (h : ∀ c, act c s = some (r, s')) :
    Ends act s r s' :=
  ⟨0, 0, h _⟩

------------------------------------------------------------
-- Turning to What Is Left
------------------------------------------------------------

/-
  What is left of a run, and where.  It ends as this does,
  and it takes some more depth, if it ends.
-/
structure TurnsTo
    (k : Nat)
    (act : Caller → Run α)
    (s : Session)
    (act₁ : Caller → Run α)
    (s₁ : Session) : Prop where
  deeper : ∀ rounds depth,
    (act (.ofDepth rounds depth) s).isSome →
      ∃ d, d + k ≤ depth ∧
        (act₁ (.ofDepth rounds d) s₁).isSome
  ends : ∀ r s', Ends act₁ s₁ r s' → Ends act s r s'

namespace TurnsTo

variable {k k' : Nat}

theorem of_eq
    (h : ∀ c, act c s = act₁ c s₁) :
    TurnsTo 0 act s act₁ s₁ where
  deeper rounds depth hSome :=
    ⟨depth, Nat.le_refl _, by rw [← h]; exact hSome⟩
  ends r s' := by
    rintro ⟨rounds, depth, hRun⟩
    exact ⟨rounds, depth, (h _).trans hRun⟩

theorem refl
    (act : Caller → Run α)
    (s : Session) :
    TurnsTo 0 act s act s :=
  .of_eq fun _ => rfl

theorem trans
    (h : TurnsTo k act s act₁ s₁)
    (h' : TurnsTo k' act₁ s₁ act₂ s₂) :
    TurnsTo (k + k') act s act₂ s₂ where
  deeper rounds depth hSome := by
    rcases h.deeper rounds depth hSome with ⟨d, hd, hSome⟩
    rcases h'.deeper rounds d hSome with ⟨d', hd', hSome⟩
    exact ⟨d', by omega, hSome⟩
  ends r s' hEnds := h.ends r s' (h'.ends r s' hEnds)

/- It is not said how much more depth it takes. -/
theorem mono
    (h : TurnsTo k act s act₁ s₁)
    (hk : k' ≤ k) :
    TurnsTo k' act s act₁ s₁ :=
  { h with
    deeper := fun rounds depth hSome => by
      rcases h.deeper rounds depth hSome with ⟨d, hd, hSome⟩
      exact ⟨d, by omega, hSome⟩ }

theorem never
    (h : TurnsTo k act s act₁ s₁)
    (hNever : Never act₁ s₁) :
    Never act s := by
  intro rounds depth
  cases hRun : act (.ofDepth rounds depth) s with
  | none => rfl
  | some out =>
      rcases h.deeper rounds depth (by rw [hRun]; rfl) with
        ⟨d, _, hSome⟩
      rw [hNever] at hSome
      cases hSome

/- What is done at once is taken off. -/
theorem step
    {first : Run β}
    {next : Caller → β → Run α}
    {b : β}
    (h : first s = some (.ok b, s₁)) :
    TurnsTo 0 (fun c => first >>= next c) s
      (fun c => next c b) s₁ :=
  .of_eq fun _ => bind_of_end h

/- So is what ends sooner or later. -/
theorem finished
    {a : α}
    (hAct : Steady act)
    (hNext : ∀ a, Steady fun c => f c a)
    (h : Ends act s (.ok a) s₁) :
    TurnsTo 0 (fun c => act c >>= f c) s (fun c => f c a) s₁ where
  deeper rounds depth hSome := by
    have hRun := hAct.end_of_isSome h (isSome_of_bind hSome)
    rw [bind_of_end hRun] at hSome
    exact ⟨depth, Nat.le_refl _, hSome⟩
  ends q s' hEnds := h.bind hAct hNext hEnds

/- What comes before something else may be turned. -/
theorem before
    (h : TurnsTo k act s act₁ s₁)
    (hAct : Steady act)
    (hAct₁ : Steady act₁)
    (hNext : ∀ a, Steady fun c => f c a) :
    TurnsTo 0 (fun c => act c >>= f c) s
      (fun c => act₁ c >>= f c) s₁ where
  deeper rounds depth hSome := by
    refine ⟨depth, Nat.le_refl _, ?_⟩
    rcases Option.isSome_iff_exists.mp (isSome_of_bind hSome) with
      ⟨⟨q, s'⟩, hRun⟩
    rcases h.deeper rounds depth (by rw [hRun]; rfl) with
      ⟨d, hd, hSome₁⟩
    rcases Option.isSome_iff_exists.mp hSome₁ with
      ⟨⟨q₁, s₁'⟩, hRun₁⟩
    rcases Ends.unique hAct ⟨rounds, depth, hRun⟩
      (h.ends _ _ ⟨rounds, d, hRun₁⟩) with ⟨rfl, rfl⟩
    have hWide := hAct₁ _ _ (.ofDepth (Nat.le_refl rounds)
      (show d ≤ depth by omega)) s₁ _ hRun₁
    rw [bind_of_end hRun] at hSome
    rw [bind_of_end hWide]
    exact hSome
  ends q s' := by
    rintro ⟨rounds, depth, hRun⟩
    dsimp only at hRun
    cases hFirst : act₁ (.ofDepth rounds depth) s₁ with
    | none =>
        rw [bind_of_none hFirst] at hRun
        cases hRun
    | some out =>
        rcases out with ⟨r, s₂⟩
        have hEnds := h.ends r s₂ ⟨rounds, depth, hFirst⟩
        rw [bind_of_end hFirst] at hRun
        cases r with
        | ok a => exact hEnds.bind hAct hNext ⟨rounds, depth, hRun⟩
        | error e =>
            cases hRun
            exact hEnds.bind_error

end TurnsTo

end Run

------------------------------------------------------------
-- Jumps
------------------------------------------------------------

namespace Label

open Run

variable {code : Closure}
variable {r : Except Value Value}

/- What a jump ends in, on a machine that may check it. -/
def Lands
    (m : Ref)
    (r : Except Value Value)
    (s' : Session) : Prop :=
  ∀ v, r = .ok v → v.isStep = false →
    (s'.machines.getD m default).assertions = false

theorem Steps.lands
    (h : Steps r) :
    Lands m r s' := by
  intro v hr hNot
  rw [h v hr] at hNot
  cases hNot

/- A jump lands, whatever it goes to. -/
theorem ensures_lands
    (c : Caller)
    (v : Value) :
    (jump c m v).Ensures s (Lands m) := by
  have hError : ∀ e s', Lands m (.error e) s' := nofun
  unfold jump
  refine Ensures.bind fun q s₁ _ => ?_
  cases q with
  | error e => exact hError e s₁
  | ok l =>
  refine Ensures.bind fun q s₁ _ => ?_
  cases q with
  | error e => exact hError e s₁
  | ok row =>
  change Ensures _ s₁ _
  cases row.code with
  | none =>
      intro r s' hRun
      rcases defect_eq (α := Value) (.uninstalledLabel row.id) s₁
        with ⟨e, _, hDefect⟩
      cases hDefect.symm.trans hRun
      exact hError _ _
  | some code =>
      refine Ensures.bind fun q s₂ _ => ?_
      cases q with
      | error e => exact hError e s₂
      | ok step =>
      intro r s' hRun
      change (if _ then _ else _ : Run Value) s₂ = _ at hRun
      split at hRun
      · rcases defect_eq (α := Value) (.malformedStep row.id step)
          (s₂.withIncident (.malformed row.id)) with
          ⟨e, _, hDefect⟩
        cases hDefect.symm.trans hRun
        exact hError _ _
      · rename_i hPasses
        cases hRun
        rintro _ ⟨⟩ hNot
        rw [hNot, Bool.not_false, Bool.and_true,
          Bool.not_eq_true] at hPasses
        exact hPasses

theorem lands_of_ends
    {v : Value}
    (h : Ends (fun c => jump c m v) s r s') :
    Lands m r s' := by
  rcases h with ⟨rounds, depth, hRun⟩
  exact ensures_lands _ v r s' hRun

/- What lands under a label ends the jump there. -/
theorem ends_jump
    (hBears : s.Bears m l (some code))
    (h : Ends (fun c => code.enter c []) s r s')
    (hLands : Lands m r s') :
    Ends (fun c => jump c m (.label l)) s r s' := by
  rcases ends_call_iff.mpr h with ⟨rounds, depth, hRun⟩
  rcases jump_eq hBears with ⟨id, hJump⟩
  refine ⟨rounds, depth, (hJump _).trans ?_⟩
  rw [bind_of_end hRun]
  cases r with
  | error e => rfl
  | ok step =>
      refine step_eq (a := s'.machines.getD m default) rfl ?_
      rw [if_neg]
      · rfl
      · intro hRefused
        rw [Bool.and_eq_true, Bool.not_eq_true'] at hRefused
        rw [hLands step rfl hRefused.2] at hRefused
        exact Bool.false_ne_true hRefused.1

/- A jump that ends has entered the code under its label. -/
theorem isSome_enter
    {rounds depth : Nat}
    (hBears : s.Bears m l (some code))
    (h : (jump (.ofDepth rounds depth) m (.label l) s).isSome) :
    ∃ d, d + 1 = depth ∧
      (code.enter (.ofDepth rounds d) [] s).isSome := by
  rcases jump_eq hBears with ⟨id, hJump⟩
  rw [hJump] at h
  have hCall := isSome_of_bind h
  cases depth with
  | zero => cases hCall
  | succ d => exact ⟨d, rfl, hCall⟩

theorem never_jump
    (hBears : s.Bears m l (some code))
    (h : Never (fun c => code.enter c []) s) :
    Never (fun c => jump c m (.label l)) s := by
  intro rounds depth
  refine Option.not_isSome_iff_eq_none.mp fun hSome => ?_
  rcases isSome_enter hBears hSome with ⟨d, _, hEnter⟩
  have hNone : code.enter (.ofDepth rounds d) [] s = none :=
    h rounds d
  rw [hNone] at hEnter
  cases hEnter

/- A jump turns to what lands under its label. -/
theorem turnsTo_jump
    {k : Nat}
    {act : Caller → Run Value}
    (hBears : s.Bears m l (some code))
    (h : TurnsTo k (fun c => code.enter c []) s act s₁)
    (hLands : ∀ r s', Ends act s₁ r s' → Lands m r s') :
    TurnsTo (k + 1) (fun c => jump c m (.label l)) s act s₁ where
  deeper rounds depth hSome := by
    rcases isSome_enter hBears hSome with ⟨d, rfl, hEnter⟩
    rcases h.deeper rounds d hEnter with ⟨d', hd', hSome⟩
    exact ⟨d', by omega, hSome⟩
  ends r s' hEnds :=
    ends_jump hBears (h.ends r s' hEnds) (hLands r s' hEnds)

end Label

end Resumption

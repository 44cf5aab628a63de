import Resumption.Proofs.Likeness.Units
import Resumption.Proofs.Routine.Loops

/-
  The flat loop is the plain one.

  The plain loop sequences every round with a jump back to its
  head, and takes none flat.  Where both loops are at their
  heads, in sessions that are alike, a round either comes to
  alike ends on both sides, or brings both back to their heads
  in alike sessions again; then the flat loop has fewer rounds
  left, or less depth, and the plain one less depth.

  Main declarations:
    * `Loop.plain`
    * `Loop.Abreast`, `Loop.Abreast.turn`
    * `Loop.flat_is_plain`
-/

namespace Resumption

open Run

variable {L : Likeness}
variable {s s₁ s₂ s' t t₁ t₂ : Session}
variable {m l F N : Ref}
variable {n k u : Nat}
variable {own own' : Set Spot}
variable {step step' v v' e e' : Value}

------------------------------------------------------------
-- Rounds of the Flat Loop
------------------------------------------------------------

namespace Loop

variable {condition body : Closure}

theorem steady_round
    (m F : Ref)
    (condition body : Closure) :
    Steady fun caller => round caller m F condition body :=
  fun _ _ hc => hc.round m F condition body

/- Rounds that end have begun with one that does. -/
theorem isSome_round
    {bound depth : Nat}
    (h : (rounds m F condition body u (.ofDepth bound depth)
      s).isSome) :
    u < bound ∧
      (round (.ofDepth bound depth) m F condition body s).isSome :=
    by
  rw [rounds, rounds_ofDepth] at h
  cases hLeft : bound - u with
  | zero =>
      rw [hLeft] at h
      cases h
  | succ left =>
      rw [hLeft] at h
      refine ⟨by omega, ?_⟩
      cases hRound : round (.ofDepth bound depth) m F condition
          body s with
      | none =>
          simp only [Run.iterate, hRound] at h
          cases h
      | some out => rfl

/- Its condition has ended by then. -/
theorem isSome_condition
    {bound depth : Nat}
    (h : (round (.ofDepth bound depth) m F condition body
      s).isSome) :
    ((Caller.ofDepth bound depth).call condition [] s).isSome :=
  isSome_of_bind h

/- And so has its body, if the condition holds. -/
theorem isSome_body
    {bound depth : Nat}
    (hCondition : Ends (fun c => c.call condition []) s (.ok v) s₁)
    (hTrue : v.truthy = true)
    (h : (round (.ofDepth bound depth) m F condition body
      s).isSome) :
    ((Caller.ofDepth bound depth).call body [] s₁).isSome := by
  have hRun := (steady_call condition []).end_of_isSome hCondition
    (isSome_condition h)
  rw [round, step_eq hRun rfl] at h
  simp only [hTrue, if_true] at h
  exact isSome_of_bind h

/- And so has the sequence, if the body has not finished. -/
theorem isSome_build
    {bound depth : Nat}
    (hCondition : Ends (fun c => c.call condition []) s (.ok v) s₁)
    (hTrue : v.truthy = true)
    (hBody : Ends (fun c => c.call body []) s₁ (.ok step) s₂)
    {view : StepView}
    (hStep : step.step? = some view)
    (hNot : ∀ w, view ≠ .finish w)
    (h : (round (.ofDepth bound depth) m F condition body
      s).isSome) :
    (Sequence.build (.ofDepth bound depth) (.machine m) step
      (.jump m F) s₂).isSome := by
  have hRun := (steady_call condition []).end_of_isSome hCondition
    (isSome_condition h)
  have hRun₁ := (steady_call body []).end_of_isSome hBody
    (isSome_body hCondition hTrue h)
  rw [round, step_eq hRun rfl] at h
  simp only [hTrue, if_true] at h
  rw [step_eq hRun₁ rfl] at h
  simp only [Setting.isMissing_of_step hStep, hStep,
    Bool.false_eq_true, if_false] at h
  cases view with
  | finish w => exact (hNot w rfl).elim
  | handOff f => exact isSome_of_bind h
  | suspend a l => exact isSome_of_bind h

theorem never_condition
    (h : Never (fun c => c.call condition []) s) :
    Never (rounds m F condition body u) s := by
  intro bound depth
  refine Option.not_isSome_iff_eq_none.mp fun hSome => ?_
  refine Option.not_isSome_iff_eq_none.mpr (h bound depth) ?_
  exact isSome_condition (isSome_round hSome).2

theorem never_body
    (hCondition : Ends (fun c => c.call condition []) s (.ok v) s₁)
    (hTrue : v.truthy = true)
    (h : Never (fun c => c.call body []) s₁) :
    Never (rounds m F condition body u) s := by
  intro bound depth
  refine Option.not_isSome_iff_eq_none.mp fun hSome => ?_
  refine Option.not_isSome_iff_eq_none.mpr (h bound depth) ?_
  exact isSome_body hCondition hTrue (isSome_round hSome).2

/- What the condition or the body throws ends the loop. -/
theorem ends_condition
    (h : Ends (fun c => c.call condition []) s (.error e) s₁) :
    Ends (rounds m F condition body u) s (.error e) s₁ :=
  (Leads.stop ((steady_call condition []).leads h).bind_error).ends

theorem ends_body
    (hCondition : Ends (fun c => c.call condition []) s (.ok v) s₁)
    (hTrue : v.truthy = true)
    (h : Ends (fun c => c.call body []) s₁ (.error e) s₂) :
    Ends (rounds m F condition body u) s (.error e) s₂ := by
  refine (Leads.stop
    (((steady_call condition []).leads hCondition).bind ?_)).ends
  simp only [hTrue, if_true]
  exact ((steady_call body []).leads h).bind_error

/- Once the condition fails to hold, there is nothing to do. -/
theorem ends_false
    (body : Closure)
    (hCondition : Ends (fun c => c.call condition []) s (.ok v) s₁)
    (hFalse : v.truthy = false) :
    ∃ step : Value, step.step? = some (.finish .undefined) ∧
      Ends (rounds m F condition body u) s (.ok step)
        s₁.stamped := by
  refine ⟨_, Value.step?_record_fields s₁.stamp _, (Leads.last
    (((steady_call condition []).leads hCondition).bind ?_)).ends⟩
  simp only [hFalse, Bool.false_eq_true, if_false]
  exact .of_eq fun _ => rfl

/- A round that has finished at once is followed by others. -/
theorem turnsTo_flat
    (hCondition : Ends (fun c => c.call condition []) s (.ok v) s₁)
    (hTrue : v.truthy = true)
    (hBody : Ends (fun c => c.call body []) s₁ (.ok step) s₂)
    {w : Value}
    (hStep : step.step? = some (.finish w)) :
    TurnsTo 0 (rounds m F condition body u) s
      (rounds m F condition body (u + 1)) s₂ := by
  have hSteady := steady_round m F condition body
  have hRound : Leads (fun c => round c m F condition body) s
      (.ok none) s₂ := leads_round_none
    ((steady_call condition []).leads hCondition) hTrue
    ((steady_call body []).leads hBody) hStep
  constructor
  · intro bound depth hSome
    rcases isSome_round hSome with ⟨hUsed, hOne⟩
    have hRun := hSteady.end_of_isSome hRound.ends hOne
    refine ⟨depth, Nat.le_refl _, ?_⟩
    have hLeft : bound - u = bound - (u + 1) + 1 := by
      omega
    rw [rounds, rounds_ofDepth, hLeft] at hSome
    simp only [Run.iterate, hRun] at hSome
    rw [rounds, rounds_ofDepth]
    exact hSome
  · intro r s' hEnds
    have hRest : Steady (rounds m F condition body (u + 1)) :=
      fun _ _ hc => (hSteady _ _ hc).iterate
        (Nat.sub_le_sub_right hc.rounds _)
    exact (Leads.again hRound (hRest.leads hEnds)).ends

/- One that has not is sequenced with a jump to the head. -/
theorem turnsTo_build
    (hCondition : Ends (fun c => c.call condition []) s (.ok v) s₁)
    (hTrue : v.truthy = true)
    (hBody : Ends (fun c => c.call body []) s₁ (.ok step) s₂)
    {view : StepView}
    (hStep : step.step? = some view)
    (hNot : ∀ w, view ≠ .finish w) :
    TurnsTo 0 (rounds m F condition body u) s
      (fun c => Sequence.build c (.machine m) step (.jump m F))
      s₂ where
  deeper bound depth hSome :=
    ⟨depth, Nat.le_refl _, isSome_build hCondition hTrue hBody
      hStep hNot (isSome_round hSome).2⟩
  ends r s' hEnds := by
    have hBuild := (Sequence.Frame.steady_opening (m := m)
      (.jump m F) step).leads hEnds
    exact (Leads.once (leads_round_some
      ((steady_call condition []).leads hCondition) hTrue
      ((steady_call body []).leads hBody) hStep hNot hBuild)).ends

------------------------------------------------------------
-- The Plain Loop
------------------------------------------------------------

/- The head of a loop that takes no round flat. -/
def plainHead
    (m : Ref)
    (condition body : Code)
    (entry : Value) : Program :=
  (condition []).bind fun v =>
    if v.truthy then
      (body []).andThen m fun _ =>
        .request (.jump (.machine m) entry)
    else
      .zero

/- Run a body while a condition holds, but never flat. -/
def plain
    (m : Ref)
    (condition body : Code) : Program :=
  .perform (.allocate (.machine m)) fun entry =>
    .perform
      (.replace (.machine m) entry fun _ =>
        plainHead m condition body entry) fun _ =>
      .request (.jump (.machine m) entry)

/- What goes back to the head of the plain loop. -/
def goBack (m N : Ref) : Code :=
  fun _ => .request (.jump (.machine m) (.label N))

/- What is under the label at the head of the plain loop. -/
def plainEntry
    (m N : Ref)
    (condition body : Code) : Closure :=
  .client fun _ => plainHead m condition body (.label N)

/- What is under the label at the head of the flat loop. -/
def flatEntry
    (m F : Ref)
    (condition body : Code) : Closure :=
  .loopHead m F (.client condition) (.client body)

variable {c b : Code}

/- Client code may ask for a jump. -/
theorem run_goBack
    (m N : Ref)
    (caller : Caller) :
    (goBack m N []).run caller =
      Label.jump caller m (.label N) := by
  have hMachine : Label.machineOf (.machine m) =
      (return m : Run Ref) := rfl
  simp only [goBack, Program.request, Program.run,
    Request.perform, hMachine, pure_bind]
  exact bind_pure _

theorem turnsTo_goBack
    (hBears : t.Bears m l (some (.client (goBack m N)))) :
    TurnsTo 1 (fun c => Label.jump c m (.label l)) t
      (fun c => Label.jump c m (.label N)) (calling t) :=
  Label.turnsTo_jump hBears
    ((Likeness.turnsTo_client (goBack m N) t).trans
      (.of_eq fun caller => congrFun (run_goBack m N caller) _))
    fun _ _ => Label.lands_of_ends

/- The library's own code goes back to the head, too. -/
theorem turnsTo_back
    (hBears : s.Bears m l (some (.jump m F))) :
    TurnsTo 1 (fun c => Label.jump c m (.label l)) s
      (fun c => Label.jump c m (.label F)) s :=
  Label.turnsTo_jump hBears (.of_eq fun _ => rfl)
    fun _ _ => Label.lands_of_ends

theorem turnsTo_call_client
    (code : Code)
    (s : Session) :
    TurnsTo 1 (fun caller => caller.call (.client code) []) s
      (fun caller => (code []).run caller) (calling s) :=
  (turnsTo_call _ [] s).trans (Likeness.turnsTo_client code s)

/- The condition comes first. -/
theorem turnsTo_plain
    (m N : Ref)
    (c b : Code)
    (t : Session) :
    TurnsTo 0 (fun caller => (plainEntry m N c b).enter caller [])
      t
      (fun caller => (c []).run caller >>= fun v =>
        (if v.truthy then (b []).andThen m (goBack m N)
          else .zero : Program).run caller) (calling t) :=
  (Likeness.turnsTo_client _ t).trans (.of_eq fun caller =>
    congrFun (Program.run_bind _ _ caller) _)

theorem turnsTo_plain_true
    (hCondition : Ends (fun caller => (c []).run caller)
      (calling t) (.ok v) t₁)
    (hTrue : v.truthy = true) :
    TurnsTo 0 (fun caller => (plainEntry m N c b).enter caller [])
      t
      (fun caller => (b []).run caller >>= fun step =>
        Sequence.build caller (.machine m) step
          (.client (goBack m N))) t₁ := by
  have hTurns := (turnsTo_plain m N c b t).trans
    (.finished (steady_program (c []))
      (fun _ => steady_program _) hCondition)
  simp only [hTrue, if_true, Program.run_andThen] at hTurns
  exact hTurns

theorem ends_plain_false
    (hCondition : Ends (fun caller => (c []).run caller)
      (calling t) (.ok v) t₁)
    (hFalse : v.truthy = false) :
    ∃ step : Value, step.step? = some (.finish .undefined) ∧
      Ends (fun caller => (plainEntry m N c b).enter caller []) t
        (.ok step) t₁.stamped := by
  have hTurns := (turnsTo_plain m N c b t).trans
    (.finished (steady_program (c []))
      (fun _ => steady_program _) hCondition)
  simp only [hFalse, Bool.false_eq_true, if_false] at hTurns
  rcases Program.run_stepping (.finish .undefined) t₁ with
    ⟨step, hStep, hZero⟩
  exact ⟨step, hStep, hTurns.ends _ _ (ends_of_eq hZero)⟩

------------------------------------------------------------
-- Loops Abreast
------------------------------------------------------------

/- Both loops are at their heads, in sessions that are alike. -/
structure Abreast
    (L : Likeness)
    (m F N : Ref)
    (c b : Code)
    (own own' : Set Spot)
    (s t : Session) : Prop where
  flat : s.Bears m F (some (flatEntry m F c b))
  plain : t.Bears m N (some (plainEntry m N c b))
  free : Disjoint own {.label F}
  free' : Disjoint own' {.label N}
  alike : L.alike ⟨s, own ∪ {.label F}⟩ ⟨t, own' ∪ {.label N}⟩

/- Loops that are abreast are alike, wherever they are. -/
def Heads
    (L : Likeness)
    (m F N : Ref)
    (c b : Code)
    (k : Nat) : Prop :=
  ∀ own own' s t, Abreast L m F N c b own own' s t →
    L.Alike m k own own'
      (fun caller => Label.jump caller m (.label F)) s
      (fun caller => Label.jump caller m (.label N)) t

/-
  Both loops come back to their heads, with fewer rounds left,
  or less depth.
-/
def GoOn
    (L : Likeness)
    (m F N : Ref)
    (c b : Code)
    (u : Nat)
    (own own' : Set Spot)
    (s t : Session) : Prop :=
  ∃ s₁ t₁, Abreast L m F N c b own own' s₁ t₁ ∧
    s.Leaves own s₁ ∧ t.Leaves own' t₁ ∧
    (TurnsTo 0 (rounds m F (.client c) (.client b) u) s
        (rounds m F (.client c) (.client b) (u + 1)) s₁ ∨
      TurnsTo 1 (rounds m F (.client c) (.client b) u) s
        (fun caller => Label.jump caller m (.label F)) s₁) ∧
    TurnsTo 1 (fun caller => Label.jump caller m (.label N)) t
      (fun caller => Label.jump caller m (.label N)) t₁

namespace Abreast

variable {S T : Sequence.Site}

theorem later
    (h : Abreast L m F N c b own own' s t)
    (hLeaves : s.Leaves (own ∪ {.label F}) s₁)
    (hLeaves' : t.Leaves (own' ∪ {.label N}) t₁)
    (hAlike : L.alike ⟨s₁, own ∪ {.label F}⟩
      ⟨t₁, own' ∪ {.label N}⟩) :
    Abreast L m F N c b own own' s₁ t₁ where
  flat := hLeaves _ (.inr rfl) _ _ h.flat
  plain := hLeaves' _ (.inr rfl) _ _ h.plain
  free := h.free
  free' := h.free'
  alike := hAlike

/- What follows upon the sequences of a round is abreast. -/
theorem of_lined
    (h : Sequence.Lined L m .bare
      (S.returning F (flatEntry m F c b))
      (T.returning N (plainEntry m N c b)) own own' s t) :
    Abreast L m F N c b own own' s (calling t) := by
  rcases h.left with ⟨_, hAt⟩
  rcases h.right with ⟨_, hAt'⟩
  have hFree := h.free
  have hFree' := h.free'
  have hAlike := h.alike
  rw [Sequence.Place.spots_returning] at hFree hFree' hAlike
  rw [Sequence.Place.spots_returning] at hAlike
  rw [Set.disjoint_union_right, Set.disjoint_union_right] at hFree
  rw [Set.disjoint_union_right] at hFree'
  exact
    { flat := hAt.back _ rfl
      plain := hAt'.back _ rfl
      free := hFree.2.1
      free' := hFree'.1
      alike := L.right (L.alike_less hAlike
        (Set.union_subset_union_right own
          (Set.subset_union_left.trans Set.subset_union_right))
        (Set.union_subset_union_right own' Set.subset_union_left))
        (.calling t _) }

/- There both loops go on, after fewer resumptions. -/
theorem goes
    (hLeft : S.code = .jump m F)
    (hRight : T.code = .client (goBack m N))
    (hHeads : Heads L m F N c b k) :
    Sequence.Lined.Goes L m none
      (S.returning F (flatEntry m F c b))
      (T.returning N (plainEntry m N c b)) k := by
  intro φ own own' s t hRest h
  cases φ with
  | opening rest => cases hRest
  | within J => cases hRest
  | bare =>
  rcases h.left with ⟨_, hAt⟩
  rcases h.right with ⟨_, hAt'⟩
  have hBears : s.Bears m S.rest (some S.code) := hAt.rest
  have hBears' : t.Bears m T.rest (some T.code) := hAt'.rest
  rw [hLeft] at hBears
  rw [hRight] at hBears'
  exact (hHeads own own' s (calling t) (.of_lined h)).of_turns
    (turnsTo_back hBears) (turnsTo_goBack hBears')
    (.refl s own) (.refl t own')

------------------------------------------------------------
-- One Round on Both Sides
------------------------------------------------------------

section Turns

variable
  (h : Abreast L m F N c b own own' s t)
  (hCondition : Ends (fun caller => caller.call (.client c) [])
    s (.ok v) s₁)
  (hTrue : v.truthy = true)
  (hBody : Ends (fun caller => caller.call (.client b) [])
    s₁ (.ok step) s₂)
  (hPlain : TurnsTo 0
    (fun caller => (plainEntry m N c b).enter caller []) t
    (fun caller => Sequence.build caller (.machine m) step'
      (.client (goBack m N))) t₂)
  (hLeaves : s.Leaves (own ∪ {.label F}) s₂)
  (hLeaves' : t.Leaves (own' ∪ {.label N}) t₂)

include h hCondition hTrue hBody hPlain hLeaves hLeaves'

/- A round that has finished at once brings both loops back. -/
theorem goOn_finished
    {w w' : Value}
    (hStep : step.step? = some (.finish w))
    (hStep' : step'.step? = some (.finish w'))
    (hAlike : L.alike ⟨s₂, own ∪ {.label F}⟩
      ⟨t₂, own' ∪ {.label N}⟩) :
    GoOn L m F N c b u own own' s t := by
  have hLater := h.later hLeaves hLeaves' hAlike
  have hm := hLater.plain.lt_machines
  have hBooks := Sequence.books_withSequence t₂ m step'
    (.client (goBack m N))
  have hKept := hBooks.leaves _ (Set.disjoint_empty _)
    (L.sound hAlike).2
  have hAt := Sequence.at_withSequence hm step'
    (.client (goBack m N))
  have hAlike₁ := L.right_writes
    (L.alike_less hAlike subset_rfl (Set.union_empty _).subset)
    (hBooks.writes _)
  have hBack := ((hPlain.trans (.of_eq fun caller =>
    Sequence.build_eq caller hm step' _)).trans
      (hAt.turnsTo_rest hStep')).trans (turnsTo_goBack hAt.rest)
  have hAbreast : Abreast L m F N c b own own' s₂ (calling
      (t₂.withSequence m step' (.client (goBack m N)))) :=
    hLater.later (.refl _ _) hKept
      (L.right (L.alike_less hAlike₁ subset_rfl
        Set.subset_union_left) (.calling _ _))
  refine ⟨s₂, _, hAbreast, hLeaves.mono Set.subset_union_left,
    (hLeaves'.trans hKept).mono Set.subset_union_left,
    .inl (turnsTo_flat hCondition hTrue hBody hStep), ?_⟩
  exact (Label.turnsTo_jump h.plain hBack
    fun _ _ => Label.lands_of_ends).mono (by omega)

/- One that has not is sequenced on both sides. -/
theorem turn_sequenced
    {view : StepView}
    (hStep : step.step? = some view)
    (hNot : ∀ w, view ≠ .finish w)
    (hMeets : L.Meets (L.Resumes m n) (own ∪ {.label F})
      (own' ∪ {.label N}) (.ok step) s₂ (.ok step') t₂)
    (hHeads : ∀ k < n, Heads L m F N c b k) :
    L.Alike m n own own'
        (rounds m F (.client c) (.client b) u) s
        (fun caller => Label.jump caller m (.label N)) t ∨
      GoOn L m F N c b u own own' s t := by
  have hLater := h.later hLeaves hLeaves' hMeets.alike
  have hm := hLater.flat.lt_machines
  have hm' := hLater.plain.lt_machines
  have hBooks := (Sequence.books_withSequence s₂ m step
    (.jump m F)).frame {.label F}
  have hBooks' := (Sequence.books_withSequence t₂ m step'
    (.client (goBack m N))).frame {.label N}
  rw [Set.union_empty, ← Sequence.Place.spots_returning _ F
    (flatEntry m F c b)] at hBooks
  rw [Set.union_empty, ← Sequence.Place.spots_returning _ N
    (plainEntry m N c b)] at hBooks'
  have hBears := (Sequence.books_withSequence s₂ m step
    (.jump m F)).leaves _ (Set.disjoint_empty {.label F})
      (fun x hx => (L.sound hMeets.alike).1 x (.inr hx))
        _ rfl _ _ hLater.flat
  have hBears' := (Sequence.books_withSequence t₂ m step'
    (.client (goBack m N))).leaves _
      (Set.disjoint_empty {.label N})
      (fun x hx => (L.sound hMeets.alike).2 x (.inr hx))
        _ rfl _ _ hLater.plain
  have hAt := (Sequence.at_withSequence hm step
    (.jump m F)).returning hBears
  have hAt' := (Sequence.at_withSequence hm' step'
    (.client (goBack m N))).returning hBears'
  rcases Sequence.Lined.fresh (φ := .bare) rfl trivial hAt hAt'
    hBooks hBooks' h.free h.free' hMeets with
    ⟨hLined, hMet, hKept, hKept'⟩
  have hTurns := (turnsTo_build (u := u) hCondition hTrue
    hBody hStep hNot).trans (.of_eq fun caller =>
      Sequence.build_eq caller hm step (.jump m F))
  have hTurns' := hPlain.trans (.of_eq fun caller =>
    Sequence.build_eq caller hm' step' (.client (goBack m N)))
  have hBefore := (hLeaves.mono Set.subset_union_left).trans hKept
  have hBefore' :=
    (hLeaves'.mono Set.subset_union_left).trans hKept'
  rcases hLined.enters hAt hAt' hMet fun k hk =>
    goes rfl rfl (hHeads k hk) with hPasses | hAlike
  · right
    rcases hPasses with ⟨s₄, t₄, hLined₄, hEntry, hEntry', hAfter,
      hAfter'⟩
    rcases hLined₄.left with ⟨_, hAt₄⟩
    rcases hLined₄.right with ⟨_, hAt₄'⟩
    have hBack := (hTurns.trans hEntry).trans
      (turnsTo_back hAt₄.rest)
    have hBack' := (hTurns'.trans hEntry').trans
      (turnsTo_goBack hAt₄'.rest)
    refine ⟨s₄, calling t₄, of_lined hLined₄,
      hBefore.trans (hAfter.mono Set.subset_union_left),
      hBefore'.trans (hAfter'.mono Set.subset_union_left),
      .inr (hBack.mono (by omega)), ?_⟩
    exact (Label.turnsTo_jump h.plain hBack'
      fun _ _ => Label.lands_of_ends).mono (by omega)
  · left
    exact (hAlike.of_turns hTurns hTurns' hBefore
      hBefore').jump_right h.plain

end Turns

/- Once the condition holds, the bodies are alike. -/
theorem turn_body
    (h : Abreast L m F N c b own own' s t)
    (hBlind : L.Blind m (b []))
    (hHeads : ∀ k < n, Heads L m F N c b k)
    (hCondition : Ends (fun caller => (c []).run caller)
      (calling s) (.ok v) s₁)
    (hCondition' : Ends (fun caller => (c []).run caller)
      (calling t) (.ok v') t₁)
    (hTrue : v.truthy = true)
    (hTrue' : v'.truthy = true)
    (hLeaves : s.Leaves (own ∪ {.label F}) s₁)
    (hLeaves' : t.Leaves (own' ∪ {.label N}) t₁)
    (hAlike : L.alike ⟨s₁, own ∪ {.label F}⟩
      ⟨t₁, own' ∪ {.label N}⟩) :
    L.Alike m n own own'
        (rounds m F (.client c) (.client b) u) s
        (fun caller => Label.jump caller m (.label N)) t ∨
      GoOn L m F N c b u own own' s t := by
  have hCalled := (turnsTo_call_client c s).ends _ _ hCondition
  have hPlain := turnsTo_plain_true (m := m) (N := N) (b := b)
    hCondition' hTrue'
  cases hBlind n _ _ _ _ (L.left hAlike (.calling s₁ _)) with
  | never hNever hNever' =>
      exact .inl (.never
        (never_body hCalled hTrue
          ((turnsTo_call_client b s₁).never hNever))
        (Label.never_jump h.plain (hPlain.never hNever'.bind)))
  | @ends r s₂ r' t₂ hEnds hEnds' hAfter hAfter' hMeets =>
  have hBody := (turnsTo_call_client b s₁).ends _ _ hEnds
  have hLeaves₂ : s.Leaves (own ∪ {.label F}) s₂ :=
    hLeaves.trans hAfter
  have hLeaves₂' := hLeaves'.trans hAfter'
  rcases r with e | y <;> rcases r' with e' | y'
  · cases hMeets with
    | throws hSame hAlike₂ =>
    exact .inl (.ends (ends_body hCalled hTrue hBody)
      (Label.ends_jump h.plain
        (hPlain.ends _ _ hEnds'.bind_error) nofun)
      (hLeaves₂.mono Set.subset_union_left)
      (hLeaves₂'.mono Set.subset_union_left)
      (.throws hSame (L.alike_less hAlike₂ Set.subset_union_left
        Set.subset_union_left)))
  · cases hMeets
  · cases hMeets
  · have hBuilt := hPlain.trans (.finished (steady_program (b []))
      (fun step => Sequence.Frame.steady_opening (m := m)
        (.client (goBack m N)) step) hEnds')
    rcases Option.isSome_iff_exists.mp (hMeets.steps.1 y rfl)
      with ⟨view, hView⟩
    by_cases hFinish : ∃ w, view = .finish w
    · rcases hFinish with ⟨w, rfl⟩
      rcases hMeets.finishes hView with ⟨w', hView'⟩
      exact .inr (h.goOn_finished hCalled hTrue hBody hBuilt
        hLeaves₂ hLeaves₂' hView hView' hMeets.alike)
    · exact h.turn_sequenced hCalled hTrue hBody hBuilt hLeaves₂
        hLeaves₂' hView (fun w hw => hFinish ⟨w, hw⟩) hMeets
        hHeads

/-
  One round: both loops come to alike ends, or both come back
  to their heads.
-/
theorem turn
    (h : Abreast L m F N c b own own' s t)
    (hTelling : L.Telling (c []))
    (hBlind : L.Blind m (b []))
    (hHeads : ∀ k < n, Heads L m F N c b k) :
    L.Alike m n own own'
        (rounds m F (.client c) (.client b) u) s
        (fun caller => Label.jump caller m (.label N)) t ∨
      GoOn L m F N c b u own own' s t := by
  have hCalled := L.right (L.left h.alike (.calling s _))
    (.calling t _)
  have hFlat := turnsTo_call_client c s
  have hPlain := turnsTo_plain m N c b t
  cases hTelling _ _ _ _ hCalled with
  | never hNever hNever' =>
      exact .inl (.never (never_condition (hFlat.never hNever))
        (Label.never_jump h.plain (hPlain.never hNever'.bind)))
  | @ends r s₁ r' t₁ hEnds hEnds' hLeaves hLeaves' hPost =>
  rcases hPost with ⟨hAnswers, hAlike⟩
  have hKept : s.Leaves own s₁ :=
    hLeaves.mono Set.subset_union_left
  have hKept' : t.Leaves own' t₁ :=
    hLeaves'.mono Set.subset_union_left
  have hLess := L.alike_less hAlike
    (Set.subset_union_left : own ⊆ _)
    (Set.subset_union_left : own' ⊆ _)
  rcases r with e | v <;> rcases r' with e' | v'
  · exact .inl (.ends (ends_condition (hFlat.ends _ _ hEnds))
      (Label.ends_jump h.plain
        (hPlain.ends _ _ hEnds'.bind_error) nofun)
      hKept hKept' (.throws hAnswers hLess))
  · exact hAnswers.elim
  · exact hAnswers.elim
  · have hTruthy : v'.truthy = v.truthy := L.truthy hAnswers
    cases hTrue : v.truthy with
    | true =>
        exact h.turn_body hBlind hHeads hEnds hEnds' hTrue
          (hTruthy.trans hTrue) hLeaves hLeaves' hAlike
    | false =>
        rcases ends_false (m := m) (F := F) (u := u) (.client b)
          (hFlat.ends _ _ hEnds) hTrue with
          ⟨step, hStep, hEnd⟩
        rcases ends_plain_false (m := m) (N := N) (b := b)
          hEnds' (hTruthy.trans hTrue) with
          ⟨step', hStep', hEnd'⟩
        exact .inl (.ends hEnd
          (Label.ends_jump h.plain hEnd'
            (Setting.steps_of_step hStep').lands)
          (hKept.trans ((Session.Books.stamped s₁).leaves own
            (Set.disjoint_empty _) (L.sound hLess).1))
          (hKept'.trans ((Session.Books.stamped t₁).leaves own'
            (Set.disjoint_empty _) (L.sound hLess).2))
          (.returns hStep hStep' L.undefined
            (L.right (L.left hLess (.stamped s₁ own))
              (.stamped t₁ own'))))

------------------------------------------------------------
-- All Rounds
------------------------------------------------------------

section Runs

variable
  (hTelling : L.Telling (c []))
  (hBlind : L.Blind m (b []))
  (hHeads : ∀ k < n, Heads L m F N c b k)

include hTelling hBlind hHeads

/- If the flat loop ends, both are alike. -/
theorem alike_of_flat
    {u bound depth : Nat}
    {s t : Session}
    (h : Abreast L m F N c b own own' s t)
    (hSome : (rounds m F (.client c) (.client b) u
      (.ofDepth bound depth) s).isSome) :
    L.Alike m n own own'
      (rounds m F (.client c) (.client b) u) s
      (fun caller => Label.jump caller m (.label N)) t := by
  rcases h.turn (u := u) hTelling hBlind hHeads with
    hAlike | ⟨s₁, t₁, hNext, hLeaves, hLeaves', hFlat | hBack,
      hPlain⟩
  · exact hAlike
  · rcases hFlat.deeper bound depth hSome with ⟨d, hd, hSome₁⟩
    have hUsed := (isSome_round hSome).1
    exact (alike_of_flat hNext hSome₁).of_turns hFlat hPlain
      hLeaves hLeaves'
  · rcases hBack.deeper bound depth hSome with ⟨d, hd, hSome₁⟩
    rcases Label.isSome_enter hNext.flat hSome₁ with
      ⟨d', rfl, hHead⟩
    have hHead : (rounds m F (.client c) (.client b) 0
      (.ofDepth bound d') s₁).isSome := hHead
    have hAgain := alike_of_flat hNext hHead
    exact (Likeness.Alike.jump_left hAgain hNext.flat).of_turns
      hBack hPlain hLeaves hLeaves'
termination_by (depth, bound - u)
decreasing_by
  · exact Prod.lex_def.mpr (by dsimp only; omega)
  · exact Prod.lex_def.mpr (by dsimp only; omega)

/- So they are if the plain loop ends. -/
theorem alike_of_plain
    {u bound depth : Nat}
    {s t : Session}
    (h : Abreast L m F N c b own own' s t)
    (hSome : (Label.jump (.ofDepth bound depth) m (.label N)
      t).isSome) :
    L.Alike m n own own'
      (rounds m F (.client c) (.client b) u) s
      (fun caller => Label.jump caller m (.label N)) t := by
  rcases h.turn (u := u) hTelling hBlind hHeads with
    hAlike | ⟨s₁, t₁, hNext, hLeaves, hLeaves', hFlat, hPlain⟩
  · exact hAlike
  · rcases hPlain.deeper bound depth hSome with ⟨d, hd, hSome₁⟩
    rcases hFlat with hFlat | hBack
    · exact (alike_of_plain hNext hSome₁).of_turns hFlat hPlain
        hLeaves hLeaves'
    · have hAgain := alike_of_plain (u := 0) hNext hSome₁
      exact (Likeness.Alike.jump_left hAgain hNext.flat).of_turns
        hBack hPlain hLeaves hLeaves'
termination_by depth

end Runs

/- Loops that are abreast are alike. -/
theorem heads
    (hTelling : L.Telling (c []))
    (hBlind : L.Blind m (b []))
    (n : Nat) :
    Heads L m F N c b n := by
  induction n using Nat.strong_induction_on with
  | _ n ih =>
  intro own own' s t h
  have hAlike : L.Alike m n own own'
      (rounds m F (.client c) (.client b) 0) s
      (fun caller => Label.jump caller m (.label N)) t := by
    by_cases hFlat : ∃ bound depth,
        (rounds m F (.client c) (.client b) 0
          (.ofDepth bound depth) s).isSome
    · rcases hFlat with ⟨bound, depth, hSome⟩
      exact alike_of_flat hTelling hBlind ih h hSome
    by_cases hPlain : ∃ bound depth,
        (Label.jump (.ofDepth bound depth) m (.label N) t).isSome
    · rcases hPlain with ⟨bound, depth, hSome⟩
      exact alike_of_plain hTelling hBlind ih h hSome
    -- Neither loop ever ends.
    refine .never (fun bound depth => ?_) fun bound depth => ?_
    · exact Option.not_isSome_iff_eq_none.mp fun hSome =>
        hFlat ⟨bound, depth, hSome⟩
    · exact Option.not_isSome_iff_eq_none.mp fun hSome =>
        hPlain ⟨bound, depth, hSome⟩
  have hEntry : L.Alike m n own own'
      (fun caller => (flatEntry m F c b).enter caller []) s
      (fun caller => Label.jump caller m (.label N)) t := hAlike
  exact hEntry.jump_left h.flat

end Abreast

end Loop

------------------------------------------------------------
-- Entering the Loops
------------------------------------------------------------

/- A run that is done at once answers with nothing, quietly. -/
theorem Run.quietly_eq
    {α : Type}
    {act : Run α}
    {a : α}
    (h : act s = some (.ok a, s₁)) :
    Run.quietly act s = some (.ok .undefined, s₁) :=
  step_eq (a := PUnit.unit) (step_eq h rfl) rfl

/- A session with a label whose code may name it. -/
def Session.withHead
    (s : Session)
    (m : Ref)
    (code : Closure) : Session :=
  (s.withLabel m none).relabelled s.labels.size code

theorem Session.bears_withHead
    (hm : m < s.machines.size)
    (code : Closure) :
    (s.withHead m code).Bears m s.labels.size (some code) :=
  (s.bears_withLabel hm none).relabelled code

theorem Session.Books.withHead
    (s : Session)
    (m : Ref)
    (code : Closure) :
    Books ∅ s {.label s.labels.size} (s.withHead m code) :=
  (Books.withLabel s m none).trans (.relabelled _ _ code)

namespace Loop

variable {c b : Code}

theorem run_flat
    (hm : m < s.machines.size)
    (c b : Code)
    (caller : Caller) :
    (Program.request (.whileLoop (.machine m) c b)).run
        caller s =
      Label.jump caller m (.label s.labels.size)
        (s.withHead m (flatEntry m s.labels.size c b)) := by
  have hMachine : Builder.machineOf (.machine m) =
      (return .machine m : Run Value) := rfl
  have hRun : (Program.request (.whileLoop (.machine m) c b)).run
      caller = build caller (.machine m) (.client c)
        (.client b) := by
    simp only [Program.request, Program.run, Request.perform,
      hMachine, pure_bind]
    exact bind_pure _
  rw [hRun]
  exact step_eq (a := m) rfl (step_eq (Label.allocate_eq m s)
    (step_eq (Label.replace_eq (s.bears_withLabel hm none) _)
      rfl))

theorem run_plain
    (hm : m < s.machines.size)
    (c b : Code)
    (caller : Caller) :
    (plain m c b).run caller s =
      Label.jump caller m (.label s.labels.size)
        (s.withHead m (plainEntry m s.labels.size c b)) := by
  have hAllocate : Request.perform caller (.allocate (.machine m))
      s = some (.ok (.label s.labels.size), s.withLabel m none) :=
    rfl
  have hReplace : Request.perform caller
      (.replace (.machine m) (.label s.labels.size) fun _ =>
        plainHead m c b (.label s.labels.size))
      (s.withLabel m none) = some (.ok .undefined,
        s.withHead m (plainEntry m s.labels.size c b)) := by
    exact step_eq (a := m) rfl
      (quietly_eq (Label.replace_eq (s.bears_withLabel hm none) _))
  rw [plain, Program.run, step_eq hAllocate rfl, Program.run,
    step_eq hReplace rfl]
  exact congrFun (run_goBack m s.labels.size caller) _

/-
  Asking for a loop, and asking for one whose rounds are all
  sequenced, is alike.
-/
theorem alike_plain
    (hm : m < s.machines.size)
    (hm' : m < t.machines.size)
    (hTelling : L.Telling (c []))
    (hBlind : L.Blind m (b []))
    (h : L.alike ⟨s, own⟩ ⟨t, own'⟩) :
    L.Alike m n own own'
      (fun caller => (Program.request
        (.whileLoop (.machine m) c b)).run caller) s
      (fun caller => (plain m c b).run caller) t := by
  have hBooks := Session.Books.withHead s m
    (flatEntry m s.labels.size c b)
  have hBooks' := Session.Books.withHead t m
    (plainEntry m t.labels.size c b)
  have hSound := L.sound h
  rw [← Set.union_empty own, ← Set.union_empty own'] at h
  have hAbreast : Abreast L m s.labels.size t.labels.size c b
      own own' _ _ :=
    { flat := Session.bears_withHead hm _
      plain := Session.bears_withHead hm' _
      free := hBooks.apart own (Set.disjoint_empty _) hSound.1
      free' := hBooks'.apart own' (Set.disjoint_empty _) hSound.2
      alike := L.right_writes (L.left_writes h (hBooks.writes own))
        (hBooks'.writes own') }
  exact (Abreast.heads hTelling hBlind n own own' _ _
    hAbreast).of_turns (.of_eq (run_flat hm c b))
      (.of_eq (run_plain hm' c b))
      (hBooks.leaves own (Set.disjoint_empty _) hSound.1)
      (hBooks'.leaves own' (Set.disjoint_empty _) hSound.2)

/-
  The flat loop is alike to the plain one; and so it is if
  both log that the condition or the body is called, so that
  these are called as often, and in the same order.
-/
theorem flat_is_plain
    (hm : m < s.machines.size)
    (hm' : m < t.machines.size)
    (hLogs : L.Logs)
    (hTelling : L.Telling (c []))
    (hBlind : L.Blind m (b []))
    (h : L.alike ⟨s, own⟩ ⟨t, own'⟩) :
    ∀ n,
      L.Alike m n own own'
        (fun caller => (Program.request
          (.whileLoop (.machine m) c b)).run caller) s
        (fun caller => (plain m c b).run caller) t ∧
      ∀ x y,
        L.Alike m n own own'
          (fun caller => (Program.request
            (.whileLoop (.machine m)
              (fun args => (c args).reporting x)
              fun args => (b args).reporting y)).run caller) s
          (fun caller => (plain m
            (fun args => (c args).reporting x)
            fun args => (b args).reporting y).run caller) t :=
  fun _ => ⟨alike_plain hm hm' hTelling hBlind h, fun x y =>
    alike_plain hm hm' (hTelling.reporting hLogs x)
      (hBlind.reporting hLogs y) h⟩

------------------------------------------------------------
-- A Round that Suspends
------------------------------------------------------------

/- A session with a pending future, and a global that holds. -/
private def pressing : Session :=
  { Session.empty with
    machines := #[⟨#[], true⟩]
    globals := [("more", .bool true)]
    futures := #[default] }

/- Is there more to do? -/
private def asking : Code :=
  fun _ => .request (.readGlobal (.str "more"))

/- There is no more, once the future has settled. -/
private def handing : Code :=
  fun _ => (Program.stepping (.handOff (.future 0))).setting
    "more" (.bool false)

/- The one round suspends, and then there is no other. -/
theorem flat_is_plain_pressing :
    Likeness.overt.Alike 0 2 ∅ ∅
      (fun caller => (Program.request
        (.whileLoop (.machine 0) asking handing)).run caller)
      pressing
      (fun caller => (plain 0 asking handing).run caller)
      pressing ∧
    Likeness.overt.Alike 0 2 ∅ ∅
      (fun caller => (Program.request
        (.whileLoop (.machine 0)
          (fun args => (asking args).reporting "asked")
          fun args => (handing args).reporting "gone")).run
            caller)
      pressing
      (fun caller => (plain 0
        (fun args => (asking args).reporting "asked")
        fun args => (handing args).reporting "gone").run caller)
      pressing := by
  have hAlike : Likeness.overt.alike
      ⟨pressing, ∅⟩ ⟨pressing, ∅⟩ :=
    ⟨nofun, nofun, rfl, rfl, rfl⟩
  have hTelling : Likeness.overt.Telling (asking []) :=
    Likeness.telling_global "more"
  have hBlind : Likeness.overt.Blind 0 (handing []) :=
    Likeness.blind_handOff.setting "more" (.bool false)
  rcases flat_is_plain (by decide) (by decide)
    Likeness.logs_overt hTelling hBlind hAlike 2 with
    ⟨hPlain, hReported⟩
  exact ⟨hPlain, hReported "asked" "gone"⟩

end Loop

end Resumption

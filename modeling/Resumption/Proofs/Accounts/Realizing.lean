import Resumption.Proofs.Accounts.Books

/-
  What it means that code realizes an account.

  However the code ends, the account tells so, and what the
  session shows by then is what the account charged for.  It
  may also end in a step that suspends: then the account
  tells of a pause, and what the label of that step leads to
  realizes the rest of it, whatever has become of the session
  by the time there is an outcome.

  Main declarations:
    * `Supply.Awaits`, `Supply.Ended`
    * `Supply.Comes`, `Supply.Realizes`
    * `Supply.Realizes.after`, `Supply.Realizes.jump`
    * `Supply.realizes_suspending`
-/

namespace Resumption

open Run

namespace Supply

variable {ν : Type}
variable (S : Supply ν)

------------------------------------------------------------
-- Ends
------------------------------------------------------------

/-
  An awaiter reports on what a name stands for, through a
  future: on an awaitable that completes on demand through
  its row, where the uses are counted.  One that is client
  code reports by what it does.
-/
inductive Awaits
    (s : Session)
    (a : Ref)
    (x : ν) : Option Ref → Prop where
  | future
      {f captured}
      (hRow : s.awaiters[a]? = some (.future f captured))
      (hProbe : (S.origin x).probe? = none) :
      Awaits s a x (some f)
  | controlled
      {a' c f}
      (hRow : s.awaiters[a]? = some (.controlled c))
      (hOrigin : S.origin x = .controlled a' c f) :
      Awaits s a x (some f)
  | custom
      {a' completed result register}
      (hRow : s.awaiters[a]? = some (.custom
        (.ofEffects completed result register)))
      (hOrigin : S.origin x =
        .custom a' completed result register) :
      Awaits s a x none

/- A run ended as an account tells. -/
inductive Ended : Except Value Value → Ending ν → Prop where
  | throws {e} : Ended (.error e) (.threw e)
  | finishes
      {step v}
      (hStep : step.step? = some (.finish v)) :
      Ended (.ok step) (.finished v)
  | handsOff
      {step x f}
      (hStep : step.step? = some (.handOff (.future f)))
      (hOrigin : S.origin x = .future f) :
      Ended (.ok step) (.handed x)

/-
  Code with a footprint paused, on an awaiter and at a label.
  The account tells of the pause, and of what it tells upon
  each outcome of the future behind, if there is one.  What
  is next is said of what the code comes back to.
-/
structure Pauses
    (next : Footprint → Session → Option Ref → Ref →
      (Outcome → Account ν) → Prop)
    (F : Footprint)
    (A : Account ν)
    (s : Session)
    (a l : Ref)
    (x : ν)
    (src : Option Ref)
    (c : Charge ν)
    (F' : Footprint)
    (A' : Outcome → Account ν)
    (s' : Session) : Prop where
  moves : S.Moves F c s s'
  waits : c.waits = [x]
  awaits : S.Awaits s' a x src
  pending : ∀ f, src = some f → s'.outcome? f = none
  tells : A (S.view s) [] ⟨.paused x, S.view s', [], c⟩
  later : ∀ o V later R, A' o V later R →
    A (S.view s) (⟨o, V⟩ :: later) (R.after c)
  foot : ∀ c, F' c → s'.Has c ∧ (s.Has c → F c)
  next : next F' s' src l A'

/-
  Where code with a footprint came from a session: it ended
  or paused, as an account tells.
-/
inductive Comes
    (next : Footprint → Session → Option Ref → Ref →
      (Outcome → Account ν) → Prop)
    (F : Footprint)
    (A : Account ν)
    (s : Session) :
    Except Value Value → Session → Prop where
  | ends
      {r ending s' c}
      (hMoves : S.Moves F c s s')
      (hStill : c.waits = [])
      (hEnded : S.Ended r ending)
      (hTells : ∀ later, A (S.view s) later
        ⟨ending, S.view s', later, c⟩) :
      Comes next F A s r s'
  | suspends
      {step a l x src s' c F' A'}
      (hStep : step.step? =
        some (.suspend (.awaiter a) (.label l)))
      (hPauses :
        S.Pauses next F A s a l x src c F' A' s') :
      Comes next F A s (.ok step) s'

/-
  Code realizes an account, through as many resumptions.
-/
def Realizes :
    Nat → Footprint → Run Value → Session → Account ν → Prop
  | 0, F, act, s, A =>
      act.Ensures s (S.Comes (fun _ _ _ _ _ => True) F A s)
  | k + 1, F, act, s, A =>
      act.Ensures s (S.Comes (fun F' s' src l A' =>
        ∀ rounds depth s₂ o, S.Rests F' s' s₂ →
          s₂.Reveals src o →
          Realizes k F' (Label.jump (.ofDepth rounds depth)
            S.machine (.label l)) s₂ (A' o)) F A s)

/- What is next, through as many resumptions. -/
def Resumes :
    Nat → Footprint → Session → Option Ref → Ref →
      (Outcome → Account ν) → Prop
  | 0, _, _, _, _, _ => True
  | k + 1, F, s, src, l, A =>
      ∀ rounds depth s₂ o, S.Rests F s s₂ →
        s₂.Reveals src o →
        S.Realizes k F (Label.jump (.ofDepth rounds depth)
          S.machine (.label l)) s₂ (A o)

/-
  So it does whatever the bounds, with fewer resumptions to
  come, once there is an outcome.
-/
def Wakes
    (k : Nat)
    (F : Footprint)
    (s : Session)
    (src : Option Ref)
    (act : Caller → Run Value)
    (A : Outcome → Account ν) : Prop :=
  ∀ k' < k, ∀ rounds depth s₂ o, S.Rests F s s₂ →
    s₂.Reveals src o →
    S.Realizes k' F (act (.ofDepth rounds depth)) s₂ (A o)

variable {S}
variable {next : Footprint → Session → Option Ref → Ref →
  (Outcome → Account ν) → Prop}
variable {F F₀ G : Footprint}
variable {A A₀ : Account ν}
variable {c c₀ : Charge ν}
variable {s s₀ s₁ s' : Session}
variable {r : Except Value Value}
variable {act : Run Value}
variable {k rounds depth : Nat}
variable {x : ν}
variable {a l : Ref}
variable {src : Option Ref}
variable {code : Closure}

/- With bounds that come sooner in the induction on them. -/
def Sooner (k rounds depth k' rounds' d : Nat) : Prop :=
  k' < k ∨ k' = k ∧ rounds' = rounds ∧ d < depth

variable (S) in
/-
  From wherever the session has come to, with the cells kept
  that code comes back to, the code realizes an account.
-/
def Proceeds
    (k rounds depth : Nat)
    (G : Footprint)
    (s : Session)
    (act : Caller → Run Value)
    (A : Account ν) : Prop :=
  ∀ k' rounds' d, Sooner k rounds depth k' rounds' d →
    ∀ s₁, Session.Retains G s s₁ → S.Ready s₁ →
      S.Realizes k' G (act (.ofDepth rounds' d)) s₁ A

theorem Sooner.trans
    {k' rounds' d k'' rounds'' d' : Nat}
    (h : Sooner k rounds depth k' rounds' d)
    (h' : Sooner k' rounds' d k'' rounds'' d') :
    Sooner k rounds depth k'' rounds'' d' := by
  rcases h with h | ⟨rfl, rfl, h⟩
  · rcases h' with h' | ⟨rfl, _, _⟩
    · exact .inl (Nat.lt_trans h' h)
    · exact .inl h
  · rcases h' with h' | ⟨rfl, rfl, h'⟩
    · exact .inl h'
    · exact .inr ⟨rfl, rfl, Nat.lt_trans h' h⟩

theorem Sooner.deeper
    {d : Nat}
    (h : d < depth) :
    Sooner k rounds depth k rounds d :=
  .inr ⟨rfl, rfl, h⟩

namespace Proceeds

variable {go : Caller → Run Value}

/- What proceeds from a session proceeds from a later one. -/
theorem later
    (h : S.Proceeds k rounds depth G s go A)
    (hRetains : Session.Retains G s s₁) :
    S.Proceeds k rounds depth G s₁ go A :=
  fun k' rounds' d hSooner s₂ hRetains' hs =>
    h k' rounds' d hSooner s₂
      (hRetains.trans hRetains' fun _ _ hc => ⟨hc, hc⟩) hs

theorem sooner
    {k' rounds' d : Nat}
    (h : S.Proceeds k rounds depth G s go A)
    (hSooner : Sooner k rounds depth k' rounds' d) :
    S.Proceeds k' rounds' d G s go A :=
  fun k'' rounds'' d' hSooner' =>
    h k'' rounds'' d' (hSooner.trans hSooner')

end Proceeds

theorem realizes_iff :
    S.Realizes k F act s A ↔
      act.Ensures s (S.Comes (S.Resumes k) F A s) := by
  cases k <;> exact Iff.rfl

/- An awaiter reports as long as it is there. -/
theorem Awaits.later
    {kept : Cell → Prop}
    (h : S.Awaits s a x src)
    (hRetains : Session.Retains kept s s₁) :
    S.Awaits s₁ a x src := by
  cases h with
  | future hRow hProbe =>
      exact .future (hRetains.awaiter _ _ hRow) hProbe
  | controlled hRow hOrigin =>
      exact .controlled (hRetains.awaiter _ _ hRow) hOrigin
  | custom hRow hOrigin =>
      exact .custom (hRetains.awaiter _ _ hRow) hOrigin

namespace Comes

/- Code that came somewhere ended in a step, or threw. -/
theorem isStep
    {step : Value}
    (h : S.Comes next F A s (.ok step) s') :
    step.isStep = true := by
  cases h with
  | ends _ _ hEnded _ =>
      cases hEnded with
      | finishes hStep => rw [Value.isStep, hStep]; rfl
      | handsOff hStep _ => rw [Value.isStep, hStep]; rfl
  | suspends hStep _ =>
      rw [Value.isStep, hStep]
      rfl

/- Wherever it came, it moved there. -/
theorem moves
    (h : S.Comes next F A s r s') :
    ∃ c, S.Moves F c s s' := by
  cases h with
  | ends hMoves _ _ _ => exact ⟨_, hMoves⟩
  | suspends _ hPauses => exact ⟨_, hPauses.moves⟩

/- Code that threw was accounted for so. -/
theorem threw
    {e : Value}
    (h : S.Comes next F A s (.error e) s') :
    ∃ c, S.Moves F c s s' ∧ c.waits = [] ∧ ∀ later,
      A (S.view s) later ⟨.threw e, S.view s', later, c⟩ := by
  cases h with
  | ends hMoves hStill hEnded hTells =>
      cases hEnded
      exact ⟨_, hMoves, hStill, hTells⟩

/- What came before is charged for as well. -/
theorem after
    (h : S.Comes next F A s r s')
    (hMoves : S.Moves F₀ c₀ s₀ s)
    (hStill : c₀.waits = [])
    (hFoot : ∀ c, s₀.Has c → F c → F₀ c)
    (hTell : ∀ later R, A (S.view s) later R →
      A₀ (S.view s₀) later (R.after c₀)) :
    S.Comes next F₀ A₀ s₀ r s' := by
  cases h with
  | ends hMove hStill' hEnded hTells =>
      refine .ends (hMoves.trans hMove (fun _ _ hc => hc) hFoot)
        ?_ hEnded fun later => hTell _ _ (hTells later)
      simp only [Charge.plus, hStill, hStill', List.append_nil]
  | suspends hStep hPauses =>
      exact .suspends hStep
        { hPauses with
          moves := hMoves.trans hPauses.moves
            (fun _ _ hc => hc) hFoot
          waits := by
            simp only [Charge.plus, hStill, hPauses.waits,
              List.nil_append]
          tells := hTell _ _ hPauses.tells
          later := fun o V later R hRest => by
            have hAll := hTell _ _
              (hPauses.later o V later R hRest)
            rw [Report.after_after] at hAll
            exact hAll
          foot := fun c hc => by
            rcases hPauses.foot c hc with ⟨hHas, hOld⟩
            refine ⟨hHas, fun hHas₀ => hFoot c hHas₀ ?_⟩
            exact hOld (hMoves.retains.has c hHas₀) }

/- What is next may be said in another way. -/
theorem mono
    {next' : Footprint → Session → Option Ref → Ref →
      (Outcome → Account ν) → Prop}
    (h : S.Comes next F A s r s')
    (hNext : ∀ F' s' src l A',
      next F' s' src l A' → next' F' s' src l A') :
    S.Comes next' F A s r s' := by
  cases h with
  | ends hMoves hStill hEnded hTells =>
      exact .ends hMoves hStill hEnded hTells
  | suspends hStep hPauses =>
      exact .suspends hStep
        { hPauses with next := hNext _ _ _ _ _ hPauses.next }

/- A wider footprint promises less. -/
theorem widen
    (h : S.Comes next F A s r s')
    (hFoot : ∀ c, s.Has c → F c → F₀ c) :
    S.Comes next F₀ A s r s' := by
  refine h.after (.refl F₀ s) rfl hFoot fun later R hRest => ?_
  rw [Report.after_none]
  exact hRest

end Comes

namespace Realizes

/- What came before is charged for as well. -/
theorem after
    (h : S.Realizes k F act s A)
    (hMoves : S.Moves F₀ c₀ s₀ s)
    (hStill : c₀.waits = [])
    (hFoot : ∀ c, s₀.Has c → F c → F₀ c)
    (hTell : ∀ later R, A (S.view s) later R →
      A₀ (S.view s₀) later (R.after c₀)) :
    act.Ensures s (S.Comes (S.Resumes k) F₀ A₀ s₀) :=
  (realizes_iff.mp h).mono fun _ _ hComes =>
    hComes.after hMoves hStill hFoot hTell

/- So it does through fewer resumptions. -/
theorem fewer
    (h : S.Realizes (k + 1) F act s A) :
    S.Realizes k F act s A := by
  induction k generalizing F act s A with
  | zero =>
      exact h.mono fun _ _ hComes =>
        hComes.mono fun _ _ _ _ _ _ => trivial
  | succ k ih =>
      refine h.mono fun _ _ hComes => hComes.mono ?_
      intro F' s' src l A' hNext rounds depth s₂ o hRests hTells
      exact ih (hNext rounds depth s₂ o hRests hTells)

theorem of_le
    {k' : Nat}
    (h : S.Realizes k F act s A)
    (hk : k' ≤ k) :
    S.Realizes k' F act s A := by
  induction hk with
  | refl => exact h
  | step _ ih => exact ih h.fewer

/- A wider footprint promises less. -/
theorem widen
    (h : S.Realizes k F act s A)
    (hFoot : ∀ c, s.Has c → F c → F₀ c) :
    S.Realizes k F₀ act s A :=
  realizes_iff.mpr ((realizes_iff.mp h).mono
    fun _ _ hComes => hComes.widen hFoot)

/- An account may be told of in another way. -/
theorem tell
    (h : S.Realizes k F act s A)
    (hTell : ∀ later R, A (S.view s) later R →
      A₀ (S.view s) later R) :
    S.Realizes k F act s A₀ := by
  refine realizes_iff.mpr (h.after (.refl F s) rfl
    (fun _ _ hc => hc) fun later R hRest => ?_)
  rw [Report.after_none]
  exact hTell later R hRest

/- What was done first, at no charge but labels. -/
theorem idle
    {α : Type}
    {first : Run α}
    {rest : α → Run Value}
    {b : α}
    {n : Nat}
    (hFirst : first s₀ = some (.ok b, s))
    (hIdles : S.Idles F₀ n s₀ s)
    (h : S.Realizes k F (rest b) s A)
    (hFoot : ∀ c, s₀.Has c → F c → F₀ c) :
    S.Realizes k F₀ (first >>= rest) s₀
      (A.costing (.ofLabels n)) := by
  refine realizes_iff.mpr (Ensures.bind fun r₁ s₁ hRun => ?_)
  cases hFirst.symm.trans hRun
  refine h.after hIdles.moves rfl hFoot fun later R hRest => ?_
  exact ⟨R, by rw [← hIdles.view_eq]; exact hRest, rfl⟩

/- So it is where no label was allocated. -/
theorem idle_none
    {α : Type}
    {first : Run α}
    {rest : α → Run Value}
    {b : α}
    (hFirst : first s₀ = some (.ok b, s))
    (hIdles : S.Idles F₀ 0 s₀ s)
    (h : S.Realizes k F (rest b) s A)
    (hFoot : ∀ c, s₀.Has c → F c → F₀ c) :
    S.Realizes k F₀ (first >>= rest) s₀ A := by
  refine (h.idle hFirst hIdles hFoot).tell ?_
  rintro later _ ⟨R, hRest, rfl⟩
  exact (R.after_none).symm ▸ hRest

/- What a label leads to is what a jump leads to. -/
theorem jump
    (hBears : s.Bears S.machine l (some code))
    (h : ∀ d < depth,
      S.Realizes k F (code.enter (.ofDepth rounds d) []) s A) :
    S.Realizes k F (Label.jump (.ofDepth rounds depth)
      S.machine (.label l)) s A :=
  realizes_iff.mpr (Label.ensures_below hBears
    (fun _ _ hComes => hComes.isStep)
    fun d hd => realizes_iff.mp (h d hd))

theorem call
    {args : List Value}
    (h : ∀ d < depth,
      S.Realizes k F (code.enter (.ofDepth rounds d) args) s A) :
    S.Realizes k F ((Caller.ofDepth rounds depth).call code args)
      s A :=
  realizes_iff.mpr (ensures_call_below fun d hd =>
    realizes_iff.mp (h d hd))

end Realizes

/- What a label leads to proceeds by a jump as well. -/
theorem Proceeds.jump
    (hBears : s.Bears S.machine l (some code))
    (h : S.Proceeds k rounds depth G s
      (fun caller => code.enter caller []) A) :
    S.Proceeds k rounds depth G s
      (fun caller => Label.jump caller S.machine (.label l)) A :=
  fun _ _ _ hSooner s₁ hRetains hs =>
    .jump (hRetains.bears _ _ _ hBears) fun d hd =>
      h _ _ d (hSooner.trans (.deeper hd)) s₁ hRetains hs

------------------------------------------------------------
-- Ending and Suspending
------------------------------------------------------------

/- What is ended by at once, it is ended by. -/
theorem realizes_ending
    {ending : Ending ν}
    (hAct : act s = some (r, s'))
    (hIdles : S.Idles F 0 s s')
    (hEnded : S.Ended r ending) :
    S.Realizes k F act s (.ends ending) := by
  refine realizes_iff.mpr fun r₁ s₁ hRun => ?_
  cases hAct.symm.trans hRun
  refine .ends hIdles.moves_none rfl hEnded fun later => ?_
  rw [hIdles.view_eq]
  rfl

theorem realizes_finish
    (v : Value) :
    S.Realizes k F (Run.newStep (.finish v)) s
      (.ends (.finished v)) :=
  realizes_ending rfl ((idles_stamped s).trans (.refl F _)
    (fun _ _ hc => hc.elim) fun _ _ hc => hc)
    (.finishes (Value.step?_record_fields _ _))

theorem realizes_raise
    (e : Value) :
    S.Realizes k F (Run.raise e) s (.ends (.threw e)) :=
  realizes_ending rfl (.refl F s) .throws

/- What is woken whatever the bounds is next under its label. -/
theorem Resumes.of_wakes
    {A' : Outcome → Account ν}
    (hBears : s.Bears S.machine l (some code))
    (hWakes : S.Wakes k F s src
      (fun caller => code.enter caller []) A') :
    S.Resumes k F s src l A' := by
  cases k with
  | zero => trivial
  | succ k =>
      intro rounds depth s₂ o hRests hTells
      exact .jump (hRests.retains.bears _ _ _ hBears)
        fun d _ => hWakes k (Nat.lt_succ_self k) rounds d s₂ o
          hRests hTells

/- What is next is woken by a jump, whatever the bounds. -/
theorem Resumes.wakes
    {A' : Outcome → Account ν}
    (h : S.Resumes k F s src l A') :
    S.Wakes k F s src
      (fun caller => Label.jump caller S.machine (.label l))
      A' := by
  cases k with
  | zero => exact fun _ hk => (Nat.not_lt_zero _ hk).elim
  | succ k =>
      intro k' hk rounds depth s₂ o hRests hTells
      exact (h rounds depth s₂ o hRests hTells).of_le
        (Nat.le_of_lt_succ hk)

/-
  A step that suspends at a new label, with code under it
  that goes on upon an outcome.
-/
theorem realizes_suspending
    {A' : Outcome → Account ν}
    (hs : S.Ready s)
    (hAwaits : S.Awaits s a x src)
    (hPending : ∀ f, src = some f → s.outcome? f = none)
    (hHas : ∀ c, F c → s.Has c)
    (hTells : A (S.view s) []
      ⟨.paused x, S.view s, [], .pausing x⟩)
    (hLater : ∀ o V later R, A' o V later R →
      A (S.view s) (⟨o, V⟩ :: later)
        (R.after (.pausing x)))
    (hWakes : ∀ s', S.Idles .none 1 s s' →
      S.Wakes k F s' src (fun caller => code.enter caller [])
        A') :
    S.Realizes k F
      (do
        let l ← Label.install S.machine code
        Run.newStep (.suspend (.awaiter a) (.label l)))
      s A := by
  have hIdles : S.Idles .none 1 s
      (s.withLabel S.machine (some code)).stamped :=
    (idles_withLabel hs.machine _).none_trans (idles_stamped _)
  have hBears : (s.withLabel S.machine
      (some code)).stamped.Bears S.machine s.labels.size
        (some code) :=
    (idles_stamped (S := S) _).retains.bears _ _ _
      (s.bears_withLabel hs.machine (some code))
  refine realizes_iff.mpr fun r₁ s₁ hRun => ?_
  rw [Run.bind_of_end (Label.install_eq S.machine code s)]
    at hRun
  cases hRun
  have hMoves : S.Moves F (.pausing x) s
      (s.withLabel S.machine (some code)).stamped :=
    { hIdles.moves.widen fun _ _ hc => hc.elim with }
  exact .suspends (Value.step?_record_fields _ _)
    { moves := hMoves
      waits := rfl
      awaits := hAwaits.later hIdles.retains
      pending := fun f hf =>
        (hIdles.outcome?_eq f).trans (hPending f hf)
      tells := by
        rw [hIdles.view_eq]
        exact hTells
      later := hLater
      foot := fun c hc =>
        ⟨hIdles.retains.has c (hHas c hc), fun _ => hc⟩
      next := .of_wakes hBears (hWakes _ hIdles) }

/-
  Where code pauses, what goes on around it pauses as well,
  and comes back to cells of its own besides.
-/
theorem Pauses.around
    {A' B : Outcome → Account ν}
    {F' : Footprint}
    {n : Nat}
    {l' : Ref}
    (h : S.Pauses (S.Resumes k) F A s a l x src c F' A' s₁)
    (hIdles : S.Idles G n s₁ s')
    (hHas : ∀ c, G c → s'.Has c)
    (hFree : G.Apart F')
    (hBears : s'.Bears S.machine l' (some code))
    (hTells : A₀ (S.view s) []
      ⟨.paused x, S.view s₁, [], c.plus (.ofLabels n)⟩)
    (hLater : ∀ o V later R, B o V later R →
      A₀ (S.view s) (⟨o, V⟩ :: later)
        (R.after (c.plus (.ofLabels n))))
    (hWakes : ∀ k' < k, ∀ rounds depth s₂ o,
      S.Rests (F'.or G) s' s₂ →
      (∀ rounds depth, S.Realizes k' F'
        (Label.jump (.ofDepth rounds depth) S.machine (.label l))
        s₂ (A' o)) →
      S.Realizes k' (F'.or G)
        (code.enter (.ofDepth rounds depth) []) s₂ (B o)) :
    S.Pauses (S.Resumes k) (F.or G) A₀ s a l' x src
      (c.plus (.ofLabels n)) (F'.or G) B s' where
  moves := h.moves.trans hIdles.moves (fun _ _ hc => .inl hc)
    fun _ _ hc => .inr hc
  waits := by simp [Charge.plus, h.waits, Charge.ofLabels]
  awaits := h.awaits.later hIdles.retains
  pending f hf :=
    (hIdles.outcome?_eq f).trans (h.pending f hf)
  tells := by
    rw [hIdles.view_eq]
    exact hTells
  later := hLater
  foot := by
    rintro c (hc | hc)
    · rcases h.foot c hc with ⟨hHas, hOld⟩
      exact ⟨hIdles.retains.has c hHas,
        fun hHas => .inl (hOld hHas)⟩
    · exact ⟨hHas c hc, fun _ => .inr hc⟩
  next := by
    refine .of_wakes hBears ?_
    intro k' hk rounds depth s₂ o hRests hTells
    have hRests' : S.Rests F' s₁ s₂ :=
      .of_idles hIdles hRests fun c _ hc =>
        ⟨fun hOwn => hFree c hOwn hc, .inl hc⟩
    exact hWakes k' hk rounds depth s₂ o hRests
      fun rounds depth => Resumes.wakes h.next k' hk rounds depth
        s₂ o hRests' hTells

end Supply

end Resumption

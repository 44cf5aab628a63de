import Resumption.Proofs.Routine.Awaits

/-
  A sequence delivers what its first step comes to, and then
  what the rest proceeds to.

  The first step may suspend any number of times; each time
  the sequence is entered anew with what the first step has
  become.

  Main declarations:
    * `Sequence.Site`
    * `Sequence.delivers_resume`
    * `Sequence.delivers_build`
-/

namespace Resumption

open Run
open Direct (Stepped landed)

------------------------------------------------------------
-- Sequences in Progress
------------------------------------------------------------

namespace Sequence

/- Where a sequence is kept, and the code that follows it. -/
structure Site where
  cell : Ref
  entry : Ref
  rest : Ref
  code : Closure

/- A sequence is under way, at a step. -/
structure Site.At
    (S : Site)
    (m : Ref)
    (s : Session)
    (step : Value) : Prop where
  cell : ∃ t, s.sequences[S.cell]? =
    some ⟨m, S.entry, step, S.rest, t⟩
  entry : s.Bears m S.entry (some (.sequenceEntry S.cell))
  rest : s.Bears m S.rest (some S.code)

/- The cells that a sequence comes back to. -/
def Site.footprint
    (S : Site)
    (F G : Footprint) : Footprint :=
  (F.or G).or (.only (.sequence S.cell))

/-
  The first step and the rest come back to cells of their
  own.
-/
structure Site.Fits
    (S : Site)
    (F G : Footprint)
    (s : Session) : Prop where
  first : ¬ F (.sequence S.cell)
  rest : ¬ G (.sequence S.cell)
  apart : F.Apart G
  has : ∀ c, G c → s.Has c

end Sequence

/- A session whose sequence has come to another step. -/
def Session.resequenced
    (s : Session)
    (i : Ref)
    (step : Value) : Session :=
  { s with
    sequences := s.sequences.modify i ({ · with step := step }) }

/- A session with one more row for a sequence. -/
def Session.withSequenceRow
    (s : Session)
    (row : SequenceCell) : Session :=
  { s with sequences := s.sequences.push row }

/- A session with a new sequence. -/
def Session.withSequence
    (s : Session)
    (m : Ref)
    (step : Value)
    (rest : Closure) : Session :=
  let s₁ := s.withLabel m (some rest)
  let entry := s₁.labels.size
  let s₂ := (s₁.withLabel m none).withSequenceRow
    ⟨m, entry, step, s.labels.size, s.task⟩
  s₂.relabelled entry (.sequenceEntry s.sequences.size)

@[simp] theorem Session.memory_resequenced
    (s : Session)
    (i : Ref)
    (step : Value)
    (own : Territory) :
    (s.resequenced i step).memory own = s.memory own := by
  simp only [memory, resequenced]

@[simp] theorem Session.memory_withSequence
    (s : Session)
    (m : Ref)
    (step : Value)
    (rest : Closure)
    (own : Territory) :
    (s.withSequence m step rest).memory own = s.memory own := by
  simp only [memory, withSequence, withSequenceRow, relabelled,
    withLabel]

namespace Sequence

variable {ν : Type}
variable {E : Setting ν}
variable {hands : Prop}
variable {F F' G : Footprint}
variable {S : Site}
variable {s s₁ s' : Session}
variable {R R₁ R' : Reading ν}
variable {o o₁ : Except (Stop ν) Value}
variable {step step₀ : Value}
variable {a l m : Ref}
variable {x : ν}
variable {fate : Fate}

theorem Site.At.row_eq
    (h : S.At m s step) :
    ∃ t, Table.sequences.row S.cell s =
      some (.ok ⟨m, S.entry, step, S.rest, t⟩, s) := by
  rcases h.cell with ⟨t, hRow⟩
  refine ⟨t, ?_⟩
  have hEnd : Table.sequences.row S.cell s =
      some (.ok (s.sequences.getD S.cell default), s) := rfl
  rw [hEnd]
  simp [Array.getD_eq_getD_getElem?, hRow]

theorem Site.At.has
    (h : S.At m s step) :
    s.Has (.sequence S.cell) := by
  rcases h.cell with ⟨t, hRow⟩
  exact (Array.getElem?_eq_some_iff.mp hRow).1

/- A sequence that is kept is where it was. -/
theorem Site.At.later
    {kept : Cell → Prop}
    (h : S.At m s step)
    (hRetains : Session.Retains kept s s₁)
    (hKept : kept (.sequence S.cell)) :
    S.At m s₁ step where
  cell := by
    rcases h.cell with ⟨t, hRow⟩
    have hSame := hRetains.same _ h.has hKept
    exact ⟨t, Eq.trans hSame hRow⟩
  entry := hRetains.bears _ _ _ h.entry
  rest := hRetains.bears _ _ _ h.rest

/- A sequence after its first step has come further. -/
theorem Site.At.resequenced
    (h : S.At m s step₀)
    (step : Value) :
    S.At m (s.resequenced S.cell step) step where
  cell := by
    rcases h.cell with ⟨t, hRow⟩
    refine ⟨t, ?_⟩
    simp [Session.resequenced, Array.getElem?_modify, hRow]
  entry := h.entry
  rest := h.rest

/- Changing a sequence's step touches that sequence alone. -/
theorem moves_resequenced
    (E : Setting ν)
    (s : Session)
    (i : Ref)
    (step : Value) :
    E.Moves (.only (.sequence i)) s
      (s.resequenced i step) where
  retains :=
    { Session.Retains.refl (fun _ => True) s with
      has := by
        intro c hc
        cases c with
        | sequence j =>
            simpa [Session.resequenced, Session.Has] using hc
        | _ => exact hc
      same := by
        intro c _ hNot
        cases c with
        | sequence j =>
            have hNe : i ≠ j := by
              rintro rfl
              exact hNot rfl
            simp [Session.SameAt, Session.resequenced,
              Array.getElem?_modify, hNe]
        | _ => rfl }
  backdrop := rfl
  foreign _ _ := rfl

------------------------------------------------------------
-- Entering
------------------------------------------------------------

/- The rest is reached by a jump as well. -/
theorem Site.At.proceeds_jump
    (h : S.At E.machine s step)
    (hNext : E.Proceeds hands G s R (fun c => c.call S.code []) o R')
    (v : Value) :
    E.Proceeds hands G s R
      (fun c => c.call (.jump E.machine S.rest) [v])
      (landed o) R' :=
  fun s₁ hRetains hAgrees =>
    .call (.jump (hRetains.bears _ _ _ h.rest)
      (hNext s₁ hRetains hAgrees))

/- What the rest lands as follows by that jump. -/
theorem Site.At.follows_jump
    (h : S.At E.machine s step)
    (hStepped : Stepped o₁)
    (hFollows : E.Follows hands G s R
      (fun _ c => c.call S.code []) o₁ o R') :
    E.Follows hands G s R
      (fun v c => c.call (.jump E.machine S.rest) [v])
      o₁ (landed o) R' := by
  cases hFollows with
  | proceeds hNext => exact .proceeds (h.proceeds_jump hNext _)
  | passes =>
      rw [Direct.landed_eq hStepped]
      exact .passes

/- Entered at a step that finishes, it goes on to the rest. -/
theorem delivers_enter_finish
    {v : Value}
    (hAt : S.At E.machine s step)
    (hStep : step.step? = some (.finish v))
    (hAgrees : E.Agrees s R)
    (hNext : E.Proceeds hands G s R
      (fun c => c.call S.code []) o R') :
    E.Delivers hands G (fun c => enter c S.cell) s (landed o) R' := by
  rcases hAt.row_eq with ⟨t, hRow⟩
  refine .step hRow (.refl E G s) ?_
  simp only [Setting.isMissing_of_step hStep, hStep,
    Bool.false_eq_true, if_false]
  exact .jump hAt.rest (hNext s (.refl G s) hAgrees)

/- Entered at a hand-off, it awaits the future first. -/
theorem delivers_enter_handOff
    (hKept : ¬ E.detached)
    (hAt : S.At E.machine s step)
    (hStep : step.step? =
      some (.handOff (.future (E.place x))))
    (hAgrees : E.Agrees s R)
    (hFate : E.fates x = some fate)
    (hHas : ∀ c, G c → s.Has c)
    (hFollows : E.Follows hands G s (R.awaiting x)
      (fun _ c => c.call S.code []) (fate.result x) o R') :
    E.Delivers hands G (fun c => enter c S.cell) s (landed o) R' := by
  rcases hAt.row_eq with ⟨t, hRow⟩
  refine .step hRow (.refl E G s) ?_
  simp only [Setting.isMissing_of_step hStep, hStep,
    Bool.false_eq_true, if_false]
  have hMoves :=
    E.moves_withAwaiter s (.future (E.place x) true)
  have hRetains : Session.Retains G s
      (s.withAwaiter (.future (E.place x) true)) :=
    hMoves.keeps
  refine .precede (Awaiter.leads_ofValue _ s)
    hMoves.any ?_
  refine Await.delivers_awaitResult
    (hAgrees.of_moves hMoves (s.memory_withAwaiter _ _))
    (Setting.reads_withAwaiter s _
      fun hDetached => (hKept hDetached).elim) hFate
    (fun c hc => hRetains.has c (hHas c hc)) ?_
  exact (hAt.follows_jump (Direct.stepped_result x fate)
    hFollows).later hRetains

/- Entered at a step that suspends, it suspends there, too. -/
theorem delivers_enter_suspend
    (hAt : S.At E.machine s step)
    (hStep : step.step? =
      some (.suspend (.awaiter a) (.label l)))
    (hWaits : E.Waits s R a x)
    (hStuck : E.fates x = some .never →
      o = .error (.stuck x) ∧ R' = R.awaiting x)
    (hHas : ∀ c, F c → s.Has c)
    (hRest : ∀ s₁, E.Rests F s s₁ →
      s₁.Settled (E.place x) →
      E.Delivers hands F (fun c => resume c S.cell (.label l))
        s₁ o R') :
    E.Delivers hands F (fun c => enter c S.cell) s o R' := by
  rcases hAt.row_eq with ⟨t, hRow⟩
  refine .step hRow (.refl E F s) ?_
  simp only [Setting.isMissing_of_step hStep, hStep,
    Bool.false_eq_true, if_false]
  exact .install hWaits hStuck hHas hRest

------------------------------------------------------------
-- Resuming
------------------------------------------------------------

/- The first step goes on, and the sequence is entered anew. -/
theorem delivers_resumed
    (hAt : S.At E.machine s step₀)
    (hLeads : Leads
      (fun c => Label.jump c E.machine (.label l))
      s (.ok step) s')
    (hMoves : E.Moves F s s')
    (hFirst : ¬ F (.sequence S.cell))
    (hEnter : E.Delivers hands F' (fun c => enter c S.cell)
      (s'.resequenced S.cell step) o R')
    (hFoot : ∀ c, s.Has c → F' c → S.footprint F G c) :
    E.Delivers hands (S.footprint F G)
      (fun c => resume c S.cell (.label l)) s (landed o) R' := by
  rcases hAt.row_eq with ⟨t, hRow⟩
  have hAt' := (hAt.later hMoves.retains hFirst).resequenced step
  have hWhole : E.Moves (S.footprint F G) s
      (s'.resequenced S.cell step) := by
    refine hMoves.trans (moves_resequenced E s' S.cell step)
      ?_ ?_
    · exact fun _ _ hc => .inl (.inl hc)
    · exact fun _ _ hc => .inr hc
  have hJump := Setting.Delivers.jump hAt'.entry (.call hEnter)
  refine hJump.after hWhole hFoot ?_
  intro r s₂ hEnd
  exact .step hRow (hLeads.bind (.step rfl hEnd))

/- Where the first step is stuck, so is the sequence. -/
theorem stuck_of_follows
    {next : Value → Caller → Run Value}
    (hStuck : E.fates x = some .never →
      o₁ = .error (.stuck x) ∧ R₁ = R.awaiting x)
    (hFollows : E.Follows hands G s R₁ next o₁ o R')
    (hNever : E.fates x = some .never) :
    landed o = .error (.stuck x) ∧ R' = R.awaiting x := by
  rcases hStuck hNever with ⟨rfl, rfl⟩
  rcases hFollows.stuck with ⟨rfl, rfl⟩
  exact ⟨rfl, rfl⟩

/-
  The induction is on how the first step goes on: each time
  it suspends, the sequence is resumed where it resumes.
-/
theorem delivers_resume
    {act : Caller → Run Value}
    (h : E.Delivers (¬ E.detached) F act s o₁ R₁)
    (hAct : act = fun c => Label.jump c E.machine (.label l))
    (hAt : S.At E.machine s step₀)
    (hFits : S.Fits F G s)
    (hStepped : Stepped o₁)
    (hFollows : E.Follows hands G s R₁
      (fun _ c => c.call S.code []) o₁ o R') :
    E.Delivers hands (S.footprint F G)
      (fun c => resume c S.cell (.label l)) s (landed o) R' := by
  have hKept : ∀ {s' : Session} {step : Value},
      E.Moves F s s' →
      Session.Retains G s (s'.resequenced S.cell step) := by
    intro s' step hMoves
    refine hMoves.retains.trans
      (moves_resequenced E s' S.cell step).retains ?_
    intro c _ hc
    refine ⟨fun hF => hFits.apart c hF hc, ?_⟩
    rintro rfl
    exact hFits.rest hc
  induction h generalizing l step₀ with
  | @finishes F act s s' step v R₁ hLeads hMoves hStep hAgrees =>
      subst hAct
      cases hFollows with
      | proceeds hNext =>
          have hAt' := (hAt.later hMoves.retains
            hFits.first).resequenced step
          have hLast := hAgrees.of_moves
            (moves_resequenced E s' S.cell step)
            (s'.memory_resequenced _ _ _)
          have hEnter := delivers_enter_finish hAt' hStep hLast
            (hNext.later (hKept hMoves))
          rw [← Direct.landed_landed]
          exact delivers_resumed hAt hLeads hMoves hFits.first
            hEnter (fun _ _ hc => .inl (.inr hc))
  | @fails F act s s' e stop R₁ hLeads hMoves hMeans hAgrees =>
      subst hAct
      cases hFollows with
      | passes =>
          rcases hAt.row_eq with ⟨t, hRow⟩
          rw [Direct.landed_eq hStepped]
          exact .fails (.step hRow hLeads.bind_error)
            (hMoves.widen fun _ _ hc => .inl (.inl hc)) hMeans
            hAgrees
  | gives => exact (hStepped _ rfl).elim
  | @handsOff F act s s' step x fate o₁ R R₁ hLeads hMoves
      hStep hKept' hAgrees hFate hResult hReading =>
      subst hAct hResult hReading
      have hAt' := (hAt.later hMoves.retains
        hFits.first).resequenced step
      have hLast := hAgrees.of_moves
        (moves_resequenced E s' S.cell step)
        (s'.memory_resequenced _ _ _)
      have hEnter := delivers_enter_handOff hKept' hAt' hStep
        hLast hFate
        (fun c hc => (hKept hMoves).has c (hFits.has c hc))
        (hFollows.later (hKept hMoves))
      rw [← Direct.landed_landed]
      exact delivers_resumed hAt hLeads hMoves hFits.first
        hEnter (fun _ _ hc => .inl (.inr hc))
  | @waits F F' act s s' step a l' x o₁ R R₁ hLeads hMoves hStep
      hWaits hStuck hFoot hRest ih =>
      subst hAct
      rw [Direct.landed_eq hStepped] at ih
      have hAt' := (hAt.later hMoves.retains
        hFits.first).resequenced step
      have hChange := moves_resequenced E s' S.cell step
      -- The cells that are come back to from now on.
      have hNew : ¬ F' (.sequence S.cell) := fun hc =>
        hFits.first ((hFoot _ hc).2 hAt.has)
      have hApart : F'.Apart G := fun c hc hG =>
        hFits.apart c ((hFoot c hc).2 (hFits.has c hG)) hG
      have hHas : ∀ c, S.footprint F' G c →
          (s'.resequenced S.cell step).Has c := by
        rintro c ((hc | hc) | rfl)
        · exact hChange.retains.has c (hFoot c hc).1
        · exact (hKept hMoves).has c (hFits.has c hc)
        · exact hAt'.has
      have hOld : ∀ c, s.Has c → S.footprint F' G c →
          S.footprint F G c := by
        rintro c hIn ((hc | hc) | hc)
        · exact .inl (.inl ((hFoot c hc).2 hIn))
        · exact .inl (.inr hc)
        · exact .inr hc
      rw [← Direct.landed_landed]
      refine delivers_resumed hAt hLeads hMoves hFits.first
        ?_ hOld
      refine delivers_enter_suspend hAt' hStep
        (hWaits.of_moves hChange (s'.memory_resequenced _ _ _))
        (stuck_of_follows hStuck hFollows) hHas ?_
      intro s₁ hRests hSettled
      have hKept' : Session.Retains G s s₁ :=
        (hKept hMoves).trans hRests.retains
          fun _ _ hc => ⟨hc, .inl (.inr hc)⟩
      refine ih s₁ ?_ hSettled rfl
        (hAt'.later hRests.retains (.inr rfl)) ?_ hStepped ?_ ?_
      · refine .of_moves hChange hRests
          (s'.memory_resequenced _ _ _) ?_
        intro c _ hc
        refine ⟨?_, .inl (.inl hc)⟩
        rintro rfl
        exact hNew hc
      · exact
          { first := hNew
            rest := hFits.rest
            apart := hApart
            has := fun c hc => hKept'.has c (hFits.has c hc) }
      · exact hFollows.later hKept'
      · intro s₂ step' hMoves'
        refine hMoves'.retains.trans
          (moves_resequenced E s₂ S.cell step').retains ?_
        intro c _ hc
        refine ⟨fun hF => hApart c hF hc, ?_⟩
        rintro rfl
        exact hFits.rest hc

------------------------------------------------------------
-- Building
------------------------------------------------------------

/- Where a new sequence is kept. -/
def newSite
    (s : Session)
    (m : Ref)
    (rest : Closure) : Site where
  cell := s.sequences.size
  entry := (s.withLabel m (some rest)).labels.size
  rest := s.labels.size
  code := rest

/- One more row is a move. -/
theorem moves_withSequenceRow
    (E : Setting ν)
    (s : Session)
    (row : SequenceCell) :
    E.Moves .none s (s.withSequenceRow row) where
  retains :=
    { Session.Retains.refl (fun _ => True) s with
      has := by
        intro c hc
        cases c with
        | sequence j =>
            have hLt : j < s.sequences.size := hc
            change j < (s.sequences.push row).size
            rw [Array.size_push]
            exact Nat.lt_succ_of_lt hLt
        | _ => exact hc
      same := by
        intro c hc _
        cases c with
        | sequence j =>
            have hNe : j ≠ s.sequences.size := Nat.ne_of_lt hc
            simp only [Session.SameAt, Session.withSequenceRow,
              Array.getElem?_push, if_neg hNe]
        | _ => rfl }
  backdrop := rfl
  foreign _ _ := rfl

section New

variable (hm : m < s.machines.size)
variable (step : Value)
variable (rest : Closure)
include hm

/- The label of a new sequence, before there is code under it. -/
theorem bears_entry :
    (((s.withLabel m (some rest)).withLabel m
      none).withSequenceRow
        ⟨m, (newSite s m rest).entry, step, s.labels.size,
          s.task⟩).Bears m (newSite s m rest).entry none := by
  have hm' : m < (s.withLabel m (some rest)).machines.size := by
    simpa [Session.withLabel] using hm
  exact Session.bears_withLabel hm' none

/- A new sequence is one, and making it is a move. -/
theorem at_withSequence :
    (newSite s m rest).At m (s.withSequence m step rest)
      step where
  cell := ⟨s.task, by
    simp [Session.withSequence, Session.relabelled,
      Session.withSequenceRow, Session.withLabel, newSite]⟩
  entry := (bears_entry hm step rest).relabelled _
  rest := by
    have hRest := s.bears_withLabel hm (some rest)
    have hNe : (s.withLabel m (some rest)).labels.size ≠
        s.labels.size :=
      Nat.ne_of_gt hRest.lt
    exact (hRest.withLabel none).relabelled_of_ne hNe _

theorem moves_withSequence
    (E : Setting ν) :
    E.Moves .none s (s.withSequence m step rest) := by
  have hFirst := (E.moves_withLabel s m (some rest)).none_trans
    (E.moves_withLabel _ m none)
  have hRow := hFirst.none_trans
    (moves_withSequenceRow E _
      ⟨m, (newSite s m rest).entry, step, s.labels.size,
        s.task⟩)
  exact hRow.none_trans
    (E.moves_relabelled (bears_entry hm step rest) _)

/- Building a sequence enters it. -/
theorem leads_build
    {r : Except Value Value}
    (h : Leads
      (fun c => Label.jump c m
        (.label (newSite s m rest).entry))
      (s.withSequence m step rest) r s') :
    Leads (fun c => build c (.machine m) step rest) s r s' := by
  refine .step (a := m) rfl ?_
  refine .step (Label.install_eq m rest s) ?_
  refine .step (Label.allocate_eq m _) ?_
  refine .step rfl (.step rfl ?_)
  have hReplace :=
    Label.replace_eq (bears_entry hm step rest)
      (.sequenceEntry s.sequences.size)
  exact .step hReplace h

end New

/- What a new sequence delivers when it is entered. -/
theorem delivers_build_of
    (hCalm : E.Calm s)
    (rest : Closure)
    (hEnter : ∀ S : Site, S = newSite s E.machine rest →
      S.At E.machine (s.withSequence E.machine step rest)
        step →
      E.Delivers hands F (fun c => enter c S.cell)
        (s.withSequence E.machine step rest) (landed o) R')
    (hFoot : ∀ c, s.Has c → F c → F' c) :
    E.Delivers hands F'
      (fun c => build c (.machine E.machine) step rest)
      s (landed o) R' := by
  have hAt := at_withSequence hCalm.machine step rest
  have hMoves := moves_withSequence hCalm.machine step rest E
  have hJump := Setting.Delivers.jump hAt.entry
    (.call (hEnter _ rfl hAt))
  rw [Direct.landed_landed] at hJump
  refine hJump.after hMoves.any hFoot fun r s' hEnd => ?_
  exact leads_build hCalm.machine step rest hEnd

section Build

variable {rest : Closure}

/- A first step that has finished, and the rest. -/
theorem delivers_build_finish
    {v : Value}
    (hStep : step.step? = some (.finish v))
    (hAgrees : E.Agrees s R)
    (hNext : E.Proceeds hands G s R (fun c => c.call rest []) o R') :
    E.Delivers hands G
      (fun c => build c (.machine E.machine) step rest)
      s (landed o) R' := by
  have hMoves :=
    moves_withSequence hAgrees.calm.machine step rest E
  refine delivers_build_of hAgrees.calm rest ?_
    fun _ _ hc => hc
  rintro S rfl hAt
  exact delivers_enter_finish hAt hStep
    (hAgrees.of_moves hMoves (s.memory_withSequence _ _ _ _))
    (hNext.later hMoves.keeps)

/- A first step that hands off, and the rest. -/
theorem delivers_build_handOff
    (hKept : ¬ E.detached)
    (rest : Closure)
    (hStep : step.step? =
      some (.handOff (.future (E.place x))))
    (hAgrees : E.Agrees s R)
    (hFate : E.fates x = some fate)
    (hHas : ∀ c, G c → s.Has c)
    (hFollows : E.Follows hands G s (R.awaiting x)
      (fun _ c => c.call rest []) (fate.result x) o R') :
    E.Delivers hands G
      (fun c => build c (.machine E.machine) step rest)
      s (landed o) R' := by
  have hMoves :=
    moves_withSequence hAgrees.calm.machine step rest E
  refine delivers_build_of hAgrees.calm rest ?_
    fun _ _ hc => hc
  rintro S rfl hAt
  exact delivers_enter_handOff hKept hAt hStep
    (hAgrees.of_moves hMoves (s.memory_withSequence _ _ _ _)) hFate
    (fun c hc => hMoves.retains.has c (hHas c hc))
    (hFollows.later hMoves.keeps)

/- A first step that suspends, and what it resumes to. -/
theorem delivers_build_suspend
    (rest : Closure)
    (hStep : step.step? =
      some (.suspend (.awaiter a) (.label l)))
    (hWaits : E.Waits s R a x)
    (hStuck : E.fates x = some .never →
      o₁ = .error (.stuck x) ∧ R₁ = R.awaiting x)
    (hHasF : ∀ c, F c → s.Has c)
    (hStepped : Stepped o₁)
    (hRest : ∀ s₁, E.Rests F s s₁ →
      s₁.Settled (E.place x) →
      E.Delivers (¬ E.detached) F
        (fun c => Label.jump c E.machine (.label l)) s₁ o₁ R₁)
    (hApart : F.Apart G)
    (hHas : ∀ c, G c → s.Has c)
    (hFollows : E.Follows hands G s R₁
      (fun _ c => c.call rest []) o₁ o R') :
    E.Delivers hands (F.or G)
      (fun c => build c (.machine E.machine) step rest)
      s (landed o) R' := by
  have hMoves :=
    moves_withSequence hWaits.agrees.calm.machine step rest E
  have hFresh : ¬ s.Has (.sequence s.sequences.size) :=
    Nat.lt_irrefl _
  refine delivers_build_of
    (F := (newSite s E.machine rest).footprint F G)
    hWaits.agrees.calm rest ?_ ?_
  · rintro S rfl hAt
    refine delivers_enter_suspend hAt hStep
      (hWaits.of_moves hMoves (s.memory_withSequence _ _ _ _))
      (stuck_of_follows hStuck hFollows) ?_ ?_
    · rintro c ((hc | hc) | rfl)
      · exact hMoves.retains.has c (hHasF c hc)
      · exact hMoves.retains.has c (hHas c hc)
      · exact hAt.has
    · intro s₁ hRests hSettled
      have hKept : Session.Retains G s s₁ :=
        hMoves.retains.trans hRests.retains
          fun _ _ hc => ⟨id, .inl (.inr hc)⟩
      have hWhole := Setting.Rests.of_moves_none hMoves hRests
        (s.memory_withSequence _ _ _ _)
      have hInner := hRest s₁
        (hWhole.weaken fun _ _ hc => .inl (.inl hc)) hSettled
      refine delivers_resume hInner rfl
        (hAt.later hRests.retains (.inr rfl)) ?_ hStepped
        (hFollows.later hKept)
      exact
        { first := fun hc => hFresh (hHasF _ hc)
          rest := fun hc => hFresh (hHas _ hc)
          apart := hApart
          has := fun c hc => hKept.has c (hHas c hc) }
  · rintro c hIn (hc | rfl)
    · exact hc
    · exact (hFresh hIn).elim

end Build

/-
  A sequence whose first step is built where it is passed
  on, by whatever builds one.
-/
theorem delivers_build
    {first : Caller → Run Value}
    {next : Caller → Value → Run Value}
    {rest : Closure}
    (h : E.Delivers (¬ E.detached) .none first s o₁ R₁)
    (hStepped : Stepped o₁)
    (hFollows : E.Follows hands .none s R₁
      (fun _ c => c.call rest []) o₁ o R')
    (hNext : ∀ step s₁ r s₂, E.Calm s₁ →
      Leads (fun c => build c (.machine E.machine) step rest)
        s₁ r s₂ →
      Leads (fun c => next c step) s₁ r s₂) :
    E.Delivers hands .none (fun c => first c >>= next c) s
      (landed o) R' := by
  cases h with
  | finishes hLeads hMoves hStep hAgrees =>
      cases hFollows with
      | proceeds h =>
          have hBuild := delivers_build_finish hStep hAgrees
            (h.later hMoves.keeps)
          exact .precede hLeads hMoves (hBuild.congr
            fun _ _ => hNext _ _ _ _ hAgrees.calm)
  | fails hLeads hMoves hMeans hAgrees =>
      cases hFollows with
      | passes =>
          rw [Direct.landed_eq hStepped]
          exact .fails hLeads.bind_error hMoves hMeans hAgrees
  | gives => exact (hStepped _ rfl).elim
  | handsOff hLeads hMoves hStep hKept hAgrees hFate hResult
      hRead =>
      subst hResult hRead
      have hBuild := delivers_build_handOff hKept _ hStep
        hAgrees hFate (fun _ hc => hc.elim)
        (hFollows.later hMoves.keeps)
      exact .precede hLeads hMoves (hBuild.congr
        fun _ _ => hNext _ _ _ _ hAgrees.calm)
  | @waits F F' act s s' step a l x o₁ R R₁ hLeads hMoves hStep
      hWaits hStuck hFoot hRest =>
      rw [Direct.landed_eq hStepped] at hRest
      have hBuild := delivers_build_suspend _ hStep hWaits hStuck
        (fun c hc => (hFoot c hc).1) hStepped hRest
        (fun _ _ hG => hG) (fun _ hc => hc.elim)
        (hFollows.later hMoves.keeps)
      refine hBuild.after hMoves ?_ fun _ _ hEnd =>
        hLeads.bind (hNext _ _ _ _ hWaits.agrees.calm hEnd)
      rintro c hIn (hc | hc)
      · exact (hFoot c hc).2 hIn
      · exact hc

end Sequence

end Resumption

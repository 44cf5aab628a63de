import Resumption.Proofs.Likeness
import Resumption.Proofs.Order.Natives

/-
  What stands around a sequence in progress, and how a
  sequence goes on from its first step.

  Around a sequence stands nothing, or another sequence whose
  first part it is, and which is built when it first ends.
  What is done before a sequence jumps to its rest, or where
  it suspends, is the library's own.

  Main declarations:
    * `Sequence.Site.spots`, `Sequence.books_withSequence`
    * `Sequence.Site.At.turnsTo_rest`
    * `Sequence.Frame`, `Sequence.Frame.around`
    * `Sequence.Frame.lodges`, `Sequence.Frame.suspends`
-/

namespace Resumption

open Run

variable {s s' s₁ t : Session}
variable {m l f a : Ref}
variable {k : Nat}

------------------------------------------------------------
-- Calls and Suspensions
------------------------------------------------------------

/- A call goes on where the closure is entered. -/
theorem Run.turnsTo_call
    (code : Closure)
    (args : List Value)
    (s : Session) :
    TurnsTo 1 (fun c => c.call code args) s
      (fun c => code.enter c args) s where
  deeper rounds depth hSome := by
    cases depth with
    | zero => cases hSome
    | succ d => exact ⟨d, Nat.le_refl _, hSome⟩
  ends _ _ := ends_call_iff.mpr

/- A session in which a step has been made that suspends. -/
def Session.suspending
    (s : Session)
    (m : Ref)
    (code : Closure) : Session :=
  (s.withLabel m (some code)).stamped

theorem Session.Books.suspending
    (s : Session)
    (m : Ref)
    (code : Closure) :
    Books ∅ s {.label s.labels.size} (s.suspending m code) := by
  have h := (Books.withLabel s m (some code)).andThen
    (.stamped _) {.label s.labels.size} (by simp)
  exact h.less (by simp)

theorem Session.bears_suspending
    (hm : m < s.machines.size)
    (code : Closure) :
    (s.suspending m code).Bears m s.labels.size (some code) :=
  Session.bears_withLabel hm (some code)

/- Code is installed, and the step names its label. -/
theorem Label.suspend_eq
    (m : Ref)
    (code : Closure)
    (awaiter : Value)
    (s : Session) :
    ∃ step : Value,
      step.step? =
        some (.suspend awaiter (.label s.labels.size)) ∧
      (do
        let l ← Label.install m code
        Run.newStep (.suspend awaiter (.label l)) :
          Run Value) s =
        some (.ok step, s.suspending m code) :=
  ⟨_, Value.step?_record_fields _ _,
    step_eq (Label.install_eq m code s) rfl⟩

------------------------------------------------------------
-- Awaiting
------------------------------------------------------------

/- The awaiter that was added is one of its future. -/
theorem Session.row_withAwaiter
    (s : Session)
    (f : Ref) :
    (s.withAwaiter (.future f true)).awaiters[s.awaiters.size]? =
      some (.future f true) := by
  simp [Session.withAwaiter]

namespace Await

variable {o : Outcome}
variable {v e : Value}
variable {captured : Bool}

/- The result of a future that has settled. -/
theorem result_eq
    (hAwaiter : s.awaiters[a]? = some (.future f captured))
    (hOutcome : s.outcome? f = some o)
    (c : Caller) :
    Awaiter.result c (.awaiter a) s = some (o.read, s) := by
  have hSettled : s.SettledAs f o := by
    rcases Option.map_eq_some_iff.mp hOutcome with ⟨t, ht, hSame⟩
    exact ⟨t, ht, hSame⟩
  rw [Awaiter.result_eq ⟨captured, hAwaiter⟩ hSettled]
  cases o <;> rfl

theorem completed_eq
    (hAwaiter : s.awaiters[a]? = some (.future f captured))
    (c : Caller) :
    Awaiter.completed c (.awaiter a) s =
      some (.ok (.bool (s.outcome? f).isSome), s) := by
  rw [Awaiter.completed_eq ⟨captured, hAwaiter⟩,
    Session.outcome?, Option.isSome_map]

/- What has settled is read at once, and the rest is called. -/
theorem turnsTo_settled
    (hAwaiter : s.awaiters[a]? = some (.future f captured))
    (hOutcome : s.outcome? f = some (.fulfilled v))
    (m : Value)
    (rest : Closure) :
    TurnsTo 1 (fun c => awaitResult c m (.awaiter a) rest) s
      (fun c => rest.enter c [v]) s := by
  have hRead : ∀ c, awaitResult c m (.awaiter a) rest s =
      c.call rest [v] s := by
    intro c
    refine step_eq (completed_eq hAwaiter c) ?_
    rw [hOutcome]
    exact step_eq (result_eq hAwaiter hOutcome c) rfl
  exact (TurnsTo.of_eq hRead).trans (turnsTo_call rest [v] s)

theorem ends_rejected
    (hAwaiter : s.awaiters[a]? = some (.future f captured))
    (hOutcome : s.outcome? f = some (.rejected e))
    (m : Value)
    (rest : Closure) :
    Ends (fun c => awaitResult c m (.awaiter a) rest) s
      (.error e) s := by
  refine ends_of_eq fun c => ?_
  refine step_eq (completed_eq hAwaiter c) ?_
  rw [hOutcome]
  exact bind_of_end (result_eq hAwaiter hOutcome c)

/- What is pending is awaited. -/
theorem ends_pending
    (hAwaiter : s.awaiters[a]? = some (.future f captured))
    (hOutcome : s.outcome? f = none)
    (m : Ref)
    (rest : Closure) :
    ∃ step : Value,
      step.step? = some
        (.suspend (.awaiter a) (.label s.labels.size)) ∧
      Ends
        (fun c => awaitResult c (.machine m) (.awaiter a) rest) s
        (.ok step)
        (s.suspending m (.received (.awaiter a) rest)) := by
  rcases Label.suspend_eq m (.received (.awaiter a) rest)
    (.awaiter a) s with ⟨step, hStep, hRun⟩
  refine ⟨step, hStep, ends_of_eq fun c => ?_⟩
  refine step_eq (completed_eq hAwaiter c) ?_
  rw [hOutcome]
  exact hRun

/- Once it has settled, it is read, and the rest is called. -/
theorem turnsTo_received
    (hBears : s.Bears m l (some (.received (.awaiter a) (.jump m l'))))
    (hAwaiter : s.awaiters[a]? = some (.future f captured))
    (hOutcome : s.outcome? f = some (.fulfilled v)) :
    TurnsTo 1 (fun c => Label.jump c m (.label l)) s
      (fun c => Label.jump c m (.label l')) s := by
  have hRead : ∀ c, (Closure.received (.awaiter a)
      (.jump m l')).enter c [] s = c.call (.jump m l') [v] s :=
    fun c => step_eq (result_eq hAwaiter hOutcome c) rfl
  exact (Label.turnsTo_jump hBears ((TurnsTo.of_eq hRead).trans
    (turnsTo_call _ [v] s)) fun _ _ => Label.lands_of_ends).mono
      (by omega)

theorem ends_received
    {rest : Closure}
    (hBears : s.Bears m l (some (.received (.awaiter a) rest)))
    (hAwaiter : s.awaiters[a]? = some (.future f captured))
    (hOutcome : s.outcome? f = some (.rejected e)) :
    Ends (fun c => Label.jump c m (.label l)) s (.error e) s :=
  Label.ends_jump hBears
    (ends_of_eq fun c => bind_of_end
      (result_eq hAwaiter hOutcome c)) nofun

end Await

namespace Sequence

------------------------------------------------------------
-- Sites
------------------------------------------------------------

variable {S J : Site}
variable {step step' resume : Value}
variable {rest : Closure}

/- The rows that a sequence comes back to. -/
def Site.spots (S : Site) : Set Spot :=
  {.sequence S.cell, .label S.entry, .label S.rest}

theorem Site.At.lt_machines
    (h : S.At m s step) :
    m < s.machines.size :=
  h.entry.lt_machines

/- A sequence that is left alone is where it was. -/
theorem Site.At.leaves
    (h : S.At m s step)
    (hLeaves : s.Leaves S.spots s') :
    S.At m s' step where
  cell := by
    rcases h.cell with ⟨t, hRow⟩
    exact ⟨t, (hLeaves _ (.inl rfl)).trans hRow⟩
  entry := hLeaves _ (.inr (.inl rfl)) _ _ h.entry
  rest := hLeaves _ (.inr (.inr rfl)) _ _ h.rest

/- A sequence is made in rows of its own. -/
theorem books_withSequence
    (s : Session)
    (m : Ref)
    (step : Value)
    (rest : Closure) :
    Session.Books ∅ s (newSite s m rest).spots
      (s.withSequence m step rest) := by
  have h₁ := Session.Books.withLabel s m (some rest)
  have h₂ := h₁.andThen (.withLabel _ m none)
    {.label s.labels.size} (by simp)
  have h₃ := h₂.andThen (.withSequenceRow _
    ⟨m, (newSite s m rest).entry, step, s.labels.size, s.task⟩)
    {.label s.labels.size, .label (newSite s m rest).entry}
    (by
      rintro x ((rfl | rfl) | ⟨⟨⟩⟩)
      · exact .inl rfl
      · exact .inr rfl)
  have h₄ := h₃.andThen
    (.relabelled _ (newSite s m rest).entry
      (.sequenceEntry s.sequences.size))
    {.label s.labels.size, .sequence s.sequences.size}
    (by
      rintro x ((rfl | rfl) | rfl)
      · exact .inl (.inl rfl)
      · exact .inr rfl
      · exact .inl (.inr rfl))
  refine h₄.less ?_
  rintro x (rfl | rfl | rfl)
  · exact .inl (.inr rfl)
  · exact .inr rfl
  · exact .inl (.inl rfl)

/- A sequence comes to another step in a row of its own. -/
theorem Site.books_resequenced
    (S : Site)
    (s : Session)
    (step : Value) :
    Session.Books S.spots s S.spots
      (s.resequenced S.cell step) := by
  have h := (Session.Books.refl S.spots s).andThen
    (.resequenced s S.cell step)
    {.label S.entry, .label S.rest} (by
      rintro x ((rfl | rfl) | rfl)
      · exact .inr (.inl rfl)
      · exact .inr (.inr rfl)
      · exact .inl rfl)
  refine h.less ?_
  rintro x (rfl | rfl | rfl)
  · exact .inr rfl
  · exact .inl (.inl rfl)
  · exact .inl (.inr rfl)

------------------------------------------------------------
-- From the First Step On
------------------------------------------------------------

/- A step that has finished leads to the rest. -/
theorem Site.At.turnsTo_rest
    {v : Value}
    (hAt : S.At m s step)
    (hStep : step.step? = some (.finish v)) :
    TurnsTo 1 (fun c => Label.jump c m (.label S.entry)) s
      (fun c => Label.jump c m (.label S.rest)) s := by
  have hEnter : ∀ c, (Closure.sequenceEntry S.cell).enter c [] s =
      Label.jump c m (.label S.rest) s := by
    intro c
    rcases hAt.row_eq with ⟨t, hRow⟩
    refine step_eq hRow ?_
    simp only [Setting.isMissing_of_step hStep, hStep,
      Bool.false_eq_true, if_false]
  exact (Label.turnsTo_jump hAt.entry (.of_eq hEnter)
    fun _ _ => Label.lands_of_ends).mono (by omega)

/- A step that suspends is suspended on anew. -/
theorem Site.At.ends_suspend
    {awaiter : Value}
    (hAt : S.At m s step)
    (hStep : step.step? = some (.suspend awaiter resume)) :
    ∃ step' : Value,
      step'.step? =
        some (.suspend awaiter (.label s.labels.size)) ∧
      Ends (fun c => Label.jump c m (.label S.entry)) s
        (.ok step')
        (s.suspending m (.sequenceResume S.cell resume)) := by
  rcases Label.suspend_eq m (.sequenceResume S.cell resume)
    awaiter s with ⟨step', hStep', hRun⟩
  refine ⟨step', hStep', Label.ends_jump hAt.entry
    (ends_of_eq fun c => ?_)
    (Setting.steps_of_step hStep').lands⟩
  rcases hAt.row_eq with ⟨t, hRow⟩
  refine step_eq hRow ?_
  simp only [Setting.isMissing_of_step hStep, hStep,
    Bool.false_eq_true, if_false]
  exact hRun

/- A step that hands off is awaited. -/
theorem Site.At.turnsTo_await
    (hAt : S.At m s step)
    (hStep : step.step? = some (.handOff (.future f))) :
    TurnsTo 0
      (fun c => (Closure.sequenceEntry S.cell).enter c []) s
      (fun c => Await.awaitResult c (.machine m)
        (.awaiter s.awaiters.size) (.jump m S.rest))
      (s.withAwaiter (.future f true)) := by
  have hEnter : ∀ c, (Closure.sequenceEntry S.cell).enter c [] s =
      (Awaiter.ofValue c (.future f) >>= fun awaiter =>
        Await.awaitResult c (.machine m) awaiter
          (.jump m S.rest)) s := by
    intro c
    rcases hAt.row_eq with ⟨t, hRow⟩
    refine step_eq hRow ?_
    simp only [Setting.isMissing_of_step hStep, hStep,
      Bool.false_eq_true, if_false]
  exact (TurnsTo.of_eq hEnter).trans
    (.finished (fun _ _ hc => hc.ofValue _)
      (fun v _ _ hc => hc.awaitResult _ v _)
      (Awaiter.leads_ofValue f s).ends)

/-
  When it has settled at once, the rest follows or its error
  is thrown; else the sequence suspends on it.
-/
theorem Site.At.turnsTo_rest_settled
    {v : Value}
    (hAt : S.At m s step)
    (hStep : step.step? = some (.handOff (.future f)))
    (hOutcome : s.outcome? f = some (.fulfilled v)) :
    TurnsTo 1 (fun c => Label.jump c m (.label S.entry)) s
      (fun c => Label.jump c m (.label S.rest))
      (s.withAwaiter (.future f true)) :=
  (Label.turnsTo_jump hAt.entry ((hAt.turnsTo_await hStep).trans
    (Await.turnsTo_settled (s.row_withAwaiter f) hOutcome _ _))
    fun _ _ => Label.lands_of_ends).mono (by omega)

theorem Site.At.ends_rejected
    {e : Value}
    (hAt : S.At m s step)
    (hStep : step.step? = some (.handOff (.future f)))
    (hOutcome : s.outcome? f = some (.rejected e)) :
    Ends (fun c => Label.jump c m (.label S.entry)) s (.error e)
      (s.withAwaiter (.future f true)) :=
  Label.ends_jump hAt.entry ((hAt.turnsTo_await hStep).ends _ _
    (Await.ends_rejected (s.row_withAwaiter f) hOutcome _ _))
      nofun

theorem Site.At.ends_pending
    (hAt : S.At m s step)
    (hStep : step.step? = some (.handOff (.future f)))
    (hOutcome : s.outcome? f = none) :
    ∃ step' : Value,
      step'.step? = some (.suspend (.awaiter s.awaiters.size)
        (.label s.labels.size)) ∧
      Ends (fun c => Label.jump c m (.label S.entry)) s
        (.ok step')
        ((s.withAwaiter (.future f true)).suspending m
          (.received (.awaiter s.awaiters.size)
            (.jump m S.rest))) := by
  rcases Await.ends_pending (s.row_withAwaiter f) hOutcome m
    (.jump m S.rest) with ⟨step', hStep', hEnds⟩
  exact ⟨step', hStep', Label.ends_jump hAt.entry
    ((hAt.turnsTo_await hStep).ends _ _ hEnds)
    (Setting.steps_of_step hStep').lands⟩

------------------------------------------------------------
-- Frames
------------------------------------------------------------

/-
  What stands around a sequence in progress: nothing, or a
  sequence that is to be built of what it first ends in, or
  one whose first part it is.
-/
inductive Frame where
  | bare
  | opening (rest : Closure)
  | within (J : Site)

namespace Frame

/- A sequence is entered at a step that it has come to. -/
def enterAt
    (m : Ref)
    (J : Site)
    (c : Caller)
    (step : Value) : Run Value := do
  Table.sequences.alter J.cell ({ · with step := step })
  Label.jump c m (.label J.entry)

/- What runs in a frame. -/
def around
    (m : Ref) :
    Frame → (Caller → Run Value) → Caller → Run Value
  | .bare, act => act
  | .opening rest, act => fun c => act c >>= fun step =>
      build c (.machine m) step rest
  | .within J, act => fun c => act c >>= enterAt m J c

/- The rows of a frame. -/
def spots : Frame → Set Spot
  | .bare => ∅
  | .opening _ => ∅
  | .within J => J.spots

/- What follows upon what stands in a frame. -/
def rest? : Frame → Option Closure
  | .bare => none
  | .opening rest => some rest
  | .within J => some J.code

/- A frame is there. -/
def At
    (m : Ref)
    (s : Session) : Frame → Prop
  | .bare => True
  | .opening _ => True
  | .within J => ∃ step, J.At m s step

variable {φ : Frame}
variable {act act₁ : Caller → Run Value}
variable {r : Except Value Value}

theorem At.leaves
    (h : φ.At m s)
    (hLeaves : s.Leaves φ.spots s') :
    φ.At m s' := by
  cases φ with
  | bare => trivial
  | opening rest => trivial
  | within J =>
      rcases h with ⟨step, hAt⟩
      exact ⟨step, hAt.leaves hLeaves⟩

theorem steady_within
    (J : Site)
    (step : Value) :
    Steady fun c => enterAt m J c step :=
  (steady_const _).bind fun _ => steady_jump m _

theorem steady_opening
    (rest : Closure)
    (step : Value) :
    Steady fun c => build c (.machine m) step rest :=
  fun _ _ hc => hc.buildSequence _ _ rest

theorem steady
    (φ : Frame)
    (h : Steady act) :
    Steady (φ.around m act) := by
  cases φ with
  | bare => exact h
  | opening rest => exact h.bind (steady_opening rest)
  | within J => exact h.bind (steady_within J)

/- What runs in a frame may be turned there. -/
theorem turnsTo
    {k : Nat}
    (φ : Frame)
    (h : TurnsTo k act s act₁ s₁)
    (hAct : Steady act)
    (hAct₁ : Steady act₁) :
    TurnsTo 0 (φ.around m act) s (φ.around m act₁) s₁ := by
  cases φ with
  | bare => exact h.mono (Nat.zero_le k)
  | opening rest =>
      exact h.before hAct hAct₁ (steady_opening rest)
  | within J => exact h.before hAct hAct₁ (steady_within J)

theorem never
    (φ : Frame)
    (h : Never act s) :
    Never (φ.around m act) s := by
  cases φ with
  | bare => exact h
  | opening rest => exact h.bind
  | within J => exact h.bind

/- What is thrown in a frame is thrown out of it. -/
theorem ends_error
    {e : Value}
    (φ : Frame)
    (h : Ends act s (.error e) s') :
    Ends (φ.around m act) s (.error e) s' := by
  cases φ with
  | bare => exact h
  | opening rest => exact h.bind_error
  | within J => exact h.bind_error

/- What a sequence ends in, within another one, lands. -/
theorem lands_within
    (h : Ends ((within J).around m act) s r s') :
    Label.Lands m r s' := by
  rcases h with ⟨rounds, depth, hRun⟩
  change (act (.ofDepth rounds depth) >>=
    enterAt m J (.ofDepth rounds depth)) s = some (r, s') at hRun
  cases hFirst : act (.ofDepth rounds depth) s with
  | none =>
      rw [bind_of_none hFirst] at hRun
      cases hRun
  | some out =>
      rcases out with ⟨q, s₁⟩
      rw [bind_of_end hFirst] at hRun
      cases q with
      | error e =>
          cases hRun
          exact nofun
      | ok step => exact Label.ensures_lands _ _ r s' hRun

/- To resume a sequence is to go on with its first part. -/
theorem turnsTo_resume
    (hAt : S.At m s step)
    (hBears : s.Bears m l
      (some (.sequenceResume S.cell resume))) :
    TurnsTo 1 (fun c => Label.jump c m (.label l)) s
      ((within S).around m fun c => Label.jump c m resume) s := by
  rcases hAt.row_eq with ⟨t, hRow⟩
  have hEnter : ∀ c,
      (Closure.sequenceResume S.cell resume).enter c [] s =
        (within S).around m (fun c => Label.jump c m resume) c s :=
    fun c => step_eq hRow rfl
  exact Label.turnsTo_jump hBears (.of_eq hEnter)
    fun _ _ => lands_within

/- A sequence is entered at what its first part has come to. -/
theorem turnsTo_entry
    (J : Site)
    (hAct : Steady act)
    (hEnds : Ends act s (.ok step) s') :
    TurnsTo 0 ((within J).around m act) s
      (fun c => Label.jump c m (.label J.entry))
      (s'.resequenced J.cell step) :=
  (TurnsTo.finished hAct (steady_within J) hEnds).trans
    (.step rfl)

/-
  What a frame is handed is the first step of a sequence, at
  which this is entered.
-/
theorem lodges
    (hRest : φ.rest? = some rest)
    (hAt : φ.At m s)
    (hAct : Steady act)
    (hEnds : Ends act s (.ok step) s')
    (hLeaves : s.Leaves φ.spots s')
    (hm : m < s'.machines.size) :
    ∃ (J : Site) (s₁ : Session), J.code = rest ∧ J.At m s₁ step ∧
      Session.Books φ.spots s' J.spots s₁ ∧
      TurnsTo 0 (φ.around m act) s
        (fun c => Label.jump c m (.label J.entry)) s₁ := by
  cases φ with
  | bare => cases hRest
  | opening rest' =>
      cases hRest
      refine ⟨newSite s' m rest, s'.withSequence m step rest, rfl,
        at_withSequence hm step rest,
        books_withSequence s' m step rest, ?_⟩
      exact (TurnsTo.finished hAct (steady_opening rest)
        hEnds).trans (.of_eq fun c => build_eq c hm step rest)
  | within J =>
      cases hRest
      rcases hAt with ⟨step₀, hAt⟩
      exact ⟨J, s'.resequenced J.cell step, rfl,
        (hAt.leaves hLeaves).resequenced step,
        J.books_resequenced s' step, turnsTo_entry J hAct hEnds⟩

/-
  What suspends in a frame is suspended on in the frame, and
  resumed there.
-/
theorem suspends
    {awaiter : Value}
    (hAt : φ.At m s)
    (hAct : Steady act)
    (hEnds : Ends act s (.ok step) s')
    (hStep : step.step? = some (.suspend awaiter (.label l)))
    (hLeaves : s.Leaves φ.spots s')
    (hm : m < s'.machines.size) :
    ∃ φ' step' l' s₁ new, Frame.rest? φ' = φ.rest? ∧
      φ'.At m s₁ ∧
      Session.Books φ.spots s' (φ'.spots ∪ new) s₁ ∧
      Ends (φ.around m act) s (.ok step') s₁ ∧
      step'.step? = some (.suspend awaiter (.label l')) ∧
      ∀ u, s₁.Leaves (φ'.spots ∪ new) u →
        TurnsTo 0 (fun c => Label.jump c m (.label l')) u
          (φ'.around m fun c => Label.jump c m (.label l)) u := by
  cases hRest : φ.rest? with
  | none =>
      cases φ with
      | opening rest => cases hRest
      | within J => cases hRest
      | bare =>
      exact ⟨bare, step, l, s', ∅, rfl, trivial,
        (Session.Books.refl ∅ s').less (by simp [spots]), hEnds,
        hStep, fun u _ => .refl _ u⟩
  | some rest =>
      rcases lodges hRest hAt hAct hEnds hLeaves hm with
        ⟨J, t, rfl, hAtJ, hBooks, hTurns⟩
      rcases hAtJ.ends_suspend hStep with
        ⟨step', hStep', hEnter⟩
      have hSuspend := hBooks.andThen (.suspending t m
        (.sequenceResume J.cell (.label l))) J.spots (by simp)
      have hBears := Session.bears_suspending hAtJ.lt_machines
        (.sequenceResume J.cell (.label l))
      have hLater : J.At m (t.suspending m
          (.sequenceResume J.cell (.label l))) step :=
        ⟨hAtJ.cell, hAtJ.entry.withLabel _,
          hAtJ.rest.withLabel _⟩
      refine ⟨within J, step', t.labels.size, _,
        {.label t.labels.size}, rfl, ⟨step, hLater⟩, hSuspend,
        hTurns.ends _ _ hEnter, hStep', fun u hu => ?_⟩
      exact (turnsTo_resume
        (hLater.leaves (hu.mono Set.subset_union_left))
        (hu _ (.inr rfl) _ _ hBears)).mono (Nat.zero_le _)

end Frame

end Sequence

end Resumption

import Resumption.Proofs.Likeness.Laws
import Resumption.Proofs.Likeness.Overt

/-
  Nothing to do is a unit of sequencing.

  Before client code, it makes no difference.  After it, only
  the value is dropped: what throws still throws, and what
  hands off to a future is awaited.

  Main declarations:
    * `Program.zero`
    * `Run.Over`, `Likeness.Dropped`, `Likeness.Drops`
    * `Sequence.drops_entry`
    * `Sequence.is_associative_with_unit`
-/

namespace Resumption

open Run

variable {L : Likeness}
variable {s s₁ s₂ t t₁ t₂ : Session}
variable {m l l' f : Ref}
variable {n k : Nat}
variable {own own' : Set Spot}
variable {step step' : Value}

------------------------------------------------------------
-- Before Client Code
------------------------------------------------------------

/- Nothing to do, as client code. -/
def Program.zero : Program :=
  .stepping (.finish .undefined)

namespace Sequence

variable {A : Site}
variable {b c : Code}

/- Nothing to do is a unit on the left. -/
theorem alike_zero
    (hm : m < s.machines.size)
    (hBlind : L.Blind m (b []))
    (h : L.alike ⟨s, own⟩ ⟨t, own'⟩) :
    L.Alike m n own own'
      (fun caller => (Program.zero.andThen m b).run caller) s
      (fun caller => (b []).run caller) t := by
  rcases Program.run_stepping (.finish .undefined) s with ⟨step, hStep, hZero⟩
  have hBooks := (Session.Books.stamped s).trans
    (books_withSequence s.stamped m step (.client b))
  have hLeaves := hBooks.leaves own (Set.disjoint_empty _)
    (L.sound h).1
  have hm₁ : m < s.stamped.machines.size := hm
  have hAt := at_withSequence hm₁ step (.client b)
  have hBuild : TurnsTo 0
      (fun caller => (Program.zero.andThen m b).run caller) s
      (fun caller => build caller (.machine m) step (.client b))
      s.stamped :=
    (TurnsTo.of_eq fun caller => by
      rw [Program.run_andThen]
      exact bind_of_end (hZero caller))
  have hTurns := (hBuild.trans
    (.of_eq fun caller => build_eq caller hm₁ step _)).trans
      (hAt.turnsTo_rest hStep)
  have hAlike := L.left_writes h (by
    simpa using hBooks.writes own)
  have hCalled := L.left (L.alike_less hAlike
    Set.subset_union_left subset_rfl) (.calling _ own)
  have hBody := (hBlind n own own' _ t hCalled).of_turns
    (Likeness.turnsTo_client b _) (.refl _ t)
    (.refl _ own) (.refl _ own')
  exact (hBody.jump_left hAt.rest).of_turns hTurns (.refl _ _)
    hLeaves (.refl _ own')

end Sequence

------------------------------------------------------------
-- Ends that Drop a Value
------------------------------------------------------------

/-
  What an end comes to: what was thrown or returned, or how
  the future has settled that was handed off to.
-/
inductive Run.Over
    (s : Session) :
    Except Value Value → Except Value Value → Prop where
  | throws (e) : Over s (.error e) (.error e)
  | returns
      {step v}
      (hStep : step.step? = some (.finish v)) :
      Over s (.ok step) (.ok v)
  | settles
      {step f o}
      (hStep : step.step? = some (.handOff (.future f)))
      (hOutcome : s.outcome? f = some o) :
      Over s (.ok step) o.read

namespace Likeness

/- An end is what another one comes to, without its value. -/
def Void
    (L : Likeness) :
    Except Value Value → Except Value Value → Prop
  | .error e, .error e' => L.same e e'
  | .ok step, .ok _ => step.step? = some (.finish .undefined)
  | _, _ => False

/- A run ends as another one has, but without its value. -/
def Voids
    (L : Likeness)
    (own own' : Set Spot)
    (act : Caller → Run Value)
    (s : Session)
    (r' : Except Value Value)
    (t : Session) : Prop :=
  ∃ r q s₁, Run.Ends act s r s₁ ∧ s.Leaves own s₁ ∧
    L.alike ⟨s₁, own⟩ ⟨t, own'⟩ ∧ Run.Over t r' q ∧ L.Void r q

/-
  An end drops the value of another one: it is over, and so is
  the other one; or it is suspended on a pending future, to
  which the other one hands off, and will end as this settles;
  or both are suspended on the same source, and go on as told.
-/
inductive Dropped
    (L : Likeness)
    (m : Ref)
    (goes : Set Spot → Set Spot →
      Value → Session → Value → Session → Prop)
    (own own' : Set Spot) :
    Except Value Value → Session →
      Except Value Value → Session → Prop where
  | ended
      {r q r' s t}
      (hOver : Run.Over t r' q)
      (hVoid : L.Void r q)
      (hAlike : L.alike ⟨s, own⟩ ⟨t, own'⟩) :
      Dropped L m goes own own' r s r' t
  | awaits
      {step step' a f captured resume s t}
      (held : Set Spot)
      (hStep : step.step? = some (.suspend (.awaiter a) resume))
      (hStep' : step'.step? = some (.handOff (.future f)))
      (hAwaiter : s.awaiters[a]? = some (.future f captured))
      (hPending : t.outcome? f = none)
      (hOwn : Disjoint held own)
      (hAlike : L.alike ⟨s, own ∪ held⟩ ⟨t, own'⟩)
      (hVoids : ∀ others others' s₁ t₁, Disjoint held others →
        L.alike ⟨s₁, others ∪ held⟩ ⟨t₁, others'⟩ →
        s.Leaves held s₁ → s₁.Completed (.awaiter a) →
          L.Voids others others'
            (fun c => Label.jump c m resume) s₁ (.ok step') t₁) :
      Dropped L m goes own own' (.ok step) s (.ok step') t
  | suspends
      {step step' awaiter awaiter' resume resume' s t}
      (held held' : Set Spot)
      (hStep : step.step? = some (.suspend awaiter resume))
      (hStep' : step'.step? = some (.suspend awaiter' resume'))
      (hSource : L.Source s t awaiter awaiter')
      (hOwn : Disjoint held own)
      (hOwn' : Disjoint held' own')
      (hAlike : L.alike ⟨s, own ∪ held⟩ ⟨t, own' ∪ held'⟩)
      (hGoes : ∀ others others' s₁ t₁,
        Disjoint held others → Disjoint held' others' →
        L.alike ⟨s₁, others ∪ held⟩ ⟨t₁, others' ∪ held'⟩ →
        s.Leaves held s₁ → t.Leaves held' t₁ →
        s₁.Completed awaiter → t₁.Completed awaiter' →
          goes others others' resume s₁ resume' t₁) :
      Dropped L m goes own own' (.ok step) s (.ok step') t

/-
  What is resumed at a label drops the value of what is at
  another one, for so many stretches.
-/
def Drops
    (L : Likeness)
    (m : Ref) : Nat → Set Spot → Set Spot →
      Value → Session → Value → Session → Prop
  | 0 => fun _ _ _ _ _ _ => True
  | n + 1 => fun own own' l s l' t =>
      Run.Together own own'
        (fun caller => Label.jump caller m l) s
        (fun caller => Label.jump caller m l') t
        (L.Dropped m (L.Drops m n) own own')

end Likeness

namespace Sequence

------------------------------------------------------------
-- After Client Code
------------------------------------------------------------

variable {A : Site}
variable {act : Caller → Run Value}

/- Nothing to do ends under its label. -/
theorem ends_zero
    (hBears : s.Bears m l (some (.client fun _ => .zero))) :
    ∃ step : Value, step.step? = some (.finish .undefined) ∧
      Ends (fun c => Label.jump c m (.label l)) s (.ok step)
        (calling s).stamped := by
  rcases Program.run_stepping (.finish .undefined) (calling s) with
    ⟨step, hStep, hRun⟩
  exact ⟨step, hStep, Label.ends_jump hBears (ends_of_eq hRun)
    (Setting.steps_of_step hStep).lands⟩

theorem books_zero
    (s : Session) :
    Session.Books ∅ s ∅ (calling s).stamped :=
  (Session.Books.calling s).trans (.stamped _)

/-
  Where a future has settled, what comes to nothing to do upon
  its value, and throws its error, ends as it has settled.
-/
theorem voids_settled
    {o : Outcome}
    (hStep : step.step? = some (.handOff (.future f)))
    (hBears : s₁.Bears m l (some (.client fun _ => .zero)))
    (hLeaves : s.Leaves own s₁)
    (hAlike : L.alike ⟨s₁, own⟩ ⟨t, own'⟩)
    (hOutcome : s₁.outcome? f = some o)
    (hFulfilled : ∀ v, o = .fulfilled v →
      TurnsTo 1 act s (fun c => Label.jump c m (.label l)) s₁)
    (hRejected : ∀ e, o = .rejected e →
      Ends act s (.error e) s₁) :
    L.Voids own own' act s (.ok step) t := by
  rcases L.outcome_some hAlike hOutcome with
    ⟨o', hOutcome', hAnswers⟩
  have hBooks := books_zero s₁
  have hKept := hBooks.leaves own (Set.disjoint_empty _)
    (L.sound hAlike).1
  have hAlike₂ : L.alike ⟨(calling s₁).stamped, own⟩ ⟨t, own'⟩ :=
    L.left_writes hAlike (by simpa using hBooks.writes own)
  cases o with
  | fulfilled v =>
      cases o' with
      | rejected e' => exact hAnswers.elim
      | fulfilled v' =>
      rcases ends_zero hBears with ⟨step₂, hStep₂, hEnds⟩
      exact ⟨.ok step₂, .ok v', _,
        (hFulfilled v rfl).ends _ _ hEnds, hLeaves.trans hKept,
        hAlike₂, .settles hStep hOutcome', hStep₂⟩
  | rejected e =>
      cases o' with
      | fulfilled v' => exact hAnswers.elim
      | rejected e' =>
      exact ⟨.error e, .error e', s₁, hRejected e rfl, hLeaves,
        hAlike, .settles hStep hOutcome', hAnswers⟩

/-
  A sequence of a first step that has met another one, and of
  nothing to do, drops the value of the other one.
-/
def Idle
    (L : Likeness)
    (m : Ref)
    (n : Nat)
    (own own' : Set Spot)
    (act : Caller → Run Value)
    (s : Session)
    (step' : Value)
    (t : Session) : Prop :=
  ∃ r s₁, Ends act s r s₁ ∧ s.Leaves own s₁ ∧
    L.Dropped m (L.Drops m n) own own' r s₁ (.ok step') t

/- A hand-off to what is pending is suspended on. -/
theorem idle_pending
    (hCode : A.code = .client fun _ => .zero)
    (hAt : A.At m s step)
    (hFree : Disjoint own A.spots)
    (hStep : step.step? = some (.handOff (.future f)))
    (hStep' : step'.step? = some (.handOff (.future f)))
    (hAlike : L.alike ⟨s, own ∪ A.spots⟩ ⟨t, own'⟩)
    (hOutcome : s.outcome? f = none) :
    Idle L m n own own'
      (fun c => Label.jump c m (.label A.entry)) s step' t := by
  rcases hAt.ends_pending hStep hOutcome with
    ⟨made, hMade, hEnds⟩
  have hBooks := (Session.Books.withAwaiter s f).andThen
    (.suspending _ m (.received (.awaiter s.awaiters.size)
      (.jump m A.rest))) {.awaiter s.awaiters.size} (by simp)
  have hFramed := hBooks.frame A.spots
  rw [Set.union_empty] at hFramed
  have hHas := (L.sound hAlike).1
  have hKept := hFramed.leaves own hFree fun x hx =>
    hHas x (.inl hx)
  have hKeptA := hBooks.leaves A.spots (Set.disjoint_empty _)
    fun x hx => hHas x (.inr hx)
  have hBears := Session.bears_suspending
    (s := s.withAwaiter (.future f true)) hAt.lt_machines
    (.received (.awaiter s.awaiters.size) (.jump m A.rest))
  have hAwaiter := s.row_withAwaiter f
  refine ⟨_, _, hEnds, hKept, .awaits
    (A.spots ∪ ({.awaiter s.awaiters.size} ∪
      {.label s.labels.size})) hMade hStep' hAwaiter
    (L.outcome_none hAlike hOutcome)
    (hFramed.apart own hFree fun x hx => hHas x (.inl hx)).symm
    (L.left_writes hAlike (hFramed.writes own)) ?_⟩
  intro others others' s₂ t₂ _ hAlike₂ hLeaves hCompleted
  have hRest := (hAt.leaves (hKeptA.trans
    (hLeaves.mono Set.subset_union_left))).rest
  rw [hCode] at hRest
  have hBears₂ := hLeaves _ (.inr (.inr rfl)) _ _ hBears
  have hAwaiter₂ := (hLeaves _ (.inr (.inl rfl))).trans hAwaiter
  rcases Option.isSome_iff_exists.mp
    (hCompleted _ f true rfl hAwaiter₂) with ⟨o, hOutcome₂⟩
  refine voids_settled hStep' hRest (.refl s₂ others)
    (L.alike_less hAlike₂ Set.subset_union_left subset_rfl)
    hOutcome₂ ?_ ?_
  · rintro v rfl
    exact Await.turnsTo_received hBears₂ hAwaiter₂ hOutcome₂
  · rintro e rfl
    exact Await.ends_received hBears₂ hAwaiter₂ hOutcome₂

/- A hand-off to what has settled is over at once. -/
theorem idle_settled
    {o : Outcome}
    (hCode : A.code = .client fun _ => .zero)
    (hAt : A.At m s step)
    (hStep : step.step? = some (.handOff (.future f)))
    (hStep' : step'.step? = some (.handOff (.future f)))
    (hAlike : L.alike ⟨s, own ∪ A.spots⟩ ⟨t, own'⟩)
    (hOutcome : s.outcome? f = some o) :
    Idle L m n own own'
      (fun c => Label.jump c m (.label A.entry)) s step' t := by
  have hBooks := Session.Books.withAwaiter s f
  have hHas := (L.sound hAlike).1
  have hKept := hBooks.leaves (own ∪ A.spots)
    (Set.disjoint_empty _) hHas
  have hRest := (hAt.leaves (hKept.mono
    Set.subset_union_right)).rest
  rw [hCode] at hRest
  have hLess : L.alike ⟨s, own ∪ ∅⟩ ⟨t, own'⟩ :=
    L.alike_less hAlike
      (Set.union_subset_union_right own (Set.empty_subset _))
      subset_rfl
  have hAlike₁ := L.left_writes hLess (hBooks.writes own)
  rcases voids_settled (o := o) hStep' hRest
    (hKept.mono Set.subset_union_left)
    (L.alike_less hAlike₁ Set.subset_union_left subset_rfl)
    hOutcome
    (fun v hv => hAt.turnsTo_rest_settled hStep
      (hOutcome.trans (congrArg some hv)))
    (fun e he => hAt.ends_rejected hStep
      (hOutcome.trans (congrArg some he))) with
    ⟨r, q, s₂, hEnds, hLeaves, hAlike₂, hOver, hVoid⟩
  exact ⟨r, s₂, hEnds, hLeaves, .ended hOver hVoid hAlike₂⟩

/- What follows upon a first part that has finished is over. -/
theorem idle_finished
    {v : Value}
    {v' : Value}
    (hCode : A.code = .client fun _ => .zero)
    (hAt : A.At m s step)
    (hStep : step.step? = some (.finish v))
    (hStep' : step'.step? = some (.finish v'))
    (hAlike : L.alike ⟨s, own⟩ ⟨t, own'⟩) :
    Idle L m n own own'
      (fun c => Label.jump c m (.label A.entry)) s step' t := by
  have hBooks := books_zero s
  have hRest := hAt.rest
  rw [hCode] at hRest
  rcases ends_zero hRest with ⟨step₂, hStep₂, hEnds⟩
  exact ⟨.ok step₂, _, (hAt.turnsTo_rest hStep).ends _ _ hEnds,
    hBooks.leaves own (Set.disjoint_empty _) (L.sound hAlike).1,
    .ended (.returns hStep') hStep₂ (L.left_writes hAlike (by
      simpa using hBooks.writes own))⟩

/-
  It is resumed with its first part, and entered where this
  has met the other run again.
-/
theorem drops_resumed
    {resume resume' : Value}
    (hAt : A.At m s step)
    (hFree : Disjoint own A.spots)
    (hBears : s.Bears m l
      (some (.sequenceResume A.cell resume)))
    (hFirst : L.Resumes m (k + 1) (own ∪ A.spots) own'
      resume s resume' t)
    (hEntry : ∀ s step t step', A.At m s step →
      L.Meets (L.Resumes m k) (own ∪ A.spots) own'
        (.ok step) s (.ok step') t →
      Idle L m k own own'
        (fun c => Label.jump c m (.label A.entry)) s step' t) :
    L.Drops m (k + 1) own own' (.label l) s resume' t := by
  have hTurns := Frame.turnsTo_resume hAt hBears
  cases hFirst with
  | never hNever hNever' =>
      exact .never (hTurns.never ((Frame.within A).never hNever))
        hNever'
  | @ends r s₁ r' t₁ hEnds hEnds' hLeaves hLeaves' hMeets =>
  rcases r with e | y <;> rcases r' with e' | y'
  · cases hMeets with
    | throws hSame hAlike =>
    exact .ends
      (hTurns.ends _ _ ((Frame.within A).ends_error hEnds)) hEnds'
      (hLeaves.mono Set.subset_union_left) hLeaves'
      (.ended (.throws e') hSame
        (L.alike_less hAlike Set.subset_union_left subset_rfl))
  · cases hMeets
  · cases hMeets
  · have hBooks := A.books_resequenced s₁ y
    have hHas := (L.sound hMeets.alike).1
    have hAt₁ := (hAt.leaves (hLeaves.mono
      Set.subset_union_right)).resequenced y
    rw [← Set.union_empty own'] at hMeets
    have hMeets₁ := hMeets.books hBooks (.refl ∅ t₁)
    rw [Set.union_empty] at hMeets₁
    rcases hEntry _ _ _ _ hAt₁ hMeets₁ with
      ⟨q, s₂, hEntered, hKept, hDropped⟩
    have hEnd := (hTurns.trans (Frame.turnsTo_entry A
      (steady_jump m resume) hEnds)).ends _ _ hEntered
    exact .ends hEnd hEnds'
      ((hLeaves.mono Set.subset_union_left).trans
        ((hBooks.leaves own hFree fun x hx =>
          hHas x (.inl hx)).trans hKept))
      hLeaves' hDropped

/-
  A sequence of nothing to do is idle wherever its first part
  has met another run.
-/
theorem idle_entry
    (hCode : A.code = .client fun _ => .zero)
    (hAt : A.At m s step)
    (hFree : Disjoint own A.spots)
    (hMeets : L.Meets (L.Resumes m n) (own ∪ A.spots) own'
      (.ok step) s (.ok step') t) :
    Idle L m n own own'
      (fun c => Label.jump c m (.label A.entry)) s step' t := by
  induction n using Nat.strong_induction_on
    generalizing own own' s t step step' with
  | _ n ih =>
  cases hMeets with
  | returns hStep hStep' _ hAlike =>
      exact idle_finished hCode hAt hStep hStep'
        (L.alike_less hAlike Set.subset_union_left subset_rfl)
  | @handsOff _ _ f _ _ hStep hStep' hAlike =>
      cases hOutcome : s.outcome? f with
      | some o =>
          exact idle_settled hCode hAt hStep hStep' hAlike
            hOutcome
      | none =>
          exact idle_pending hCode hAt hFree hStep hStep' hAlike
            hOutcome
  | @suspends _ _ awaiter awaiter' resume resume' _ _ held held'
      hStep hStep' hSource hOwn hOwn' hAlike hNext =>
      rcases hAt.ends_suspend hStep with ⟨made, hMade, hEnds⟩
      have hBooks := Session.Books.suspending s m
        (.sequenceResume A.cell resume)
      have hFramed := hBooks.frame (A.spots ∪ held)
      rw [Set.union_empty] at hFramed
      have hApart : Disjoint own (A.spots ∪ held) :=
        Set.disjoint_union_right.mpr ⟨hFree,
          (Set.disjoint_union_right.mp hOwn).1.symm⟩
      have hHas := (L.sound hAlike).1
      have hHasOwn : ∀ x ∈ own, s.HasSpot x :=
        fun x hx => hHas x (.inl (.inl hx))
      have hKept := hBooks.leaves _ (Set.disjoint_empty _) hHas
      rw [Set.union_assoc] at hAlike
      have hAlike₁ := L.left_writes hAlike (hFramed.writes own)
      refine ⟨_, _, hEnds, hFramed.leaves own hApart hHasOwn,
        .suspends (A.spots ∪ held ∪ {.label s.labels.size}) held'
          hMade hStep' (hSource.books hBooks (.refl ∅ t))
          (hFramed.apart own hApart hHasOwn).symm hOwn' hAlike₁
          ?_⟩
      intro others others' s₂ t₂ hOthers hOthers' hAlike₂ hLeaves
        hLeaves' hCompleted hCompleted'
      cases n with
      | zero => trivial
      | succ k =>
      rw [Set.disjoint_union_left, Set.disjoint_union_left]
        at hOthers
      have hFirst := hNext (others ∪ A.spots) others' s₂ t₂
        (Set.disjoint_union_right.mpr
          ⟨hOthers.1.2, (Set.disjoint_union_right.mp hOwn).2⟩)
        hOthers'
        (L.alike_less hAlike₂ (by
          rintro x ((hx | hx) | hx)
          · exact .inl hx
          · exact .inr (.inl (.inl hx))
          · exact .inr (.inl (.inr hx))) subset_rfl)
        ((hKept.mono fun x hx => .inr hx).trans
          (hLeaves.mono fun x hx => .inl (.inr hx)))
        hLeaves' hCompleted hCompleted'
      refine drops_resumed
        ((hAt.leaves (hKept.mono fun x hx => .inl (.inr hx))).leaves
          (hLeaves.mono fun x hx => .inl (.inl hx)))
        hOthers.1.1.symm
        (hLeaves _ (.inr rfl) _ _
          (Session.bears_suspending hAt.lt_machines _)) hFirst ?_
      intro s₃ step₃ t₃ step₃' hAt₃ hMeets₃
      exact ih k (by omega) hAt₃ hOthers.1.1.symm hMeets₃

/- Nothing to do, after a step that meets itself. -/
theorem idle_zero
    {a a' : Value}
    (hm : m < s.machines.size)
    (hFirst : L.Meets (L.Resumes m n) own own'
      (.ok a) s (.ok a') t) :
    Idle L m n own own'
      (fun caller => ((Program.done a).andThen m fun _ =>
        .zero).run caller) s a' t := by
  have hBooks := books_withSequence s m a (.client fun _ => .zero)
  have hHas := (L.sound hFirst.alike).1
  have hBuild := TurnsTo.of_eq fun caller =>
    build_eq caller hm a (.client fun _ => .zero)
  rw [← Set.union_empty own, ← Set.union_empty own'] at hFirst
  have hMeets := hFirst.books hBooks (.refl ∅ t)
  rw [Set.union_empty own'] at hMeets
  rcases idle_entry rfl
    (at_withSequence hm a (.client fun _ => .zero))
    (hBooks.apart own (Set.disjoint_empty _) hHas) hMeets with
    ⟨r, s₁, hEnds, hLeaves, hDropped⟩
  simp only [Program.run_done_andThen]
  exact ⟨r, s₁, hBuild.ends _ _ hEnds,
    (hBooks.leaves own (Set.disjoint_empty _) hHas).trans hLeaves,
    hDropped⟩

/-
  Sequencing is associative, and nothing to do is a unit of
  it, but that it drops the value of what comes before it.
-/
theorem is_associative_with_unit
    {a a' : Value}
    {b c : Code}
    (hm : m < s.machines.size)
    (hm' : m < t.machines.size)
    (hFirst : ∀ n, L.Meets (L.Resumes m n) own own'
      (.ok a) s (.ok a') t)
    (hNext : L.Blind m (b []))
    (hLast : L.Blind m (c [])) :
    ∀ n,
      L.Alike m n own own'
        (fun caller => (((Program.done a).andThen m b).andThen m
          c).run caller) s
        (fun caller => ((Program.done a').andThen m fun _ =>
          (b []).andThen m c).run caller) t ∧
      L.Alike m n own own'
        (fun caller => (Program.zero.andThen m b).run caller) s
        (fun caller => (b []).run caller) t ∧
      Idle L m n own own'
        (fun caller => ((Program.done a).andThen m fun _ =>
          .zero).run caller) s a' t :=
  fun n => ⟨alike_assoc hm hm' (hFirst n) hNext hLast,
    alike_zero hm hNext (hFirst n).alike, idle_zero hm (hFirst n)⟩

------------------------------------------------------------
-- Three Reports
------------------------------------------------------------

/-
  A session with a pending future, one awaiter of it, and a
  label, under which client code reports and then hands off to
  the future.
-/
private def pausing : Session :=
  { Session.empty with
    machines := #[⟨#[0], true⟩]
    labels := #[⟨.int 0, .machine 0, some (.client fun _ =>
      (Program.stepping (.handOff (.future 0))).reporting
        "first")⟩]
    futures := #[default]
    awaiters := #[.future 0 true] }

/- Code that reports, and has nothing to do. -/
private def second : Code :=
  fun _ => Program.zero.reporting "second"

/- Code that reports, and fails. -/
private def third : Code :=
  fun _ => (Program.fail (.str "lost")).reporting "third"

/- A step that suspends on the future, and resumes there. -/
private def pause : Value :=
  .record (.object 0)
    (StepView.suspend (.awaiter 0) (.label 0)).fields

private theorem meets_pause
    (n : Nat) :
    Likeness.overt.Meets (Likeness.overt.Resumes 0 n) ∅ ∅
      (.ok pause) pausing (.ok pause) pausing := by
  have hBears : pausing.Bears 0 0 (some (.client fun _ =>
      (Program.stepping (.handOff (.future 0))).reporting
        "first")) := ⟨0, rfl, rfl⟩
  have hSound : Scene.Sound ⟨pausing, ∅ ∪ {.label 0}⟩ := by
    rintro x (hx | rfl)
    · exact hx.elim
    · exact Nat.zero_lt_one
  have hAlike : Likeness.overt.alike
      ⟨pausing, ∅ ∪ {.label 0}⟩ ⟨pausing, ∅ ∪ {.label 0}⟩ :=
    ⟨hSound, hSound, rfl, rfl, rfl⟩
  have hBlind : Likeness.overt.Blind 0
      ((Program.stepping (.handOff (.future 0))).reporting
        "first") :=
    Likeness.blind_handOff.reporting Likeness.logs_overt "first"
  exact Likeness.meets_suspended (Value.step?_record_fields _ _)
    hBears hBears (.future rfl rfl)
    (Set.disjoint_empty _) (Set.disjoint_empty _) hAlike hBlind

/- The step that suspends, and the two reports after it. -/
theorem is_associative_with_unit_pausing :
    Likeness.overt.Alike 0 2 ∅ ∅
      (fun caller => (((Program.done pause).andThen 0
        second).andThen 0 third).run caller) pausing
      (fun caller => ((Program.done pause).andThen 0 fun _ =>
        (second []).andThen 0 third).run caller) pausing ∧
    Likeness.overt.Alike 0 2 ∅ ∅
      (fun caller => (Program.zero.andThen 0 second).run caller)
      pausing (fun caller => (second []).run caller) pausing ∧
    Idle Likeness.overt 0 2 ∅ ∅
      (fun caller => ((Program.done pause).andThen 0 fun _ =>
        .zero).run caller) pausing pause pausing :=
  is_associative_with_unit (by decide) (by decide) meets_pause
    ((Likeness.blind_finish rfl).reporting Likeness.logs_overt
      "second")
    ((Likeness.blind_fail rfl).reporting Likeness.logs_overt
      "third") 2

end Sequence

end Resumption

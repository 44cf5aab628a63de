import Resumption.Proofs.Likeness.Frames

/-
  Two sequences in progress go on alike, if what follows upon
  them does, and the first one may stand in a frame.

  The induction is on the number of resumptions that are still
  looked at.  At each of them the first parts have gone on
  alike, and both sequences are entered anew.

  Main declarations:
    * `Sequence.Lined`
    * `Sequence.Lined.suspended`, `Sequence.Lined.pending`
    * `Sequence.Lined.enters`
-/

namespace Resumption

open Run

variable {L : Likeness}
variable {s s₁ s₂ t t₁ t₂ : Session}
variable {m l l' f : Ref}
variable {n : Nat}
variable {own own' held held' : Set Spot}
variable {step step' awaiter awaiter' : Value}

------------------------------------------------------------
-- Outcomes and Awaiters
------------------------------------------------------------

namespace Likeness

/- Where a future has settled, it has in both sessions. -/
theorem outcome_some
    {X Y : Scene}
    {o : Outcome}
    (h : L.alike X Y)
    (hOutcome : X.session.outcome? f = some o) :
    ∃ o', Y.session.outcome? f = some o' ∧
      Answers L.same o.read o'.read := by
  have hRel := L.outcome h f
  rw [hOutcome] at hRel
  cases hSome : Y.session.outcome? f with
  | none =>
      rw [hSome] at hRel
      cases hRel
  | some o' =>
      rw [hSome] at hRel
      cases hRel with
      | some hAnswers => exact ⟨o', rfl, hAnswers⟩

/- Where it is pending, it is in both. -/
theorem outcome_none
    {X Y : Scene}
    (h : L.alike X Y)
    (hOutcome : X.session.outcome? f = none) :
    Y.session.outcome? f = none := by
  have hRel := L.outcome h f
  rw [hOutcome] at hRel
  cases hSome : Y.session.outcome? f with
  | none => rfl
  | some o' =>
      rw [hSome] at hRel
      cases hRel

end Likeness

namespace Sequence

------------------------------------------------------------
-- Places
------------------------------------------------------------

/-
  A sequence, and a label that what follows upon it comes back
  to, if there is one, with the code that is under it.
-/
structure Place extends Site where
  back : Option (Ref × Closure)

/- A sequence that nothing is to be kept for. -/
def Site.alone (S : Site) : Place :=
  { S with back := none }

/- A sequence that comes back to a label. -/
def Site.returning
    (S : Site)
    (l : Ref)
    (code : Closure) : Place :=
  { S with back := some (l, code) }

namespace Place

/- The row that what follows comes back to. -/
def kept (A : Place) : Set Spot :=
  { x | ∃ p ∈ A.back, x = .label p.1 }

/- The rows of a sequence, and that of what follows. -/
def spots (A : Place) : Set Spot :=
  A.kept ∪ A.toSite.spots

@[simp] theorem spots_alone (S : Site) :
    S.alone.spots = S.spots := by
  have hNone : S.alone.kept = ∅ := by
    simp [kept, Site.alone]
  rw [spots, hNone, Set.empty_union]
  rfl

@[simp] theorem spots_returning
    (S : Site)
    (l : Ref)
    (code : Closure) :
    (S.returning l code).spots = {.label l} ∪ S.spots := by
  have hOne : (S.returning l code).kept = {.label l} := by
    simp [kept, Site.returning]
  rw [spots, hOne]
  rfl

/- A sequence is there, at a step, and so is the label. -/
structure At
    (A : Place)
    (m : Ref)
    (s : Session)
    (step : Value) : Prop extends A.toSite.At m s step where
  back : ∀ p ∈ A.back, s.Bears m p.1 (some p.2)

theorem At.leaves
    {A : Place}
    (h : A.At m s step)
    (hLeaves : s.Leaves A.spots s₁) :
    A.At m s₁ step where
  toAt := Site.At.leaves h.toAt
    (hLeaves.mono Set.subset_union_right)
  back p hp := hLeaves _ (.inl ⟨p, hp, rfl⟩) _ _ (h.back p hp)

theorem At.resequenced
    {A : Place}
    (h : A.At m s step)
    (step' : Value) :
    A.At m (s.resequenced A.cell step') step' where
  toAt := Site.At.resequenced h.toAt step'
  back := h.back

theorem books_resequenced
    (A : Place)
    (s : Session)
    (step : Value) :
    Session.Books A.spots s A.spots
      (s.resequenced A.cell step) :=
  (A.toSite.books_resequenced s step).frame A.kept

end Place

theorem Site.At.alone
    {S : Site}
    (h : S.At m s step) :
    S.alone.At m s step where
  toAt := h
  back := nofun

theorem Site.At.returning
    {S : Site}
    {code : Closure}
    (h : S.At m s step)
    (hBears : s.Bears m l (some code)) :
    (S.returning l code).At m s step where
  toAt := h
  back := by
    rintro _ ⟨⟩
    exact hBears

variable {φ φ' : Frame}
variable {A B : Place}

------------------------------------------------------------
-- Sequences in Line
------------------------------------------------------------

/-
  Two sequences are in progress in alike sessions, the first
  one in a frame, and in rows of their own.
-/
structure Lined
    (L : Likeness)
    (m : Ref)
    (φ : Frame)
    (A B : Place)
    (own own' : Set Spot)
    (s t : Session) : Prop where
  frame : φ.At m s
  left : ∃ step, A.At m s step
  right : ∃ step, B.At m t step
  free : Disjoint own (φ.spots ∪ A.spots)
  apart : Disjoint φ.spots A.spots
  free' : Disjoint own' B.spots
  alike : L.alike ⟨s, own ∪ (φ.spots ∪ A.spots)⟩
    ⟨t, own' ∪ B.spots⟩

namespace Lined

/-
  Two sequences in rows that have just been made are in line,
  where their first parts have met.
-/
theorem fresh
    {goes : Set Spot → Set Spot →
      Value → Session → Value → Session → Prop}
    {P P' : Set Spot}
    (hSpots : φ.spots = ∅)
    (hFrame : φ.At m s₁)
    (hAt : A.At m s₁ step)
    (hAt' : B.At m t₁ step')
    (hBooks : Session.Books P s A.spots s₁)
    (hBooks' : Session.Books P' t B.spots t₁)
    (hFree : Disjoint own P)
    (hFree' : Disjoint own' P')
    (hMeets : L.Meets goes (own ∪ P) (own' ∪ P')
      (.ok step) s (.ok step') t) :
    Lined L m φ A B own own' s₁ t₁ ∧
      L.Meets goes (own ∪ (φ.spots ∪ A.spots)) (own' ∪ B.spots)
        (.ok step) s₁ (.ok step') t₁ ∧
      s.Leaves own s₁ ∧ t.Leaves own' t₁ := by
  have hHas : ∀ x ∈ own, s.HasSpot x :=
    fun x hx => (L.sound hMeets.alike).1 x (.inl hx)
  have hHas' : ∀ x ∈ own', t.HasSpot x :=
    fun x hx => (L.sound hMeets.alike).2 x (.inl hx)
  have hMet := hMeets.books hBooks hBooks'
  have hAll : φ.spots ∪ A.spots = A.spots := by
    rw [hSpots, Set.empty_union]
  rw [← hAll] at hMet
  refine ⟨{ frame := hFrame
            left := ⟨step, hAt⟩
            right := ⟨step', hAt'⟩
            free := ?_
            apart := ?_
            free' := hBooks'.apart own' hFree' hHas'
            alike := hMet.alike }, hMet,
    hBooks.leaves own hFree hHas, hBooks'.leaves own' hFree' hHas'⟩
  · rw [hAll]
    exact hBooks.apart own hFree hHas
  · rw [hSpots]
    exact Set.empty_disjoint _

theorem later
    (h : Lined L m φ A B own own' s t)
    (hLeaves : s.Leaves (φ.spots ∪ A.spots) s₁)
    (hLeaves' : t.Leaves B.spots t₁)
    (hAlike : L.alike ⟨s₁, own ∪ (φ.spots ∪ A.spots)⟩
      ⟨t₁, own' ∪ B.spots⟩) :
    Lined L m φ A B own own' s₁ t₁ :=
  { h with
    frame := h.frame.leaves (hLeaves.mono Set.subset_union_left)
    left := h.left.imp fun _ hAt =>
      hAt.leaves (hLeaves.mono Set.subset_union_right)
    right := h.right.imp fun _ hAt => hAt.leaves hLeaves'
    alike := hAlike }

/-
  If both suspend on the same source, with some rows held,
  then they do so alike, if they are resumed alike.
-/
theorem suspended
    (held held' : Set Spot)
    (h : Lined L m φ A B own own' s t)
    (hEnds : Ends (fun c => Label.jump c m (.label A.entry)) s
      (.ok step) s₁)
    (hEnds' : Ends (fun c => Label.jump c m (.label B.entry)) t
      (.ok step') t₁)
    (hStep : step.step? = some (.suspend awaiter (.label l)))
    (hStep' : step'.step? = some (.suspend awaiter' (.label l')))
    (hSource : L.Source s₁ t₁ awaiter awaiter')
    (hLeaves : s.Leaves (own ∪ (φ.spots ∪ A.spots)) s₁)
    (hLeaves' : t.Leaves (own' ∪ B.spots) t₁)
    (hHeld : Disjoint held (own ∪ (φ.spots ∪ A.spots)))
    (hHeld' : Disjoint held' (own' ∪ B.spots))
    (hAlike : L.alike ⟨s₁, own ∪ (φ.spots ∪ A.spots) ∪ held⟩
      ⟨t₁, own' ∪ B.spots ∪ held'⟩)
    (hGoes : ∀ k φ' others others' s₂ t₂, n = k + 1 →
      φ'.rest? = φ.rest? →
      Lined L m φ' A B others others' s₂ t₂ →
      L.alike ⟨s₂, others ∪ (φ'.spots ∪ A.spots) ∪ held⟩
        ⟨t₂, others' ∪ B.spots ∪ held'⟩ →
      Disjoint held (others ∪ (φ'.spots ∪ A.spots)) →
      Disjoint held' (others' ∪ B.spots) →
      s₁.Leaves held s₂ → t₁.Leaves held' t₂ →
      s₂.Completed awaiter → t₂.Completed awaiter' →
      L.Alike m k others others'
        (φ'.around m fun c => Label.jump c m (.label l)) s₂
        (fun c => Label.jump c m (.label l')) t₂) :
    L.Alike m n own own'
      (φ.around m fun c => Label.jump c m (.label A.entry)) s
      (fun c => Label.jump c m (.label B.entry)) t := by
  have hLater := h.later (hLeaves.mono Set.subset_union_right)
    (hLeaves'.mono Set.subset_union_right)
    (L.alike_less hAlike Set.subset_union_left
      Set.subset_union_left)
  rcases hLater.left with ⟨stepA, hAtA⟩
  rcases Frame.suspends h.frame (steady_jump m _) hEnds hStep
    (hLeaves.mono (Set.subset_union_left.trans
      Set.subset_union_right)) hAtA.lt_machines with
    ⟨φ', step₂, l₂, s₂, new, hRest, hFrame, hBooks, hEnds₂,
      hStep₂, hResume⟩
  rw [Set.disjoint_union_right, Set.disjoint_union_right] at hHeld
  rw [Set.disjoint_union_right] at hHeld'
  have hFree := Set.disjoint_union_right.mp h.free
  have hHas := (L.sound hAlike).1
  -- All that the frame does not change.
  have hOthers : Disjoint (own ∪ A.spots ∪ held) φ.spots := by
    rw [Set.disjoint_union_left, Set.disjoint_union_left]
    exact ⟨⟨hFree.1, h.apart.symm⟩, hHeld.2.1⟩
  have hOthersHas : ∀ x ∈ own ∪ A.spots ∪ held, s₁.HasSpot x := by
    rintro x ((hx | hx) | hx)
    · exact hHas x (.inl (.inl hx))
    · exact hHas x (.inl (.inr (.inr hx)))
    · exact hHas x (.inr hx)
  have hApart := hBooks.apart _ hOthers hOthersHas
  have hSame := hBooks.leaves _ hOthers hOthersHas
  rw [Set.disjoint_union_left, Set.disjoint_union_left] at hApart
  have hSplit : own ∪ A.spots ∪ held ∪ φ.spots ⊆
      own ∪ (φ.spots ∪ A.spots) ∪ held := by
    rintro x (((hx | hx) | hx) | hx)
    · exact .inl (.inl hx)
    · exact .inl (.inr (.inr hx))
    · exact .inr hx
    · exact .inl (.inr (.inl hx))
  have hAlike₂ := L.left_writes
    (L.alike_less hAlike hSplit subset_rfl)
    (hBooks.writes (own ∪ A.spots ∪ held))
  refine .ends hEnds₂ hEnds'
    ((hLeaves.mono Set.subset_union_left).trans
      (hSame.mono fun x hx => .inl (.inl hx)))
    (hLeaves'.mono Set.subset_union_left)
    (.suspends (φ'.spots ∪ new ∪ A.spots ∪ held)
      (B.spots ∪ held') hStep₂ hStep'
      (hSource.books hBooks (.refl ∅ t₁)) ?_ ?_ ?_ ?_)
  · rw [Set.disjoint_union_left, Set.disjoint_union_left]
    exact ⟨⟨hApart.1.1.symm, hFree.2.symm⟩, hHeld.1⟩
  · rw [Set.disjoint_union_left]
    exact ⟨h.free'.symm, hHeld'.1⟩
  · refine L.alike_less hAlike₂ ?_ ?_
    · rintro x (hx | ((hx | hx) | hx))
      · exact .inl (.inl (.inl hx))
      · exact .inr hx
      · exact .inl (.inl (.inr hx))
      · exact .inl (.inr hx)
    · rw [Set.union_assoc]
  · intro others others' u u' hOther hOther' hAlikeU hLeavesU
      hLeavesU' hCompleted hCompleted'
    cases n with
    | zero => trivial
    | succ k =>
    rw [Set.disjoint_union_left, Set.disjoint_union_left,
      Set.disjoint_union_left] at hOther
    rw [Set.disjoint_union_left] at hOther'
    have hLined : Lined L m φ' A B others others' u u' :=
      { frame := hFrame.leaves (hLeavesU.mono
          fun x hx => .inl (.inl (.inl hx)))
        left := ⟨stepA, (hAtA.leaves (hSame.mono
          fun x hx => .inl (.inr hx))).leaves (hLeavesU.mono
            fun x hx => .inl (.inr hx))⟩
        right := hLater.right.imp fun _ hAt =>
          hAt.leaves (hLeavesU'.mono Set.subset_union_left)
        free := Set.disjoint_union_right.mpr
          ⟨hOther.1.1.1.symm, hOther.1.2.symm⟩
        apart := (hApart.1.2.mono_right
          Set.subset_union_left).symm
        free' := hOther'.1.symm
        alike := L.alike_less hAlikeU (by
            rintro x (hx | (hx | hx))
            · exact .inl hx
            · exact .inr (.inl (.inl (.inl hx)))
            · exact .inr (.inl (.inr hx)))
          (Set.union_subset_union_right _
            Set.subset_union_left) }
    have hGo := hGoes k φ' others others' u u' rfl hRest hLined
      (L.alike_less hAlikeU (by
          rintro x ((hx | (hx | hx)) | hx)
          · exact .inl hx
          · exact .inr (.inl (.inl (.inl hx)))
          · exact .inr (.inl (.inr hx))
          · exact .inr (.inr hx))
        (by rw [Set.union_assoc]))
      (by
        rw [Set.disjoint_union_right, Set.disjoint_union_right]
        exact ⟨hOther.2, hApart.2.mono_right
          Set.subset_union_left, hHeld.2.2⟩)
      (Set.disjoint_union_right.mpr ⟨hOther'.2, hHeld'.2⟩)
      ((hSame.mono fun x hx => .inr hx).trans
        (hLeavesU.mono fun x hx => .inr hx))
      (hLeavesU'.mono fun x hx => .inr hx) hCompleted hCompleted'
    exact hGo.of_turns (hResume u (hLeavesU.mono
      fun x hx => .inl (.inl hx))) (.refl _ _) (.refl _ _)
        (.refl _ _)

/-
  What follows upon two sequences, in whatever frame of the
  same kind the first one then stands.
-/
def Goes
    (L : Likeness)
    (m : Ref)
    (rest? : Option Closure)
    (A B : Place)
    (k : Nat) : Prop :=
  ∀ φ own own' s t, Frame.rest? φ = rest? →
    Lined L m φ A B own own' s t →
      L.Alike m k own own'
        (φ.around m fun c => Label.jump c m (.label A.rest)) s
        (fun c => Label.jump c m (.label B.rest)) t

/- Both go on to what follows upon them. -/
def Passes
    (L : Likeness)
    (m : Ref)
    (φ : Frame)
    (A B : Place)
    (own own' : Set Spot)
    (s t : Session) : Prop :=
  ∃ s₁ t₁, Lined L m φ A B own own' s₁ t₁ ∧
    TurnsTo 1 (fun c => Label.jump c m (.label A.entry)) s
      (fun c => Label.jump c m (.label A.rest)) s₁ ∧
    TurnsTo 1 (fun c => Label.jump c m (.label B.entry)) t
      (fun c => Label.jump c m (.label B.rest)) t₁ ∧
    s.Leaves (own ∪ (φ.spots ∪ A.spots)) s₁ ∧
    t.Leaves (own' ∪ B.spots) t₁

theorem Passes.alike
    (h : Passes L m φ A B own own' s t)
    (hGoes : Goes L m φ.rest? A B n) :
    L.Alike m n own own'
      (φ.around m fun c => Label.jump c m (.label A.entry)) s
      (fun c => Label.jump c m (.label B.entry)) t := by
  rcases h with ⟨s₁, t₁, hLined, hTurns, hTurns', hLeaves,
    hLeaves'⟩
  exact (hGoes φ own own' s₁ t₁ rfl hLined).of_turns
    (φ.turnsTo hTurns (steady_jump m _) (steady_jump m _)) hTurns'
    (hLeaves.mono Set.subset_union_left)
    (hLeaves'.mono Set.subset_union_left)

/- What both throw is thrown out of the frame. -/
theorem throws
    {act act' : Caller → Run Value}
    {e e' : Value}
    (φ : Frame)
    (hEnds : Ends act s (.error e) s₁)
    (hEnds' : Ends act' t (.error e') t₁)
    (hLeaves : s.Leaves own s₁)
    (hLeaves' : t.Leaves own' t₁)
    (hSame : L.same e e')
    (hAlike : L.alike ⟨s₁, own⟩ ⟨t₁, own'⟩) :
    L.Alike m n own own' (φ.around m act) s act' t :=
  .ends (φ.ends_error hEnds) hEnds' hLeaves hLeaves'
    (.throws hSame hAlike)

/-
  Awaiters of a future that both first parts hand off to are
  made in rows of their own.
-/
theorem awaiting
    (h : Lined L m φ A B own own' s t)
    (f : Ref) :
    L.alike
      ⟨s.withAwaiter (.future f true),
        own ∪ (φ.spots ∪ A.spots) ∪ {.awaiter s.awaiters.size}⟩
      ⟨t.withAwaiter (.future f true),
        own' ∪ B.spots ∪ {.awaiter t.awaiters.size}⟩ ∧
      s.Leaves (own ∪ (φ.spots ∪ A.spots))
        (s.withAwaiter (.future f true)) ∧
      t.Leaves (own' ∪ B.spots)
        (t.withAwaiter (.future f true)) := by
  have hSound := L.sound h.alike
  have hBooks := Session.Books.withAwaiter s f
  have hBooks' := Session.Books.withAwaiter t f
  refine ⟨L.right_writes (L.left_writes ?_ (hBooks.writes _))
    (hBooks'.writes _),
    hBooks.leaves _ (Set.disjoint_empty _) hSound.1,
    hBooks'.leaves _ (Set.disjoint_empty _) hSound.2⟩
  rw [Set.union_empty, Set.union_empty]
  exact h.alike

/- A hand-off to what has settled is over at once. -/
theorem settled
    {o : Outcome}
    (h : Lined L m φ A B own own' s t)
    (hAt : A.At m s step)
    (hAt' : B.At m t step')
    (hStep : step.step? = some (.handOff (.future f)))
    (hStep' : step'.step? = some (.handOff (.future f)))
    (hOutcome : s.outcome? f = some o) :
    Passes L m φ A B own own' s t ∨
      L.Alike m n own own'
        (φ.around m fun c => Label.jump c m (.label A.entry)) s
        (fun c => Label.jump c m (.label B.entry)) t := by
  rcases L.outcome_some h.alike hOutcome with
    ⟨o', hOutcome', hAnswers⟩
  rcases h.awaiting f with ⟨hAlike, hLeaves, hLeaves'⟩
  cases o with
  | fulfilled v =>
      cases o' with
      | rejected e' => exact hAnswers.elim
      | fulfilled v' =>
      have hLined := h.later (hLeaves.mono Set.subset_union_right)
        (hLeaves'.mono Set.subset_union_right)
        (L.alike_less hAlike Set.subset_union_left
          Set.subset_union_left)
      exact .inl ⟨_, _, hLined,
        hAt.turnsTo_rest_settled hStep hOutcome,
        hAt'.turnsTo_rest_settled hStep' hOutcome', hLeaves,
        hLeaves'⟩
  | rejected e =>
      cases o' with
      | fulfilled v' => exact hAnswers.elim
      | rejected e' =>
      exact .inr (throws φ (hAt.ends_rejected hStep hOutcome)
        (hAt'.ends_rejected hStep' hOutcome')
        (hLeaves.mono Set.subset_union_left)
        (hLeaves'.mono Set.subset_union_left) hAnswers
        (L.alike_less hAlike
          (Set.subset_union_left.trans Set.subset_union_left)
          (Set.subset_union_left.trans Set.subset_union_left)))

/- A hand-off to what is pending is suspended on. -/
theorem pending
    (h : Lined L m φ A B own own' s t)
    (hAt : A.At m s step)
    (hAt' : B.At m t step')
    (hStep : step.step? = some (.handOff (.future f)))
    (hStep' : step'.step? = some (.handOff (.future f)))
    (hOutcome : s.outcome? f = none)
    (hGoes : ∀ k < n, Goes L m φ.rest? A B k) :
    L.Alike m n own own'
      (φ.around m fun c => Label.jump c m (.label A.entry)) s
      (fun c => Label.jump c m (.label B.entry)) t := by
  rcases h.awaiting f with ⟨hAlike, hLeaves, hLeaves'⟩
  rcases hAt.ends_pending hStep hOutcome with
    ⟨made, hMade, hEnds⟩
  rcases hAt'.ends_pending hStep'
    (L.outcome_none h.alike hOutcome) with
    ⟨made', hMade', hEnds'⟩
  have hBooks := Session.Books.suspending
    (s.withAwaiter (.future f true)) m
    (.received (.awaiter s.awaiters.size) (.jump m A.rest))
  have hBooks' := Session.Books.suspending
    (t.withAwaiter (.future f true)) m
    (.received (.awaiter t.awaiters.size) (.jump m B.rest))
  have hHas := (L.sound hAlike).1
  have hHas' := (L.sound hAlike).2
  have hKept := hBooks.leaves _ (Set.disjoint_empty _) hHas
  have hKept' := hBooks'.leaves _ (Set.disjoint_empty _) hHas'
  have hNew : Disjoint
      {.awaiter s.awaiters.size, .label s.labels.size}
      (own ∪ (φ.spots ∪ A.spots)) := by
    rw [Set.disjoint_right]
    rintro x hx (rfl | rfl)
    · exact Nat.lt_irrefl _ ((L.sound h.alike).1 _ hx)
    · exact Nat.lt_irrefl _ ((L.sound h.alike).1 _ hx)
  have hNew' : Disjoint
      {.awaiter t.awaiters.size, .label t.labels.size}
      (own' ∪ B.spots) := by
    rw [Set.disjoint_right]
    rintro x hx (rfl | rfl)
    · exact Nat.lt_irrefl _ ((L.sound h.alike).2 _ hx)
    · exact Nat.lt_irrefl _ ((L.sound h.alike).2 _ hx)
  have hAlike₁ := L.right_writes (L.left_writes
    (L.alike_less hAlike
      (Set.union_empty _).subset (Set.union_empty _).subset)
    (hBooks.writes _)) (hBooks'.writes _)
  refine suspended _ _ h hEnds hEnds' hMade hMade'
    (.future (s.row_withAwaiter f) (t.row_withAwaiter f))
    (hLeaves.trans (hKept.mono Set.subset_union_left))
    (hLeaves'.trans (hKept'.mono Set.subset_union_left))
    hNew hNew'
    (L.alike_less hAlike₁ (by
        rintro x (hx | (rfl | rfl))
        · exact .inl (.inl hx)
        · exact .inl (.inr rfl)
        · exact .inr rfl) (by
        rintro x (hx | (rfl | rfl))
        · exact .inl (.inl hx)
        · exact .inl (.inr rfl)
        · exact .inr rfl)) ?_
  intro k φ' others others' s₂ t₂ hk hRest hLined hAlike₂ _ _
    hLeaves₂ hLeaves₂' hCompleted _
  rcases hLined.left with ⟨stepA, hAtA⟩
  rcases hLined.right with ⟨stepB, hAtB⟩
  have hAwaiter := (hLeaves₂ _ (.inl rfl)).trans
    (s.row_withAwaiter f)
  have hAwaiter' := (hLeaves₂' _ (.inl rfl)).trans
    (t.row_withAwaiter f)
  have hBears := hLeaves₂ _ (.inr rfl) _ _
    (Session.bears_suspending
      (s := s.withAwaiter (.future f true)) hAt.lt_machines _)
  have hBears' := hLeaves₂' _ (.inr rfl) _ _
    (Session.bears_suspending
      (s := t.withAwaiter (.future f true)) hAt'.lt_machines _)
  rcases Option.isSome_iff_exists.mp
    (hCompleted _ f true rfl hAwaiter) with ⟨o, hOutcome₂⟩
  rcases L.outcome_some hLined.alike hOutcome₂ with
    ⟨o', hOutcome₂', hAnswers⟩
  cases o with
  | fulfilled v =>
      cases o' with
      | rejected e' => exact hAnswers.elim
      | fulfilled v' =>
      exact (hGoes k (by omega) φ' others others' s₂ t₂ hRest
        hLined).of_turns
        (φ'.turnsTo (Await.turnsTo_received hBears hAwaiter
          hOutcome₂) (steady_jump m _) (steady_jump m _))
        (Await.turnsTo_received hBears' hAwaiter' hOutcome₂')
        (.refl _ _) (.refl _ _)
  | rejected e =>
      cases o' with
      | fulfilled v' => exact hAnswers.elim
      | rejected e' =>
      exact throws φ'
        (Await.ends_received hBears hAwaiter hOutcome₂)
        (Await.ends_received hBears' hAwaiter' hOutcome₂')
        (.refl _ _) (.refl _ _) hAnswers
        (L.alike_less hLined.alike Set.subset_union_left
          Set.subset_union_left)

/- The first parts have gone on, and the sequences with them. -/
theorem advanced
    {goes : Set Spot → Set Spot →
      Value → Session → Value → Session → Prop}
    (h : Lined L m φ A B own own' s t)
    (hLeaves : s.Leaves (own ∪ (φ.spots ∪ A.spots)) s₁)
    (hLeaves' : t.Leaves (own' ∪ B.spots) t₁)
    (hMeets : L.Meets goes (own ∪ (φ.spots ∪ A.spots))
      (own' ∪ B.spots) (.ok step) s₁ (.ok step') t₁) :
    Lined L m φ A B own own' (s₁.resequenced A.cell step)
        (t₁.resequenced B.cell step') ∧
      A.At m (s₁.resequenced A.cell step) step ∧
      B.At m (t₁.resequenced B.cell step') step' ∧
      L.Meets goes (own ∪ (φ.spots ∪ A.spots)) (own' ∪ B.spots)
        (.ok step) (s₁.resequenced A.cell step)
        (.ok step') (t₁.resequenced B.cell step') ∧
      s.Leaves own (s₁.resequenced A.cell step) ∧
      t.Leaves own' (t₁.resequenced B.cell step') := by
  rcases h.left with ⟨stepA, hAtA⟩
  rcases h.right with ⟨stepB, hAtB⟩
  have hSound := L.sound hMeets.alike
  have hBooks := A.books_resequenced s₁ step
  have hBooks' := B.books_resequenced t₁ step'
  have hMeets₂ := ((hMeets.less (P := own ∪ φ.spots ∪ A.spots)
    (Set.union_assoc ..).subset subset_rfl).books hBooks
      hBooks').less (Set.union_assoc ..).symm.subset subset_rfl
  have hFree := Set.disjoint_union_right.mp h.free
  have hKept := hBooks.leaves (own ∪ φ.spots)
    (Set.disjoint_union_left.mpr ⟨hFree.2, h.apart⟩) fun x hx =>
      hSound.1 x ((Set.union_assoc ..).subset (.inl hx))
  have hKept' := hBooks'.leaves own' h.free' fun x hx =>
    hSound.2 x (.inl hx)
  have hAtA₂ := (hAtA.leaves (hLeaves.mono
    fun x hx => .inr (.inr hx))).resequenced step
  have hAtB₂ := (hAtB.leaves (hLeaves'.mono
    Set.subset_union_right)).resequenced step'
  refine ⟨{ h with
    frame := (h.frame.leaves (hLeaves.mono
      fun x hx => .inr (.inl hx))).leaves (hKept.mono
        Set.subset_union_right)
    left := ⟨step, hAtA₂⟩
    right := ⟨step', hAtB₂⟩
    alike := hMeets₂.alike }, hAtA₂, hAtB₂, hMeets₂, ?_, ?_⟩
  · exact (hLeaves.mono Set.subset_union_left).trans
      (hKept.mono Set.subset_union_left)
  · exact (hLeaves'.mono Set.subset_union_left).trans hKept'

/- A first part that has finished is followed at once. -/
theorem finished
    {v v' : Value}
    (h : Lined L m φ A B own own' s t)
    (hAt : A.At m s step)
    (hAt' : B.At m t step')
    (hStep : step.step? = some (.finish v))
    (hStep' : step'.step? = some (.finish v')) :
    Passes L m φ A B own own' s t :=
  ⟨s, t, h, hAt.turnsTo_rest hStep, hAt'.turnsTo_rest hStep',
    .refl _ _, .refl _ _⟩

/-
  The first parts are resumed, go on alike, and both sequences
  are entered where these have met again.
-/
theorem resumed
    {resume resume' : Value}
    (h : Lined L m φ A B own own' s t)
    (hBears : s.Bears m l
      (some (.sequenceResume A.cell resume)))
    (hBears' : t.Bears m l'
      (some (.sequenceResume B.cell resume')))
    (hFirst : L.Resumes m (n + 1) (own ∪ (φ.spots ∪ A.spots))
      (own' ∪ B.spots) resume s resume' t)
    (hGoes : Goes L m φ.rest? A B n)
    (hEnters : ∀ s t step step',
      Lined L m φ A B own own' s t →
      A.At m s step → B.At m t step' →
      L.Meets (L.Resumes m n) (own ∪ (φ.spots ∪ A.spots))
        (own' ∪ B.spots) (.ok step) s (.ok step') t →
      Passes L m φ A B own own' s t ∨
        L.Alike m n own own'
          (φ.around m fun c => Label.jump c m (.label A.entry)) s
          (fun c => Label.jump c m (.label B.entry)) t) :
    L.Alike m n own own'
      (φ.around m fun c => Label.jump c m (.label l)) s
      (fun c => Label.jump c m (.label l')) t := by
  rcases h.left with ⟨stepA, hAtA⟩
  rcases h.right with ⟨stepB, hAtB⟩
  have hSteady := Frame.steady (m := m) (.within A.toSite)
    (steady_jump m resume)
  have hTurns := φ.turnsTo (m := m)
    (Frame.turnsTo_resume hAtA.toAt hBears) (steady_jump m _) hSteady
  have hTurns' := Frame.turnsTo_resume hAtB.toAt hBears'
  cases hFirst with
  | never hNever hNever' =>
      exact .never
        (hTurns.never (φ.never ((Frame.within A.toSite).never hNever)))
        (hTurns'.never ((Frame.within B.toSite).never hNever'))
  | @ends r s₁ r' t₁ hEnds hEnds' hLeaves hLeaves' hMeets =>
  rcases r with e | y <;> rcases r' with e' | y'
  · cases hMeets with
    | throws hSame hAlike =>
    exact (throws φ ((Frame.within A.toSite).ends_error hEnds)
      ((Frame.within B.toSite).ends_error hEnds')
      (hLeaves.mono Set.subset_union_left)
      (hLeaves'.mono Set.subset_union_left) hSame
      (L.alike_less hAlike Set.subset_union_left
        Set.subset_union_left)).of_turns hTurns hTurns'
          (.refl _ _) (.refl _ _)
  · cases hMeets
  · cases hMeets
  · rcases h.advanced hLeaves hLeaves' hMeets with
      ⟨hLined, hAt, hAt', hMeets, hKept, hKept'⟩
    have hEntry := φ.turnsTo (m := m)
      (Frame.turnsTo_entry A.toSite (steady_jump m resume) hEnds)
      hSteady (steady_jump m _)
    have hEntry' := Frame.turnsTo_entry (m := m) B.toSite
      (steady_jump m resume') hEnds'
    have hAlike := (hEnters _ _ y y' hLined hAt hAt' hMeets).elim
      (fun hPasses => hPasses.alike hGoes) id
    exact hAlike.of_turns (hTurns.trans hEntry)
      (hTurns'.trans hEntry') hKept hKept'

/-
  Two sequences whose first parts have met go on to what
  follows upon them, or are alike, if that is alike after
  fewer resumptions.
-/
theorem enters
    (h : Lined L m φ A B own own' s t)
    (hAt : A.At m s step)
    (hAt' : B.At m t step')
    (hMeets : L.Meets (L.Resumes m n)
      (own ∪ (φ.spots ∪ A.spots)) (own' ∪ B.spots)
      (.ok step) s (.ok step') t)
    (hGoes : ∀ k < n, Goes L m φ.rest? A B k) :
    Passes L m φ A B own own' s t ∨
      L.Alike m n own own'
        (φ.around m fun c => Label.jump c m (.label A.entry)) s
        (fun c => Label.jump c m (.label B.entry)) t := by
  induction n using Nat.strong_induction_on
    generalizing φ own own' s t step step' with
  | _ n ih =>
  cases hMeets with
  | returns hStep hStep' =>
      exact .inl (h.finished hAt hAt' hStep hStep')
  | @handsOff _ _ f _ _ hStep hStep' =>
      cases hOutcome : s.outcome? f with
      | some o =>
          exact h.settled hAt hAt' hStep hStep' hOutcome
      | none =>
          exact .inr (h.pending hAt hAt' hStep hStep' hOutcome
            hGoes)
  | @suspends _ _ awaiter awaiter' resume resume' _ _ held held'
      hStep hStep' hSource hFree hFree' hAlike hNext =>
      refine .inr ?_
      rcases hAt.ends_suspend hStep with ⟨made, hMade, hEnds⟩
      rcases hAt'.ends_suspend hStep' with
        ⟨made', hMade', hEnds'⟩
      have hBooks := Session.Books.suspending s m
        (.sequenceResume A.cell resume)
      have hBooks' := Session.Books.suspending t m
        (.sequenceResume B.cell resume')
      have hHas := (L.sound hAlike).1
      have hHas' := (L.sound hAlike).2
      have hKept := hBooks.leaves _ (Set.disjoint_empty _) hHas
      have hKept' := hBooks'.leaves _ (Set.disjoint_empty _) hHas'
      have hNew := hBooks.apart _ (Set.disjoint_empty _) hHas
      have hNew' := hBooks'.apart _ (Set.disjoint_empty _) hHas'
      rw [Set.disjoint_union_left] at hNew hNew'
      have hAlike₁ := L.right_writes (L.left_writes
        (L.alike_less hAlike
          (Set.union_empty _).subset (Set.union_empty _).subset)
        (hBooks.writes _)) (hBooks'.writes _)
      refine suspended (held ∪ {.label s.labels.size})
        (held' ∪ {.label t.labels.size}) h hEnds hEnds'
        hMade hMade' (hSource.books hBooks hBooks')
        (hKept.mono Set.subset_union_left)
        (hKept'.mono Set.subset_union_left)
        (Set.disjoint_union_left.mpr ⟨hFree, hNew.1.symm⟩)
        (Set.disjoint_union_left.mpr ⟨hFree', hNew'.1.symm⟩)
        (L.alike_less hAlike₁ (Set.union_assoc ..).symm.subset
          (Set.union_assoc ..).symm.subset) ?_
      intro k φ' others others' s₂ t₂ hk hRest hLined hAlike₂
        hFree₂ hFree₂' hLeaves hLeaves' hCompleted hCompleted'
      have hFirst := hNext (others ∪ (φ'.spots ∪ A.spots))
        (others' ∪ B.spots) s₂ t₂
        (Set.disjoint_union_left.mp hFree₂).1
        (Set.disjoint_union_left.mp hFree₂').1
        (L.alike_less hAlike₂
          (Set.union_subset_union_right _ Set.subset_union_left)
          (Set.union_subset_union_right _ Set.subset_union_left))
        ((hKept.mono Set.subset_union_right).trans
          (hLeaves.mono Set.subset_union_left))
        ((hKept'.mono Set.subset_union_right).trans
          (hLeaves'.mono Set.subset_union_left))
        hCompleted hCompleted'
      rw [hk] at hFirst
      rw [← hRest] at hGoes
      refine hLined.resumed
        (hLeaves _ (.inr rfl) _ _
          (Session.bears_suspending hAt.lt_machines _))
        (hLeaves' _ (.inr rfl) _ _
          (Session.bears_suspending hAt'.lt_machines _))
        hFirst (hGoes k (by omega)) ?_
      intro s₃ t₃ y y' hLined₃ hAt₃ hAt₃' hMeets₃
      exact ih k (by omega) hLined₃ hAt₃ hAt₃' hMeets₃
        fun j hj => hGoes j (by omega)

end Lined

end Sequence

end Resumption

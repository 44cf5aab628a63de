import Resumption.Proofs.Likeness.Sequences

/-
  Sequencing is associative.

  Neither side of the law hands out the same labels as the
  other, or keeps its sequences in the same rows; client code
  that cannot tell this finds both sides alike.  On the left,
  the inner sequence runs in a frame: at first the outer one
  is not built yet, and from the first suspension on the inner
  one is its first part.

  Main declarations:
    * `Program.andThen`
    * `Sequence.alike_fresh`
    * `Sequence.goes_then`
    * `Sequence.alike_assoc`
-/

namespace Resumption

open Run

variable {L : Likeness}
variable {s s₁ s₂ t t₁ t₂ : Session}
variable {m l l' f : Ref}
variable {n k : Nat}
variable {own own' : Set Spot}
variable {step step' : Value}

------------------------------------------------------------
-- Client Code
------------------------------------------------------------

/- Client code that makes a step, and sequences it. -/
def Program.andThen
    (p : Program)
    (m : Ref)
    (rest : Code) : Program :=
  p.bind fun step =>
    .request (.sequence (.machine m) step rest)

/- Its step is made, and a sequence is built of it. -/
theorem Program.run_andThen
    (p : Program)
    (m : Ref)
    (rest : Code)
    (caller : Caller) :
    (p.andThen m rest).run caller =
      p.run caller >>= fun step =>
        Sequence.build caller (.machine m) step
          (.client rest) := by
  have hMachine : Builder.machineOf (.machine m) =
      (return .machine m : Run Value) := rfl
  rw [andThen, run_bind]
  refine congrArg _ (funext fun step => ?_)
  simp only [request, run, Request.perform, hMachine, pure_bind]
  exact bind_pure _

/- A step that is at hand is sequenced at once. -/
theorem Program.run_done_andThen
    (step : Value)
    (m : Ref)
    (rest : Code)
    (caller : Caller) :
    ((Program.done step).andThen m rest).run caller =
      Sequence.build caller (.machine m) step
        (.client rest) :=
  (run_andThen _ m rest caller).trans (pure_bind _ _)

namespace Sequence

variable {φ : Frame}
variable {A B : Place}
variable {b c : Code}

/- Client code that makes steps goes on alike. -/
theorem goes_client
    (hLeft : A.code = .client c)
    (hRight : B.code = .client c)
    (hBlind : L.Blind m (c [])) :
    Lined.Goes L m none A B k := by
  intro φ own own' s t hRest h
  cases φ with
  | opening rest => cases hRest
  | within J => cases hRest
  | bare =>
  rcases h.left with ⟨_, hAt⟩
  rcases h.right with ⟨_, hAt'⟩
  have hBears := hAt.rest
  have hBears' := hAt'.rest
  rw [hLeft] at hBears
  rw [hRight] at hBears'
  have hCalled : L.alike ⟨calling s, own⟩ ⟨calling t, own'⟩ :=
    L.right (L.left (L.alike_less h.alike Set.subset_union_left
      Set.subset_union_left) (.calling s own)) (.calling t own')
  exact (((hBlind k own own' _ _ hCalled).of_turns
    (Likeness.turnsTo_client c s) (Likeness.turnsTo_client c t)
    ((Session.Books.calling s).leaves _ (Set.disjoint_empty _)
      fun x hx => (L.sound h.alike).1 x (.inl hx))
    ((Session.Books.calling t).leaves _ (Set.disjoint_empty _)
      fun x hx => (L.sound h.alike).2 x (.inl hx))).jump_left
        hBears).jump_right hBears'

/-
  Two sequences in rows that have just been made are alike, if
  what follows upon them is.
-/
theorem alike_fresh
    {S T : Site}
    {P P' : Set Spot}
    (φ : Frame)
    (hSpots : φ.spots = ∅)
    (hFrame : φ.At m s₁)
    (hAt : S.At m s₁ step)
    (hAt' : T.At m t₁ step')
    (hBooks : Session.Books P s S.spots s₁)
    (hBooks' : Session.Books P' t T.spots t₁)
    (hFree : Disjoint own P)
    (hFree' : Disjoint own' P')
    (hMeets : L.Meets (L.Resumes m n) (own ∪ P) (own' ∪ P')
      (.ok step) s (.ok step') t)
    (hGoes : ∀ k,
      Lined.Goes L m φ.rest? S.alone T.alone k) :
    L.Alike m n own own'
        (φ.around m fun c => Label.jump c m (.label S.entry)) s₁
        (fun c => Label.jump c m (.label T.entry)) t₁ ∧
      s.Leaves own s₁ ∧ t.Leaves own' t₁ := by
  rw [← Place.spots_alone S] at hBooks
  rw [← Place.spots_alone T] at hBooks'
  rcases Lined.fresh hSpots hFrame hAt.alone hAt'.alone hBooks
    hBooks' hFree hFree' hMeets with ⟨hLined, hMet, hLeaves⟩
  refine ⟨?_, hLeaves⟩
  exact (hLined.enters hAt.alone hAt'.alone hMet
    fun k _ => hGoes k).elim
      (fun hPasses => hPasses.alike (hGoes n)) id

/-
  Client code goes on, in a frame or as the client code of the
  other side, to one sequence more.
-/
theorem goes_then
    (hLeft : A.code = .client b)
    (hRight : B.code =
      .client fun _ => (b []).andThen m c)
    (hFirst : L.Blind m (b []))
    (hNext : L.Blind m (c [])) :
    Lined.Goes L m (some (.client c)) A B k := by
  intro φ own own' s t hRest h
  rcases h.left with ⟨_, hAt⟩
  rcases h.right with ⟨_, hAt'⟩
  have hBears := hAt.rest
  have hBears' := hAt'.rest
  rw [hLeft] at hBears
  rw [hRight] at hBears'
  have hCalled := L.right (L.left h.alike (.calling s _))
    (.calling t _)
  have hTurns := Likeness.turnsTo_client b s
  have hTurns' := (Likeness.turnsTo_client
    (fun _ => (b []).andThen m c) t).trans
      (.of_eq fun caller => congrFun
        (Program.run_andThen (b []) m c caller) _)
  cases hFirst k _ _ _ _ hCalled with
  | never hNever hNever' =>
      exact .never
        (φ.never (Label.never_jump hBears (hTurns.never hNever)))
        (Label.never_jump hBears' (hTurns'.never hNever'.bind))
  | @ends r s₁ r' t₁ hEnds hEnds' hLeaves hLeaves' hMeets =>
  have hJump := Label.ends_jump hBears (hTurns.ends _ _ hEnds)
    hMeets.steps.1.lands
  rcases r with e | y <;> rcases r' with e' | y'
  · cases hMeets with
    | throws hSame hAlike =>
    exact Lined.throws φ hJump (Label.ends_jump hBears'
        (hTurns'.ends _ _ hEnds'.bind_error) nofun)
      (hLeaves.mono Set.subset_union_left)
      (hLeaves'.mono Set.subset_union_left) hSame
      (L.alike_less hAlike Set.subset_union_left
        Set.subset_union_left)
  · cases hMeets
  · cases hMeets
  · have hSound := L.sound hMeets.alike
    have hm := (hAt.leaves (hLeaves.mono
      fun x hx => .inr (.inr hx))).lt_machines
    have hm' := (hAt'.leaves (hLeaves'.mono
      Set.subset_union_right)).lt_machines
    rcases φ.lodges hRest h.frame (steady_jump m _) hJump
      (hLeaves.mono fun x hx => .inr (.inl hx)) hm with
      ⟨J, s₂, hCode, hAtJ, hBooks, hLodge⟩
    have hBooks' := books_withSequence t₁ m y' (.client c)
    have hBuild := (TurnsTo.finished (steady_program (b []))
      (fun step => Frame.steady_opening (m := m) (.client c) step)
      hEnds').trans
        (.of_eq fun caller => build_eq caller hm' y' (.client c))
    have hMeets₁ : L.Meets (L.Resumes m k) (own ∪ φ.spots)
        (own' ∪ ∅) (.ok y) s₁ (.ok y') t₁ :=
      hMeets.less
        (Set.union_subset_union_right own Set.subset_union_left)
        (Set.union_subset_union_right own' (Set.empty_subset _))
    rcases alike_fresh .bare rfl trivial hAtJ
      (at_withSequence hm' y' (.client c)) hBooks hBooks'
      (Set.disjoint_union_right.mp h.free).1
      (Set.disjoint_empty own') hMeets₁
      fun _ => goes_client hCode rfl hNext with
      ⟨hEntered, hKept, hKept'⟩
    have hAlike := hEntered.of_turns (.refl _ _)
      (hTurns'.trans hBuild) (.refl _ own)
      ((hLeaves'.mono Set.subset_union_left).trans hKept')
    exact (hAlike.jump_right hBears').of_turns hLodge (.refl _ _)
      ((hLeaves.mono Set.subset_union_left).trans hKept)
      (.refl _ own')

/- Sequencing is associative. -/
theorem alike_assoc
    {a a' : Value}
    (hm : m < s.machines.size)
    (hm' : m < t.machines.size)
    (hFirst : L.Meets (L.Resumes m n) own own'
      (.ok a) s (.ok a') t)
    (hNext : L.Blind m (b []))
    (hLast : L.Blind m (c [])) :
    L.Alike m n own own'
      (fun caller => (((Program.done a).andThen m b).andThen m
        c).run caller) s
      (fun caller => ((Program.done a').andThen m fun _ =>
        (b []).andThen m c).run caller) t := by
  let after : Code := fun _ => (b []).andThen m c
  have hTurns := (Frame.opening (.client c)).turnsTo (m := m)
    (TurnsTo.of_eq fun caller => build_eq caller hm a (.client b))
    (Frame.steady_opening (.client b) a) (steady_jump m _)
  have hTurns' := TurnsTo.of_eq fun caller =>
    build_eq caller hm' a' (.client after)
  rw [← Set.union_empty own, ← Set.union_empty own'] at hFirst
  rcases alike_fresh (.opening (.client c)) rfl trivial
    (at_withSequence hm a (.client b))
    (at_withSequence hm' a' (.client after))
    (books_withSequence s m a (.client b))
    (books_withSequence t m a' (.client after))
    (Set.disjoint_empty _) (Set.disjoint_empty _) hFirst
    fun _ => goes_then rfl rfl hNext hLast with
    ⟨hEntered, hKept, hKept'⟩
  simp only [Program.run_andThen _ _ c,
    Program.run_done_andThen]
  exact hEntered.of_turns hTurns hTurns' hKept hKept'

end Sequence

end Resumption

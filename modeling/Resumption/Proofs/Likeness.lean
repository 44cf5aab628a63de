import Mathlib.Data.Set.BooleanAlgebra
import Mathlib.Data.Set.Insert
import Mathlib.Logic.Relation
import Mathlib.Order.CompletePartialOrder
import Resumption.Proofs.Routine.Sequences
import Resumption.Proofs.Stretches

/-
  Code that does alike in sessions that are alike.

  A likeness says which sessions client code cannot tell
  apart, and which values.  It is up to client code what that
  is; but which labels the library hands out, which rows it
  keeps its constructs in, and how it numbers what it makes,
  is no part of it.

  Two runs are alike if neither ends, or both end, in sessions
  that are alike, and show the same: an outcome, a future that
  they hand off to, or a source that they are suspended on.
  There they go on alike, in whatever alike sessions they are
  resumed once the source has completed.

  Main declarations:
    * `Spot`, `Scene`, `Scene.Writes`, `Session.Books`
    * `Likeness`
    * `Likeness.Meets`, `Likeness.Alike`, `Likeness.Blind`
    * `Likeness.Alike.of_turns`, `Likeness.Meets.books`
-/

namespace Resumption

variable {s s' s₁ s₂ : Session}
variable {m l i : Ref}

------------------------------------------------------------
-- Spots
------------------------------------------------------------

/- A row that a suspended construct comes back to. -/
inductive Spot where
  | label (l : Ref)
  | sequence (i : Ref)
  | awaiter (a : Ref)

namespace Session

/- Is there such a row? -/
def HasSpot (s : Session) : Spot → Prop
  | .label l => l < s.labels.size
  | .sequence i => i < s.sequences.size
  | .awaiter a => a < s.awaiters.size

/- Is the row what it was? -/
def SameSpot (s s' : Session) : Spot → Prop
  | .label l => ∀ m code, s.Bears m l code → s'.Bears m l code
  | .sequence i => s'.sequences[i]? = s.sequences[i]?
  | .awaiter a => s'.awaiters[a]? = s.awaiters[a]?

/- All of the rows are what they were. -/
def Leaves
    (s : Session)
    (own : Set Spot)
    (s' : Session) : Prop :=
  ∀ x ∈ own, s.SameSpot s' x

variable {own own' : Set Spot}

theorem Leaves.refl
    (s : Session)
    (own : Set Spot) :
    s.Leaves own s := by
  rintro (l | i | a) _
  · exact fun _ _ h => h
  · rfl
  · rfl

theorem Leaves.trans
    (h : s.Leaves own s₁)
    (h' : s₁.Leaves own s') :
    s.Leaves own s' := by
  rintro (l | i | a) hx
  · exact fun m code hBears => h' _ hx m code (h _ hx m code hBears)
  · exact Eq.trans (h' _ hx) (h _ hx)
  · exact Eq.trans (h' _ hx) (h _ hx)

theorem Leaves.mono
    (h : s.Leaves own s')
    (hOwn : own' ⊆ own) :
    s.Leaves own' s' :=
  fun x hx => h x (hOwn hx)

end Session

------------------------------------------------------------
-- Keeping Books
------------------------------------------------------------

/- A session, and what belongs to constructs in progress. -/
structure Scene where
  session : Session
  own : Set Spot

namespace Scene

/- What belongs to somebody is there. -/
def Sound (X : Scene) : Prop :=
  ∀ x ∈ X.own, X.session.HasSpot x

/-
  What the library does on its own account, in rows that
  belong to a construct: it hands out a label, or puts code
  under it, it keeps a sequence, or the step that this has
  come to, it makes awaiters of futures, it numbers what it
  makes, it remembers calls, and it is done with some rows.
-/
inductive Writes : Scene → Scene → Prop where
  | label
      (s own m code) :
      Writes ⟨s, own⟩
        ⟨s.withLabel m code, own ∪ {.label s.labels.size}⟩
  | code
      {s own l}
      (hOwn : .label l ∈ own)
      (code) :
      Writes ⟨s, own⟩ ⟨s.relabelled l code, own⟩
  | sequence
      (s own row) :
      Writes ⟨s, own⟩ ⟨s.withSequenceRow row,
        own ∪ {.sequence s.sequences.size}⟩
  | step
      {s own i}
      (hOwn : .sequence i ∈ own)
      (step) :
      Writes ⟨s, own⟩ ⟨s.resequenced i step, own⟩
  | awaiter
      (s own f) :
      Writes ⟨s, own⟩ ⟨s.withAwaiter (.future f true),
        own ∪ {.awaiter s.awaiters.size}⟩
  | stamped
      (s own) :
      Writes ⟨s, own⟩ ⟨s.stamped, own⟩
  | calling
      (s own) :
      Writes ⟨s, own⟩ ⟨Run.calling s, own⟩
  | less
      {s own own'}
      (hLess : own' ⊆ own) :
      Writes ⟨s, own⟩ ⟨s, own'⟩

end Scene

/-
  What the library does on its own account changes some rows
  that belong to a construct, and adds some, and nobody else's
  rows are affected.
-/
structure Session.Books
    (own : Set Spot)
    (s : Session)
    (own' : Set Spot)
    (s' : Session) : Prop where
  writes : ∀ others : Set Spot,
    Relation.ReflTransGen Scene.Writes
      ⟨s, others ∪ own⟩ ⟨s', others ∪ own'⟩
  leaves : ∀ others : Set Spot, Disjoint others own →
    (∀ x ∈ others, s.HasSpot x) → s.Leaves others s'
  apart : ∀ others : Set Spot, Disjoint others own →
    (∀ x ∈ others, s.HasSpot x) → Disjoint others own'
  has : ∀ x, s.HasSpot x → s'.HasSpot x
  awaiters : ∀ (a : Nat) (row : AwaiterCell),
    s.awaiters[a]? = some row → s'.awaiters[a]? = some row

namespace Session.Books

variable {own own₁ own₂ own' : Set Spot}

theorem refl
    (own : Set Spot)
    (s : Session) :
    Books own s own s where
  writes _ := .refl
  leaves others _ _ := .refl s others
  apart _ h _ := h
  has _ h := h
  awaiters _ _ h := h

theorem trans
    (h : Books own s own₁ s₁)
    (h' : Books own₁ s₁ own' s') :
    Books own s own' s' where
  writes others := (h.writes others).trans (h'.writes others)
  leaves others hApart hHas :=
    (h.leaves others hApart hHas).trans
      (h'.leaves others (h.apart others hApart hHas)
        fun x hx => h.has x (hHas x hx))
  apart others hApart hHas :=
    h'.apart others (h.apart others hApart hHas)
      fun x hx => h.has x (hHas x hx)
  has x hx := h'.has x (h.has x hx)
  awaiters a row hRow := h'.awaiters a row (h.awaiters a row hRow)

/- Rows that are not affected may be kept along. -/
theorem frame
    (h : Books own s own' s')
    (kept : Set Spot) :
    Books (kept ∪ own) s (kept ∪ own') s' where
  writes others := by
    simp only [← Set.union_assoc]
    exact h.writes (others ∪ kept)
  leaves others hApart hHas :=
    h.leaves others (Set.disjoint_union_right.mp hApart).2 hHas
  apart others hApart hHas := by
    rw [Set.disjoint_union_right] at hApart ⊢
    exact ⟨hApart.1, h.apart others hApart.2 hHas⟩
  has := h.has
  awaiters := h.awaiters

/- A construct may be done with rows. -/
theorem less
    (h : Books own s own₁ s')
    (hLess : own' ⊆ own₁) :
    Books own s own' s' where
  writes others := (h.writes others).tail
    (.less (Set.union_subset_union_right others hLess))
  leaves := h.leaves
  apart others hApart hHas :=
    (h.apart others hApart hHas).mono_right hLess
  has := h.has
  awaiters := h.awaiters

/- One after the other, where some rows are kept along. -/
theorem andThen
    (h : Books own s own₁ s₁)
    (h' : Books own₂ s₁ own' s')
    (kept : Set Spot)
    (hLess : kept ∪ own₂ ⊆ own₁) :
    Books own s (kept ∪ own') s' :=
  (h.less hLess).trans (h'.frame kept)

/- What is there is no new row. -/
theorem disjoint_new
    {x : Spot}
    (hNew : ¬ s.HasSpot x)
    {others : Set Spot}
    (hHas : ∀ x ∈ others, s.HasSpot x) :
    Disjoint others {x} := by
  rw [Set.disjoint_singleton_right]
  exact fun hx => hNew (hHas x hx)

theorem withLabel
    (s : Session)
    (m : Ref)
    (code : Option Closure) :
    Books ∅ s {.label s.labels.size} (s.withLabel m code) where
  writes others := by
    rw [Set.union_empty]
    exact .single (.label s others m code)
  leaves others _ _ := by
    rintro (l | i | a) _
    · exact fun m' code' h => h.withLabel code
    · rfl
    · rfl
  apart others _ hHas :=
    disjoint_new (x := .label s.labels.size)
      (Nat.lt_irrefl _) hHas
  has := by
    rintro (l | i | a) h
    · exact Nat.lt_of_lt_of_le h (by simp [Session.withLabel])
    · exact h
    · exact h
  awaiters _ _ h := h

theorem relabelled
    (s : Session)
    (l : Ref)
    (code : Closure) :
    Books {.label l} s {.label l} (s.relabelled l code) where
  writes others := .single (.code (.inr rfl) code)
  leaves others hApart _ := by
    rintro (l' | i | a) hx
    · refine fun m' code' h => h.relabelled_of_ne ?_ code
      rintro rfl
      exact Set.disjoint_singleton_right.mp hApart hx
    · rfl
    · rfl
  apart _ h _ := h
  has := by
    rintro (l' | i | a) h
    · exact Nat.lt_of_lt_of_le h (by simp [Session.relabelled])
    · exact h
    · exact h
  awaiters _ _ h := h

theorem withSequenceRow
    (s : Session)
    (row : SequenceCell) :
    Books ∅ s {.sequence s.sequences.size}
      (s.withSequenceRow row) where
  writes others := by
    rw [Set.union_empty]
    exact .single (.sequence s others row)
  leaves others _ hHas := by
    rintro (l | i | a) hx
    · exact fun m code h => h
    · have hi : i < s.sequences.size := hHas _ hx
      change (s.sequences.push row)[i]? = _
      rw [Array.getElem?_push, if_neg (Nat.ne_of_lt hi)]
    · rfl
  apart others _ hHas :=
    disjoint_new (x := .sequence s.sequences.size)
      (Nat.lt_irrefl _) hHas
  has := by
    rintro (l | i | a) h
    · exact h
    · exact Nat.lt_of_lt_of_le h
        (by simp [Session.withSequenceRow])
    · exact h
  awaiters _ _ h := h

theorem resequenced
    (s : Session)
    (i : Ref)
    (step : Value) :
    Books {.sequence i} s {.sequence i}
      (s.resequenced i step) where
  writes others := .single (.step (.inr rfl) step)
  leaves others hApart _ := by
    rintro (l | j | a) hx
    · exact fun m code h => h
    · change (s.sequences.modify i _)[j]? = _
      rw [Array.getElem?_modify, if_neg]
      rintro rfl
      exact Set.disjoint_singleton_right.mp hApart hx
    · rfl
  apart _ h _ := h
  has := by
    rintro (l | j | a) h
    · exact h
    · exact Nat.lt_of_lt_of_le h
        (by simp [Session.resequenced])
    · exact h
  awaiters _ _ h := h

theorem withAwaiter
    (s : Session)
    (f : Ref) :
    Books ∅ s {.awaiter s.awaiters.size}
      (s.withAwaiter (.future f true)) where
  writes others := by
    rw [Set.union_empty]
    exact .single (.awaiter s others f)
  leaves others _ hHas := by
    rintro (l | i | a) hx
    · exact fun m code h => h
    · rfl
    · have ha : a < s.awaiters.size := hHas _ hx
      change (s.awaiters.push _)[a]? = _
      rw [Array.getElem?_push, if_neg (Nat.ne_of_lt ha)]
  apart others _ hHas :=
    disjoint_new (x := .awaiter s.awaiters.size)
      (Nat.lt_irrefl _) hHas
  has := by
    rintro (l | i | a) h
    · exact h
    · exact h
    · exact Nat.lt_of_lt_of_le h
        (by simp [Session.withAwaiter])
  awaiters a row hRow := by
    have ha : a < s.awaiters.size :=
      (Array.getElem?_eq_some_iff.mp hRow).1
    change (s.awaiters.push _)[a]? = _
    rw [Array.getElem?_push, if_neg (Nat.ne_of_lt ha)]
    exact hRow

theorem stamped
    (s : Session) :
    Books ∅ s ∅ s.stamped where
  writes others := .single (.stamped s _)
  leaves others _ _ := by
    rintro (l | i | a) _
    · exact fun m code h => h
    · rfl
    · rfl
  apart _ h _ := h
  has := by
    rintro (l | i | a) h <;> exact h
  awaiters _ _ h := h

theorem calling
    (s : Session) :
    Books ∅ s ∅ (Run.calling s) where
  writes others := .single (.calling s _)
  leaves others _ _ := by
    rintro (l | i | a) _
    · exact fun m code h => h
    · rfl
    · rfl
  apart _ h _ := h
  has := by
    rintro (l | i | a) h <;> exact h
  awaiters _ _ h := h

end Session.Books

------------------------------------------------------------
-- Likenesses
------------------------------------------------------------

/- Two answers are the same, given which values are. -/
def Answers
    (same : Value → Value → Prop) :
    Except Value Value → Except Value Value → Prop
  | .ok v, .ok v' => same v v'
  | .error e, .error e' => same e e'
  | _, _ => False

/-
  Which sessions client code cannot tell apart, given what
  belongs to constructs in progress, and which values.  It can
  tell what is logged, whether values are truthy, and how
  futures have settled; it cannot tell what the library does
  on its own account.
-/
structure Likeness where
  alike : Scene → Scene → Prop
  same : Value → Value → Prop
  undefined : same .undefined .undefined
  truthy : ∀ {v v'}, same v v' → v'.truthy = v.truthy
  sound : ∀ {X Y}, alike X Y → X.Sound ∧ Y.Sound
  log : ∀ {X Y}, alike X Y → Y.session.log = X.session.log
  outcome : ∀ {X Y}, alike X Y → ∀ f,
    Option.Rel (Answers same)
      ((X.session.outcome? f).map Outcome.read)
      ((Y.session.outcome? f).map Outcome.read)
  left : ∀ {X X' Y}, alike X Y → X.Writes X' → alike X' Y
  right : ∀ {X Y Y'}, alike X Y → Y.Writes Y' → alike X Y'

variable {L : Likeness}
variable {t t' t₁ t₂ : Session}
variable {own own' own₁ own₂ P P' Q Q' : Set Spot}

namespace Likeness

theorem left_writes
    {X X' Y : Scene}
    (h : L.alike X Y)
    (hWrites : Relation.ReflTransGen Scene.Writes X X') :
    L.alike X' Y := by
  induction hWrites with
  | refl => exact h
  | tail _ hLast ih => exact L.left ih hLast

theorem right_writes
    {X Y Y' : Scene}
    (h : L.alike X Y)
    (hWrites : Relation.ReflTransGen Scene.Writes Y Y') :
    L.alike X Y' := by
  induction hWrites with
  | refl => exact h
  | tail _ hLast ih => exact L.right ih hLast

/- Constructs may be done with rows. -/
theorem alike_less
    (h : L.alike ⟨s, P⟩ ⟨t, Q⟩)
    (hLeft : P' ⊆ P)
    (hRight : Q' ⊆ Q) :
    L.alike ⟨s, P'⟩ ⟨t, Q'⟩ :=
  L.right (L.left h (.less hLeft)) (.less hRight)

/-
  What two runs are suspended on is the same: a future, or
  values that are the same to client code.
-/
inductive Source
    (L : Likeness)
    (s t : Session) : Value → Value → Prop where
  | future
      {a a' f captured}
      (hAwaiter : s.awaiters[a]? = some (.future f captured))
      (hAwaiter' : t.awaiters[a']? = some (.future f captured)) :
      Source L s t (.awaiter a) (.awaiter a')
  | same
      {awaiter awaiter'}
      (hSame : L.same awaiter awaiter') :
      Source L s t awaiter awaiter'

/-
  Two ends are alike, where some rows belong to constructs
  around: both have thrown, returned the same, or handed off
  to one future, or both are suspended on the same source.
  Then there are rows that both come back to, which are
  nobody else's; and as long as these are left alone, both go
  on as told, whatever belongs to constructs by then.
-/
inductive Meets
    (L : Likeness)
    (goes : Set Spot → Set Spot →
      Value → Session → Value → Session → Prop)
    (own own' : Set Spot) :
    Except Value Value → Session →
      Except Value Value → Session → Prop where
  | throws
      {e e' s t}
      (hSame : L.same e e')
      (hAlike : L.alike ⟨s, own⟩ ⟨t, own'⟩) :
      Meets L goes own own' (.error e) s (.error e') t
  | returns
      {step step' v v' s t}
      (hStep : step.step? = some (.finish v))
      (hStep' : step'.step? = some (.finish v'))
      (hSame : L.same v v')
      (hAlike : L.alike ⟨s, own⟩ ⟨t, own'⟩) :
      Meets L goes own own' (.ok step) s (.ok step') t
  | handsOff
      {step step' f s t}
      (hStep : step.step? = some (.handOff (.future f)))
      (hStep' : step'.step? = some (.handOff (.future f)))
      (hAlike : L.alike ⟨s, own⟩ ⟨t, own'⟩) :
      Meets L goes own own' (.ok step) s (.ok step') t
  | suspends
      {step step' awaiter awaiter' resume resume' s t}
      (held held' : Set Spot)
      (hStep : step.step? = some (.suspend awaiter resume))
      (hStep' : step'.step? = some (.suspend awaiter' resume'))
      (hSource : L.Source s t awaiter awaiter')
      (hOwn : Disjoint held own)
      (hOwn' : Disjoint held' own')
      (hAlike : L.alike ⟨s, own ∪ held⟩ ⟨t, own' ∪ held'⟩)
      (hGoes : ∀ others others' s₁ t₁,
        Disjoint held others → Disjoint held' others' →
        L.alike ⟨s₁, others ∪ held⟩ ⟨t₁, others' ∪ held'⟩ →
        s.Leaves held s₁ → t.Leaves held' t₁ →
        s₁.Completed awaiter → t₁.Completed awaiter' →
          goes others others' resume s₁ resume' t₁) :
      Meets L goes own own' (.ok step) s (.ok step') t

end Likeness

/-
  Neither of two runs ends, or both end as told, and what
  belongs to constructs around is left alone.
-/
inductive Run.Together
    {α : Type}
    (own own' : Set Spot)
    (act : Caller → Run α)
    (s : Session)
    (act' : Caller → Run α)
    (t : Session)
    (post : Except Value α → Session →
      Except Value α → Session → Prop) : Prop where
  | never
      (hNever : Run.Never act s)
      (hNever' : Run.Never act' t)
  | ends
      {r s₁ r' t₁}
      (hEnds : Run.Ends act s r s₁)
      (hEnds' : Run.Ends act' t r' t₁)
      (hLeaves : s.Leaves own s₁)
      (hLeaves' : t.Leaves own' t₁)
      (hPost : post r s₁ r' t₁)

/- Two runs end as told if what they turn to does. -/
theorem Run.Together.of_turns
    {α : Type}
    {k k' : Nat}
    {act act₁ act' act₁' : Caller → Run α}
    {post : Except Value α → Session →
      Except Value α → Session → Prop}
    (h : Run.Together own own' act₁ s₁ act₁' t₁ post)
    (hTurns : Run.TurnsTo k act s act₁ s₁)
    (hTurns' : Run.TurnsTo k' act' t act₁' t₁)
    (hLeaves : s.Leaves own s₁)
    (hLeaves' : t.Leaves own' t₁) :
    Run.Together own own' act s act' t post := by
  cases h with
  | never hNever hNever' =>
      exact .never (hTurns.never hNever) (hTurns'.never hNever')
  | ends hEnds hEnds' hAfter hAfter' hPost =>
      exact .ends (hTurns.ends _ _ hEnds) (hTurns'.ends _ _ hEnds')
        (hLeaves.trans hAfter) (hLeaves'.trans hAfter') hPost

namespace Likeness

/- Resuming at two labels is alike, for so many stretches. -/
def Resumes
    (L : Likeness)
    (m : Ref) : Nat → Set Spot → Set Spot →
      Value → Session → Value → Session → Prop
  | 0 => fun _ _ _ _ _ _ => True
  | n + 1 => fun own own' l s l' t =>
      Run.Together own own'
        (fun caller => Label.jump caller m l) s
        (fun caller => Label.jump caller m l') t
        (L.Meets (L.Resumes m n) own own')

/-
  Two runs are alike, and so is what they are resumed to, for
  so many resumptions.
-/
def Alike
    (L : Likeness)
    (m : Ref)
    (n : Nat)
    (own own' : Set Spot)
    (act : Caller → Run Value)
    (s : Session)
    (act' : Caller → Run Value)
    (t : Session) : Prop :=
  Run.Together own own' act s act' t
    (L.Meets (L.Resumes m n) own own')

/-
  Client code that makes steps, and is alike wherever sessions
  are.
-/
def Blind
    (L : Likeness)
    (m : Ref)
    (p : Program) : Prop :=
  ∀ n own own' s t, L.alike ⟨s, own⟩ ⟨t, own'⟩ →
    L.Alike m n own own' (fun c => p.run c) s
      (fun c => p.run c) t

/- Client code that answers alike wherever sessions are. -/
def Telling
    (L : Likeness)
    (p : Program) : Prop :=
  ∀ own own' s t, L.alike ⟨s, own⟩ ⟨t, own'⟩ →
    Run.Together own own' (fun c => p.run c) s
      (fun c => p.run c) t fun r s₁ r' t₁ =>
        Answers L.same r r' ∧ L.alike ⟨s₁, own⟩ ⟨t₁, own'⟩

------------------------------------------------------------
-- Ends that Meet
------------------------------------------------------------

variable {goes : Set Spot → Set Spot →
  Value → Session → Value → Session → Prop}
variable {r r' : Except Value Value}

/- What meets is a step, or was thrown. -/
theorem Meets.steps
    (h : L.Meets goes own own' r s r' t) :
    Label.Steps r ∧ Label.Steps r' := by
  cases h with
  | throws => exact ⟨nofun, nofun⟩
  | returns hStep hStep' =>
      exact ⟨Setting.steps_of_step hStep,
        Setting.steps_of_step hStep'⟩
  | handsOff hStep hStep' =>
      exact ⟨Setting.steps_of_step hStep,
        Setting.steps_of_step hStep'⟩
  | suspends _ _ hStep hStep' =>
      exact ⟨Setting.steps_of_step hStep,
        Setting.steps_of_step hStep'⟩

/- If one run has finished, so has the other one. -/
theorem Meets.finishes
    {step step' v : Value}
    (h : L.Meets goes own own' (.ok step) s (.ok step') t)
    (hStep : step.step? = some (.finish v)) :
    ∃ v', step'.step? = some (.finish v') := by
  cases h with
  | returns _ hStep' => exact ⟨_, hStep'⟩
  | handsOff hOther => cases hStep.symm.trans hOther
  | suspends _ _ hOther => cases hStep.symm.trans hOther

theorem Meets.alike
    (h : L.Meets goes own own' r s r' t) :
    L.alike ⟨s, own⟩ ⟨t, own'⟩ := by
  cases h with
  | throws _ hAlike => exact hAlike
  | returns _ _ _ hAlike => exact hAlike
  | handsOff _ _ hAlike => exact hAlike
  | suspends _ _ _ _ _ _ _ hAlike =>
      exact L.alike_less hAlike Set.subset_union_left
        Set.subset_union_left

/- Constructs around may be done with rows. -/
theorem Meets.less
    (h : L.Meets goes own own' r s r' t)
    (hLeft : P ⊆ own)
    (hRight : P' ⊆ own') :
    L.Meets goes P P' r s r' t := by
  cases h with
  | throws hSame hAlike =>
      exact .throws hSame (L.alike_less hAlike hLeft hRight)
  | returns hStep hStep' hSame hAlike =>
      exact .returns hStep hStep' hSame
        (L.alike_less hAlike hLeft hRight)
  | handsOff hStep hStep' hAlike =>
      exact .handsOff hStep hStep'
        (L.alike_less hAlike hLeft hRight)
  | suspends held held' hStep hStep' hSource hOwn hOwn' hAlike
      hGoes =>
      exact .suspends held held' hStep hStep' hSource
        (hOwn.mono_right hLeft) (hOwn'.mono_right hRight)
        (L.alike_less hAlike
          (Set.union_subset_union_left held hLeft)
          (Set.union_subset_union_left held' hRight)) hGoes

theorem Source.books
    {awaiter awaiter' : Value}
    (h : L.Source s t awaiter awaiter')
    (hBooks : Session.Books own s own₁ s₁)
    (hBooks' : Session.Books own' t own₂ t₁) :
    L.Source s₁ t₁ awaiter awaiter' := by
  cases h with
  | future hAwaiter hAwaiter' =>
      exact .future (hBooks.awaiters _ _ hAwaiter)
        (hBooks'.awaiters _ _ hAwaiter')
  | same hSame => exact .same hSame

/- Ends meet wherever the library has only kept its books. -/
theorem Meets.books
    (h : L.Meets goes (P ∪ own) (P' ∪ own') r s r' t)
    (hBooks : Session.Books own s own₁ s₁)
    (hBooks' : Session.Books own' t own₂ t₁) :
    L.Meets goes (P ∪ own₁) (P' ∪ own₂) r s₁ r' t₁ := by
  have hAlike₁ := L.right_writes (L.left_writes h.alike
    (hBooks.writes P)) (hBooks'.writes P')
  cases h with
  | throws hSame => exact .throws hSame hAlike₁
  | returns hStep hStep' hSame =>
      exact .returns hStep hStep' hSame hAlike₁
  | handsOff hStep hStep' => exact .handsOff hStep hStep' hAlike₁
  | suspends held held' hStep hStep' hSource hOwn hOwn' hAlike
      hGoes =>
      rcases L.sound hAlike with ⟨hHas, hHas'⟩
      rw [Set.disjoint_union_right] at hOwn hOwn'
      have hHeld : ∀ x ∈ held, s.HasSpot x :=
        fun x hx => hHas x (.inr hx)
      have hHeld' : ∀ x ∈ held', t.HasSpot x :=
        fun x hx => hHas' x (.inr hx)
      rw [Set.union_right_comm P, Set.union_right_comm P']
        at hAlike
      refine .suspends held held' hStep hStep'
        (hSource.books hBooks hBooks')
        (Set.disjoint_union_right.mpr ⟨hOwn.1,
          hBooks.apart held hOwn.2 hHeld⟩)
        (Set.disjoint_union_right.mpr ⟨hOwn'.1,
          hBooks'.apart held' hOwn'.2 hHeld'⟩) ?_ ?_
      · rw [Set.union_right_comm P, Set.union_right_comm P']
        exact L.right_writes (L.left_writes hAlike
          (hBooks.writes _)) (hBooks'.writes _)
      · intro others others' s₂ t₂ hOthers hOthers' hLater
          hLeaves hLeaves'
        exact hGoes others others' s₂ t₂ hOthers hOthers' hLater
          ((hBooks.leaves held hOwn.2 hHeld).trans hLeaves)
          ((hBooks'.leaves held' hOwn'.2 hHeld').trans hLeaves')

------------------------------------------------------------
-- Runs that Are Alike
------------------------------------------------------------

variable {act act₁ act' act₁' : Caller → Run Value}
variable {code : Closure}
variable {n : Nat}

/- Runs are alike if what they turn to is. -/
theorem Alike.of_turns
    {k k' : Nat}
    (h : L.Alike m n own own' act₁ s₁ act₁' t₁)
    (hTurns : Run.TurnsTo k act s act₁ s₁)
    (hTurns' : Run.TurnsTo k' act' t act₁' t₁)
    (hLeaves : s.Leaves own s₁)
    (hLeaves' : t.Leaves own' t₁) :
    L.Alike m n own own' act s act' t :=
  Run.Together.of_turns h hTurns hTurns' hLeaves hLeaves'

/- So are jumps to code that makes steps alike. -/
theorem Alike.jump_left
    (h : L.Alike m n own own' (fun c => code.enter c []) s act' t)
    (hBears : s.Bears m l (some code)) :
    L.Alike m n own own' (fun c => Label.jump c m (.label l)) s
      act' t := by
  cases h with
  | never hNever hNever' =>
      exact .never (Label.never_jump hBears hNever) hNever'
  | ends hEnds hEnds' hLeaves hLeaves' hMeets =>
      exact .ends (Label.ends_jump hBears hEnds
        hMeets.steps.1.lands) hEnds' hLeaves hLeaves' hMeets

theorem Alike.jump_right
    (h : L.Alike m n own own' act s (fun c => code.enter c []) t)
    (hBears : t.Bears m l (some code)) :
    L.Alike m n own own' act s
      (fun c => Label.jump c m (.label l)) t := by
  cases h with
  | never hNever hNever' =>
      exact .never hNever (Label.never_jump hBears hNever')
  | ends hEnds hEnds' hLeaves hLeaves' hMeets =>
      exact .ends hEnds (Label.ends_jump hBears hEnds'
        hMeets.steps.2.lands) hLeaves hLeaves' hMeets

/- Client code is entered by running its program. -/
theorem turnsTo_client
    (code : Code)
    (s : Session) :
    Run.TurnsTo 0 (fun c => (Closure.client code).enter c []) s
      (fun c => (code []).run c) (Run.calling s) :=
  .of_eq fun _ => rfl

end Likeness

end Resumption

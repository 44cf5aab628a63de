import Resumption.Run

/-
  Postconditions of runs: what holds of every way in which a
  computation can end, whether it finishes or throws.

  A run that has used up its bounds has no end, and so
  ensures everything.  The rules below follow the primitives
  that library functions are made of.

  Main declarations:
    * `Run.Ensures`
    * `Run.Ensures.bind`
    * `Run.Ensures.iterate`
    * `Array.getD_push_default`, `Array.getD_modify_default`
-/

namespace Resumption

------------------------------------------------------------
-- Reading Changed Tables
------------------------------------------------------------

section Tables

variable {α : Type} [Inhabited α]

/- A row that was added reads as what it was added as. -/
theorem getD_push
    (rows : Array α)
    (row : α)
    (r : Nat) :
    (rows.push row).getD r default =
      if r = rows.size then row else rows.getD r default := by
  by_cases hLast : r = rows.size
  · simp [Array.getD, hLast]
  · by_cases hOld : r < rows.size
    · have hNew : r < rows.size + 1 := by omega
      simp [Array.getD, hLast, hOld, hNew,
        Array.getElem_push]
    · have hNew : ¬ r < rows.size + 1 := by omega
      simp [Array.getD, hLast, hOld, hNew]

/- Changing a row changes no other; one past the end stays. -/
theorem getD_modify
    (rows : Array α)
    (f : α → α)
    (r r' : Nat) :
    (rows.modify r f).getD r' default =
      if r = r' ∧ r' < rows.size then
        f (rows.getD r' default)
      else rows.getD r' default := by
  by_cases hIn : r' < rows.size
  · by_cases hSame : r = r'
    · subst hSame
      simp [Array.getD, hIn, Array.getElem_modify_self]
    · simp [Array.getD, hIn, hSame, Array.getElem_modify]
  · simp [Array.getD, hIn]

/- What held of all rows holds with one more of which it holds. -/
theorem forall_getD_push
    (p : α → Prop)
    {rows : Array α}
    {row : α}
    (h : ∀ r : Nat, p (rows.getD r default))
    (hRow : p row)
    (r : Nat) :
    p ((rows.push row).getD r default) := by
  rw [getD_push]
  split
  · exact hRow
  · exact h r

/- What held of all rows holds of them as they are changed. -/
theorem forall_getD_modify
    (p : α → Prop)
    {rows : Array α}
    {f : α → α}
    (h : ∀ r : Nat, p (rows.getD r default))
    (r : Nat)
    (hf : ∀ row, p row → p (f row))
    (r' : Nat) :
    p ((rows.modify r f).getD r' default) := by
  rw [getD_modify]
  split
  · exact hf _ (h r')
  · exact h r'

/- Reading past the end of a table gives the default. -/
theorem getD_of_size_le
    (rows : Array α)
    {r : Nat}
    (h : rows.size ≤ r) :
    rows.getD r default = default := by
  simp [Array.getD, Nat.not_lt.mpr h]

end Tables

namespace Run

variable {α β : Type}
variable {s : Session}

------------------------------------------------------------
-- Postconditions
------------------------------------------------------------

/- Every end of a run satisfies a condition. -/
def Ensures
    (act : Run α)
    (s : Session)
    (post : Except Value α → Session → Prop) : Prop :=
  ∀ r s', act s = some (r, s') → post r s'

/- A weaker condition is ensured too. -/
theorem Ensures.mono
    {act : Run α}
    {post post' : Except Value α → Session → Prop}
    (h : act.Ensures s post)
    (hPost : ∀ r s', post r s' → post' r s') :
    act.Ensures s post' :=
  fun r s' hAct => hPost r s' (h r s' hAct)

/- Two conditions can be ensured together. -/
theorem Ensures.and
    {act : Run α}
    {post post' : Except Value α → Session → Prop}
    (h : act.Ensures s post)
    (h' : act.Ensures s post') :
    act.Ensures s fun r s' => post r s' ∧ post' r s' :=
  fun r s' hAct => ⟨h r s' hAct, h' r s' hAct⟩

/- What follows a computation, when that has finished. -/
def Follows
    (f : α → Run β)
    (post : Except Value β → Session → Prop) :
    Except Value α → Session → Prop
  | .ok a, s' => (f a).Ensures s' post
  | .error e, s' => post (.error e) s'

/- Where the first part of a sequence ends, the second begins. -/
theorem bind_of_end
    {act : Run α}
    {f : α → Run β}
    {r : Except Value α}
    {s' : Session}
    (h : act s = some (r, s')) :
    (act >>= f) s = ExceptT.bindCont f r s' := by
  change ((act s).bind fun out =>
    ExceptT.bindCont f out.1 out.2) = _
  rw [h]
  rfl

/- What has no end has no end with anything after it. -/
theorem bind_of_none
    {act : Run α}
    {f : α → Run β}
    (h : act s = none) :
    (act >>= f) s = none := by
  change ((act s).bind fun out =>
    ExceptT.bindCont f out.1 out.2) = _
  rw [h]
  rfl

/- A sequence ensures what its second part ensures after the first. -/
theorem Ensures.bind
    {act : Run α}
    {f : α → Run β}
    {post : Except Value β → Session → Prop}
    (h : act.Ensures s (Follows f post)) :
    (act >>= f).Ensures s post := by
  intro r s' hRun
  cases hAct : act s with
  | none =>
      rw [bind_of_none hAct] at hRun
      cases hRun
  | some out =>
      rcases out with ⟨r₁, s₁⟩
      have hFirst := h r₁ s₁ hAct
      rw [bind_of_end hAct] at hRun
      cases r₁ with
      | ok a => exact hFirst r s' hRun
      | error e =>
          have hEnd := Option.some.inj hRun
          cases hEnd
          exact hFirst

/- It ensures nothing else. -/
theorem ensures_bind
    {act : Run α}
    {f : α → Run β}
    {post : Except Value β → Session → Prop} :
    (act >>= f).Ensures s post ↔
      act.Ensures s (Follows f post) := by
  refine ⟨fun h r₁ s₁ hAct => ?_, Ensures.bind⟩
  cases r₁ with
  | ok a =>
      intro r s' hRun
      refine h r s' ?_
      rw [bind_of_end hAct]
      exact hRun
  | error e =>
      refine h (.error e) s₁ ?_
      rw [bind_of_end hAct]
      rfl

------------------------------------------------------------
-- Ends
------------------------------------------------------------

@[simp] theorem ensures_pure
    {a : α}
    {post : Except Value α → Session → Prop} :
    (pure a : Run α).Ensures s post ↔ post (.ok a) s := by
  constructor
  · intro h
    exact h _ _ rfl
  · intro h r s' hAct
    obtain ⟨rfl, rfl⟩ := Prod.mk.inj (Option.some.inj hAct)
    exact h

@[simp] theorem ensures_raise
    {e : Value}
    {post : Except Value α → Session → Prop} :
    (raise e : Run α).Ensures s post ↔ post (.error e) s := by
  constructor
  · intro h
    exact h _ _ rfl
  · intro h r s' hAct
    obtain ⟨rfl, rfl⟩ := Prod.mk.inj (Option.some.inj hAct)
    exact h

@[simp] theorem ensures_exhaust
    {post : Except Value α → Session → Prop} :
    (exhaust : Run α).Ensures s post := by
  intro r s' hAct
  cases hAct

------------------------------------------------------------
-- Steps
------------------------------------------------------------

@[simp] theorem ensures_pure_bind
    {a : α}
    {f : α → Run β}
    {post : Except Value β → Session → Prop} :
    (pure a >>= f).Ensures s post ↔ (f a).Ensures s post :=
  Iff.rfl

@[simp] theorem ensures_get_bind
    {f : Session → Run β}
    {post : Except Value β → Session → Prop} :
    ((get : Run Session) >>= f).Ensures s post ↔
      (f s).Ensures s post :=
  Iff.rfl

@[simp] theorem ensures_modify
    {g : Session → Session}
    {post : Except Value PUnit → Session → Prop} :
    (modify g : Run PUnit).Ensures s post ↔
      post (.ok ⟨⟩) (g s) := by
  constructor
  · intro h
    exact h _ _ rfl
  · intro h r s' hAct
    obtain ⟨rfl, rfl⟩ := Prod.mk.inj (Option.some.inj hAct)
    exact h

@[simp] theorem ensures_modify_bind
    {g : Session → Session}
    {f : PUnit → Run β}
    {post : Except Value β → Session → Prop} :
    ((modify g : Run PUnit) >>= f).Ensures s post ↔
      (f ⟨⟩).Ensures (g s) post :=
  Iff.rfl

@[simp] theorem ensures_modifyGet
    {g : Session → α × Session}
    {post : Except Value α → Session → Prop} :
    (modifyGet g : Run α).Ensures s post ↔
      post (.ok (g s).1) (g s).2 := by
  constructor
  · intro h
    exact h _ _ rfl
  · intro h r s' hAct
    obtain ⟨rfl, rfl⟩ := Prod.mk.inj (Option.some.inj hAct)
    exact h

@[simp] theorem ensures_row
    [Inhabited α]
    {t : Table α}
    {r : Ref}
    {post : Except Value α → Session → Prop} :
    (t.row r).Ensures s post ↔
      post (.ok ((t.rows s).getD r default)) s := by
  exact ensures_pure

@[simp] theorem ensures_row_bind
    [Inhabited α]
    {t : Table α}
    {r : Ref}
    {f : α → Run β}
    {post : Except Value β → Session → Prop} :
    (t.row r >>= f).Ensures s post ↔
      (f ((t.rows s).getD r default)).Ensures s post :=
  Iff.rfl

@[simp] theorem ensures_alloc
    {t : Table α}
    {row : α}
    {post : Except Value Ref → Session → Prop} :
    (t.alloc row).Ensures s post ↔
      post (.ok (t.rows s).size)
        (t.change (·.push row) s) := by
  exact ensures_pure

@[simp] theorem ensures_alloc_bind
    {t : Table α}
    {row : α}
    {f : Ref → Run β}
    {post : Except Value β → Session → Prop} :
    (t.alloc row >>= f).Ensures s post ↔
      (f (t.rows s).size).Ensures
        (t.change (·.push row) s) post :=
  Iff.rfl

@[simp] theorem ensures_alter
    {t : Table α}
    {r : Ref}
    {g : α → α}
    {post : Except Value PUnit → Session → Prop} :
    (t.alter r g).Ensures s post ↔
      post (.ok ⟨⟩) (t.change (·.modify r g) s) := by
  exact ensures_modify

@[simp] theorem ensures_alter_bind
    {t : Table α}
    {r : Ref}
    {g : α → α}
    {f : PUnit → Run β}
    {post : Except Value β → Session → Prop} :
    (t.alter r g >>= f).Ensures s post ↔
      (f ⟨⟩).Ensures (t.change (·.modify r g) s) post :=
  Iff.rfl

------------------------------------------------------------
-- Brackets
------------------------------------------------------------

@[simp] theorem ensures_attempt
    {act : Run α}
    {post : Except Value (Except Value α) → Session → Prop} :
    (attempt act).Ensures s post ↔
      act.Ensures s fun r s' => post (.ok r) s' := by
  constructor
  · intro h r s' hAct
    apply h
    simp [attempt, hAct]
  · intro h r s' hAct
    unfold attempt at hAct
    cases hRun : act s with
    | none => simp [hRun] at hAct
    | some out =>
        obtain ⟨r₁, s₁⟩ := out
        simp only [hRun, Option.some.injEq,
          Prod.mk.injEq] at hAct
        obtain ⟨rfl, rfl⟩ := hAct
        exact h r₁ s₁ hRun

@[simp] theorem ensures_withAmbient
    {ambient : Value}
    {act : Run α}
    {post : Except Value α → Session → Prop} :
    (withAmbient ambient act).Ensures s post ↔
      act.Ensures (becoming ambient s) fun r s' =>
        post r { s' with ambient := s.ambient } := by
  constructor
  · intro h r s' hAct
    apply h
    simp [withAmbient, hAct]
  · intro h r s' hAct
    unfold withAmbient at hAct
    cases hRun : act (becoming ambient s) with
    | none => simp [hRun] at hAct
    | some out =>
        obtain ⟨r₁, s₁⟩ := out
        simp only [hRun, Option.some.injEq,
          Prod.mk.injEq] at hAct
        obtain ⟨rfl, rfl⟩ := hAct
        exact h r₁ s₁ hRun

@[simp] theorem ensures_withTask
    {t : Ref}
    {act : Run α}
    {post : Except Value α → Session → Prop} :
    (withTask t act).Ensures s post ↔
      act.Ensures (entering t s) fun r s' =>
        post r { s' with task := s.task, home := s.home } := by
  constructor
  · intro h r s' hAct
    apply h
    simp [withTask, hAct]
  · intro h r s' hAct
    unfold withTask at hAct
    cases hRun : act (entering t s) with
    | none => simp [hRun] at hAct
    | some out =>
        obtain ⟨r₁, s₁⟩ := out
        simp only [hRun, Option.some.injEq,
          Prod.mk.injEq] at hAct
        obtain ⟨rfl, rfl⟩ := hAct
        exact h r₁ s₁ hRun

@[simp] theorem ensures_abroad
    {act : Run α}
    {post : Except Value α → Session → Prop} :
    (abroad act).Ensures s post ↔
      act.Ensures { s with home := none } fun r s' =>
        post r { s' with home := s.home } := by
  constructor
  · intro h r s' hAct
    apply h
    simp [abroad, hAct]
  · intro h r s' hAct
    unfold abroad at hAct
    cases hRun : act { s with home := none } with
    | none => simp [hRun] at hAct
    | some out =>
        obtain ⟨r₁, s₁⟩ := out
        simp only [hRun, Option.some.injEq,
          Prod.mk.injEq] at hAct
        obtain ⟨rfl, rfl⟩ := hAct
        exact h r₁ s₁ hRun

@[simp] theorem ensures_aside
    {act : Run α}
    {post : Except Value α → Session → Prop} :
    (aside act).Ensures s post ↔
      act.Ensures { s with aside := true } fun r s' =>
        post r { s' with aside := s.aside } := by
  constructor
  · intro h r s' hAct
    apply h
    simp [aside, hAct]
  · intro h r s' hAct
    unfold aside at hAct
    cases hRun : act { s with aside := true } with
    | none => simp [hRun] at hAct
    | some out =>
        obtain ⟨r₁, s₁⟩ := out
        simp only [hRun, Option.some.injEq,
          Prod.mk.injEq] at hAct
        obtain ⟨rfl, rfl⟩ := hAct
        exact h r₁ s₁ hRun

/- Mapping the result maps what the end is judged by. -/
theorem Ensures.map
    {act : Run α}
    {g : α → β}
    {post : Except Value β → Session → Prop}
    (h : act.Ensures s fun r s' => post (r.map g) s') :
    (g <$> act).Ensures s post := by
  rw [map_eq_pure_bind]
  refine Ensures.bind (h.mono ?_)
  intro r s' hPost
  cases r with
  | ok a => exact ensures_pure.mpr hPost
  | error e => exact hPost

/- Leaving a result unused changes no end otherwise. -/
theorem Ensures.discard
    {act : Run α}
    {post : Except Value PUnit → Session → Prop}
    (h : act.Ensures s fun r s' =>
      post (r.map fun _ => ⟨⟩) s') :
    (Functor.discard act).Ensures s post :=
  Ensures.map h

/- Answering with nothing changes no end otherwise. -/
theorem Ensures.quietly
    {act : Run α}
    {post : Except Value Value → Session → Prop}
    (h : act.Ensures s fun r s' =>
      post (r.map fun _ => .undefined) s') :
    (Run.quietly act).Ensures s post := by
  refine Ensures.bind (Ensures.discard (h.mono ?_))
  intro r s' hPost
  cases r with
  | ok a => exact ensures_pure.mpr hPost
  | error e => exact hPost

------------------------------------------------------------
-- Computations that Throw Nothing
------------------------------------------------------------

/- Wherever a computation runs, it throws nothing. -/
def Calm (act : Run α) : Prop :=
  ∀ s, act.Ensures s fun r _ => ∃ a, r = .ok a

theorem calm_pure
    (a : α) :
    Calm (pure a) :=
  fun _ => ensures_pure.mpr ⟨a, rfl⟩

theorem Calm.bind
    {act : Run α}
    {f : α → Run β}
    (h : Calm act)
    (hf : ∀ a, Calm (f a)) :
    Calm (act >>= f) := by
  intro s
  refine Ensures.bind ((h s).mono ?_)
  rintro _ s' ⟨a, rfl⟩
  exact hf a s'

theorem calm_modify
    (g : Session → Session) :
    Calm (modify g) :=
  fun _ => ensures_modify.mpr ⟨_, rfl⟩

theorem Calm.forM
    {act : α → Run PUnit}
    (h : ∀ a, Calm (act a))
    (l : List α) :
    Calm (l.forM act) := by
  induction l with
  | nil => exact calm_pure _
  | cons a l ih => exact (h a).bind fun _ => ih

------------------------------------------------------------
-- Computations that Come to an End
------------------------------------------------------------

/- A computation comes to an end wherever it runs. -/
def Halts (act : Run α) : Prop :=
  ∀ s, (act s).isSome

theorem halts_pure
    (a : α) :
    Halts (pure a) :=
  fun _ => rfl

/- A sequence ends if what follows some end of its first part does. -/
theorem halts_bind_of
    {act : Run α}
    {f : α → Run β}
    {post : Except Value α → Session → Prop}
    (h : (act s).isSome)
    (hPost : act.Ensures s post)
    (hf : ∀ a s', post (.ok a) s' → (f a s').isSome) :
    ((act >>= f) s).isSome := by
  rcases Option.isSome_iff_exists.mp h with ⟨⟨r, s'⟩, hAct⟩
  rw [bind_of_end hAct]
  cases r with
  | ok a => exact hf a s' (hPost _ s' hAct)
  | error e => rfl

theorem Halts.bind
    {act : Run α}
    {f : α → Run β}
    (h : Halts act)
    (hf : ∀ a, Halts (f a)) :
    Halts (act >>= f) := by
  intro s
  have hAny : act.Ensures s fun _ _ => True :=
    fun _ _ _ => trivial
  exact halts_bind_of (h s) hAny fun a s' _ => hf a s'

theorem Halts.discard
    {act : Run α}
    (h : Halts act) :
    Halts (Functor.discard act) :=
  Halts.bind h fun _ => halts_pure _

theorem Halts.attempt
    {act : Run α}
    (h : Halts act) :
    Halts (Run.attempt act) := by
  intro s
  rcases Option.isSome_iff_exists.mp (h s) with ⟨out, hAct⟩
  simp [Run.attempt, hAct]

theorem Halts.withTask
    {t : Ref}
    {act : Run α}
    (h : Halts act) :
    Halts (Run.withTask t act) := by
  intro s
  rcases Option.isSome_iff_exists.mp
    (h (Run.entering t s)) with ⟨out, hAct⟩
  simp [Run.withTask, hAct]

theorem Halts.aside
    {act : Run α}
    (h : Halts act) :
    Halts (Run.aside act) := by
  intro s
  rcases Option.isSome_iff_exists.mp
    (h { s with aside := true }) with ⟨out, hAct⟩
  simp [Run.aside, hAct]

------------------------------------------------------------
-- Rounds
------------------------------------------------------------

/-
  A round ends with what is wanted, or there is another one
  and what holds before a round holds again.
-/
def Continues
    (before : Session → Prop)
    (post : Except Value α → Session → Prop) :
    Except Value (Option α) → Session → Prop
  | .ok (some a), s' => post (.ok a) s'
  | .ok none, s' => before s'
  | .error e, s' => post (.error e) s'

/-
  A condition that holds before every round holds at the
  end, if every round keeps it or ends with what is wanted.
-/
theorem Ensures.iterate
    {round : Run (Option α)}
    {post : Except Value α → Session → Prop}
    {before : Session → Prop}
    (hRound : ∀ s, before s →
      round.Ensures s (Continues before post))
    (n : Nat)
    (hs : before s) :
    (Run.iterate n round).Ensures s post := by
  induction n generalizing s with
  | zero => exact ensures_exhaust
  | succ n ih =>
      intro r s' hRun
      simp only [Run.iterate] at hRun
      cases hOut : round s with
      | none => simp [hOut] at hRun
      | some out =>
          obtain ⟨r₁, s₁⟩ := out
          have hEnd := hRound s hs r₁ s₁ hOut
          match r₁, hOut, hEnd with
          | .ok (some a), hOut, hEnd =>
              simp only [hOut, Option.some.injEq,
                Prod.mk.injEq] at hRun
              obtain ⟨rfl, rfl⟩ := hRun
              exact hEnd
          | .ok none, hOut, hEnd =>
              simp only [hOut] at hRun
              exact ih hEnd r s' hRun
          | .error e, hOut, hEnd =>
              simp only [hOut, Option.some.injEq,
                Prod.mk.injEq] at hRun
              obtain ⟨rfl, rfl⟩ := hRun
              exact hEnd

end Run

end Resumption

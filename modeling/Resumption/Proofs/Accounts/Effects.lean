import Resumption.Proofs.Accounts.Sources

/-
  Deeds and effects: what is done at once, free of charge.

  They find and leave the variables as an account has it, and
  no label is allocated, nor any source made use of.

  Main declarations:
    * `Supply.Alters`, `Supply.alters_deed`
    * `Supply.ensures_effect`
    * `Supply.Quits`, `Supply.quits_effect`
-/

namespace Resumption

open Run

namespace Supply

variable {ν : Type}
variable {S : Supply ν}
variable {F G : Footprint}
variable {A : Account ν}
variable {s s₁ s' : Session}
variable {k rounds depth : Nat}
variable {effect : Effect}

------------------------------------------------------------
-- Changing Variables
------------------------------------------------------------

/-
  Code went from a session to one with other variables, free
  of charge.
-/
structure Alters
    (S : Supply ν)
    (vars : Fields)
    (s s' : Session) : Prop where
  moves : S.Moves .none .none s s'
  globals : s'.globals = vars

namespace Alters

variable {vars vars' : Fields}

theorem refl (s : Session) :
    S.Alters s.globals s s :=
  ⟨.refl .none s, rfl⟩

theorem trans
    (h : S.Alters vars s s₁)
    (h' : S.Alters vars' s₁ s') :
    S.Alters vars' s s' :=
  ⟨h.moves.trans h'.moves (fun _ _ hc => hc) fun _ _ hc => hc,
    h'.globals⟩

/- What is idle alters nothing. -/
theorem of_idles
    (h : S.Idles .none 0 s s₁) :
    S.Alters s.globals s s₁ :=
  ⟨h.moves_none, congrArg Stock.globals h.stock⟩

theorem ready
    (h : S.Alters vars s s')
    (hs : S.Ready s) :
    S.Ready s' :=
  h.moves.ready hs

/- What is found afterwards. -/
theorem view
    (h : S.Alters vars s s')
    (hs : S.Ready s) :
    S.view s' = { S.view s with vars := vars } := by
  simp only [Supply.view, h.globals, h.moves.status_eq hs]

theorem retains
    {kept : Cell → Prop}
    (h : S.Alters vars s s') :
    Session.Retains kept s s' :=
  h.moves.retains.weaken fun _ _ _ hc => hc

end Alters

------------------------------------------------------------
-- Deeds
------------------------------------------------------------

/- A deed is done at once. -/
theorem alters_deed
    (deed : Deed)
    (s : Session) :
    ∃ s', S.Alters (deed.upon s.globals).2 s s' ∧
      ∀ caller, deed.request.perform caller s =
        some (.ok (deed.upon s.globals).1, s') := by
  cases deed with
  | log entry =>
      have hShown := entry.shown s
      refine ⟨logging entry.face s, ⟨?_, rfl⟩, fun _ => ?_⟩
      · exact
          { retains := { Session.Retains.refl _ s with }
            surroundings := rfl
            labels := rfl
            size := rfl
            billed := fun _ _ => rfl
            awaitable := fun _ _ h => h
            made := Nat.le_refl _
            future := fun _ _ => rfl }
      · rw [← hShown]
        rfl
  | read name =>
      exact ⟨s, .refl s,
        fun _ => bind_of_end (text_str name s)⟩
  | write name v =>
      refine ⟨{ s with globals := s.globals.put name v },
        ⟨?_, rfl⟩, fun _ => bind_of_end (text_str name s)⟩
      exact
        { retains := { Session.Retains.refl _ s with }
          surroundings := rfl
          labels := rfl
          size := rfl
          billed := fun _ _ => rfl
          awaitable := fun _ _ h => h
          made := Nat.le_refl _
          future := fun _ _ => rfl }

------------------------------------------------------------
-- Effects
------------------------------------------------------------

/- An effect is done at once, however it ends. -/
theorem alters_effect
    (effect : Effect)
    (s : Session) :
    ∃ s', S.Alters (effect.upon s.globals).2 s s' ∧
      ∀ caller, effect.code.run caller s =
        some ((effect.upon s.globals).1, s') := by
  induction effect generalizing s with
  | done v => exact ⟨s, .refl s, fun _ => rfl⟩
  | fail e => exact ⟨s, .refl s, fun _ => rfl⟩
  | act deed k ih =>
      rcases alters_deed (S := S) deed s with
        ⟨s₁, hFirst, hEnds⟩
      rcases ih (deed.upon s.globals).1 s₁ with
        ⟨s', hRest, hEnds'⟩
      rw [hFirst.globals] at hRest hEnds'
      exact ⟨s', hFirst.trans hRest, fun caller =>
        (bind_of_end (hEnds caller)).trans (hEnds' caller)⟩

/- So it is where the library calls it. -/
theorem ensures_effect
    (effect : Effect)
    (s : Session)
    (args : List Value) :
    ((Caller.ofDepth rounds depth).call
      (.client fun _ => effect.code) args).Ensures s
        fun r s' => r = (effect.upon s.globals).1 ∧
          S.Alters (effect.upon s.globals).2 s s' := by
  refine ensures_call_below fun d _ => ?_
  have hCalling := Alters.of_idles (idles_calling (S := S) s)
  rcases alters_effect (S := S) effect (calling s) with
    ⟨s', hAlters, hEnds⟩
  rw [hCalling.globals] at hAlters hEnds
  refine ensures_modify_bind.mpr fun r s₁ hRun => ?_
  cases (hEnds _).symm.trans hRun
  exact ⟨rfl, hCalling.trans hAlters⟩

/- A run ended as an effect does, whatever that comes to. -/
def Quit
    (S : Supply ν)
    (effect : Effect)
    (s : Session)
    (r : Except Value Value)
    (s' : Session) : Prop :=
  r.map (fun _ => ()) =
      (effect.upon s.globals).1.map (fun _ => ()) ∧
    S.Alters (effect.upon s.globals).2 s s'

/- A compensation ends as an effect does. -/
def Quits
    (S : Supply ν)
    (code : Closure)
    (effect : Effect)
    (s : Session) : Prop :=
  ∀ rounds depth,
    ((Caller.ofDepth rounds depth).call code []).Ensures s
      (S.Quit effect s)

/- Client code ends as it does. -/
theorem quits_effect
    (effect : Effect)
    (s : Session) :
    S.Quits (.client fun _ => effect.code) effect s :=
  fun _ _ => (ensures_effect effect s []).mono
    fun _ _ h => ⟨congrArg _ h.1, h.2⟩

/- The release of a resource ends as that is known to. -/
theorem quits_release
    {resource : Value}
    (hs : S.Ready s)
    (hRelease : S.release resource = some effect) :
    S.Quits (.release resource) effect s := by
  intro rounds depth
  refine ensures_call_below fun d _ => ?_
  have hNone : resource.isMissing = true →
      effect = .done .undefined →
      (Resource.release (.ofDepth rounds d) resource).Ensures s
        (S.Quit effect s) := by
    rintro hMissing rfl
    unfold Resource.release
    rw [if_pos hMissing]
    exact ensures_pure.mpr ⟨rfl, .refl s⟩
  cases resource with
  | undefined => exact hNone rfl (Option.some.inj hRelease).symm
  | null => exact hNone rfl (Option.some.inj hRelease).symm
  | resource r =>
      have hRow := hs.resource r effect hRelease
      have hEnd : Table.resources.row r s = some
          (.ok (.custom (.client fun _ => effect.code)), s) := by
        have hGet : Table.resources.row r s =
            some (.ok (s.resources.getD r default), s) := rfl
        rw [hGet]
        simp [Array.getD_eq_getD_getElem?, hRow]
      refine Ensures.bind (Ensures.discard ?_)
      refine Ensures.bind fun q s₁ hRun => ?_
      cases hEnd.symm.trans hRun
      refine (ensures_effect (S := S) effect s []).mono ?_
      intro q s' h
      have hSame := congrArg (Except.map fun _ => ()) h.1
      cases q with
      | ok v => exact ensures_pure.mpr ⟨hSame, h.2⟩
      | error e => exact ⟨hSame, h.2⟩
  | _ => cases hRelease

end Supply

end Resumption

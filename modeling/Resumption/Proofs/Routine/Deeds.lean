import Resumption.Proofs.Routine.Delivers

/-
  Deeds and effects do what their readings say, at once and
  within their own territory.

  Main declarations:
    * `Setting.Does`
    * `Deed.does`
    * `Effect.does`
-/

namespace Resumption

open Run

------------------------------------------------------------
-- Fields
------------------------------------------------------------

namespace Fields

variable {p : String → Bool}
variable {name : String}

/- Fields of some names, after one of them was set. -/
theorem filter_put
    (h : p name = true)
    (v : Value)
    (fields : Fields) :
    (fields.put name v).filter (fun f => p f.1) =
      Fields.put name v (fields.filter fun f => p f.1) := by
  induction fields with
  | nil => simp [put, h]
  | cons head rest ih =>
      obtain ⟨k, w⟩ := head
      by_cases hSame : k = name
      · subst hSame
        simp [put, h]
      · by_cases hk : p k = true
        · simp [put, hSame, hk, ih]
        · simp [put, hSame, hk, ih]

/- Fields of other names are what they were. -/
theorem filter_put_of_not
    (h : p name = false)
    (v : Value)
    (fields : Fields) :
    (fields.put name v).filter (fun f => p f.1) =
      fields.filter fun f => p f.1 := by
  induction fields with
  | nil => simp [put, h]
  | cons head rest ih =>
      obtain ⟨k, w⟩ := head
      by_cases hSame : k = name
      · subst hSame
        simp [put, h]
      · by_cases hk : p k = true
        · simp [put, hSame, hk, ih]
        · simp [put, hSame, hk, ih]

/- A field of one of the names is found among them. -/
theorem lookup_filter
    (h : p name = true)
    (fields : Fields) :
    (fields.filter fun f => p f.1).lookup name =
      fields.lookup name := by
  induction fields with
  | nil => rfl
  | cons head rest ih =>
      obtain ⟨k, w⟩ := head
      by_cases hSame : name = k
      · subst hSame
        simp [h]
      · have hBeq : (name == k) = false := by
          simpa using hSame
        by_cases hk : p k = true
        · simp [List.lookup_cons, hBeq, hk, ih]
        · simp [List.lookup_cons, hBeq, hk, ih]

end Fields

------------------------------------------------------------
-- Doing
------------------------------------------------------------

/-
  Code that is done at once, touching no cell, and leaves
  the session where a reading is.
-/
def Setting.Does
    {ν α : Type}
    (E : Setting ν)
    (act : Caller → Run α)
    (s : Session)
    (o : Except (Stop ν) α)
    (R : Reading ν) : Prop :=
  ∃ s' r, Leads act s r s' ∧ E.Moves .none s s' ∧
    E.Agrees s' R ∧ E.Matches s' o r

variable {ν : Type}
variable {E : Setting ν}
variable {s : Session}
variable {R R' : Reading ν}
variable {o : Except (Stop ν) Value}

/- A text is its own text. -/
theorem text_str
    (t : String)
    (s : Session) :
    Run.text (.str t) s = some (.ok t, s) := by
  have hText : s.text (.str t) = t := by
    unfold Session.text
    cases s.lists.size <;> rfl
  have hEnd : Run.text (.str t) s =
      some (.ok (s.text (.str t)), s) := rfl
  rw [hEnd, hText]

/- A deed is done as it is read. -/
theorem Deed.does
    {deed : Deed}
    (h : deed.direct E.toOutlook R = some (o, R'))
    (hs : E.Agrees s R) :
    E.Does (fun c => deed.request.perform c) s o R' := by
  rcases Direct.of_deed h with ⟨v, memory, hApply, rfl, rfl⟩
  rw [← hs.memory] at hApply
  cases deed with
  | log entry =>
      simp only [Deed.apply] at hApply
      split at hApply
      · rename_i hOwn
        cases hApply
        let s' := logging entry.face s
        have hShown := entry.shown s
        have hMoves : E.Moves .none s s' :=
          { retains := { Session.Retains.refl _ s with }
            backdrop := rfl
            foreign := fun own hApart => by
              have hNot := hApart.entry _ hOwn
              simp [Session.memory, s', logging, hNot] }
        refine ⟨s', .ok .undefined, .of_eq fun _ => ?_, hMoves,
          ?_, rfl⟩
        · simp only [s', ← hShown]
          rfl
        · exact
            { calm := hMoves.calm hs.calm
              memory := by
                simp [Session.memory, s', logging, hOwn] }
      · cases hApply
  | read name =>
      simp only [Deed.apply] at hApply
      split at hApply
      · rename_i hOwn
        cases hApply
        have hLookup : (s.memory E.own).vars.lookup name =
            s.globals.lookup name :=
          Fields.lookup_filter hOwn s.globals
        rw [hLookup]
        exact ⟨s, _,
          .of_eq fun _ => bind_of_end (text_str name s),
          .refl E .none s, ⟨hs.calm, rfl⟩, rfl⟩
      · cases hApply
  | write name v =>
      simp only [Deed.apply] at hApply
      split at hApply
      · rename_i hOwn
        cases hApply
        let s' : Session :=
          { s with globals := s.globals.put name v }
        have hMoves : E.Moves .none s s' :=
          { retains := { Session.Retains.refl _ s with }
            backdrop := rfl
            foreign := fun own hApart => by
              have hNot := hApart.var _ hOwn
              simp only [Session.memory, s',
                Fields.filter_put_of_not hNot] }
        refine ⟨s', .ok v,
          .of_eq fun _ => bind_of_end (text_str name s),
          hMoves, ?_, rfl⟩
        exact
          { calm := hMoves.calm hs.calm
            memory := by
              simp only [Session.memory, s',
                Fields.filter_put hOwn] }
      · cases hApply

/- What is done with a value leads to that value. -/
theorem Setting.Does.leads
    {α : Type}
    {act : Caller → Run α}
    {a : α}
    (h : E.Does act s (.ok a) R) :
    ∃ s', Leads act s (.ok a) s' ∧ E.Moves .none s s' ∧
      E.Agrees s' R := by
  rcases h with ⟨s', r, hLeads, hMoves, hAgrees, hMatches⟩
  match r with
  | .ok a' =>
      cases hMatches
      exact ⟨s', hLeads, hMoves, hAgrees⟩

/- What stops is thrown out of. -/
theorem Setting.Does.throws
    {α : Type}
    {act : Caller → Run α}
    {stop : Stop ν}
    (h : E.Does act s (.error stop) R) :
    ∃ s' e, Leads act s (.error e) s' ∧ E.Moves .none s s' ∧
      E.Agrees s' R ∧ E.Means s' stop e := by
  rcases h with ⟨s', r, hLeads, hMoves, hAgrees, hMatches⟩
  match r with
  | .error e => exact ⟨s', e, hLeads, hMoves, hAgrees, hMatches⟩

/- One thing that is done, and what is done with its value. -/
theorem Setting.Does.bind
    {α β : Type}
    {act : Caller → Run α}
    {next : Caller → α → Run β}
    {a : α}
    {o : Except (Stop ν) β}
    (h : E.Does act s (.ok a) R)
    (hNext : ∀ s', E.Moves .none s s' → E.Agrees s' R →
      E.Does (fun c => next c a) s' o R') :
    E.Does (fun c => act c >>= next c) s o R' := by
  rcases h.leads with ⟨s₁, hLeads, hMoves, hAgrees⟩
  rcases hNext s₁ hMoves hAgrees with
    ⟨s₂, r, hLeads', hMoves', hAgrees', hMatches⟩
  exact ⟨s₂, r, hLeads.bind hLeads', hMoves.none_trans hMoves',
    hAgrees', hMatches⟩

/- An effect is done as it is read. -/
theorem Effect.does
    {effect : Effect}
    (h : effect.direct E.toOutlook R = some (o, R'))
    (hs : E.Agrees s R) :
    E.Does (fun c => effect.code.run c) s o R' := by
  induction effect generalizing s R with
  | done v =>
      have hEnd := Option.some.inj h
      cases hEnd
      exact ⟨s, _, .pure v, .refl E .none s, hs, rfl⟩
  | fail e =>
      have hEnd := Option.some.inj h
      cases hEnd
      exact ⟨s, _, .raise e, .refl E .none s, hs, rfl⟩
  | act deed k ih =>
      rcases Direct.of_bind h with
        ⟨v, R₁, hDeed, hRest⟩ | ⟨e, hDeed, _⟩
      · have hDoes := Deed.does hDeed hs
        exact hDoes.bind fun s' _ hAgrees =>
          ih v hRest hAgrees
      · rcases Direct.of_deed hDeed with ⟨_, _, _, hSame, _⟩
        cases hSame

/- So it is where the library calls it. -/
theorem Effect.does_client
    {effect : Effect}
    (h : effect.direct E.toOutlook R = some (o, R'))
    (hs : E.Agrees s R)
    (args : List Value) :
    E.Does
      (fun c => c.call (.client fun _ => effect.code) args)
      s o R' := by
  rcases Effect.does h hs.calling with
    ⟨s', r, hLeads, hMoves, hAgrees, hMatches⟩
  exact ⟨s', r, hLeads.client,
    (E.moves_calling s).none_trans hMoves, hAgrees, hMatches⟩

/- What is done first, before code that delivers. -/
theorem Setting.Does.precede
    {α : Type}
    {F : Footprint}
    {first : Caller → Run α}
    {next : Caller → α → Run Value}
    {a : α}
    (h : E.Does first s (.ok a) R)
    (hNext : ∀ s', E.Moves .none s s' → E.Agrees s' R →
      E.Delivers hands F (fun c => next c a) s' o R') :
    E.Delivers hands F (fun c => first c >>= next c) s o R' := by
  rcases h.leads with ⟨s', hLeads, hMoves, hAgrees⟩
  exact .precede hLeads hMoves.any
    (hNext s' hMoves hAgrees)

end Resumption

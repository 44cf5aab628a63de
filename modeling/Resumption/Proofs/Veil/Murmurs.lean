import Resumption.Proofs.Veil.Tables

/-
  Runs that only murmur: aside, they leave no trace but in
  what is kept of what goes on aside.

  Main declarations:
    * `Session.Murmurs`
    * `Run.Murmurs`
    * `Veil.Sees.murmured`
-/

namespace Resumption

open Run

------------------------------------------------------------
-- Sessions
------------------------------------------------------------

/- A session has changed in nothing that others are told of. -/
def Session.Murmurs (s s' : Session) : Prop :=
  s'.effects = s.effects ∧
    ∃ events log chronicle,
      s' = { s with
        events := events
        log := log
        chronicle := chronicle }

namespace Session.Murmurs

variable {s s₁ s' : Session}

theorem refl
    (s : Session) :
    s.Murmurs s :=
  ⟨rfl, _, _, _, rfl⟩

theorem trans
    (h : s.Murmurs s₁)
    (h' : s₁.Murmurs s') :
    s.Murmurs s' := by
  rcases h with ⟨hEffects, _, _, _, rfl⟩
  rcases h' with ⟨hEffects', _, _, _, rfl⟩
  exact ⟨hEffects'.trans hEffects, _, _, _, rfl⟩

theorem aside_eq
    (h : s.Murmurs s') :
    s'.aside = s.aside := by
  rcases h with ⟨-, _, _, _, rfl⟩
  rfl

/- What is no effect may be remembered. -/
theorem withIncident
    (s : Session)
    {i : Incident}
    (h : i.effect? = none) :
    s.Murmurs (s.withIncident i) :=
  ⟨by simp [effects, Session.withIncident, h], _, _, _, rfl⟩

end Session.Murmurs

------------------------------------------------------------
-- Runs
------------------------------------------------------------

namespace Run

variable {α β : Type}

/- Run aside, it only murmurs, however it ends. -/
def Murmurs (act : Run α) : Prop :=
  ∀ s, s.aside = true →
    act.Ensures s fun _ s' => Session.Murmurs s s'

theorem murmurs_pure
    (a : α) :
    Murmurs (pure a : Run α) :=
  fun s _ => ensures_pure.mpr (.refl s)

theorem murmurs_raise
    (e : Value) :
    Murmurs (raise e : Run α) :=
  fun s _ => ensures_raise.mpr (.refl s)

theorem murmurs_get_bind
    {f : Session → Run α}
    (h : ∀ s, Murmurs (f s)) :
    Murmurs (get >>= f) :=
  fun s hAside => ensures_get_bind.mpr (h s s hAside)

theorem Murmurs.bind
    {act : Run α}
    {f : α → Run β}
    (h : Murmurs act)
    (hf : ∀ a, Murmurs (f a)) :
    Murmurs (act >>= f) := by
  intro s hAside
  refine Ensures.bind ((h s hAside).mono fun r s₁ h₁ => ?_)
  cases r with
  | error e => exact h₁
  | ok a =>
      have hAside₁ : s₁.aside = true := h₁.aside_eq.trans hAside
      exact (hf a s₁ hAside₁).mono fun _ _ h₂ => h₁.trans h₂

theorem Murmurs.attempt
    {act : Run α}
    (h : Murmurs act) :
    Murmurs (Run.attempt act) :=
  fun s hAside => ensures_attempt.mpr (h s hAside)

theorem Murmurs.map
    {act : Run α}
    (h : Murmurs act)
    (f : α → β) :
    Murmurs (f <$> act) := by
  rw [map_eq_pure_bind]
  exact h.bind fun _ => murmurs_pure _

theorem Murmurs.quietly
    {act : Run α}
    (h : Murmurs act) :
    Murmurs (Run.quietly act) :=
  (h.map fun _ => PUnit.unit).bind fun _ => murmurs_pure _

/- Put aside anywhere, what murmurs only murmurs. -/
theorem Murmurs.ensures_aside
    {act : Run α}
    (h : Murmurs act)
    (s : Session) :
    (Run.aside act).Ensures s
      fun _ s' => Session.Murmurs s s' := by
  refine Run.ensures_aside.mpr ((h _ rfl).mono ?_)
  rintro _ _ ⟨hEffects, _, _, _, rfl⟩
  exact ⟨hEffects, _, _, _, rfl⟩

/- Aside, an object is numbered as an event is. -/
theorem murmurs_freshStamp :
    Murmurs freshStamp := by
  intro s hAside
  refine ensures_modifyGet.mpr ⟨rfl, s.events + 1, s.log,
    s.chronicle, ?_⟩
  simp [Session.stamped, hAside]

theorem murmurs_chronicle
    {i : Incident}
    (h : i.effect? = none) :
    Murmurs (chronicle i) :=
  fun s _ => ensures_modify.mpr (.withIncident s h)

theorem murmurs_calling :
    Murmurs (modify calling : Run PUnit) := by
  intro s _
  refine ensures_modify.mpr ?_
  cases hHome : s.home with
  | none =>
      rw [calling_of_abroad hHome]
      exact .refl s
  | some t =>
      rw [calling_of_home hHome]
      exact .withIncident s rfl

/- Aside, what is logged is no effect. -/
theorem murmurs_logged
    (d : Datum) :
    Murmurs (logged d) := by
  intro s hAside
  refine ensures_modify.mpr ⟨?_, s.events, s.log.push d,
    s.chronicle, ?_⟩
  · simp [Session.effects, logging, hAside]
  · simp [logging, hAside]

theorem murmurs_newRecord
    (fields : Fields) :
    Murmurs (newRecord fields) :=
  murmurs_freshStamp.bind fun _ => murmurs_pure _

theorem murmurs_typeError :
    Murmurs (typeError : Run α) :=
  (murmurs_freshStamp.bind fun _ => murmurs_pure _).bind
    fun _ => murmurs_raise _

theorem murmurs_text
    (v : Value) :
    Murmurs (text v) :=
  murmurs_get_bind fun _ => murmurs_pure _

theorem murmurs_texts
    (vs : List Value) :
    Murmurs (vs.mapM text) := by
  induction vs with
  | nil => exact murmurs_pure _
  | cons v rest ih =>
      rw [List.mapM_cons]
      exact (murmurs_text v).bind fun _ =>
        ih.bind fun _ => murmurs_pure _

theorem murmurs_field
    (v : Value)
    (key : String) :
    Murmurs (field v key) := by
  unfold field
  split
  · exact murmurs_typeError
  · exact murmurs_get_bind fun _ => murmurs_pure _

theorem murmurs_inspecting
    (v : Value)
    (key : String) :
    Murmurs (inspecting v key) := by
  unfold inspecting
  split
  · split
    · exact murmurs_chronicle rfl
    · exact murmurs_pure _
  · exact murmurs_pure _

theorem murmurs_hasField
    (v : Value)
    (key : String) :
    Murmurs (hasField v key) := by
  unfold hasField
  split
  · exact murmurs_get_bind fun _ => murmurs_pure _
  · exact murmurs_typeError

theorem murmurs_unwrap
    (result : Value) :
    Murmurs (unwrap result) := by
  refine (murmurs_field result "ok").bind fun ok => ?_
  split
  · exact murmurs_field result "value"
  · exact (murmurs_field result "error").bind fun _ =>
      murmurs_raise _

theorem murmurs_newPlain
    (message : Value)
    (cause : Option Value) :
    Murmurs (newPlain message cause) := by
  have hText : Murmurs (messageText message) := by
    unfold messageText
    split
    · exact murmurs_pure _
    · exact murmurs_text message
  exact hText.bind fun _ => murmurs_freshStamp.bind fun _ =>
    murmurs_pure _

end Run

------------------------------------------------------------
-- Under a Veil
------------------------------------------------------------

/- Where listeners are hidden, murmurs are not seen. -/
theorem Veil.Sees.murmured
    {V : Veil}
    {s s' t : Session}
    (h : V.Sees s t)
    (hHidden : V.listeners = true)
    (hMurmurs : s.Murmurs s') :
    V.Sees s' t := by
  rcases hMurmurs with ⟨hEffects, _, _, _, rfl⟩
  exact
    { h with
      events := fun hSeen => by simp [hHidden] at hSeen
      effects := by rw [hEffects]; exact h.effects
      heard := fun hSeen => by simp [hHidden] at hSeen
      log := fun hSeen => by simp [hHidden] at hSeen }

end Resumption

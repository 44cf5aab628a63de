import Resumption.Proofs.Veil

/-
  Runs that match their counterparts under a veil.

  From two sessions of which one is seen as the other, both
  runs end alike and the sessions are seen as they were,
  unless something has come to show through the veil by the
  end.

  Main declarations:
    * `Session.Onward`
    * `Veil.Meets`, `Veil.Matches`
    * `Veil.Matches.bind`, `Veil.Matches.attempt`
-/

namespace Resumption

open Run

------------------------------------------------------------
-- Going On
------------------------------------------------------------

/- No more has happened, and all is where it was. -/
structure Session.Still (s s' : Session) : Prop where
  chronicle : s'.chronicle = s.chronicle
  owed : s'.owed = s.owed
  ambient : s'.ambient = s.ambient
  home : s'.home = s.home

/- Nothing was thrown, and no code of a task called. -/
def Incident.quiet : Incident → Bool
  | .hears _ _ (.error _) => false
  | .runs _ _ => false
  | _ => true

theorem Incident.thrown?_of_quiet
    {i : Incident}
    (h : i.quiet = true) :
    i.thrown? = none := by
  cases i with
  | hears listener args ended =>
      cases ended with
      | ok v => rfl
      | error e => cases h
  | _ => rfl

/- The task that is at home was entered in the ambient context. -/
def Session.Homely (s : Session) : Prop :=
  ∀ t, s.home = some t → .enters t s.ambient ∈ s.chronicle

/-
  Nothing that has happened is forgotten, and what listeners
  throw is put behind all that is to be reported.  The same
  context is ambient and the same task at home as before; the
  code of tasks was called where they had been entered.
-/
structure Session.Onward (s s' : Session) : Prop where
  chronicle : s.chronicle <:+ s'.chronicle
  reports : ∃ es,
    s'.thrown = s.thrown ++ es ∧ s'.owed = s.owed ++ es
  ambient : s'.ambient = s.ambient
  home : s'.home = s.home
  runs : s.Homely → ∀ t a, .runs t a ∈ s'.chronicle →
    .runs t a ∈ s.chronicle ∨ .enters t a ∈ s'.chronicle

namespace Session.Onward

variable {s s₁ s' : Session}

theorem refl
    (s : Session) :
    s.Onward s :=
  ⟨List.suffix_refl _, ⟨[], by simp⟩, rfl, rfl,
    fun _ _ _ h => .inl h⟩

theorem homely
    (h : s.Onward s')
    (hs : s.Homely) :
    s'.Homely := by
  intro t ht
  rw [h.ambient]
  exact h.chronicle.subset (hs t (h.home ▸ ht))

theorem trans
    (h : s.Onward s₁)
    (h' : s₁.Onward s') :
    s.Onward s' := by
  rcases h.reports with ⟨es, hThrown, hOwed⟩
  rcases h'.reports with ⟨es', hThrown', hOwed'⟩
  refine ⟨h.chronicle.trans h'.chronicle,
    ⟨es ++ es', ?_, ?_⟩, h'.ambient.trans h.ambient,
    h'.home.trans h.home, ?_⟩
  · rw [hThrown', hThrown, List.append_assoc]
  · rw [hOwed', hOwed, List.append_assoc]
  · intro hs t a hRuns
    rcases h'.runs (h.homely hs) t a hRuns with hOld | hEnters
    · exact (h.runs hs t a hOld).imp_right
        fun hEnters => h'.chronicle.subset hEnters
    · exact .inr hEnters

/- Nothing has happened, and no report is due. -/
theorem of_still
    (h : s.Still s') :
    s.Onward s' where
  chronicle := by simp [h.chronicle]
  reports := ⟨[], by simp [thrown, h.chronicle],
    by simp [h.owed]⟩
  ambient := h.ambient
  home := h.home
  runs _ t a hRuns := .inl (h.chronicle ▸ hRuns)

/- Something has happened, but no listener has thrown. -/
theorem withIncident
    (s : Session)
    {i : Incident}
    (h : i.quiet = true) :
    s.Onward (s.withIncident i) where
  chronicle := List.suffix_cons i s.chronicle
  reports := ⟨[], by simp [thrown, Session.withIncident,
    Incident.thrown?_of_quiet h],
    by simp [owed, Session.withIncident]⟩
  ambient := rfl
  home := rfl
  runs _ t a hRuns := by
    rcases List.mem_cons.mp hRuns with hNew | hOld
    · rw [← hNew] at h
      cases h
    · exact .inl hOld

/- Code of the task at home is called where it was entered. -/
theorem calling
    (s : Session) :
    s.Onward (calling s) := by
  cases hHome : s.home with
  | none =>
      rw [calling_of_abroad hHome]
      exact .refl s
  | some t =>
      rw [calling_of_home hHome]
      refine ⟨List.suffix_cons _ _, ⟨[], ?_, ?_⟩, rfl, rfl, ?_⟩
      · exact (List.append_nil _).symm
      · exact (List.append_nil _).symm
      · intro hs t' a hRuns
        rcases List.mem_cons.mp hRuns with hNew | hOld
        · cases hNew
          exact .inr (List.mem_cons_of_mem _ (hs t hHome))
        · exact .inl hOld

/- What has come to show will not be hidden again. -/
theorem hidden
    {V : Veil}
    (h : s.Onward s')
    (hs : V.Hidden s') :
    V.Hidden s :=
  fun i hi => hs i (h.chronicle.subset hi)

end Session.Onward

namespace Run

variable {α β : Type}

/- However and wherever a run ends, the session has gone on. -/
def Goes (act : Run α) : Prop :=
  ∀ s, act.Ensures s fun _ s' => Session.Onward s s'

theorem goes_pure
    (a : α) :
    Goes (pure a : Run α) :=
  fun s => ensures_pure.mpr (.refl s)

theorem goes_raise
    (e : Value) :
    Goes (raise e : Run α) :=
  fun s => ensures_raise.mpr (.refl s)

theorem goes_modify
    {g : Session → Session}
    (h : ∀ s, Session.Onward s (g s)) :
    Goes (modify g) :=
  fun s => ensures_modify.mpr (h s)

theorem goes_modifyGet
    {g : Session → α × Session}
    (h : ∀ s, Session.Onward s (g s).2) :
    Goes (modifyGet g : Run α) :=
  fun s => ensures_modifyGet.mpr (h s)

theorem goes_chronicle
    {i : Incident}
    (h : i.quiet = true) :
    Goes (chronicle i) :=
  goes_modify fun s => .withIncident s h

theorem Goes.bind
    {act : Run α}
    {f : α → Run β}
    (h : Goes act)
    (hf : ∀ a, Goes (f a)) :
    Goes (act >>= f) := by
  intro s
  refine Ensures.bind ((h s).mono fun r s₁ h₁ => ?_)
  cases r with
  | ok a => exact (hf a s₁).mono fun _ _ h₂ => h₁.trans h₂
  | error e => exact h₁

theorem goes_get_bind
    {f : Session → Run α}
    (h : ∀ s, Goes (f s)) :
    Goes (get >>= f) :=
  fun s => ensures_get_bind.mpr (h s s)

theorem Goes.attempt
    {act : Run α}
    (h : Goes act) :
    Goes (Run.attempt act) :=
  fun s => ensures_attempt.mpr (h s)

/-
  Elsewhere no task is at home, and what was ambient before is
  ambient again.
-/
theorem Goes.elsewhere
    {act : Run α}
    (h : Goes act)
    (ambient : Value) :
    Goes (Run.elsewhere ambient act) := by
  intro s
  refine ensures_withAmbient.mpr (ensures_abroad.mpr
    ((h _).mono fun _ s' h' => ?_))
  have hIn : s.Onward (s.withIncident (.within ambient)) :=
    .withIncident s rfl
  exact
    { chronicle := hIn.chronicle.trans h'.chronicle
      reports := h'.reports
      ambient := rfl
      home := rfl
      runs := fun _ t a hRuns =>
        (h'.runs nofun t a hRuns).imp_left fun hOld => by
          rcases List.mem_cons.mp hOld with hNew | hOld
          · cases hNew
          · exact hOld }

theorem Goes.withTask
    {act : Run α}
    (h : Goes act)
    (t : Ref) :
    Goes (Run.withTask t act) := by
  intro s
  refine ensures_withTask.mpr ((h _).mono fun _ s' h' => ?_)
  have hIn : s.Onward (s.withIncident (.enters t s.ambient)) :=
    .withIncident s rfl
  have hHomely : (entering t s).Homely := by
    intro t' ht'
    cases ht'
    exact List.mem_cons_self
  exact
    { chronicle := hIn.chronicle.trans h'.chronicle
      reports := h'.reports
      ambient := h'.ambient
      home := rfl
      runs := fun _ t' a hRuns =>
        (h'.runs hHomely t' a hRuns).imp_left fun hOld => by
          rcases List.mem_cons.mp hOld with hNew | hOld
          · cases hNew
          · exact hOld }

theorem Goes.aside
    {act : Run α}
    (h : Goes act) :
    Goes (Run.aside act) := by
  intro s
  refine ensures_aside.mpr ((h _).mono fun _ s' h' => ?_)
  have hIn : s.Onward { s with aside := true } :=
    .of_still ⟨rfl, rfl, rfl, rfl⟩
  exact (hIn.trans h').trans (.of_still ⟨rfl, rfl, rfl, rfl⟩)

/- Rounds are repeated one after the other. -/
theorem iterate_succ
    (n : Nat)
    (round : Run (Option α)) :
    iterate (n + 1) round =
      round >>= fun
        | some a => pure a
        | none => iterate n round := by
  funext s
  simp only [iterate]
  cases hRound : round s with
  | none => exact (bind_of_none hRound).symm
  | some out =>
      rcases out with ⟨e | found, s'⟩
      · exact (bind_of_end hRound).symm
      · rw [bind_of_end hRound]
        cases found <;> rfl

end Run

namespace Veil

variable {V : Veil}
variable {α β γ δ : Type}
variable {R : α → β → Prop}
variable {Q : γ → δ → Prop}
variable {s t : Session}

------------------------------------------------------------
-- Two Runs
------------------------------------------------------------

/- Two runs end alike: with related results, or in one error. -/
inductive Alike (R : α → β → Prop) :
    Except Value α → Except Value β → Prop where
  | ok {a b} (h : R a b) : Alike R (.ok a) (.ok b)
  | error (e : Value) : Alike R (.error e) (.error e)

variable (V) in
/- A run ends, and its session is seen as the other one. -/
def Ends
    (R : α → β → Prop)
    (r : Except Value α)
    (s : Session)
    (act : Run β)
    (t : Session) : Prop :=
  ∃ r' t', act t = some (r', t') ∧ Alike R r r' ∧ V.Sees s t'

variable (V) in
/-
  From a session seen under a veil the counterpart of a run
  ends as the run does, unless something shows by then.
-/
def Meets
    (R : α → β → Prop)
    (act : Run α)
    (act' : Run β)
    (s t : Session) : Prop :=
  act.Ensures s fun r s' => V.Hidden s' → V.Ends R r s' act' t

variable (V) in
/- Wherever they begin, a run and its counterpart match. -/
structure Matches
    (R : α → β → Prop)
    (act : Run α)
    (act' : Run β) : Prop where
  goes : Goes act
  meets : ∀ {s t}, V.Sees s t → V.Meets R act act' s t

------------------------------------------------------------
-- Sequencing
------------------------------------------------------------

section Sequencing

variable {act act₁ : Run α}
variable {act' act₁' : Run β}
variable {f : α → Run γ}
variable {f' : β → Run δ}

theorem Alike.mono
    {R' : α → β → Prop}
    {r : Except Value α}
    {r' : Except Value β}
    (h : Alike R r r')
    (hR : ∀ a b, R a b → R' a b) :
    Alike R' r r' := by
  cases h with
  | ok h => exact .ok (hR _ _ h)
  | error e => exact .error e

/-
  Two sequences meet when their first parts do, and their
  second parts after every pair of results.
-/
theorem Meets.bind
    (h : V.Meets R act act' s t)
    (hf : ∀ a, Goes (f a))
    (hRest : ∀ a b s₁ t₁, R a b → V.Sees s₁ t₁ →
      V.Meets Q (f a) (f' b) s₁ t₁) :
    V.Meets Q (act >>= f) (act' >>= f') s t := by
  refine Ensures.bind fun r s₁ hAct => ?_
  cases r with
  | error e =>
      intro hHidden
      rcases h _ _ hAct hHidden with ⟨_, t₁, hEnd, hAlike, hSees⟩
      cases hAlike
      exact ⟨_, t₁, bind_of_end hEnd, .error e, hSees⟩
  | ok a =>
      intro r s' hRun hHidden
      have hGone := hf a s₁ r s' hRun
      rcases h _ _ hAct (hGone.hidden hHidden) with
        ⟨_, t₁, hEnd, hAlike, hSees⟩
      cases hAlike with
      | ok hR =>
          rcases hRest _ _ _ _ hR hSees r s' hRun hHidden with
            ⟨r', t', hEnd', hAlike', hSees'⟩
          exact ⟨r', t', (bind_of_end hEnd).trans hEnd',
            hAlike', hSees'⟩

namespace Matches

theorem mono
    {R' : α → β → Prop}
    (h : V.Matches R act act')
    (hR : ∀ a b, R a b → R' a b) :
    V.Matches R' act act' where
  goes := h.goes
  meets hSees r s' hAct hHidden := by
    rcases h.meets hSees r s' hAct hHidden with
      ⟨r', t', hEnd, hAlike, hSees'⟩
    exact ⟨r', t', hEnd, hAlike.mono hR, hSees'⟩

/-
  Sequences match when their parts do.  Every result of the
  first part has to have a counterpart.
-/
theorem bindOf
    (h : V.Matches R act act')
    (hTotal : ∀ a, ∃ b, R a b)
    (hf : ∀ a b, R a b → V.Matches Q (f a) (f' b)) :
    V.Matches Q (act >>= f) (act' >>= f') := by
  have hGoes : ∀ a, Goes (f a) := by
    intro a
    rcases hTotal a with ⟨b, hR⟩
    exact (hf a b hR).goes
  exact
    { goes := h.goes.bind hGoes
      meets := fun hSees => (h.meets hSees).bind hGoes
        fun a b _ _ hR hSees' => (hf a b hR).meets hSees' }

/- Most results are the same under every veil. -/
theorem bind
    {act' : Run α}
    {f' : α → Run δ}
    (h : V.Matches Eq act act')
    (hf : ∀ a, V.Matches Q (f a) (f' a)) :
    V.Matches Q (act >>= f) (act' >>= f') := by
  refine h.bindOf (fun a => ⟨a, rfl⟩) ?_
  rintro a _ rfl
  exact hf a

end Matches

end Sequencing

------------------------------------------------------------
-- Primitives
------------------------------------------------------------

theorem matches_pure
    {a : α}
    {b : β}
    (h : R a b) :
    V.Matches R (pure a : Run α) (pure b : Run β) where
  goes := goes_pure a
  meets {_ t} hSees := ensures_pure.mpr fun _ =>
    ⟨_, t, rfl, .ok h, hSees⟩

theorem matches_raise
    (e : Value) :
    V.Matches R (raise e : Run α) (raise e : Run β) where
  goes := goes_raise e
  meets {_ t} hSees := ensures_raise.mpr fun _ =>
    ⟨_, t, rfl, .error e, hSees⟩

/- Both sides choose alike. -/
theorem matches_ite
    {p p' : Prop}
    [Decidable p]
    [Decidable p']
    {yes no : Run α}
    {yes' no' : Run β}
    (h : p ↔ p')
    (hYes : p → V.Matches R yes yes')
    (hNo : ¬ p → V.Matches R no no') :
    V.Matches R (if p then yes else no)
      (if p' then yes' else no') := by
  by_cases hp : p
  · rw [if_pos hp, if_pos (h.mp hp)]
    exact hYes hp
  · rw [if_neg hp, if_neg fun hp' => hp (h.mpr hp')]
    exact hNo hp

/- What has no effect may happen on either side. -/
theorem Sees.withIncident
    {i j : Incident}
    (h : V.Sees s t)
    (hEffect : i.effect? = none)
    (hEffect' : j.effect? = none)
    (hHeard : j.heard? = i.heard?) :
    V.Sees (s.withIncident i) (t.withIncident j) :=
  { h with
    effects := by
      simpa [Session.effects, Session.withIncident, hEffect,
        hEffect'] using h.effects
    heard := fun hSeen => by
      have hSame := h.heard hSeen
      simp only [Session.heard] at hSame
      simp [Session.heard, Session.withIncident,
        List.filterMap_cons, hHeard, hSame] }

theorem Sees.calling
    (h : V.Sees s t) :
    V.Sees (calling s) (calling t) := by
  cases hHome : s.home with
  | none =>
      rw [calling_of_abroad hHome,
        calling_of_abroad (h.home.trans hHome)]
      exact h
  | some task =>
      rw [calling_of_home hHome,
        calling_of_home (h.home.trans hHome)]
      exact h.withIncident rfl rfl rfl

/- What is read of a session is seen of the other one. -/
theorem matches_get_bind
    {f : Session → Run α}
    {f' : Session → Run β}
    (hGo : ∀ s, Goes (f s))
    (h : ∀ s t, V.Sees s t → V.Matches R (f s) (f' t)) :
    V.Matches R (get >>= f) (get >>= f') where
  goes := goes_get_bind hGo
  meets {s t} hSees := ensures_get_bind.mpr
    ((h s t hSees).meets hSees)

theorem matches_read
    {g : Session → α}
    {g' : Session → β}
    (h : ∀ s t, V.Sees s t → R (g s) (g' t)) :
    V.Matches R (do return g (← get)) (do return g' (← get)) :=
  matches_get_bind (fun _ => goes_pure _) fun s t hSees =>
    matches_pure (h s t hSees)

/- A change matches a change that is seen as it. -/
theorem matches_modify
    {g g' : Session → Session}
    (hGo : ∀ s, Session.Onward s (g s))
    (h : ∀ s t, V.Sees s t → V.Sees (g s) (g' t)) :
    V.Matches Eq (modify g : Run PUnit) (modify g') where
  goes := goes_modify hGo
  meets {s t} hSees := ensures_modify.mpr fun _ =>
    ⟨_, g' t, rfl, .ok rfl, h s t hSees⟩

theorem matches_modifyGet
    {g : Session → α × Session}
    {g' : Session → β × Session}
    (hGo : ∀ s, Session.Onward s (g s).2)
    (h : ∀ s t, V.Sees s t →
      R (g s).1 (g' t).1 ∧ V.Sees (g s).2 (g' t).2) :
    V.Matches R (modifyGet g : Run α) (modifyGet g') where
  goes := goes_modifyGet hGo
  meets {s t} hSees := ensures_modifyGet.mpr fun _ =>
    ⟨_, (g' t).2, rfl, .ok (h s t hSees).1, (h s t hSees).2⟩

theorem matches_chronicle
    {i j : Incident}
    (hQuiet : i.quiet = true)
    (hEffect : i.effect? = none)
    (hEffect' : j.effect? = none)
    (hHeard : j.heard? = i.heard?) :
    V.Matches Eq (chronicle i) (chronicle j) :=
  matches_modify (fun s => .withIncident s hQuiet)
    fun _ _ hSees => hSees.withIncident hEffect hEffect' hHeard

/- Neither in whose task client code is called, nor where. -/
theorem matches_calling :
    V.Matches Eq (modify calling : Run PUnit)
      (modify calling) :=
  matches_modify Session.Onward.calling
    fun _ _ => Sees.calling

/- Whatever comes after what shows is of no matter. -/
theorem matches_shown
    {i : Incident}
    {f : PUnit → Run α}
    {act' : Run β}
    (hShows : ¬ V.Hides i)
    (hQuiet : i.quiet = true)
    (hGo : Goes (f ())) :
    V.Matches R (chronicle i >>= f) act' := by
  refine ⟨(goes_chronicle hQuiet).bind fun _ => hGo, ?_⟩
  intro s t _
  refine ensures_modify_bind.mpr fun r s' hRun hHidden => ?_
  have hGone := hGo _ r s' hRun
  exact (hShows (hHidden i
    (hGone.chronicle.subset List.mem_cons_self))).elim

/- What happens is hidden, or the rest is of no matter. -/
theorem matches_chronicle_bind
    {i j : Incident}
    {f : PUnit → Run α}
    {f' : PUnit → Run β}
    (hQuiet : i.quiet = true)
    (hEffect : i.effect? = none)
    (hEffect' : j.effect? = none)
    (hHeard : j.heard? = i.heard?)
    (hGo : Goes (f ()))
    (h : V.Hides i → V.Matches R (f ()) (f' ())) :
    V.Matches R (chronicle i >>= f) (chronicle j >>= f') := by
  by_cases hHides : V.Hides i
  · exact (matches_chronicle hQuiet hEffect hEffect'
      hHeard).bind fun _ => h hHides
  · exact matches_shown hHides hQuiet hGo

------------------------------------------------------------
-- Attempts and Scopes
------------------------------------------------------------

namespace Matches

variable {act : Run α}
variable {act' : Run β}

/- An attempt matches, and its outcome is the same. -/
theorem attempt
    {act' : Run α}
    (h : V.Matches Eq act act') :
    V.Matches Eq (Run.attempt act) (Run.attempt act') where
  goes := h.goes.attempt
  meets {s t} hSees := by
    refine ensures_attempt.mpr fun r s' hAct hHidden => ?_
    rcases h.meets hSees r s' hAct hHidden with
      ⟨r', t', hEnd, hAlike, hSees'⟩
    have hSame : r = r' := by
      cases hAlike with
      | ok h => rw [h]
      | error e => rfl
    subst hSame
    refine ⟨.ok r, t', ?_, .ok rfl, hSees'⟩
    simp [Run.attempt, hEnd]

theorem map
    {act' : Run α}
    {g : α → γ}
    {g' : α → δ}
    (h : V.Matches Eq act act')
    (hg : ∀ a, Q (g a) (g' a)) :
    V.Matches Q (g <$> act) (g' <$> act') := by
  rw [map_eq_pure_bind, map_eq_pure_bind]
  exact h.bind fun a => matches_pure (hg a)

theorem discard
    {act' : Run α}
    (h : V.Matches Eq act act') :
    V.Matches Eq (Functor.discard act)
      (Functor.discard act') :=
  h.map fun _ => rfl

theorem quietly
    {act' : Run α}
    (h : V.Matches Eq act act') :
    V.Matches Eq (Run.quietly act) (Run.quietly act') :=
  h.discard.bind fun _ => matches_pure rfl

/- A context that is made ambient is hidden, or it shows. -/
theorem elsewhere
    (h : V.Matches R act act')
    (ambient : Value) :
    V.Matches R (Run.elsewhere ambient act)
      (Run.elsewhere ambient act') where
  goes := h.goes.elsewhere ambient
  meets {s t} hSees := by
    refine ensures_withAmbient.mpr (ensures_abroad.mpr
      fun r s' hAct hHidden => ?_)
    have hGone := h.goes _ r s' hAct
    have hHides : V.Hides (.within ambient) :=
      hHidden _ (hGone.chronicle.subset List.mem_cons_self)
    have hIn : V.Sees { becoming ambient s with home := none }
        { becoming ambient t with home := none } :=
      { hSees.withIncident (i := .within ambient)
          (j := .within ambient) rfl rfl rfl with
        ambient := rfl
        plain := hHides
        home := rfl }
    rcases h.meets hIn r s' hAct hHidden with
      ⟨r', t', hEnd, hAlike, hSees'⟩
    refine ⟨r', { t' with ambient := t.ambient, home := t.home },
      ?_, hAlike,
      { hSees' with
        ambient := hSees.ambient
        plain := hSees.plain
        home := hSees.home }⟩
    simp only [Run.elsewhere, Run.withAmbient, Run.abroad, hEnd]
    rfl

theorem withTask
    (h : V.Matches R act act')
    (task : Ref) :
    V.Matches R (Run.withTask task act)
      (Run.withTask task act') where
  goes := h.goes.withTask task
  meets {s t} hSees := by
    refine ensures_withTask.mpr fun r s' hAct hHidden => ?_
    have hIn : V.Sees (entering task s) (entering task t) :=
      { hSees.withIncident (i := .enters task s.ambient)
          (j := .enters task t.ambient) rfl rfl rfl with
        task := rfl
        home := rfl }
    rcases h.meets hIn r s' hAct hHidden with
      ⟨r', t', hEnd, hAlike, hSees'⟩
    refine ⟨r', { t' with task := t.task, home := t.home }, ?_,
      hAlike,
      { hSees' with task := hSees.task, home := hSees.home }⟩
    simp [Run.withTask, hEnd]

/- What goes on aside is seen where listeners are. -/
theorem aside
    (h : V.Matches R act act')
    (hSeen : V.listeners = false) :
    V.Matches R (Run.aside act) (Run.aside act') where
  goes := h.goes.aside
  meets {s t} hSees := by
    refine ensures_aside.mpr fun r s' hAct hHidden => ?_
    have hIn : V.Sees { s with aside := true }
        { t with aside := true } :=
      { hSees with
        aside := rfl
        frank := fun hNot => by simp [hSeen] at hNot }
    rcases h.meets hIn r s' hAct hHidden with
      ⟨r', t', hEnd, hAlike, hSees'⟩
    refine ⟨r', { t' with aside := t.aside }, ?_, hAlike,
      { hSees' with
        aside := hSees.aside
        frank := hSees.frank }⟩
    simp [Run.aside, hEnd]

/- Rounds that match are repeated as often. -/
theorem iterate
    {round round' : Run (Option α)}
    (h : V.Matches Eq round round')
    (n : Nat) :
    V.Matches Eq (Run.iterate n round)
      (Run.iterate n round') := by
  induction n with
  | zero =>
      exact ⟨fun _ => ensures_exhaust, fun _ => ensures_exhaust⟩
  | succ n ih =>
      rw [iterate_succ, iterate_succ]
      refine h.bind fun result => ?_
      cases result with
      | some a => exact matches_pure rfl
      | none => exact ih

end Matches

end Veil

end Resumption

import Resumption.Proofs.Network.Team

/-
  What follows when a future settles: whoever waits for it is
  called back, one after another, and may settle a future in
  turn.

  Each turn of a task settles its output or waits again.  So
  the cascade ends: a task that settled is not called again,
  and those who wait are called once for each settlement.

  Main declarations:
    * `Team.Evolves`
    * `Team.Stands.notify`
    * `Team.Stands.settle`
-/

namespace Resumption

open Run

variable {ν ι : Type}
variable {s s₁ s₂ : Session}

------------------------------------------------------------
-- Evolving
------------------------------------------------------------

/-
  A team has come from one session to another: some of its
  tasks have ended as their readings said, and the others
  still wait.  What is no matter to them was left alone.
-/
structure Team.Evolves
    (T T' : Team ι ν)
    (s s' : Session) : Prop where
  course : ∀ i p, T i = some p →
    (∃ p', T' i = some p' ∧ p'.toWorker = p.toWorker) ∨
      T' i = none ∧ p.Ended s'
  origin : ∀ i, T i = none → T' i = none
  retains : Session.Retains Footprint.none s s'
  ambient : s'.ambient = s.ambient
  unposted : s.Unposted s'
  deferreds : s'.deferreds = s.deferreds
  settles : ∀ g, s'.Settled g →
    s.Settled g ∨ ∃ i p, T i = some p ∧ p.output = g
  foreign : ∀ own : Territory,
    (∀ i p, T i = some p → p.setting.own.Apart own) →
      s'.memory own = s.memory own

namespace Team

variable {T T₁ T₂ : Team ι ν}

/- Whoever waits at the end waited from the start. -/
theorem Evolves.from
    {i : ι}
    {q₁ : Waiter ν}
    (h : T.Evolves T₁ s s₁)
    (hq₁ : T₁ i = some q₁) :
    ∃ q, T i = some q ∧ q₁.toWorker = q.toWorker := by
  cases hq : T i with
  | none =>
      rw [h.origin i hq] at hq₁
      cases hq₁
  | some q =>
      rcases h.course i q hq with ⟨q', hq', hSame⟩ | ⟨hNone, _⟩
      · rw [hq₁] at hq'
        cases hq'
        exact ⟨q, rfl, hSame⟩
      · rw [hq₁] at hNone
        cases hNone

theorem Evolves.refl
    (T : Team ι ν)
    (s : Session) :
    T.Evolves T s s where
  course _ p hp := .inl ⟨p, hp, rfl⟩
  origin _ hi := hi
  retains := .refl _ s
  ambient := rfl
  unposted := .refl s
  deferreds := rfl
  settles _ hg := .inl hg
  foreign _ _ := rfl

/- The others leave alone what a task has left behind. -/
theorem Evolves.trans
    (h : T.Evolves T₁ s s₁)
    (h' : T₁.Evolves T₂ s₁ s₂)
    (hApart : ∀ i j p q, T i = some p → T j = some q →
      i ≠ j → p.Clear q) :
    T.Evolves T₂ s s₂ where
  course i p hp := by
    rcases h.course i p hp with ⟨p₁, hp₁, hSame⟩ | ⟨hNone, hEnd⟩
    · rcases h'.course i p₁ hp₁ with
        ⟨p₂, hp₂, hSame'⟩ | ⟨hNone, hEnd⟩
      · exact .inl ⟨p₂, hp₂, hSame'.trans hSame⟩
      · rw [hSame] at hEnd
        exact .inr ⟨hNone, hEnd⟩
    · refine .inr ⟨h'.origin i hNone, ?_, ?_⟩
      · refine (h'.foreign _ fun j q₁ hq₁ => ?_).trans hEnd.memory
        rcases h.from hq₁ with ⟨q, hq, hSame⟩
        rw [hSame]
        refine (hApart j i q p hq hp ?_).own
        rintro rfl
        rw [hNone] at hq₁
        cases hq₁
      · rcases hEnd.settles with ⟨outcome, hSettled, hMatches⟩
        exact ⟨outcome, h'.retains.settledAs _ _ hSettled,
          hMatches.later h'.retains⟩
  origin j hj := h'.origin j (h.origin j hj)
  retains := h.retains.bare_trans h'.retains
  ambient := h'.ambient.trans h.ambient
  unposted := h.unposted.trans h'.unposted
  deferreds := h'.deferreds.trans h.deferreds
  settles g hg := by
    rcases h'.settles g hg with hg | ⟨i, p₁, hp₁, hOutput⟩
    · exact h.settles g hg
    · rcases h.from hp₁ with ⟨p, hp, hSame⟩
      rw [hSame] at hOutput
      exact .inr ⟨i, p, hp, hOutput⟩
  foreign own hOwn := by
    refine (h'.foreign own fun i p₁ hp₁ => ?_).trans
      (h.foreign own hOwn)
    rcases h.from hp₁ with ⟨p, hp, hSame⟩
    rw [hSame]
    exact hOwn i p hp

end Team

------------------------------------------------------------
-- Turns
------------------------------------------------------------

namespace Team.Stands

variable {L : Ledger}
variable {T : Team ι ν}
variable {held : List Closure}
variable {i : ι}
variable {p : Waiter ν}

/- The others rest while a task takes its turn. -/
theorem turn
    (h : Stands L T (p.callback :: held) s)
    (hi : T i = some p)
    (hSettled : s.Settled p.target)
    (hGoes : p.setting.Goes p.foot p.driver s s₁) :
    Stands L (T.drop i) held s₁ := by
  have hClear : ∀ j q, T.drop i j = some q → p.Clear q := by
    intro j q hq
    rcases drop_eq_some.mp hq with ⟨hNe, hq⟩
    exact h.clear i j p q hi hq hNe.symm
  refine (h.drop hi hSettled).goes hGoes ?_ ?_ ?_
  · exact fun j q hq => (hClear j q hq).own
  · exact fun j q hq => (hClear j q hq).symm.foot
  · exact fun j q hq => (hClear j q hq).symm.driver

/- A turn that settles the output of the task. -/
theorem turn_settles
    {outcome : Outcome}
    (h : Stands L T (p.callback :: held) s)
    (hi : T i = some p)
    (hSettled : s.Settled p.target)
    (hGoes : p.setting.Goes p.foot p.driver s s₁)
    (hAgrees : p.setting.Agrees s₁ p.last)
    (hMatches : p.setting.Matches s₁ p.result
      outcome.toExcept) :
    ¬ s₁.Settled p.output ∧
      Stands L (T.drop i) (s₁.watchers p.output ++ held)
        (s₁.settling p.output outcome) ∧
      T.Evolves (T.drop i) s
        (s₁.settling p.output outcome) := by
  have hPromised := h.promised i p hi
  have hPending : ¬ s₁.Settled p.output := by
    rw [hGoes.settled_iff]
    exact (h.holds i p hi).pending
  have hMade : p.output < s₁.futures.size := by
    rw [hGoes.futures]
    exact h.ledger.made _ (by rw [hPromised]; rfl)
  have hRetains := Session.retains_settling Footprint.none
    outcome hMade hPending
  refine ⟨hPending, ?_, ?_⟩
  · refine (h.turn hi hSettled hGoes).settling hPromised
      (Setting.allows_of_matches hMatches) hPending ?_
    intro j q hq
    rcases drop_eq_some.mp hq with ⟨hNe, hq⟩
    exact (h.clear i j p q hi hq hNe.symm).symm.output
  · refine
      { course := fun j q hq => ?_
        origin := fun j hj => ?_
        retains := hGoes.retains.bare_trans hRetains
        ambient := hGoes.ambient
        unposted := hGoes.unposted.trans
          (s₁.unposted_settling p.output outcome)
        deferreds := hGoes.deferreds
        settles := fun g hg => ?_
        foreign := fun own hOwn => hGoes.foreign own (hOwn i p hi) }
    · by_cases hSame : j = i
      · subst hSame
        rw [hi] at hq
        cases hq
        refine .inr ⟨drop_eq_none.mpr (.inl rfl), hAgrees.memory,
          outcome, ?_, hMatches.later hRetains⟩
        rw [Session.settledAs_settling hMade, if_pos rfl]
      · exact .inl ⟨q, drop_eq_some.mpr ⟨hSame, hq⟩, rfl⟩
    · exact drop_eq_none.mpr (.inr hj)
    · rw [Session.settled_settling hMade] at hg
      rcases hg with rfl | hg
      · exact .inr ⟨i, p, hi, rfl⟩
      · rw [hGoes.settled_iff] at hg
        exact .inl hg

/- A turn that ends with the task waiting again. -/
theorem turn_watches
    (p' : Waiter ν)
    (h : Stands L T (p.callback :: held) s)
    (hi : T i = some p)
    (hSettled : s.Settled p.target)
    (hGoes : p.setting.Goes p.foot p.driver s s₁)
    (hSame : p'.toWorker = p.toWorker)
    (hFoot : ∀ c, p'.foot c → s.Has c → p.foot c)
    (hHolds : p'.Holds s₁)
    (hPending : ¬ s₁.Settled p'.target) :
    Stands L ((T.drop i).put i p') held
        (s₁.watching p'.target p'.callback) ∧
      T.Evolves ((T.drop i).put i p') s
        (s₁.watching p'.target p'.callback) := by
  have hStands := h.turn hi hSettled hGoes
  have hCovers : L.Covers p'.setting := by
    rw [hSame]
    exact h.covers i p hi
  have hMade : p'.target < s₁.futures.size := by
    rcases Option.isSome_iff_exists.mp hHolds.fated with
      ⟨fate, hFate⟩
    have hCovered : L p'.target = some fate :=
      hCovers _ _ hFate
    exact hStands.ledger.made _ (by rw [hCovered]; rfl)
  refine ⟨hStands.put (drop_eq_none.mpr (.inl rfl))
    hHolds hCovers ?_ ?_ hPending,
    ?_⟩
  · rw [hSame]
    exact h.promised i p hi
  · intro j q hq
    rcases drop_eq_some.mp hq with ⟨hNe, hq⟩
    have hClear := h.clear i j p q hi hq hNe.symm
    refine ⟨?_, fun c hc hq' => ?_, ?_, ?_⟩
    · rw [hSame]
      exact hClear.own
    · have hOld := (h.holds j q hq).foot c hq'
      exact hClear.foot c (hFoot c hc hOld) hq'
    · rw [hSame]
      exact hClear.driver
    · rw [hSame]
      exact hClear.output
  · refine
      { course := fun j q hq => .inl ?_
        origin := fun j hj => ?_
        retains := hGoes.retains.bare_trans
          (Session.retains_watching Footprint.none _ hMade)
        ambient := hGoes.ambient
        unposted := hGoes.unposted.trans
          (Session.unposted_watching hHolds.calls)
        deferreds := hGoes.deferreds
        settles := fun g hg => ?_
        foreign := fun own hOwn => hGoes.foreign own (hOwn i p hi) }
    · simp only [put_eq_some, drop_eq_some]
      by_cases hHere : j = i
      · subst hHere
        rw [hi] at hq
        cases hq
        exact ⟨p', .inl ⟨rfl, rfl⟩, hSame⟩
      · exact ⟨q, .inr ⟨hHere, hHere, hq⟩, rfl⟩
    · have hNe : j ≠ i := by
        rintro rfl
        rw [hi] at hj
        cases hj
      exact put_eq_none.mpr ⟨hNe, drop_eq_none.mpr (.inr hj)⟩
    · rw [Session.settled_watching hMade, hGoes.settled_iff] at hg
      exact .inl hg

end Team.Stands

------------------------------------------------------------
-- The Cascade
------------------------------------------------------------

/- A pending future settles, and its watchers are told. -/
theorem Future.leads_settle
    {f : Ref}
    {outcome : Outcome}
    {s' : Session}
    (hPending : ¬ s.Settled f)
    (h : Leads (fun c => notify c (s.watchers f) none)
      (s.settling f outcome) (.ok none) s') :
    Leads (fun c => settle c f outcome) s (.ok true) s' := by
  have hRow : Table.futures.row f s =
      some (.ok (s.futures.getD f default), s) := rfl
  refine .step hRow ?_
  have hNone : (s.futures.getD f
      default).settlement.isSome = false :=
    Bool.eq_false_iff.mpr hPending
  simp only [hNone, Bool.false_eq_true, if_false]
  refine .step (a := s.stamp) rfl
    (.step rfl ?_)
  exact h.bind (.pure true)

namespace Team.Stands

variable {L : Ledger}
variable {T : Team ι ν}
variable {ws held : List Closure}
variable {team : List ι}

open Classical in
/-
  Whoever is to be called is called, and so are those for
  whom a future settles meanwhile.
-/
theorem notify
    (hTeam : ∀ i p, T i = some p → i ∈ team)
    (h : Stands L T (ws ++ held) s) :
    ∃ T' s',
      Leads (fun c => Future.notify c ws none) s
        (.ok none) s' ∧
      Stands L T' held s' ∧ T.Evolves T' s s' := by
  -- Each settlement leaves one task less to be called.
  induction hCount : team.length using Nat.strongRecOn
    generalizing T team ws held s with
  | ind n ihTeam =>
      induction ws generalizing T s with
      | nil => exact ⟨T, s, .pure none, h, .refl T s⟩
      | cons w ws ih =>
          rcases (h.held.mem w).mp List.mem_cons_self with
            ⟨i, p, hi, rfl, hSettled⟩
          have hHolds := h.holds i p hi
          have hDrives := hHolds.rest s
            ⟨.refl _ s, rfl, hHolds.agrees.calm⟩ rfl hSettled
          rcases p with ⟨⟨E, d, f, o, R'⟩, F, w, x, R⟩
          cases hDrives with
          | @settles _ _ _ s₁ outcome _ _
              hGoes hAgrees hMatches hEnd =>
              rcases h.turn_settles hi hSettled hGoes hAgrees
                  hMatches with
                ⟨hPending, hStands, hEvolves⟩
              have hMem := hTeam i _ hi
              have hLess : (team.erase i).length < n := by
                have hSome := List.length_pos_of_mem hMem
                rw [List.length_erase_of_mem hMem]
                omega
              have hFewer : ∀ j q, T.drop i j = some q →
                  j ∈ team.erase i := by
                intro j q hq
                rcases drop_eq_some.mp hq with ⟨hNe, hq⟩
                exact (List.mem_erase_of_ne hNe).mpr
                  (hTeam j q hq)
              rcases ihTeam _ hLess hFewer hStands rfl with
                ⟨T₁, s₂, hNotify, hStands₁, hEvolves₁⟩
              have hFewer₁ : ∀ j q, T₁ j = some q →
                  j ∈ team.erase i := by
                intro j q₁ hq₁
                rcases hEvolves₁.from hq₁ with ⟨q, hq, _⟩
                exact hFewer j q hq
              rcases ihTeam _ hLess hFewer₁ hStands₁ rfl with
                ⟨T₂, s₃, hRest, hStands₂, hEvolves₂⟩
              have hCall := hEnd true s₂
                (Future.leads_settle hPending hNotify)
              refine ⟨T₂, s₃, hCall.attempt.bind hRest, hStands₂,
                (hEvolves.trans hEvolves₁ h.clear).trans hEvolves₂
                  h.clear⟩
          | @watches _ G _ _ s₁ w' x' _ R₁ _ hLeads hCalls hGoes
              hAgrees hPending hFated hStuck hFoot hRest =>
              let p' : Waiter ν :=
                ⟨⟨E, d, f, o, R'⟩, G, w', x', R₁⟩
              have hHolds' : p'.Holds s₁ :=
                { agrees := hAgrees
                  pending := by
                    rw [hGoes.settled_iff]
                    exact hHolds.pending
                  driver := Nat.lt_of_lt_of_le hHolds.driver
                    hGoes.grown
                  calls := hCalls
                  fated := hFated
                  stuck := hStuck
                  foot := fun c hc => (hFoot c hc).1
                  rest := hRest }
              rcases turn_watches p' h hi hSettled hGoes rfl
                  (fun c hc => (hFoot c hc).2) hHolds'
                  hPending with
                ⟨hStands, hEvolves⟩
              have hTeam' : ∀ j q,
                  (T.drop i).put i p' j = some q → j ∈ team := by
                intro j q₁ hq₁
                rcases hEvolves.from hq₁ with ⟨q, hq, _⟩
                exact hTeam j q hq
              rcases ih hTeam' hStands with
                ⟨T₁, s₂, hRest', hStands₁, hEvolves₁⟩
              exact ⟨T₁, s₂, hLeads.attempt.bind hRest',
                hStands₁, hEvolves.trans hEvolves₁ h.clear⟩

/- A pending future settles, and the team takes it from there. -/
theorem settle
    {f : Ref}
    {fate : Fate}
    {outcome : Outcome}
    (hTeam : ∀ i p, T i = some p → i ∈ team)
    (h : Stands L T held s)
    (hFate : L f = some fate)
    (hAllows : fate.Allows outcome)
    (hPending : ¬ s.Settled f)
    (hFree : ∀ i p, T i = some p → p.output ≠ f) :
    ∃ T' s',
      Leads (fun c => Future.settle c f outcome) s
        (.ok true) s' ∧
      Stands L T' held s' ∧
      T.Evolves T' (s.settling f outcome) s' := by
  rcases (h.settling hFate hAllows hPending hFree).notify
      hTeam with
    ⟨T', s', hNotify, hStands, hEvolves⟩
  exact ⟨T', s', Future.leads_settle hPending hNotify, hStands,
    hEvolves⟩

end Team.Stands

end Resumption

import Resumption.Proofs.Promises.Dockets

/-
  Whoever comes to the futures and promises that a docket
  keeps, its books remain right.

  Main declarations:
    * `Docket.Sound.spares`
    * `Docket.Sound.enlist`
    * `Docket.Sound.ask`
-/

namespace Resumption

open Session

variable {s s' : Session}
variable {root f g p q d : Ref}
variable {o : Outcome}
variable {r : Reaction}
variable {L : Docket}

namespace Docket

------------------------------------------------------------
-- What Others Do
------------------------------------------------------------

theorem Spares.guards_iff
    (h : L.Spares s s') :
    L.Guards s' p ↔ L.Guards s p := by
  refine or_congr ?_ Iff.rfl
  constructor
  · rintro ⟨f, hf, hPromise⟩
    exact ⟨f, hf, (h.kept f hf).2.1.symm.trans hPromise⟩
  · rintro ⟨f, hf, hPromise⟩
    exact ⟨f, hf, (h.kept f hf).2.1.trans hPromise⟩

theorem Lines.spares
    (h : L.Lines s)
    (hSpares : L.Spares s s') :
    L.Lines s' := by
  rcases hSpares.queued with ⟨js, hQueued, hJs⟩
  have hStems : ∀ p, ∀ j ∈ js, j.stems (L.calls p) = false := by
    intro p j hMem
    refine Job.not_stems fun d hDerived r hr hSame => ?_
    exact (hJs j hMem d hDerived).2 ⟨p, r, hr, hSame⟩
  have hNew : ∀ p (r : Reaction), s.promises.size ≤ r.derived →
      r.among (L.calls p) = false := by
    intro p r hSize
    refine Reaction.not_among fun r' hMem hSame => ?_
    exact Nat.not_lt_of_le hSize (hSame ▸ h.calls p r' hMem)
  refine ⟨fun p hp => ?_, fun p hp o hSome => ?_, fun p r hr => ?_,
    fun p r hr => ?_, fun p hp r hr => ?_, fun j hj d hd => ?_,
    h.apart, fun p hp => ?_⟩
  · rw [hSpares.guards_iff] at hp
    rcases h.line p hp with ⟨hSize, hLine⟩
    rcases hSpares.guarded p hp with ⟨hSame, rs, hReactions, hRs⟩
    refine ⟨Nat.lt_of_lt_of_le hSize hSpares.promises, ?_⟩
    rw [hSame, hReactions, hQueued]
    exact hLine.extend (fun r hr => hNew p r (hRs r hr).1)
      (hStems p)
  · rw [hSpares.guards_iff] at hp
    rw [(hSpares.guarded p hp).1] at hSome
    exact h.plain p hp o hSome
  · exact hSpares.guards_iff.mpr (h.guards p r hr)
  · exact Nat.lt_of_lt_of_le (h.calls p r hr) hSpares.promises
  · rw [hSpares.guards_iff] at hp
    rcases hSpares.guarded p hp with ⟨_, rs, hReactions, hRs⟩
    rw [hReactions] at hr
    rcases List.mem_append.mp hr with hr | hr
    · rcases h.reactions p hp r hr with ⟨hSize, hPlace⟩
      exact ⟨Nat.lt_of_lt_of_le hSize hSpares.promises, hPlace⟩
    · refine ⟨(hRs r hr).2, fun q hAmong => ?_⟩
      rw [hNew q r (hRs r hr).1] at hAmong
      cases hAmong
  · rw [hQueued] at hj
    rcases List.mem_append.mp hj with hj | hj
    · exact Nat.lt_of_lt_of_le (h.jobs j hj d hd) hSpares.promises
    · exact (hJs j hj d hd).1
  · exact h.taken p (mt hSpares.guards_iff.mpr hp)

theorem filter_bridges
    {ws : List Closure}
    (h : ∀ g p, .bridge g p ∉ ws) :
    ws.filter (·.bridges f) = [] := by
  refine List.filter_eq_nil_iff.mpr fun w hMem hBridges => ?_
  cases w with
  | bridge g p => exact h g p hMem
  | _ => cases hBridges

theorem Sources.spares
    (h : L.Sources root s)
    (hSpares : L.Spares s s') :
    L.Sources root s' := by
  refine ⟨fun f hf => ?_, h.root_mem, fun f p hMem => ?_,
    fun f hf g hg p hp hp' => ?_, fun f hf p hp => ?_⟩
  · have hTends := h.tends f hf
    rcases hSpares.kept f hf with
      ⟨hOutcome, hPromise, ws, hWs, hWatchers, hAudience⟩
    have hGuards : ∀ p, s'.promise? f = some p →
        s'.promised? p = s.promised? p := fun p hp =>
      (hSpares.guarded p (.inl ⟨f, hf, hPromise ▸ hp⟩)).1
    refine ⟨Nat.lt_of_lt_of_le hTends.exists_ hSpares.futures,
      fun o ho => ?_, ?_, fun g p hMem => ?_,
      fun p hp hNone => ?_, fun p hp o hSome => ?_⟩
    · rw [hOutcome] at ho
      exact hTends.plain o ho
    · have hNone : ∀ g p, .bridge g p ∉ ws.reverse := by
        intro g p hMem
        exact hWs g p (List.mem_reverse.mp hMem)
      rw [hAudience, hPromise, List.filter_append,
        filter_bridges hNone, List.nil_append]
      exact hTends.audience
    · rw [hWatchers] at hMem
      rcases List.mem_append.mp hMem with hMem | hMem
      · rw [hPromise]
        exact hTends.watchers g p hMem
      · exact (hWs g p hMem).elim
    · rw [hGuards p hp] at hNone
      rw [hPromise] at hp
      rw [hOutcome, hWatchers]
      refine (hTends.pending p hp hNone).imp (fun hWaits => ?_) id
      exact ⟨hWaits.1, List.mem_append_left _ hWaits.2⟩
    · rw [hGuards p hp] at hSome
      rw [hPromise] at hp
      rw [hOutcome]
      exact hTends.settled p hp o hSome
  · rcases h.untold f p hMem with ⟨hf, hPromise, hSettled⟩
    rcases hSpares.kept f hf with ⟨hOutcome, hSame, _⟩
    exact ⟨hf, hSame.trans hPromise, hOutcome ▸ hSettled⟩
  · rw [(hSpares.kept f hf).2.1] at hp
    rw [(hSpares.kept g hg).2.1] at hp'
    exact h.apart f hf g hg p hp hp'
  · rw [(hSpares.kept f hf).2.1] at hp
    rcases h.unowned f hf p hp with ⟨hSize, hOwn⟩
    exact ⟨Nat.lt_of_lt_of_le hSize hSpares.promises, hOwn⟩

/- What others do, a docket need not know. -/
theorem Sound.spares
    (h : L.Sound root s)
    (hSpares : L.Spares s s') :
    L.Sound root s' := by
  refine ⟨h.lines.spares hSpares, h.sources.spares hSpares,
    fun p d hCall o => ?_, fun k hk => ?_, h.distinct⟩
  · rw [(hSpares.guarded d (.inr ⟨p, hCall⟩)).1]
    exact h.echoes p d hCall o
  · have hLinked := h.links k hk
    refine { hLinked with outcome := fun o => ?_ }
    rw [(hSpares.kept k.future hLinked.future.1).1]
    exact hLinked.outcome o

theorem Spares.refl
    (L : Docket)
    (s : Session) :
    L.Spares s s where
  futures := Nat.le_refl _
  promises := Nat.le_refl _
  kept _ _ := ⟨rfl, rfl, [], nofun, (List.append_nil _).symm, rfl⟩
  guarded _ _ := ⟨rfl, [], (List.append_nil _).symm, nofun⟩
  queued := ⟨[], (List.append_nil _).symm, nofun⟩

/- Another future is made. -/
theorem spares_withFuture
    (h : L.Sources root s) :
    L.Spares s (s.withFuture (.fresh none)) :=
  { Spares.refl L s with
    futures := by
      change _ ≤ (s.futures.push _).size
      rw [Array.size_push]
      exact Nat.le_succ _
    kept := fun f hf => by
      have hOld : f ≠ s.futures.size :=
        Nat.ne_of_lt (h.tends f hf).exists_
      have hRow : (s.withFuture (.fresh none)).futures.getD f
          default = s.futures.getD f default := by
        rw [withFuture, getD_push, if_neg hOld]
      simp only [outcome?, promise?, watchers, Session.audience,
        hRow]
      exact ⟨trivial, trivial, [],
        fun _ _ hMem => (List.not_mem_nil hMem).elim,
        (List.append_nil _).symm, rfl⟩ }

------------------------------------------------------------
-- Reactions
------------------------------------------------------------

/- What registering a reaction does to a session. -/
theorem microtasks_enlisting_pending
    (h : s.promised? p = none) :
    (s.enlisting p r).microtasks = s.microtasks := by
  rw [enlisting_of_pending h]

theorem microtasks_enlisting_settled
    (h : s.promised? p = some o) :
    (s.enlisting p r).microtasks =
      s.microtasks ++ [.react r o] := by
  rw [enlisting_of_settled h]

theorem reactions_enlisting_settled
    (h : s.promised? p = some o) :
    (s.enlisting p r).reactions q = s.reactions q := by
  rw [enlisting_of_settled h]
  rfl

theorem calls_called :
    (L.called q r).calls p =
      if p = q then L.calls p ++ [r] else L.calls p :=
  rfl

/- Only a promise derived without handlers is guarded anew. -/
theorem guards_called
    (hFutures : s'.futures = s.futures) :
    (L.called q r).Guards s' p ↔
      L.Guards s p ∨ r = .echo p := by
  have hPromise : ∀ f, s'.promise? f = s.promise? f := by
    intro f
    rw [promise?, promise?, hFutures]
  unfold Guards
  rw [or_assoc]
  refine or_congr ?_ ?_
  · simp only [hPromise]
    exact Iff.rfl
  · simp only [calls_called]
    constructor
    · rintro ⟨q', hMem⟩
      split at hMem
      · rcases List.mem_append.mp hMem with hMem | hMem
        · exact .inl ⟨q', hMem⟩
        · exact .inr (List.mem_singleton.mp hMem).symm
      · exact .inl ⟨q', hMem⟩
    · rintro (⟨q', hMem⟩ | rfl)
      · refine ⟨q', ?_⟩
        split
        · exact List.mem_append_left _ hMem
        · exact hMem
      · refine ⟨q, ?_⟩
        rw [if_pos rfl]
        exact List.mem_append_right _ (List.mem_singleton_self _)

/- A reaction that is derived anew is no earlier one. -/
theorem Lines.fresh
    (h : L.Lines s)
    (hr : r.derived = s.promises.size)
    (p : Ref) :
    ∀ r' ∈ L.calls p, r'.derived ≠ r.derived := by
  intro r' hMem hSame
  exact Nat.ne_of_lt (h.calls p r' hMem) (hSame.trans hr)

/- Nor is it what any job runs that is queued. -/
theorem Lines.fresh_job
    (h : L.Lines s)
    (hr : r.derived = s.promises.size) :
    ∀ j ∈ s.microtasks, j.derived? ≠ some r.derived := by
  intro j hMem hSame
  exact Nat.ne_of_lt (h.jobs j hMem r.derived hSame) hr

/- What nobody reacted to is not in the books. -/
theorem Lines.calls_of_size_le
    (h : L.Lines s)
    (hp : s.promises.size ≤ p) :
    L.calls p = [] ∧ L.taken p = [] := by
  have hNot : ¬ L.Guards s p := by
    exact fun hGuards => Nat.not_lt_of_le hp (h.line p hGuards).1
  refine ⟨List.eq_nil_iff_forall_not_mem.mpr fun r hMem => ?_,
    h.taken p hNot⟩
  exact hNot (h.guards p r hMem)

/- Whatever was derived earlier is not among those who come. -/
theorem among_called
    {r' : Reaction}
    (hOther : r'.derived ≠ r.derived) :
    r'.among ((L.called q r).calls p) = r'.among (L.calls p) := by
  rw [calls_called]
  split
  · rw [Reaction.among_concat, beq_eq_false_iff_ne.mpr
      hOther.symm, Bool.or_false]
  · rfl

/- Whoever was derived last came to the one promise. -/
theorem among_called_self
    (hFresh : ∀ r' ∈ L.calls p, r'.derived ≠ r.derived)
    (h : r.among ((L.called q r).calls p) = true) :
    p = q := by
  by_contra hNot
  rw [calls_called, if_neg hNot, Reaction.not_among hFresh] at h
  cases h

theorem mem_called
    {r' : Reaction}
    (h : r' ∈ (L.called q r).calls p) :
    r' ∈ L.calls p ∨ p = q ∧ r' = r := by
  rw [calls_called] at h
  split at h
  · next hSame =>
      refine (List.mem_append.mp h).imp id fun hMem => ?_
      exact ⟨hSame, List.mem_singleton.mp hMem⟩
  · exact .inl h

theorem mem_called_of_mem
    {r' : Reaction}
    (h : r' ∈ L.calls p) :
    r' ∈ (L.called q r).calls p := by
  rw [calls_called]
  split
  · exact List.mem_append_left _ h
  · exact h

/- What is queued, after somebody has come to a promise. -/
theorem mem_microtasks_enlisting
    {j : Job}
    (h : j ∈ (s.withPromise.enlisting q r).microtasks) :
    j ∈ s.microtasks ∨ ∃ o, j = .react r o := by
  cases hSome : s.withPromise.promised? q with
  | none =>
      rw [microtasks_enlisting_pending hSome] at h
      exact .inl h
  | some o =>
      rw [microtasks_enlisting_settled hSome] at h
      refine (List.mem_append.mp h).imp id fun hMem => ?_
      exact ⟨o, List.mem_singleton.mp hMem⟩

/- What waits, after somebody has come to a promise. -/
theorem mem_reactions_enlisting
    {r' : Reaction}
    (hq : q < s.promises.size)
    (h : r' ∈ (s.withPromise.enlisting q r).reactions p) :
    r' ∈ s.reactions p ∨ p = q ∧ r' = r := by
  cases hSome : s.withPromise.promised? q with
  | none =>
      have hq' : q < s.withPromise.promises.size :=
        size_withPromise ▸ Nat.lt_succ_of_lt hq
      rw [reactions_enlisting hq' hSome] at h
      split at h
      · next hSame =>
          subst hSame
          rw [reactions_withPromise] at h
          refine (List.mem_append.mp h).imp id fun hMem => ?_
          exact ⟨rfl, List.mem_singleton.mp hMem⟩
      · rw [reactions_withPromise] at h
        exact .inl h
  | some o =>
      rw [reactions_enlisting_settled hSome,
        reactions_withPromise] at h
      exact .inl h

/- The line that somebody has come to. -/
theorem Lines.line_enlist
    (h : L.Lines s)
    (hq : L.Guards s q)
    (hr : r.derived = s.promises.size) :
    Line (L.calls q ++ [r]) (L.taken q) (s.promised? q)
      ((s.withPromise.enlisting q r).reactions q)
      (s.withPromise.enlisting q r).microtasks := by
  rcases h.line q hq with ⟨hSize, hLine⟩
  have hSize' : q < s.withPromise.promises.size :=
    size_withPromise ▸ Nat.lt_succ_of_lt hSize
  cases hSome : s.promised? q with
  | none =>
      have hNone : s.withPromise.promised? q = none :=
        promised?_withPromise.trans hSome
      rw [hSome] at hLine
      rw [microtasks_enlisting_pending hNone,
        reactions_enlisting hSize' hNone, if_pos rfl,
        reactions_withPromise]
      refine hLine.enlist_pending (h.fresh hr q)
        (h.fresh_job hr) fun r' hMem hSame => ?_
      exact Nat.ne_of_lt (h.reactions q hq r' hMem).1
        (hSame.trans hr)
  | some o =>
      have hSettled : s.withPromise.promised? q = some o :=
        promised?_withPromise.trans hSome
      rw [hSome] at hLine
      rw [microtasks_enlisting_settled hSettled,
        reactions_enlisting_settled hSettled,
        reactions_withPromise]
      exact hLine.enlist_settled (h.fresh hr q) (h.fresh_job hr)

/- No other line is affected. -/
theorem Lines.line_beside
    (h : L.Lines s)
    (hr : r.derived = s.promises.size)
    (hq : q < s.promises.size)
    (hSame : p ≠ q)
    (hLine : Line (L.calls p) (L.taken p) (s.promised? p)
      (s.reactions p) s.microtasks) :
    Line (L.calls p) (L.taken p) (s.promised? p)
      ((s.withPromise.enlisting q r).reactions p)
      (s.withPromise.enlisting q r).microtasks := by
  have hSize' : q < s.withPromise.promises.size :=
    size_withPromise ▸ Nat.lt_succ_of_lt hq
  cases hSome : s.withPromise.promised? q with
  | none =>
      rw [microtasks_enlisting_pending hSome,
        reactions_enlisting hSize' hSome, if_neg hSame,
        reactions_withPromise]
      exact hLine
  | some o =>
      rw [microtasks_enlisting_settled hSome,
        reactions_enlisting_settled hSome,
        reactions_withPromise]
      have hOther : ∀ j ∈ [Job.react r o],
          j.stems (L.calls p) = false := by
        intro j hMem
        rw [List.mem_singleton.mp hMem]
        exact Reaction.not_among (h.fresh hr p)
      have hExtend := hLine.extend (List.forall_mem_nil _)
        hOther
      rw [List.append_nil] at hExtend
      exact hExtend

theorem Lines.enlist
    (h : L.Lines s)
    (hq : L.Guards s q)
    (hr : r.derived = s.promises.size) :
    (L.called q r).Lines (s.withPromise.enlisting q r) := by
  have hSize : q < s.promises.size := (h.line q hq).1
  have hNext : (s.withPromise.enlisting q r).promises.size =
      s.promises.size + 1 :=
    size_enlisting.trans size_withPromise
  have hGuards : ∀ p, (L.called q r).Guards
      (s.withPromise.enlisting q r) p ↔
        L.Guards s p ∨ r = .echo p := fun p =>
    guards_called futures_enlisting
  have hEcho : ∀ p, r = .echo p → p = s.promises.size := by
    rintro p rfl
    exact hr
  have hOld : ∀ d, d < s.promises.size →
      d < (s.withPromise.enlisting q r).promises.size :=
    fun d hd => hNext ▸ Nat.lt_succ_of_lt hd
  have hSelf : r.derived <
      (s.withPromise.enlisting q r).promises.size := by
    rw [hNext, hr]
    exact Nat.lt_succ_self _
  have hEarlier : ∀ r' : Reaction, r'.derived < s.promises.size →
      r'.derived ≠ r.derived :=
    fun r' hLt hSame => Nat.ne_of_lt hLt (hSame.trans hr)
  refine ⟨fun p hp => ?_, fun p hp o hSome => ?_,
    fun p r' hMem => (hGuards p).mpr ?_, fun p r' hMem => ?_,
    fun p hp r' hMem => ?_, fun j hMem d hDerived => ?_,
    fun p p' r' hMem hAmong => ?_, fun p hp => ?_⟩
  · rw [promised?_enlisting, promised?_withPromise]
    rcases (hGuards p).mp hp with hKept | hp
    · rcases h.line p hKept with ⟨hLt, hLine⟩
      refine ⟨hOld p hLt, ?_⟩
      rw [calls_called]
      by_cases hSame : p = q
      · subst hSame
        rw [if_pos rfl]
        exact h.line_enlist hKept hr
      · rw [if_neg hSame]
        exact h.line_beside hr hSize hSame hLine
    · have hLast := hEcho p hp
      rcases h.calls_of_size_le (Nat.le_of_eq hLast.symm) with
        ⟨hCalls, hTaken⟩
      have hOther : p ≠ q := by
        rintro rfl
        exact Nat.ne_of_lt hSize hLast
      refine ⟨by rw [hNext, hLast]; exact Nat.lt_succ_self _, ?_⟩
      rw [calls_called, if_neg hOther, hCalls]
      change Line [] (L.taken p) _ _ _
      rw [hTaken]
      exact .empty _ _ _
  · rw [promised?_enlisting, promised?_withPromise] at hSome
    rcases (hGuards p).mp hp with hp | hp
    · exact h.plain p hp o hSome
    · rw [promised?_of_size_le (Nat.le_of_eq (hEcho p hp).symm)]
        at hSome
      cases hSome
  · rcases mem_called hMem with hMem | ⟨rfl, _⟩
    · exact .inl (h.guards p r' hMem)
    · exact .inl hq
  · rcases mem_called hMem with hMem | ⟨_, rfl⟩
    · exact hOld _ (h.calls p r' hMem)
    · exact hSelf
  · rcases mem_reactions_enlisting hSize hMem with
      hMem | ⟨rfl, rfl⟩
    · rcases (hGuards p).mp hp with hp | hp
      · rcases h.reactions p hp r' hMem with ⟨hLt, hPlace⟩
        refine ⟨hOld _ hLt, fun q' hAmong => hPlace q' ?_⟩
        rw [among_called (hEarlier r' hLt)] at hAmong
        exact hAmong
      · rw [reactions_of_size_le
          (Nat.le_of_eq (hEcho p hp).symm)] at hMem
        cases hMem
    · exact ⟨hSelf, fun q' => among_called_self (h.fresh hr q')⟩
  · rcases mem_microtasks_enlisting hMem with hMem | ⟨o, rfl⟩
    · exact hOld d (h.jobs j hMem d hDerived)
    · cases hDerived
      exact hSelf
  · rcases mem_called hMem with hMem | ⟨rfl, rfl⟩
    · rw [among_called (hEarlier r' (h.calls p r' hMem))]
        at hAmong
      exact h.apart p p' r' hMem hAmong
    · exact (among_called_self (h.fresh hr p') hAmong).symm
  · exact h.taken p fun hGuards' => hp ((hGuards p).mpr
      (.inl hGuards'))

/- A docket keeps its futures, whoever reacts to what. -/
theorem Sources.enlist
    (h : L.Sources root s)
    (hr : r.derived = s.promises.size) :
    (L.called q r).Sources root (s.withPromise.enlisting q r) := by
  have hFutures : (s.withPromise.enlisting q r).futures =
      s.futures := futures_enlisting
  have hPromised : ∀ p, (s.withPromise.enlisting q r).promised? p =
      s.promised? p := fun p =>
    promised?_enlisting.trans promised?_withPromise
  refine ⟨fun f hf => ?_, h.root_mem, fun f p hMem => ?_,
    fun f hf g hg p hp hp' => ?_, fun f hf p hp => ?_⟩
  · have hTends := h.tends f hf
    refine ⟨?_, ?_, ?_, ?_, fun p => ?_, fun p => ?_⟩
    · rw [hFutures]
      exact hTends.exists_
    · simp only [outcome?, hFutures]
      exact hTends.plain
    · simp only [Session.audience, promise?, hFutures]
      exact hTends.audience
    · simp only [watchers, promise?, hFutures]
      exact hTends.watchers
    · simp only [watchers, outcome?, promise?, hFutures,
        hPromised]
      exact hTends.pending p
    · simp only [outcome?, promise?, hFutures, hPromised]
      exact hTends.settled p
  · simp only [outcome?, promise?, hFutures]
    exact h.untold f p hMem
  · simp only [promise?, hFutures] at hp hp'
    exact h.apart f hf g hg p hp hp'
  · simp only [promise?, hFutures] at hp
    rcases h.unowned f hf p hp with ⟨hSize, hOwn⟩
    refine ⟨?_, ?_⟩
    · rw [size_enlisting, size_withPromise]
      exact Nat.lt_succ_of_lt hSize
    · rintro ⟨q', r', hMem, hSame⟩
      rcases mem_called hMem with hMem | ⟨_, rfl⟩
      · exact hOwn ⟨q', r', hMem, hSame⟩
      · exact Nat.ne_of_lt hSize (hSame.symm.trans hr)

/- Whose job was taken had come before. -/
theorem Lines.mem_of_taken
    (h : L.Lines s)
    (hTaken : (r, o) ∈ L.taken p) :
    L.Guards s p ∧ r ∈ L.calls p ∧ s.promised? p = some o := by
  have hGuards : L.Guards s p := by
    by_contra hNot
    rw [h.taken p hNot] at hTaken
    cases hTaken
  exact ⟨hGuards, (h.line p hGuards).2.of_taken hTaken⟩

/- Somebody reacts to a promise that is guarded. -/
theorem Sound.enlist
    (h : L.Sound root s)
    (hq : L.Guards s q)
    (hr : r.derived = s.promises.size) :
    (L.called q r).Sound root (s.withPromise.enlisting q r) := by
  refine ⟨h.lines.enlist hq hr, h.sources.enlist hr,
    fun p d hCall o => ?_, fun k hk => ?_, h.distinct⟩
  · rw [promised?_enlisting, promised?_withPromise]
    rcases mem_called hCall with hCall | ⟨rfl, rfl⟩
    · exact h.echoes p d hCall o
    · have hNone := promised?_of_size_le (s := s)
        (Nat.le_of_eq hr.symm)
      constructor
      · intro hSome
        cases hNone.symm.trans hSome
      · intro hTaken
        have hMem := (h.lines.mem_of_taken hTaken).2.1
        exact (h.lines.fresh hr p _ hMem rfl).elim
  · have hLinked := h.links k hk
    rcases hLinked.source with ⟨p, hSource⟩
    refine ⟨⟨p, mem_called_of_mem hSource⟩,
      mem_called_of_mem hLinked.called, hLinked.future,
      fun o => ?_, hLinked.born⟩
    simp only [outcome?, futures_enlisting]
    exact hLinked.outcome o

------------------------------------------------------------
-- Being Asked for a Promise
------------------------------------------------------------

section Asking

variable (hf : f < s.futures.size)
include hf

theorem promise?_pledging :
    (s.pledging f p).promise? g =
      if g = f then some p else s.promise? g := by
  simp only [promise?, pledging, futures_modify hf]
  by_cases hSame : g = f <;> simp [hSame]

theorem outcome?_pledging :
    (s.pledging f p).outcome? g = s.outcome? g := by
  simp only [outcome?, pledging, futures_modify hf]
  by_cases hSame : g = f <;> simp [hSame]

theorem watchers_pledging :
    (s.pledging f p).watchers g = s.watchers g := by
  simp only [watchers, pledging, futures_modify hf]
  by_cases hSame : g = f <;> simp [hSame]

theorem audience_pledging :
    (s.pledging f p).audience g = s.audience g := by
  simp only [Session.audience, pledging, futures_modify hf]
  by_cases hSame : g = f <;> simp [hSame]

theorem promise?_watching
    (w : Closure) :
    (s.watching f w).promise? g = s.promise? g := by
  simp only [promise?, watching, futures_modify hf]
  by_cases hSame : g = f <;> simp [hSame]

theorem outcome?_watching
    (w : Closure) :
    (s.watching f w).outcome? g = s.outcome? g := by
  simp only [outcome?, watching, futures_modify hf]
  by_cases hSame : g = f <;> simp [hSame]

theorem audience_watching
    (w : Closure) :
    (s.watching f w).audience g =
      if g = f then w :: s.audience f else s.audience g := by
  simp only [Session.audience, watching, futures_modify hf]
  by_cases hSame : g = f <;> simp [hSame]

end Asking

/-
  A future gets a promise: a new one, with nothing queued or
  waiting for it, which watches the future or has settled as
  it did.
-/
structure Pledges
    (s : Session)
    (f : Ref)
    (s' : Session) : Prop where
  futures : s'.futures.size = s.futures.size
  promises : s'.promises.size = s.promises.size + 1
  promise : ∀ g, s'.promise? g =
    if g = f then some s.promises.size else s.promise? g
  outcome : ∀ g, s'.outcome? g = s.outcome? g
  promised : ∀ p, s'.promised? p =
    if p = s.promises.size then s.outcome? f else s.promised? p
  reactions : ∀ p, s'.reactions p = s.reactions p
  jobs : s'.microtasks = s.microtasks
  beside : ∀ g, g ≠ f → s'.watchers g = s.watchers g ∧
    s'.audience g = s.audience g
  settled : (s.outcome? f).isSome →
    s'.watchers f = s.watchers f ∧ s'.audience f = s.audience f
  pending : s.outcome? f = none →
    s'.watchers f =
      s.watchers f ++ [.bridge f s.promises.size] ∧
    s'.audience f = .bridge f s.promises.size :: s.audience f

/- A future that is asked for the first time is given one. -/
theorem pledges_asked
    (hf : f < s.futures.size)
    (hPromise : s.promise? f = none) :
    Pledges s f (Future.asked s f) := by
  unfold Future.asked
  rw [hPromise]
  cases hOutcome : s.outcome? f with
  | none =>
      have hf' : f < (s.withPromise.watching f
          (.bridge f s.promises.size)).futures.size := by
        rw [size_watching]
        exact hf
      have hMade : f < s.withPromise.futures.size := hf
      exact {
        futures := Array.size_modify.trans (size_watching ..)
        promises := size_withPromise
        promise := fun g => by
          rw [promise?_pledging hf', promise?_watching hMade]
          rfl
        outcome := fun g => by
          rw [outcome?_pledging hf', outcome?_watching hMade]
          rfl
        promised := fun p => by
          change s.withPromise.promised? p = _
          rw [promised?_withPromise]
          split
          · next hSame =>
              exact (promised?_of_size_le
                (Nat.le_of_eq hSame.symm)).trans hOutcome.symm
          · rfl
        reactions := fun p => reactions_withPromise
        jobs := rfl
        beside := fun g hSame => by
          rw [watchers_pledging hf', audience_pledging hf',
            watchers_watching hMade, audience_watching hMade,
            if_neg hSame, if_neg hSame]
          exact ⟨rfl, rfl⟩
        settled := by
          rw [hOutcome]
          intro hNone
          cases hNone
        pending := fun _ => by
          rw [watchers_pledging hf', audience_pledging hf',
            watchers_watching hMade, audience_watching hMade,
            if_pos rfl, if_pos rfl]
          exact ⟨rfl, rfl⟩ }
  | some o =>
      have hNew : s.withPromise.promised? s.promises.size =
          none :=
        promised?_withPromise.trans
          (promised?_of_size_le (Nat.le_refl _))
      have hNobody : s.withPromise.reactions s.promises.size =
          [] :=
        reactions_withPromise.trans
          (reactions_of_size_le (Nat.le_refl _))
      have hLast : s.promises.size <
          s.withPromise.promises.size := by
        rw [size_withPromise]
        exact Nat.lt_succ_self _
      have hFutures : (s.withPromise.resolving s.promises.size
          o).futures = s.futures := futures_resolving
      have hf' : f < (s.withPromise.resolving s.promises.size
          o).futures.size := by
        rw [hFutures]
        exact hf
      exact {
        futures := Array.size_modify.trans
          (congrArg Array.size hFutures)
        promises := size_resolving.trans size_withPromise
        promise := fun g => by
          rw [promise?_pledging hf', promise?, hFutures]
          rfl
        outcome := fun g => by
          rw [outcome?_pledging hf', outcome?, hFutures]
          rfl
        promised := fun p => by
          change (s.withPromise.resolving s.promises.size
            o).promised? p = _
          rw [promised?_resolving hLast, hNew, hOutcome,
            promised?_withPromise]
          rfl
        reactions := fun p => by
          change (s.withPromise.resolving s.promises.size
            o).reactions p = _
          by_cases hSame : p = s.promises.size
          · subst hSame
            rw [reactions_resolving_self hLast hNew,
              reactions_of_size_le (Nat.le_refl _)]
          · exact (reactions_resolving hSame).trans
              reactions_withPromise
        jobs := by
          change (s.withPromise.resolving s.promises.size
            o).microtasks = _
          rw [microtasks_resolving hNew, hNobody]
          exact List.append_nil _
        beside := fun g _ => by
          rw [watchers_pledging hf', audience_pledging hf',
            watchers, Session.audience, hFutures]
          exact ⟨rfl, rfl⟩
        settled := fun _ => by
          rw [watchers_pledging hf', audience_pledging hf',
            watchers, Session.audience, hFutures]
          exact ⟨rfl, rfl⟩
        pending := by
          rw [hOutcome]
          intro hNone
          cases hNone }

section Pledging

variable (hf : f ∈ L.futures)
variable (hNone : s.promise? f = none)
variable (hPledges : Pledges s f s')
include hf hNone hPledges

/- The new promise is guarded too. -/
theorem guards_pledges :
    L.Guards s' p ↔ L.Guards s p ∨ p = s.promises.size := by
  constructor
  · rintro (⟨g, hg, hPromise⟩ | hEcho)
    · rw [hPledges.promise g] at hPromise
      split at hPromise
      · exact .inr (Option.some.inj hPromise).symm
      · exact .inl (.inl ⟨g, hg, hPromise⟩)
    · exact .inl (.inr hEcho)
  · rintro ((⟨g, hg, hPromise⟩ | hEcho) | rfl)
    · refine .inl ⟨g, hg, ?_⟩
      rw [hPledges.promise g, if_neg]
      · exact hPromise
      · rintro rfl
        cases hNone.symm.trans hPromise
    · exact .inr hEcho
    · exact .inl ⟨f, hf, (hPledges.promise f).trans (if_pos rfl)⟩

theorem Lines.pledges
    (h : L.Lines s)
    (hPlain : ∀ o, s.outcome? f = some o → o.Plain) :
    L.Lines s' := by
  have hOld : ∀ p, L.Guards s p → p ≠ s.promises.size :=
    fun p hp => Nat.ne_of_lt (h.line p hp).1
  have hLt : ∀ d, d < s.promises.size → d < s'.promises.size :=
    fun d hd => hPledges.promises ▸ Nat.lt_succ_of_lt hd
  have hGuards : ∀ p, L.Guards s' p ↔
      L.Guards s p ∨ p = s.promises.size :=
    fun p => guards_pledges hf hNone hPledges
  refine ⟨fun p hp => ?_, fun p hp o hSome => ?_,
    fun p r hMem => (hGuards p).mpr (.inl (h.guards p r hMem)),
    fun p r hMem => hLt _ (h.calls p r hMem),
    fun p hp r hMem => ?_, fun j hMem d hDerived => ?_,
    h.apart, fun p hp => ?_⟩
  · rcases (hGuards p).mp hp with hp | rfl
    · rcases h.line p hp with ⟨hSize, hLine⟩
      refine ⟨hLt p hSize, ?_⟩
      rw [hPledges.promised p, if_neg (hOld p hp),
        hPledges.reactions p, hPledges.jobs]
      exact hLine
    · rcases h.calls_of_size_le (Nat.le_refl _) with
        ⟨hCalls, hTaken⟩
      refine ⟨hPledges.promises ▸ Nat.lt_succ_self _, ?_⟩
      rw [hCalls, hTaken]
      exact .empty _ _ _
  · rw [hPledges.promised p] at hSome
    split at hSome
    · exact hPlain o hSome
    · next hSame =>
        exact h.plain p (((hGuards p).mp hp).resolve_right hSame)
          o hSome
  · rcases (hGuards p).mp hp with hp | rfl
    · rw [hPledges.reactions p] at hMem
      rcases h.reactions p hp r hMem with ⟨hSize, hPlace⟩
      exact ⟨hLt _ hSize, hPlace⟩
    · rw [hPledges.reactions, reactions_of_size_le
        (Nat.le_refl _)] at hMem
      cases hMem
  · rw [hPledges.jobs] at hMem
    exact hLt d (h.jobs j hMem d hDerived)
  · exact h.taken p fun hGuarded =>
      hp ((hGuards p).mpr (.inl hGuarded))

omit hf in
/- The future waits to settle its promise, or has done so. -/
theorem Tends.pledges
    (h : L.Tends s f) :
    L.Tends s' f := by
  have hPromise : s'.promise? f = some s.promises.size :=
    (hPledges.promise f).trans (if_pos rfl)
  have hPromised : s'.promised? s.promises.size = s.outcome? f :=
    (hPledges.promised _).trans (if_pos rfl)
  have hNobody : ∀ g p, .bridge g p ∉ s.watchers f := by
    intro g p hMem
    cases hNone.symm.trans (h.watchers g p hMem).2
  have hAlone : (s.audience f).filter (·.bridges f) = [] := by
    have hLength := h.audience
    rw [hNone] at hLength
    exact List.length_eq_zero_iff.mp (Nat.le_zero.mp hLength)
  have hExists : f < s'.futures.size :=
    hPledges.futures ▸ h.exists_
  have hPlain : ∀ o, s'.outcome? f = some o → o.Plain := by
    rw [hPledges.outcome f]
    exact h.plain
  have hSettled : ∀ p, s'.promise? f = some p →
      ∀ o, s'.promised? p = some o → s'.outcome? f = some o := by
    intro p hp o hSome
    cases hPromise.symm.trans hp
    rw [hPledges.outcome f, ← hPromised]
    exact hSome
  cases hOutcome : s.outcome? f with
  | none =>
      rcases hPledges.pending hOutcome with ⟨hWatchers, hAudience⟩
      refine ⟨hExists, hPlain, ?_, fun g p hMem => ?_,
        fun p hp _ => .inl ⟨?_, ?_⟩, hSettled⟩
      · have hBridge : (Closure.bridge f s.promises.size).bridges f =
            true := beq_self_eq_true f
        rw [hAudience, hPromise, List.filter_cons_of_pos hBridge,
          hAlone]
        exact Nat.le_refl _
      · rw [hWatchers] at hMem
        rcases List.mem_append.mp hMem with hMem | hMem
        · exact (hNobody g p hMem).elim
        · cases List.mem_singleton.mp hMem
          exact ⟨rfl, hPromise⟩
      · rw [hPledges.outcome f, hOutcome]
      · cases hPromise.symm.trans hp
        rw [hWatchers]
        exact List.mem_append_right _ (List.mem_singleton_self _)
  | some o =>
      rcases hPledges.settled (by rw [hOutcome]; rfl) with
        ⟨hWatchers, hAudience⟩
      refine ⟨hExists, hPlain, ?_, fun g p hMem => ?_,
        fun p hp hPending => ?_, hSettled⟩
      · rw [hAudience, hAlone]
        exact Nat.zero_le _
      · rw [hWatchers] at hMem
        exact (hNobody g p hMem).elim
      · cases hPromise.symm.trans hp
        rw [hPromised, hOutcome] at hPending
        cases hPending

omit hf hNone in
/- Other futures do not notice. -/
theorem Tends.beside_pledges
    (h : L.Tends s g)
    (hSame : g ≠ f)
    (hSize : ∀ p, s.promise? g = some p →
      p < s.promises.size) :
    L.Tends s' g := by
  rcases hPledges.beside g hSame with ⟨hWatchers, hAudience⟩
  have hPromise : s'.promise? g = s.promise? g :=
    (hPledges.promise g).trans (if_neg hSame)
  have hPromised : ∀ p, s.promise? g = some p →
      s'.promised? p = s.promised? p := fun p hp =>
    (hPledges.promised p).trans
      (if_neg (Nat.ne_of_lt (hSize p hp)))
  refine ⟨hPledges.futures ▸ h.exists_, ?_, ?_, ?_,
    fun p hp hNone => ?_, fun p hp o hSome => ?_⟩
  · rw [hPledges.outcome g]
    exact h.plain
  · rw [hAudience, hPromise]
    exact h.audience
  · rw [hWatchers, hPromise]
    exact h.watchers
  · rw [hPromise] at hp
    rw [hPromised p hp] at hNone
    rw [hPledges.outcome g, hWatchers]
    exact h.pending p hp hNone
  · rw [hPromise] at hp
    rw [hPromised p hp] at hSome
    rw [hPledges.outcome g]
    exact h.settled p hp o hSome

theorem Sources.pledges
    (h : L.Sources root s)
    (hLines : L.Lines s) :
    L.Sources root s' := by
  have hOther : ∀ g p, s.promise? g = some p → g ≠ f := by
    rintro g p hp rfl
    cases hNone.symm.trans hp
  have hPromise : ∀ g, g ≠ f → s'.promise? g = s.promise? g :=
    fun g hSame => (hPledges.promise g).trans (if_neg hSame)
  have hSelf : s'.promise? f = some s.promises.size :=
    (hPledges.promise f).trans (if_pos rfl)
  have hNotLast : ∀ g ∈ L.futures, g ≠ f →
      s'.promise? g ≠ some s.promises.size := by
    intro g hg hSame hp
    rw [hPromise g hSame] at hp
    exact Nat.lt_irrefl _ (h.unowned g hg _ hp).1
  refine ⟨fun g hg => ?_, h.root_mem, fun g p hMem => ?_,
    fun g hg g' hg' p hp hp' => ?_, fun g hg p hp => ?_⟩
  · by_cases hSame : g = f
    · subst hSame
      exact (h.tends g hg).pledges hNone hPledges
    · exact (h.tends g hg).beside_pledges hPledges hSame
        fun p hp => (h.unowned g hg p hp).1
  · rcases h.untold g p hMem with ⟨hg, hp, hSettled⟩
    rw [hPromise g (hOther g p hp), hPledges.outcome g]
    exact ⟨hg, hp, hSettled⟩
  · by_cases hSame : g = f
    · subst hSame
      cases hSelf.symm.trans hp
      by_contra hNot
      exact hNotLast g' hg' (Ne.symm hNot) hp'
    · by_cases hSame' : g' = f
      · subst hSame'
        cases hSelf.symm.trans hp'
        exact (hNotLast g hg hSame hp).elim
      · rw [hPromise g hSame] at hp
        rw [hPromise g' hSame'] at hp'
        exact h.apart g hg g' hg' p hp hp'
  · by_cases hSame : g = f
    · subst hSame
      cases hSelf.symm.trans hp
      refine ⟨hPledges.promises ▸ Nat.lt_succ_self _, ?_⟩
      rintro ⟨q, r, hMem, hDerived⟩
      exact Nat.ne_of_lt (hLines.calls q r hMem) hDerived
    · rw [hPromise g hSame] at hp
      rcases h.unowned g hg p hp with ⟨hSize, hOwn⟩
      exact ⟨hPledges.promises ▸ Nat.lt_succ_of_lt hSize, hOwn⟩

end Pledging

/- A future that is asked has a promise, and it is guarded. -/
theorem Sound.ask
    (h : L.Sound root s)
    (hf : f ∈ L.futures) :
    L.Sound root (Future.asked s f) ∧
      L.Guards (Future.asked s f)
        ((s.promise? f).getD s.promises.size) ∧
      (Future.asked s f).promise? f =
        some ((s.promise? f).getD s.promises.size) := by
  have hTends := h.sources.tends f hf
  cases hPromise : s.promise? f with
  | some p =>
      have hSame : Future.asked s f = s := by
        rw [Future.asked, hPromise]
      rw [hSame]
      exact ⟨h, .inl ⟨f, hf, hPromise⟩, hPromise⟩
  | none =>
      have hPledges := pledges_asked hTends.exists_ hPromise
      have hMade : (Future.asked s f).promise? f =
          some s.promises.size :=
        (hPledges.promise f).trans (if_pos rfl)
      refine ⟨⟨h.lines.pledges hf hPromise hPledges hTends.plain,
        h.sources.pledges hf hPromise hPledges h.lines,
        fun p d hCall o => ?_, fun k hk => ?_, h.distinct⟩,
        .inl ⟨f, hf, hMade⟩, hMade⟩
      · have hSize : d ≠ s.promises.size :=
          Nat.ne_of_lt (h.lines.calls p _ hCall)
        rw [hPledges.promised d, if_neg hSize]
        exact h.echoes p d hCall o
      · have hLinked := h.links k hk
        refine { hLinked with outcome := fun o => ?_ }
        rw [hPledges.outcome]
        exact hLinked.outcome o

end Docket

end Resumption

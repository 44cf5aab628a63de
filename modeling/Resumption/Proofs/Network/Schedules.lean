import Resumption.Proofs.Network.Joining

/-
  Whatever the schedule, the tasks of a network come to what
  was foretold, as far as the sources that were settled let
  them.

  Main declarations:
    * `Network.Keeps.settled`, `Network.Keeps.answers`
    * `Network.Keeps.step`, `Network.Keeps.plays`
    * `Network.plays`
-/

namespace Resumption

variable {ν : Type}

namespace Network

variable {N : Network ν}
variable {φ : ν → Fate}
variable {o : ν → Except (Stop ν) Value}
variable {R : ν → Reading ν}
variable {done : List ν}
variable {s₀ : Session}
variable {S : State ν}
variable {L : Ledger}
variable {T : Team ν ν}

namespace Keeps

------------------------------------------------------------
-- Where All Comes to Rest
------------------------------------------------------------

/- A task that waits does so for a future that never settles. -/
theorem stuck_of_waits
    {t : ν}
    {p : Waiter ν}
    (h : N.Keeps φ o R s₀ done S L T)
    (hp : T t = some p)
    (hTarget : ∀ fate, L p.target = some fate →
      fate ≠ .never → S.session.Settled p.target) :
    p.result = .error (.stuck p.source) ∧
      p.last = p.reading.awaiting p.source := by
  have hHolds := h.stands.holds t p hp
  rcases Option.isSome_iff_exists.mp hHolds.fated with
    ⟨fate, hFate⟩
  have hEntry : L p.target = some fate :=
    h.stands.covers t p hp _ _ hFate
  by_cases hNever : fate = .never
  · subst hNever
    exact hHolds.stuck hFate
  · have hCalled := (h.stands.held.mem p.callback).mpr
      ⟨t, p, hp, rfl, hTarget fate hEntry hNever⟩
    cases hCalled

/-
  Every future settles that was foretold to, if no source was
  left out that was.
-/
theorem settled
    (h : N.Keeps φ o R s₀ done S L T)
    (hLast : ∀ x, N.member x = none → x ∉ done → φ x = .never)
    (r : Ref) :
    ∀ fate, L r = some fate → fate ≠ .never →
      S.session.Settled r := by
  -- Whoever waits, waits for an older future.
  induction r using Nat.strongRecOn with
  | ind r ih =>
      intro fate hr hFate
      rcases h.known r (by rw [hr]; rfl) with
        hSettled | ⟨t, p, hp, rfl⟩ | ⟨x, hx, hDone, hPlace⟩
      · exact hSettled
      · have hOlder := h.older t p p.source hp
          (h.stands.holds t p hp).fated
        have hStuck :=
          (h.stuck_of_waits hp (ih p.target hOlder)).1
        rw [h.stands.promised t p hp, hStuck] at hr
        cases hr
        exact (hFate rfl).elim
      · rw [h.placed x r hPlace, hLast x hx hDone] at hr
        cases hr
        exact (hFate rfl).elim

/- In the end each task has come to what was foretold. -/
theorem answers
    {t : ν}
    {m : Member ν}
    (h : N.Keeps φ o R s₀ done S L T)
    (hLast : ∀ x, N.member x = none → x ∉ done → φ x = .never)
    (hMember : N.member t = some m)
    (hDone : t ∈ done) :
    ∃ f, S.place t = some f ∧
      S.session.memory m.own = (R t).memory ∧
      S.session.Answers (S.view m) f (o t) := by
  rcases h.busy t m hMember hDone with ⟨W, hEmploys, hState⟩
  have hOwn : W.setting.own = m.own :=
    congrArg Outlook.own hEmploys.outlook
  refine ⟨W.output, hEmploys.place, ?_⟩
  rw [← hEmploys.last, ← hEmploys.result, ← hEmploys.view,
    ← hOwn]
  rcases hState with ⟨p, hp, rfl⟩ | ⟨_, hRested⟩
  · have hHolds := h.stands.holds t p hp
    rcases h.stuck_of_waits hp (h.settled hLast p.target) with
      ⟨hResult, hReading⟩
    rw [hResult, hReading]
    exact ⟨hHolds.agrees.memory, hHolds.pending⟩
  · refine ⟨hRested.memory, ?_⟩
    rcases hRested.settles with
      ⟨outcome, hSettled, hMatches⟩ | ⟨x, fate, hFate, hLent, hSame⟩
    · exact hMatches.answers hSettled
    · have hEntry : L W.output = some fate := by
        have hx : (N.outlook φ m).fates x = some fate := by
          rw [← hEmploys.outlook]
          exact hFate
        have hx' : (if m.inputs x then some (φ x) else none) =
            some fate := hx
        split at hx'
        · rename_i hInput
          cases hx'
          rcases Option.isSome_iff_exists.mp
              (hEmploys.given x hInput) with
            ⟨r, hr⟩
          rw [hLent, hEmploys.view, State.view, if_pos hInput, hr]
          exact h.placed x r hr
        · cases hx'
      rw [hSame]
      by_cases hNever : fate = .never
      · subst hNever
        intro hs
        rcases Session.settled_iff.mp hs with ⟨outcome, hs⟩
        exact h.stands.ledger.kept _ _ outcome hEntry hs
      · have hs := h.settled hLast _ fate hEntry hNever
        rcases Session.settled_iff.mp hs with ⟨outcome, hs⟩
        have hAllows :=
          h.stands.ledger.kept _ _ outcome hEntry hs
        refine Setting.Matches.answers
          (Setting.matches_result hAllows ?_) hs
        rw [← hLent]
        exact hs

/- Whatever is at hand when a member is started was placed. -/
theorem given
    {x : ν}
    (h : N.Keeps φ o R s₀ done S L T)
    (hx : N.member x = none ∨ x ∈ done) :
    (S.place x).isSome = true := by
  cases hMember : N.member x with
  | none =>
      rcases h.source x hMember with ⟨r, hOffers⟩
      rw [hOffers.place]
      rfl
  | some m =>
      rw [hMember] at hx
      rcases h.busy x m hMember (hx.resolve_left nofun) with
        ⟨W, hEmploys, _⟩
      rw [hEmploys.place]
      rfl

/- Whatever a schedule begins with keeps all as was foretold. -/
theorem step
    {act : Act ν}
    {acts : List (Act ν)}
    (h : N.Keeps φ o R s₀ done S L T)
    (hSeparate : N.Separate)
    (hForetold : N.Foretold φ s₀ o R)
    (hReady : N.Ready done (act :: acts))
    (hFates : ∀ x outcome, .settle x outcome = act →
      φ x = .known outcome) :
    N.Ready (act.name :: done) acts ∧
      ∃ S' L' T', N.Step act S S' ∧
        N.Keeps φ o R s₀ (act.name :: done) S' L' T' := by
  cases act with
  | start t =>
      rcases hReady with ⟨hNew, ⟨m, hMember, hGiven⟩, hRest⟩
      exact ⟨hRest, h.start hSeparate hForetold hMember hNew
        fun x hx => h.given (hGiven x hx)⟩
  | settle x outcome =>
      rcases hReady with ⟨hNew, hSource, hRest⟩
      rcases h.settle hSeparate hSource hNew
          (hFates x outcome rfl) with
        ⟨S', T', hStep, hKeeps⟩
      exact ⟨hRest, S', L, T', hStep, hKeeps⟩

/- A schedule keeps all as was foretold. -/
theorem plays
    {acts : List (Act ν)}
    (h : N.Keeps φ o R s₀ done S L T)
    (hSeparate : N.Separate)
    (hForetold : N.Foretold φ s₀ o R)
    (hReady : N.Ready done acts)
    (hFates : ∀ x outcome, .settle x outcome ∈ acts →
      φ x = .known outcome) :
    ∃ S' L' T', N.Plays acts S S' ∧
      N.Keeps φ o R s₀ ((acts.map Act.name).reverse ++ done)
        S' L' T' := by
  induction acts generalizing done S L T with
  | nil => exact ⟨S, L, T, .nil, h⟩
  | cons act acts ih =>
      rw [List.map_cons, List.reverse_cons, List.append_assoc]
      rcases h.step hSeparate hForetold hReady (by
          rintro x outcome rfl
          exact hFates x outcome List.mem_cons_self) with
        ⟨hRest, S₁, L₁, T₁, hStep, hKeeps⟩
      rcases ih hKeeps hRest fun x outcome hx =>
          hFates x outcome (List.mem_cons_of_mem act hx) with
        ⟨S₂, L₂, T₂, hPlays, hKeeps₂⟩
      exact ⟨S₂, L₂, T₂, .cons hStep hPlays, hKeeps₂⟩

/- After a schedule each task has come to what was foretold. -/
theorem answered
    {acts : List (Act ν)}
    (h : N.Keeps φ o R s₀ (acts.map Act.name).reverse S L T)
    (hSources : N.Sources φ acts) :
    ∀ t m, N.member t = some m → .start t ∈ acts →
      ∃ f, S.place t = some f ∧
        S.session.memory m.own = (R t).memory ∧
        S.session.Answers (S.view m) f (o t) := by
  intro t m hMember hStart
  refine h.answers (fun x hx hDone => ?_) hMember ?_
  · refine hSources.pending x hx fun outcome hSettle => hDone ?_
    exact List.mem_reverse.mpr
      (List.mem_map.mpr ⟨_, hSettle, rfl⟩)
  · exact List.mem_reverse.mpr
      (List.mem_map.mpr ⟨_, hStart, rfl⟩)

end Keeps

/-
  Whatever the schedule, each task that was started comes to
  what was foretold, as far as the sources that were settled
  let it.
-/
theorem plays
    {acts : List (Act ν)}
    (hOpens : N.Opens S)
    (hSeparate : N.Separate)
    (hForetold : N.Foretold φ S.session o R)
    (hReady : N.Ready [] acts)
    (hSources : N.Sources φ acts) :
    ∃ S', N.Plays acts S S' ∧
      ∀ t m, N.member t = some m → .start t ∈ acts →
        ∃ f, S'.place t = some f ∧
          S'.session.memory m.own = (R t).memory ∧
          S'.session.Answers (S'.view m) f (o t) := by
  rcases hOpens.keeps (φ := φ) o R with ⟨L, hKeeps⟩
  rcases hKeeps.plays hSeparate hForetold hReady
      hSources.settled with
    ⟨S', L', T', hPlays, hKeeps'⟩
  rw [List.append_nil] at hKeeps'
  exact ⟨S', hPlays, hKeeps'.answered hSources⟩

end Network

end Resumption

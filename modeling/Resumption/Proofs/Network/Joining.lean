import Resumption.Proofs.Network.Keeping

/-
  Starting a member of a network: it ends at once, or hands
  off to a future that it was given, or joins those who wait.
  Either way all is kept as was foretold.

  Main declarations:
    * `Network.Keeps.Joins`
    * `Network.Keeps.join`
    * `Network.Keeps.start`
-/

namespace Resumption

open Run
open Direct (Stepped landed)

variable {ν : Type}

namespace Network

variable {N : Network ν}
variable {φ : ν → Fate}
variable {o : ν → Except (Stop ν) Value}
variable {R : ν → Reading ν}
variable {done : List ν}
variable {s₀ : Session}
variable {S : State ν}
variable {L : Ledger}
variable {T : Team ν ν}
variable {u : ν}
variable {s' : Session}
variable {L' : Ledger}
variable {T' : Team ν ν}

namespace Keeps

------------------------------------------------------------
-- Starting a Member
------------------------------------------------------------

/- What a new member's code is run with. -/
abbrev settingOf
    (N : Network ν)
    (φ : ν → Fate)
    (S : State ν)
    (m : Member ν) : Setting ν :=
  (N.outlook φ m).settingAt (S.view m) N.Detached S.session

/- A future that a member is given is what it was foretold to be. -/
theorem covers
    {m : Member ν}
    (h : N.Keeps φ o R s₀ done S L T)
    (hGiven : ∀ x, m.inputs x = true →
      (S.place x).isSome = true) :
    L.Covers (settingOf N φ S m) := by
  intro x fate hFate
  have hFate' : (if m.inputs x then some (φ x) else none) =
      some fate := hFate
  split at hFate'
  · rename_i hx
    cases hFate'
    rcases Option.isSome_iff_exists.mp (hGiven x hx) with
      ⟨r, hr⟩
    have hPlace : (settingOf N φ S m).place x = r := by
      simp [settingOf, Outlook.settingAt, State.view, hx, hr]
    rw [hPlace]
    exact h.placed x r hr
  · cases hFate'

/- A session suits what the reading of a new member is told. -/
theorem suits
    {m : Member ν}
    (h : N.Keeps φ o R s₀ done S L T)
    (hGiven : ∀ x, m.inputs x = true →
      (S.place x).isSome = true) :
    (N.outlook φ m).Suits (S.view m) N.Detached
      S.session where
  ambient := h.ambient
  tidy := h.tidy
  resource := h.resource
  fated x fate hFate := by
    have hEntry : L (S.view m x) = some fate :=
      h.covers hGiven x fate hFate
    exact ⟨h.stands.ledger.made _ (by rw [hEntry]; rfl),
      fun outcome hs => h.stands.ledger.kept _ _ _ hEntry hs⟩

/-
  A new member joins: its output is in the ledger, and it
  waits or rests.
-/
structure Joins
    (N : Network ν)
    (φ : ν → Fate)
    (o : ν → Except (Stop ν) Value)
    (R : ν → Reading ν)
    (u : ν)
    (m : Member ν)
    (S : State ν)
    (L L' : Ledger)
    (T T' : Team ν ν)
    (f : Ref)
    (s' : Session) : Prop where
  stands : T'.Stands L' [] s'
  passes : N.Passes u T T' S.session s'
  pending : ∀ r, (L r).isSome = true → ¬ S.session.Settled r →
    ¬ s'.Settled r
  entries : ∀ r fate, L r = some fate → L' r = some fate
  entry : L' f = some (φ u)
  only : ∀ r, (L' r).isSome = true →
    (L r).isSome = true ∨
      r = f ∧ (s'.Settled f ∨ ∃ p, T' u = some p ∧ p.output = f)
  employs : ∃ W : Worker ν,
    W.setting = settingOf N φ S m ∧ W.output = f ∧
      W.result = o u ∧ W.last = R u ∧
      ((∃ p, T' u = some p ∧ p.toWorker = W ∧
          S.session.futures.size ≤ f) ∨
        T' u = none ∧ W.Rested s')

/- All is as was foretold when a member has joined. -/
theorem join
    {m : Member ν}
    {f : Ref}
    (h : N.Keeps φ o R s₀ done S L T)
    (hMember : N.member u = some m)
    (hNew : u ∉ done)
    (hGiven : ∀ x, m.inputs x = true →
      (S.place x).isSome = true)
    (hJoins : Joins N φ o R u m S L L' T T' f s') :
    N.Keeps φ o R s₀ (u :: done) (S.enter u f s') L' T' := by
  have hPasses := hJoins.passes
  rcases h.idle u m hMember hNew with ⟨hNowhere, _, _⟩
  have hOthers : ∀ x, x ≠ u →
      (S.enter u f s').place x = S.place x :=
    fun x hNe => if_neg hNe
  have hHere : (S.enter u f s').place u = some f := if_pos rfl
  have hGrows : S.Grows (S.enter u f s') := by
    intro x r hr
    rw [hOthers]
    · exact hr
    · rintro rfl
      rw [hNowhere] at hr
      cases hr
  have hSource : ∀ {x}, N.member x = none → x ≠ u := by
    rintro x hx rfl
    rw [hMember] at hx
    cases hx
  rcases hJoins.employs with
    ⟨W, hSetting, hOutput, hResult, hLast, hState⟩
  have hWaiter : ∀ p, T' u = some p →
      p.toWorker = W ∧ S.session.futures.size ≤ f := by
    intro p hp
    rcases hState with ⟨p', hp', hSame, hSize⟩ | ⟨hNone, _⟩
    · rw [hp] at hp'
      cases hp'
      exact ⟨hSame, hSize⟩
    · rw [hp] at hNone
      cases hNone
  refine
    { stands := hJoins.stands
      ambient := fun hKept => by
        rw [State.enter, hPasses.ambient]
        exact h.ambient hKept
      unposted := h.unposted.trans hPasses.unposted
      tidy := hPasses.retains.tidy h.tidy
      resource := fun r release hr =>
        hPasses.retains.resource r _ (h.resource r release hr)
      placed := fun x r hr => ?_
      known := fun r hr => ?_
      older := fun t p x hp hx => ?_
      source := fun x hx => ?_
      apart := fun x y r hx hy hr hr' => ?_
      idle := fun t m' ht hIdle =>
        h.idle_passes hPasses hOthers ht hIdle
      busy := fun t m' ht hBusy => ?_
      team := fun t p hp => ?_ }
  · by_cases hSame : x = u
    · subst hSame
      rw [hHere] at hr
      cases hr
      exact hJoins.entry
    · rw [hOthers x hSame] at hr
      exact hJoins.entries r _ (h.placed x r hr)
  · rcases hJoins.only r hr with hOld | ⟨rfl, hSettled | hWaits⟩
    · refine h.known_passes hPasses hGrows (fun hx => ?_) hOld
      exact (hSource hx rfl).elim
    · exact .inl hSettled
    · exact .inr (.inl ⟨u, hWaits⟩)
  · by_cases hSame : t = u
    · subst hSame
      rcases hWaiter p hp with ⟨hW, hSize⟩
      have hPlace : p.setting = settingOf N φ S m := by
        rw [hW, hSetting]
      rw [hPlace] at hx ⊢
      rcases Option.isSome_iff_exists.mp hx with ⟨fate, hFate⟩
      have hEntry := h.covers hGiven x fate hFate
      rw [hW, hOutput]
      exact Nat.lt_of_lt_of_le
        (h.stands.ledger.made _ (by rw [hEntry]; rfl)) hSize
    · rcases waiter_passes hPasses hSame hp with
        ⟨q, hq, hSameWorker⟩
      rw [hSameWorker] at hx ⊢
      exact h.older t q x hq hx
  · rcases h.source x hx with ⟨r, hOffers⟩
    have hEntry := h.placed x r hOffers.place
    have hSome : (L r).isSome = true := by
      rw [hEntry]
      rfl
    refine ⟨r, hGrows x r hOffers.place, ?_, fun hDone => ?_,
      fun t p hp => ?_⟩
    · rw [State.enter, hPasses.deferreds]
      exact hOffers.handle
    · exact hJoins.pending r hSome (hOffers.pending
        (List.ne_and_not_mem_of_not_mem_cons hDone).2)
    · by_cases hSame : t = u
      · subst hSame
        rcases hWaiter p hp with ⟨hW, hSize⟩
        rw [hW, hOutput]
        exact Nat.ne_of_gt (Nat.lt_of_lt_of_le
          (h.stands.ledger.made r hSome) hSize)
      · rcases waiter_passes hPasses hSame hp with
          ⟨q, hq, hSameWorker⟩
        rw [hSameWorker]
        exact hOffers.free t q hq
  · rw [hOthers x (hSource hx)] at hr
    rw [hOthers y (hSource hy)] at hr'
    exact h.apart x y r hx hy hr hr'
  · by_cases hSame : t = u
    · subst hSame
      rw [hMember] at ht
      cases ht
      refine ⟨W,
        { place := by rw [hHere, hOutput]
          outlook := by rw [hSetting]; rfl
          detached := by rw [hSetting]; rfl
          view := by
            rw [hSetting, hGrows.view hGiven]
            rfl
          result := hResult
          last := hLast
          given := fun x hx => ?_ }, ?_⟩
      · rcases Option.isSome_iff_exists.mp (hGiven x hx) with
          ⟨r, hr⟩
        rw [hGrows x r hr]
        rfl
      · rcases hState with ⟨p, hp, hW, _⟩ | hRested
        · exact .inl ⟨p, hp, hW⟩
        · exact .inr hRested
    · have hDone : t ∈ done :=
        (List.mem_cons.mp hBusy).resolve_left hSame
      exact h.busy_passes hPasses hGrows ht hDone hSame
  · by_cases hSame : t = u
    · subst hSame
      exact ⟨List.mem_cons_self, m, hMember⟩
    · rcases waiter_passes hPasses hSame hp with ⟨q, hq, _⟩
      rcases h.team t q hq with ⟨hDone, hSome⟩
      exact ⟨List.mem_cons_of_mem _ hDone, hSome⟩

section Start

variable {m : Member ν}
variable {s₁ : Session}
variable {d : Ref}

/- Nobody waits under a name that is still to be started. -/
theorem ne_of_waits
    {t : ν}
    {p : Waiter ν}
    (h : N.Keeps φ o R s₀ done S L T)
    (hNew : u ∉ done)
    (hp : T t = some p) :
    t ≠ u := by
  rintro rfl
  exact hNew (h.team t p hp).1

/- The others rest while a new member takes its first turn. -/
theorem stands_start
    (h : N.Keeps φ o R s₀ done S L T)
    (hSeparate : N.Separate)
    (hMember : N.member u = some m)
    (hNew : u ∉ done)
    (hGoes : (settingOf N φ S m).Goes .none
      S.session.drivers.size S.session s₁) :
    T.Stands L [] s₁ := by
  refine h.stands.goes hGoes ?_ ?_ ?_
  · intro t p hp
    exact (h.own_apart hSeparate hp hMember
      (h.ne_of_waits hNew hp)).symm
  · exact fun _ _ _ _ _ hc => hc
  · intro t p hp
    exact Nat.ne_of_lt (h.stands.holds t p hp).driver

theorem passes_start
    (h : N.Keeps φ o R s₀ done S L T)
    (hSeparate : N.Separate)
    (hMember : N.member u = some m)
    (hNew : u ∉ done)
    (hGoes : (settingOf N φ S m).Goes .none d S.session s₁)
    (hRetains : Session.Retains Footprint.none s₁ s')
    (hAmbient : s'.ambient = s₁.ambient)
    (hUnposted : s₁.Unposted s')
    (hDeferreds : s'.deferreds = s₁.deferreds)
    (hMemory : ∀ own, s'.memory own = s₁.memory own)
    (hOthers : ∀ t, t ≠ u → T' t = T t) :
    N.Passes u T T' S.session s' where
  retains := hGoes.retains.bare_trans hRetains
  ambient := hAmbient.trans hGoes.ambient
  unposted := hGoes.unposted.trans hUnposted
  deferreds := hDeferreds.trans hGoes.deferreds
  course t p hp :=
    .inl ⟨p, (hOthers t (h.ne_of_waits hNew hp)).trans hp, rfl⟩
  origin t hNe hNone := (hOthers t hNe).trans hNone
  memory t m' hMember' _ hNe :=
    (hMemory _).trans (hGoes.foreign _
      (hSeparate u t m m' hMember hMember' hNe.symm))

/- A member that has ended at once is a settled future. -/
theorem joins_ended
    {outcome : Outcome}
    {id : Stamp}
    (h : N.Keeps φ o R s₀ done S L T)
    (hSeparate : N.Separate)
    (hForetold : N.Foretold φ s₀ o R)
    (hMember : N.member u = some m)
    (hNew : u ∉ done)
    (hGoes : (settingOf N φ S m).Goes .none
      S.session.drivers.size S.session s₁)
    (hAgrees : (settingOf N φ S m).Agrees s₁ (R u))
    (hMatches : (settingOf N φ S m).Matches s₁ (o u)
      outcome.toExcept) :
    ∃ L', Joins N φ o R u m S L L' T T s₁.futures.size
      (s₁.withFuture (.fresh (some ⟨id, outcome⟩))) := by
  let f := s₁.futures.size
  let row : FutureCell := .fresh (some ⟨id, outcome⟩)
  have hFate := hForetold.fates u m hMember
  have hStands :=
    h.stands_start hSeparate hMember hNew hGoes
  have hRetains :=
    Session.retains_withFuture Footprint.none s₁ row
  have hSettled : (s₁.withFuture row).SettledAs f outcome :=
    Session.settledAs_withFuture.mpr (.inr ⟨rfl, rfl⟩)
  have hOld : ∀ r, (L r).isSome = true → r ≠ f :=
    fun r hr => Nat.ne_of_lt (hStands.ledger.made r hr)
  refine ⟨L.enter f (φ u),
    { stands := hStands.withFuture fun t ht => ?_
      passes := h.passes_start hSeparate hMember hNew hGoes
        hRetains rfl (Session.unposted_withFuture rfl) rfl
        (fun _ => rfl) (fun _ _ => rfl)
      pending := fun r hr hPending hs => ?_
      entries := fun r fate hr => ?_
      entry := if_pos rfl
      only := fun r hr => ?_
      employs := ⟨⟨settingOf N φ S m, 0, f, o u, R u⟩, rfl, rfl,
        rfl, rfl, .inr ⟨(h.idle u m hMember hNew).2.1,
          hAgrees.memory,
          .inl ⟨outcome, hSettled, hMatches.later hRetains⟩⟩⟩ }⟩
  · cases ht
    rw [hFate]
    exact Setting.allows_of_matches hMatches
  · rcases Session.settled_iff.mp hs with ⟨outcome', hs⟩
    rcases Session.settledAs_withFuture.mp hs with hs | ⟨hs, _⟩
    · refine hPending ((hGoes.settled_iff r).mp ?_)
      exact Session.settled_iff.mpr ⟨_, hs⟩
    · exact hOld r hr hs
  · rw [Ledger.enter, if_neg (hOld r (by rw [hr]; rfl))]
    exact hr
  · by_cases hSame : r = f
    · exact .inr ⟨hSame,
        .inl (Session.settled_iff.mpr ⟨_, hSettled⟩)⟩
    · rw [Ledger.enter, if_neg hSame] at hr
      exact .inl hr

/- One that hands off at once is a future that it was given. -/
theorem joins_lent
    {x : ν}
    {fate : Fate}
    {R' : Reading ν}
    (h : N.Keeps φ o R s₀ done S L T)
    (hSeparate : N.Separate)
    (hForetold : N.Foretold φ s₀ o R)
    (hMember : N.member u = some m)
    (hNew : u ∉ done)
    (hGiven : ∀ x, m.inputs x = true →
      (S.place x).isSome = true)
    (hGoes : (settingOf N φ S m).Goes .none
      S.session.drivers.size S.session s₁)
    (hAgrees : (settingOf N φ S m).Agrees s₁ R')
    (hFate : (settingOf N φ S m).fates x = some fate)
    (hResult : o u = fate.result x)
    (hLast : R u = R'.awaiting x) :
    Joins N φ o R u m S L L T T
      ((settingOf N φ S m).place x) s₁ := by
  have hEntry := h.covers hGiven x fate hFate
  refine
    { stands := h.stands_start hSeparate hMember hNew hGoes
      passes := h.passes_start hSeparate hMember hNew hGoes
        (.refl _ s₁) rfl (.refl s₁) rfl (fun _ => rfl)
        (fun _ _ => rfl)
      pending := fun r _ hPending => ?_
      entries := fun _ _ hr => hr
      entry := ?_
      only := fun _ hr => .inl hr
      employs := ⟨⟨settingOf N φ S m, 0,
          (settingOf N φ S m).place x, o u, R u⟩, rfl, rfl, rfl,
        rfl, .inr ⟨(h.idle u m hMember hNew).2.1, ?_,
          .inr ⟨x, fate, hFate, rfl, hResult⟩⟩⟩ }
  · rw [hGoes.settled_iff]
    exact hPending
  · rw [hEntry, hForetold.fates u m hMember, hResult,
      Fate.ofResult_result]
  · rw [hLast]
    exact hAgrees.memory

/- One that suspends joins those who wait. -/
theorem joins_waiting
    {G : Footprint}
    {w : Closure}
    {x : ν}
    {R' : Reading ν}
    (h : N.Keeps φ o R s₀ done S L T)
    (hSeparate : N.Separate)
    (hForetold : N.Foretold φ s₀ o R)
    (hMember : N.member u = some m)
    (hNew : u ∉ done)
    (hGiven : ∀ x, m.inputs x = true →
      (S.place x).isSome = true)
    (hCalls : w.driver? = some S.session.drivers.size)
    (hGoes : (settingOf N φ S m).Goes .none
      S.session.drivers.size S.session s₁)
    (hDriver : S.session.drivers.size < s₁.drivers.size)
    (hAgrees : (settingOf N φ S m).Agrees s₁ R')
    (hPending : ¬ s₁.Settled ((settingOf N φ S m).place x))
    (hFated : ((settingOf N φ S m).fates x).isSome = true)
    (hStuck : (settingOf N φ S m).fates x = some .never →
      o u = .error (.stuck x) ∧ R u = R'.awaiting x)
    (hFoot : ∀ c, G c → s₁.Has c ∧ ¬ S.session.Has c)
    (hRest : ∀ s₂, (settingOf N φ S m).Rests G s₁ s₂ →
      s₂.drivers[S.session.drivers.size]? =
        s₁.drivers[S.session.drivers.size]? →
      s₂.Settled ((settingOf N φ S m).place x) →
      (settingOf N φ S m).Drives S.session.drivers.size
        s₁.futures.size G (fun c => c.call w []) s₂ (o u)
          (R u)) :
    ∃ L' T', Joins N φ o R u m S L L' T T' s₁.futures.size
      ((s₁.watching ((settingOf N φ S m).place x) w).withFuture
        (.fresh none)) := by
  let E := settingOf N φ S m
  let f := s₁.futures.size
  let s₂ := s₁.withFuture (.fresh none)
  let p : Waiter ν :=
    ⟨⟨E, S.session.drivers.size, f, o u, R u⟩, G, w, x, R'⟩
  have hFate := hForetold.fates u m hMember
  have hStands :=
    h.stands_start hSeparate hMember hNew hGoes
  have hOld : ∀ r, (L r).isSome = true → r ≠ f :=
    fun r hr => Nat.ne_of_lt (hStands.ledger.made r hr)
  have hEntries : ∀ r fate, L r = some fate →
      L.enter f (φ u) r = some fate := by
    intro r fate hr
    rw [Ledger.enter, if_neg (hOld r (by rw [hr]; rfl))]
    exact hr
  have hCovers : L.Covers E := h.covers hGiven
  have hMade : p.target < s₁.futures.size := by
    rcases Option.isSome_iff_exists.mp hFated with ⟨fate, hx⟩
    have hEntry : L p.target = some fate := hCovers x fate hx
    exact hStands.ledger.made _ (by rw [hEntry]; rfl)
  have hSettled : ∀ r, s₂.Settled r ↔ s₁.Settled r := by
    intro r
    simp [s₂, Session.settled_iff, FutureCell.fresh,
      Session.settledAs_withFuture]
  have hRests : E.Rests G s₁ s₂ :=
    Setting.rests_withFuture hAgrees.calm
  have hHolds : p.Holds s₂ :=
    { agrees := hRests.agrees hAgrees
      pending := by
        rw [hSettled]
        intro hs
        rcases Session.settled_iff.mp hs with ⟨_, hs⟩
        exact Nat.lt_irrefl _ hs.made
      driver := hDriver
      calls := hCalls
      fated := hFated
      stuck := hStuck
      foot := fun c hc => hRests.retains.has c (hFoot c hc).1
      rest := fun s₃ hRests' => hRest s₃ (hRests.trans hRests') }
  have hClear : ∀ t q, T t = some q → p.Clear q := by
    intro t q hq
    have hNe := h.ne_of_waits hNew hq
    have hOutput : (L q.output).isSome = true := by
      rw [h.stands.promised t q hq]
      rfl
    refine ⟨(h.own_apart hSeparate hq hMember hNe).symm,
      fun c hc hq' => ?_, ?_, (hOld _ hOutput).symm⟩
    · exact (hFoot c hc).2 ((h.stands.holds t q hq).foot c hq')
    · exact Nat.ne_of_gt (h.stands.holds t q hq).driver
  have hJoined : Team.Stands (L.enter f (φ u)) (T.put u p) []
      (s₂.watching p.target p.callback) := by
    refine (hStands.withFuture fun _ ht => by cases ht).put
      (h.idle u m hMember hNew).2.1 hHolds ?_ ?_ hClear ?_
    · exact fun y fate hy => hEntries _ fate (hCovers y fate hy)
    · rw [← hFate]
      exact if_pos rfl
    · rw [hSettled]
      exact hPending
  have hMade₂ : p.target < s₂.futures.size := by
    simpa [s₂, Session.withFuture]
      using Nat.lt_succ_of_lt hMade
  have hSame :
      (s₁.watching ((settingOf N φ S m).place x) w).withFuture
          (.fresh none) =
        s₂.watching p.target p.callback :=
    Session.watching_withFuture hMade
  rw [hSame]
  refine ⟨_, _,
    { stands := hJoined
      passes := h.passes_start hSeparate hMember hNew hGoes
        ((Session.retains_withFuture Footprint.none _ _).bare_trans
          (Session.retains_watching Footprint.none _ hMade₂))
        rfl ((Session.unposted_withFuture rfl).trans
          (Session.unposted_watching hCalls))
        rfl (fun _ => rfl) (fun t hNe => if_neg hNe)
      pending := fun r hr hPending hs => ?_
      entries := hEntries
      entry := if_pos rfl
      only := fun r hr => ?_
      employs := ⟨p.toWorker, rfl, rfl, rfl, rfl,
        .inl ⟨p, if_pos rfl, rfl, ?_⟩⟩ }⟩
  · rw [Session.settled_watching hMade₂, hSettled,
      hGoes.settled_iff] at hs
    exact hPending hs
  · by_cases hSame : r = f
    · exact .inr ⟨hSame, .inr ⟨p, if_pos rfl, rfl⟩⟩
    · rw [Ledger.enter, if_neg hSame] at hr
      exact .inl hr
  · exact Nat.le_of_eq (congrArg Array.size hGoes.futures).symm

/- All is as was foretold when a member has been started. -/
theorem start
    (h : N.Keeps φ o R s₀ done S L T)
    (hSeparate : N.Separate)
    (hForetold : N.Foretold φ s₀ o R)
    (hMember : N.member u = some m)
    (hNew : u ∉ done)
    (hGiven : ∀ x, m.inputs x = true →
      (S.place x).isSome = true) :
    ∃ S' L' T', N.Step (.start u) S S' ∧
      N.Keeps φ o R s₀ (u :: done) S' L' T' := by
  rcases hForetold.reads u m hMember with
    ⟨n, o₁, hRead, hLanded⟩
  rw [← (h.idle u m hMember hNew).2.2] at hRead
  have hHands : m.routine.HandsOffOnly True (¬ N.Detached) := by
    by_cases hDetached : N.Detached
    · simp only [hDetached, not_true]
      exact (hDetached u m hMember).hands
    · exact m.routine.handsOffOnly trivial hDetached
  rcases Routine.starts m.taskId m.context
      (fun hDetached => (hDetached u m hMember).captured)
      hHands (h.suits hGiven) rfl hRead with
    ⟨f, s', hStarts⟩
  rw [hLanded] at hStarts
  generalize hResult : o u = result at hStarts
  generalize hLast : R u = last at hStarts
  cases hStarts with
  | ends hLeads hGoes hAgrees hMatches =>
      subst hResult hLast
      rcases h.joins_ended hSeparate hForetold hMember hNew hGoes
          hAgrees hMatches with
        ⟨L', hJoins⟩
      exact ⟨_, L', T, .start hMember hLeads,
        h.join hMember hNew hGiven hJoins⟩
  | lends hLeads hGoes hAgrees hFate =>
      exact ⟨_, L, T, .start hMember hLeads,
        h.join hMember hNew hGiven
          (h.joins_lent hSeparate hForetold hMember hNew hGiven
            hGoes hAgrees hFate hResult hLast)⟩
  | waits hLeads hCalls hGoes hDriver hAgrees hPending hFated
      hStuck hFoot hRest =>
      subst hResult hLast
      rcases h.joins_waiting hSeparate hForetold hMember hNew
          hGiven hCalls hGoes hDriver hAgrees hPending hFated
          hStuck hFoot hRest with
        ⟨L', T', hJoins⟩
      exact ⟨_, L', T', .start hMember hLeads,
        h.join hMember hNew hGiven hJoins⟩

end Start

end Keeps

end Network

end Resumption

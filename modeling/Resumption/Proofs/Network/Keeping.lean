import Resumption.Proofs.Network.Cascade
import Resumption.Proofs.Network.Networks

/-
  What a schedule keeps: the members that were started wait
  for futures or have come to what was foretold, the others
  and the pending sources are left alone.

  It holds of a session to begin with, and settling a source
  keeps it.

  Main declarations:
    * `Network.Keeps`
    * `Network.Opens.keeps`
    * `Network.Passes`
    * `Network.Keeps.settle`
-/

namespace Resumption

open Run

variable {ν : Type}

------------------------------------------------------------
-- What a Schedule Keeps
------------------------------------------------------------

/-
  A task that does not wait has ended as its reading said, or
  its output is a future that it was given.
-/
structure Worker.Rested
    (W : Worker ν)
    (s : Session) : Prop where
  memory : s.memory W.setting.own = W.last.memory
  settles :
    (∃ outcome, s.SettledAs W.output outcome ∧
      W.setting.Matches s W.result outcome.toExcept) ∨
    ∃ x fate, W.setting.fates x = some fate ∧
      W.output = W.setting.place x ∧ W.result = fate.result x

namespace Network

variable {N : Network ν}
variable {φ : ν → Fate}
variable {o : ν → Except (Stop ν) Value}
variable {R : ν → Reading ν}
variable {done : List ν}
variable {s₀ : Session}
variable {S : State ν}
variable {L : Ledger}
variable {T : Team ν ν}

/- A member at work, with the futures that it was given. -/
structure Employs
    (N : Network ν)
    (φ : ν → Fate)
    (o : ν → Except (Stop ν) Value)
    (R : ν → Reading ν)
    (S : State ν)
    (t : ν)
    (m : Member ν)
    (W : Worker ν) : Prop where
  place : S.place t = some W.output
  outlook : W.setting.toOutlook = N.outlook φ m
  detached : W.setting.detached = N.Detached
  view : W.setting.place = S.view m
  result : W.result = o t
  last : W.last = R t
  given : ∀ x, m.inputs x = true → (S.place x).isSome = true

/- A source, which is pending and free until it is settled. -/
structure Offers
    (N : Network ν)
    (done : List ν)
    (S : State ν)
    (T : Team ν ν)
    (x : ν)
    (r : Ref) : Prop where
  place : S.place x = some r
  handle :
    S.session.deferreds[N.handle x]? = some (.future r)
  pending : x ∉ done → ¬ S.session.Settled r
  free : ∀ t p, T t = some p → p.output ≠ r

/-
  Some members have been started and some sources settled,
  and all is as was foretold.
-/
structure Keeps
    (N : Network ν)
    (φ : ν → Fate)
    (o : ν → Except (Stop ν) Value)
    (R : ν → Reading ν)
    (s₀ : Session)
    (done : List ν)
    (S : State ν)
    (L : Ledger)
    (T : Team ν ν) : Prop where
  stands : T.Stands L [] S.session
  ambient : ¬ N.Detached → S.session.ambient.truthy = false
  unposted : s₀.Unposted S.session
  tidy : S.session.Tidy
  resource : ∀ r release, N.releases r = some release →
    S.session.resources[r]? =
      some (.custom (.client fun _ => release.code))
  placed : ∀ x r, S.place x = some r → L r = some (φ x)
  known : ∀ r, (L r).isSome = true →
    S.session.Settled r ∨ (∃ t p, T t = some p ∧ p.output = r) ∨
      ∃ x, N.member x = none ∧ x ∉ done ∧ S.place x = some r
  older : ∀ t p x, T t = some p →
    (p.setting.fates x).isSome = true →
      p.setting.place x < p.output
  source : ∀ x, N.member x = none → ∃ r, N.Offers done S T x r
  apart : ∀ x y r, N.member x = none → N.member y = none →
    S.place x = some r → S.place y = some r → x = y
  idle : ∀ t m, N.member t = some m → t ∉ done →
    S.place t = none ∧ T t = none ∧
      S.session.memory m.own = s₀.memory m.own
  busy : ∀ t m, N.member t = some m → t ∈ done →
    ∃ W, N.Employs φ o R S t m W ∧
      ((∃ p, T t = some p ∧ p.toWorker = W) ∨
        T t = none ∧ W.Rested S.session)
  team : ∀ t p, T t = some p →
    t ∈ done ∧ ∃ m, N.member t = some m

/- A session to begin with is as was foretold. -/
theorem Opens.keeps
    (h : N.Opens S)
    (o : ν → Except (Stop ν) Value)
    (R : ν → Reading ν) :
    ∃ L, N.Keeps φ o R S.session [] S L fun _ => none := by
  classical
  let L : Ledger := fun r =>
    if h : ∃ x, S.place x = some r then
      some (φ (Classical.choose h))
    else none
  have hSource : ∀ x r, S.place x = some r →
      N.member x = none := by
    intro x r hr
    cases hx : N.member x with
    | none => rfl
    | some m =>
        rw [h.member x m hx] at hr
        cases hr
  have hFuture : ∀ x r, S.place x = some r →
      S.session.futures[r]? = some (.fresh none) := by
    intro x r hr
    rcases h.source x (hSource x r hr) with ⟨r', hr', _, hRow⟩
    rw [hr] at hr'
    cases hr'
    exact hRow
  have hPending : ∀ x r, S.place x = some r →
      ¬ S.session.Settled r := by
    intro x r hr
    simp [Session.Settled, Array.getD_eq_getD_getElem?,
      hFuture x r hr, FutureCell.fresh]
  have hPlaced : ∀ x r, S.place x = some r →
      L r = some (φ x) := by
    intro x r hr
    have hSome : ∃ y, S.place y = some r := ⟨x, hr⟩
    have hChosen := Classical.choose_spec hSome
    have hSame := h.apart _ x r (hSource _ r hChosen)
      (hSource x r hr) hChosen hr
    simp only [L, dif_pos hSome, hSame]
  have hKnown : ∀ r, (L r).isSome = true →
      ∃ x, S.place x = some r := by
    intro r hr
    simp only [L] at hr
    split at hr
    · assumption
    · cases hr
  have hKept : L.Kept S.session := by
    refine ⟨fun r hr => ?_, fun r fate outcome hr hs => ?_⟩
    · rcases hKnown r hr with ⟨x, hx⟩
      exact (Array.getElem?_eq_some_iff.mp (hFuture x r hx)).1
    · rcases hKnown r (by rw [hr]; rfl) with ⟨x, hx⟩
      exact (hPending x r hx
        (Session.settled_iff.mpr ⟨outcome, hs⟩)).elim
  have hFree : ∀ r, (L r).isSome = true →
      S.session.watchers r = [] := by
    intro r hr
    rcases hKnown r hr with ⟨x, hx⟩
    simp [Session.watchers, Array.getD_eq_getD_getElem?,
      hFuture x r hx, FutureCell.fresh]
  refine ⟨L,
    { stands := .nobody hKept hFree
      ambient := fun _ => h.ambient
      unposted := .refl S.session
      tidy := h.tidy
      resource := h.resource
      placed := hPlaced
      known := fun r hr => ?_
      older := fun _ _ _ hp => by cases hp
      source := fun x hx => ?_
      apart := h.apart
      idle := fun t m ht _ => ⟨h.member t m ht, rfl, rfl⟩
      busy := fun _ _ _ hDone => by cases hDone
      team := fun _ _ hp => by cases hp }⟩
  · rcases hKnown r hr with ⟨x, hx⟩
    exact .inr (.inr ⟨x, hSource x r hx, List.not_mem_nil, hx⟩)
  · rcases h.source x hx with ⟨r, hPlace, hHandle, _⟩
    exact ⟨r, hPlace, hHandle, fun _ => hPending x r hPlace,
      fun _ _ hp => by cases hp⟩

------------------------------------------------------------
-- What Is Left Alone
------------------------------------------------------------

/-
  While one thing happens, the others go on as was foretold,
  or are left alone.
-/
structure Passes
    (N : Network ν)
    (u : ν)
    (T T' : Team ν ν)
    (s s' : Session) : Prop where
  retains : Session.Retains Footprint.none s s'
  ambient : s'.ambient = s.ambient
  unposted : s.Unposted s'
  deferreds : s'.deferreds = s.deferreds
  course : ∀ t p, T t = some p →
    (∃ p', T' t = some p' ∧ p'.toWorker = p.toWorker) ∨
      T' t = none ∧ p.Ended s'
  origin : ∀ t, t ≠ u → T t = none → T' t = none
  memory : ∀ t m, N.member t = some m → T t = none → t ≠ u →
    s'.memory m.own = s.memory m.own

/- No future is anywhere else than it was. -/
def State.Grows (S S' : State ν) : Prop :=
  ∀ x r, S.place x = some r → S'.place x = some r

theorem State.Grows.view
    {S S' : State ν}
    {m : Member ν}
    (h : S.Grows S')
    (hGiven : ∀ x, m.inputs x = true →
      (S.place x).isSome = true) :
    S'.view m = S.view m := by
  funext x
  unfold State.view
  split
  · rename_i hx
    rcases Option.isSome_iff_exists.mp (hGiven x hx) with
      ⟨r, hr⟩
    rw [hr, h x r hr]
  · rfl

variable {u : ν}
variable {s' : Session}
variable {S' : State ν}
variable {L' : Ledger}
variable {T' : Team ν ν}

namespace Keeps

/- What a waiting task calls its own is the member's own. -/
theorem own_eq
    {t : ν}
    {m : Member ν}
    {p : Waiter ν}
    (h : N.Keeps φ o R s₀ done S L T)
    (hp : T t = some p)
    (hMember : N.member t = some m) :
    p.setting.own = m.own := by
  rcases h.busy t m hMember (h.team t p hp).1 with
    ⟨W, hEmploys, ⟨p', hp', rfl⟩ | ⟨hNone, _⟩⟩
  · rw [hp] at hp'
    cases hp'
    have hOwn := congrArg Outlook.own hEmploys.outlook
    exact hOwn
  · rw [hp] at hNone
    cases hNone

/- What a separate member calls its own is apart from it. -/
theorem own_apart
    {t : ν}
    {m : Member ν}
    {p : Waiter ν}
    (h : N.Keeps φ o R s₀ done S L T)
    (hSeparate : N.Separate)
    (hp : T t = some p)
    (hMember : N.member u = some m)
    (hNe : t ≠ u) :
    p.setting.own.Apart m.own := by
  rcases (h.team t p hp).2 with ⟨m', hMember'⟩
  rw [h.own_eq hp hMember']
  exact hSeparate t u m' m hMember' hMember hNe

/- The members that were started go on as was foretold. -/
theorem busy_passes
    {t : ν}
    {m : Member ν}
    (h : N.Keeps φ o R s₀ done S L T)
    (hPasses : N.Passes u T T' S.session S'.session)
    (hGrows : S.Grows S')
    (hMember : N.member t = some m)
    (hDone : t ∈ done)
    (hNe : t ≠ u) :
    ∃ W, N.Employs φ o R S' t m W ∧
      ((∃ p, T' t = some p ∧ p.toWorker = W) ∨
        T' t = none ∧ W.Rested S'.session) := by
  rcases h.busy t m hMember hDone with ⟨W, hEmploys, hState⟩
  have hOwn : W.setting.own = m.own :=
    congrArg Outlook.own hEmploys.outlook
  refine ⟨W,
    { hEmploys with
      place := hGrows _ _ hEmploys.place
      view := ?_
      given := fun x hx => ?_ }, ?_⟩
  · rw [hGrows.view hEmploys.given]
    exact hEmploys.view
  · rcases Option.isSome_iff_exists.mp (hEmploys.given x hx) with
      ⟨r, hr⟩
    rw [hGrows x r hr]
    rfl
  · rcases hState with ⟨p, hp, rfl⟩ | ⟨hNone, hRested⟩
    · rcases hPasses.course t p hp with hStill | ⟨hNone, hEnded⟩
      · exact .inl hStill
      · exact .inr ⟨hNone, hEnded.memory, .inl hEnded.settles⟩
    · refine .inr ⟨hPasses.origin t hNe hNone, ?_, ?_⟩
      · rw [← hRested.memory, hOwn]
        exact hPasses.memory t m hMember hNone hNe
      · rcases hRested.settles with
          ⟨outcome, hSettled, hMatches⟩ | hLent
        · exact .inl ⟨outcome,
            hPasses.retains.settledAs _ _ hSettled,
            hMatches.later hPasses.retains⟩
        · exact .inr hLent

/- The members that are still to be started are left alone. -/
theorem idle_passes
    {t : ν}
    {m : Member ν}
    (h : N.Keeps φ o R s₀ done S L T)
    (hPasses : N.Passes u T T' S.session S'.session)
    (hPlace : ∀ x, x ≠ u → S'.place x = S.place x)
    (hMember : N.member t = some m)
    (hIdle : t ∉ u :: done) :
    S'.place t = none ∧ T' t = none ∧
      S'.session.memory m.own = s₀.memory m.own := by
  rcases List.ne_and_not_mem_of_not_mem_cons hIdle with
    ⟨hNe, hDone⟩
  rcases h.idle t m hMember hDone with
    ⟨hPlace', hNone, hMemory⟩
  refine ⟨(hPlace t hNe).trans hPlace',
    hPasses.origin t hNe hNone, ?_⟩
  exact (hPasses.memory t m hMember hNone hNe).trans hMemory

/- Futures that are known of are so in the same way. -/
theorem known_passes
    {r : Ref}
    (h : N.Keeps φ o R s₀ done S L T)
    (hPasses : N.Passes u T T' S.session S'.session)
    (hGrows : S.Grows S')
    (hHere : N.member u = none → S.place u = some r →
      S'.session.Settled r)
    (hr : (L r).isSome = true) :
    S'.session.Settled r ∨
      (∃ t p, T' t = some p ∧ p.output = r) ∨
      ∃ x, N.member x = none ∧ x ∉ u :: done ∧
        S'.place x = some r := by
  rcases h.known r hr with
    hSettled | ⟨t, p, hp, hOutput⟩ | ⟨x, hx, hDone, hPlace⟩
  · exact .inl (hPasses.retains.settled r hSettled)
  · rcases hPasses.course t p hp with
      ⟨p', hp', hSame⟩ | ⟨_, hEnded⟩
    · rw [← hSame] at hOutput
      exact .inr (.inl ⟨t, p', hp', hOutput⟩)
    · rcases hEnded.settles with ⟨outcome, hSettled, _⟩
      rw [hOutput] at hSettled
      exact .inl (Session.settled_iff.mpr ⟨outcome, hSettled⟩)
  · by_cases hNe : x = u
    · subst hNe
      exact .inl (hHere hx hPlace)
    · exact .inr (.inr ⟨x, hx,
        List.not_mem_cons_of_ne_of_not_mem hNe hDone,
        hGrows x r hPlace⟩)

/- Those who wait had been waiting, apart from the newest. -/
theorem waiter_passes
    {t : ν}
    {p' : Waiter ν}
    {s s' : Session}
    (hPasses : N.Passes u T T' s s')
    (hNe : t ≠ u)
    (hp' : T' t = some p') :
    ∃ p, T t = some p ∧ p'.toWorker = p.toWorker := by
  cases hp : T t with
  | none =>
      rw [hPasses.origin t hNe hp] at hp'
      cases hp'
  | some p =>
      rcases hPasses.course t p hp with
        ⟨p₁, hp₁, hSame⟩ | ⟨hNone, _⟩
      · rw [hp'] at hp₁
        cases hp₁
        exact ⟨p, rfl, hSame⟩
      · rw [hp'] at hNone
        cases hNone

------------------------------------------------------------
-- Settling a Source
------------------------------------------------------------

/- A source that is settled by its handle is settled. -/
theorem leads_settle
    {handle r : Ref}
    {outcome : Outcome}
    {s s' : Session}
    (hHandle : s.deferreds[handle]? = some (.future r))
    (h : Leads (fun c => Future.settle c r outcome) s
      (.ok true) s') :
    Leads (fun c =>
        (Program.request
          (.settle (.deferred handle) outcome)).run c)
      s (.ok (.bool true)) s' := by
  have hSettle : Leads
      (fun c => Deferred.settle c (.deferred handle) outcome) s
      (.ok (.bool true)) s' := by
    unfold Deferred.settle
    have hGet : (get : Run Session) s = some (.ok s, s) := rfl
    refine .step hGet ?_
    simp only [hHandle]
    exact h.bind (.pure _)
  exact .request hSettle

/- All is as was foretold when a source has been settled. -/
theorem settle
    {x : ν}
    {outcome : Outcome}
    (h : N.Keeps φ o R s₀ done S L T)
    (hSeparate : N.Separate)
    (hSource : N.member x = none)
    (hNew : x ∉ done)
    (hFate : φ x = .known outcome) :
    ∃ S' T', N.Step (.settle x outcome) S S' ∧
      N.Keeps φ o R s₀ (x :: done) S' L T' := by
  rcases h.source x hSource with ⟨r, hOffers⟩
  have hPending := hOffers.pending hNew
  have hEntry : L r = some (.known outcome) := by
    rw [h.placed x r hOffers.place, hFate]
  have hMade := h.stands.ledger.made r (by rw [hEntry]; rfl)
  rcases h.stands.settle (fun t p hp => (h.team t p hp).1) hEntry
      rfl hPending hOffers.free with
    ⟨T', s', hSettle, hStands, hEvolves⟩
  let S' : State ν := { S with session := s' }
  have hSettled : s'.Settled r := by
    refine hEvolves.retains.settled r ?_
    rw [Session.settled_settling hMade]
    exact .inl rfl
  have hPasses : N.Passes x T T' S.session S'.session :=
    { retains := (Session.retains_settling Footprint.none _
        hMade hPending).bare_trans hEvolves.retains
      ambient := hEvolves.ambient
      unposted := (S.session.unposted_settling r outcome).trans
        hEvolves.unposted
      deferreds := hEvolves.deferreds
      course := hEvolves.course
      origin := fun t _ => hEvolves.origin t
      memory := by
        intro t m hMember hNone _
        refine hEvolves.foreign m.own fun u p hp => ?_
        refine h.own_apart hSeparate hp hMember ?_
        rintro rfl
        rw [hNone] at hp
        cases hp }
  have hGrows : S.Grows S' := fun _ _ hr => hr
  have hMember : ∀ {t m}, N.member t = some m → t ≠ x := by
    rintro t m hMember rfl
    rw [hSource] at hMember
    cases hMember
  refine ⟨S', T',
    .settle (leads_settle hOffers.handle hSettle),
    { stands := hStands
      ambient := fun hKept => by
        rw [hPasses.ambient]
        exact h.ambient hKept
      unposted := h.unposted.trans hPasses.unposted
      tidy := hPasses.retains.tidy h.tidy
      resource := fun r release hr =>
        hPasses.retains.resource r _ (h.resource r release hr)
      placed := h.placed
      known := fun r' hr' => h.known_passes hPasses hGrows
        (fun _ hPlace => ?_) hr'
      older := fun t p' y hp' hy => ?_
      source := fun y hy => ?_
      apart := h.apart
      idle := fun t m ht hIdle => h.idle_passes hPasses
        (fun _ _ => rfl) ht hIdle
      busy := fun t m ht hBusy => ?_
      team := fun t p' hp' => ?_ }⟩
  · rw [hOffers.place] at hPlace
    cases hPlace
    exact hSettled
  · rcases hEvolves.from hp' with ⟨p, hp, hSame⟩
    rw [hSame] at hy ⊢
    exact h.older t p y hp hy
  · rcases h.source y hy with ⟨r', hOffers'⟩
    refine ⟨r', hOffers'.place, ?_, fun hDone hs => ?_,
      fun t p' hp' => ?_⟩
    · rw [hPasses.deferreds]
      exact hOffers'.handle
    · rcases List.ne_and_not_mem_of_not_mem_cons hDone with
        ⟨hNe, hDone⟩
      rcases hEvolves.settles r' hs with hs | ⟨t, p, hp, hOutput⟩
      · rw [Session.settled_settling hMade] at hs
        rcases hs with rfl | hs
        · exact hNe (h.apart y x r' hy hSource hOffers'.place
            hOffers.place)
        · exact hOffers'.pending hDone hs
      · exact hOffers'.free t p hp hOutput
    · rcases hEvolves.from hp' with ⟨p, hp, hSame⟩
      rw [hSame]
      exact hOffers'.free t p hp
  · rcases List.mem_cons.mp hBusy with rfl | hDone
    · exact (hMember ht rfl).elim
    · exact h.busy_passes hPasses hGrows ht hDone (hMember ht)
  · rcases hEvolves.from hp' with ⟨p, hp, _⟩
    rcases h.team t p hp with ⟨hDone, hSome⟩
    exact ⟨List.mem_cons_of_mem _ hDone, hSome⟩

end Keeps

end Network

end Resumption

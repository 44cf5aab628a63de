import Resumption.Proofs.Stay.Futures
import Resumption.Proofs.Task.HandOff
import Resumption.Proofs.World.Advances

/-
  Drivers in the world of a stay.  The driver of a task that
  stays asks for the next callback, and enters the code of the
  task, on the task's context.

  Main declarations:
    * `Stay.directs`
    * `Stay.keeps_handOff`, `Stay.keeps_registerDriver`
    * `Stay.AtHome`, `Stay.advances`
    * `Stay.keeps_resumeDriver`
-/

namespace Resumption

namespace Stay

open Session World

variable {H : Stay}
variable {s s' : Session}
variable {spared : Ref → Prop}
variable {shut : Prop}
variable {caller : Caller}
variable {d : Ref}

------------------------------------------------------------
-- Directing Drivers
------------------------------------------------------------

/- What drivers note of themselves is none of its business. -/
theorem directs
    (hAll : ∀ spared, (Staying H spared shut).Serves caller) :
    (Staying H spared shut).Directs caller where
  toHosts := hosts hAll
  toFounds := founds
  serves := hAll _
  note t m hs := moves_note hs t m
  alterDriver d _ hs hEmitter hFired :=
    moves_alterDriver hs d hEmitter hFired
  output_loose _ _ := trivial

section Serving

variable (hAll : ∀ spared,
  (Staying H spared shut).Serves caller)

include hAll

------------------------------------------------------------
-- Handing Off
------------------------------------------------------------

/-
  The driver of the stay has an awaiter that does not keep the
  context.
-/
def Detaches
    (H : Stay)
    (s : Session)
    (d : Ref)
    (awaiter : Value) : Prop :=
  H.Admits s → d = H.driver → ∃ r f : Nat,
    awaiter = .awaiter r ∧
      s.awaiters[r]? = some (.future f false)

omit hAll in
theorem Detaches.follows
    {awaiter : Value}
    (h : H.Detaches s d awaiter)
    (hFollows : H.Follows s s') :
    H.Detaches s' d awaiter := by
  intro hAdmits hSame
  rcases h (hAdmits.before hFollows) hSame with
    ⟨r, f, hAwaiter, hCell⟩
  exact ⟨r, f, hAwaiter, hFollows.awaiters r _ hCell⟩

/- The awaiter of a future, if it is asked for, detaches. -/
theorem ensures_detaching
    (hs : (Staying H spared shut).Sound s)
    {v : Value}
    (hFuture : H.Admits s → d = H.driver → ∃ f, v = .future f) :
    (Awaitable.awaiterWith caller v false).Ensures s
      fun r s' => (Staying H spared shut).Moves s s' ∧
        ∀ awaiter, r = .ok awaiter →
          H.Detaches s' d awaiter := by
  by_cases hIs : ∃ f, v = .future f
  · rcases hIs with ⟨f, rfl⟩
    refine Run.ensures_alloc_bind.mpr
      (Run.ensures_pure.mpr ⟨moves_newAwaiter hs trivial, ?_⟩)
    rintro _ ⟨⟩ _ _
    exact ⟨s.awaiters.size, f, rfl, by simp [Table.awaiters]⟩
  · refine Run.Ensures.mono
      ((hosts hAll).keeps_awaiterWith (hAll _) hs v false)
      fun r s' h' => ⟨h', fun awaiter _ hAdmits hSame => ?_⟩
    exact absurd (hFuture (hAdmits.before h'.rel.1) hSame) hIs

/- What is to read how a hand-off ends is posted nowhere. -/
theorem keeps_registerOutcome
    (hs : (Staying H spared shut).Sound s)
    {awaiter : Value}
    (hDetaches : H.Detaches s d awaiter) :
    (Staying H spared shut).Keeps
      (Awaiter.register caller awaiter
        (.driverOutcome d awaiter)) s := by
  by_cases hOwn : H.Admits s ∧ d = H.driver
  · rcases hDetaches hOwn.1 hOwn.2 with ⟨r, f, rfl, hCell⟩
    unfold Awaiter.register
    refine keeps_row_bind.mpr ?_
    rw [show (Table.awaiters.rows s).getD r default =
      .future f false by simp [Table.awaiters, hCell]]
    refine keeps_get_bind.mpr ?_
    exact keeps_watch (hAll _) hs fun _ =>
      .inr ⟨_, by rw [hOwn.2]⟩
  · exact (hosts hAll).keeps_register (hAll _) hs awaiter
      fun hAdmits hSame => hOwn ⟨hAdmits, hSame⟩

theorem keeps_handOff
    (hs : (Staying H spared shut).Sound s)
    (hd : d < s.drivers.size)
    (v : Value) :
    (Staying H spared shut).Keeps (Driver.handOff caller d v)
      s := by
  unfold Driver.handOff Driver.note Run.note
  rw [bind_assoc]
  refine Run.ensures_row_bind.mpr (Run.ensures_alter_bind.mpr ?_)
  have h₁ := moves_note hs (s.taskOf d) (.handsOver v)
  refine Keeps.of_moves h₁ (Run.Ensures.bind (Run.Ensures.mono
    (ensures_detaching hAll h₁.sound (d := d) ?_) ?_))
  · -- The story now says what was handed over.
    rintro hAdmits rfl
    have hTask := hAdmits.owns hd
    have hBorn : H.task < s.tasks.size := by
      refine Nat.lt_of_not_le fun hUnborn => ?_
      exact ((hs.inv (hAdmits.before h₁.rel.1)).1.unborn
        hUnborn).2 _ hd hTask
    refine hAdmits.handsFutures v ?_
    have hTask' : s.taskOf H.driver = H.task := hTask
    simp only [story, getD_modify]
    rw [if_pos ⟨hTask', hBorn⟩]
    exact List.mem_cons_self
  · rintro r s₂ ⟨h₂, hDetaches⟩
    cases r with
    | error e => exact h₂
    | ok awaiter => ?_
    refine Keeps.of_moves h₂ ?_
    have hD : (Staying H spared shut).Directs caller :=
      directs hAll
    refine (hD.keeps_emitDriver h₂.sound d _).bind
      fun _ s₃ h₃ => ?_
    refine (hD.keeps_completed (hAll _) h₃.sound awaiter).bind
      fun isDone s₄ h₄ => ?_
    split
    · exact hD.keeps_conclude h₄.sound d awaiter
    · refine (hD.keeps_setState h₄.sound d _).bind
        fun _ s₅ h₅ => ?_
      refine ensures_keeper_bind.mpr ?_
      refine (hD.keeps_noteDriver h₅.sound d _).bind
        fun _ s₆ h₆ => ?_
      refine (keeps_registerOutcome hAll h₆.sound
        ((hDetaches awaiter rfl).follows ?_)).discard
      exact (h₃.trans (h₄.trans (h₅.trans h₆))).rel.1

end Serving

------------------------------------------------------------
-- Asking
------------------------------------------------------------

section Asking

variable {k : Nat}
variable {f : Nat}

/- The session in which a driver has asked with a callback. -/
def asked
    (s : Session)
    (d k : Ref)
    (source : Option (Ref × Bool)) : Session :=
  s.withIncident (.awaits d k source)

theorem follows_asked
    (s : Session)
    (d k : Ref)
    (source : Option (Ref × Bool)) :
    H.Follows s (asked s d k source) :=
  { Follows.refl s with
    awaited := by
      simp only [Session.awaited, asked, withIncident,
        List.filterMap_cons, Incident.asked?]
      split
      · exact List.suffix_refl _
      · exact List.suffix_cons _ _ }

theorem awaited_asked
    (s : Session)
    (source : Option (Ref × Bool)) :
    (asked s H.driver k source).awaited H.driver =
      (k, source) :: s.awaited H.driver := by
  simp [Session.awaited, asked, withIncident, Incident.asked?]

/- A callback is asked with that was not asked with before. -/
structure Fresh
    (H : Stay)
    (s : Session)
    (k : Ref) : Prop where
  given : k < s.handedOut H.driver
  unasked : ∀ p ∈ s.awaited H.driver, p.1 ≠ k

/- Such a callback was never posted, and no one waits for it. -/
theorem Accounts.unposted
    (h : H.Accounts s)
    (hFresh : H.Fresh s k) :
    (H.context, some k) ∉ s.posted H.driver := by
  intro hPosted
  rcases h.posts _ hPosted with ⟨_, _, hSame, hAwaited, _⟩
  cases hSame
  exact hFresh.unasked _ hAwaited rfl

/- What is no matter of the asking stays in the books. -/
private theorem distinct_asked
    (h : H.Accounts s)
    (hFresh : H.Fresh s k)
    (source : Option (Ref × Bool)) :
    (((asked s H.driver k source).awaited H.driver).map
      Prod.fst).Nodup := by
  rw [awaited_asked]
  refine List.nodup_cons.mpr ⟨fun hMem => ?_, h.distinct⟩
  rcases List.mem_map.mp hMem with ⟨p, hp, hSame⟩
  exact hFresh.unasked p hp hSame

private theorem numbered_asked
    (h : H.Accounts s)
    (hFresh : H.Fresh s k)
    (source : Option (Ref × Bool)) :
    ∀ p ∈ (asked s H.driver k source).awaited H.driver,
      p.1 < s.handedOut H.driver := by
  rw [awaited_asked]
  rintro p (_ | ⟨_, hOld⟩)
  · exact hFresh.given
  · exact h.numbered p hOld

/- A driver that asks a pending future waits for it. -/
theorem moves_waits
    (hs : (Staying H spared shut).Sound s)
    (hFresh : H.Admits s → H.Fresh s k)
    (hf : f < s.futures.size)
    (hPending : s.outcome? f = none) :
    (Staying H spared shut).Moves s
      ((asked s H.driver k (some (f, true))).watched f
        (H.summons k)) := by
  have hAwaited : ((asked s H.driver k (some (f, true))).watched
      f (H.summons k)).awaited H.driver =
        (k, some (f, true)) :: s.awaited H.driver :=
    awaited_asked s _
  have hFollows : H.Follows s
      ((asked s H.driver k (some (f, true))).watched f
        (H.summons k)) :=
    { follows_asked s H.driver k (some (f, true)) with }
  have hOutcome : ∀ f', ((asked s H.driver k
      (some (f, true))).watched f (H.summons k)).outcome? f' =
        s.outcome? f' := fun f' => outcome?_watched f f' _
  refine moves_of hs hFollows (fun _ _ h => ⟨h, rfl⟩)
    (fun hAdmits h hStores => ?_) { hs.stocked with }
  have hNew := hFresh (hAdmits.before hFollows)
  have hOld : ∀ {p}, p ∈ s.awaited H.driver →
      p ∈ ((asked s H.driver k (some (f, true))).watched f
        (H.summons k)).awaited H.driver :=
    fun hp => hAwaited ▸ List.mem_cons_of_mem _ hp
  refine ⟨{ h with
    distinct := distinct_asked h hNew _
    numbered := numbered_asked h hNew _
    posts := fun p hp => ?_
    watcher := fun f' w hw => ?_
    apart := fun f' => ?_
    settled := fun f' hf' => ?_
    waits := fun k' f' hAsked hNone => ?_ }, { hStores with },
    ⟨?_, ?_⟩⟩
  · rcases h.posts p hp with ⟨k', f', rfl, hAsked, hSettled⟩
    exact ⟨k', f', rfl, hOld hAsked,
      (hOutcome f').symm ▸ hSettled⟩
  · rcases mem_watchers_watched hw with hThere | ⟨rfl, rfl, _⟩
    · exact (h.watcher f' w hThere).imp_right fun hRest =>
        hRest.imp_left fun ⟨k', hSame, hAsked⟩ =>
          ⟨k', hSame, hOld hAsked⟩
    · exact .inr (.inl ⟨k, rfl, hAwaited ▸ List.mem_cons_self⟩)
  · rw [watchers_watched]
    split
    · refine List.pairwise_append.mpr
        ⟨h.apart f', List.pairwise_singleton _ _, ?_⟩
      rintro w hw w' hw' k' rfl
      rw [List.mem_singleton.mp hw']
      intro hSame
      cases hSame
      exact hNew.unasked _ (h.awaited_of_summons hw) rfl
    · exact h.apart f'
  · rw [hOutcome] at hf'
    rw [watchers_watched, if_neg]
    · exact h.settled f' hf'
    · rintro ⟨rfl, _⟩
      rw [hPending] at hf'
      cases hf'
  · rw [hAwaited] at hAsked
    rcases hAsked with _ | ⟨_, hAsked⟩
    · rw [watchers_watched, if_pos ⟨rfl, hf⟩]
      exact List.mem_append_right _ List.mem_cons_self
    · rw [hOutcome] at hNone
      exact mem_watched_of_mem _ (h.waits k' f' hAsked hNone)
  · rintro k' ⟨f', hAsked, hSettled, hUnposted⟩
    rw [hOutcome] at hSettled
    rw [hAwaited] at hAsked
    rcases hAsked with _ | ⟨_, hAsked⟩
    · rw [hPending] at hSettled
      cases hSettled
    · exact ⟨f', hAsked, hSettled, hUnposted⟩
  · rintro k' _ ⟨f', hAsked, hSettled, hUnposted⟩
    exact ⟨f', hOld hAsked, (hOutcome f').symm ▸ hSettled,
      hUnposted⟩

/- A driver that asks a settled future is summoned at once. -/
theorem ensures_asksSettled
    (hAll : ∀ spared, (Staying H spared shut).Serves caller)
    (hs : (Staying H spared shut).Sound s)
    (hFresh : H.Admits s → H.Fresh s k)
    (hSettled : (s.outcome? f).isSome) :
    (caller.call (H.summons k) []).Ensures
      (asked s H.driver k (some (f, true))) fun _ s' =>
        (Staying H spared shut).Moves s s' := by
  have hFollows := follows_asked (H := H) s H.driver k
    (some (f, true))
  have hAwaited := awaited_asked (H := H) (k := k) s
    (some (f, true))
  have hOld : ∀ {p}, p ∈ s.awaited H.driver →
      p ∈ (asked s H.driver k (some (f, true))).awaited
        H.driver :=
    fun hp => hAwaited ▸ List.mem_cons_of_mem _ hp
  have hOwed : H.Admits (asked s H.driver k (some (f, true))) →
      ∀ k', H.Owed (asked s H.driver k (some (f, true))) k' ↔
        H.Owed s k' ∨ k' = k := by
    intro hAdmits k'
    have hBefore := hAdmits.before hFollows
    constructor
    · rintro ⟨f', hAsked, hKnown, hUnposted⟩
      rw [hAwaited] at hAsked
      rcases hAsked with _ | ⟨_, hAsked⟩
      · exact .inr rfl
      · exact .inl ⟨f', hAsked, hKnown, hUnposted⟩
    · rintro (⟨f', hAsked, hKnown, hUnposted⟩ | rfl)
      · exact ⟨f', hOld hAsked, hKnown, hUnposted⟩
      · exact ⟨f, hAwaited ▸ List.mem_cons_self, hSettled,
          (hs.inv hBefore).1.unposted (hFresh hBefore)⟩
  -- What is owed for the new callback is not spared.
  let spared' j := spared j ∧ j ≠ k
  have hSound : (Staying H spared' shut).Sound
      (asked s H.driver k (some (f, true))) := by
    refine ⟨fun hAdmits => ?_, Session.Stocked.mono
      { hs.stocked with } fun _ hFit hAdmits =>
        hFit (hAdmits.before hFollows)⟩
    have hBefore := hAdmits.before hFollows
    rcases hs.inv hBefore with ⟨h, hStores⟩
    refine ⟨{ h with
      distinct := distinct_asked h (hFresh hBefore) _
      numbered := numbered_asked h (hFresh hBefore) _
      posts := fun p hp => ?_
      watcher := fun f' w hw => ?_
      waits := fun k' f' hAsked hNone => ?_ },
      { hStores with }⟩
    · rcases h.posts p hp with ⟨k', f', rfl, hAsked, hKnown⟩
      exact ⟨k', f', rfl, hOld hAsked, hKnown⟩
    · exact (h.watcher f' w hw).imp_right fun hRest =>
        hRest.imp_left fun ⟨k', hSame, hAsked⟩ =>
          ⟨k', hSame, hOld hAsked⟩
    · rw [hAwaited] at hAsked
      rcases hAsked with _ | ⟨_, hAsked⟩
      · rw [show s.outcome? f = none from hNone] at hSettled
        cases hSettled
      · exact h.waits k' f' hAsked hNone
  refine Run.Ensures.mono (hAll spared' (H.summons k) [] _ hSound
    fun hAdmits => .inr (.inl ⟨k, rfl,
      (hOwed hAdmits k).mpr (.inr rfl), fun h => h.2 rfl⟩)) ?_
  rintro _ s' ⟨h', hPaid⟩
  refine moves_paying hFollows (fun _ _ h => ⟨h, rfl⟩) h' hOwed
    (fun hAdmits k' hSame => ?_) fun hAdmits k' hSame => ?_
  · subst hSame
    rintro ⟨f', hAsked, _, _⟩
    exact (hFresh (hAdmits.before hFollows)).unasked _ hAsked rfl
  · exact hPaid hAdmits k' (congrArg H.summons hSame.symm)

/- What others ask for is no matter. -/
theorem moves_asked
    (hs : (Staying H spared shut).Sound s)
    {source : Option (Ref × Bool)}
    (hOther : H.Admits (asked s d k source) → d ≠ H.driver) :
    (Staying H spared shut).Moves s (asked s d k source) := by
  have hSame : d ≠ H.driver → H.Same s (asked s d k source) :=
    fun hNe => { Same.refl s with
      awaited := by
        simp [Session.awaited, asked, withIncident,
          Incident.asked?, hNe] }
  exact moves_of hs (follows_asked s d k source)
    (fun _ _ h => ⟨h, rfl⟩)
    (fun hAdmits h hStores =>
      ⟨(hSame (hOther hAdmits)).accounts h, { hStores with },
        (hSame (hOther hAdmits)).repays⟩)
    { hs.stocked with }

/- An awaiter with a source reports on that future. -/
theorem source_eq_some
    {awaiter : Value}
    {captured : Bool}
    (h : s.source? awaiter = some (f, captured)) :
    ∃ r : Nat, awaiter = .awaiter r ∧
      s.awaiters.getD r default = .future f captured ∧
        f < s.futures.size := by
  unfold Session.source? at h
  split at h
  · next r =>
      split at h
      · next f' captured' hRow =>
          split at h
          · next hLt =>
              cases h
              exact ⟨r, rfl, hRow, hLt⟩
          · cases h
      · cases h
  · cases h

/- An awaiter is asked, and the past says so. -/
theorem ensures_asked
    (hAll : ∀ spared, (Staying H spared shut).Serves caller)
    (hs : (Staying H spared shut).Sound s)
    (hd : d < s.drivers.size)
    (hAmbient : H.Admits s → d = H.driver →
      s.ambient = H.context)
    (hFresh : H.Admits s → d = H.driver → H.Fresh s k)
    (awaiter : Value) :
    (Awaiter.register caller awaiter
      (.driverResume d k)).Ensures
        (asked s d k (s.source? awaiter)) fun _ s' =>
          (Staying H spared shut).Moves s s' := by
  by_cases hOwn :
      H.Admits (asked s d k (s.source? awaiter)) ∧ d = H.driver
  · rcases hOwn with ⟨hAdmits, rfl⟩
    have hBefore := hAdmits.before
      (follows_asked s H.driver k _)
    rcases hAdmits.defaults hd (k, s.source? awaiter)
      (awaited_asked (H := H) s _ ▸ List.mem_cons_self) with
      ⟨f, hSource⟩
    rcases source_eq_some hSource with ⟨r, rfl, hRow, hf⟩
    rw [show s.source? (.awaiter r) = some (f, true)
      from hSource]
    unfold Awaiter.register Awaiter.registerFuture
    refine Run.ensures_row_bind.mpr ?_
    rw [show (Table.awaiters.rows (asked s H.driver k
      (some (f, true)))).getD r default = .future f true
        from hRow]
    refine Run.ensures_get_bind.mpr ?_
    have hHere : (asked s H.driver k (some (f, true))).ambient =
        H.context := hAmbient hBefore rfl
    rw [hHere, H.truthy]
    refine Driving.ensures_watch (fun hSettled => ?_)
      fun hPending => ?_
    · exact ensures_asksSettled hAll hs
        (fun hAdmits => hFresh hAdmits rfl) hSettled
    · exact moves_waits hs (fun hAdmits => hFresh hAdmits rfl)
        hf hPending
  · have h₁ : (Staying H spared shut).Moves s
        (asked s d k (s.source? awaiter)) :=
      moves_asked hs fun hAdmits hSame => hOwn ⟨hAdmits, hSame⟩
    exact Keeps.of_moves h₁ ((hosts hAll).keeps_register
      (hAll _) h₁.sound awaiter
        fun hAdmits hSame => hOwn ⟨hAdmits, hSame⟩)

end Asking

------------------------------------------------------------
-- At Home
------------------------------------------------------------

/-
  A driver is at home: it is there, and if it is the driver of
  the stay, the context of the stay is ambient.
-/
structure AtHome
    (H : Stay)
    (s : Session)
    (d : Ref) : Prop where
  there : d < s.drivers.size
  ambient : H.Admits s → d = H.driver → s.ambient = H.context

theorem AtHome.onward
    (h : H.AtHome s d)
    (hFollows : H.Follows s s')
    (hAmbient : s'.ambient = s.ambient) :
    H.AtHome s' d where
  there := Nat.lt_of_lt_of_le h.there hFollows.drivers
  ambient hAdmits hSame :=
    hAmbient.trans (h.ambient (hAdmits.before hFollows) hSame)

/- The code of a task is entered by its driver, at home. -/
theorem AtHome.keeps_withTask
    {α : Type}
    {act : Run α}
    (hAt : H.AtHome s d)
    (hs : (Staying H spared shut).Sound s)
    (h : ∀ s', (Staying H spared shut).Moves s s' →
      (Staying H spared shut).Keeps act s') :
    (Staying H spared shut).Keeps
      (Run.withTask (s.taskOf d) act) s := by
  refine Run.Ensures.mono (ensures_withTask hs
    (fun hAdmits hSame => ?_)
    (fun _ hUndriven => hUndriven d hAt.there)
    (fun hAdmits hSame => ?_) h) fun _ _ h' => h'.1
  · refine Nat.lt_of_not_le fun hUnborn => ?_
    exact ((hs.inv hAdmits).1.unborn (hSame ▸ hUnborn)).2 d
      hAt.there hSame
  · have hFollows := follows_entering (H := H) (s.taskOf d) s
    exact hAt.ambient (hAdmits.before hFollows)
      (hAdmits.sole d hAt.there hSame)

section Driving

variable (hAll : ∀ spared,
  (Staying H spared shut).Serves caller)

include hAll

------------------------------------------------------------
-- Advancing
------------------------------------------------------------

/- A driver asks with a callback that it has just made. -/
theorem keeps_asks
    {k : Nat}
    (hs : (Staying H spared shut).Sound s)
    (hAt : H.AtHome s d)
    (hFresh : H.Admits s → d = H.driver → H.Fresh s k)
    (awaiter : Value) :
    (Staying H spared shut).Keeps (do
      Driver.note d (.asks (some k) (← Awaiter.keeper? awaiter))
      Run.chronicle (.awaits d k (← Awaiter.source? awaiter))
      match ← Run.attempt (Awaiter.register caller awaiter
        (.driverResume d k)) with
      | .ok _ => return ()
      | .error e =>
          Driver.note d (.unregistered e)
          Driver.fail caller d e : Run Unit) s := by
  have h₁ := moves_note hs (s.taskOf d)
    (.asks (some k) (s.keeper? awaiter))
  refine ensures_keeper_bind.mpr ?_
  unfold Driver.note Run.note
  rw [bind_assoc]
  refine Run.ensures_row_bind.mpr (Run.ensures_alter_bind.mpr ?_)
  refine ensures_source_bind.mpr (Run.ensures_modify_bind.mpr ?_)
  have hAsked := ensures_asked hAll h₁.sound hAt.there
    (fun hAdmits => hAt.ambient (hAdmits.before h₁.rel.1))
    (fun hAdmits hSame =>
      have hNew := hFresh (hAdmits.before h₁.rel.1) hSame
      ⟨hNew.given, hNew.unasked⟩) awaiter
  refine Run.Ensures.bind (Run.ensures_attempt.mpr
    (Run.Ensures.mono hAsked fun r s₂ h₂ => ?_))
  cases r with
  | ok _ => exact Run.ensures_pure.mpr (h₁.trans h₂)
  | error e =>
      have hD : (Staying H spared shut).Directs caller :=
        directs hAll
      exact Keeps.of_moves (h₁.trans h₂)
        ((hD.keeps_noteDriver h₂.sound d _).bind fun _ _ h₃ =>
          hD.keeps_finish h₃.sound d _)

theorem keeps_registerDriver
    (hs : (Staying H spared shut).Sound s)
    (hAt : H.AtHome s d)
    (awaiter : Value) :
    (Staying H spared shut).Keeps
      (Driver.register caller d awaiter) s := by
  unfold Driver.register
  refine Run.ensures_row_bind.mpr (Run.ensures_alter_bind.mpr ?_)
  have h₁ := moves_alterDriver hs d
    (g := fun c => { c with fired := c.fired.push false })
    (fun _ => rfl) (fun _ => by simp)
  refine Keeps.of_moves h₁ (keeps_asks hAll h₁.sound
    (hAt.onward h₁.rel.1 rfl)
    (fun hAdmits hSame => ⟨?_, fun p hp => ?_⟩) awaiter)
  · subst hSame
    rw [handedOut, getD_modify, if_pos ⟨rfl, hAt.there⟩,
      Array.size_push]
    exact Nat.lt_succ_self _
  · have hOld := (hs.inv (hAdmits.before h₁.rel.1)).1.numbered
      p hp
    rw [← hSame] at hOld
    exact Nat.ne_of_lt hOld

/- Drivers advance at home. -/
theorem advances
    (hClear : Veil.clear.Serves caller caller) :
    (Staying H spared shut).Advances H.AtHome caller where
  toDirects := directs hAll
  clear := hClear
  stays hAt h hAmbient := hAt.onward h.rel.1 hAmbient
  entered hs hAt h := hAt.keeps_withTask hs h
  handOff v hs hAt := keeps_handOff hAll hs hAt.there v
  register awaiter hs hAt :=
    keeps_registerDriver hAll hs hAt awaiter

/-
  The driver of the stay is called back with its context
  ambient, or with a failure.
-/
theorem keeps_resumeDriver
    (hClear : Veil.clear.Serves caller caller)
    (hs : (Staying H spared shut).Sound s)
    {failure : Value}
    (hCalled : H.Admits s → d = H.driver →
      s.ambient = H.context ∨ failure.truthy = true)
    (k : Ref) :
    (Staying H spared shut).Keeps
      (Driver.resume caller d k failure) s := by
  refine (advances hAll hClear).keeps_resume hs
    (fun hd hPlain => ⟨hd, fun hAdmits hSame => ?_⟩) k
  refine (hCalled hAdmits hSame).resolve_right ?_
  rw [hPlain]
  exact Bool.false_ne_true

end Driving

end Stay

end Resumption

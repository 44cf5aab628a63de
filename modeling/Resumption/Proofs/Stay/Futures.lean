import Mathlib.Data.List.Nodup
import Resumption.Proofs.Stay.Tables
import Resumption.Proofs.Task.Notices

/-
  Futures in the world of a stay.  When a future settles, the
  driver is summoned once for each callback that waited for
  it, and posts that to its context.

  Main declarations:
    * `Stay.ensures_notify`
    * `Stay.keeps_settle`, `Stay.keeps_watch`
    * `Stay.ensures_summons`, `Stay.keeps_enterPosted`
    * `Stay.hosts`
-/

namespace Resumption

namespace Stay

open Session World

variable {H : Stay}
variable {s s' : Session}
variable {spared spared' : Ref → Prop}
variable {shut shut' : Prop}
variable {caller : Caller}

------------------------------------------------------------
-- Sparing More and Less
------------------------------------------------------------

/- What may be spared and shut is no matter of a session. -/
theorem sound_of
    (hs : (Staying H spared shut).Sound s) :
    (Staying H spared' shut').Sound s :=
  ⟨hs.inv, hs.stocked⟩

/- Who spares more spares less too. -/
theorem moves_sparing
    (h : (Staying H spared' shut).Moves s s')
    (hLess : ∀ k, spared k → spared' k) :
    (Staying H spared shut).Moves s s' :=
  ⟨sound_of h.sound, h.rel.1, h.rel.2.1, fun hAdmits =>
    { repaid := (h.rel.2.2 hAdmits).repaid
      spared := fun k hk =>
        (h.rel.2.2 hAdmits).spared k (hLess k hk) }⟩

/- What moves while the task is shut may move anyway. -/
theorem moves_open
    (h : (Staying H spared True).Moves s s') :
    (Staying H spared shut).Moves s s' :=
  ⟨sound_of h.sound, h.rel.1, fun _ => h.rel.2.1 trivial,
    h.rel.2.2⟩

/- A task that was not there yet cannot have been shut. -/
theorem moves_shut
    (h : (Staying H spared False).Moves s s')
    (hUnborn : s.tasks.size ≤ H.task) :
    (Staying H spared shut).Moves s s' :=
  ⟨sound_of h.sound, h.rel.1,
    fun _ hBorn => absurd hBorn (Nat.not_lt.mpr hUnborn),
    h.rel.2.2⟩

/-
  What comes to be owed, and is paid before anything else
  goes on, has not been owed at all.
-/
theorem moves_paying
    {s₁ : Session}
    {new : Ref → Prop}
    (hFollows : H.Follows s s₁)
    (hShuts : H.Shuts shut s s₁)
    (h : (Staying H (fun k => spared k ∧ ¬ new k) shut).Moves
      s₁ s')
    (hOwed : H.Admits s₁ → ∀ k,
      H.Owed s₁ k ↔ H.Owed s k ∨ new k)
    (hNew : H.Admits s₁ → ∀ k, new k → ¬ H.Owed s k)
    (hPaid : H.Admits s' → ∀ k, new k → ¬ H.Owed s' k) :
    (Staying H spared shut).Moves s s' := by
  refine ⟨sound_of h.sound, hFollows.trans h.rel.1,
    hShuts.trans h.rel.2.1 hFollows.tasks, fun hAdmits => ?_⟩
  have hBefore := hAdmits.before h.rel.1
  have hRepays := h.rel.2.2 hAdmits
  refine ⟨fun k hk => ?_, fun k hSpared hk => ?_⟩
  · rcases (hOwed hBefore k).mp (hRepays.repaid k hk) with
      hOld | hNewly
    · exact hOld
    · exact absurd hk (hPaid hAdmits k hNewly)
  · exact hRepays.spared k
      ⟨hSpared, fun hNewly => hNew hBefore k hNewly hk⟩
      ((hOwed hBefore k).mpr (.inl hk))

/- A callback asks one future only. -/
theorem Accounts.unique
    (h : H.Accounts s)
    {k : Ref}
    {a b : Option (Ref × Bool)}
    (ha : (k, a) ∈ s.awaited H.driver)
    (hb : (k, b) ∈ s.awaited H.driver) :
    a = b :=
  congrArg Prod.snd
    (List.inj_on_of_nodup_map h.distinct ha hb rfl)

/- A summons waits for what was asked with its callback. -/
theorem Accounts.awaited_of_summons
    (h : H.Accounts s)
    {k f : Ref}
    (hw : H.summons k ∈ s.watchers f) :
    (k, some (f, true)) ∈ s.awaited H.driver := by
  rcases h.watcher f _ hw with
    hFit | ⟨k', hSame, hAwaited⟩ | ⟨_, hOther⟩
  · exact absurd rfl hFit
  · cases hSame
    exact hAwaited
  · cases hOther

------------------------------------------------------------
-- Notifying
------------------------------------------------------------

/- A closure that may be called by whoever settled a future. -/
def Due
    (H : Stay)
    (spared : Ref → Prop)
    (s : Session)
    (w : Closure) : Prop :=
  H.Fits w ∨
    (∃ k, w = H.summons k ∧ H.Owed s k ∧ ¬ spared k) ∨
    ∃ awaiter, w = .driverOutcome H.driver awaiter

theorem Due.calls
    {w : Closure}
    (h : H.Admits s → H.Due spared s w) :
    (Staying H spared shut).calls s w [] :=
  fun hAdmits => (h hAdmits).imp_right fun hDue =>
    hDue.imp_right .inr

/- Whoever the driver is, and whatever it is owed, may be. -/
theorem ensures_notify
    {ws : List Closure}
    (hAll : ∀ spared, (Staying H spared shut).Serves caller)
    (hs : (Staying H spared shut).Sound s)
    (hDue : H.Admits s → ∀ w ∈ ws, H.Due spared s w)
    (hApart : H.Admits s → ws.Pairwise fun w w' =>
      ∀ k, w = H.summons k → w' ≠ H.summons k)
    (failure : Option Value) :
    (Future.notify caller ws failure).Ensures s fun _ s' =>
      (Staying H spared shut).Moves s s' ∧
        (H.Admits s' → ∀ k, H.summons k ∈ ws →
          ¬ H.Owed s' k) := by
  induction ws generalizing s failure with
  | nil => exact Run.ensures_pure.mpr ⟨.refl hs, by simp⟩
  | cons w ws ih =>
      unfold Future.notify
      -- What the others are owed is spared meanwhile.
      let spared' k := spared k ∨ H.summons k ∈ ws
      have hCalls : (Staying H spared' shut).calls s w [] := by
        refine Due.calls fun hAdmits => ?_
        rcases hDue hAdmits w List.mem_cons_self with
          hFit | ⟨k, rfl, hOwed, hFree⟩ | hOther
        · exact .inl hFit
        · refine .inr (.inl ⟨k, rfl, hOwed, ?_⟩)
          rintro (hSpared | hLater)
          · exact hFree hSpared
          · exact (List.pairwise_cons.mp (hApart hAdmits)).1 _
              hLater k rfl rfl
        · exact .inr (.inr hOther)
      refine Run.Ensures.bind (Run.ensures_attempt.mpr
        (Run.Ensures.mono (hAll spared' w [] s (sound_of hs)
          hCalls) ?_))
      rintro r s₁ ⟨hMoves, hAfter⟩
      have h₁ : (Staying H spared shut).Moves s s₁ :=
        moves_sparing hMoves fun _ => .inl
      have hBefore : H.Admits s₁ → H.Admits s :=
        fun hAdmits => hAdmits.before h₁.rel.1
      have hDue₁ : H.Admits s₁ → ∀ w ∈ ws, H.Due spared s₁ w :=
        fun hAdmits w' hw' =>
          (hDue (hBefore hAdmits) w'
            (List.mem_cons_of_mem w hw')).imp_right
            fun hRest => hRest.imp_left fun hOwing => by
              rcases hOwing with ⟨k, hSame, hOwed, hFree⟩
              exact ⟨k, hSame, (hMoves.rel.2.2 hAdmits).spared k
                (.inr (hSame ▸ hw')) hOwed, hFree⟩
      have hApart₁ := fun hAdmits : H.Admits s₁ =>
        (List.pairwise_cons.mp (hApart (hBefore hAdmits))).2
      have hNext : ∀ failure',
          (Future.notify caller ws failure').Ensures s₁
            fun _ s' => (Staying H spared shut).Moves s s' ∧
              (H.Admits s' → ∀ k, H.summons k ∈ w :: ws →
                ¬ H.Owed s' k) := by
        intro failure'
        refine Run.Ensures.mono
          (ih h₁.sound hDue₁ hApart₁ failure') ?_
        rintro _ s₂ ⟨h₂, hPaid⟩
        refine ⟨h₁.trans h₂, fun hAdmits k hk => ?_⟩
        rcases List.mem_cons.mp hk with hHere | hLater
        · exact fun hOwed => hAfter (hAdmits.before h₂.rel.1)
            k hHere.symm ((h₂.rel.2.2 hAdmits).repaid k hOwed)
        · exact hPaid hAdmits k hLater
      cases r with
      | ok v => exact hNext failure
      | error e => exact hNext (failure <|> some e)

------------------------------------------------------------
-- Settling
------------------------------------------------------------

section Settling

variable {f : Ref}

/- The books are kept when a future settles. -/
private theorem accounts_settledAt
    (h : H.Accounts s)
    (id : Stamp)
    (outcome : Outcome) :
    H.Accounts (s.settledAt f id outcome) where
  entered := h.entered
  unborn := h.unborn
  distinct := h.distinct
  numbered := h.numbered
  posts p hp := by
    rcases h.posts p hp with ⟨k, f', rfl, hAwaited, hSettled⟩
    refine ⟨k, f', rfl, hAwaited, ?_⟩
    rw [outcome?_settledAt]
    split
    · rfl
    · exact hSettled
  once := h.once
  watcher f' w hw := by
    rw [watchers_settledAt] at hw
    split at hw
    · cases hw
    · exact h.watcher f' w hw
  apart f' := by
    rw [watchers_settledAt]
    split
    · exact .nil
    · exact h.apart f'
  settled f' hf' := by
    rw [outcome?_settledAt] at hf'
    rw [watchers_settledAt]
    split
    · rfl
    · next hNot =>
        rw [if_neg hNot] at hf'
        exact h.settled f' hf'
  waits k f' hAwaited hNone := by
    rw [outcome?_settledAt] at hNone
    rw [watchers_settledAt]
    split
    · next hHere =>
        rw [if_pos hHere] at hNone
        cases hNone
    · next hNot =>
        rw [if_neg hNot] at hNone
        exact h.waits k f' hAwaited hNone

/- It comes to owe the driver the callbacks that waited for it. -/
private theorem owed_settledAt
    (h : H.Accounts s)
    (hPending : s.outcome? f = none)
    (id : Stamp)
    (outcome : Outcome)
    (k : Ref) :
    H.Owed (s.settledAt f id outcome) k ↔
      H.Owed s k ∨ H.summons k ∈ s.watchers f := by
  constructor
  · rintro ⟨f', hAwaited, hSettled, hUnposted⟩
    rw [outcome?_settledAt] at hSettled
    split at hSettled
    · next hHere =>
        obtain ⟨rfl, _⟩ := hHere
        exact .inr (h.waits k f hAwaited hPending)
    · exact .inl ⟨f', hAwaited, hSettled, hUnposted⟩
  · rintro (⟨f', hAwaited, hSettled, hUnposted⟩ | hWaits)
    · refine ⟨f', hAwaited, ?_, hUnposted⟩
      rw [outcome?_settledAt]
      split
      · rfl
      · exact hSettled
    · have hAwaited := h.awaited_of_summons hWaits
      refine ⟨f, hAwaited, ?_, fun hPosted => ?_⟩
      · rw [outcome?_settledAt,
          if_pos ⟨rfl, h.lt_of_awaited hAwaited⟩]
        rfl
      · rcases h.posts _ hPosted with
          ⟨k', f', hSame, hAwaited', hSettled⟩
        cases hSame
        cases h.unique hAwaited hAwaited'
        rw [hPending] at hSettled
        cases hSettled

/- What is owed already is not waited for. -/
private theorem not_owed_of_waits
    (h : H.Accounts s)
    (hPending : s.outcome? f = none)
    {k : Ref}
    (hWaits : H.summons k ∈ s.watchers f) :
    ¬ H.Owed s k := by
  rintro ⟨f', hAwaited, hSettled, _⟩
  cases h.unique hAwaited (h.awaited_of_summons hWaits)
  rw [hPending] at hSettled
  cases hSettled

/- Telling all who waited for a future pays what it owes. -/
private theorem ensures_settledAt
    (hAll : ∀ spared, (Staying H spared shut).Serves caller)
    (hs : (Staying H spared shut).Sound s)
    (hPending : s.outcome? f = none)
    (id : Stamp)
    (outcome : Outcome) :
    (Future.notify caller (s.watchers f) none).Ensures
      (s.settledAt f id outcome) fun _ s' =>
        (Staying H spared shut).Moves s s' := by
  have hFollows : H.Follows s (s.settledAt f id outcome) :=
    { Follows.refl s with }
  have hBooks : H.Admits (s.settledAt f id outcome) →
      H.Accounts s := fun hAdmits =>
    (hs.inv (hAdmits.before hFollows)).1
  have hOwed := fun hAdmits =>
    owed_settledAt (hBooks hAdmits) hPending id outcome
  have hSettled : (Staying H spared shut).Sound
      (s.settledAt f id outcome) := by
    refine ⟨fun hAdmits => ⟨accounts_settledAt
      (hBooks hAdmits) id outcome, ?_⟩,
      Session.Stocked.mono { hs.stocked with }
        fun _ hFit hAdmits => hFit (hAdmits.before hFollows)⟩
    exact { (hs.inv (hAdmits.before hFollows)).2 with }
  -- What is spared was owed before, and waits for no future.
  let spared' k := spared k ∧ H.summons k ∉ s.watchers f
  have hSound : (Staying H spared' shut).Sound
      (s.settledAt f id outcome) := sound_of hSettled
  refine Run.Ensures.mono (ensures_notify hAll hSound
    (fun hAdmits w hw => ?_)
    (fun hAdmits => (hBooks hAdmits).apart f) none) ?_
  · rcases (hBooks hAdmits).watcher f w hw with
      hFit | ⟨k, rfl, hAwaited⟩ | hOther
    · exact .inl hFit
    · exact .inr (.inl ⟨k, rfl, (hOwed hAdmits k).mpr (.inr hw),
        fun hSpared => hSpared.2 hw⟩)
    · exact .inr (.inr hOther)
  · rintro _ s' ⟨h', hPaid⟩
    exact moves_paying hFollows (fun _ _ h => ⟨h, rfl⟩) h' hOwed
      (fun hAdmits _ =>
        not_owed_of_waits (hBooks hAdmits) hPending) hPaid

end Settling

/- Settling a future pays what it comes to owe. -/
theorem keeps_settle
    (hAll : ∀ spared, (Staying H spared shut).Serves caller)
    (hs : (Staying H spared shut).Sound s)
    (f : Ref)
    (outcome : Outcome) :
    (Staying H spared shut).Keeps
      (Future.settle caller f outcome) s := by
  cases hPending : s.outcome? f with
  | some o =>
      exact Driving.ensures_settle_of_settled
        (by rw [hPending]; rfl) (.refl hs)
  | none =>
      have h₁ := keeps_freshStamp hs _ _ rfl
      refine Driving.ensures_settle hPending (Run.Ensures.mono
        (ensures_settledAt hAll h₁.sound hPending s.stamp
          outcome) fun r s' h₂ => ?_)
      match r with
      | .ok none => exact h₁.trans h₂
      | .ok (some e) => exact h₁.trans h₂
      | .error e => exact h₁.trans h₂

/-
  A future may be watched by what may be kept, and by what is
  to read how a hand-off ends.
-/
theorem keeps_watch
    (hc : (Staying H spared shut).Serves caller)
    (hs : (Staying H spared shut).Sound s)
    {f : Ref}
    {w : Closure}
    (hWatcher : H.Admits s →
      H.Fits w ∨ ∃ awaiter, w = .driverOutcome H.driver awaiter) :
    (Staying H spared shut).Keeps
      (Future.watch caller f w) s :=
  Driving.ensures_watch
    (fun _ => hc.keeps hs fun hAdmits =>
      (hWatcher hAdmits).imp_right fun h => .inr (.inr h))
    fun hPending => moves_watched hs hPending hWatcher

------------------------------------------------------------
-- Posting
------------------------------------------------------------

/- To post a callback pays what is owed for it. -/
private theorem moves_pays
    (hs : (Staying H spared shut).Sound s)
    {k : Ref}
    (hOwed : H.Admits s → H.Owed s k)
    (hFree : ¬ spared k) :
    (Staying H spared shut).Moves s
      (s.withIncident (.posts H.context (H.callback k))) := by
  have hPosted :
      (s.withIncident (.posts H.context
        (H.callback k))).posted H.driver =
          (H.context, some k) :: s.posted H.driver := by
    simp [posted, withIncident, Incident.posted?, callback,
      Closure.callback?]
  have hFollows :=
    follows_posts (H := H) s H.context (H.callback k)
  refine moves_of hs hFollows (fun _ _ h => ⟨h, rfl⟩)
    (fun hAdmits h hStores => ?_) { hs.stocked with }
  rcases hOwed (hAdmits.before hFollows) with
    ⟨f, hAwaited, hSettled, hUnposted⟩
  refine ⟨{ h with posts := ?_, once := ?_ },
    { hStores with }, ⟨?_, ?_⟩⟩
  · rw [hPosted]
    rintro p (_ | ⟨_, hOld⟩)
    · exact ⟨k, f, rfl, hAwaited, hSettled⟩
    · exact h.posts p hOld
  · rw [hPosted]
    exact List.nodup_cons.mpr ⟨hUnposted, h.once⟩
  · rintro k' ⟨f', hAwaited', hSettled', hUnposted'⟩
    rw [hPosted] at hUnposted'
    exact ⟨f', hAwaited', hSettled',
      fun hOld => hUnposted' (List.mem_cons_of_mem _ hOld)⟩
  · rintro k' hSpared ⟨f', hAwaited', hSettled', hUnposted'⟩
    refine ⟨f', hAwaited', hSettled', ?_⟩
    rw [hPosted]
    rintro (_ | ⟨_, hOld⟩)
    · exact hFree hSpared
    · exact hUnposted' hOld

/- A driver that is summoned is called back on its context. -/
theorem ensures_summons
    (hc : (Staying H spared shut).Serves caller)
    (hs : (Staying H spared shut).Sound s)
    {k : Ref}
    (hOwed : H.Admits s → H.Owed s k)
    (hFree : ¬ spared k) :
    (Context.resume caller H.context (H.callback k)).Ensures s
      fun _ s' => (Staying H spared shut).Moves s s' ∧
        (H.Admits s' → ¬ H.Owed s' k) := by
  have hPays : ∀ s₁,
      (Staying H spared shut).Moves s s₁ →
      s.kernel = s₁.kernel →
      (Staying H spared shut).Moves s₁
        (s₁.withIncident (.posts H.context
          (H.callback k))) := by
    intro s₁ h₁ hKernel
    refine moves_pays h₁.sound (fun hAdmits => ?_) hFree
    exact ((Same.of_kernel hKernel).owed_iff k).mpr
      (hOwed (hAdmits.before h₁.rel.1))
  refine Run.Ensures.mono (ensures_resume hc hs H.context hPays
    (fun _ _ _ _ => .inr ⟨rfl, k, rfl⟩)
    (fun _ _ _ _ _ => .inr (.inr (.inl ⟨k, rfl, .inr rfl⟩)))) ?_
  rintro _ s' ⟨s₁, h₁, hKernel, h'⟩
  refine ⟨(h₁.trans (hPays s₁ h₁ hKernel)).trans h',
    fun hAdmits hLeft => ?_⟩
  rcases (h'.rel.2.2 hAdmits).repaid k hLeft with
    ⟨_, _, _, hUnposted⟩
  refine hUnposted ?_
  simp [posted, withIncident, Incident.posted?, callback,
    Closure.callback?]

/- Whatever was posted runs with its context ambient. -/
theorem keeps_enterPosted
    (hc : (Staying H spared shut).Serves caller)
    (hs : (Staying H spared shut).Sound s)
    {entered : Ref}
    {context : Value}
    {callback : Closure}
    (hFit : (Staying H spared shut).fit s
      (.posted entered context callback)) :
    (Staying H spared shut).Keeps
      (Context.enter caller entered context callback) s := by
  unfold Context.enter
  refine (keeps_setLatch hs entered).bind fun _ s₁ h₁ => ?_
  refine Keeps.bind (Keeps.elsewhere h₁.sound
    fun s₂ h₂ hAmbient => hc.keeps h₂.sound
      fun hAdmits => ?_).discard
    fun _ s₃ h₃ => keeps_pure.mpr (.refl h₃.sound)
  rcases (h₁.trans h₂).fit hFit hAdmits with
    hStill | ⟨rfl, k, rfl⟩
  · exact .inl hStill
  · exact .inr (.inr (.inl ⟨k, rfl, .inl hAmbient⟩))

------------------------------------------------------------
-- Hosting Futures
------------------------------------------------------------

/- The world of a stay hosts futures. -/
theorem hosts
    (hAll : ∀ spared, (Staying H spared shut).Serves caller) :
    (Staying H spared shut).Hosts caller where
  newFuture settlement hs := moves_newFuture settlement hs
  newFuture_loose _ _ := trivial
  setPromise f p hs := moves_setPromise f p hs
  newAwaiter hs hFit := moves_newAwaiter hs hFit
  newDeferred hs _ :=
    Same.moves { Same.refl _ with } hs (fun _ h => { h with })
      { hs.stocked with }
  newControlled _ hs _ :=
    Same.moves { Same.refl _ with } hs (fun _ h => { h with })
      { hs.stocked with }
  countControlled _ _ hs _ :=
    Same.moves { Same.refl _ with } hs (fun _ h => { h with })
      { hs.stocked with }
  deferred_loose _ _ := trivial
  controlled_loose _ _ := trivial
  settle outcome hs _ := keeps_settle hAll hs _ outcome
  watch hs hFit := keeps_watch (hAll _) hs fun hAdmits =>
    .inl (hFit hAdmits)

end Stay

end Resumption

import Resumption.Proofs.Task.Tables

/-
  Futures are settled in the world of tasks: those who watch
  are told one after the other, and the tasks of drivers
  among them are held until it is their turn.

  Main declarations:
    * `Notices`
    * `Driving.ensures_notify`
    * `Driving.ensures_settle`, `Driving.keeps_settle`
    * `Driving.hosts`
-/

namespace Resumption

open Session World

------------------------------------------------------------
-- Notices
------------------------------------------------------------

/-
  Those who are to be told of a settlement, and the tasks of
  the drivers among them.
-/
inductive Notices
    (held excused : List Ref)
    (s : Session) : List Closure → List Ref → Prop where
  | nil : Notices held excused s [] []
  | other
      {w ws ts}
      (h : s.Harmless w)
      (hRest : Notices held excused s ws ts) :
      Notices held excused s (w :: ws) ts
  | pledge
      {w ws t ts}
      (h : s.Due t w)
      (hFree : t ∉ ts ++ held)
      (hPlaced : Placed (t ∈ excused) s t)
      (hMinds : Minds (t ∈ excused) s t)
      (hRest : Notices held excused s ws ts) :
      Notices held excused s (w :: ws) (t :: ts)

section Notices

variable {held excused : List Ref}
variable {s s' : Session}
variable {ws : List Closure}
variable {ts : List Ref}

/- Notices stay good while their tasks are left alone. -/
theorem Notices.unmoved
    (h : Notices held excused s ws ts)
    (hExtends : s.Extends s')
    (hUnmoved : ∀ t ∈ ts, s.Unmoved t s') :
    Notices held excused s' ws ts := by
  induction h with
  | nil => exact .nil
  | other hHarmless _ ih =>
      exact .other (hExtends.harmless hHarmless) (ih hUnmoved)
  | @pledge w ws t ts hDue hFree hPlaced hMinds _ ih =>
      have hHead := hUnmoved t List.mem_cons_self
      exact .pledge (hDue.unmoved hHead hExtends) hFree
        (hPlaced.unmoved hHead hExtends) (hMinds.unmoved hHead)
        (ih fun t' ht' =>
          hUnmoved t' (List.mem_cons_of_mem t ht'))

/-
  All have been told: every driver among them has gone on,
  and in a network nothing was thrown.
-/
structure Told
    (held excused : List Ref)
    (s : Session)
    (ws : List Closure)
    (ts : List Ref)
    (failure : Option Value)
    (r : Except Value (Option Value))
    (s' : Session) : Prop where
  moves : (Driving held excused).Moves s s'
  turns : ∀ t ∈ ts, s.turns t < s'.turns t
  quiet : (∀ w ∈ ws, w.IsNative) → s'.Network →
    r = .ok failure

namespace Driving

variable {caller : Caller}

/- Telling all who are to be told keeps the world. -/
theorem ensures_notify
    (hAll : ∀ held, (Driving held excused).Serves caller)
    (hs : (Driving (ts ++ held) excused).Sound s)
    (h : Notices held excused s ws ts)
    (failure : Option Value) :
    (Future.notify caller ws failure).Ensures s
      (Told held excused s ws ts failure) := by
  induction ws generalizing s ts failure with
  | nil =>
      cases h
      exact Run.ensures_pure.mpr ⟨.refl hs, by simp,
        fun _ _ => rfl⟩
  | cons w ws ih =>
      unfold Future.notify
      -- Whoever is told, the others are held meanwhile.
      have hTold : ∃ ts',
          Notices held excused s ws ts' ∧
          (Driving (ts' ++ held) excused).Sound s ∧
          (Driving (ts' ++ held) excused).calls s w [] ∧
          ∀ t ∈ ts, t ∈ ts' ∨
            t ∉ ts' ++ held ∧ s.Due t w := by
        cases h with
        | other hHarmless hRest =>
            exact ⟨ts, hRest, hs, .inl hHarmless,
              fun t ht => .inl ht⟩
        | @pledge _ _ t ts' hDue hFree hPlaced hMinds hRest =>
            refine ⟨ts', hRest,
              ⟨Standing.rest hs.inv hPlaced hMinds,
                hs.stocked⟩, .inr ⟨t, hFree, hDue⟩, ?_⟩
            intro t' ht'
            rcases List.mem_cons.mp ht' with rfl | hLater
            · exact .inr ⟨hFree, hDue⟩
            · exact .inl hLater
      rcases hTold with ⟨ts', hRest, hs', hCalls, hTurns⟩
      have hCall := hAll (ts' ++ held) w [] s hs' hCalls
      refine Run.Ensures.bind (Run.ensures_attempt.mpr
        (Run.Ensures.mono hCall ?_))
      rintro r s₁ ⟨h₁, hAfter⟩
      have hLeaves : Passes held s s₁ :=
        ⟨⟨h₁.rel.extends_, fun t ht =>
          h₁.rel.unmoved t (List.mem_append_right ts' ht),
          h₁.rel.outputs⟩, h₁.rel.spares⟩
      have hRest₁ := hRest.unmoved h₁.rel.extends_
        fun t ht => h₁.rel.unmoved t
          (List.mem_append_left held ht)
      have hNext : ∀ failure',
          (w.IsNative → s₁.Network → failure' = failure) →
          (Future.notify caller ws failure').Ensures s₁
            (Told held excused s (w :: ws) ts failure) := by
        intro failure' hQuiet
        refine Run.Ensures.mono
          (ih h₁.sound hRest₁ failure') ?_
        intro r s₂ h₂
        refine ⟨⟨h₂.moves.sound, hLeaves.trans h₂.moves.rel⟩,
          fun t ht => ?_, fun hNative hNetwork => ?_⟩
        · rcases hTurns t ht with hLater | ⟨hFree, hDue⟩
          · exact Nat.lt_of_le_of_lt (h₁.rel.extends_.turns t)
              (h₂.turns t hLater)
          · exact Nat.lt_of_lt_of_le
              ((hAfter rfl).1 t hFree hDue)
              (h₂.moves.rel.extends_.turns t)
        · rw [← hQuiet (hNative w List.mem_cons_self)
            (h₂.moves.rel.extends_.network hNetwork)]
          exact h₂.quiet (fun w' hw' =>
            hNative w' (List.mem_cons_of_mem w hw')) hNetwork
      cases r with
      | ok v => exact hNext failure fun _ _ => rfl
      | error e =>
          refine hNext (failure <|> some e) ?_
          intro hNative hNetwork
          exact absurd hNetwork ((hAfter rfl).2 hNative e rfl)

end Driving

end Notices

------------------------------------------------------------
-- Who Is to Be Told
------------------------------------------------------------

/- A driver is told of one thing in a phase. -/
theorem Phase.Pledges.unique
    {p : Phase}
    {e e' : Errand}
    (h : p.Pledges e)
    (h' : p.Pledges e') :
    e = e' :=
  Option.some.inj (h.symm.trans h')

section Watchers

variable {held excused : List Ref}
variable {s s' : Session}
variable {t d : Ref}
variable {cell : DriverCell}
variable {c : Closure}

/- What is due is how a driver is told that waits no more. -/
theorem Session.Due.tokens
    (h : s.Due t c) :
    ∃ d cell p e, s.Drives t d cell ∧ Course (s.story t) p ∧
      p.Pledges e ∧ ¬ s.Pledged d e ∧ ¬ s.Stray d ∧
        s.Tokens d e c := by
  cases h with
  | @resume d k cell l id hDrives hPledged hLeft hIdle
      hCourse =>
      refine ⟨d, cell, _, .resume, hDrives, hCourse, rfl,
        hPledged, fun hStray => ?_, k, rfl, hIdle⟩
      cases hCourse.wild_iff.mpr (hDrives.stray_iff.mp hStray)
  | @conclude d a f cell p hDrives hPledged hSteady _ _
      hCourse hPledges =>
      exact ⟨d, cell, p, .conclude, hDrives, hCourse, hPledges,
        hPledged, hSteady, ⟨_, rfl⟩, hSteady⟩

/- A closure tells one driver. -/
theorem Session.Tokens.unique
    {d' : Ref}
    {e e' : Errand}
    (h : s.Tokens d e c)
    (h' : s.Tokens d' e' c) :
    d = d' ∧ e = e' := by
  cases e with
  | resume =>
      rcases h with ⟨callback, rfl, _⟩
      cases e' with
      | resume =>
          rcases h' with ⟨_, hSame, _⟩
          cases hSame
          exact ⟨rfl, rfl⟩
      | conclude =>
          rcases h' with ⟨⟨_, hSame⟩, _⟩
          cases hSame
  | conclude =>
      rcases h with ⟨⟨awaiter, rfl⟩, _⟩
      cases e' with
      | resume =>
          rcases h' with ⟨_, hSame, _⟩
          cases hSame
      | conclude =>
          rcases h' with ⟨⟨_, hSame⟩, _⟩
          cases hSame
          exact ⟨rfl, rfl⟩

/- A driver has one cell, and drives one task. -/
theorem Session.Drives.unique
    {t' : Ref}
    {cell' : DriverCell}
    (h : s.Drives t d cell)
    (h' : s.Drives t' d cell') :
    t = t' ∧ cell = cell' := by
  have hCell := Option.some.inj (h.1.symm.trans h'.1)
  subst hCell
  exact ⟨h.2.symm.trans h'.2, rfl⟩

/- What is due to a driver is due to its task alone. -/
theorem Session.Due.task
    {e : Errand}
    (h : s.Due t c)
    {t' : Ref}
    (hDrives : s.Drives t' d cell)
    (hToken : s.Tokens d e c) :
    t' = t := by
  rcases h.tokens with
    ⟨d', cell', _, _, hDrives', _, _, _, _, hToken'⟩
  obtain ⟨rfl, _⟩ := hToken.unique hToken'
  exact (hDrives.unique hDrives').1

/- A task whose driver can be told of an outcome can be held. -/
theorem Session.Due.isHeld
    (h : s.Due t c)
    (hSane : Sane s)
    (hPlaced : Placed (t ∈ excused) s t) :
    Held s t := by
  rcases h.tokens with ⟨d, cell, p, e, hDrives, hCourse,
    hPledges, hPledged, hSteady, _⟩
  refine ⟨hSane.owner t d cell hDrives, fun d' cell' h' => ?_⟩
  obtain rfl := hSane.sole t d d' cell cell' hDrives h'
  obtain ⟨_, rfl⟩ := hDrives.unique h'
  rcases hPlaced with ⟨q, hRests, hCourse', hSeated⟩
  obtain rfl := hCourse.det hCourse'
  rcases hSeated with ⟨hNone, _⟩ |
    ⟨d', cell', h'', _, hSuits, hOnly⟩
  · exact absurd hDrives (hNone d cell)
  · obtain rfl := hSane.sole t d d' cell cell' hDrives h''
    obtain ⟨_, rfl⟩ := hDrives.unique h''
    refine ⟨?_, fun e' hp => ?_, hSteady⟩
    · cases h with
      | resume hDrives₁ _ hLeft hIdle hCourse₁ =>
          obtain rfl := hSane.sole t _ _ _ _ hDrives hDrives₁
          obtain ⟨_, rfl⟩ := hDrives.unique hDrives₁
          obtain rfl := hCourse.det hCourse₁
          refine .inr fun k hk => ?_
          rw [hSuits.2.2.1 k _ hk hLeft]
          exact hIdle
      | conclude hDrives₁ _ _ _ _ hCourse₁ hPledges₁ =>
          obtain rfl := hCourse.det hCourse₁
          cases p with
          | handing => exact .inl (.inl hSuits.1)
          | overruling v => exact .inl (.inl hSuits.1)
          | overruled v => exact .inl (.inl hSuits.1)
          | spoilt => exact .inl hSuits
          | wild => exact .inl (.inl hSuits)
          | objecting => exact absurd hRests id
          | overturning => exact absurd hRests id
          | relapsing => exact absurd hRests id
          | _ => cases hPledges₁
    · rw [hPledges.unique (hOnly e' hp)] at hPledged
      exact hPledged hp

/-
  Watchers can be told when each is harmless or tells a
  driver that nobody holds, and no driver is among them
  twice.
-/
theorem Notices.of_watchers
    {ws : List Closure}
    (hs : Standing held excused s)
    (hWatcher : ∀ w ∈ ws, ¬ s.Harmless w →
      ∃ t, t ∉ held ∧ s.Due t w)
    (hApart : ws.Pairwise fun w w' =>
      ∀ d e, s.Tokens d e w → ¬ s.Tokens d e w') :
    ∃ ts, Notices held excused s ws ts ∧
      Standing (ts ++ held) excused s ∧
      ∀ t ∈ ts, ∃ w ∈ ws, s.Due t w := by
  induction ws with
  | nil => exact ⟨[], .nil, hs, by simp⟩
  | cons w ws ih =>
      rcases List.pairwise_cons.mp hApart with ⟨hHead, hTail⟩
      rcases ih (fun w' hw' =>
        hWatcher w' (List.mem_cons_of_mem w hw')) hTail with
          ⟨ts, hNotices, hStanding, hSource⟩
      have hSource' : ∀ t ∈ ts, ∃ w' ∈ w :: ws,
          s.Due t w' := by
        intro t ht
        rcases hSource t ht with ⟨w', hw', hDue⟩
        exact ⟨w', List.mem_cons_of_mem w hw', hDue⟩
      by_cases hHarmless : s.Harmless w
      · exact ⟨ts, .other hHarmless hNotices, hStanding,
          hSource'⟩
      · rcases hWatcher w List.mem_cons_self hHarmless with
          ⟨t, hFree, hDue⟩
        rcases hDue.tokens with ⟨d, cell, p, e, hDrives,
          hCourse, hPledges, _, _, hToken⟩
        have hLt := hs.sane.owner t d cell hDrives
        have hPlaced := hs.placed t hLt hFree
        have hNew : t ∉ ts := by
          intro ht
          rcases hSource t ht with ⟨w', hw', hDue'⟩
          rcases hDue'.tokens with ⟨d', cell', p', e', hDrives',
            hCourse', hPledges', _, _, hToken'⟩
          obtain rfl :=
            hs.sane.sole t d d' cell cell' hDrives hDrives'
          obtain rfl := hCourse.det hCourse'
          obtain rfl := hPledges.unique hPledges'
          exact hHead w' hw' d e hToken hToken'
        refine ⟨t :: ts, .pledge hDue ?_ hPlaced
          (hs.minded t hLt hFree) hNotices,
          hStanding.hold (hDue.isHeld hs.sane hPlaced), ?_⟩
        · rw [List.mem_append, not_or]
          exact ⟨hNew, hFree⟩
        · intro t' ht'
          rcases List.mem_cons.mp ht' with rfl | hOld
          · exact ⟨w, List.mem_cons_self, hDue⟩
          · exact hSource' t' hOld

/- The tasks of all drivers are among those to be told. -/
theorem Notices.mem
    {ws : List Closure}
    {ts : List Ref}
    (h : Notices held excused s ws ts)
    {e : Errand}
    {w : Closure}
    (hDrives : s.Drives t d cell)
    (hw : w ∈ ws)
    (hToken : s.Tokens d e w) :
    t ∈ ts := by
  induction h with
  | nil => cases hw
  | @other w' ws ts hHarmless _ ih =>
      rcases List.mem_cons.mp hw with rfl | hLater
      · exact absurd hToken (Harmless.not_tokens
          ((Closure.harmless_core w).mpr hHarmless) d e)
      · exact ih hLater
  | @pledge w' ws t' ts hDue _ _ _ _ ih =>
      rcases List.mem_cons.mp hw with rfl | hLater
      · rw [hDue.task hDrives hToken]
        exact List.mem_cons_self
      · exact List.mem_cons_of_mem t' (ih hLater)

/-
  The task of a driver is in a phase in which a closure is
  to move it on.
-/
inductive Session.Awaits
    (s : Session)
    (t : Ref)
    (cell : DriverCell) : Closure → Prop where
  | resume
      {d callback : Ref}
      {l id : Value}
      (hLeft : cell.fired.getD callback true = false)
      (hCourse : Course (s.story t) (.waiting l id)) :
      Awaits s t cell (.driverResume d callback)
  | conclude
      {d : Ref}
      {awaiter : Value}
      {p : Phase}
      (hCourse : Course (s.story t) p)
      (hPledges : p.Pledges .conclude) :
      Awaits s t cell (.driverOutcome d awaiter)

/- A driver that waits for a future is in a phase for that. -/
theorem Placed.awaits
    {excused : Prop}
    {e : Errand}
    {f : Ref}
    {w : Closure}
    (hPlaced : Placed excused s t)
    (hMinds : Minds excused s t)
    (hSane : Sane s)
    (hDrives : s.Drives t d cell)
    (hw : w ∈ s.watchers f)
    (hToken : s.Tokens d e w) :
    s.Awaits t cell w := by
  rcases hPlaced with ⟨p, hRests, hCourse, hSeated⟩
  rcases hSeated with ⟨hNone, _⟩ |
    ⟨d', cell', hDrives', _, _, hOnly⟩
  · exact absurd hDrives (hNone d cell)
  · obtain rfl := hSane.sole t d d' cell cell' hDrives hDrives'
    have hPledges := hOnly e ⟨f, w, hw, hToken⟩
    cases e with
    | conclude =>
        rcases hToken with ⟨⟨awaiter, rfl⟩, _⟩
        exact .conclude hCourse hPledges
    | resume =>
        cases p with
        | waiting l id =>
            rcases hMinds d cell _ hDrives hCourse with
              ⟨_, k, a, _, hLeft, hTokens⟩
            obtain ⟨rfl, _⟩ := hTokens f w hw hToken
            exact .resume hLeft hCourse
        | deciding => exact absurd hRests id
        | _ => cases hPledges

/- Whoever a future is to tell is awaited by a free task. -/
theorem Standing.awaits
    (hs : Standing held excused s)
    {e : Errand}
    {f : Ref}
    {w : Closure}
    (hDrives : s.Drives t d cell)
    (hw : w ∈ s.watchers f)
    (hToken : s.Tokens d e w) :
    t ∉ held ∧ s.Awaits t cell w := by
  have hFree : t ∉ held := fun hHeld =>
    ((hs.held t hHeld).2 d cell hDrives).unpledged e
      ⟨f, w, hw, hToken⟩
  have hLt := hs.sane.owner t d cell hDrives
  exact ⟨hFree, (hs.placed t hLt hFree).awaits
    (hs.minded t hLt hFree) hs.sane hDrives hw hToken⟩

------------------------------------------------------------
-- Settling
------------------------------------------------------------

/- A session in which a future has settled. -/
def Session.settledAt
    (s : Session)
    (f : Ref)
    (id : Stamp)
    (outcome : Outcome) : Session :=
  s.withFutures (s.futures.modify f fun c =>
    { c with settlement := some ⟨id, outcome⟩, watchers := #[] })

theorem Session.outcome?_settledAt
    (f f' : Nat)
    (id : Stamp)
    (outcome : Outcome) :
    (s.settledAt f id outcome).outcome? f' =
      if f = f' ∧ f' < s.futures.size then some outcome
      else s.outcome? f' := by
  simp only [outcome?, settledAt, withFutures, getD_modify]
  split <;> rfl

theorem Session.watchers_settledAt
    (f f' : Nat)
    (id : Stamp)
    (outcome : Outcome) :
    (s.settledAt f id outcome).watchers f' =
      if f = f' ∧ f' < s.futures.size then []
      else s.watchers f' := by
  simp only [watchers, settledAt, withFutures, getD_modify]
  split <;> rfl

theorem Session.audience_settledAt
    (f f' : Nat)
    (id : Stamp)
    (outcome : Outcome) :
    (s.settledAt f id outcome).audience f' = s.audience f' := by
  simp only [audience, settledAt, withFutures, getD_modify]
  split <;> rfl

theorem Session.refuture_settledAt
    (hSane : Sane s)
    {f : Ref}
    (hPending : s.outcome? f = none)
    (id : Stamp)
    (outcome : Outcome) :
    s.Refuture (s.futures.modify f fun c =>
      { c with
        settlement := some ⟨id, outcome⟩
        watchers := #[] }) where
  size := by simp
  settled f' o ho := by
    have hOther : f ≠ f' := by
      rintro rfl
      rw [hPending] at ho
      cases ho
    have hRead := outcome?_settledAt (s := s) f f' id outcome
    rw [if_neg fun h => hOther h.1] at hRead
    exact hRead.trans ho
  watchers f' := by
    have hRead := watchers_settledAt (s := s) f f' id outcome
    change ((s.settledAt f id outcome).watchers f').Sublist _
    rw [hRead]
    split
    · exact List.nil_sublist _
    · exact List.Sublist.refl _
  audience f' w hw := by
    change w ∈ (s.settledAt f id outcome).audience f'
    rw [audience_settledAt]
    exact hw
  unwatched f' hf' := by
    have hRead := watchers_settledAt (s := s) f f' id outcome
    have hOutcome := outcome?_settledAt (s := s) f f' id outcome
    split at hRead
    · exact hRead
    · next hNot =>
        rw [if_neg hNot] at hOutcome
        exact hRead.trans
          (hSane.unwatched f' (hOutcome ▸ hf'))

/-
  A driver that watched a future is to be told when the
  future has settled and is watched no more.
-/
theorem Session.due_settledAt
    {f : Ref}
    {id : Stamp}
    {outcome : Outcome}
    {w : Closure}
    (hSane : Sane s)
    (hLt : f < s.futures.size)
    (hPending : s.outcome? f = none)
    (hAwaits : ∀ t d cell e, s.Drives t d cell →
      ∀ w ∈ s.watchers f, s.Tokens d e w →
        t ∉ held ∧ s.Awaits t cell w)
    (hw : w ∈ s.watchers f)
    (hHarm : ¬ (s.settledAt f id outcome).Harmless w) :
    ∃ t, t ∉ held ∧ (s.settledAt f id outcome).Due t w := by
  have hFuture := refuture_settledAt hSane hPending id outcome
  have hExtends : s.Extends (s.settledAt f id outcome) :=
    hFuture.extends_
  rcases hSane.watcher f w hw with hHarmless | hPledge
  · exact absurd (hExtends.harmless hHarmless) hHarm
  · rcases hPledge.tokens fun h =>
      hHarm (hExtends.harmless h) with
        ⟨t, d, cell, e, hDrives, hToken⟩
    rcases hAwaits t d cell e hDrives w hw hToken with
      ⟨hFree, hAwait⟩
    have hPledged :
        ¬ (s.settledAt f id outcome).Pledged d e := by
      rintro ⟨f', w', hw', hToken'⟩
      rw [watchers_settledAt] at hw'
      split at hw'
      · cases hw'
      · next hNot =>
          obtain rfl :=
            hSane.once d e f f' w w' hw hw' hToken hToken'
          exact hNot ⟨rfl, hLt⟩
    refine ⟨t, hFree, ?_⟩
    cases hAwait with
    | @resume d' k l n hLeft hCourse =>
        have hOwn := hToken
        cases e with
        | conclude =>
            rcases hOwn with ⟨⟨_, hSame⟩, _⟩
            cases hSame
        | resume =>
            rcases hOwn with ⟨_, hSame, hIdle⟩
            cases hSame
            exact .resume hDrives hPledged hLeft hIdle hCourse
    | @conclude d' awaiter p hCourse hPledges =>
        rcases hPledge with ⟨_, _, _, ⟨_, hSame⟩ |
          ⟨a, hSame, hAwaiter⟩⟩
        · cases hSame
        · cases hSame
          have hOwn := hToken
          cases e with
          | resume =>
              rcases hOwn with ⟨_, hSame, _⟩
              cases hSame
          | conclude =>
              rcases hOwn with ⟨⟨_, hSame⟩, hSteady⟩
              cases hSame
              refine .conclude hDrives hPledged hSteady
                hAwaiter ?_ hCourse hPledges
              rw [outcome?_settledAt, if_pos ⟨rfl, hLt⟩]
              rfl

/-
  Who loses its future as that settles is told, so that in
  the end nobody is lost.
-/
theorem Session.Spares.of_settledAt
    {f : Ref}
    {id : Stamp}
    {outcome : Outcome}
    (hLater : (s.settledAt f id outcome).Spares s')
    (hTold : ∀ t d cell e, s.Drives t d cell →
      ∀ w ∈ s.watchers f, s.Tokens d e w →
        s.turns t < s'.turns t) :
    s.Spares s' := by
  intro t ht
  rcases hLater t ht with ⟨⟨d, cell, p, e, k, f₁, hDrives,
    hCourse, hExpects, hAsked, hNot⟩, hTurns⟩
  refine ⟨⟨d, cell, p, e, k, f₁, hDrives, hCourse, hExpects,
    hAsked, ?_⟩, hTurns⟩
  rintro ⟨f₂, w, hw, hToken⟩
  by_cases hHere : f = f₂ ∧ f₂ < s.futures.size
  · obtain ⟨rfl, _⟩ := hHere
    have hMore := hTold t d cell e hDrives w hw hToken
    exact absurd hTurns (Nat.ne_of_gt hMore)
  · refine hNot ⟨f₂, w, ?_, hToken⟩
    rw [watchers_settledAt, if_neg hHere]
    exact hw

namespace Driving

variable {caller : Caller}

/- A future that has not settled has no settlement. -/
theorem settlement_of_outcome?
    {f : Ref} :
    (s.futures.getD f default).settlement.isSome =
      (s.outcome? f).isSome := by
  simp [outcome?]

/- The session in which a future settles, with a new object. -/
def settling
    (s : Session)
    (f : Ref)
    (outcome : Outcome) : Session :=
  Session.settledAt s.stamped f s.stamp outcome

/- Settling a future ends as telling its watchers ends. -/
theorem ensures_settle
    {f : Ref}
    {outcome : Outcome}
    {post : Except Value Bool → Session → Prop}
    (hPending : s.outcome? f = none)
    (h : (Future.notify caller (s.watchers f) none).Ensures
      (settling s f outcome) fun r s' =>
        match r with
        | .ok none => post (.ok true) s'
        | .ok (some e) => post (.error e) s'
        | .error e => post (.error e) s') :
    (Future.settle caller f outcome).Ensures s post := by
  have hNot : ¬ ((Table.futures.rows s).getD f
      default).settlement.isSome = true := by
    have hNone := settlement_of_outcome? (s := s) (f := f)
    rw [hPending] at hNone
    simp [Table.futures] at hNone ⊢
    exact hNone
  unfold Future.settle
  refine Run.ensures_row_bind.mpr ?_
  rw [if_neg hNot]
  refine Run.Ensures.bind (Run.ensures_modifyGet.mpr ?_)
  refine Run.ensures_alter_bind.mpr ?_
  refine Run.Ensures.bind (Run.Ensures.mono h ?_)
  intro r s' hPost
  cases r with
  | ok failure =>
      cases failure with
      | none => exact Run.ensures_pure.mpr hPost
      | some e => exact Run.ensures_raise.mpr hPost
  | error e => exact hPost

/- A future that has settled is not settled again. -/
theorem ensures_settle_of_settled
    {f : Ref}
    {outcome : Outcome}
    {post : Except Value Bool → Session → Prop}
    (hSettled : (s.outcome? f).isSome)
    (h : post (.ok false) s) :
    (Future.settle caller f outcome).Ensures s post := by
  intro r s' hRun
  rw [Future.settle_of_settled caller f outcome s
    (settlement_of_outcome?.trans hSettled)] at hRun
  cases hRun
  exact h

/-
  A pending future has been settled: everyone whose driver
  waited for it has gone on, and in a network the settler is
  answered.
-/
structure Settled
    (held excused : List Ref)
    (s : Session)
    (f : Ref)
    (r : Except Value Bool)
    (s' : Session) : Prop where
  moves : (Driving held excused).Moves s s'
  turns : ∀ t d cell e, s.Drives t d cell →
    ∀ w ∈ s.watchers f, s.Tokens d e w →
      s.turns t < s'.turns t
  quiet : s'.Network → r = .ok true

/-
  Once a future has settled and all tasks stand, those who
  watched it can be told.
-/
theorem ensures_settlePending
    (hAll : ∀ held, (Driving held excused).Serves caller)
    {f : Ref}
    {outcome : Outcome}
    (hSane : Sane s)
    (hLt : f < s.futures.size)
    (hPending : s.outcome? f = none)
    (hs : (Driving held excused).Sound (settling s f outcome))
    (hLeaves : Leaves held s (settling s f outcome))
    (hAwaits : ∀ t d cell e, s.Drives t d cell →
      ∀ w ∈ s.watchers f, s.Tokens d e w →
        t ∉ held ∧ s.Awaits t cell w) :
    (Future.settle caller f outcome).Ensures s
      (Settled held excused s f) := by
  have hCounted : Sane s.stamped :=
    .of_kernel (s := s) rfl hSane
  have hAwaits' : ∀ t d cell e, s.stamped.Drives t d cell →
      ∀ w ∈ s.watchers f, s.Tokens d e w →
        t ∉ held ∧ s.stamped.Awaits t cell w := by
    intro t d cell e hDrives w hw hToken
    rcases hAwaits t d cell e hDrives w hw hToken with
      ⟨hFree, hAwait⟩
    refine ⟨hFree, ?_⟩
    cases hAwait with
    | resume hLeft hCourse => exact .resume hLeft hCourse
    | conclude hCourse hPledges =>
        exact .conclude hCourse hPledges
  have hWatcher : ∀ w ∈ s.watchers f,
      ¬ (settling s f outcome).Harmless w →
        ∃ t, t ∉ held ∧ (settling s f outcome).Due t w :=
    fun w hw hHarm =>
      due_settledAt hCounted hLt hPending hAwaits' hw hHarm
  rcases Notices.of_watchers hs.inv hWatcher (hSane.apart f)
    with ⟨ts, hNotices, hStanding, _⟩
  refine ensures_settle hPending (Run.Ensures.mono
    (ensures_notify hAll ⟨hStanding, hs.stocked⟩ hNotices none)
    ?_)
  intro r s' hTold
  have hTurns : ∀ t d cell e, s.Drives t d cell →
      ∀ w ∈ s.watchers f, s.Tokens d e w →
        s.turns t < s'.turns t :=
    fun t d cell e hDrives w hw hToken => hTold.turns t
      (hNotices.mem (s := settling s f outcome) hDrives hw
        hToken)
  have hSpares : s.Spares s' := Session.Spares.of_settledAt
    (s := s.stamped)
    hTold.moves.rel.spares hTurns
  have hMoves : (Driving held excused).Moves s s' :=
    ⟨hTold.moves.sound,
      hLeaves.trans hTold.moves.rel.toLeaves, hSpares⟩
  have hQuiet : s'.Network → r = .ok none := fun hNetwork =>
    hTold.quiet (fun w hw => hNetwork.audience f w
      (hMoves.rel.extends_.audience f w
        (hSane.audience f w hw))) hNetwork
  match r, hQuiet with
  | .ok none, _ => exact ⟨hMoves, hTurns, fun _ => rfl⟩
  | .ok (some e), hQuiet =>
      exact ⟨hMoves, hTurns, fun hNetwork => by
        cases hQuiet hNetwork⟩
  | .error e, hQuiet =>
      exact ⟨hMoves, hTurns, fun hNetwork => by
        cases hQuiet hNetwork⟩

/- Anyone may settle a loose future. -/
theorem ensures_settleLoose
    (hAll : ∀ held, (Driving held excused).Serves caller)
    (hs : (Driving held excused).Sound s)
    {f : Ref}
    (hLoose : s.Loose f)
    (hPending : s.outcome? f = none)
    (outcome : Outcome) :
    (Future.settle caller f outcome).Ensures s
      (Settled held excused s f) := by
  have hCounted : Sane s.stamped :=
    .of_kernel (s := s) rfl hs.inv.sane
  have hFuture := refuture_settledAt hCounted hPending
    s.stamp outcome
  have hEnding : ∀ f', s.IsOutput f' →
      (settling s f outcome).outcome? f' = s.outcome? f' := by
    intro f' hf'
    have hOther : f ≠ f' := by
      rintro rfl
      exact hLoose.2 hf'
    have hRead := outcome?_settledAt
      (s := s.stamped)
      f f' s.stamp outcome
    rw [if_neg fun h => hOther h.1] at hRead
    exact hRead
  have hBefore : s.Extends s.stamped :=
    .of_kernel (s := s) rfl
  have hExtends : s.Extends (settling s f outcome) :=
    hBefore.trans hFuture.extends_
  have hUnmoved : ∀ t, s.Unmoved t (settling s f outcome) := by
    intro t
    have hKernel : s.kernel =
        s.stamped.kernel := rfl
    exact (Session.Unmoved.of_kernel hKernel t).trans
      (unmoved_refuture hFuture hEnding t)
  refine ensures_settlePending hAll hs.inv.sane hLoose.1
    hPending ⟨hs.inv.unmoved (hFuture.sane hCounted) hExtends
      rfl hUnmoved, ?_⟩
    ⟨hExtends, fun t _ => hUnmoved t, .of_unmoved hUnmoved⟩
    fun t d cell e hDrives w hw hToken =>
      hs.inv.awaits hDrives hw hToken
  exact { hs.stocked.mono fun _ => hExtends.harmless with }

theorem keeps_settle
    (hAll : ∀ held, (Driving held excused).Serves caller)
    (hs : (Driving held excused).Sound s)
    {f : Ref}
    (hLoose : s.Loose f)
    (outcome : Outcome) :
    (Driving held excused).Keeps
      (Future.settle caller f outcome) s := by
  cases hOutcome : s.outcome? f with
  | some o =>
      exact ensures_settle_of_settled (by rw [hOutcome]; rfl)
        (.refl hs)
  | none =>
      exact Run.Ensures.mono
        (ensures_settleLoose hAll hs hLoose hOutcome outcome)
        fun _ _ h => h.moves

------------------------------------------------------------
-- Hosting Futures
------------------------------------------------------------

/- Whoever watches a future is told at once, or waits. -/
theorem ensures_watch
    {f : Ref}
    {w : Closure}
    {post : Except Value Unit → Session → Prop}
    (hSettled : (s.outcome? f).isSome →
      (caller.call w []).Ensures s fun r s' =>
        post (r.map fun _ => ⟨⟩) s')
    (hPending : s.outcome? f = none →
      post (.ok ()) (s.watched f w)) :
    (Future.watch caller f w).Ensures s post := by
  unfold Future.watch
  change Run.Ensures (if ((Table.futures.rows s).getD f
    default).settlement.isSome then _ else _) s _
  split
  · next hSome =>
      refine Run.Ensures.discard (hSettled ?_)
      rw [← settlement_of_outcome?]
      exact hSome
  · next hNot =>
      refine Run.ensures_alter.mpr (hPending ?_)
      rw [← Option.not_isSome_iff_eq_none,
        ← settlement_of_outcome?]
      exact hNot

theorem keeps_watch
    (hAll : ∀ held, (Driving held excused).Serves caller)
    (hs : (Driving held excused).Sound s)
    {f : Ref}
    {w : Closure}
    (hFit : (Driving held excused).fit s w) :
    (Driving held excused).Keeps
      (Future.watch caller f w) s :=
  ensures_watch (fun _ => (hAll held).call hs hFit [])
    fun hPending => moves_watched hs hPending hFit

/- The world of tasks hosts futures. -/
theorem hosts
    (hAll : ∀ held, (Driving held excused).Serves caller) :
    (Driving held excused).Hosts caller where
  newFuture settlement hs := moves_newFuture settlement hs
  newFuture_loose settlement hs := by
    refine ⟨by simp, fun hOutput => ?_⟩
    exact Nat.lt_irrefl _ (hs.inv.sane.output_lt _ hOutput)
  setPromise f p hs := moves_setPromise f p hs
  newAwaiter hs hFit := moves_newAwaiter hs hFit
  newDeferred hs hLoose := moves_newDeferred hs hLoose
  newControlled a hs hLoose := moves_newControlled a hs hLoose
  countControlled c g hs hg := moves_countControlled c g hs hg
  deferred_loose hs h := hs.inv.sane.deferred _ _ h
  controlled_loose hs h := hs.inv.sane.controlled _ _ h
  settle outcome hs hLoose := keeps_settle hAll hs hLoose outcome
  watch hs hFit := keeps_watch hAll hs hFit

end Driving

end Watchers

end Resumption

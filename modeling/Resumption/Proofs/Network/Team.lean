import Resumption.Proofs.Network.Starts

/-
  A team: the tasks that wait, each for a future, all in one
  session.

  No two of them have a variable, a log entry, a cell, a
  driver or an output in common, so that one may take its
  turn while the others rest.  A ledger says what the
  futures come to that they wait for.

  Main declarations:
    * `Worker`, `Waiter`, `Team`
    * `Ledger`
    * `Team.Stands`
    * `Team.Stands.drop`, `Team.Stands.put`
    * `Team.Stands.goes`, `Team.Stands.settling`
    * `Team.Stands.withFuture`
-/

namespace Resumption

variable {ν ι : Type}
variable {s s₁ : Session}
variable {f g : Ref}

------------------------------------------------------------
-- Workers and Waiters
------------------------------------------------------------

/-
  A task at work: what its code is run with, its driver, its
  output, and how its reading ends.
-/
structure Worker (ν : Type) where
  setting : Setting ν
  driver : Ref
  output : Ref
  result : Except (Stop ν) Value
  last : Reading ν

/- The task is done as its reading said. -/
structure Worker.Ended
    (p : Worker ν)
    (s : Session) : Prop where
  memory : s.memory p.setting.own = p.last.memory
  settles : ∃ outcome, s.SettledAs p.output outcome ∧
    p.setting.Matches s p.result outcome.toExcept

/-
  A task that waits: the cells that it comes back to, the
  callback that takes it on, the future that it waits for,
  and how far its reading has come.
-/
structure Waiter (ν : Type) extends Worker ν where
  foot : Footprint
  callback : Closure
  source : ν
  reading : Reading ν

namespace Waiter

/- The future that is waited for. -/
def target (p : Waiter ν) : Ref :=
  p.setting.place p.source

/-
  A session is where a task waits: called back, its driver
  drives the rest of its reading.
-/
structure Holds
    (p : Waiter ν)
    (s : Session) : Prop where
  agrees : p.setting.Agrees s p.reading
  pending : ¬ s.Settled p.output
  driver : p.driver < s.drivers.size
  calls : p.callback.driver? = some p.driver
  fated : (p.setting.fates p.source).isSome = true
  stuck : p.setting.fates p.source = some .never →
    p.result = .error (.stuck p.source) ∧
      p.last = p.reading.awaiting p.source
  foot : ∀ c, p.foot c → s.Has c
  rest : ∀ s₁, p.setting.Rests p.foot s s₁ →
    s₁.drivers[p.driver]? = s.drivers[p.driver]? →
    s₁.Settled p.target →
    p.setting.Drives p.driver p.output p.foot
      (fun c => c.call p.callback []) s₁ p.result p.last

/- A task that is left alone goes on waiting. -/
theorem Holds.later
    {p : Waiter ν}
    (h : p.Holds s)
    (hRests : p.setting.Rests p.foot s s₁)
    (hDriver : s₁.drivers[p.driver]? = s.drivers[p.driver]?)
    (hPending : ¬ s₁.Settled p.output) :
    p.Holds s₁ where
  agrees := hRests.agrees h.agrees
  pending := hPending
  driver := by
    have hCell := Array.getElem?_eq_getElem h.driver
    rw [← hDriver] at hCell
    exact (Array.getElem?_eq_some_iff.mp hCell).1
  calls := h.calls
  fated := h.fated
  stuck := h.stuck
  foot c hc := hRests.retains.has c (h.foot c hc)
  rest s₂ hRests' hDriver' hSettled :=
    h.rest s₂ (hRests.trans hRests') (hDriver'.trans hDriver)
      hSettled

/- Two tasks have nothing in common. -/
structure Clear (p q : Waiter ν) : Prop where
  own : p.setting.own.Apart q.setting.own
  foot : p.foot.Apart q.foot
  driver : p.driver ≠ q.driver
  output : p.output ≠ q.output

theorem Clear.symm
    {p q : Waiter ν}
    (h : p.Clear q) :
    q.Clear p where
  own := h.own.symm
  foot c hq hp := h.foot c hp hq
  driver := h.driver.symm
  output := h.output.symm

end Waiter

------------------------------------------------------------
-- Ledgers
------------------------------------------------------------

/- What the futures of a network come to. -/
abbrev Ledger :=
  Ref → Option Fate

namespace Ledger

variable {L : Ledger}

/- No future has settled but as it was to. -/
structure Kept
    (L : Ledger)
    (s : Session) : Prop where
  made : ∀ g, (L g).isSome = true → g < s.futures.size
  kept : ∀ g fate outcome, L g = some fate →
    s.SettledAs g outcome → fate.Allows outcome

/- The ledger bears out what a setting expects. -/
def Covers
    (L : Ledger)
    (E : Setting ν) : Prop :=
  ∀ x fate, E.fates x = some fate →
    L (E.place x) = some fate

/- A setting is calm later if the ledger is kept. -/
theorem Covers.calm
    {E : Setting ν}
    {kept : Cell → Prop}
    (h : L.Covers E)
    (hKept : L.Kept s₁)
    (hCalm : E.Calm s)
    (hRetains : Session.Retains kept s s₁)
    (hAmbient : s₁.ambient = s.ambient) :
    E.Calm s₁ := by
  refine hCalm.later hRetains hAmbient fun x fate hFate => ?_
  have hCovered := h x fate hFate
  exact ⟨hKept.made _ (by rw [hCovered]; rfl),
    fun outcome hSettled => hKept.kept _ _ _ hCovered hSettled⟩

/- A ledger with one more future in it. -/
def enter
    (L : Ledger)
    (g : Ref)
    (fate : Fate) : Ledger :=
  fun g' => if g' = g then some fate else L g'

end Ledger

/- What a task comes to is allowed by what was said of it. -/
theorem Setting.allows_of_matches
    {E : Setting ν}
    {o : Except (Stop ν) Value}
    {outcome : Outcome}
    (h : E.Matches s o outcome.toExcept) :
    (Fate.ofResult o).Allows outcome := by
  match o, outcome with
  | .ok v, .fulfilled v' => exact congrArg _ (Eq.symm h)
  | .error stop, .rejected e =>
      have hMeans : E.Means s stop e := h
      cases stop with
      | thrown e' => exact congrArg _ h
      | stuck x => exact h.elim
      | _ => exact hMeans.isDefect rfl

------------------------------------------------------------
-- Teams
------------------------------------------------------------

/- The tasks that wait, by name. -/
abbrev Team (ι ν : Type) :=
  ι → Option (Waiter ν)

namespace Team

variable {T : Team ι ν}
variable {i j : ι}
variable {p q : Waiter ν}
variable {w : Closure}
variable {ws ws' : List Closure}
variable {P P' : Ref → Prop}

open Classical in
/- All but one. -/
noncomputable def drop
    (T : Team ι ν)
    (i : ι) : Team ι ν :=
  fun j => if j = i then none else T j

open Classical in
/- One that waits, in the place of whoever had its name. -/
noncomputable def put
    (T : Team ι ν)
    (i : ι)
    (p : Waiter ν) : Team ι ν :=
  fun j => if j = i then some p else T j

theorem drop_eq_some :
    T.drop i j = some q ↔ j ≠ i ∧ T j = some q := by
  unfold drop
  by_cases hSame : j = i <;> simp [hSame]

theorem drop_eq_none :
    T.drop i j = none ↔ j = i ∨ T j = none := by
  unfold drop
  by_cases hSame : j = i <;> simp [hSame]

theorem put_eq_some :
    T.put i p j = some q ↔
      j = i ∧ p = q ∨ j ≠ i ∧ T j = some q := by
  unfold put
  by_cases hSame : j = i <;> simp [hSame]

theorem put_eq_none :
    T.put i p j = none ↔ j ≠ i ∧ T j = none := by
  unfold put
  by_cases hSame : j = i <;> simp [hSame]

/- A callback takes on one task. -/
def Distinct (T : Team ι ν) : Prop :=
  ∀ i j p q, T i = some p → T j = some q →
    p.callback = q.callback → i = j

------------------------------------------------------------
-- Lists of Callbacks
------------------------------------------------------------

/-
  A list holds, once each, the callbacks of those who wait
  for certain futures.
-/
structure Lists
    (T : Team ι ν)
    (ws : List Closure)
    (P : Ref → Prop) : Prop where
  once : ws.Nodup
  mem : ∀ w, w ∈ ws ↔
    ∃ i p, T i = some p ∧ p.callback = w ∧ P p.target

namespace Lists

theorem nil
    (h : ∀ i p, T i = some p → ¬ P p.target) :
    T.Lists [] P where
  once := List.nodup_nil
  mem w := by
    constructor
    · intro hw
      cases hw
    · rintro ⟨i, p, hp, _, hTarget⟩
      exact (h i p hp hTarget).elim

theorem congr
    (h : T.Lists ws P)
    (hSame : ∀ i p, T i = some p →
      (P p.target ↔ P' p.target)) :
    T.Lists ws P' where
  once := h.once
  mem w := by
    rw [h.mem]
    constructor
    · rintro ⟨i, p, hp, hw, hTarget⟩
      exact ⟨i, p, hp, hw, (hSame i p hp).mp hTarget⟩
    · rintro ⟨i, p, hp, hw, hTarget⟩
      exact ⟨i, p, hp, hw, (hSame i p hp).mpr hTarget⟩

/- Those who wait for one kind of futures, and for another. -/
theorem append
    (h : T.Lists ws P)
    (h' : T.Lists ws' P')
    (hDistinct : T.Distinct)
    (hApart : ∀ g, P g → ¬ P' g) :
    T.Lists (ws ++ ws') fun g => P g ∨ P' g where
  once := by
    refine List.nodup_append.mpr ⟨h.once, h'.once, ?_⟩
    rintro w hw w' hw' rfl
    rcases (h.mem w).mp hw with ⟨i, p, hp, hCall, hTarget⟩
    rcases (h'.mem w).mp hw' with ⟨j, q, hq, hCall', hTarget'⟩
    cases hDistinct i j p q hp hq (hCall.trans hCall'.symm)
    rw [hp] at hq
    cases hq
    exact hApart _ hTarget hTarget'
  mem w := by
    rw [List.mem_append, h.mem, h'.mem]
    constructor
    · rintro (⟨i, p, hp, hw, hTarget⟩ | ⟨i, p, hp, hw, hTarget⟩)
      · exact ⟨i, p, hp, hw, .inl hTarget⟩
      · exact ⟨i, p, hp, hw, .inr hTarget⟩
    · rintro ⟨i, p, hp, hw, hTarget | hTarget⟩
      · exact .inl ⟨i, p, hp, hw, hTarget⟩
      · exact .inr ⟨i, p, hp, hw, hTarget⟩

/- Whoever is called first is not waiting any more. -/
theorem drop
    (h : T.Lists (p.callback :: ws) P)
    (hDistinct : T.Distinct)
    (hi : T i = some p) :
    (T.drop i).Lists ws P where
  once := (List.nodup_cons.mp h.once).2
  mem w := by
    simp only [drop_eq_some]
    constructor
    · intro hw
      rcases (h.mem w).mp (List.mem_cons_of_mem _ hw) with
        ⟨j, q, hq, hCall, hTarget⟩
      refine ⟨j, q, ⟨?_, hq⟩, hCall, hTarget⟩
      rintro rfl
      rw [hi] at hq
      cases hq
      rw [hCall] at h
      exact (List.nodup_cons.mp h.once).1 hw
    · rintro ⟨j, q, ⟨hNe, hq⟩, hCall, hTarget⟩
      have hMem := (h.mem w).mpr ⟨j, q, hq, hCall, hTarget⟩
      rcases List.mem_cons.mp hMem with hFirst | hRest
      · exact (hNe (hDistinct j i q p hq hi
          (hCall.trans hFirst))).elim
      · exact hRest

/- One who waits for something else is not on the list. -/
theorem drop_other
    (h : T.Lists ws P)
    (hi : T i = some p)
    (hOther : ¬ P p.target) :
    (T.drop i).Lists ws P where
  once := h.once
  mem w := by
    simp only [drop_eq_some]
    rw [h.mem]
    constructor
    · rintro ⟨j, q, hq, hCall, hTarget⟩
      refine ⟨j, q, ⟨?_, hq⟩, hCall, hTarget⟩
      rintro rfl
      rw [hi] at hq
      cases hq
      exact hOther hTarget
    · rintro ⟨j, q, ⟨_, hq⟩, hCall, hTarget⟩
      exact ⟨j, q, hq, hCall, hTarget⟩

/- One who comes to wait is called last. -/
theorem put
    (h : T.Lists ws P)
    (hi : T i = none)
    (hNew : ∀ j q, T j = some q → q.callback ≠ p.callback)
    (hTarget : P p.target) :
    (T.put i p).Lists (ws ++ [p.callback]) P where
  once := by
    refine List.nodup_append.mpr
      ⟨h.once, List.nodup_cons.mpr ⟨nofun, List.nodup_nil⟩, ?_⟩
    rintro w hw w' hw' rfl
    rcases (h.mem w).mp hw with ⟨j, q, hq, hCall, _⟩
    exact hNew j q hq
      (hCall.trans (List.mem_singleton.mp hw'))
  mem w := by
    simp only [put_eq_some, List.mem_append,
      List.mem_singleton]
    rw [h.mem]
    constructor
    · rintro (⟨j, q, hq, hCall, hq'⟩ | rfl)
      · refine ⟨j, q, .inr ⟨?_, hq⟩, hCall, hq'⟩
        rintro rfl
        rw [hi] at hq
        cases hq
      · exact ⟨i, p, .inl ⟨rfl, rfl⟩, rfl, hTarget⟩
    · rintro ⟨j, q, ⟨rfl, rfl⟩ | ⟨_, hq⟩, hCall, hq'⟩
      · exact .inr hCall.symm
      · exact .inl ⟨j, q, hq, hCall, hq'⟩

theorem put_other
    (h : T.Lists ws P)
    (hi : T i = none)
    (hOther : ¬ P p.target) :
    (T.put i p).Lists ws P where
  once := h.once
  mem w := by
    simp only [put_eq_some]
    rw [h.mem]
    constructor
    · rintro ⟨j, q, hq, hCall, hTarget⟩
      refine ⟨j, q, .inr ⟨?_, hq⟩, hCall, hTarget⟩
      rintro rfl
      rw [hi] at hq
      cases hq
    · rintro ⟨j, q, ⟨rfl, rfl⟩ | ⟨_, hq⟩, hCall, hTarget⟩
      · exact (hOther hTarget).elim
      · exact ⟨j, q, hq, hCall, hTarget⟩

end Lists

------------------------------------------------------------
-- Standing
------------------------------------------------------------

/-
  A session is where a team is, with the callbacks in hand
  of those whose future has settled.
-/
structure Stands
    (L : Ledger)
    (T : Team ι ν)
    (held : List Closure)
    (s : Session) : Prop where
  holds : ∀ i p, T i = some p → p.Holds s
  covers : ∀ i p, T i = some p → L.Covers p.setting
  promised : ∀ i p, T i = some p →
    L p.output = some (Fate.ofResult p.result)
  clear : ∀ i j p q, T i = some p → T j = some q →
    i ≠ j → p.Clear q
  ledger : L.Kept s
  queued : ∀ g, (L g).isSome = true → ¬ s.Settled g →
    T.Lists (s.watchers g) (· = g)
  held : T.Lists held s.Settled

namespace Stands

variable {L : Ledger}
variable {held : List Closure}

/- Nobody waits where no future is waited for. -/
theorem nobody
    (hKept : L.Kept s)
    (hFree : ∀ g, (L g).isSome = true → s.watchers g = []) :
    Stands L (fun _ : ι => (none : Option (Waiter ν))) [] s where
  holds _ _ hp := by cases hp
  covers _ _ hp := by cases hp
  promised _ _ hp := by cases hp
  clear _ _ _ _ hp := by cases hp
  ledger := hKept
  queued g hg _ := by
    rw [hFree g hg]
    exact .nil fun _ _ hp => by cases hp
  held := .nil fun _ _ hp => by cases hp

theorem distinct
    (h : Stands L T held s) :
    T.Distinct := by
  intro i j p q hp hq hCall
  by_cases hSame : i = j
  · exact hSame
  · have hDriver : some p.driver = some q.driver := by
      rw [← (h.holds i p hp).calls, ← (h.holds j q hq).calls,
        hCall]
    exact ((h.clear i j p q hp hq hSame).driver
      (Option.some.inj hDriver)).elim

/- The future that a task waits for is in the ledger. -/
theorem targeted
    (h : Stands L T held s)
    (hi : T i = some p) :
    (L p.target).isSome = true := by
  rcases Option.isSome_iff_exists.mp (h.holds i p hi).fated with
    ⟨fate, hFate⟩
  have hCovered : L p.target = some fate :=
    h.covers i p hi _ _ hFate
  rw [hCovered]
  rfl

/- A task that is taken on is let go by the others. -/
theorem drop
    (h : Stands L T (p.callback :: held) s)
    (hi : T i = some p)
    (hSettled : s.Settled p.target) :
    Stands L (T.drop i) held s where
  holds j q hq := h.holds j q (drop_eq_some.mp hq).2
  covers j q hq := h.covers j q (drop_eq_some.mp hq).2
  promised j q hq := h.promised j q (drop_eq_some.mp hq).2
  clear j k q r hq hr :=
    h.clear j k q r (drop_eq_some.mp hq).2
      (drop_eq_some.mp hr).2
  ledger := h.ledger
  queued g hFated hPending := by
    refine (h.queued g hFated hPending).drop_other hi ?_
    rintro rfl
    exact hPending hSettled
  held := h.held.drop h.distinct hi

/- The others rest while one of another team goes on. -/
theorem goes
    {E : Setting ν}
    {F : Footprint}
    {d : Ref}
    (h : Stands L T held s)
    (hGoes : E.Goes F d s s₁)
    (hOwn : ∀ i p, T i = some p →
      E.own.Apart p.setting.own)
    (hFoot : ∀ i p, T i = some p → p.foot.Apart F)
    (hDriver : ∀ i p, T i = some p → p.driver ≠ d) :
    Stands L T held s₁ where
  holds i p hp := by
    have hs := h.holds i p hp
    refine hs.later ⟨?_, ?_, ?_⟩ ?_ ?_
    · exact hGoes.retains.weaken fun c _ hc => hFoot i p hp c hc
    · exact hGoes.foreign _ (hOwn i p hp)
    · exact hGoes.calm hs.agrees.calm
    · exact hGoes.drivers _ (hDriver i p hp)
    · rw [hGoes.settled_iff]
      exact hs.pending
  covers := h.covers
  promised := h.promised
  clear := h.clear
  ledger := by
    refine ⟨?_, ?_⟩
    · rw [hGoes.futures]
      exact h.ledger.made
    · simp only [Session.SettledAs, hGoes.futures]
      exact h.ledger.kept
  queued g hFated hPending := by
    rw [hGoes.settled_iff] at hPending
    rw [Session.watchers, hGoes.futures]
    exact h.queued g hFated hPending
  held := h.held.congr fun _ _ _ => (hGoes.settled_iff _).symm

/- A future settles, and its watchers are to be called. -/
theorem settling
    {fate : Fate}
    {outcome : Outcome}
    (h : Stands L T held s)
    (hFate : L f = some fate)
    (hAllows : fate.Allows outcome)
    (hPending : ¬ s.Settled f)
    (hFree : ∀ i p, T i = some p → p.output ≠ f) :
    Stands L T (s.watchers f ++ held)
      (s.settling f outcome) := by
  have hFated : (L f).isSome = true := by
    rw [hFate]
    rfl
  have hMade := h.ledger.made f hFated
  have hKept : L.Kept (s.settling f outcome) := by
    refine ⟨fun g hg => ?_, fun g fate' outcome' hg hs => ?_⟩
    · simpa [Session.settling] using h.ledger.made g hg
    · rw [Session.settledAs_settling hMade] at hs
      split at hs
      · subst_vars
        rw [hFate] at hg
        cases hg
        exact hAllows
      · exact h.ledger.kept g fate' outcome' hg hs
  refine ⟨fun i p hp => ?_, h.covers, h.promised, h.clear,
    hKept, fun g hg hStill => ?_, ?_⟩
  · have hs := h.holds i p hp
    have hRetains :=
      Session.retains_settling p.foot outcome hMade hPending
    refine hs.later ⟨hRetains, rfl, ?_⟩ rfl ?_
    · exact (h.covers i p hp).calm hKept hs.agrees.calm
        hRetains rfl
    · rw [Session.settled_settling hMade]
      rintro (hSame | hSettled)
      · exact hFree i p hp hSame
      · exact hs.pending hSettled
  · rw [Session.settled_settling hMade] at hStill
    rw [Session.watchers_settling hMade
      fun hSame => hStill (.inl hSame)]
    exact h.queued g hg fun hs => hStill (.inr hs)
  · refine ((h.queued f hFated hPending).append h.held
      h.distinct ?_).congr ?_
    · rintro g rfl
      exact hPending
    · intro i p _
      rw [Session.settled_settling hMade]

/- One more task comes to wait. -/
theorem put
    (h : Stands L T held s)
    (hi : T i = none)
    (hHolds : p.Holds s)
    (hCovers : L.Covers p.setting)
    (hPromised : L p.output = some (Fate.ofResult p.result))
    (hClear : ∀ j q, T j = some q → p.Clear q)
    (hPending : ¬ s.Settled p.target) :
    Stands L (T.put i p) held
      (s.watching p.target p.callback) := by
  rcases Option.isSome_iff_exists.mp hHolds.fated with
    ⟨fate, hFate⟩
  have hCovered : L p.target = some fate :=
    hCovers _ _ hFate
  have hMade : p.target < s.futures.size :=
    h.ledger.made _ (by rw [hCovered]; rfl)
  have hNew : ∀ j q, T j = some q →
      q.callback ≠ p.callback := by
    intro j q hq hSame
    have hDriver : some q.driver = some p.driver := by
      rw [← (h.holds j q hq).calls, ← hHolds.calls, hSame]
    exact (hClear j q hq).driver (Option.some.inj hDriver).symm
  have hKept : L.Kept (s.watching p.target p.callback) := by
    refine ⟨fun g hg => ?_, fun g fate' outcome' hg hs => ?_⟩
    · simpa [Session.watching] using h.ledger.made g hg
    · rw [Session.settledAs_watching hMade] at hs
      exact h.ledger.kept g fate' outcome' hg hs
  refine ⟨fun j q hq => ?_, fun j q hq => ?_,
    fun j q hq => ?_, fun j k q r hq hr hNe => ?_, hKept,
    fun g hg hStill => ?_, ?_⟩
  · have hs : q.Holds s := by
      rcases put_eq_some.mp hq with ⟨_, rfl⟩ | ⟨_, hq⟩
      · exact hHolds
      · exact h.holds j q hq
    refine hs.later
      (Setting.rests_watching hs.agrees.calm hMade) rfl ?_
    rw [Session.settled_watching hMade]
    exact hs.pending
  · rcases put_eq_some.mp hq with ⟨_, rfl⟩ | ⟨_, hq⟩
    · exact hCovers
    · exact h.covers j q hq
  · rcases put_eq_some.mp hq with ⟨_, rfl⟩ | ⟨_, hq⟩
    · exact hPromised
    · exact h.promised j q hq
  · rcases put_eq_some.mp hq with ⟨rfl, rfl⟩ | ⟨_, hOld⟩
    · rcases put_eq_some.mp hr with ⟨rfl, _⟩ | ⟨_, hOther⟩
      · exact (hNe rfl).elim
      · exact hClear k r hOther
    · rcases put_eq_some.mp hr with ⟨rfl, rfl⟩ | ⟨_, hOther⟩
      · exact (hClear j q hOld).symm
      · exact h.clear j k q r hOld hOther hNe
  · rw [Session.settled_watching hMade] at hStill
    have hQueue := h.queued g hg hStill
    rw [Session.watchers_watching hMade]
    split
    · subst_vars
      exact hQueue.put hi hNew rfl
    · rename_i hNe
      exact hQueue.put_other hi (Ne.symm hNe)
  · refine (h.held.put_other hi hPending).congr ?_
    intro j q _
    rw [Session.settled_watching hMade]

/- One more future is made, and what it comes to is known. -/
theorem withFuture
    {fate : Fate}
    {settlement : Option Settlement}
    (h : Stands L T held s)
    (hAllows : ∀ t, settlement = some t →
      fate.Allows t.outcome) :
    Stands (L.enter s.futures.size fate) T held
      (s.withFuture (.fresh settlement)) := by
  let f := s.futures.size
  have hOld : ∀ g, (L g).isSome = true → g ≠ f :=
    fun g hg => Nat.ne_of_lt (h.ledger.made g hg)
  have hSame : ∀ g, (L g).isSome = true →
      L.enter f fate g = L g :=
    fun g hg => if_neg (hOld g hg)
  have hSettled : ∀ g, (L g).isSome = true →
      ((s.withFuture (.fresh settlement)).Settled g ↔
        s.Settled g) := by
    intro g hg
    simp only [Session.settled_iff,
      Session.settledAs_withFuture]
    have hNot : g ≠ s.futures.size := hOld g hg
    simp only [hNot, false_and, or_false]
  have hEntered : ∀ i p, T i = some p →
      (L.enter f fate).Covers p.setting := by
    intro i p hp x fate' hx
    have hCovered := h.covers i p hp x fate' hx
    rw [hSame _ (by rw [hCovered]; rfl)]
    exact hCovered
  have hKept : (L.enter f fate).Kept
      (s.withFuture (.fresh settlement)) := by
    refine ⟨fun g hg => ?_, fun g fate' outcome' hg hs => ?_⟩
    · have hSize : (s.withFuture (.fresh settlement)).futures.size =
          f + 1 := by
        simp [Session.withFuture, f]
      rw [hSize]
      by_cases hLast : g = f
      · exact Nat.lt_succ_of_le (Nat.le_of_eq hLast)
      · rw [Ledger.enter, if_neg hLast] at hg
        exact Nat.lt_succ_of_lt (h.ledger.made g hg)
    · rw [Session.settledAs_withFuture] at hs
      rcases hs with hs | ⟨hLast, hs⟩
      · have hNe : g ≠ f := Nat.ne_of_lt hs.made
        rw [Ledger.enter, if_neg hNe] at hg
        exact h.ledger.kept g fate' outcome' hg hs
      · rw [Ledger.enter, if_pos hLast] at hg
        cases hg
        rcases Option.map_eq_some_iff.mp hs with ⟨t, ht, rfl⟩
        exact hAllows t ht
  refine ⟨fun i p hp => ?_, hEntered, fun i p hp => ?_,
    h.clear, hKept, fun g hg hStill => ?_, ?_⟩
  · have hs := h.holds i p hp
    have hOutput : (L p.output).isSome = true := by
      rw [h.promised i p hp]
      rfl
    refine hs.later (Setting.rests_withFuture hs.agrees.calm)
      rfl ?_
    rw [hSettled _ hOutput]
    exact hs.pending
  · have hPromised := h.promised i p hp
    rw [hSame _ (by rw [hPromised]; rfl)]
    exact hPromised
  · by_cases hLast : g = f
    · have hNone : (s.withFuture (.fresh settlement)).watchers g =
          [] := by
        simp [Session.watchers, Session.withFuture, hLast, f,
          FutureCell.fresh]
      rw [hNone]
      refine .nil fun i p hp hTarget => ?_
      exact hOld _ (h.targeted hp) (hTarget.trans hLast)
    · rw [Ledger.enter, if_neg hLast] at hg
      rw [hSettled g hg] at hStill
      rw [Session.watchers_withFuture hLast]
      exact h.queued g hg hStill
  · refine h.held.congr fun i p hp => ?_
    rw [hSettled _ (h.targeted hp)]

end Stands

end Team

end Resumption

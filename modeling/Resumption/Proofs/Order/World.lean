import Resumption.Proofs.Order
import Resumption.Proofs.World.Constructs

/-
  Whoever is called, label tables and constructs stay in
  order: the world in which every closure may be stored and
  called, and in which futures are no matter.

  Main declarations:
    * `Ordering`
    * `Ordering.moves`
    * `Ordering.hosts`
    * `Ordering.founds`
-/

namespace Resumption

open Session World

------------------------------------------------------------
-- The World
------------------------------------------------------------

/- The world of what is in order. -/
def Ordering : World where
  inv := Session.Orderly
  rel := Grows
  fit _ _ := True
  calls _ _ _ := True
  after _ _ _ _ _ := True
  loose _ _ := True
  rel_refl := Grows.refl
  rel_trans := Grows.trans
  fit_mono _ _ := trivial
  loose_mono _ _ := trivial
  fit_default _ := trivial
  fit_bridge _ _ _ := trivial
  fit_settlePromise _ _ _ _ := trivial
  fit_settleFuture _ := Iff.rfl
  fit_resumption _ _ := trivial
  fit_posted _ _ _ := trivial
  calls_of_fit _ _ := trivial
  inv_kernel h := (SameGround.of_kernel h).orderly
  rel_kernel h := (SameGround.of_kernel h).grows
  inv_posts _ _ :=
    (SameGround.withIncident _ fun _ => rfl).orderly
  rel_posts _ _ _ :=
    (SameGround.withIncident _ fun _ => rfl).grows

namespace Ordering

variable {s s' : Session}
variable {caller : Caller}

/- What is stored may be stored. -/
theorem stocked (s : Session) : s.Stocked (Ordering.fit s) where
  functions _ := trivial
  classes _ _ _ := trivial
  promises _ _ _ := ⟨fun _ _ => trivial, fun _ _ => trivial⟩
  microtasks j _ := by
    cases j with
    | react r o => exact ⟨fun _ _ => trivial, fun _ _ => trivial⟩
    | adopt v p => trivial
    | report e => trivial
  awaiters r := by
    cases s.awaiters.getD r default with
    | custom reporter => exact ⟨trivial, trivial, trivial⟩
    | future f captured => trivial
    | controlled c => trivial
  awaitables r := by
    cases s.awaitables.getD r default with
    | custom reporter => exact ⟨trivial, trivial, trivial⟩
    | configurable base code => trivial
    | configured f captured => trivial
    | controlled c => trivial
  thenables _ := trivial
  contexts r := by
    cases (s.contexts.getD r default).posting with
    | recording n => trivial
    | custom code => trivial
  iterables r := by
    cases s.iterables.getD r default with
    | counting items count => trivial
    | custom start next close =>
        exact ⟨trivial, trivial, fun _ _ => trivial⟩
  resources r := by
    cases s.resources.getD r default with
    | tracked name logged count => trivial
    | custom code => trivial
  listeners _ _ _ := trivial

theorem sound
    (h : s.Orderly) :
    Ordering.Sound s :=
  ⟨h, stocked s⟩

theorem moves_of
    (h : s'.Orderly)
    (hGrows : s.Grows s') :
    Ordering.Moves s s' :=
  ⟨sound h, hGrows⟩

/- What leaves the ground as it was moves along. -/
theorem moves
    (hs : Ordering.Sound s)
    (h : s.SameGround s') :
    Ordering.Moves s s' :=
  moves_of (h.orderly hs.inv) h.grows

/- Any closure may be called. -/
theorem call
    (hc : Ordering.Serves caller)
    (hs : Ordering.Sound s)
    (closure : Closure)
    (args : List Value) :
    Ordering.Keeps (caller.call closure args) s :=
  hc.call hs trivial args

------------------------------------------------------------
-- Futures
------------------------------------------------------------

private theorem moves_futures
    (hs : Ordering.Sound s)
    {futures : Array FutureCell}
    (h : Persists FutureCell.Becomes s.futures futures)
    (hAttended : ∀ (f : Nat) (c : FutureCell),
      futures[f]? = some c → c.Attended) :
    Ordering.Moves s { s with futures := futures } :=
  moves_of { hs.inv with attended := hAttended }
    { Grows.refl s with futures := h }

/- A future may be changed, if it remains attended. -/
private theorem moves_alterFuture
    (hs : Ordering.Sound s)
    {f : Ref}
    {change : FutureCell → FutureCell}
    (h : ∀ c, s.futures[f]? = some c → c.Attended →
      c.Becomes (change c) ∧ (change c).Attended) :
    Ordering.Moves s
      { s with futures := s.futures.modify f change } := by
  refine moves_futures hs (.modify .refl fun c hCell =>
    (h c hCell (hs.inv.attended f c hCell)).1) ?_
  intro g c hCell
  rw [Array.getElem?_modify] at hCell
  split at hCell
  · next hSame =>
      subst hSame
      rcases Option.map_eq_some_iff.mp hCell with
        ⟨old, hOld, rfl⟩
      exact (h old hOld (hs.inv.attended f old hOld)).2
  · exact hs.inv.attended g c hCell

/- A future that is new has no audience. -/
theorem moves_newFuture
    (hs : Ordering.Sound s)
    (settlement : Option Settlement) :
    Ordering.Moves s (s.withFuture (.fresh settlement)) := by
  refine moves_futures hs (.push .refl _ _) fun f c hCell => ?_
  rw [Array.getElem?_push] at hCell
  split at hCell
  · obtain rfl := Option.some.inj hCell
    unfold FutureCell.Attended
    split <;> rfl
  · exact hs.inv.attended f c hCell

/- What is pending may settle. -/
theorem moves_settling
    (hs : Ordering.Sound s)
    {f : Ref}
    (hPending : s.outcome? f = none)
    (outcome : Outcome) :
    Ordering.Moves s (s.settling f outcome) := by
  have hStamped : Ordering.Moves s s.stamped :=
    moves hs ⟨rfl, rfl, rfl, rfl, rfl, rfl, rfl, rfl⟩
  refine hStamped.trans (moves_alterFuture hStamped.sound ?_)
  intro c hCell _
  have hCell : s.futures[f]? = some c := hCell
  have hNone : c.settlement = none := by
    simpa [outcome?, Array.getD_eq_getD_getElem?, hCell]
      using hPending
  refine ⟨⟨fun hSome => ?_, List.suffix_rfl⟩, rfl⟩
  rw [hNone] at hSome
  cases hSome

/- What is pending may be watched. -/
theorem moves_watching
    (hs : Ordering.Sound s)
    {f : Ref}
    (hPending : s.outcome? f = none)
    (w : Closure) :
    Ordering.Moves s (s.watching f w) := by
  refine moves_alterFuture hs fun c hCell hAttended => ?_
  have hNone : c.settlement = none := by
    simpa [outcome?, Array.getD_eq_getD_getElem?, hCell]
      using hPending
  unfold FutureCell.Attended at hAttended ⊢
  refine ⟨⟨fun hSome => ?_, List.suffix_cons w _⟩, ?_⟩
  · rw [hNone] at hSome
    cases hSome
  · simpa [hNone] using hAttended

/- What is not found settled is pending. -/
theorem pending_of_not
    {f : Ref}
    (h : ¬ ((Table.futures.rows s).getD f
      default).settlement.isSome = true) :
    s.outcome? f = none := by
  have hNone : (s.futures.getD f default).settlement = none :=
    Option.not_isSome_iff_eq_none.mp h
  rw [outcome?, hNone]
  rfl

/- Everyone who waits may be told. -/
theorem keeps_notify
    (hc : Ordering.Serves caller)
    (hs : Ordering.Sound s)
    (watchers : List Closure)
    (failure : Option Value) :
    Ordering.Keeps (Future.notify caller watchers failure) s := by
  induction watchers generalizing failure s with
  | nil => exact keeps_pure.mpr (.refl hs)
  | cons w rest ih =>
      unfold Future.notify
      refine (call hc hs w []).attempt.bind fun r s₁ h₁ => ?_
      cases r with
      | ok v => exact ih h₁.sound failure
      | error e => exact ih h₁.sound (failure <|> some e)

theorem keeps_settle
    (hc : Ordering.Serves caller)
    (hs : Ordering.Sound s)
    (f : Ref)
    (outcome : Outcome) :
    Ordering.Keeps (Future.settle caller f outcome) s := by
  unfold Future.settle
  refine keeps_row_bind.mpr ?_
  split
  · exact keeps_pure.mpr (.refl hs)
  · next hNot =>
    have h₁ := moves_settling hs (pending_of_not hNot) outcome
    refine Run.Ensures.mono
      ((keeps_notify hc h₁.sound _ none).bind
        fun failure s₂ h₂ => ?_) fun _ _ h => h₁.trans h
    cases failure with
    | none => exact keeps_pure.mpr (.refl h₂.sound)
    | some e => exact keeps_raise.mpr (.refl h₂.sound)

theorem keeps_watch
    (hc : Ordering.Serves caller)
    (hs : Ordering.Sound s)
    (f : Ref)
    (w : Closure) :
    Ordering.Keeps (Future.watch caller f w) s := by
  unfold Future.watch
  change Ordering.Keeps (if _ then _ else _) s
  split
  · exact (call hc hs w []).discard
  · next hNot =>
      exact keeps_alter (moves_watching hs (pending_of_not hNot) w)

/- Futures are kept attended. -/
theorem hosts
    (hc : Ordering.Serves caller) :
    Ordering.Hosts caller where
  newFuture settlement hs := moves_newFuture hs settlement
  newFuture_loose _ _ := trivial
  setPromise _ _ hs := moves_alterFuture hs fun _ _ hAttended =>
    ⟨⟨fun _ => ⟨rfl, rfl⟩, List.suffix_rfl⟩, hAttended⟩
  newAwaiter hs _ :=
    moves_of { hs.inv with }
      { Grows.refl _ with awaiters := .push (fun _ => rfl) _ _ }
  newDeferred hs _ :=
    moves hs ⟨rfl, rfl, rfl, rfl, rfl, rfl, rfl, rfl⟩
  newControlled _ hs _ :=
    moves hs ⟨rfl, rfl, rfl, rfl, rfl, rfl, rfl, rfl⟩
  countControlled _ _ hs _ :=
    moves hs ⟨rfl, rfl, rfl, rfl, rfl, rfl, rfl, rfl⟩
  deferred_loose _ _ := trivial
  controlled_loose _ _ := trivial
  settle outcome hs _ := keeps_settle hc hs _ outcome
  watch hs _ := keeps_watch hc hs _ _

------------------------------------------------------------
-- Labels
------------------------------------------------------------

private theorem moves_newMachine
    (hs : Ordering.Sound s)
    (checks : Bool) :
    Ordering.Moves s
      { s with machines := s.machines.push ⟨#[], checks⟩ } := by
  refine moves_of { hs.inv with numbered := fun m i l hPlace => ?_ }
    { Grows.refl s with machines := .push .refl _ _ }
  refine hs.inv.numbered m i l ?_
  simp only [table, getD_push] at hPlace ⊢
  split at hPlace
  · simp at hPlace
  · exact hPlace

/- A label that no table holds yet is added to one. -/
private theorem moves_enlist
    (hs : Ordering.Sound s)
    (m l : Ref)
    (hl : l < s.labels.size)
    (hRow : s.labels.getD l default =
      ⟨.int (s.machines.getD m default).labels.size,
        .machine m, none⟩) :
    Ordering.Moves s
      { s with
        machines := s.machines.modify m fun c =>
          { c with labels := c.labels.push l } } := by
  refine moves_of { hs.inv with numbered := fun m' i l' hPlace => ?_ }
    { Grows.refl s with
      machines := .modify .refl fun c _ =>
        ⟨by simp, rfl⟩ }
  simp only [table, getD_modify] at hPlace
  by_cases hHere : m = m' ∧ m' < s.machines.size
  · rw [if_pos hHere] at hPlace
    rcases hHere with ⟨rfl, _⟩
    by_cases hLast : i = (s.machines.getD m default).labels.size
    · rw [Array.getElem?_push, if_pos hLast] at hPlace
      obtain rfl := Option.some.inj hPlace
      refine ⟨none, ?_⟩
      rw [hLast, ← hRow]
      simp [hl]
    · rw [Array.getElem?_push, if_neg hLast] at hPlace
      exact hs.inv.numbered m i l' hPlace
  · rw [if_neg hHere] at hPlace
    exact hs.inv.numbered m' i l' hPlace

private theorem moves_labels
    (hs : Ordering.Sound s)
    {labels : Array LabelCell}
    (h : Persists LabelCell.Becomes s.labels labels) :
    Ordering.Moves s { s with labels := labels } := by
  refine moves_of { hs.inv with numbered := fun m i l hPlace => ?_ }
    { Grows.refl s with labels := h }
  rcases hs.inv.numbered m i l hPlace with ⟨code, hRow⟩
  rcases h l _ hRow with ⟨⟨_, _, code'⟩, hRow', hBecomes⟩
  obtain rfl := hBecomes.id
  obtain rfl := hBecomes.machine
  exact ⟨code', hRow'⟩

private theorem moves_newLabel
    (hs : Ordering.Sound s)
    (id machine : Value) :
    Ordering.Moves s
      { s with labels := s.labels.push ⟨id, machine, none⟩ } :=
  moves_labels hs (.push .refl _ _)

private theorem moves_setCode
    (hs : Ordering.Sound s)
    (l : Ref)
    {code : Closure}
    (hYields : (s.labels.getD l default).code = none ∨
      code.IsClient) :
    Ordering.Moves s
      { s with
        labels := s.labels.modify l
          ({ · with code := some code }) } := by
  refine moves_labels hs (.modify .refl fun c hRow =>
    ⟨rfl, rfl, fun hCode => ⟨code, rfl, ?_⟩⟩)
  rcases hYields with hVacant | hClient
  · rw [Array.getD_eq_getD_getElem?, hRow] at hVacant
    rw [Option.getD_some, hCode] at hVacant
    cases hVacant
  · exact .inr hClient

------------------------------------------------------------
-- Constructs
------------------------------------------------------------

private theorem moves_sequences
    (hs : Ordering.Sound s)
    {sequences : Array SequenceCell}
    (h : Persists SequenceCell.Becomes s.sequences sequences) :
    Ordering.Moves s { s with sequences := sequences } :=
  moves_of { hs.inv with } { Grows.refl s with sequences := h }

private theorem moves_recoveries
    (hs : Ordering.Sound s)
    {recoveries : Array RecoveryCell}
    (h : Persists RecoveryCell.Becomes s.recoveries recoveries) :
    Ordering.Moves s { s with recoveries := recoveries } :=
  moves_of { hs.inv with } { Grows.refl s with recoveries := h }

private theorem moves_cleanups
    (hs : Ordering.Sound s)
    {cleanups : Array CleanupCell}
    (h : Persists CleanupCell.Becomes s.cleanups cleanups)
    (hCounted : ∀ i : Ref,
      cleanups[i]?.any (·.compensated) =
        s.cleanups[i]?.any (·.compensated)) :
    Ordering.Moves s { s with cleanups := cleanups } :=
  moves_of
    { hs.inv with
      counted := fun i => by
        rw [hCounted]
        exact hs.inv.counted i }
    { Grows.refl s with cleanups := h }

/- A compensation that was not invoked is invoked now. -/
private theorem moves_compensating
    (hs : Ordering.Sound s)
    (i : Ref)
    (hNot : (s.cleanups.getD i default).compensated = false) :
    Ordering.Moves s (s.compensating i) := by
  have hi : i < s.cleanups.size := by
    refine Nat.lt_of_not_le fun hOut => ?_
    rw [getD_of_size_le _ hOut] at hNot
    cases hNot
  have hCount : ∀ j, (s.compensating i).compensations j =
      s.compensations j + if i = j then 1 else 0 := by
    intro j
    simp [compensations, compensating, withIncident,
      List.countP_cons, Incident.isCompensation]
  refine moves_of { hs.inv with counted := fun j => ?_ }
    { Grows.refl s with
      cleanups := .modify .refl fun c _ =>
        ⟨rfl, rfl, rfl, fun _ => rfl⟩
      compensated := fun j => by
        rw [hCount]
        exact Nat.le_add_right _ _ }
  rw [hCount, hs.inv.counted j]
  simp only [compensating, Array.getElem?_modify]
  by_cases hSame : i = j
  · subst hSame
    have hFlag : s.cleanups[i].compensated = false := by
      simpa [hi] using hNot
    simp [hi, hFlag]
  · simp [hSame]

/- Whatever is founded, it stays in order. -/
theorem founds : Ordering.Founds where
  own _ _ _ := trivial
  client _ _ := trivial
  applied _ := Iff.rfl
  received _ := Iff.rfl
  loopHead _ _ := ⟨fun _ => ⟨trivial, trivial⟩, fun _ => trivial⟩
  cursorLoop _ _ := Iff.rfl
  cursorItem _ := Iff.rfl
  resumption _ := Iff.rfl
  code _ _ _ := trivial
  newMachine checks hs := moves_newMachine hs checks
  enlist m l hs hl hRow := moves_enlist hs m l hl hRow
  newLabel id machine hs := moves_newLabel hs id machine
  setCode l hs _ hYields := moves_setCode hs l hYields
  handler _ _ := trivial
  compensation _ _ := trivial
  newSequence _ hs := moves_sequences hs (.push .refl _ _)
  alterSequence _ _ hs :=
    moves_sequences hs (.modify .refl fun _ _ => ⟨rfl, rfl, rfl⟩)
  newRecovery hs _ := moves_recoveries hs (.push .refl _ _)
  alterRecovery _ _ hs :=
    moves_recoveries hs
      (.modify .refl fun _ _ => ⟨rfl, rfl, rfl⟩)
  newCleanup {s cell} hs _ hNot :=
    moves_cleanups hs (.push .refl _ _) fun i => by
      simp only [Array.getElem?_push]
      split
      · next hLast => simp [hLast, hNot]
      · rfl
  alterCleanup {s} i inner hs :=
    moves_cleanups hs
      (.modify .refl fun _ _ => ⟨rfl, rfl, rfl, id⟩) fun j => by
        simp only [Array.getElem?_modify]
        split
        · cases s.cleanups[j]? <;> rfl
        · rfl
  compensating i hs hNot := moves_compensating hs i hNot
  newBuilder _ hs := moves hs ⟨rfl, rfl, rfl, rfl, rfl, rfl, rfl, rfl⟩
  tend _ _ hs := moves hs ⟨rfl, rfl, rfl, rfl, rfl, rfl, rfl, rfl⟩

end Ordering

end Resumption

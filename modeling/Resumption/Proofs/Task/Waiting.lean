import Resumption.Proofs.Task.Reachable

/-
  What a pending task waits for: a task that awaits futures
  and is handed off to futures is never forgotten.  Some
  pending future has the one callback that moves it on.

  Main declarations:
    * `AwaitsFutures`, `DriverCell.hears`
    * `Course.rests_pending`
    * `Session.Reachable.waits_once`
-/

namespace Resumption

open Session World

------------------------------------------------------------
-- Awaiting Futures
------------------------------------------------------------

/-
  Is it a future that a moment asks, or hands the task off
  to, and a label that it names?
-/
def Moment.onFutures : Moment → Bool
  | .asks _ future => future.isSome
  | .handsOver (.future _) => true
  | .handsOver _ => false
  | .suspends l => !l.isMissing
  | _ => true

/- Whatever a task asked for, it asked of futures. -/
def AwaitsFutures (story : List Moment) : Prop :=
  ∀ m ∈ story, m.onFutures

instance (story : List Moment) :
    Decidable (AwaitsFutures story) :=
  inferInstanceAs (Decidable (∀ m ∈ story, m.onFutures))

/-
  Would a closure tell a driver anything?  A callback does
  until it has fired.
-/
def DriverCell.hears
    (cell : DriverCell)
    (d : Ref) : Closure → Bool
  | .driverResume d' callback =>
      d' == d && !cell.fired.getD callback true
  | .driverOutcome d' _ => d' == d
  | _ => false

section Waiting

variable {s : Session}
variable {t d : Ref}
variable {p : Phase}
variable {cell : DriverCell}
variable {story : List Moment}

theorem AwaitsFutures.declared
    (h : AwaitsFutures story)
    {m : Moment}
    (hm : m ∈ story) :
    m.Declared := by
  have hOn := h m hm
  cases m with
  | handsOver v =>
      cases v with
      | future f => exact ⟨f, rfl⟩
      | _ => cases hOn
  | suspends l =>
      exact Bool.eq_false_iff.mp ((Bool.not_eq_true' _).mp hOn)
  | _ => trivial

------------------------------------------------------------
-- Resting and Pending
------------------------------------------------------------

/- A label that a task is to resume at was named before. -/
theorem Course.suspends_of_named
    {l : Value}
    (h : Course story p)
    (hPhase : p = .named l) :
    .suspends l ∈ story := by
  induction h with
  | nil => cases hPhase
  | cons _ hLeads ih =>
      subst hPhase
      cases hLeads with
      | answer => exact List.mem_cons_of_mem _ (ih rfl)
      | name => exact List.mem_cons_self

/-
  A task that rests and has not ended waits to be called
  back, if it awaits futures only.
-/
theorem Course.rests_pending
    (hCourse : Course (s.story t) p)
    (hRests : p.Rests False)
    (hSuits : Suits s cell p)
    (hMindful : Mindful False s d cell p)
    (hFutures : AwaitsFutures (s.story t))
    (hPending : s.ending cell = none) :
    ∃ e, p.expects? = some e := by
  cases p with
  | waiting l id => exact ⟨.resume, rfl⟩
  | handing => exact ⟨.conclude, rfl⟩
  | named l =>
      have hTyped :=
        hFutures.declared (hCourse.suspends_of_named rfl)
      exact absurd hMindful hTyped
  | ended v =>
      have hEnded := hSuits.2
      rw [hPending] at hEnded
      cases hEnded
  | overruled v =>
      have hEnded := hSuits.2
      rw [hPending] at hEnded
      cases hEnded
  | spoilt =>
      rcases hMindful with hNever | hEnded
      · exact hNever.elim
      · rw [hPending] at hEnded
        cases hEnded
  | wild =>
      rcases hCourse.wild_iff.mp rfl with ⟨v, hMem, hv⟩
      rcases hFutures.declared hMem with ⟨f, hf⟩
      exact absurd hf (hv f)
  | atOnce v => exact absurd hSuits id
  | passedOn => exact absurd hSuits id
  | overruling v => exact absurd hRests id
  | _ => exact absurd hRests id

------------------------------------------------------------
-- Live Callbacks
------------------------------------------------------------

/-
  What a driver hears of is a closure that only futures have,
  if the driver has not ended and awaits futures only.
-/
theorem DriverCell.hears_iff
    (hSane : Sane s)
    (hPlaced : Placed False s t)
    (hMinds : Minds False s t)
    (hDrives : s.Drives t d cell)
    (hFutures : AwaitsFutures (s.story t))
    (hOver : ¬ s.Over d)
    {f : Ref}
    {w : Closure}
    (hw : w ∈ s.watchers f) :
    cell.hears d w.core ↔ ∃ e, s.Tokens d e w := by
  constructor
  · intro hHears
    have hLive : ¬ s.Harmless w.core := by
      intro hHarmless
      unfold hears at hHears
      split at hHears
      · next d' k hCore =>
          rw [Bool.and_eq_true, beq_iff_eq] at hHears
          obtain ⟨rfl, _⟩ := hHears
          rw [hCore] at hHarmless
          rcases hHarmless with hEscaped | hEnded
          · have hAsked := hFutures _
              (hDrives.escaped_iff.mp hEscaped)
            cases hAsked
          · exact hOver hEnded
      · next d' awaiter hCore =>
          obtain rfl := beq_iff_eq.mp hHears
          rw [hCore] at hHarmless
          rcases hDrives.stray_iff.mp hHarmless with
            ⟨v, hMem, hv⟩
          rcases hFutures.declared hMem with ⟨f, hf⟩
          exact hv f hf
      · cases hHears
    have hHarm : ¬ s.Harmless w := fun hHarmless =>
      hLive ((Closure.harmless_core w).mpr hHarmless)
    have hPledge := (hSane.watcher f w hw).resolve_left hHarm
    rcases hPledge.tokens hHarm with
      ⟨_, d', _, e, _, hToken⟩
    -- A pledge is not wrapped, so it is this driver's own.
    cases e with
    | resume =>
        rcases hToken with ⟨k, rfl, hIdle⟩
        have hOwn := (Bool.and_eq_true _ _).mp hHears
        obtain rfl := beq_iff_eq.mp hOwn.1
        exact ⟨.resume, k, rfl, hIdle⟩
    | conclude =>
        rcases hToken with ⟨⟨awaiter, rfl⟩, hSteady⟩
        obtain rfl := beq_iff_eq.mp hHears
        exact ⟨.conclude, ⟨awaiter, rfl⟩, hSteady⟩
  · rintro ⟨e, hToken⟩
    have hAwaits :=
      hPlaced.awaits hMinds hSane hDrives hw hToken
    cases e with
    | resume =>
        rcases hToken with ⟨k, rfl, _⟩
        cases hAwaits with
        | resume hLeft _ =>
            simp [Closure.core, hears, hLeft]
    | conclude =>
        rcases hToken with ⟨⟨awaiter, rfl⟩, _⟩
        simp [Closure.core, hears]

/- What is found once and not twice is counted once. -/
theorem countP_eq_one
    {α : Type}
    {l : List α}
    {live : α → Bool}
    (hFound : ∃ a ∈ l, live a)
    (hApart : l.Pairwise fun a b => live a → ¬ live b) :
    l.countP live = 1 := by
  induction l with
  | nil =>
      rcases hFound with ⟨a, ha, _⟩
      cases ha
  | cons b l ih =>
      rw [List.pairwise_cons] at hApart
      by_cases hHead : live b
      · have hNone : l.countP live = 0 :=
          List.countP_eq_zero.mpr fun a ha =>
            hApart.1 a ha hHead
        rw [List.countP_cons_of_pos hHead, hNone]
      · rw [List.countP_cons_of_neg hHead]
        refine ih ?_ hApart.2
        rcases hFound with ⟨a, ha, hLive⟩
        rcases List.mem_cons.mp ha with rfl | hTail
        · exact absurd hLive hHead
        · exact ⟨a, hTail, hLive⟩

/- What a driver asked for last, its story tells. -/
theorem Session.mem_of_asked?
    {asked : Option Ref × Option Ref}
    (h : s.asked? t = some asked) :
    .asks asked.1 asked.2 ∈ s.story t := by
  rcases List.exists_of_findSome?_eq_some h with
    ⟨m, hMem, hm⟩
  cases m with
  | asks callback future =>
      cases hm
      exact hMem
  | _ => cases hm

/-
  A driver that waits is suspended, and a future that it
  asked is the only one that can tell it anything.
-/
theorem Mindful.asked
    {excused : Prop}
    {e : Errand}
    (h : Mindful excused s d cell p)
    (hExpects : p.expects? = some e)
    (hDrives : s.Drives t d cell)
    (hFutures : AwaitsFutures (s.story t)) :
    cell.state = .suspended ∧ ∃ callback f,
      s.asked? t = some (callback, some f) ∧
        ∀ f', ∀ w ∈ s.watchers f', s.Tokens d e w →
          f' = f := by
  cases p with
  | waiting l id =>
      obtain rfl := Option.some.inj hExpects
      rcases h with ⟨hState, k, future, hAsked, _, hTokens⟩
      rw [hDrives.2] at hAsked
      rcases Option.isSome_iff_exists.mp
        (hFutures _ (mem_of_asked? hAsked)) with ⟨f, hf⟩
      obtain rfl : future = some f := hf
      refine ⟨hState, some k, f, hAsked, ?_⟩
      intro f' w hw hToken
      exact (Option.some.inj (hTokens f' w hw hToken).2).symm
  | handing =>
      obtain rfl := Option.some.inj hExpects
      rcases h with ⟨hState, future, hAsked, hTokens⟩
      rw [hDrives.2] at hAsked
      rcases Option.isSome_iff_exists.mp
        (hFutures _ (mem_of_asked? hAsked)) with ⟨f, hf⟩
      obtain rfl : future = some f := hf
      refine ⟨hState, none, f, hAsked, ?_⟩
      intro f' w hw hToken
      exact (Option.some.inj (hTokens f' w hw hToken)).symm
  | _ => cases hExpects

------------------------------------------------------------
-- No Lost Callbacks
------------------------------------------------------------

/-
  A task whose driver has not ended it is suspended, and
  waits for one future: the one that was asked last.  That
  has not settled, it has the driver's callback once, and no
  other future has any.
-/
theorem Session.Reachable.waits_once
    (h : s.Reachable)
    (hDrives : s.Drives t d cell)
    (hFutures : AwaitsFutures (s.story t))
    (hPending : s.ending cell = none) :
    cell.state = .suspended ∧ ∃ callback f,
      s.asked? t = some (callback, some f) ∧
      s.outcome? f = none ∧
      (s.watchers f).countP (cell.hears d ·.core) = 1 ∧
      ∀ f' ≠ f, ∀ w ∈ s.watchers f',
        cell.hears d w.core = false := by
  have hSane := h.sound.inv.sane
  have hLt := hSane.owner t d cell hDrives
  have hMinds := h.minds hLt
  have hPlaced := h.placed hLt
  have hSeen := hPlaced
  rcases hSeen with ⟨p, hRests, hCourse, hSeated⟩
  rcases hSeated with ⟨hNone, _⟩ |
    ⟨d', cell', hDrives', _, hSuits, hOnly⟩
  · exact absurd hDrives (hNone d cell)
  obtain rfl := hSane.sole t d d' cell cell' hDrives hDrives'
  obtain ⟨_, rfl⟩ := hDrives.unique hDrives'
  have hMindful := hMinds d cell p hDrives hCourse
  rcases hCourse.rests_pending hRests hSuits hMindful hFutures
    hPending with ⟨e, hExpects⟩
  rcases hMindful.asked hExpects hDrives hFutures with
    ⟨hState, callback, f, hAsked, hAlone⟩
  have hOver : ¬ s.Over d := by
    intro hEnded
    rcases hDrives.over_iff.mp hEnded with
      ⟨state, hFinal, hMem⟩
    have hPhase := hCourse.phase_over hMem hFinal
    rw [hPhase.expects?] at hExpects
    cases hExpects
  have hHears : ∀ {f' w}, w ∈ s.watchers f' →
      (cell.hears d w.core ↔ s.Tokens d e w) := by
    intro f' w hw
    rw [DriverCell.hears_iff hSane hPlaced hMinds hDrives
      hFutures hOver hw]
    refine ⟨fun ⟨e', hToken⟩ => ?_, fun hToken => ⟨e, hToken⟩⟩
    have hPledges := hOnly e' ⟨f', w, hw, hToken⟩
    exact (Phase.pledges_of_expects hExpects).unique hPledges ▸
      hToken
  -- The driver is not lost, so some future has its callback.
  have hPledged : s.Pledged d e := by
    refine Classical.byContradiction fun hNot => ?_
    exact h.not_lost t ⟨d, cell, p, e, callback, f, hDrives,
      hCourse, hExpects, hAsked, hNot⟩
  rcases hPledged with ⟨f', w, hw, hToken⟩
  obtain rfl := hAlone f' w hw hToken
  refine ⟨hState, callback, f', hAsked, ?_, ?_, ?_⟩
  · cases hOutcome : s.outcome? f' with
    | none => rfl
    | some o =>
        rw [hSane.unwatched f' (by rw [hOutcome]; rfl)] at hw
        cases hw
  · refine countP_eq_one ⟨w, hw, (hHears hw).mpr hToken⟩ ?_
    refine (hSane.apart f').imp_of_mem fun ha hb hApart => ?_
    intro hLive hLive'
    exact hApart d e ((hHears ha).mp hLive)
      ((hHears hb).mp hLive')
  · intro f'' hOther w' hw'
    rw [← Bool.not_eq_true]
    intro hLive
    exact hOther (hAlone f'' w' hw' ((hHears hw').mp hLive))

end Waiting

/- Start a task that awaits a future which nobody settles. -/
def Program.awaitingPending : Program :=
  .perform .newFuture fun deferred =>
    .perform (.field deferred (.str "future")) fun source =>
      .request (.task true .undefined
        (fun args => .request
          (.bind (args.headD .undefined) source fun found =>
            .request
              (.newStep (.finish (found.headD .undefined)))))
        ⟨.undefined, .undefined, none⟩)

/- It waits, and the future has its callback. -/
theorem Session.waits_once_pending :
    ∃ cell : DriverCell,
      (Session.after .awaitingPending).Drives 0 0 cell ∧
      AwaitsFutures
        ((Session.after .awaitingPending).story 0) ∧
      (Session.after .awaitingPending).ending cell = none ∧
      cell.state = .suspended ∧ ∃ callback f,
        (Session.after .awaitingPending).asked? 0 =
          some (callback, some f) ∧
        (Session.after .awaitingPending).outcome? f = none ∧
        ((Session.after .awaitingPending).watchers f).countP
          (cell.hears 0 ·.core) = 1 ∧
        ∀ f' ≠ f,
          ∀ w ∈ (Session.after .awaitingPending).watchers f',
            cell.hears 0 w.core = false := by
  have hSize :
      0 < (Session.after .awaitingPending).drivers.size := by
    decide +kernel
  have hDrives : (Session.after .awaitingPending).Drives 0 0
      ((Session.after .awaitingPending).drivers.getD 0
        default) :=
    ⟨by simp [hSize], by decide +kernel⟩
  have hFutures : AwaitsFutures
      ((Session.after .awaitingPending).story 0) := by
    decide +kernel
  have hPending : (Session.after .awaitingPending).ending
      ((Session.after .awaitingPending).drivers.getD 0
        default) = none :=
    Option.isNone_iff_eq_none.mp (by decide +kernel)
  exact ⟨_, hDrives, hFutures, hPending,
    (Reachable.after .awaitingPending).waits_once hDrives
      hFutures hPending⟩

end Resumption

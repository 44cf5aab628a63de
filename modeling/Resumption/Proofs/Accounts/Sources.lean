import Resumption.Proofs.Accounts.Realizing

/-
  Awaiters of what names stand for: how they are got, and how
  they tell whether it has completed, and with what.

  A future, a variant of one, and whatever is foreign, whose
  future is made when it is bound, have awaiters that nobody
  counts.  Those of an awaitable that completes on demand are
  counted as they are got, asked and read.

  Main declarations:
    * `Future.ensures_ofForeign`
    * `Supply.Gains`, `Supply.ensures_source`
    * `Supply.result_awaits`
-/

namespace Resumption

open Run

variable {s s₁ s' : Session}

------------------------------------------------------------
-- Foreign Sources
------------------------------------------------------------

/- A session but for its promises, and what is made by them. -/
def Session.beside (s : Session) : Session :=
  { s with
    objects := 0
    events := 0
    microtasks := []
    promises := #[] }

/- Wherever it runs, it finishes, and touches promises only. -/
def Run.Aloof
    {α : Type}
    (act : Run α) : Prop :=
  ∀ s, act.Ensures s fun r s' =>
    (∃ a, r = .ok a) ∧ s'.beside = s.beside

namespace Run

variable {α β : Type}

theorem aloof_pure (a : α) :
    Aloof (pure a) :=
  fun _ => ensures_pure.mpr ⟨⟨a, rfl⟩, rfl⟩

theorem Aloof.bind
    {act : Run α}
    {next : α → Run β}
    (h : Aloof act)
    (hNext : ∀ a, Aloof (next a)) :
    Aloof (act >>= next) := by
  intro s
  refine Ensures.bind ((h s).mono ?_)
  rintro _ s₁ ⟨⟨a, rfl⟩, hBeside⟩
  refine (hNext a s₁).mono fun r s' hEnd => ?_
  exact ⟨hEnd.1, hEnd.2.trans hBeside⟩

theorem aloof_modify
    {g : Session → Session}
    (h : ∀ s, (g s).beside = s.beside) :
    Aloof (modify g) :=
  fun s => ensures_modify.mpr ⟨⟨_, rfl⟩, h s⟩

theorem Aloof.forM
    {act : α → Run PUnit}
    (h : ∀ a, Aloof (act a))
    (l : List α) :
    Aloof (l.forM act) := by
  induction l with
  | nil => exact aloof_pure _
  | cons a l ih => exact (h a).bind fun _ => ih

theorem aloof_enqueue (job : Job) :
    Aloof (enqueue job) :=
  aloof_modify fun _ => rfl

theorem aloof_row (p : Ref) :
    Aloof (Table.promises.row p) :=
  fun _ => ensures_row.mpr ⟨⟨_, rfl⟩, rfl⟩

theorem aloof_alter
    (p : Ref)
    (g : PromiseCell → PromiseCell) :
    Aloof (Table.promises.alter p g) :=
  aloof_modify fun _ => rfl

end Run

namespace Promise

theorem aloof_new : Aloof new := by
  intro s
  exact ensures_alloc.mpr ⟨⟨_, rfl⟩, rfl⟩

theorem aloof_settle
    (p : Ref)
    (outcome : Outcome) :
    Aloof (settle p outcome) := by
  refine (aloof_row p).bind fun cell => ?_
  split
  · exact aloof_pure _
  · refine (aloof_alter p _).bind fun _ => ?_
    exact Aloof.forM (fun _ => aloof_enqueue _) _

theorem aloof_resolve
    (p : Ref)
    (v : Value) :
    Aloof (resolve p v) := by
  have hError : Aloof Run.newTypeError := by
    intro s
    exact ensures_pure.mpr ⟨⟨_, rfl⟩, rfl⟩
  unfold resolve
  split
  · exact hError.bind fun e => aloof_settle p (.rejected e)
  · split
    · exact aloof_modify fun _ => rfl
    · exact aloof_settle p (.fulfilled v)

theorem aloof_ofValue (v : Value) :
    Aloof (ofValue v) := by
  unfold ofValue
  split
  · exact aloof_pure _
  · refine aloof_new.bind fun p => ?_
    exact (aloof_resolve p _).bind fun _ => aloof_pure _

theorem aloof_react
    (p : Ref)
    (onFulfilled onRejected : Option Closure) :
    Aloof (react p onFulfilled onRejected) := by
  refine aloof_new.bind fun derived => ?_
  refine (aloof_row p).bind fun cell => ?_
  cases cell.outcome with
  | some outcome =>
      exact (aloof_enqueue _).bind fun _ => aloof_pure _
  | none => exact (aloof_alter p _).bind fun _ => aloof_pure _

end Promise

/- Something foreign is awaited through a new, pending future. -/
theorem Future.ensures_ofForeign
    {v : Value}
    (h : v.Foreign) :
    (Awaitable.ofSource v).Ensures s fun r s' =>
      r = .ok (.future s.futures.size) ∧
        s'.beside = (s.withFuture (.fresh none)).beside := by
  have hNot : Awaitable.isAwaitable v s =
      some (.ok false, s) := by
    unfold Awaitable.isAwaitable
    rw [if_pos h.object]
    split
    · exact (h.future _ rfl).elim
    · exact (h.awaitable _ rfl).elim
    · rw [h.method]
      rfl
  intro r s' hRun
  unfold Awaitable.ofSource at hRun
  rw [bind_of_end hNot, ExceptT.bindCont] at hRun
  change Future.ofSource v s = _ at hRun
  revert r s'
  change (Future.ofSource v).Ensures s _
  unfold Future.ofSource
  split
  · exact (h.future _ rfl).elim
  · have hNew : Future.new s = some (.ok s.futures.size,
        s.withFuture (.fresh none)) :=
      rfl
    refine Ensures.bind fun r₁ s₁ hRun => ?_
    cases hNew.symm.trans hRun
    refine Ensures.bind
      ((Promise.aloof_ofValue _ _).mono ?_)
    rintro _ s₂ ⟨⟨p, rfl⟩, hBeside⟩
    refine Ensures.bind (Ensures.discard
      ((Promise.aloof_react p _ _ s₂).mono ?_))
    rintro _ s₃ ⟨⟨q, rfl⟩, hBeside'⟩
    exact ensures_pure.mpr ⟨rfl, hBeside'.trans hBeside⟩

------------------------------------------------------------
-- Counting
------------------------------------------------------------

/- A session with another use of an awaitable counted. -/
def Session.counting
    (s : Session)
    (c : Ref)
    (g : ControlledCell → ControlledCell) : Session :=
  { s with controlled := s.controlled.modify c g }

/- Another awaiter was got. -/
def ControlledCell.gotten
    (cell : ControlledCell) : ControlledCell :=
  { cell with awaiters := cell.awaiters + 1 }

/- An awaiter was asked once more. -/
def ControlledCell.asked
    (cell : ControlledCell) : ControlledCell :=
  { cell with completedChecks := cell.completedChecks + 1 }

/- An awaiter was read once more. -/
def ControlledCell.read
    (cell : ControlledCell) : ControlledCell :=
  { cell with resultReads := cell.resultReads + 1 }

namespace Supply

variable {ν : Type}
variable {S : Supply ν}
variable {x : ν}
variable {a b c f : Ref}
variable {o : Outcome}
variable {d : Charge ν}

/- Counting the uses of an awaitable charges for them. -/
theorem moves_counting
    {g : ControlledCell → ControlledCell}
    (hLabels : d.labels = 0)
    (hBilled : ∀ r cell, S.billed d r cell =
      if c = r then g cell else cell) :
    S.Moves .none d s (s.counting c g) where
  retains := { Session.Retains.refl (¬ Footprint.none ·) s with
    same := fun c _ _ => by cases c <;> rfl }
  surroundings := rfl
  labels := by
    rw [hLabels]
    rfl
  size := Array.size_modify
  billed r hr := by
    rw [hBilled]
    simp only [Session.counting, getD_modify, hr, and_true]
  awaitable _ _ h := h
  made := Nat.le_refl _
  future _ _ := rfl

/- A new future is no matter to what was there. -/
theorem moves_withFuture
    (s : Session)
    (row : FutureCell) :
    S.Moves .none .none s (s.withFuture row) where
  retains := Session.retains_withFuture _ s row
  surroundings := rfl
  labels := rfl
  size := rfl
  billed _ _ := rfl
  awaitable _ _ h := h
  made := by simp [Session.withFuture]
  future f hf := by
    simp only [Session.withFuture, Array.getElem?_push,
      if_neg (Nat.ne_of_lt hf)]

/- Nor are promises. -/
theorem idles_beside
    (h : s'.beside = s.beside) :
    S.Idles .none 0 s s' := by
  have hSame : s' = { s with
      objects := s'.objects
      events := s'.events
      microtasks := s'.microtasks
      promises := s'.promises } := by
    cases s
    cases s'
    simp only [Session.beside, Session.mk.injEq] at h ⊢
    simp only [h, and_self]
  rw [hSame]
  exact
    { retains := { Session.Retains.refl (¬ Footprint.none ·) s with
        same := fun c _ _ => by cases c <;> rfl }
      stock := rfl
      labels := rfl }

------------------------------------------------------------
-- Asking
------------------------------------------------------------

/-
  An awaiter of what a name stands for was got, in some
  session, and tells where it is asked whether that has
  completed.
-/
structure Gains
    (S : Supply ν)
    (x : ν)
    (a f : Ref)
    (s s₁ s₂ : Session) : Prop where
  asked : ∀ caller,
    Awaiter.completed caller (.awaiter a) s₁ =
      some (.ok (.bool (s₂.outcome? f).isSome), s₂)
  moves : S.Moves .none (.binding [x]) s s₂
  view : S.view s₂ = S.view s
  awaits : S.Awaits s₂ a x (some f)
  status : S.status s x = s₂.outcome? f

/- The row of an awaiter. -/
theorem awaiter_row
    {cell : AwaiterCell}
    (h : s.awaiters[a]? = some cell) :
    Table.awaiters.row a s = some (.ok cell, s) := by
  have hEnd : Table.awaiters.row a s =
      some (.ok (s.awaiters.getD a default), s) := rfl
  rw [hEnd]
  simp [Array.getD_eq_getD_getElem?, h]

/- Has a future come to something? -/
theorem isSome_outcome
    (s : Session)
    (f : Ref) :
    (s.outcome? f).isSome =
      (s.futures.getD f default).settlement.isSome := by
  unfold Session.outcome?
  exact Option.isSome_map

/- The awaiter of a future tells of that future. -/
theorem completed_future
    {captured : Bool}
    (h : s.awaiters[a]? = some (.future f captured))
    (caller : Caller) :
    Awaiter.completed caller (.awaiter a) s =
      some (.ok (.bool (s.outcome? f).isSome), s) := by
  rw [isSome_outcome]
  exact bind_of_end (awaiter_row h)

/- So does that of an awaitable of its own, and counts. -/
theorem completed_controlled
    (h : s.awaiters[a]? = some (.controlled c))
    (hc : c < s.controlled.size)
    (hFuture : (s.controlled.getD c default).future = f)
    (caller : Caller) :
    Awaiter.completed caller (.awaiter a) s =
      some (.ok (.bool (s.outcome? f).isSome),
        s.counting c .asked) := by
  have hBehind : ((s.counting c .asked).controlled.getD c
      default).future = f := by
    simp only [Session.counting, getD_modify, hc, and_self,
      if_true]
    exact hFuture
  have hAsked : Table.controlled.alter c .asked s =
      some (.ok ⟨⟩, s.counting c .asked) := rfl
  refine (bind_of_end (awaiter_row h)).trans ?_
  refine (bind_of_end hAsked).trans ?_
  rw [isSome_outcome, ← hBehind]
  rfl

/- A new awaiter of a future that nobody counts. -/
theorem gains_future
    {captured : Bool}
    (hProbe : (S.origin x).probe? = none)
    (hMoves : S.Moves .none .none s s₁)
    (hView : S.view s₁ = S.view s)
    (hStatus : S.status s x = s₁.outcome? f) :
    S.Gains x s₁.awaiters.size f s
      (s₁.withAwaiter (.future f captured))
      (s₁.withAwaiter (.future f captured)) := by
  have hRow : (s₁.withAwaiter (.future f captured)).awaiters[
      s₁.awaiters.size]? = some (.future f captured) := by
    simp [Session.withAwaiter]
  have hIdles := idles_withAwaiter (S := S) s₁
    (.future f captured)
  have hAll : S.Moves .none (.binding [x]) s _ :=
    (hMoves.trans hIdles.moves_none (fun _ _ hc => hc)
      fun _ _ hc => hc).worth (S.worth_binding hProbe)
  exact
    { asked := completed_future hRow
      moves := hAll
      view := hIdles.view_eq.trans hView
      awaits := .future hRow hProbe
      status := hStatus.trans (hIdles.outcome?_eq f).symm }

/- A new awaiter of an awaitable that completes on demand. -/
theorem gains_controlled
    (hs : S.Ready s)
    (hOrigin : S.origin x = .controlled b c f) :
    S.Gains x s.awaiters.size f s
      ((s.counting c .gotten).withAwaiter (.controlled c))
      (((s.counting c .gotten).withAwaiter
        (.controlled c)).counting c .asked) := by
  have hProbe : (S.origin x).probe? = some c := by
    rw [hOrigin]
    rfl
  rcases hs.controlled x b c f hOrigin with ⟨_, hc, hFuture⟩
  have hRow : ((s.counting c .gotten).withAwaiter
      (.controlled c)).awaiters[s.awaiters.size]? =
        some (.controlled c) := by
    simp [Session.withAwaiter, Session.counting]
  have hc' : c < ((s.counting c .gotten).withAwaiter
      (.controlled c)).controlled.size := by
    simpa [Session.withAwaiter, Session.counting] using hc
  have hFuture' : (((s.counting c .gotten).withAwaiter
      (.controlled c)).controlled.getD c default).future = f := by
    simp only [Session.withAwaiter, Session.counting, getD_modify,
      hc, and_self, if_true]
    exact hFuture
  have hAwaiter := (idles_withAwaiter (S := S)
    (s.counting c .gotten) (.controlled c)).retains
  refine
    { asked := completed_controlled hRow hc' hFuture'
      moves :=
        { retains := { hAwaiter with
            same := fun c hHas hc => hAwaiter.same c hHas hc }
          surroundings := rfl
          labels := rfl
          size := by
            simp [Session.withAwaiter, Session.counting]
          billed := fun r hr => ?_
          awaitable := fun _ _ h => h
          made := Nat.le_refl _
          future := fun _ _ => rfl }
      view := rfl
      awaits := .controlled hRow hOrigin
      status := by
        rw [status, hOrigin]
        rfl }
  simp only [Session.withAwaiter, Session.counting, getD_modify,
    Array.size_modify, hr, and_true, Supply.billed,
    Charge.binding, S.tally_of_some hProbe, tally_nil,
    Nat.add_zero]
  split
  · rfl
  · rfl

------------------------------------------------------------
-- Getting Awaiters
------------------------------------------------------------

/- An awaiter was got, as a run ended. -/
def Gained
    (S : Supply ν)
    (x : ν)
    (s : Session)
    (r : Except Value Value)
    (s₁ : Session) : Prop :=
  ∃ a f s₂, r = .ok (.awaiter a) ∧ S.Gains x a f s s₁ s₂

/- An awaiter that is client code was got, and nothing else. -/
def Attended
    (completed result : Effect)
    (register : Closure)
    (s : Session)
    (r : Except Value Value)
    (s₁ : Session) : Prop :=
  r = .ok (.awaiter s.awaiters.size) ∧
    s₁ = s.withAwaiter
      (.custom (.ofEffects completed result register))

/- Whoever asks something for an awaiter gets a new one. -/
structure Grants
    (S : Supply ν)
    (x : ν)
    (v : Value)
    (s s₁ : Session) : Prop where
  attached : ∀ caller,
    (Awaiter.ofValue caller v).Ensures s₁ (S.Gained x s)
  detached : ∀ caller,
    (Awaitable.detachedAwaiter caller v).Ensures s₁
      (S.Gained x s)

/- A future has awaiters of either kind. -/
theorem grants_future
    (hProbe : (S.origin x).probe? = none)
    (hMoves : S.Moves .none .none s s₁)
    (hView : S.view s₁ = S.view s)
    (hStatus : S.status s x = s₁.outcome? f) :
    S.Grants x (.future f) s s₁ where
  attached caller := by
    rw [Awaiter.ofValue]
    cases caller.rounds with
    | zero => exact ensures_exhaust
    | succ n =>
        exact ensures_pure.mpr ⟨_, f, _, rfl,
          gains_future hProbe hMoves hView hStatus⟩
  detached caller :=
    ensures_pure.mpr ⟨_, f, _, rfl,
      gains_future hProbe hMoves hView hStatus⟩

/- The row of an awaitable. -/
theorem awaitable_row
    {row : AwaitableCell}
    (h : s.awaitables[a]? = some row) :
    Table.awaitables.row a s = some (.ok row, s) := by
  have hEnd : Table.awaitables.row a s =
      some (.ok (s.awaitables.getD a default), s) := rfl
  rw [hEnd]
  simp [Array.getD_eq_getD_getElem?, h]

/- An awaitable with no variant has one kind of awaiter. -/
theorem ensures_plain
    {row : AwaitableCell}
    {caller : Caller}
    {post : Except Value Value → Session → Prop}
    (hRow : s.awaitables[a]? = some row)
    (hPlain : ∀ base code, row ≠ .configurable base code)
    (h : (Awaiter.ofValue caller (.awaitable a)).Ensures s
      post) :
    (Awaitable.detachedAwaiter caller (.awaitable a)).Ensures s
      post := by
  have hNot : Awaitable.isConfigurable (.awaitable a) s =
      some (.ok false, s) := by
    refine (bind_of_end (awaitable_row hRow)).trans ?_
    cases row with
    | configurable base code => exact (hPlain _ _ rfl).elim
    | configured _ _ => rfl
    | controlled _ => rfl
    | custom _ => rfl
  refine Ensures.bind fun r₁ s₁ hRun => ?_
  cases hNot.symm.trans hRun
  exact h

theorem grants_awaitable
    {row : AwaitableCell}
    (hRow : s.awaitables[a]? = some row)
    (hPlain : ∀ base code, row ≠ .configurable base code)
    (hGains : ∀ caller,
      (Awaiter.ofValue caller (.awaitable a)).Ensures s
        (S.Gained x s)) :
    S.Grants x (.awaitable a) s s where
  attached := hGains
  detached caller := ensures_plain hRow hPlain (hGains caller)

/- What a name stands for has awaiters of the library's own, -/
theorem ensures_source
    (hs : S.Ready s)
    (x : ν)
    (hOwn : (S.origin x).custom? = none) :
    (Awaitable.ofSource (S.origin x).value).Ensures s
      fun r s₁ => ∃ v, r = .ok v ∧ S.Grants x v s s₁ := by
  cases hOrigin : S.origin x with
  | future f =>
      refine ensures_pure.mpr ⟨_, rfl, ?_⟩
      exact grants_future (by rw [hOrigin]; rfl)
        (.refl .none s) rfl (by rw [status, hOrigin]; rfl)
  | configured b f captured =>
      have hRow := hs.configured x b f captured hOrigin
      refine ensures_pure.mpr ⟨_, rfl, ?_⟩
      refine grants_awaitable hRow (fun _ _ h => by cases h)
        fun caller => ?_
      rw [Awaiter.ofValue]
      cases caller.rounds with
      | zero => exact ensures_exhaust
      | succ n =>
          refine Ensures.bind fun r₁ s₁ hRun => ?_
          cases (awaitable_row hRow).symm.trans hRun
          exact ensures_pure.mpr ⟨_, f, _, rfl,
            gains_future (by rw [hOrigin]; rfl) (.refl .none s)
              rfl (by rw [status, hOrigin]; rfl)⟩
  | controlled b c f =>
      have hRow := (hs.controlled x b c f hOrigin).1
      refine ensures_pure.mpr ⟨_, rfl, ?_⟩
      refine grants_awaitable hRow (fun _ _ h => by cases h)
        fun caller => ?_
      rw [Awaiter.ofValue]
      cases caller.rounds with
      | zero => exact ensures_exhaust
      | succ n =>
          refine Ensures.bind fun r₁ s₁ hRun => ?_
          cases (awaitable_row hRow).symm.trans hRun
          exact ensures_pure.mpr ⟨_, f, _, rfl,
            gains_controlled hs hOrigin⟩
  | custom b completed result register =>
      rw [hOrigin] at hOwn
      cases hOwn
  | foreign v h =>
      refine (Future.ensures_ofForeign h).mono ?_
      rintro _ s₁ ⟨rfl, hBeside⟩
      have hIdles := idles_beside (S := S) hBeside
      have hMoves := moves_withFuture (S := S) s (.fresh none)
      refine ⟨_, rfl, grants_future (by rw [hOrigin]; rfl)
        (hMoves.trans hIdles.moves_none (fun _ _ hc => hc)
          fun _ _ hc => hc)
        (hIdles.view_eq.trans (hMoves.view_eq hs rfl)) ?_⟩
      have hFresh : (s.withFuture (.fresh none)).outcome?
          s.futures.size = none := by
        simp [Session.outcome?, Session.withFuture,
          FutureCell.fresh]
      rw [status, hOrigin, hIdles.outcome?_eq, hFresh]
      rfl

/- or one that is client code. -/
theorem ensures_custom_source
    (hs : S.Ready s)
    {completed result : Effect}
    {register : Closure}
    (hOrigin : S.origin x = .custom a completed result register) :
    (Awaitable.ofSource (S.origin x).value).Ensures s
      fun r s₁ => r = .ok (.awaitable a) ∧ s₁ = s ∧
        ∀ caller,
          (Awaiter.ofValue caller (.awaitable a)).Ensures s
              (Attended completed result register s) ∧
            (Awaitable.detachedAwaiter caller
              (.awaitable a)).Ensures s
                (Attended completed result register s) := by
  have hRow := hs.custom x a completed result register hOrigin
  have hNew : ∀ caller,
      (Awaiter.ofValue caller (.awaitable a)).Ensures s
        (Attended completed result register s) := by
    intro caller
    rw [Awaiter.ofValue]
    cases caller.rounds with
    | zero => exact ensures_exhaust
    | succ n =>
        refine Ensures.bind fun r₁ s₁ hRun => ?_
        cases (awaitable_row hRow).symm.trans hRun
        exact ensures_pure.mpr ⟨rfl, rfl⟩
  rw [hOrigin]
  refine ensures_pure.mpr ⟨rfl, rfl, fun caller =>
    ⟨hNew caller, ?_⟩⟩
  exact ensures_plain hRow (fun _ _ h => by cases h) (hNew caller)

------------------------------------------------------------
-- Reading
------------------------------------------------------------

/- What has come to something has settled so. -/
theorem settledAs_of_outcome
    (h : s.outcome? f = some o) :
    s.SettledAs f o := by
  rcases Option.map_eq_some_iff.mp h with ⟨t, ht, ho⟩
  exact ⟨t, ht, ho⟩

/- A settled future has its outcome for a result. -/
theorem result_settledAs
    (h : s.SettledAs f o) :
    Future.result f s = some (o.toExcept, s) := by
  rcases h with ⟨t, ht, rfl⟩
  have hSettlement : Future.settlement? f s =
      some (.ok (some t), s) := by
    rw [← ht]
    rfl
  refine (bind_of_end hSettlement).trans ?_
  rcases t with ⟨id, outcome⟩
  cases outcome <;> rfl

/- A result is there for whoever reads it, and is counted. -/
theorem result_awaits
    (hs : S.Ready s)
    (hAwaits : S.Awaits s a x (some f))
    (hOutcome : s.outcome? f = some o) :
    ∃ s', S.Moves .none (.reading [x]) s s' ∧
      S.view s' = S.view s ∧
      ∀ caller, Awaiter.result caller (.awaiter a) s =
        some (o.toExcept, s') := by
  have hAs := settledAs_of_outcome hOutcome
  cases hAwaits with
  | future hRow hProbe =>
      exact ⟨s, Moves.worth (.refl .none s)
        (S.worth_reading hProbe), rfl,
        Awaiter.result_eq ⟨_, hRow⟩ hAs⟩
  | controlled hRow hOrigin =>
      rename_i b c
      rcases hs.controlled x b c f hOrigin with ⟨_, hc, hFuture⟩
      have hProbe : (S.origin x).probe? = some c := by
        rw [hOrigin]
        rfl
      refine ⟨s.counting c .read, ?_, rfl, fun caller => ?_⟩
      · refine moves_counting rfl fun r cell => ?_
        simp only [billed, Charge.reading,
          S.tally_of_some hProbe, tally_nil, Nat.add_zero]
        split <;> rfl
      · have hBehind : ((s.counting c .read).controlled.getD c
            default).future = f := by
          simp only [Session.counting, getD_modify, hc,
            and_self, if_true]
          exact hFuture
        have hRead : Table.controlled.alter c .read s =
            some (.ok ⟨⟩, s.counting c .read) := rfl
        refine (bind_of_end (awaiter_row hRow)).trans ?_
        refine (bind_of_end hRead).trans ?_
        change Future.result ((s.counting c .read).controlled.getD
          c default).future (s.counting c .read) = _
        rw [hBehind]
        exact result_settledAs hAs

end Supply

end Resumption

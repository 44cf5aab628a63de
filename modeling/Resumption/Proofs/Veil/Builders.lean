import Resumption.Proofs.Veil.Tasks

/-
  Builders await the same under a veil, whether or not they
  keep the ambient context.

  Where context rules are hidden no context is ambient, and
  an awaiter that would keep one does no more than one that
  would not.  Only a source with a variant of its own can
  tell which one it was asked for.

  Main declarations:
    * `Veil.awaitBy`, `Veil.meets_awaitBy`
    * `Veil.matches_builderBind`
    * `Veil.matches_startTask`
-/

namespace Resumption

open Run

namespace Veil

variable {V : Veil}
variable {α : Type}
variable {s t : Session}
variable {c c' : Caller}

------------------------------------------------------------
-- Detached Awaits
------------------------------------------------------------

theorem typeError_bind
    {β : Type}
    (f : α → Run β) :
    (typeError >>= f) = typeError := by
  funext s
  rfl

/- What follows depends on where a run ends alone. -/
theorem bind_congr_at
    {β : Type}
    {act act' : Run α}
    (h : act t = act' t)
    (f : α → Run β) :
    (act >>= f) t = (act' >>= f) t := by
  change (act t).bind (fun out =>
    ExceptT.bindCont f out.1 out.2) = _
  rw [h]
  rfl

/- Whether an object offers awaiters is plain to see. -/
theorem isAwaitable_eq
    {v : Value}
    (hObject : v.isObject = true) :
    ∃ awaitable, Awaitable.isAwaitable v = pure awaitable := by
  unfold Awaitable.isAwaitable
  rw [if_pos hObject]
  split <;> exact ⟨_, rfl⟩

/- An object that is no future offers a variant if it says so. -/
theorem isConfigurable_eq
    {v : Value}
    (hObject : v.isObject = true)
    (hFuture : ∀ f, v ≠ .future f) :
    Awaitable.isConfigurable v t =
      some (.ok (Awaitable.offers t v), t) := by
  cases v with
  | future f => exact (hFuture f rfl).elim
  | awaitable a =>
      have hRow : Table.awaitables.row a t =
          some (.ok (t.awaitables.getD a default), t) :=
        rfl
      refine (bind_of_end hRow).trans ?_
      unfold Awaitable.offers
      dsimp only
      cases t.awaitables.getD a default <;> rfl
  | undefined => simp [Value.isObject] at hObject
  | null => simp [Value.isObject] at hObject
  | bool b => simp [Value.isObject] at hObject
  | int n => simp [Value.isObject] at hObject
  | str text => simp [Value.isObject] at hObject
  | _ => rfl

/- Nothing offers a variant under the veil that did not. -/
theorem Sees.offers_eq
    (h : V.Sees s t)
    (v : Value) :
    Awaitable.offers t v = Awaitable.offers s v := by
  cases v with
  | awaitable a =>
      have hRow : t.awaitables.getD a default =
          V.awaitableRow (s.awaitables.getD a default) :=
        h.awaitables.row a
      simp only [Awaitable.offers, hRow]
      cases s.awaitables.getD a default <;> rfl
  | _ => rfl

/- Only what is done in the two sessions matters. -/
theorem Meets.congr
    {β γ : Type}
    {R : β → γ → Prop}
    {act act₁ : Run β}
    {act' act₁' : Run γ}
    (h : V.Meets R act act' s t)
    (hSame : act₁ s = act s)
    (hSame' : act₁' t = act' t) :
    V.Meets R act₁ act₁' s t := by
  intro r s' hRun hHidden
  rw [hSame] at hRun
  rcases h r s' hRun hHidden with ⟨r', t', hEnd, hRest⟩
  exact ⟨r', t', hSame'.trans hEnd, hRest⟩

------------------------------------------------------------
-- Either Rule
------------------------------------------------------------

/- The awaiter that keeps the context, or one that does not. -/
def awaiterBy
    (keeps : Bool)
    (c : Caller)
    (v : Value) : Run Value :=
  if keeps then Awaiter.ofValue c v
  else Awaitable.detachedAwaiter c v

/- Await a source by either rule. -/
def awaitBy
    (keeps : Bool)
    (c : Caller)
    (m source : Value)
    (rest : Closure) : Run Value := do
  let awaitable ← Awaitable.ofSource source
  let awaiter ← awaiterBy keeps c awaitable
  Await.awaitResult c m awaiter rest

theorem awaitBy_eq
    (keeps : Bool)
    (m source : Value)
    (rest : Closure) :
    (if keeps then Await.bind c m source rest
      else Await.bindDetached c m source rest) =
      awaitBy keeps c m source rest := by
  cases keeps <;> rfl

/- The awaiter of a future has the rule that was asked for. -/
theorem awaiterBy_future
    (h : c.rounds ≠ 0)
    (keeps : Bool)
    (f : Ref) :
    awaiterBy keeps c (.future f) =
      Awaiter.new (.future f keeps) := by
  cases keeps with
  | false => rfl
  | true =>
      unfold awaiterBy Awaiter.ofValue
      cases hRounds : c.rounds with
      | zero => exact (h hRounds).elim
      | succ n => rfl

/- What offers no variant has one awaiter only. -/
theorem awaiterBy_eq
    {v : Value}
    (hObject : v.isObject = true)
    (hFuture : ∀ f, v ≠ .future f)
    (hOffers : Awaitable.offers t v = false)
    (keeps : Bool) :
    awaiterBy keeps c v t = Awaiter.ofValue c v t := by
  cases keeps with
  | true => rfl
  | false =>
      have hNot := isConfigurable_eq (t := t) hObject hFuture
      rw [hOffers] at hNot
      exact bind_of_end hNot

/-
  Where no context is ambient, it is the same to await by
  either rule.
-/
theorem meets_awaitBy
    {m source : Value}
    {rest : Closure}
    (hc : V.Serves c c')
    (hContexts : V.contexts = true)
    (keeps keeps' : Bool)
    (hSees : V.Sees s t)
    (hOffers : Awaitable.offers s source = false) :
    V.Meets Eq (awaitBy keeps c m source rest)
      (awaitBy keeps' c' m source (V.closure rest)) s t := by
  have hRest : ∀ awaiter, V.Matches Eq
      (Await.awaitResult c m awaiter rest)
      (Await.awaitResult c' m awaiter (V.closure rest)) :=
    fun awaiter => matches_awaitResult hc m awaiter rest
  have hReady' : c'.rounds ≠ 0 := by
    rw [hc.rounds]
    exact hc.ready hContexts
  have hFuture : ∀ f, V.Matches Eq
      (awaiterBy keeps c (.future f))
      (awaiterBy keeps' c' (.future f)) := by
    intro f
    rw [awaiterBy_future (hc.ready hContexts), awaiterBy_future hReady']
    exact matches_newFutureAwaiter f
      fun h => by simp [hContexts] at h
  by_cases hObject : source.isObject = true
  · by_cases hOther : ∃ f, source = .future f
    · rcases hOther with ⟨f, rfl⟩
      exact ((hFuture f).bind hRest).meets hSees
    rcases isAwaitable_eq hObject with ⟨awaitable, hAwaitable⟩
    cases awaitable with
    | true =>
        have hSource : Awaitable.ofSource source =
            pure source := by
          simp [Awaitable.ofSource, hAwaitable]
        have hOffers' := (hSees.offers_eq source).trans hOffers
        have hFuture : ∀ f, source ≠ .future f :=
          fun f hf => hOther ⟨f, hf⟩
        simp only [awaitBy, hSource, pure_bind]
        exact (((matches_ofValue hc source).bind
          hRest).meets hSees).congr
            (bind_congr_at
              (awaiterBy_eq hObject hFuture hOffers keeps) _)
            (bind_congr_at
              (awaiterBy_eq hObject hFuture hOffers' keeps') _)
    | false =>
        have hSource : Awaitable.ofSource source =
            Future.ofSource source := by
          simp [Awaitable.ofSource, hAwaitable]
        have hGo : ∀ v, Goes (awaiterBy keeps c v) := by
          intro v
          cases keeps with
          | true => exact (matches_ofValue hc v).goes
          | false => exact (matches_detachedAwaiter hc v).goes
        simp only [awaitBy, hSource]
        refine ((matches_ofSource_future source).meets
          hSees).bind (fun v => ?_) ?_
        · exact (hGo v).bind fun awaiter => (hRest awaiter).goes
        · rintro _ _ s₁ t₁ ⟨rfl, f, rfl⟩ hSees₁
          exact ((hFuture f).bind hRest).meets hSees₁
  · have hAwaitable : Awaitable.isAwaitable source = typeError :=
      if_neg hObject
    have hSource : Awaitable.ofSource source = typeError := by
      rw [Awaitable.ofSource, hAwaitable, typeError_bind]
    simp only [awaitBy, hSource, typeError_bind]
    exact matches_typeError.meets hSees

theorem matches_awaitBy
    (hc : V.Serves c c')
    (keeps : Bool)
    (m source : Value)
    (rest : Closure) :
    V.Matches Eq (awaitBy keeps c m source rest)
      (awaitBy keeps c' m source (V.closure rest)) := by
  cases keeps with
  | true => exact matches_awaitBind hc m source rest
  | false => exact matches_bindDetached hc m source rest

------------------------------------------------------------
-- Builders
------------------------------------------------------------

theorem matches_newBuilder
    {captured captured' : Value}
    (m : Value)
    (h : V.contexts = false → captured' = captured) :
    V.Matches Eq (Builder.new m captured)
      (Builder.new m captured') := by
  have hRow : V.BuilderRow ⟨m, captured⟩ ⟨m, captured'⟩ :=
    ⟨rfl, h⟩
  exact (column_builders.alloc hRow).bind fun _ =>
    matches_pure rfl

theorem matches_builderMachine
    (m : Value) :
    V.Matches Eq (Builder.machineOf m)
      (Builder.machineOf m) := by
  unfold Builder.machineOf
  split
  · refine column_builders.row_bind ?_
    rintro cell cell' ⟨hMachine, _⟩
    rw [hMachine]
    exact matches_pure rfl
  · exact matches_pure rfl

theorem matches_labelCount
    (m : Value) :
    V.Matches Eq (Builder.labelCount m)
      (Builder.labelCount m) :=
  (matches_builderMachine m).bind fun m =>
    matches_field m (by simp [capturedKey])

theorem matches_require
    (b : Value) :
    V.Matches Eq (Builder.require b) (Builder.require b) := by
  unfold Builder.require
  split
  · exact matches_pure rfl
  · exact matches_typeError

/-
  A builder's choice between the two ways to await does not
  show, unless a source is asked for a variant of its own.
-/
theorem matches_builderBind
    (hc : V.Serves c c')
    (m source : Value)
    (rest : Closure) :
    V.Matches Eq (Builder.bind c m source rest)
      (Builder.bind c' m source (V.closure rest)) := by
  unfold Builder.bind
  split
  · refine column_builders.row_bind ?_
    rintro cell cell' ⟨hMachine, hCaptured⟩
    simp only [awaitBy_eq, hMachine]
    have hMatches := fun keeps =>
      matches_awaitBy hc keeps cell.machine source rest
    refine ⟨goes_get_bind fun _ => (goes_chronicle rfl).bind
      fun _ => (hMatches _).goes, ?_⟩
    intro s t hSees
    refine ensures_get_bind.mpr (ensures_modify_bind.mpr ?_)
    intro r s' hRun hHidden
    have hGone := (hMatches _).goes _ r s' hRun
    have hHides :
        V.Hides (.binds source (Awaitable.offers s source)) :=
      hHidden _ (hGone.chronicle.subset List.mem_cons_self)
    have hSees₁ := hSees.withIncident
      (i := .binds source (Awaitable.offers s source))
      (j := .binds source (Awaitable.offers t source))
      rfl rfl rfl
    cases hContexts : V.contexts with
    | true =>
        exact meets_awaitBy hc hContexts _ _ hSees₁
          (hHides hContexts) r s' hRun hHidden
    | false =>
        rw [hCaptured hContexts]
        exact (hMatches _).meets hSees₁ r s' hRun hHidden
  · exact matches_awaitBind hc _ source rest

theorem matches_returnFrom
    (hc : V.Serves c c')
    (b source : Value) :
    V.Matches Eq (Builder.returnFrom c b source)
      (Builder.returnFrom c' b source) := by
  unfold Builder.returnFrom
  split
  · exact matches_newStep _
  · refine (matches_isAwaitable source).bind fun awaitable => ?_
    split
    · exact matches_builderBind hc b source .finished
    · exact (matches_ofSource source).bind fun _ =>
        matches_newStep _

------------------------------------------------------------
-- Starting Tasks
------------------------------------------------------------

/-
  A task is started alike, on a machine that may check
  nothing and with a builder of another rule.
-/
theorem matches_startTask
    (hc : V.Serves c c')
    (captured : Bool)
    (assertions : Value)
    (code : Closure)
    (em : Emitter) :
    V.Matches Eq (Task.start c captured assertions code em)
      (Task.start c' (V.rule.getD captured)
        (if V.checks then .bool false else assertions)
        (V.closure code) (V.emitter em)) := by
  refine (matches_newMachine assertions).bind fun m => ?_
  refine (matches_newBuilder m fun hContexts => ?_).bind
    fun b => matches_runTask hc m (.applied code [b]) em
  have hNone : V.rule = none := by
    simpa [contexts] using hContexts
  rw [hNone]
  rfl

end Veil

end Resumption

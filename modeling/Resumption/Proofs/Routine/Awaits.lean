import Resumption.Proofs.Routine.Delivers

/-
  Awaiting a future delivers what the reading does after the
  await, whether the future has settled or not.

  Main declarations:
    * `Session.withAwaiter`
    * `Await.delivers_awaitResult`
    * `Builder.delivers_bind`
-/

namespace Resumption

open Run

variable {ν : Type}
variable {E : Setting ν}
variable {hands : Prop}
variable {F G : Footprint}
variable {s s' : Session}
variable {R R' : Reading ν}
variable {o : Except (Stop ν) Value}
variable {a : Ref}
variable {x : ν}
variable {fate : Fate}

------------------------------------------------------------
-- Awaiters
------------------------------------------------------------

/- A session with one more awaiter. -/
def Session.withAwaiter
    (s : Session)
    (cell : AwaiterCell) : Session :=
  { s with awaiters := s.awaiters.push cell }

@[simp] theorem Session.memory_withAwaiter
    (s : Session)
    (cell : AwaiterCell)
    (own : Territory) :
    (s.withAwaiter cell).memory own = s.memory own := by
  simp only [memory, withAwaiter]

/- One more awaiter is a move. -/
theorem Setting.moves_withAwaiter
    (E : Setting ν)
    (s : Session)
    (cell : AwaiterCell) :
    E.Moves .none s (s.withAwaiter cell) where
  retains :=
    { Session.Retains.refl _ s with
      awaiter := by
        intro b row hRow
        have hLt : b < s.awaiters.size :=
          (Array.getElem?_eq_some_iff.mp hRow).1
        have hNe : b ≠ s.awaiters.size := Nat.ne_of_lt hLt
        simp only [Session.withAwaiter, Array.getElem?_push,
          if_neg hNe]
        exact hRow }
  backdrop := rfl
  foreign _ _ := rfl

/- The awaiter that was added reads what it was made for. -/
theorem Session.reads_withAwaiter
    (s : Session)
    (f : Ref)
    (captured : Bool) :
    (s.withAwaiter (.future f captured)).Reads
      s.awaiters.size f :=
  ⟨captured, by simp [Session.withAwaiter]⟩

/- So it does in a setting, unless that is to be detached. -/
theorem Setting.reads_withAwaiter
    (s : Session)
    (f : Ref)
    {captured : Bool}
    (hDetached : E.detached → captured = false) :
    E.Reads (s.withAwaiter (.future f captured))
      s.awaiters.size f :=
  ⟨captured, by simp [Session.withAwaiter], hDetached⟩

namespace Awaiter

theorem new_eq
    (cell : AwaiterCell)
    (s : Session) :
    new cell s =
      some (.ok (.awaiter s.awaiters.size),
        s.withAwaiter cell) :=
  rfl

/- A future gives an awaiter of its own. -/
theorem leads_ofValue
    (f : Ref)
    (s : Session) :
    Leads (fun c => ofValue c (.future f)) s
      (.ok (.awaiter s.awaiters.size))
      (s.withAwaiter (.future f true)) := by
  refine ⟨1, fun rounds depth hRounds _ => ?_⟩
  have hSome : rounds = rounds - 1 + 1 := by omega
  dsimp only [ofValue]
  rw [rounds_ofDepth, hSome]
  rfl

/- The awaiter of a future is made at once, whatever runs it. -/
theorem ensures_made
    (caller : Caller)
    (f : Ref) :
    (ofValue caller (.future f)).Ensures s fun r s' =>
      s' = s.withAwaiter (.future f true) ∧
        r = .ok (.awaiter s.awaiters.size) ∧
        s'.awaiters[s.awaiters.size]? =
          some (.future f true) := by
  unfold ofValue
  cases caller.rounds with
  | zero => exact Run.ensures_exhaust
  | succ n =>
      refine Run.ensures_alloc_bind.mpr
        (Run.ensures_pure.mpr ⟨rfl, rfl, ?_⟩)
      simp [Table.awaiters]

theorem row_eq
    {f : Ref}
    (h : s.Reads a f) :
    ∃ captured, s.awaiters.getD a default =
      .future f captured := by
  rcases h with ⟨captured, hRow⟩
  exact ⟨captured, by
    simp [Array.getD_eq_getD_getElem?, hRow]⟩

/- Has the future settled? -/
theorem completed_eq
    {f : Ref}
    (h : s.Reads a f)
    (caller : Caller) :
    completed caller (.awaiter a) s =
      some (.ok (.bool
        (s.futures.getD f default).settlement.isSome), s) := by
  rcases row_eq h with ⟨captured, hRow⟩
  have hEnd : Table.awaiters.row a s =
      some (.ok (.future f captured), s) := by
    rw [← hRow]
    rfl
  exact bind_of_end hEnd

/- The result of a future that has settled. -/
theorem result_eq
    {f : Ref}
    {outcome : Outcome}
    (hReads : s.Reads a f)
    (hSettled : s.SettledAs f outcome)
    (caller : Caller) :
    result caller (.awaiter a) s =
      some (outcome.toExcept, s) := by
  rcases row_eq hReads with ⟨captured, hRow⟩
  have hEnd : Table.awaiters.row a s =
      some (.ok (.future f captured), s) := by
    rw [← hRow]
    rfl
  rcases hSettled with ⟨t, ht, rfl⟩
  have hSettlement : Future.settlement? f s =
      some (.ok (some t), s) := by
    rw [← ht]
    rfl
  have hResult : Future.result f s =
      some (t.outcome.toExcept, s) := by
    refine (bind_of_end hSettlement).trans ?_
    rcases t with ⟨id, outcome⟩
    cases outcome <;> rfl
  exact (bind_of_end hEnd).trans hResult

end Awaiter

/- A future that has settled has settled as it was to. -/
theorem Setting.Calm.settledAs
    (h : E.Calm s)
    (hFate : E.fates x = some fate)
    (hSettled : s.Settled (E.place x)) :
    ∃ outcome, s.SettledAs (E.place x) outcome ∧
      E.Matches s (fate.result x) outcome.toExcept := by
  rcases Session.settled_iff.mp hSettled with ⟨outcome, hAs⟩
  have hAllows := (h.fated x fate hFate).2 outcome hAs
  exact ⟨outcome, hAs, Setting.matches_result hAllows hAs⟩

------------------------------------------------------------
-- Awaiting Results
------------------------------------------------------------

namespace Await

/- A settled future's result is what the reading goes on with. -/
theorem delivers_result
    {next : Value → Caller → Run Value}
    (hAgrees : E.Agrees s R)
    (hReads : E.Reads s a (E.place x))
    (hFate : E.fates x = some fate)
    (hSettled : s.Settled (E.place x))
    (hFollows : E.Follows hands G s (R.awaiting x) next
      (fate.result x) o R') :
    E.Delivers hands G
      (fun c => Awaiter.result c (.awaiter a) >>= (next · c))
      s o R' := by
  rcases hAgrees.calm.settledAs hFate hSettled with
    ⟨outcome, hAs, hMatches⟩
  have hResult := Awaiter.result_eq hReads.session hAs
  have hNow := hAgrees.awaiting x
  generalize fate.result x = o₁ at hFollows hMatches
  generalize outcome.toExcept = r at hResult hMatches
  match o₁, r with
  | .ok v, .ok w =>
      cases hMatches
      cases hFollows with
      | proceeds hNext =>
          exact .precede (.of_eq hResult) (.refl E G s)
            (hNext s (.refl _ s) hNow)
  | .error stop, .error e =>
      cases hFollows with
      | passes =>
          exact .fails (Leads.of_eq hResult).bind_error
            (.refl E G s) hMatches hNow

/- Asking an awaiter whether its future has settled. -/
theorem delivers_completed
    {now pending : Caller → Run Value}
    (hReads : E.Reads s a (E.place x))
    (hNow : s.Settled (E.place x) → E.Delivers hands G now s o R')
    (hPending : ¬ s.Settled (E.place x) →
      E.Delivers hands G pending s o R') :
    E.Delivers hands G
      (fun c => do
        if (← Awaiter.completed c (.awaiter a)).truthy then
          now c
        else pending c)
      s o R' := by
  have hCompleted := Awaiter.completed_eq hReads.session
  refine .precede (.of_eq hCompleted) (.refl E G s) ?_
  by_cases hSettled : s.Settled (E.place x)
  · have hTrue : (Value.bool
        (s.futures.getD (E.place x)
          default).settlement.isSome).truthy = true :=
      hSettled
    simp only [hTrue, if_true]
    exact hNow hSettled
  · have hFalse : (Value.bool
        (s.futures.getD (E.place x)
          default).settlement.isSome).truthy = false :=
      Bool.eq_false_iff.mpr hSettled
    simp only [hFalse, Bool.false_eq_true, if_false]
    exact hPending hSettled

/- Where a future never settles the reading goes no further. -/
theorem stuck_of_follows
    {next : Value → Caller → Run Value}
    (hFate : E.fates x = some fate)
    (hFollows : E.Follows hands G s (R.awaiting x) next
      (fate.result x) o R')
    (hNever : E.fates x = some .never) :
    o = .error (.stuck x) ∧ R' = R.awaiting x := by
  rw [hNever] at hFate
  cases hFate
  exact hFollows.stuck

/- Awaiting the result of an awaiter, settled or not. -/
theorem delivers_awaitResult
    {rest : Closure}
    (hAgrees : E.Agrees s R)
    (hReads : E.Reads s a (E.place x))
    (hFate : E.fates x = some fate)
    (hHas : ∀ c, G c → s.Has c)
    (hFollows : E.Follows hands G s (R.awaiting x)
      (fun v c => c.call rest [v]) (fate.result x) o R') :
    E.Delivers hands G
      (fun c => awaitResult c (.machine E.machine)
        (.awaiter a) rest) s o R' := by
  refine delivers_completed hReads ?_ ?_
  · intro hSettled
    exact delivers_result hAgrees hReads hFate hSettled hFollows
  · intro hPending
    have hWaits : E.Waits s R a x :=
      ⟨hAgrees, hReads, hPending, by rw [hFate]; rfl⟩
    refine .step rfl (.refl E G s) ?_
    refine .install hWaits (stuck_of_follows hFate hFollows)
      hHas ?_
    intro s₁ hRests hSettled
    exact delivers_result (hRests.agrees hAgrees)
      (hReads.later hRests.retains) hFate hSettled
      (hFollows.later hRests.retains)

/-
  Concluding by the outcome of a future, at once if it has
  settled, and else under a label.  The awaiter keeps the
  ambient context.
-/
theorem delivers_conclusion
    (now : Caller → Value → Run Value)
    (code : Value → Closure)
    (hKept : ¬ E.detached)
    (hAgrees : E.Agrees s R)
    (hFate : E.fates x = some fate)
    (hStuck : E.fates x = some .never →
      o = .error (.stuck x) ∧ R' = R.awaiting x)
    (hHas : ∀ c, G c → s.Has c)
    (hCode : ∀ c awaiter,
      (code awaiter).enter c [] = now c awaiter)
    (hNow : ∀ s₁ a, Session.Retains G s s₁ →
      E.Agrees s₁ R → E.Reads s₁ a (E.place x) →
      s₁.Settled (E.place x) →
      E.Delivers hands G (fun c => now c (.awaiter a)) s₁ o R') :
    E.Delivers hands G
      (fun c => do
        let awaiter ←
          Awaiter.ofValue c (.future (E.place x))
        if (← Awaiter.completed c awaiter).truthy then
          now c awaiter
        else
          let l ← Label.install E.machine (code awaiter)
          Run.newStep (.suspend awaiter (.label l)))
      s o R' := by
  have hMoves :=
    E.moves_withAwaiter s (.future (E.place x) true)
  have hReads : E.Reads
      (s.withAwaiter (.future (E.place x) true))
      s.awaiters.size (E.place x) :=
    Setting.reads_withAwaiter s _
      fun hDetached => (hKept hDetached).elim
  have hHere := hAgrees.of_moves hMoves
    (s.memory_withAwaiter _ _)
  refine .precede (Awaiter.leads_ofValue _ s) hMoves.any ?_
  refine delivers_completed hReads ?_ ?_
  · intro hSettled
    exact hNow _ _ hMoves.keeps hHere hReads hSettled
  · intro hPending
    refine .install ⟨hHere, hReads, hPending, ?_⟩ hStuck
      (fun c hc => hMoves.retains.has c (hHas c hc)) ?_
    · rw [hFate]
      rfl
    · intro s₁ hRests hSettled
      simp only [hCode]
      exact hNow s₁ _
        (hMoves.keeps.trans hRests.retains
          fun _ _ hc => ⟨hc, hc⟩)
        (hRests.agrees hHere)
        (hReads.later hRests.retains) hSettled

end Await

------------------------------------------------------------
-- Binding
------------------------------------------------------------

namespace Builder

/- The row of the builder that a setting is with. -/
theorem row_eq
    (h : E.Calm s) :
    ∃ captured,
      Table.builders.row E.builder s =
          some (.ok ⟨.machine E.machine, captured⟩, s) ∧
        (E.detached → captured.truthy = false) := by
  rcases h.builder with ⟨captured, hRow, hDetached⟩
  refine ⟨captured, ?_, hDetached⟩
  have hEnd : Table.builders.row E.builder s =
      some (.ok (s.builders.getD E.builder default), s) := rfl
  rw [hEnd]
  simp [Array.getD_eq_getD_getElem?, hRow]

/-
  Awaiting a future goes on with its value, whether or not
  the ambient context is to be kept.
-/
theorem delivers_bind
    {rest : Closure}
    (hAgrees : E.Agrees s R)
    (hFate : E.fates x = some fate)
    (hFollows : E.Follows hands .none s (R.awaiting x)
      (fun v c => c.call rest [v]) (fate.result x) o R') :
    E.Delivers hands .none
      (fun c => bind c (.builder E.builder)
        (.future (E.place x)) rest) s o R' := by
  rcases row_eq hAgrees.calm with ⟨captured, hRow, hDetached⟩
  let s₁ :=
    s.withIncident (.binds (.future (E.place x)) false)
  have hMoves₁ : E.Moves .none s s₁ :=
    E.moves_withIncident s _
  have hAwait : ∀ keep, (E.detached → keep = false) →
      E.Delivers hands .none
        (fun c => Await.awaitResult c (.machine E.machine)
          (.awaiter s₁.awaiters.size) rest)
        (s₁.withAwaiter (.future (E.place x) keep)) o R' := by
    intro keep hKeep
    have hMoves := hMoves₁.none_trans
      (E.moves_withAwaiter s₁ (.future (E.place x) keep))
    exact Await.delivers_awaitResult
      (hAgrees.of_moves hMoves (s₁.memory_withAwaiter _ _))
      (Setting.reads_withAwaiter s₁ _ hKeep) hFate
      (fun _ hc => hc.elim)
      (hFollows.later hMoves.keeps)
  refine .step hRow (.refl E _ s) ?_
  refine .step (a := s) rfl (.refl E _ s) ?_
  refine .step (s := s₁) (a := ()) rfl hMoves₁ ?_
  by_cases hCaptured : captured.truthy = true
  · have hKept : E.detached → true = false := by
      intro hKept
      rw [← hCaptured, hDetached hKept]
    simp only [hCaptured, if_true]
    refine .step (a := .future (E.place x)) rfl
      (.refl E _ s₁) ?_
    exact .precede (Awaiter.leads_ofValue _ s₁)
      (E.moves_withAwaiter s₁ _) (hAwait true hKept)
  · simp only [hCaptured, Bool.false_eq_true, if_false]
    refine .step (a := .future (E.place x)) rfl
      (.refl E _ s₁) ?_
    refine .precede (.of_eq fun _ => ?_)
      (E.moves_withAwaiter s₁ _) (hAwait false fun _ => rfl)
    rfl

end Builder

end Resumption

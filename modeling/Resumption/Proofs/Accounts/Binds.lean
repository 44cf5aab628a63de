import Resumption.Proofs.Accounts.Effects

/-
  Binds: what is charged for awaiting a source.

  A source that has completed is read, and the rest goes on
  at once.  One that is pending costs a label, where the rest
  goes on once there is an outcome.

  Main declarations:
    * `Supply.Meets`
    * `Supply.realizes_asked`, `Supply.realizes_received`
    * `Supply.realizes_bind`
-/

namespace Resumption

open Run

variable {ν : Type}

------------------------------------------------------------
-- Awaiting in Accounts
------------------------------------------------------------

namespace Account

variable {x : ν}
variable {next : Outcome → Account ν}
variable {V : View ν}
variable {later : List (Waking ν)}
variable {w : Waking ν}
variable {R : Report ν}
variable {o : Outcome}

/- Where there is an outcome, what follows goes on with it. -/
theorem awaits_of_some
    (h : V.status x = some o) :
    awaits x next V later R ↔ next o V later R := by
  unfold awaits
  rw [h]

/- Where there is none there is a pause, -/
theorem awaits_of_none
    (h : V.status x = none) :
    awaits x next V [] R ↔
      R = ⟨.paused x, V, [], .pausing x⟩ := by
  unfold awaits
  rw [h]
  rfl

/- from which what follows may be woken. -/
theorem awaits_woken
    (h : V.status x = none) :
    awaits x next V (w :: later) R ↔
      (next w.outcome).costing (.pausing x) w.view later R := by
  unfold awaits
  rw [h]
  rfl

/- What is awaited may go on in another way. -/
theorem awaits_mono
    {next' : Outcome → Account ν}
    (h : ∀ o V later R,
      next o V later R → next' o V later R)
    (hAwaits : awaits x next V later R) :
    awaits x next' V later R := by
  cases hStatus : V.status x with
  | some o =>
      exact (awaits_of_some hStatus).mpr
        (h _ _ _ _ ((awaits_of_some hStatus).mp hAwaits))
  | none =>
      cases later with
      | nil =>
          exact (awaits_of_none hStatus).mpr
            ((awaits_of_none hStatus).mp hAwaits)
      | cons w later =>
          rcases (awaits_woken hStatus).mp hAwaits with
            ⟨R', hNext, hR⟩
          exact (awaits_woken hStatus).mpr
            ⟨R', h _ _ _ _ hNext, hR⟩

/- What costs nothing is what it is. -/
theorem costing_none
    {A : Account ν}
    (h : A.costing .none V later R) :
    A V later R := by
  rcases h with ⟨R', hA, rfl⟩
  exact (R'.after_none).symm ▸ hA

end Account

namespace Supply

variable {S : Supply ν}
variable {F G : Footprint}
variable {A : Value → Account ν}
variable {B : Account ν}
variable {s s₁ s₂ : Session}
variable {k rounds depth : Nat}
variable {x : ν}
variable {a f : Ref}
variable {o : Outcome}
variable {p q : Charge ν}
variable {code rest : Closure}

------------------------------------------------------------
-- Client Code
------------------------------------------------------------

/- Client code meets an account wherever it runs. -/
def Meets
    (S : Supply ν)
    (p : Program)
    (B : Account ν) : Prop :=
  ∀ k rounds depth s, S.Ready s →
    S.Realizes k .none (p.run (.ofDepth rounds depth)) s B

/- So it does when it is called. -/
theorem Meets.enter
    {args : List Value}
    {body : Code}
    (h : S.Meets (body args) B)
    (hs : S.Ready s) :
    S.Realizes k G
      ((Closure.client body).enter (.ofDepth rounds depth) args)
      s B := by
  have hIdles := idles_calling (S := S) s
  refine Realizes.idle_none (b := ⟨⟩) (s := calling s) rfl
    (hIdles.trans (.refl G _) (fun _ _ hc => hc.elim)
      fun _ _ hc => hc) ?_ fun _ _ hc => hc
  exact (h k rounds depth _ (hIdles.moves_none.ready hs)).widen
    fun _ _ hc => hc.elim

/- So it does from wherever the session has come to. -/
theorem Meets.proceeds
    {args : List Value}
    {body : Code}
    (h : S.Meets (body args) B) :
    S.Proceeds k rounds depth G s
      (fun caller => (Closure.client body).enter caller args) B :=
  fun _ _ _ _ _ _ hs => h.enter hs

/- A request is all that there is to such a program. -/
theorem ensures_request
    {r : Request Program}
    {caller : Caller}
    {post : Except Value Value → Session → Prop}
    (h : (r.perform caller).Ensures s post) :
    ((Program.request r).run caller).Ensures s post := by
  refine Ensures.bind (h.mono fun r₁ s₁ hPost => ?_)
  cases r₁ with
  | ok step => exact ensures_pure.mpr hPost
  | error e => exact hPost

theorem meets_request
    {r : Request Program}
    (h : ∀ k rounds depth s, S.Ready s →
      S.Realizes k .none (r.perform (.ofDepth rounds depth))
        s B) :
    S.Meets (.request r) B :=
  fun k rounds depth s hs => realizes_iff.mpr
    (ensures_request (realizes_iff.mp (h k rounds depth s hs)))

/- A deed comes before what is accounted for after it. -/
theorem meets_act
    {deed : Deed}
    {p : Value → Program}
    {B : Value → Account ν}
    (h : ∀ v, S.Meets (p v) (B v)) :
    S.Meets (.perform deed.request p)
      fun V later R => B (deed.upon V.vars).1
        { V with vars := (deed.upon V.vars).2 } later R := by
  intro k rounds depth s hs
  rcases alters_deed (S := S) deed s with ⟨s', hAlters, hEnds⟩
  refine realizes_iff.mpr (Ensures.bind fun r s₁ hRun => ?_)
  cases (hEnds _).symm.trans hRun
  refine (h _ k rounds depth s' (hAlters.ready hs)).after
    hAlters.moves rfl (fun _ _ hc => hc) fun later R hB => ?_
  rw [hAlters.view hs] at hB
  rw [Report.after_none]
  exact hB

------------------------------------------------------------
-- Asking and Receiving
------------------------------------------------------------

/- What an awaiter is asked, and what either answer leads to. -/
theorem realizes_asked
    {now : Run Value}
    {B : Outcome → Account ν}
    (hs : S.Ready s)
    (hAwaits : S.Awaits s a x (some f))
    (hStatus : S.status s x = s.outcome? f)
    (hHas : ∀ c, G c → s.Has c)
    (hNow : ∀ o, s.outcome? f = some o →
      S.Realizes k G now s (B o))
    (hWakes : ∀ s', S.Idles .none 1 s s' →
      S.Wakes k G s' (some f) (fun caller => code.enter caller []) B) :
    S.Realizes k G
      (if (Value.bool (s.outcome? f).isSome).truthy then now
      else do
        let l ← Label.install S.machine code
        Run.newStep (.suspend (.awaiter a) (.label l)))
      s (.awaits x B) := by
  cases hOutcome : s.outcome? f with
  | some o =>
      exact (hNow o hOutcome).tell fun later R hNext =>
        (Account.awaits_of_some (hStatus.trans hOutcome)).mpr
          hNext
  | none =>
      have hNone : (S.view s).status x = none :=
        hStatus.trans hOutcome
      have hPending : ∀ f', some f = some f' →
          s.outcome? f' = none := by
        intro f' hSame
        cases hSame
        exact hOutcome
      exact realizes_suspending hs hAwaits hPending hHas
        ((Account.awaits_of_none hNone).mpr rfl)
        (fun o V later R hNext =>
          (Account.awaits_woken hNone).mpr ⟨R, hNext, rfl⟩)
        hWakes

/-
  The result that is there is read, and the rest goes on.
  What is not bound may be read uncharged.
-/
theorem realizes_received
    (hWorth : S.Worth (.reading [x]) q)
    (hStill : q.waits = [])
    (hs : S.Ready s)
    (hAwaits : S.Awaits s a x (some f))
    (hOutcome : s.outcome? f = some o)
    (hRest : ∀ v, S.Proceeds k rounds depth G s
      (fun caller => rest.enter caller [v]) (A v)) :
    S.Realizes k G
      (Await.enterReceived (.ofDepth rounds depth) (.awaiter a)
        rest)
      s ((Account.proceeding A o).costing q) := by
  rcases result_awaits hs hAwaits hOutcome with
    ⟨s', hMoves, hView, hResult⟩
  have hMoves' : S.Moves G q s s' :=
    (hMoves.worth hWorth).widen fun _ _ hc => hc.elim
  refine realizes_iff.mpr (Ensures.bind fun r s₁ hRun => ?_)
  cases (hResult _).symm.trans hRun
  cases o with
  | fulfilled v =>
      have hNext : S.Realizes k G
          ((Caller.ofDepth rounds depth).call rest [v]) s' (A v) :=
        .call fun d hd => hRest v k rounds d (.deeper hd) s'
          (hMoves.retains.weaken fun _ _ _ hc => hc)
          (hMoves.ready hs)
      refine hNext.after hMoves' hStill (fun _ _ hc => hc)
        fun later R hA => ⟨R, ?_, rfl⟩
      rw [← hView]
      exact hA
  | rejected e =>
      refine .ends hMoves' hStill .throws fun later => ?_
      rw [hView]
      exact ⟨_, rfl, by rw [Report.after, Charge.plus_none]⟩

/- So it does where it was to wait for that. -/
theorem wakes_received
    (hWorth : S.Worth (.reading [x]) q)
    (hStill : q.waits = [])
    (hAwaits : S.Awaits s a x (some f))
    (hRest : ∀ v, S.Proceeds k rounds depth G s
      (fun caller => rest.enter caller [v]) (A v)) :
    S.Wakes k G s (some f)
      (fun caller =>
        (Closure.received (.awaiter a) rest).enter caller [])
      (fun o => (Account.proceeding A o).costing q) := by
  intro k' hk rounds' d s₂ o hRests hTells
  exact realizes_received hWorth hStill hRests.ready
    (hAwaits.later hRests.retains) (hTells f rfl) fun v =>
      ((hRest v).sooner (.inl hk)).later hRests.retains

------------------------------------------------------------
-- Binding
------------------------------------------------------------

/- Asking an awaiter that was got, and going on from there. -/
theorem ensures_gained
    {now : Run Value}
    {B : Outcome → Account ν}
    (hWorth : S.Worth (.binding [x]) p)
    (hStill : p.waits = [])
    (hs : S.Ready s)
    (hGains : S.Gains x a f s s₁ s₂)
    (hHas : ∀ c, G c → s.Has c)
    (hNow : ∀ o, s₂.outcome? f = some o →
      S.Realizes k G now s₂ (B o))
    (hWakes : ∀ s', S.Idles .none 1 s₂ s' →
      S.Wakes k G s' (some f) (fun caller => code.enter caller []) B) :
    Run.Ensures
      (do
        if (← Awaiter.completed (.ofDepth rounds depth)
            (.awaiter a)).truthy then now
        else do
          let l ← Label.install S.machine code
          Run.newStep (.suspend (.awaiter a) (.label l)))
      s₁
      (S.Comes (S.Resumes k) G
        ((Account.awaits x B).costing p) s) := by
  have hStatus : S.status s₂ x = s₂.outcome? f :=
    (congrArg (·.status x) hGains.view).trans hGains.status
  refine Ensures.bind fun r s' hRun => ?_
  cases (hGains.asked _).symm.trans hRun
  refine (realizes_asked (hGains.moves.ready hs) hGains.awaits
    hStatus (fun c hc => hGains.moves.retains.has c (hHas c hc))
    hNow hWakes).after
      ((hGains.moves.worth hWorth).widen
        fun _ _ hc => hc.elim) hStill
      (fun _ _ hc => hc) fun later R hAll => ⟨R, ?_, rfl⟩
  rw [← hGains.view]
  exact hAll

/- Awaiting the result of an awaiter that was got. -/
theorem ensures_awaitResult
    (hs : S.Ready s)
    (hGains : S.Gains x a f s s₁ s₂)
    (hHas : ∀ c, G c → s.Has c)
    (hRest : ∀ v, S.Proceeds k rounds depth G s
      (fun caller => rest.enter caller [v]) (A v)) :
    (Await.awaitResult (.ofDepth rounds depth)
      (.machine S.machine) (.awaiter a) rest).Ensures s₁
        (S.Comes (S.Resumes k) G
          (.binds x (.proceeding A)) s) := by
  have hRetains : Session.Retains G s s₂ :=
    hGains.moves.retains.weaken fun _ _ _ hc => hc
  exact ensures_gained (.refl S _) rfl hs hGains hHas
    (fun o hOutcome => realizes_received (.refl S _) rfl
      (hGains.moves.ready hs) hGains.awaits hOutcome
      fun v => (hRest v).later hRetains)
    fun s' hIdles => wakes_received (.refl S _) rfl
      (hGains.awaits.later hIdles.retains) fun v =>
        ((hRest v).later hRetains).later
          (hIdles.retains.weaken fun _ _ _ hc => hc)

/-
  A future that was handed off to is awaited uncharged, and
  what its outcome leads to goes on.
-/
theorem realizes_handed
    (now : Value → Run Value)
    (code : Value → Closure)
    {B : Outcome → Account ν}
    (hOrigin : S.origin x = .future f)
    (hs : S.Ready s)
    (hHas : ∀ c, G c → s.Has c)
    (hNow : ∀ s' a g o, S.Ready s' → Session.Retains G s s' →
      S.Awaits s' a x (some g) → s'.outcome? g = some o →
        S.Realizes k G (now (.awaiter a)) s' (B o))
    (hLater : ∀ s' a g o, S.Ready s' → Session.Retains G s s' →
      S.Awaits s' a x (some g) → s'.outcome? g = some o →
      ∀ k' < k, ∀ rounds depth,
        S.Realizes k' G
          ((code (.awaiter a)).enter (.ofDepth rounds depth) [])
          s' (B o)) :
    S.Realizes k G
      (do
        let awaiter ← Awaiter.ofValue (.ofDepth rounds depth)
          (.future f)
        if (← Awaiter.completed (.ofDepth rounds depth)
            awaiter).truthy then now awaiter
        else do
          let l ← Label.install S.machine (code awaiter)
          Run.newStep (.suspend awaiter (.label l)))
      s (.awaits x B) := by
  have hProbe := S.uncounted hOrigin
  have hGrants : S.Grants x (.future f) s s :=
    grants_future hProbe (.refl .none s) rfl
      (by rw [status, hOrigin]; rfl)
  refine Realizes.tell (A := (Account.awaits x B).costing .none)
    ?_ fun _ _ => Account.costing_none
  refine realizes_iff.mpr (Ensures.bind
    ((hGrants.attached _).mono ?_))
  rintro _ s₁ ⟨a, g, s₂, rfl, hGains⟩
  have hRetains : Session.Retains G s s₂ :=
    hGains.moves.retains.weaken fun _ _ _ hc => hc
  have hs₂ := hGains.moves.ready hs
  refine ensures_gained (S.worth_binding hProbe).symm rfl hs hGains
    hHas (fun o hOutcome => hNow s₂ a g o hs₂ hRetains
      hGains.awaits hOutcome) fun s' hIdles => ?_
  intro k' hk rounds' d s₃ o hRests hTells
  have hRests₂ : S.Rests G s₂ s₃ :=
    .of_idles hIdles hRests fun _ _ hc => ⟨not_false, hc⟩
  exact hLater s₃ a g o hRests.ready
    (hRetains.trans hRests₂.retains fun _ _ hc => ⟨hc, hc⟩)
    ((hGains.awaits.later hIdles.retains).later hRests.retains)
    (hTells g rfl) k' hk rounds' d

/-
  Awaiting a source of the library's own, through whichever
  awaiter is asked for.
-/
theorem realizes_acquired
    {acquire : Value → Run Value}
    (hs : S.Ready s)
    (hOwn : (S.origin x).custom? = none)
    (hAcquire : ∀ v s₁, S.Grants x v s s₁ →
      (acquire v).Ensures s₁ (S.Gained x s))
    (hHas : ∀ c, G c → s.Has c)
    (hRest : ∀ v, S.Proceeds k rounds depth G s
      (fun caller => rest.enter caller [v]) (A v)) :
    S.Realizes k G
      (do
        let v ← Awaitable.ofSource (S.origin x).value
        let awaiter ← acquire v
        Await.awaitResult (.ofDepth rounds depth)
          (.machine S.machine) awaiter rest)
      s (S.binds x A) := by
  have hBinds : S.binds x A = .binds x (.proceeding A) := by
    rw [Supply.binds, hOwn]
  rw [hBinds]
  refine realizes_iff.mpr (Ensures.bind
    ((ensures_source hs x hOwn).mono ?_))
  rintro _ s₁ ⟨v, rfl, hGrants⟩
  refine Ensures.bind ((hAcquire v s₁ hGrants).mono ?_)
  rintro _ s₂ ⟨a, f, s₃, rfl, hGains⟩
  exact ensures_awaitResult hs hGains hHas hRest

------------------------------------------------------------
-- Client Code That Is Awaited
------------------------------------------------------------

section Custom

variable {b : Ref}
variable {completed result : Effect}
variable {register : Closure}

/- Client code is asked for its result, and the rest goes on. -/
theorem realizes_reported
    (hOrigin : S.origin x = .custom b completed result register)
    (hs : S.Ready s)
    (hRow : s.awaiters[a]? =
      some (.custom (.ofEffects completed result register)))
    (hRest : ∀ v, S.Proceeds k rounds depth G s
      (fun caller => rest.enter caller [v]) (A v)) :
    S.Realizes k G
      (Await.enterReceived (.ofDepth rounds depth) (.awaiter a)
        rest)
      s (.reports x result A) := by
  have hWorth : S.Worth .none (.reading [x]) :=
    S.worth_reading (by rw [hOrigin]; rfl)
  refine realizes_iff.mpr (Ensures.bind (Ensures.bind ?_))
  intro r₁ s₁ hRun
  cases (awaiter_row hRow).symm.trans hRun
  refine (ensures_effect (S := S) result s []).mono ?_
  rintro r s' ⟨hr, hAlters⟩
  have hMoves : S.Moves G (.reading [x]) s s' :=
    (hAlters.moves.worth hWorth).widen fun _ _ hc => hc.elim
  cases r with
  | ok v =>
      have hNext : S.Realizes k G
          ((Caller.ofDepth rounds depth).call rest [v]) s' (A v) :=
        .call fun d hd => hRest v k rounds d (.deeper hd) s'
          hAlters.retains (hAlters.ready hs)
      refine hNext.after hMoves rfl (fun _ _ hc => hc)
        fun later R hA => ⟨R, ?_, rfl⟩
      rw [hAlters.view hs] at hA
      change Account.returning A (result.upon s.globals).1 _ _ _
      rw [← hr]
      exact hA
  | error e =>
      refine .ends hMoves rfl .throws fun later =>
        ⟨⟨.threw e, S.view s', later, .none⟩, ?_, ?_⟩
      · rw [hAlters.view hs]
        change Account.returning A (result.upon s.globals).1 _ _ _
        rw [← hr]
        exact rfl
      · rw [Report.after, Charge.plus_none]

/- So it is where it has first to be asked and waited for. -/
theorem ensures_attended
    (hOrigin : S.origin x = .custom b completed result register)
    (hs : S.Ready s)
    (hHas : ∀ c, G c → s.Has c)
    (hRest : ∀ v, S.Proceeds k rounds depth G s
      (fun caller => rest.enter caller [v]) (A v)) :
    (Await.awaitResult (.ofDepth rounds depth)
      (.machine S.machine) (.awaiter s.awaiters.size)
      rest).Ensures
        (s.withAwaiter
          (.custom (.ofEffects completed result register)))
        (S.Comes (S.Resumes k) G
          (.asks x completed result A) s) := by
  have hWorth : S.Worth .none (.binding [x]) :=
    S.worth_binding (by rw [hOrigin]; rfl)
  let s₁ := s.withAwaiter
    (.custom (.ofEffects completed result register))
  have hIdles : S.Idles .none 0 s s₁ := idles_withAwaiter s _
  have hRow : s₁.awaiters[s.awaiters.size]? =
      some (.custom (.ofEffects completed result register)) := by
    simp [s₁, Session.withAwaiter]
  refine Ensures.bind (Ensures.bind ?_)
  intro r₁ s' hRun
  cases (awaiter_row hRow).symm.trans hRun
  refine (ensures_effect (S := S) completed s₁ []).mono ?_
  rintro r s₂ ⟨hr, hAltersNext⟩
  have hAlters : S.Alters (completed.upon s.globals).2 s s₂ :=
    (Alters.of_idles hIdles).trans hAltersNext
  have hMoves : S.Moves G (.binding [x]) s s₂ :=
    (hAlters.moves.worth hWorth).widen fun _ _ hc => hc.elim
  have hs₂ := hAlters.ready hs
  have hRow₂ := hAltersNext.moves.retains.awaiter _ _ hRow
  have hRest₂ : ∀ v, S.Proceeds k rounds depth G s₂
      (fun caller => rest.enter caller [v]) (A v) :=
    fun v => (hRest v).later hAlters.retains
  have hTold : ∀ later R,
      Account.returning (.told x result A) r (S.view s₂) later R →
        Account.asks x completed result A (S.view s) later
          (R.after (.binding [x])) := by
    intro later R hAll
    refine ⟨R, ?_, rfl⟩
    rw [hAlters.view hs, hr] at hAll
    exact hAll
  cases r with
  | error e =>
      refine .ends hMoves rfl .throws fun later => ?_
      have hAll := hTold later _ rfl
      rw [Report.after, Charge.plus_none] at hAll
      exact hAll
  | ok v =>
      have hNext : S.Realizes k G
          (if v.truthy then
            Await.enterReceived (.ofDepth rounds depth)
              (.awaiter s.awaiters.size) rest
          else do
            let l ← Label.install S.machine
              (.received (.awaiter s.awaiters.size) rest)
            Run.newStep
              (.suspend (.awaiter s.awaiters.size) (.label l)))
          s₂ (.told x result A v) := by
        by_cases hTruthy : v.truthy = true
        · simp only [Account.told, hTruthy, if_true]
          exact realizes_reported hOrigin hs₂ hRow₂ hRest₂
        · simp only [Account.told, hTruthy, Bool.false_eq_true,
            if_false]
          refine realizes_suspending hs₂ (.custom hRow₂ hOrigin)
            (fun f hf => by cases hf)
            (fun c hc => hMoves.retains.has c (hHas c hc))
            rfl (fun o V later R hAll => ⟨R, hAll, rfl⟩) ?_
          intro s₃ hIdles' k' hk rounds' d s₄ o hRests _
          have hRetains : Session.Retains G s₂ s₄ :=
            hIdles'.retains.trans hRests.retains
              fun _ _ hc => ⟨not_false, hc⟩
          exact realizes_reported hOrigin hRests.ready
            (hRetains.awaiter _ _ hRow₂) fun v =>
              ((hRest₂ v).sooner (.inl hk)).later hRetains
      refine (Realizes.after hNext hMoves rfl (fun _ _ hc => hc)
        hTold)

end Custom

------------------------------------------------------------
-- Binding Any Source
------------------------------------------------------------

/- Awaiting a source, by either context rule. -/
theorem realizes_bind
    (hs : S.Ready s)
    (hHas : ∀ c, G c → s.Has c)
    (hRest : ∀ v, S.Proceeds k rounds depth G s
      (fun caller => rest.enter caller [v]) (A v)) :
    S.Realizes k G
        (Await.bind (.ofDepth rounds depth) (.machine S.machine)
          (S.origin x).value rest)
        s (S.binds x A) ∧
      S.Realizes k G
        (Await.bindDetached (.ofDepth rounds depth)
          (.machine S.machine) (S.origin x).value rest)
        s (S.binds x A) := by
  by_cases hOwn : (S.origin x).custom? = none
  · exact ⟨realizes_acquired hs hOwn
        (fun _ _ h => h.attached _) hHas hRest,
      realizes_acquired hs hOwn
        (fun _ _ h => h.detached _) hHas hRest⟩
  · cases hOrigin : S.origin x with
    | custom b completed result register =>
        have hBinds : S.binds x A = .asks x completed result A := by
          rw [Supply.binds, hOrigin]
          rfl
        have hSource := ensures_custom_source hs hOrigin
        rw [hOrigin] at hSource
        have hAll := ensures_attended (A := A) hOrigin hs hHas hRest
        rw [hBinds]
        constructor
        · refine realizes_iff.mpr (Ensures.bind (hSource.mono ?_))
          rintro _ _ ⟨rfl, rfl, hNew⟩
          refine Ensures.bind ((hNew _).1.mono ?_)
          rintro _ _ ⟨rfl, rfl⟩
          exact hAll
        · refine realizes_iff.mpr (Ensures.bind (hSource.mono ?_))
          rintro _ _ ⟨rfl, rfl, hNew⟩
          refine Ensures.bind ((hNew _).2.mono ?_)
          rintro _ _ ⟨rfl, rfl⟩
          exact hAll
    | _ =>
        rw [hOrigin] at hOwn
        exact (hOwn rfl).elim

/- The row of a builder. -/
theorem builder_row
    {b : Ref}
    {row : BuilderCell}
    (h : s.builders[b]? = some row) :
    Table.builders.row b s = some (.ok row, s) := by
  have hEnd : Table.builders.row b s =
      some (.ok (s.builders.getD b default), s) := rfl
  rw [hEnd]
  simp [Array.getD_eq_getD_getElem?, h]

/- The machine that the constructs are called with. -/
theorem machineOf_hub
    (hs : S.Ready s) :
    Builder.machineOf S.hub s =
      some (.ok (.machine S.machine), s) := by
  unfold hub
  cases hBuilder : S.builder with
  | none => rfl
  | some b =>
      rcases hs.builder b hBuilder with ⟨captured, hRow⟩
      exact bind_of_end (builder_row hRow)

/- Awaiting a source as the constructs are called. -/
theorem realizes_builder_bind
    (hs : S.Ready s)
    (hHas : ∀ c, G c → s.Has c)
    (hRest : ∀ v, S.Proceeds k rounds depth G s
      (fun caller => rest.enter caller [v]) (A v)) :
    S.Realizes k G
      (Builder.bind (.ofDepth rounds depth) S.hub
        (S.origin x).value rest)
      s (S.binds x A) := by
  unfold hub
  cases hBuilder : S.builder with
  | none => exact (realizes_bind hs hHas hRest).1
  | some b =>
      rcases hs.builder b hBuilder with ⟨captured, hRow⟩
      let s₁ := s.withIncident (.binds (S.origin x).value
        (Awaitable.offers s (S.origin x).value))
      have hIdles : S.Idles .none 0 s s₁ := idles_withIncident s _
      have hBoth := realizes_bind (x := x) (hIdles.moves_none.ready hs)
        (fun c hc => hIdles.retains.has c (hHas c hc))
        fun v => (hRest v).later
          (hIdles.retains.weaken fun _ _ _ hc => hc)
      refine Realizes.idle_none (builder_row hRow) (.refl G s) ?_
        fun _ _ hc => hc
      have hGet : (get : Run Session) s = some (.ok s, s) := rfl
      refine Realizes.idle_none hGet (.refl G s) ?_
        fun _ _ hc => hc
      refine Realizes.idle_none (b := ⟨⟩) (s := s₁) rfl
        (hIdles.trans (.refl G _) (fun _ _ hc => hc.elim)
          fun _ _ hc => hc) ?_ fun _ _ hc => hc
      by_cases hCaptured : captured.truthy = true
      · simp only [hCaptured, if_true]
        exact hBoth.1
      · simp only [hCaptured, Bool.false_eq_true, if_false]
        exact hBoth.2

/- Client code that awaits a source meets its account. -/
theorem meets_await
    {body : Value → Program}
    (h : ∀ v, S.Meets (body v) (A v)) :
    S.Meets (.request (S.awaiting x (Code.ofValue body)))
      (S.binds x A) := by
  refine meets_request fun k rounds depth s hs => ?_
  have hRest : ∀ v, S.Proceeds k rounds depth .none s
      (fun caller => (Closure.client
        (Code.ofValue body)).enter caller [v]) (A v) :=
    fun v => Meets.proceeds (h v)
  unfold awaiting
  split
  · exact (realizes_bind hs (fun _ hc => hc.elim) hRest).2
  · exact realizes_builder_bind hs (fun _ hc => hc.elim) hRest

end Supply

end Resumption

import Resumption.Proofs.Order.Tasks

/-
  A future settles once, and everyone who came is told once.

  Those who come while a future is pending are kept in the
  order in which they come.  The call that settles it tells
  all of them in that order, each with the outcome in place,
  however many of them throw, and then throws what the first
  of those threw.  Those who come later are told as they
  come.

  Main declarations:
    * `Session.Attends`
    * `Future.Tells`, `Future.verdict`
    * `Future.settle_iff`
    * `Future.Deals`
    * `Future.settles_once_and_tells_everyone`
-/

namespace Resumption

open Session World

variable {s s₁ s' : Session}
variable {f : Ref}
variable {caller : Caller}

------------------------------------------------------------
-- What Becomes of a Future
------------------------------------------------------------

/-
  What a future settled with remains, and nobody is left to
  be told; as long as it is pending, it is watched by all who
  ever came, and nobody of them is forgotten.
-/
structure Session.Attends (s s' : Session) (f : Ref) : Prop where
  settled : ∀ o, s.outcome? f = some o →
    s'.outcome? f = some o ∧ s'.watchers f = [] ∧
      s'.audience f = s.audience f
  pending : s'.outcome? f = none →
    s.outcome? f = none ∧
      s'.watchers f = (s'.audience f).reverse
  audience : s.audience f <:+ s'.audience f

/- In order, who watches is who ever came, or nobody. -/
theorem Session.Orderly.watchers_eq
    (hs : s.Orderly)
    (f : Ref) :
    s.watchers f =
      if (s.outcome? f).isSome then []
      else (s.audience f).reverse := by
  unfold watchers outcome? audience
  rw [Option.isSome_map, Array.getD_eq_getD_getElem?]
  cases hCell : s.futures[f]? with
  | none => rfl
  | some c => exact hs.attended f c hCell

/- A future is attended whatever else happens. -/
theorem Session.Grows.attends
    (hGrows : s.Grows s')
    (hs' : s'.Orderly)
    (hf : f < s.futures.size) :
    s.Attends s' f := by
  have hBecomes := hGrows.futures.getD hf
  have hOutcome : ∀ o, s.outcome? f = some o →
      s'.outcome? f = some o ∧
        s'.audience f = s.audience f := by
    intro o hSome
    have hSettled :
        (s.futures.getD f default).settlement.isSome := by
      unfold outcome? at hSome
      rw [← Option.isSome_map, hSome]
      rfl
    rcases hBecomes.settled hSettled with ⟨hSame, hAudience⟩
    refine ⟨?_, hAudience⟩
    unfold outcome? at hSome ⊢
    rw [hSame, hSome]
  refine ⟨fun o hSome => ?_, fun hNone => ⟨?_, ?_⟩,
    hBecomes.audience⟩
  · rcases hOutcome o hSome with ⟨hSame, hAudience⟩
    refine ⟨hSame, ?_, hAudience⟩
    rw [hs'.watchers_eq, hSame]
    rfl
  · cases hSome : s.outcome? f with
    | none => rfl
    | some o =>
        rw [(hOutcome o hSome).1] at hNone
        cases hNone
  · rw [hs'.watchers_eq, hNone]
    rfl

namespace Future

------------------------------------------------------------
-- Telling
------------------------------------------------------------

/- A watcher that was told: when, and how that ended. -/
structure Told where
  watcher : Closure
  before : Session
  result : Except Value Value

/- Watchers are told one after the other, each of them once. -/
inductive Tells
    (caller : Caller) :
    List Closure → Session → List Told → Session → Prop where
  | done {s : Session} : Tells caller [] s [] s
  | tells
      {w rest r told}
      {s s₁ s' : Session}
      (hCall : caller.call w [] s = some (r, s₁))
      (h : Tells caller rest s₁ told s') :
      Tells caller (w :: rest) s (⟨w, s, r⟩ :: told) s'

/- What the first one threw, of those that threw at all. -/
def firstFailure (told : List Told) : Option Value :=
  told.findSome? fun t =>
    match t.result with
    | .ok _ => none
    | .error e => some e

/- How a call that told them ends. -/
def verdict (told : List Told) : Except Value Bool :=
  match firstFailure told with
  | some e => .error e
  | none => .ok true

/- Those who are told are the watchers, in their order. -/
theorem Tells.watchers
    {ws : List Closure}
    {told : List Told}
    (h : Tells caller ws s told s') :
    told.map (·.watcher) = ws := by
  induction h with
  | done => rfl
  | tells _ _ ih => rw [List.map_cons, ih]

/- The first failure so far, after one more was told. -/
def after
    (failure : Option Value) :
    Except Value Value → Option Value
  | .ok _ => failure
  | .error e => failure <|> some e

/- Who throws first is the first one, or comes after it. -/
theorem firstFailure_cons
    (failure : Option Value)
    (w : Closure)
    (s : Session)
    (r : Except Value Value)
    (told : List Told) :
    (failure <|> firstFailure (⟨w, s, r⟩ :: told)) =
      (after failure r <|> firstFailure told) := by
  cases failure <;> cases r <;> rfl

/- Telling one of them, and then the rest. -/
theorem notify_cons
    {w : Closure}
    {rest : List Closure}
    {r : Except Value Value}
    (hCall : caller.call w [] s = some (r, s₁))
    (failure : Option Value) :
    notify caller (w :: rest) failure s =
      notify caller rest (after failure r) s₁ := by
  have hAttempt : Run.attempt (caller.call w []) s =
      some (.ok r, s₁) := by
    unfold Run.attempt
    rw [hCall]
  rw [notify]
  refine Run.step_eq hAttempt ?_
  cases r <;> rfl

/- Telling them all keeps the first failure. -/
theorem notify_iff
    {ws : List Closure}
    {failure : Option Value}
    {r : Except Value (Option Value)} :
    notify caller ws failure s = some (r, s') ↔
      ∃ told, Tells caller ws s told s' ∧
        r = .ok (failure <|> firstFailure told) := by
  induction ws generalizing s failure with
  | nil =>
      constructor
      · intro hRun
        obtain ⟨rfl, rfl⟩ := Prod.mk.inj (Option.some.inj hRun)
        refine ⟨[], .done, ?_⟩
        cases failure <;> rfl
      · rintro ⟨_, hTells, rfl⟩
        cases hTells
        cases failure <;> rfl
  | cons w rest ih =>
      cases hCall : caller.call w [] s with
      | none =>
          have hAttempt : Run.attempt (caller.call w []) s =
              none := by
            unfold Run.attempt
            rw [hCall]
          constructor
          · intro hRun
            rw [notify, Run.bind_of_none hAttempt] at hRun
            cases hRun
          · rintro ⟨_, hTells, _⟩
            cases hTells with
            | tells hCall' _ =>
                rw [hCall] at hCall'
                cases hCall'
      | some out =>
          rcases out with ⟨r₁, s₁⟩
          rw [notify_cons hCall, ih]
          constructor
          · rintro ⟨told, hTells, rfl⟩
            refine ⟨_, .tells hCall hTells, ?_⟩
            rw [firstFailure_cons]
          · rintro ⟨_, hTells, rfl⟩
            cases hTells with
            | tells hCall' hTells =>
                rw [hCall] at hCall'
                obtain ⟨rfl, rfl⟩ :=
                  Prod.mk.inj (Option.some.inj hCall')
                refine ⟨_, hTells, ?_⟩
                rw [firstFailure_cons]

/-
  The call that settles a future tells those who watch it,
  with the outcome in place, and ends as its verdict says.
-/
theorem settle_iff
    {outcome : Outcome}
    {r : Except Value Bool}
    (hPending : s.outcome? f = none) :
    settle caller f outcome s = some (r, s') ↔
      ∃ told, Tells caller (s.watchers f)
          (s.settling f outcome) told s' ∧
        r = verdict told := by
  have hNot : (s.futures.getD f default).settlement = none :=
    Option.map_eq_none_iff.mp hPending
  have hEnd : settle caller f outcome s =
      (do
        match ← notify caller (s.watchers f) none with
        | some e => Run.raise e
        | none => return true : Run Bool)
        (s.settling f outcome) := by
    unfold settle
    change (if (s.futures.getD f default).settlement.isSome =
      true then _ else _ : Run Bool) s = _
    rw [hNot]
    rfl
  rw [hEnd]
  constructor
  · intro hRun
    cases hNotify : notify caller (s.watchers f) none
        (s.settling f outcome) with
    | none =>
        rw [Run.bind_of_none hNotify] at hRun
        cases hRun
    | some out =>
        rcases out with ⟨r₁, s₁⟩
        rcases notify_iff.mp hNotify with ⟨told, hTells, rfl⟩
        rw [Run.bind_of_end hNotify] at hRun
        unfold verdict
        change (match firstFailure told with
          | some e => Run.raise e
          | none => return true : Run Bool) s₁ = _ at hRun
        cases hFirst : firstFailure told with
        | none =>
            rw [hFirst] at hRun
            obtain ⟨rfl, rfl⟩ :=
              Prod.mk.inj (Option.some.inj hRun)
            exact ⟨told, hTells, by rw [hFirst]⟩
        | some e =>
            rw [hFirst] at hRun
            obtain ⟨rfl, rfl⟩ :=
              Prod.mk.inj (Option.some.inj hRun)
            exact ⟨told, hTells, by rw [hFirst]⟩
  · rintro ⟨told, hTells, rfl⟩
    have hNotify : notify caller (s.watchers f) none
        (s.settling f outcome) =
          some (.ok (none <|> firstFailure told), s') :=
      notify_iff.mpr ⟨told, hTells, rfl⟩
    refine Run.step_eq hNotify ?_
    unfold verdict
    change (match firstFailure told with
      | some e => Run.raise e
      | none => return true : Run Bool) s' = _
    cases firstFailure told <;> rfl

/- What is told keeps order, and so does telling it. -/
theorem Tells.moves
    {rounds depth : Nat}
    {ws : List Closure}
    {told : List Told}
    (hs : s.Orderly)
    (h : Tells (.ofDepth rounds depth) ws s told s') :
    Ordering.Moves s s' ∧
      ∀ t ∈ told, Ordering.Moves s t.before := by
  induction h with
  | done => exact ⟨.refl (Ordering.sound hs), by simp⟩
  | @tells w rest r told s s₁ s' hCall _ ih =>
      have hFirst : Ordering.Moves s s₁ :=
        Ordering.call (Ordering.serves rounds depth)
          (Ordering.sound hs) w [] _ _ hCall
      rcases ih hFirst.sound.inv with ⟨hRest, hTold⟩
      refine ⟨hFirst.trans hRest, fun t hMem => ?_⟩
      rcases List.mem_cons.mp hMem with rfl | hMem
      · exact .refl (Ordering.sound hs)
      · exact hFirst.trans (hTold t hMem)

/- A future that has just settled has its outcome. -/
theorem outcome_settling
    (hf : f < s.futures.size)
    (outcome : Outcome) :
    (s.settling f outcome).outcome? f = some outcome := by
  simp only [outcome?, settling, futures_modify hf, if_true,
    Option.map_some]

/-
  Everyone is told with the outcome in place, which remains,
  and nobody is left when all have been told.
-/
theorem Tells.settled
    {rounds depth : Nat}
    {ws : List Closure}
    {told : List Told}
    {outcome : Outcome}
    (hs : s.Orderly)
    (hf : f < s.futures.size)
    (hPending : s.outcome? f = none)
    (h : Tells (.ofDepth rounds depth) ws (s.settling f outcome)
      told s') :
    s'.outcome? f = some outcome ∧ s'.watchers f = [] ∧
      ∀ t ∈ told, t.before.outcome? f = some outcome ∧
        t.before.watchers f = [] := by
  have hSettling := Ordering.moves_settling (Ordering.sound hs)
    hPending outcome
  have hOutcome := outcome_settling hf outcome
  have hf₁ : f < (s.settling f outcome).futures.size := by
    simpa [settling] using hf
  have hLater : ∀ {s₁ : Session},
      Ordering.Moves (s.settling f outcome) s₁ →
      s₁.outcome? f = some outcome ∧ s₁.watchers f = [] := by
    intro s₁ hMoves
    have hAttends := hMoves.rel.attends hMoves.sound.inv hf₁
    rcases hAttends.settled outcome hOutcome with
      ⟨hSame, hNobody, _⟩
    exact ⟨hSame, hNobody⟩
  rcases h.moves hSettling.sound.inv with ⟨hMoves, hTold⟩
  have hEnd := hLater hMoves
  exact ⟨hEnd.1, hEnd.2, fun t hMem => hLater (hTold t hMem)⟩

------------------------------------------------------------
-- Dealing with a Future
------------------------------------------------------------

/- A call that settles or watches a future, and its end. -/
inductive Deed where
  | settle (outcome : Outcome) (r : Except Value Bool)
  | watch (w : Closure) (r : Except Value Unit)

/- Is it the call that settled the future? -/
def Deed.wins : Deed → Bool
  | .settle _ (.ok false) => false
  | .settle _ _ => true
  | .watch _ _ => false

/-
  Any number of calls that settle or watch a future, the last
  one first, with anything happening in between.
-/
inductive Deals
    (rounds : Nat)
    (f : Ref)
    (s : Session) : List Deed → Session → Prop where
  | none : Deals rounds f s [] s
  | later
      {deeds}
      {s₁ s₂ : Session}
      (h : Deals rounds f s deeds s₁)
      (hGrows : s₁.Grows s₂)
      (hOrderly : s₂.Orderly) :
      Deals rounds f s deeds s₂
  | settle
      {deeds r}
      {s₁ s₂ : Session}
      (depth : Nat)
      (outcome : Outcome)
      (h : Deals rounds f s deeds s₁)
      (hRun : Future.settle (.ofDepth rounds depth) f outcome s₁ =
        some (r, s₂)) :
      Deals rounds f s (.settle outcome r :: deeds) s₂
  | watch
      {deeds r}
      {s₁ s₂ : Session}
      (depth : Nat)
      (w : Closure)
      (h : Deals rounds f s deeds s₁)
      (hRun : Future.watch (.ofDepth rounds depth) f w s₁ =
        some (r, s₂)) :
      Deals rounds f s (.watch w r :: deeds) s₂

/- Calls keep order. -/
theorem Deals.moves
    {rounds : Nat}
    {deeds : List Deed}
    (hs : s.Orderly)
    (h : Deals rounds f s deeds s') :
    Ordering.Moves s s' := by
  induction h with
  | none => exact .refl (Ordering.sound hs)
  | later _ hGrows hOrderly ih =>
      exact ih.trans (Ordering.moves_of hOrderly hGrows)
  | settle depth outcome _ hRun ih =>
      exact ih.trans (Ordering.keeps_settle
        (Ordering.serves rounds depth) ih.sound f outcome _ _
        hRun)
  | watch depth w _ hRun ih =>
      exact ih.trans (Ordering.keeps_watch
        (Ordering.serves rounds depth) ih.sound f w _ _ hRun)

/- Settling what has settled is answered at once. -/
theorem settle_settled
    {o : Outcome}
    (hSettled : s.outcome? f = some o)
    (caller : Caller)
    (outcome : Outcome) :
    settle caller f outcome s = some (.ok false, s) := by
  refine settle_of_settled caller f outcome s ?_
  unfold outcome? at hSettled
  rw [← Option.isSome_map, hSettled]
  rfl

/- After a call that settles there is an outcome. -/
theorem settled_of_settle
    {rounds depth : Nat}
    {outcome : Outcome}
    {r : Except Value Bool}
    (hs : s.Orderly)
    (hf : f < s.futures.size)
    (hRun : settle (.ofDepth rounds depth) f outcome s =
      some (r, s')) :
    (∃ o, s.outcome? f = some o ∧ r = .ok false ∧ s' = s) ∨
      s.outcome? f = none ∧ r ≠ .ok false ∧
        s'.outcome? f = some outcome := by
  cases hOutcome : s.outcome? f with
  | some o =>
      rw [settle_settled hOutcome] at hRun
      obtain ⟨rfl, rfl⟩ := Prod.mk.inj (Option.some.inj hRun)
      exact .inl ⟨o, rfl, rfl, rfl⟩
  | none =>
      rcases (settle_iff hOutcome).mp hRun with
        ⟨told, hTells, rfl⟩
      refine .inr ⟨rfl, ?_, (hTells.settled hs hf hOutcome).1⟩
      unfold verdict
      split
      · nofun
      · nofun

/- At most one call settles a future, and so it remains. -/
theorem Deals.wins
    {rounds : Nat}
    {deeds : List Deed}
    (hs : s.Orderly)
    (hf : f < s.futures.size)
    (h : Deals rounds f s deeds s') :
    (deeds.filter Deed.wins).length ≤ 1 ∧
      ∀ o r, .settle o r ∈ deeds.filter Deed.wins →
        s'.outcome? f = some o := by
  induction h with
  | none => simp
  | @later deeds s₁ s₂ h hGrows hOrderly ih =>
      have hf₁ : f < s₁.futures.size :=
        Nat.lt_of_lt_of_le hf (h.moves hs).rel.futures.size_le
      refine ⟨ih.1, fun o r hMem => ?_⟩
      exact ((hGrows.attends hOrderly hf₁).settled o
        (ih.2 o r hMem)).1
  | @settle deeds r s₁ s₂ depth outcome h hRun ih =>
      have hMoves := h.moves hs
      have hf₁ : f < s₁.futures.size :=
        Nat.lt_of_lt_of_le hf hMoves.rel.futures.size_le
      rcases settled_of_settle hMoves.sound.inv hf₁ hRun with
        ⟨_, _, rfl, rfl⟩ | ⟨hPending, hWins, hOutcome⟩
      · exact ih
      · have hNone : deeds.filter Deed.wins = [] := by
          refine List.eq_nil_iff_forall_not_mem.mpr ?_
          rintro (⟨o, r'⟩ | ⟨w, r'⟩) hMem
          · rw [ih.2 o r' hMem] at hPending
            cases hPending
          · cases (List.mem_filter.mp hMem).2
        have hFirst : Deed.wins (.settle outcome r) = true := by
          rcases r with e | isFirst
          · rfl
          · cases isFirst with
            | true => rfl
            | false => exact absurd rfl hWins
        rw [List.filter_cons_of_pos hFirst, hNone]
        refine ⟨Nat.le_refl 1, fun o r' hMem => ?_⟩
        cases List.mem_singleton.mp hMem
        exact hOutcome
  | @watch deeds r s₁ s₂ depth w h hRun ih =>
      have hMoves := h.moves hs
      have hf₁ : f < s₁.futures.size :=
        Nat.lt_of_lt_of_le hf hMoves.rel.futures.size_le
      have hWatched := Ordering.keeps_watch
        (Ordering.serves rounds depth) hMoves.sound f w _ _ hRun
      refine ⟨ih.1, fun o r' hMem => ?_⟩
      exact ((hWatched.rel.attends hWatched.sound.inv
        hf₁).settled o (ih.2 o r' hMem)).1

------------------------------------------------------------
-- Coming to a Future
------------------------------------------------------------

/- Whoever comes to a settled future is told at once. -/
theorem watch_settled
    {o : Outcome}
    (hSettled : s.outcome? f = some o)
    (caller : Caller)
    (w : Closure) :
    watch caller f w s = (discard (caller.call w [])) s := by
  have hSome : (s.futures.getD f default).settlement.isSome =
      true := by
    unfold outcome? at hSettled
    rw [← Option.isSome_map, hSettled]
    rfl
  unfold watch
  change (if (s.futures.getD f default).settlement.isSome =
    true then _ else _ : Run Unit) s = _
  rw [if_pos hSome]

/- Whoever comes to one that is pending watches it. -/
theorem watch_pending
    (hPending : s.outcome? f = none)
    (caller : Caller)
    (w : Closure) :
    watch caller f w s = some (.ok (), s.watching f w) := by
  have hNot : (s.futures.getD f default).settlement = none :=
    Option.map_eq_none_iff.mp hPending
  unfold watch
  change (if (s.futures.getD f default).settlement.isSome =
    true then _ else _ : Run Unit) s = _
  rw [hNot]
  rfl

/- A future that is watched is as pending as before. -/
theorem watching_pending
    (hf : f < s.futures.size)
    (w : Closure) :
    (s.watching f w).outcome? f = s.outcome? f ∧
      (s.watching f w).audience f = w :: s.audience f := by
  constructor
  · simp only [outcome?, watching, futures_modify hf, if_true]
  · simp only [Session.audience, watching, futures_modify hf,
      if_true]

/-
  Whatever code runs, a settled future keeps its outcome, and
  everyone who came to a pending one is kept in order.  A
  future that has settled answers false to whoever settles it
  again, and tells whoever comes at once.  A pending one
  keeps whoever comes, and whoever settles it tells all who
  ever came, in the order in which they came, each once and
  with the outcome in place; if some of them throw, the first
  failure is thrown in the end, and else the answer is true.
  Among any calls at most one settles the future.
-/
theorem settles_once_and_tells_everyone
    (hs : s.Orderly)
    (hf : f < s.futures.size)
    (rounds depth : Nat) :
    let c := Caller.ofDepth rounds depth
    (∀ s : Session,
      new s = some (.ok s.futures.size,
        s.withFuture (.fresh none)) ∧
      (s.withFuture (.fresh none)).outcome? s.futures.size =
        none ∧
      (s.withFuture (.fresh none)).audience s.futures.size =
        []) ∧
    (∀ (d : Nat) o, s.deferreds[d]? = some (.future f) →
      (Request.settle (.deferred d) o).perform c s =
        (do return .bool (← settle c f o) : Run Value) s) ∧
    (∀ (a : Nat) w, s.awaiters[a]? = some (.future f false) →
      Awaiter.register c (.awaiter a) w s = watch c f w s) ∧
    (∀ program : Program, (program.run c).Ensures s fun _ s' =>
      s'.Orderly ∧ s.Attends s' f) ∧
    (∀ code args, (c.call code args).Ensures s fun _ s' =>
      s'.Orderly ∧ s.Attends s' f) ∧
    (∀ o, s.outcome? f = some o →
      (∀ o', settle c f o' s = some (.ok false, s)) ∧
      ∀ w, watch c f w s = (discard (c.call w [])) s) ∧
    (s.outcome? f = none →
      (∀ w, watch c f w s = some (.ok (), s.watching f w) ∧
        (s.watching f w).outcome? f = none ∧
        (s.watching f w).audience f = w :: s.audience f) ∧
      ∀ o,
        (∀ r s', settle c f o s = some (r, s') ↔
          ∃ told, Tells c (s.audience f).reverse
              (s.settling f o) told s' ∧
            r = verdict told) ∧
        ∀ told s',
          Tells c (s.audience f).reverse (s.settling f o) told
            s' →
          told.map (·.watcher) = (s.audience f).reverse ∧
          (∀ t ∈ told, t.before.outcome? f = some o ∧
            t.before.watchers f = []) ∧
          s'.outcome? f = some o ∧ s'.watchers f = []) ∧
    ∀ deeds s', Deals rounds f s deeds s' →
      (deeds.filter Deed.wins).length ≤ 1 ∧
      ∀ o r, .settle o r ∈ deeds.filter Deed.wins →
        s'.outcome? f = some o := by
  intro c
  have hServes := Ordering.serves rounds depth
  have hSound := Ordering.sound hs
  refine ⟨fun s => ⟨rfl, ?_, ?_⟩, fun d o hDeferred => ?_,
    fun a w hAwaiter => ?_, fun program => ?_,
    fun code args => ?_, fun o hSettled =>
      ⟨settle_settled hSettled c, watch_settled hSettled c⟩,
    fun hPending => ⟨fun w => ?_, fun o => ⟨fun r s' => ?_,
      fun told s' hTells => ?_⟩⟩,
    fun deeds s' hDeals => hDeals.wins hs hf⟩
  · simp only [outcome?, withFuture, getD_push, if_true]
    rfl
  · simp only [Session.audience, withFuture, getD_push, if_true]
    rfl
  · change Deferred.settle c (.deferred d) o s = _
    unfold Deferred.settle
    refine Run.step_eq (a := s) rfl ?_
    rw [hDeferred]
  · have hRow : Table.awaiters.row a s =
        some (.ok (.future f false), s) := by
      have hEnd : Table.awaiters.row a s =
          some (.ok (s.awaiters.getD a default), s) := rfl
      rw [hEnd]
      simp [Array.getD_eq_getD_getElem?, hAwaiter]
    exact Run.step_eq hRow rfl
  · exact Run.Ensures.mono
      ((Ordering.employs hServes (Veil.serves_clear rounds
        depth)).keeps_program hSound program)
      fun _ _ h => ⟨h.sound.inv,
        h.rel.attends h.sound.inv hf⟩
  · exact Run.Ensures.mono (Ordering.call hServes hSound code args)
      fun _ _ h => ⟨h.sound.inv, h.rel.attends h.sound.inv hf⟩
  · rcases watching_pending hf w with ⟨hSame, hAudience⟩
    exact ⟨watch_pending hPending c w, hSame.trans hPending,
      hAudience⟩
  · have hWatchers : s.watchers f = (s.audience f).reverse := by
      rw [hs.watchers_eq, hPending]
      rfl
    rw [← hWatchers]
    exact settle_iff hPending
  · rcases hTells.settled hs hf hPending with
      ⟨hOutcome, hNobody, hTold⟩
    exact ⟨hTells.watchers, hTold, hOutcome, hNobody⟩

/- One who throws nothing at all, and one who does not. -/
private def throwing : Closure :=
  .client fun _ => .fail .undefined

private def heeding : Closure :=
  .client fun _ => .done .null

/- A failure with no value at all is thrown in the end. -/
theorem settles_and_tells_a_missing_failure :
    ∃ s s' : Session, s.watchers 0 = [throwing, heeding] ∧
      settle (.ofDepth 1 1) 0 (.fulfilled (.int 7)) s =
        some (.error .undefined, s') ∧
      s'.outcome? 0 = some (.fulfilled (.int 7)) ∧
      s'.watchers 0 = [] := by
  let s₀ := Session.empty.withFuture (.fresh none)
  let s := (s₀.watching 0 throwing).watching 0 heeding
  have h₁ := Ordering.moves_newFuture
    (Ordering.sound orderly_empty) none
  have h₂ := Ordering.moves_watching h₁.sound (f := 0) rfl throwing
  have h₃ := Ordering.moves_watching h₂.sound (f := 0) rfl heeding
  rcases settles_once_and_tells_everyone (f := 0) h₃.sound.inv
    (by decide) 1 1 with ⟨_, _, _, _, _, _, hPending, _⟩
  rcases (hPending rfl).2 (.fulfilled (.int 7)) with ⟨hIff, hTold⟩
  obtain ⟨s', hRun⟩ : ∃ s', settle (.ofDepth 1 1) 0
      (.fulfilled (.int 7)) s = some (.error .undefined, s') :=
    ⟨_, rfl⟩
  rcases (hIff _ _).mp hRun with ⟨told, hTells, _⟩
  rcases hTold told s' hTells with ⟨_, _, hOutcome, hNobody⟩
  exact ⟨s, s', rfl, hRun, hOutcome, hNobody⟩

end Future

end Resumption

import Resumption.Proofs.Task.Ends

/-
  A driver hands its task off: it ends the task by the
  outcome of a future, at once or when the future settles.
  One that was handed something else has gone astray.

  Main declarations:
    * `Driving.ensures_conclude`
    * `Driving.keeps_concludeStray`
    * `Busy.handOff`
-/

namespace Resumption

open Session World

section HandOff

variable {held excused : List Ref}
variable {s₀ s s' : Session}
variable {t d : Ref}
variable {p q : Phase}
variable {cell : DriverCell}
variable {e : Option Outcome}
variable {caller : Caller}

------------------------------------------------------------
-- Reading a Future
------------------------------------------------------------

/- What reading a settled future ends in. -/
def Outcome.read : Outcome → Except Value Value
  | .fulfilled v => .ok v
  | .rejected e => .error e

/- The awaiter of a settled future reads its outcome. -/
theorem ensures_result
    {a f : Nat}
    {captured : Bool}
    {o : Outcome}
    (hAwaiter : s.awaiters[a]? = some (.future f captured))
    (hOutcome : s.outcome? f = some o)
    {post : Except Value Value → Session → Prop}
    (h : post o.read s) :
    (Awaiter.result caller (.awaiter a)).Ensures s post := by
  unfold Awaiter.result
  refine Run.ensures_row_bind.mpr ?_
  rw [show (Table.awaiters.rows s).getD a default =
    .future f captured by simp [Table.awaiters, hAwaiter]]
  rcases Option.map_eq_some_iff.mp hOutcome with
    ⟨settlement, hSettlement, rfl⟩
  change (Future.result f).Ensures s post
  unfold Future.result Future.settlement?
  rw [bind_assoc, Run.ensures_row_bind, Run.ensures_pure_bind,
    show ((Table.futures.rows s).getD f default).settlement =
      some settlement from hSettlement]
  cases hOutcome' : settlement.outcome with
  | fulfilled v =>
      rw [hOutcome'] at h
      simpa [hOutcome', Outcome.read] using h
  | rejected e =>
      rw [hOutcome'] at h
      simpa [hOutcome', Outcome.read] using h

/- The end that a driver brings about by what it read. -/
theorem ensures_finish_read
    {o : Outcome}
    {post : Except Value Unit → Session → Prop}
    (h : (Driver.finish caller d o).Ensures s post) :
    (match o.read with
      | .ok v => Driver.succeed caller d v
      | .error e => Driver.fail caller d e).Ensures s post := by
  cases o with
  | fulfilled v => exact h
  | rejected e => exact h

------------------------------------------------------------
-- Concluding
------------------------------------------------------------

/- Concluding by a future's outcome ends the task so. -/
theorem ensures_conclude
    {a f : Nat}
    {o : Outcome}
    (hDrives : s.Drives t d cell)
    (hAwaiter : s.awaiters[a]? = some (.future f false))
    (hOutcome : s.outcome? f = some o)
    {post : Except Value Unit → Session → Prop}
    (h : (Driver.finish caller d o).Ensures
      (s.noted t .concludes) post) :
    (Driver.conclude caller d (.awaiter a)).Ensures s post := by
  unfold Driver.conclude
  refine (ensures_note_bind hDrives).mpr ?_
  refine Run.Ensures.bind (Run.ensures_attempt.mpr
    (ensures_result (s := s.noted t .concludes)
      hAwaiter hOutcome ?_))
  exact ensures_finish_read h

/- A driver that is astray is in a phase for that. -/
theorem Driving.busy_of_stray
    (hs : (Driving held excused).Sound s)
    (hStray : s.Stray d) :
    ∃ t cell, t ∉ held ∧ s.Drives t d cell ∧ cell.Spent ∧
      Busy held excused s t d cell .wild (s.ending cell) s := by
  have hStray' := hStray
  rcases hStray' with ⟨cell, v, hCell, _⟩
  have hDrives : s.Drives cell.emitter.task d cell :=
    ⟨hCell, rfl⟩
  have hFree : cell.emitter.task ∉ held := fun hHeld =>
    ((hs.inv.held _ hHeld).2 d cell hDrives).steady hStray
  rcases Driving.busy hs hDrives hFree with
    ⟨p, hRests, hSuits, _, hBusy⟩
  have hWild := hBusy.work.course.wild_iff.mpr
    (hDrives.stray_iff.mp hStray)
  subst hWild
  exact ⟨_, cell, hFree, hDrives, hSuits, hBusy⟩

/- A moment of a driver that is astray keeps the world. -/
theorem Driving.keeps_noteStray
    (hs : (Driving held excused).Sound s)
    (hStray : s.Stray d)
    {m : Moment}
    (hStrays : m.Strays)
    (hFits : m.Fits 0) :
    (Driving held excused).Keeps (Driver.note d m) s := by
  rcases Driving.busy_of_stray hs hStray with
    ⟨t, cell, hFree, hDrives, hSpent, hBusy⟩
  have hNoted := hBusy.noted (.strayOn hStrays)
    (hFits.mono (Nat.zero_le _)) hBusy.desk.pledges
  have hMoves := hNoted.rest trivial hSpent trivial rfl
  exact (ensures_note hDrives).mpr hMoves

theorem Driving.keeps_finishStray
    (hAll : ∀ held excused,
      (Driving held excused).Serves caller)
    (hs : (Driving held excused).Sound s)
    (hStray : s.Stray d)
    (outcome : Outcome) :
    (Driving held excused).Keeps
      (Driver.finish caller d outcome) s := by
  rcases Driving.busy_of_stray hs hStray with
    ⟨t, cell, hFree, hDrives, hSpent, hBusy⟩
  exact Run.Ensures.mono
    (hBusy.finishOpen (hAll · excused) (.inr (.inr rfl))
      (fun _ => hSpent) (by simp) outcome)
    fun _ _ hEnded => hEnded.moves

/- A driver that is astray may be told of anything. -/
theorem Driving.keeps_concludeStray
    (hAll : ∀ held excused,
      (Driving held excused).Serves caller)
    (hs : (Driving held excused).Sound s)
    (hStray : s.Stray d)
    (awaiter : Value) :
    (Driving held excused).Keeps
      (Driver.conclude caller d awaiter) s := by
  unfold Driver.conclude
  refine Keeps.bind (Driving.keeps_noteStray hs hStray trivial
    trivial) fun _ s₁ h₁ => ?_
  have hResult := (Driving.hosts (hAll · excused)).keeps_result
    (hAll held excused) h₁.sound awaiter
  refine hResult.attempt.bind fun ended s₂ h₂ => ?_
  have hStray₂ := (h₁.trans h₂).rel.extends_.stray hStray
  split
  · exact Driving.keeps_finishStray hAll h₂.sound hStray₂ _
  · exact Driving.keeps_finishStray hAll h₂.sound hStray₂ _

/- A driver is told of the outcome of the future it waits for. -/
theorem Driving.ensures_conclude
    (hAll : ∀ held excused,
      (Driving held excused).Serves caller)
    (hs : (Driving held excused).Sound s)
    (hFree : t ∉ held)
    {awaiter : Value}
    (hDue : s.Due t (.driverOutcome d awaiter)) :
    (Driver.conclude caller d awaiter).Ensures s fun r s' =>
      Ended held excused s True r s' ∧
        s.turns t < s'.turns t := by
  cases hDue with
  | @conclude _ a f cell p hDrives hPledged hSteady hAwaiter
      hSettled hCourse hPledges =>
  rcases Option.isSome_iff_exists.mp hSettled with ⟨o, ho⟩
  refine Resumption.ensures_conclude hDrives hAwaiter ho ?_
  rcases Driving.busy hs hDrives hFree with
    ⟨q, hRests, hSuits, hMindful, h⟩
  obtain rfl := hCourse.det h.work.course
  have hTurn := turns_noted (m := .concludes) h.work.lt rfl
  -- The task goes on now, whatever comes of it.
  have hTaken : ∀ {q : Phase} {e blame},
      Busy held excused s t d cell q e
        (s.noted t .concludes) →
      q.expects? = none →
      (Driver.finish caller d o).Ensures (s.noted t .concludes)
        (Ended held excused (s.noted t .concludes) blame) →
      (Driver.finish caller d o).Ensures (s.noted t .concludes)
        fun r s' => Ended held excused s True r s' ∧
          s.turns t < s'.turns t := by
    intro q e blame h₁ hExpects hEnds
    refine Run.Ensures.mono hEnds fun r s' hEnded => ?_
    exact ⟨h₁.ended (hEnded.mono fun _ => trivial) hExpects,
      Nat.lt_of_lt_of_le hTurn
        (hEnded.moves.rel.extends_.turns t)⟩
  have hAgain : p.Leads .concludes .relapsing →
      (∀ e, s.Pledged d e → Phase.Pledges .relapsing e) →
      t ∈ excused ∨ (s.ending cell).isSome →
      (Driver.finish caller d o).Ensures (s.noted t .concludes)
        fun r s' => Ended held excused s True r s' ∧
          s.turns t < s'.turns t := by
    intro hLeads hPledges hKnown
    have h₁ := h.noted hLeads trivial hPledges
    exact hTaken h₁ rfl (h₁.anew.finishOpen (hAll · excused)
      (.inl rfl) (by simp) (fun _ => hKnown) o)
  cases p with
  | handing =>
      rw [hSuits.2] at h
      have h₁ := h.noted .concludeLater trivial fun e hp => by
        rw [hPledges.unique (h.desk.pledges e hp)] at hPledged
        exact absurd hp hPledged
      exact hTaken h₁ rfl (h₁.anew.finish (hAll · excused)
        (fun _ => .decide)
        (fun hp => nomatch h₁.desk.pledges _ hp) o)
  | overruling v =>
      exact hAgain (.relapseOver (.inl rfl)) h.desk.pledges
        (.inl hRests)
  | overruled v =>
      refine hAgain (.relapseOverruled (.inl rfl))
        h.desk.pledges (.inr ?_)
      exact Option.isSome_map.symm.trans
        (Option.isSome_of_eq_some hSuits.2)
  | spoilt =>
      have h₁ := h.noted (m := .concludes) (.again trivial)
        trivial h.desk.pledges
      exact hTaken h₁ rfl (h₁.anew.finishOpen (hAll · excused)
        (.inr (.inl rfl)) (by simp) (fun _ => hMindful) o)
  | wild =>
      exact absurd (hDrives.stray_iff.mpr
        (hCourse.wild_iff.mp rfl)) hSteady
  | objecting => exact absurd hRests id
  | overturning => exact absurd hRests id
  | relapsing => exact absurd hRests id
  | _ => cases hPledges

------------------------------------------------------------
-- Handing Off to a Future
------------------------------------------------------------

/- The row that an awaiter is allocated in. -/
theorem ensures_awaiterWith_bind
    {α : Type}
    {f : Nat}
    {g : Value → Run α}
    {post : Except Value α → Session → Prop}
    (h : (g (.awaiter s.awaiters.size)).Ensures
      { s with awaiters := s.awaiters.push (.future f false) }
      post) :
    (Awaitable.awaiterWith caller (.future f) false >>=
      g).Ensures s post :=
  h

/- Has a future settled?  Its awaiter knows. -/
theorem ensures_completed_bind
    {α : Type}
    {a f : Nat}
    {captured : Bool}
    {g : Value → Run α}
    {post : Except Value α → Session → Prop}
    (hAwaiter : s.awaiters[a]? = some (.future f captured))
    (h : (g (.bool (s.outcome? f).isSome)).Ensures s post) :
    (Awaiter.completed caller (.awaiter a) >>= g).Ensures s
      post := by
  have hRow : (Table.awaiters.rows s).getD a default =
      .future f captured := by
    simp [Table.awaiters, hAwaiter]
  unfold Awaiter.completed
  change ((Table.awaiters.row a >>= _) >>= g).Ensures s post
  rw [bind_assoc, Run.ensures_row_bind, hRow]
  change (g (.bool (s.futures.getD f
    default).settlement.isSome)).Ensures s post
  rw [show (s.futures.getD f default).settlement.isSome =
    (s.outcome? f).isSome by simp [outcome?]]
  exact h

/- The awaiter of a pending future has its callback wait. -/
theorem ensures_registerPending
    {a f : Nat}
    {callback : Closure}
    {post : Except Value Unit → Session → Prop}
    (hAwaiter : s.awaiters[a]? = some (.future f false))
    (hPending : s.outcome? f = none)
    (h : post (.ok ()) (s.watched f callback)) :
    (Awaiter.register caller (.awaiter a) callback).Ensures s
      post := by
  unfold Awaiter.register
  refine Run.ensures_row_bind.mpr ?_
  rw [show (Table.awaiters.rows s).getD a default =
    .future f false by simp [Table.awaiters, hAwaiter]]
  refine Driving.ensures_watch (fun hSome => ?_) fun _ => h
  rw [hPending] at hSome
  cases hSome

/- The future that would keep a callback as it is. -/
def Session.keeper?
    (s : Session)
    (awaiter : Value) : Option Ref :=
  match awaiter with
  | .awaiter r =>
      match s.awaiters.getD r default with
      | .future f captured =>
          let posts := captured && s.ambient.truthy
          if f < s.futures.size && !posts then some f else none
      | _ => none
  | _ => none

theorem ensures_keeper_bind
    {α : Type}
    {awaiter : Value}
    {g : Option Ref → Run α}
    {post : Except Value α → Session → Prop} :
    (Awaiter.keeper? awaiter >>= g).Ensures s post ↔
      (g (s.keeper? awaiter)).Ensures s post := by
  unfold Awaiter.keeper? Session.keeper?
  cases awaiter with
  | awaiter r =>
      dsimp only
      rw [bind_assoc, Run.ensures_row_bind]
      change _ ↔ (g (match (Table.awaiters.rows s).getD r
        default with
          | .future f captured => _
          | _ => none)).Ensures s post
      cases (Table.awaiters.rows s).getD r default with
      | future f captured => exact Iff.rfl
      | controlled c => exact Iff.rfl
      | custom reporter => exact Iff.rfl
  | _ => exact Iff.rfl

/- The future that an awaiter reports on, and by which rule. -/
def Session.source?
    (s : Session)
    (awaiter : Value) : Option (Ref × Bool) :=
  match awaiter with
  | .awaiter r =>
      match s.awaiters.getD r default with
      | .future f captured =>
          if f < s.futures.size then some (f, captured) else none
      | _ => none
  | _ => none

theorem ensures_source_bind
    {α : Type}
    {awaiter : Value}
    {g : Option (Ref × Bool) → Run α}
    {post : Except Value α → Session → Prop} :
    (Awaiter.source? awaiter >>= g).Ensures s post ↔
      (g (s.source? awaiter)).Ensures s post := by
  unfold Awaiter.source? Session.source?
  cases awaiter with
  | awaiter r =>
      dsimp only
      rw [bind_assoc, Run.ensures_row_bind]
      change _ ↔ (g (match (Table.awaiters.rows s).getD r
        default with
          | .future f captured => _
          | _ => none)).Ensures s post
      cases (Table.awaiters.rows s).getD r default with
      | future f captured =>
          refine Iff.trans Iff.rfl ?_
          by_cases hLt : f < s.futures.size
          · simp [hLt]
          · simp [hLt]
      | controlled c => exact Iff.rfl
      | custom reporter => exact Iff.rfl
  | _ => exact Iff.rfl

/- That future is there, and is watched by the callback. -/
theorem ensures_registerKept
    {f : Ref}
    {awaiter : Value}
    {callback : Closure}
    {post : Except Value Unit → Session → Prop}
    (hKeeper : s.keeper? awaiter = some f)
    (h : f < s.futures.size →
      (Future.watch caller f callback).Ensures s post) :
    (Awaiter.register caller awaiter callback).Ensures s
      post := by
  unfold Session.keeper? at hKeeper
  split at hKeeper
  · next r =>
      split at hKeeper
      · next f' captured hRow =>
          dsimp only at hKeeper
          split at hKeeper
          · next hKept =>
              obtain rfl := Option.some.inj hKeeper
              rw [Bool.and_eq_true, decide_eq_true_eq,
                Bool.not_eq_true'] at hKept
              unfold Awaiter.register
              refine Run.ensures_row_bind.mpr ?_
              rw [show (Table.awaiters.rows s).getD r default =
                .future f' captured from hRow]
              change Run.Ensures (if captured &&
                s.ambient.truthy then _ else _) s post
              rw [hKept.2]
              exact h hKept.1
          · cases hKeeper
      · cases hKeeper
  · cases hKeeper

/-
  A driver comes to watch a future, and its phase says so;
  nothing happens to anyone else.
-/
theorem Busy.watched
    {f : Ref}
    {w : Closure}
    (h : Busy held excused s₀ t d cell p e s)
    (hPending : s.outcome? f = none)
    (hPledge : s.IsPledge f w)
    (hOwn : ∀ d' e', s.Tokens d' e' w →
      d' = d ∧ ¬ s.Pledged d e' ∧ p.Pledges e') :
    Busy held excused s₀ t d cell p e (s.watched f w) := by
  have hSane := sane_watched h.work.sane hPending
    (.inr hPledge) fun d' e' hToken => by
      rcases hOwn d' e' hToken with ⟨rfl, hFree, _⟩
      exact hFree
  have hOthers : ∀ t' ≠ t, s.Unmoved t' (s.watched f w) := by
    intro t' ht'
    refine unmoved_watched fun d' cell' e' hDrives hToken => ?_
    obtain ⟨rfl, _⟩ := hOwn d' e' hToken
    exact ht' (hDrives.unique h.desk.drives).1
  exact
    { work := h.work.onward hSane (s.extends_watched f w) rfl
        hOthers (fun _ _ => mem_watched_of_mem w)
        (.of_drivers rfl) { h.work.stocked with } h.work.course
      desk := ⟨h.desk.drives, { h.desk.linked with }, fun e' hp => by
        rcases pledged_watched hp with hOld | hNew
        · exact h.desk.pledges e' hOld
        · exact (hOwn d e' hNew).2.2⟩
      ending := by
        rw [← h.ending]
        unfold Session.ending
        split <;> simp }

/- Whoever waits to be called back may be called back. -/
theorem Phase.pledges_of_expects
    {errand : Errand}
    (h : p.expects? = some errand) :
    p.Pledges errand := by
  cases p <;> first | exact h | cases h

/-
  A driver that asked a future for its callback waits for it,
  and is not lost, once the future has the callback.
-/
theorem Busy.waits
    {errand : Errand}
    {f : Nat}
    {w : Closure}
    {callback : Option Ref}
    (h : Busy held excused s₀ t d cell p none s)
    (hExpects : p.expects? = some errand)
    (hPending : s.outcome? f = none)
    (hFree : ¬ s.Pledged d errand)
    (hPledge : s.IsPledge f w)
    (hToken : s.Tokens d errand w)
    (hAsked : s.asked? t = some
      (callback, if f < s.futures.size then some f else none)) :
    Busy held excused s₀ t d cell p none (s.watched f w) ∧
      ¬ (s.watched f w).Lost t ∧
      ∀ f', ∀ w' ∈ (s.watched f w).watchers f',
        s.Tokens d errand w' → w' = w ∧
          (if f < s.futures.size then some f else none) =
            some f' := by
  have hWatched := h.watched hPending hPledge
    fun d' e' hToken' => by
      obtain ⟨rfl, rfl⟩ := hToken'.unique hToken
      exact ⟨rfl, hFree, Phase.pledges_of_expects hExpects⟩
  refine ⟨hWatched, ?_, fun f' w' hw' hToken' => ?_⟩
  · rintro ⟨d', cell', p', e', k, f₁, hDrives, hCourse,
      hExpects', hLast, hNot⟩
    obtain rfl := h.work.sane.sole t d d' cell cell'
      h.desk.drives hDrives
    obtain rfl := h.work.course.det hCourse
    obtain rfl :=
      Option.some.inj (hExpects.symm.trans hExpects')
    have hKept := hAsked.symm.trans hLast
    split at hKept
    · next hLt =>
        refine hNot ⟨f, w, ?_, hToken⟩
        rw [watchers_watched, if_pos ⟨rfl, hLt⟩]
        exact List.mem_append_right _ List.mem_cons_self
    · cases hKept
  · rcases mem_watchers_watched hw' with
      hOld | ⟨rfl, rfl, hLt⟩
    · exact absurd ⟨f', w', hOld, hToken'⟩ hFree
    · exact ⟨rfl, if_pos hLt⟩

/-
  A driver waits for the future that it handed its task off
  to, once that has its callback.
-/
theorem Busy.entrust
    {a f : Nat}
    (h : Busy held excused s₀ t d cell .handing none s)
    (hSpent : cell.Spent)
    (hState : cell.state = .suspended)
    (hFree : ¬ s.Pledged d .conclude)
    (hAwaiter : s.awaiters[a]? = some (.future f false))
    (hPending : s.outcome? f = none) :
    (do
      Driver.note d (.asks none
        (← Awaiter.keeper? (.awaiter a)))
      discard <| Awaiter.register caller (.awaiter a)
        (.driverOutcome d (.awaiter a)) : Run Unit).Ensures s
      (Ended held excused s₀ True) := by
  have hKeeper : s.keeper? (.awaiter a) =
      if f < s.futures.size then some f else none := by
    simp [Session.keeper?, hAwaiter]
  refine ensures_keeper_bind.mpr ?_
  refine (ensures_note_bind h.desk.drives).mpr ?_
  rw [hKeeper]
  generalize hFuture : (if f < s.futures.size then some f
    else none) = future
  have h₁ := h.noted (m := .asks none future) .entrust
    trivial h.desk.pledges
  have hAsked : (s.noted t (.asks none future)).asked? t =
      some (none, future) :=
    asked?_noted h.work.lt
  have hSteady : ¬ s.Stray d := fun hStray => by
    cases h.work.course.wild_iff.mpr
      (h.desk.drives.stray_iff.mp hStray)
  have hSteady₁ : ¬ (s.noted t (.asks none future)).Stray d :=
    fun hStray => by
      cases h₁.work.course.wild_iff.mpr
        (h₁.desk.drives.stray_iff.mp hStray)
  rcases h₁.waits (f := f) (w := .driverOutcome d (.awaiter a))
    rfl hPending
    (fun hp => hFree (pledged_of_noted hp))
    ⟨d, cell, h.desk.drives.1, .inr ⟨a, rfl, hAwaiter⟩⟩
    ⟨⟨_, rfl⟩, hSteady₁⟩ (hAsked.trans (by rw [← hFuture]; rfl))
    with ⟨h₂, hLost, hTokens⟩
  refine Run.Ensures.discard (ensures_registerPending hAwaiter
    hPending (.ok (h₂.wait trivial ⟨hSpent, h₂.ending⟩
      ⟨hState, future, ?_, ?_⟩ hLost)))
  · rw [h.desk.drives.2]
    exact hAsked
  · intro f' w hw hToken
    exact hFuture ▸ (hTokens f' w hw hToken).2

/-
  A driver hands its task off to a future.  Until it waits
  for that, nobody else can move the task.
-/
theorem Busy.handOffFuture
    {f : Nat}
    (h : Busy held excused s₀ t d cell .taking none s)
    (hAll : ∀ held excused,
      (Driving held excused).Serves caller)
    (hSpent : cell.Spent) :
    (Driver.handOff caller d (.future f)).Ensures s
      (Ended held excused s₀ True) := by
  unfold Driver.handOff
  refine (ensures_note_bind h.desk.drives).mpr ?_
  have h₁ := h.noted (.handOver (f := f)) trivial
    h.desk.pledges
  refine ensures_awaiterWith_bind ?_
  have hFits : AwaiterCell.Fits ((Driving (t :: held)
      excused).fit (s.noted t (.handsOver (.future f))))
      (.future f false) := trivial
  have h₂ := h₁.moved (Driving.moves_newAwaiter
    (h₁.hold (.inl hSpent) rfl) hFits)
  generalize hRow : (s.noted t
    (.handsOver (.future f))).awaiters = rows at h₂ ⊢
  have hAwaiter : (rows.push (.future f false))[rows.size]? =
      some (.future f false) := by simp
  refine Run.Ensures.bind (h₂.emit (hAll (t :: held) excused)
    .offer (.inl hSpent) (h₂.desk.unpledged rfl) (by simp) ?_)
  intro s₃ h₃ hExtends _
  have hAwaiter₃ := hExtends.awaiters rows.size _ hAwaiter
  refine ensures_completed_bind hAwaiter₃ ?_
  rcases hOutcome : s₃.outcome? f with _ | o
  · have h₄ := h₃.stood .hand fun e hp =>
      absurd hp (h₃.desk.unpledged rfl e)
    refine (ensures_setState_bind h₃.desk.drives).mpr ?_
    refine h₄.entrust hSpent rfl ?_ hAwaiter₃ hOutcome
    rintro ⟨f', w, hw, hToken⟩
    exact h₃.desk.unpledged rfl .conclude ⟨f', w, hw,
      ((s₃.extends_noted t _).trans
        (extends_reseated (mild_state _))).tokens hToken⟩
  · refine ensures_conclude h₃.desk.drives hAwaiter₃ hOutcome ?_
    have h₄ := h₃.noted .conclude trivial fun e hp =>
      absurd hp (h₃.desk.unpledged rfl e)
    exact Run.Ensures.mono
      (h₄.finish (hAll · excused) (fun _ => .decide)
        (fun hp => nomatch h₄.desk.pledges _ hp) o)
      fun _ _ hEnded => hEnded.mono fun _ => trivial

------------------------------------------------------------
-- Handing Off to Something Else
------------------------------------------------------------

/- The listener of a driver that is astray may be told. -/
theorem Driving.keeps_emitStray
    (hc : (Driving held excused).Serves caller)
    (hs : (Driving held excused).Sound s)
    (hStray : s.Stray d)
    {event : Event}
    (hStrays : (Moment.told event).Strays) :
    (Driving held excused).Keeps
      (Driver.emit caller d event) s := by
  rcases Driving.busy_of_stray hs hStray with
    ⟨t, cell, hFree, hDrives, hSpent, hBusy⟩
  have h₁ := hBusy.noted (.strayOn hStrays) trivial
    hBusy.desk.pledges
  have hMoves := h₁.rest trivial hSpent trivial rfl
  refine (ensures_emit hDrives).mpr (Keeps.of_moves hMoves ?_)
  exact keeps_tell hc hMoves.sound
    (fits_listener hMoves.sound h₁.desk.drives) event

theorem Driving.keeps_suspendStray
    (hs : (Driving held excused).Sound s)
    (hStray : s.Stray d) :
    (Driving held excused).Keeps
      (Driver.setState d .suspended) s := by
  rcases Driving.busy_of_stray hs hStray with
    ⟨t, cell, hFree, hDrives, hSpent, hBusy⟩
  have hStrays : (Moment.stands .suspended).Strays := trivial
  have h₁ := hBusy.stood (.strayOn hStrays) fun e hp =>
    .inl (hBusy.desk.pledges e hp)
  refine (ensures_note_bind hDrives).mpr ?_
  exact Run.ensures_alter.mpr
    (h₁.rest trivial hSpent trivial rfl)

/-
  A driver that hands its task off to something that is no
  future has gone astray: its task can end at any time.
-/
theorem Busy.handOffStray
    (h : Busy held excused s₀ t d cell .taking none s)
    (hAll : ∀ held excused,
      (Driving held excused).Serves caller)
    (hSpent : cell.Spent)
    {v : Value}
    (hv : ∀ f, v ≠ .future f) :
    (Driver.handOff caller d v).Ensures s
      (Ended held excused s₀ True) := by
  have hc := hAll held excused
  have hHosts : (Driving held excused).Hosts caller :=
    Driving.hosts (hAll · excused)
  unfold Driver.handOff
  refine (ensures_note_bind h.desk.drives).mpr ?_
  have h₁ := h.noted (.stray hv) trivial fun e hp =>
    absurd hp (h.desk.unpledged rfl e)
  have hMoves := h₁.rest trivial hSpent trivial rfl
  have hStray : (s.noted t (.handsOver v)).Stray d := by
    refine h₁.desk.drives.stray_iff.mpr ⟨v, ?_, hv⟩
    rw [story_noted, if_pos ⟨rfl, h.work.lt⟩]
    exact List.mem_cons_self
  refine Run.Ensures.mono ?_ fun r s' hKept =>
    (Ended.of_stray hKept hStray).after hMoves
  refine (hHosts.keeps_awaiterWith hc hMoves.sound v false).bind
    fun awaiter s₂ h₂ => ?_
  have hStray₂ := h₂.rel.extends_.stray hStray
  refine Keeps.bind (Driving.keeps_emitStray hc h₂.sound hStray₂
    trivial) fun _ s₃ h₃ => ?_
  have hStray₃ := h₃.rel.extends_.stray hStray₂
  refine (hHosts.keeps_completed hc h₃.sound awaiter).bind
    fun completed s₄ h₄ => ?_
  have hStray₄ := h₄.rel.extends_.stray hStray₃
  split
  · exact Driving.keeps_concludeStray hAll h₄.sound hStray₄ _
  · refine Keeps.bind (Driving.keeps_suspendStray h₄.sound
      hStray₄) fun _ s₅ h₅ => ?_
    have hStray₅ := h₅.rel.extends_.stray hStray₄
    refine ensures_keeper_bind.mpr ?_
    refine Keeps.bind (Driving.keeps_noteStray h₅.sound
      hStray₅ trivial trivial) fun _ s₆ h₆ => ?_
    have hFit : (Driving held excused).fit s₆
        (.driverOutcome d awaiter) :=
      h₆.rel.extends_.stray hStray₅
    exact (hHosts.keeps_register hc h₆.sound awaiter
      hFit).discard

/- A driver that has a step to take can hand its task off. -/
theorem Busy.handOff
    (h : Busy held excused s₀ t d cell .taking none s)
    (hAll : ∀ held excused,
      (Driving held excused).Serves caller)
    (hSpent : cell.Spent)
    (v : Value) :
    (Driver.handOff caller d v).Ensures s
      (Ended held excused s₀ True) := by
  by_cases hFuture : ∃ f, v = .future f
  · rcases hFuture with ⟨f, rfl⟩
    exact h.handOffFuture hAll hSpent
  · exact h.handOffStray hAll hSpent
      fun f hf => hFuture ⟨f, hf⟩

end HandOff

end Resumption

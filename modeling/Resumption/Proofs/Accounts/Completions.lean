import Resumption.Proofs.Accounts.Seats

/-
  Completions: what becomes of a seated task as its sources
  complete.

  A driver that goes on ends its task, or suspends and waits
  again.  A completion that its driver does not wait for is
  no matter to a task.

  Main declarations:
    * `Supply.ensures_proceed`
    * `Supply.waking`
    * `Supply.ensures_settle`
-/

namespace Resumption

open Run

namespace Supply

variable {ν : Type}
variable {S : Supply ν}
variable {F : Footprint}
variable {A B : Account ν}
variable {V : View ν}
variable {c c' : Charge ν}
variable {past : List (Waking ν)}
variable {rows : Array ControlledCell}
variable {s s₁ s₂ s' : Session}
variable {k rounds depth : Nat}
variable {t f g l d a a' r out callback : Ref}
variable {cell : DriverCell}
variable {src : Option Ref}
variable {x : ν}
variable {o : Outcome}

------------------------------------------------------------
-- Pausing
------------------------------------------------------------

/- Where all completes on demand, an awaiter is of that kind. -/
theorem Awaits.demanded
    (h : S.Awaits s a x src)
    (hDemand : S.OnDemand) :
    ∃ a' r f, s.awaiters[a]? = some (.controlled r) ∧
      S.origin x = .controlled a' r f ∧ src = some f := by
  rcases hDemand.controlled x with ⟨a', r, f, hControlled⟩
  cases h with
  | future hRow hProbe =>
      rw [hControlled] at hProbe
      cases hProbe
  | controlled hRow hOrigin =>
      exact ⟨_, _, _, hRow, hOrigin, rfl⟩
  | custom hRow hOrigin => cases hControlled.symm.trans hOrigin

/- What an account tells at a pause, it tells after the past. -/
theorem Pauses.pends
    {A' : Outcome → Account ν}
    {F' : Footprint}
    (h : S.Pauses (S.Resumes k) F B s₁ a l x (some f) c' F' A'
      s₂)
    (hTell : ∀ more R, B (S.view s₁) more R →
      A V (past ++ more) (R.after c))
    (hBehind : (S.origin x).behind? = some f)
    (hRetains : Session.Retains F' s₂ s')
    (hPending : s'.outcome? f = none) :
    S.Pends k A V past (c.plus c') f l s' where
  tells := by
    have hAll := hTell _ _ h.tells
    rw [List.append_nil] at hAll
    exact ⟨x, S.view s₂, hAll⟩
  source := ⟨x, hBehind⟩
  pending := hPending
  goes := by
    refine ⟨F', A', fun o V' more R hRest => ?_,
      h.next.later hRetains⟩
    have hAll := hTell _ _ (h.later o V' more R hRest)
    rw [Report.after_after] at hAll
    exact hAll

/- A driver that comes to wait is the only one who does. -/
theorem attends_registering
    (hs : S.Ready s)
    (hBehind : (S.origin x).behind? = some f)
    (hAlone : S.Alone s none)
    (hRow : s.drivers[d]? = some cell)
    (hTends : cell.Tends t)
    (hDozes : cell.Dozes S.machine l callback out)
    (hVacant : S.Vacant s out)
    (r : Ref) :
    S.Attends t f l d callback out cell
      (s.registering r f (.driverResume d callback)) := by
  have hMade := hs.behind x f hBehind
  exact
    { watched := by
        rw [Session.watchers_registering hMade, if_pos rfl,
          hAlone x f hBehind nofun]
        rfl
      alone := hAlone.registering hMade r _
      row := hRow
      tends := hTends
      dozes := hDozes
      vacant := hVacant.registering hMade hBehind r _ }

/- A task whose driver has come to wait is seated. -/
theorem seated_registering
    {A' : Outcome → Account ν}
    {F' : Footprint}
    (hShows : S.Shows t (c.plus c') c.waits
      (c.waits.length + 1) past.length rows s)
    (hPauses : S.Pauses (S.Resumes k) F B s₁ a l x (some f) c'
      F' A' s₂)
    (hTell : ∀ more R, B (S.view s₁) more R →
      A V (past ++ more) (R.after c))
    (hOrigin : S.origin x = .controlled a' r f)
    (hRetains : Session.Retains F' s₂ s)
    (hSame : s.outcome? f = s₂.outcome? f)
    (hAlone : S.Alone s none)
    (hRow : s.drivers[d]? = some cell)
    (hTends : cell.Tends t)
    (hDozes : cell.Dozes S.machine l callback out)
    (hVacant : S.Vacant s out) :
    S.Reseated k t A V past c rows
      (s.registering r f (.driverResume d callback)) := by
  have hBehind : (S.origin x).behind? = some f := by
    rw [hOrigin]
    rfl
  have hMade := hShows.ready.behind x f hBehind
  have hWaits : (c.plus c').waits = c.waits ++ [x] :=
    congrArg (c.waits ++ ·) hPauses.waits
  have hAll := hShows.registering hOrigin
    (.driverResume d callback)
  have hAttends : S.Attends t f l d callback out cell
      (s.registering r f (.driverResume d callback)) :=
    attends_registering hShows.ready hBehind hAlone hRow hTends
      hDozes hVacant r
  refine ⟨c', .waits ?_ (hPauses.pends hTell hBehind
    (hRetains.trans (Session.retains_registering _ hMade _)
      fun _ _ hc => ⟨hc, hc⟩) ?_) hAttends, ?_⟩
  · rw [hWaits, List.length_append]
    exact hAll
  · rw [Session.outcome?_registering hMade, hSame]
    exact hPauses.pending f rfl
  · rw [hPauses.waits]
    exact hAttends.lingers hBehind

------------------------------------------------------------
-- Going On
------------------------------------------------------------

/- A task that has come to its end is over. -/
theorem ensures_finish
    {ending : Ending ν}
    {V' : View ν}
    (hShows : S.Shows t (c.plus c') (c.plus c').waits
      (c.plus c').waits.length past.length rows s)
    (hStill : c'.waits = [])
    (hTells : A V past ⟨ending, V', [], c.plus c'⟩)
    (hAlone : S.Alone s none)
    (hRow : s.drivers[d]? = some cell)
    (hTends : cell.Tends t)
    (hOutput : cell.output = some out)
    (hVacant : S.Vacant s out)
    (o : Outcome) :
    (Driver.finish (.ofDepth rounds depth) d o).Ensures s
      fun _ s' => S.Reseated k t A V past c rows s' := by
  refine Ensures.mono (Driver.answers_finish hRow hTends
    hShows.made hOutput hVacant.pending hVacant.alone) ?_
  rintro _ _ ⟨-, s₁, hPasses, rfl⟩
  refine ⟨c', .ends ((hShows.passes hPasses).settling out o)
    hTells ((hAlone.passes hPasses).settling
      (hVacant.passes hPasses).made o), ?_⟩
  rw [hStill]
  exact .goesOn

/-
  A driver that proceeds with what code has come to seats its
  task again: it ends, or suspends and waits.
-/
theorem ensures_proceed
    {r : Except Value Value}
    (hDemand : S.OnDemand)
    (hShows : S.Shows t c c.waits c.waits.length past.length
      rows s₁)
    (hTell : ∀ more R, B (S.view s₁) more R →
      A V (past ++ more) (R.after c))
    (hAlone : S.Alone s₁ none)
    (hVacant : S.Vacant s₁ out)
    (hComes : S.Comes (S.Resumes k) F B s₁ r s₂)
    (hSteers : s₂.Steers t d cell 0 0 s)
    (hTends : cell.Tends t)
    (hMachine : cell.machine = .machine S.machine)
    (hFirst : cell.first = none)
    (hOutput : cell.output = some out) :
    (Driver.proceed (.ofDepth rounds depth) d r).Ensures s
      fun _ s' => S.Reseated k t A V past c rows s' := by
  rcases hComes.moves with ⟨_, hMoves⟩
  have hAlone' : S.Alone s none :=
    (hAlone.moves hShows.ready hMoves).passes hSteers.toPasses
  have hVacant' : S.Vacant s out :=
    (hVacant.moves hMoves).passes hSteers.toPasses
  cases hComes with
  | ends hMoves hStill hEnded hTells =>
      rename_i ending c'
      have hWaits : (c.plus c').waits = c.waits := by
        simp only [Charge.plus, hStill, List.append_nil]
      have hShows' := (hShows.moves hMoves).passes
        hSteers.toPasses
      rw [← hWaits] at hShows'
      have hAll := hTell _ _ (hTells [])
      rw [List.append_nil] at hAll
      have hFinish : ∀ o, (Driver.finish (.ofDepth rounds depth) d
          o).Ensures s fun _ s' =>
            S.Reseated k t A V past c rows s' :=
        ensures_finish hShows' hStill hAll hAlone' hSteers.cell
          hTends hOutput hVacant'
      cases hEnded with
      | throws => exact hFinish (.rejected _)
      | finishes hStep =>
          simp only [Driver.proceed, hStep]
          exact hFinish (.fulfilled _)
      | handsOff hStep hOrigin =>
          rename_i x f
          rcases hDemand.controlled x with ⟨a, r, g, hControlled⟩
          cases hControlled.symm.trans hOrigin
  | suspends hStep hPauses =>
      rename_i step a l x src c' F' A'
      rcases hPauses.awaits.demanded hDemand with
        ⟨a', r, f, hAwaiter, hOrigin, rfl⟩
      have hReady := hPauses.moves.ready hShows.ready
      have hControlled := hReady.controlled x a' r f hOrigin
      have hExpects : s₂.Expects a r f :=
        ⟨hAwaiter, hControlled.2.1, hControlled.2.2,
          hPauses.pending f rfl⟩
      simp only [Driver.proceed, hStep]
      have hShows' := (hShows.moves hPauses.moves).passes
        hSteers.toPasses
      refine Ensures.mono (Driver.answers_suspend hSteers.cell
        hTends hShows'.made (hSteers.expects hExpects) l) ?_
      rintro _ _ ⟨-, s₃, hSteers', rfl⟩
      have hPasses := hSteers.toPasses.trans hSteers'.toPasses
      exact seated_registering
        (hShows'.passes hSteers'.toPasses) hPauses hTell hOrigin
        hPasses.retains (hPasses.outcome?_eq f)
        (hAlone'.passes hSteers'.toPasses) hSteers'.cell
        ⟨hTends.task, hTends.discreet⟩
        { state := rfl
          current := rfl
          fired := by simp
          machine := hMachine
          first := hFirst
          output := hOutput }
        (hVacant'.passes hSteers'.toPasses)

------------------------------------------------------------
-- Completing
------------------------------------------------------------

namespace Seated

/- The account tells of it, and the session shows it. -/
theorem tells
    (h : S.Seated k t A V past c rows s) :
    ∃ ending V', A V past ⟨ending, V', [], c⟩ ∧
      S.Shows t c c.waits c.waits.length past.length rows s := by
  cases h with
  | ends hShows hTells hAlone => exact ⟨_, _, hTells, hShows⟩
  | waits hShows hPends hAttends =>
      rcases hPends.tells with ⟨x, V', hTells⟩
      exact ⟨_, V', hTells, hShows⟩

theorem shows
    (h : S.Seated k t A V past c rows s) :
    S.Shows t c c.waits c.waits.length past.length rows s := by
  rcases h.tells with ⟨_, _, _, hShows⟩
  exact hShows

end Seated

/- Fewer resumptions are promised by a promise of more. -/
theorem Resumes.fewer
    {A' : Outcome → Account ν}
    (h : S.Resumes (k + 1) F s src l A') :
    S.Resumes k F s src l A' := by
  cases k with
  | zero => trivial
  | succ k =>
      exact fun rounds depth s₂ o hRests hReveals =>
        (h rounds depth s₂ o hRests hReveals).fewer

/- It is seated again where it is charged for nothing more. -/
theorem Seated.again
    (h : S.Seated k t A V past c rows s) :
    S.Reseated k t A V past c rows s :=
  ⟨.none, by rw [Charge.plus_none]; exact h, .goesOn⟩

theorem Seated.fewer
    (h : S.Seated (k + 1) t A V past c rows s) :
    S.Seated k t A V past c rows s := by
  cases h with
  | ends hShows hTells hAlone =>
      exact .ends hShows hTells hAlone
  | waits hShows hPends hAttends =>
      rcases hPends.goes with ⟨F, A', hRest, hNext⟩
      exact .waits hShows
        { hPends with goes := ⟨F, A', hRest, hNext.fewer⟩ }
        hAttends

variable (S) in
/-
  The waking that a completion was to a task: there is one if
  the task has told that it resumes.
-/
def waking
    (t f : Ref)
    (o : Outcome)
    (s s' : Session) : List (Waking ν) :=
  if s'.resumptions t = s.resumptions t then []
  else [⟨o, S.view (s.settling f o)⟩]

theorem Pends.settling
    (h : S.Pends (k + 1) A V past c f l s)
    (hMade : g < s.futures.size)
    (hOther : f ≠ g)
    (hPending : s.outcome? g = none)
    (o : Outcome) :
    S.Pends k A V past c f l (s.settling g o) where
  tells := h.tells
  source := h.source
  pending := by
    rw [Session.outcome?_settling hMade, if_neg hOther]
    exact h.pending
  goes := by
    rcases h.goes with ⟨F, A', hRest, hNext⟩
    exact ⟨F, A', hRest, hNext.fewer.later
      (Session.retains_settling _ o hMade
        (Session.not_settled hPending))⟩

theorem Attends.settling
    (h : S.Attends t f l d callback out cell s)
    (hMade : g < s.futures.size)
    (hOther : f ≠ g)
    (hBehind : (S.origin x).behind? = some g)
    (o : Outcome) :
    S.Attends t f l d callback out cell (s.settling g o) where
  watched :=
    (Session.watchers_settling hMade hOther).trans h.watched
  alone := h.alone.settling hMade o
  row := h.row
  tends := h.tends
  dozes := h.dozes
  vacant := h.vacant.settling hMade hBehind o

/-
  A driver that is called back, since what it waits for has
  completed, seats its task by one waking more.
-/
theorem ensures_resume
    (hDemand : S.OnDemand)
    (hShows : S.Shows t c c.waits c.waits.length past.length
      rows s)
    (hPends : S.Pends (k + 1) A V past c f l s)
    (hAttends : S.Attends t f l d callback out cell s)
    (o : Outcome) :
    (Driver.resume (.ofDepth rounds depth) d callback
      .undefined).Ensures (s.settling f o) fun _ s' =>
        S.Reseated k t A V
          (past ++ [⟨o, S.view (s.settling f o)⟩]) c rows
          s' := by
  rcases hPends.source with ⟨x, hBehind⟩
  rcases hPends.goes with ⟨F, A', hRest, hNext⟩
  have hMade := hShows.ready.behind x f hBehind
  have hSettling := Session.retains_settling F o hMade
    (Session.not_settled hPends.pending)
  have hShows' := hShows.settling f o
  have hAlone := hAttends.alone.settled hMade o
  have hVacant := hAttends.vacant.settling hMade hBehind o
  refine Driver.ensures_resume hAttends.row hAttends.tends
    hShows'.made hAttends.dozes fun s₁ hSteers => ?_
  have hPasses := hSteers.toPasses
  have hShows₁ := hShows'.passes hPasses
  have hRests : S.Rests F s s₁ :=
    ⟨hSettling.trans hPasses.retains fun _ _ hc => ⟨hc, hc⟩,
      hShows₁.ready⟩
  have hReveals : s₁.Reveals (some f) o := by
    rintro _ ⟨⟩
    rw [hPasses.outcome?_eq, Session.outcome?_settling hMade,
      if_pos rfl]
  have hJump := realizes_iff.mp
    (hNext rounds depth s₁ o hRests hReveals)
  refine hJump.mono fun r s₂ hComes => ?_
  rcases hComes.moves with ⟨_, hMoves⟩
  refine ⟨fun step hOk => ?_, hMoves.drivers,
    hMoves.tasks ▸ hShows₁.made, fun s₃ hSteers' => ?_⟩
  · subst hOk
    exact hComes.isStep
  · let waking : Waking ν := ⟨o, S.view (s.settling f o)⟩
    have hLength : (past ++ [waking]).length = past.length + 1 :=
      List.length_append
    refine ensures_proceed hDemand (hLength ▸ hShows₁)
      (fun more R hMore => ?_) (hAlone.passes hPasses)
      (hVacant.passes hPasses) hComes hSteers'
      ⟨hAttends.tends.task, hAttends.tends.discreet⟩
      hAttends.dozes.machine hAttends.dozes.first
      hAttends.dozes.output
    rw [hPasses.view_eq] at hMore
    rw [List.append_assoc]
    exact hRest o _ more R hMore

/-
  A completion takes a task from where it is seated to where
  it is seated next: by one waking more if its driver waited
  for just that, and else by none.
-/
theorem ensures_settle
    (hDemand : S.OnDemand)
    (hSeated : S.Seated (k + 1) t A V past c rows s)
    (hBehind : (S.origin x).behind? = some f)
    (o : Outcome) :
    (Future.settle (.ofDepth rounds depth) f o).Ensures s
      fun _ s' => S.Reseated k t A V
        (past ++ S.waking t f o s s') c rows s' := by
  have hNone : ∀ s' : Session,
      s'.resumptions t = s.resumptions t →
        past ++ S.waking t f o s s' = past := by
    intro s' hSame
    rw [waking, if_pos hSame, List.append_nil]
  cases hOutcome : s.outcome? f with
  | some o' =>
      refine Ensures.mono
        (Future.answers_settle_again hOutcome) ?_
      rintro _ _ ⟨-, rfl⟩
      rw [hNone s rfl]
      exact hSeated.fewer.again
  | none =>
      have hAlone : s.watchers f = [] →
          S.Seated k t A V past c rows (s.settling f o) →
          (Future.settle (.ofDepth rounds depth) f o).Ensures s
            fun _ s' => S.Reseated k t A V
              (past ++ S.waking t f o s s') c rows s' := by
        intro hEmpty hNext
        refine Ensures.mono
          (Future.answers_settle_alone hOutcome hEmpty) ?_
        rintro _ _ ⟨-, rfl⟩
        rw [hNone (s.settling f o) rfl]
        exact hNext.again
      cases hSeated with
      | ends hShows hTells hUnwatched =>
          have hMade := hShows.ready.behind x f hBehind
          exact hAlone (hUnwatched x f hBehind nofun)
            (.ends (hShows.settling f o) hTells
              (hUnwatched.settling hMade o))
      | waits hShows hPends hAttends =>
          rename_i g l d callback out cell
          have hMade := hShows.ready.behind x f hBehind
          by_cases hSame : f = g
          · subst hSame
            refine Future.ensures_settle_one hOutcome
              hAttends.watched (ensures_call_below fun _ _ => ?_)
            refine Ensures.quietly ((ensures_resume hDemand
              hShows hPends hAttends o).mono ?_)
            intro _ s' hNext
            have hResumed : s'.resumptions t ≠
                s.resumptions t := by
              rcases hNext with ⟨_, hSeated, _⟩
              rw [hSeated.shows.resumed, hShows.resumed]
              simp
            rw [waking, if_neg hResumed]
            exact hNext
          · have hOther : some f ≠ some g :=
              fun h => hSame (Option.some.inj h)
            exact hAlone (hAttends.alone x f hBehind hOther)
              (.waits (hShows.settling f o)
                (hPends.settling hMade (Ne.symm hSame) hOutcome
                  o)
                (hAttends.settling hMade (Ne.symm hSame) hBehind
                  o))

end Supply

end Resumption

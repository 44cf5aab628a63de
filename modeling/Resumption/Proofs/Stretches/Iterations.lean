import Resumption.Proofs.Stretches.Rounds

/-
  A loop over items keeps to the protocol of its cursor.

  The loop is the body of a cleanup that closes the cursor.
  So the cursor is closed however the loop ends, once, and
  not before.

  Main declarations:
    * `Iteration.Shows`
    * `Iteration.observes_the_protocol`
-/

namespace Resumption

open Session World

namespace Iteration

variable {s s₀ s₁ s₂ s' : Session}
variable {m c i : Ref}
variable {body : Closure}
variable {env : Session → Session → Prop}
variable {r : Except Value Value}

------------------------------------------------------------
-- Observing the Protocol
------------------------------------------------------------

/-
  How a stretch of a loop over items ends: it suspends where
  its body is suspended, on the same awaiter, or on what the
  body handed off to, or its cursor was closed.
-/
inductive Shows
    (s : Session) : Stage → Except Value Value → Prop where
  | suspended
      {awaiter label made l}
      (hMade : made.step? = some (.suspend awaiter (.label l))) :
      Shows s (.suspended awaiter label) (.ok made)
  | handed
      {f made a l}
      (hMade : made.step? =
        some (.suspend (.awaiter a) (.label l)))
      (hAwaiter : s.awaiters[a]? = some (.future f true)) :
      Shows s (.handed f) (.ok made)
  | closed
      {outcome r}
      (hYields : Yields r outcome) :
      Shows s (.closed outcome) r

/- The cleanup around a loop tracks it, and closes its cursor. -/
theorem Rests.shows
    {trace : List Act}
    {q : Except Value Value}
    {S : Cleanup.Site}
    (hRests : Rests m c body s (reached trace) q)
    (hRuns : Runs env S.cell m c body s₀ trace s)
    (hClose : S.compensation = .cursorClose c)
    (hTracks : Cleanup.Tracks env S m s q r s') :
    ∃ trace', Runs env S.cell m c body s₀ trace' s' ∧
      Shows s' (reached trace') r := by
  cases hTracks with
  | suspended hStep hTidies hMade _ =>
      refine ⟨trace, .tidies hRuns hTidies, ?_⟩
      generalize reached trace = stage at hRests
      cases hRests with
      | suspended hMade' _ _ _ _ =>
          rw [hMade'] at hStep
          cases hStep
          exact .suspended hMade
      | handed hMade' hAwaiter _ _ _ =>
          rw [hMade'] at hStep
          cases hStep
          refine .handed hMade ?_
          rcases hTidies.grows.awaiters _ _ hAwaiter with
            ⟨_, hRow, rfl⟩
          exact hRow
      | ended hYields =>
          obtain ⟨v, hView⟩ := hYields.terminates
          rw [hView] at hStep
          cases hStep
  | waiting hStep _ _ _ _ _ _ =>
      rcases hRests.view with ⟨_, _, hView⟩ | ⟨_, hView⟩ <;>
        (rw [hView] at hStep; cases hStep)
  | @shut _ own _ _ _ hConcludes hShuts =>
      rcases hRests.concluded hConcludes with ⟨hStage, rfl⟩
      cases hShuts with
      | @intro s₁ o s₂ _ _ _ hInvoked _ hCall hTidies hYields =>
          rw [hClose] at hCall
          rcases Run.ends_call_iff.mp hCall with
            ⟨rounds, depth, hRun⟩
          have hAnswer : (Run.quietly (Cursor.close
              (.ofDepth rounds depth) c)).Ensures s₁ fun o s₂ =>
                ∃ answer,
                  (Act.close answer).Happens m c body s₁ s₂ ∧
                  o = answer.map fun _ => .undefined :=
            Run.Ensures.quietly fun answer s₂ hRun =>
              ⟨answer, ⟨rounds, depth, hRun⟩, rfl⟩
          rcases hAnswer o s₂ hRun with ⟨answer, hHappens, rfl⟩
          have hRuns' := (hRuns.tidies hInvoked).acts
            (hStage ▸ .close) hHappens
          refine ⟨_, hRuns'.tidies hTidies, ?_⟩
          rw [overridden_map] at hYields
          have hClosed : reached (.close answer :: trace) =
              .closed (overridden own answer) := by
            change (reached trace).after (.close answer) = _
            rw [hStage]
            rfl
          rw [hClosed]
          exact .closed hYields

/-
  What is asked of a loop holds of the body of the cleanup
  around it.
-/
theorem Behaves.cleanup
    (hs : s₀.Orderly)
    (hm : m < s₀.machines.size)
    (hEnv : Meanwhile [i] env)
    (hBehaves : Behaves env i m c body s₀) :
    Cleanup.Behaves env m i []
      (fun caller => (Closure.cursorLoop (.machine m) c
        body).enter caller []) (.cursorClose c) s₀ where
  fits s₁ step s₂ h := by
    rcases gets hs hEnv hBehaves hm h with ⟨_, _, hRests⟩
    exact hRests.fits
  respects s₁ q s₂ h := by
    rcases gets hs hEnv hBehaves hm h with ⟨_, hGoes, _⟩
    exact hGoes.respects
  after s₁ q s₂ own s₃ s₄ o s₅ h hConcludes hTidies hCall := by
    rcases gets hs hEnv hBehaves hm h with ⟨_, hGoes, hRests⟩
    rcases hRests.concluded hConcludes with ⟨hStage, rfl⟩
    rcases Run.ends_call_iff.mp hCall with ⟨rounds, depth, hRun⟩
    have hClose : (Run.quietly (Cursor.close
        (.ofDepth rounds depth) c)).Ensures s₄ fun _ s₅ =>
          s₄.Respects [i] s₅ :=
      Run.Ensures.quietly fun answer s₅ hRun =>
        hBehaves.respects _ _ (.close answer) _
          (hGoes.runs.tidies hTidies) (hStage ▸ .close)
          ⟨rounds, depth, hRun⟩
    exact (hClose o s₅ hRun).mono (by simp)

/-
  A loop over items whose body makes steps, where nobody
  disturbs the cleanup around the loop or takes its cursor
  away, does nothing but the acts of a trace, each of which
  was due after those before it.  While the body is suspended
  or what it handed off to is pending, the loop is suspended
  on just that, and once there is no other item, or anything
  has failed, the cursor is closed and the loop ends.

  So the body is invoked on exactly the items that were
  yielded, in their order; the cursor is asked for nothing
  once it has run out, failed, or been closed, and is closed
  once if the loop has ended and else never; and the loop
  ends with undefined or the error that ended it, unless
  closing the cursor has failed.
-/
theorem observes_the_protocol
    (hs : s.Orderly)
    (hm : m < s.machines.size)
    (items : Value)
    (body : Closure)
    (hEnv : ∀ c s₁,
      Run.Ends (fun caller => Cursor.new caller items) s (.ok c)
        s₁ → Meanwhile [s₁.cleanups.size] env)
    (hBehaves : ∀ c s₁,
      Run.Ends (fun caller => Cursor.new caller items) s (.ok c)
        s₁ →
      Behaves env s₁.cleanups.size m c body (s₁.founding m
        (.cursorLoop (.machine m) c body) (.cursorClose c)))
    (h : Stretch env m
      (fun caller => build caller (.machine m) items body) s s₀ r
      s') :
    (∃ e, Run.Ends (fun caller => Cursor.new caller items) s
        (.error e) s' ∧ r = .error e) ∨
      ∃ c s₁ trace,
        Run.Ends (fun caller => Cursor.new caller items) s
          (.ok c) s₁ ∧
        Runs env s₁.cleanups.size m c body (s₁.founding m
          (.cursorLoop (.machine m) c body) (.cursorClose c))
          trace s' ∧
        Shows s' (reached trace) r ∧
        Lawful trace ∧
        trace.filterMap Act.yielded? =
          (reached trace).held ++
            trace.filterMap Act.invoked? ∧
        trace.countP Act.isClose = (reached trace).closings ∧
        (∀ later answer earlier,
          trace = later ++ .close answer :: earlier →
            later = []) ∧
        (∀ later answer earlier,
          trace = later ++ .next answer :: earlier →
          (∀ v, answer ≠ .ok (some v)) →
            later = [] ∨ ∃ closing, later = [.close closing]) ∧
        ∀ outcome, reached trace = .closed outcome →
          ∃ answer act earlier own,
            trace = .close answer :: act :: earlier ∧
            outcome = overridden own answer ∧
            (act = .next (.ok none) ∧ own = .ok .undefined ∨
              ∃ e, act.failure? = some e ∧ own = .error e) := by
  rcases Stretch.of_bind h with hFails | ⟨c, s₁, t, hNew, h⟩
  · exact .inl hFails
  have hMoves : Ordering.Moves s s₁ := by
    rcases hNew with ⟨rounds, depth, hRun⟩
    exact keeps_cursorOf (Ordering.serves rounds depth)
      (Ordering.sound hs) items _ _ hRun
  have hm₁ := Nat.lt_of_lt_of_le hm hMoves.rel.machines.size_le
  have hEnv₁ := hEnv c s₁ hNew
  have hBehaves₁ := hBehaves c s₁ hNew
  have hFounding := (Cleanup.rests_founding hMoves.sound.inv hm₁
    (.cursorLoop (.machine m) c body) (.cursorClose c)).1
  have hm₂ := Nat.lt_of_lt_of_le hm₁
    hFounding.grows.machines.size_le
  have hCleanup := hBehaves₁.cleanup hFounding.orderly hm₂ hEnv₁
  rcases (Cleanup.tracks hMoves.sound.inv hm₁ (by simp) hEnv₁
    hCleanup h).1 with ⟨b, q, s₂, hBody, hTracks⟩
  rcases gets hFounding.orderly hEnv₁ hBehaves₁ hm₂ hBody with
    ⟨trace₁, hGoes, hRests⟩
  rcases hRests.shows hGoes.runs rfl hTracks with
    ⟨trace, hRuns, hShows⟩
  have hLawful := hRuns.lawful
  refine .inr ⟨c, s₁, trace, hNew, hRuns, hShows, hLawful,
    hLawful.yielded_eq, hLawful.closings_eq, ?_, ?_,
    fun outcome => outcome_of_closed hLawful⟩
  · rintro later answer earlier rfl
    exact hLawful.close_last
  · rintro later answer earlier rfl hNone
    exact hLawful.next_last hNone

/- What client code answers when it has an item. -/
private def found : Value :=
  .record (.object 0) [("done", .bool false),
    ("value", .str "item")]

/- A session with a machine, and code to iterate over. -/
private def supplied : Session :=
  { Session.empty.withMachine true with
    iterables := #[.custom (.client fun _ => .done .undefined)
      (.client fun _ => .done found)
      (some (.client fun _ => .fail (.str "shut")))] }

private theorem orderly_supplied :
    supplied.Orderly :=
  have hs := Ordering.founds.newMachine true
    (Ordering.sound orderly_empty)
  SameGround.orderly (s := Session.empty.withMachine true)
    ⟨rfl, rfl, rfl, rfl, rfl, rfl, rfl, rfl⟩ hs.sound.inv

/- A body that fails. -/
private def losing : Closure :=
  .client fun _ => .fail (.str "lost")

/- All that the loop does: the latest act is first. -/
private def losses : List Act :=
  [.close (.error (.str "shut")),
    .invoke (.str "item") (.error (.str "lost")),
    .next (.ok (some (.str "item")))]

/- The cursor is there, and moves over the code. -/
private structure Steady (s : Session) : Prop where
  size : 0 < s.cursors.size
  source : (s.cursors.getD 0 default).source = .custom 0
  iterables : s.iterables = supplied.iterables

/- Tidying up leaves it there. -/
private theorem Steady.tidies
    {cells : List Ref}
    (h : Steady s)
    (hTidies : s.Tidies cells s') :
    Steady s' := by
  have hCursors : s'.scenery.cursors = s.scenery.cursors := by
    rw [hTidies.scenery]
  have hIterables : s'.scenery.iterables =
      s.scenery.iterables := by
    rw [hTidies.scenery]
  change s'.cursors = s.cursors at hCursors
  change s'.iterables = s.iterables at hIterables
  exact ⟨hCursors ▸ h.size, hCursors ▸ h.source,
    hIterables ▸ h.iterables⟩

/- A call of client code runs it. -/
private theorem ensures_client
    {rounds depth : Nat}
    {code : Code}
    {args : List Value}
    {post : Except Value Value → Session → Prop}
    (h : ∀ d, ((code args).run (.ofDepth rounds d)).Ensures
      (Run.calling s) post) :
    ((Caller.ofDepth rounds depth).call (.client code)
      args).Ensures s post :=
  Run.ensures_call_below fun d _ => h d

/- What is due at each point of the trace happens as it says. -/
private theorem happens_losses
    {act : Act}
    {earlier : List Act}
    (hSteady : Steady s)
    (hTrace : earlier <:+ losses)
    (hDue : act.Due (reached earlier))
    (h : act.Happens m 0 losing s s') :
    act :: earlier <:+ losses ∧ Steady s' ∧
      s.Respects [0] s' := by
  have hRow : s.iterables.getD 0 default = .custom
      (.client fun _ => .done .undefined)
      (.client fun _ => .done found)
      (some (.client fun _ => .fail (.str "shut"))) := by
    rw [hSteady.iterables]
    rfl
  have hCalling : Steady (Run.calling s) :=
    ⟨hSteady.size, hSteady.source, hSteady.iterables⟩
  have hSpared : s.Respects [0] (Run.calling s) :=
    ⟨fun _ _ => rfl, fun _ _ _ _ h => h⟩
  simp only [losses, List.suffix_cons_iff, List.suffix_nil]
    at hTrace
  rcases hTrace with rfl | rfl | rfl | rfl
  · cases hDue
  · cases hDue with
    | @close _ answer =>
    rw [happens_close_custom hSteady.source hRow] at h
    rcases h with ⟨rounds, depth, hRun⟩
    have hFails : (some <$> (Caller.ofDepth rounds depth).call
        (.client fun _ => .fail (.str "shut")) [] :
          Run (Option Value)).Ensures s fun answer s' =>
        answer = .error (.str "shut") ∧ s' = Run.calling s :=
      Run.Ensures.map (ensures_client fun d =>
        Run.ensures_raise.mpr ⟨rfl, rfl⟩)
    obtain ⟨rfl, rfl⟩ := hFails answer s' hRun
    exact ⟨List.suffix_rfl, hCalling, hSpared⟩
  · cases hDue with
    | @invoke _ r =>
    rcases h with ⟨rounds, depth, hRun⟩
    have hFails : ((Caller.ofDepth rounds depth).call losing
        [.str "item"]).Ensures s fun r s' =>
        r = .error (.str "lost") ∧ s' = Run.calling s :=
      ensures_client fun d => Run.ensures_raise.mpr ⟨rfl, rfl⟩
    obtain ⟨rfl, rfl⟩ := hFails r s' hRun
    exact ⟨List.suffix_cons _ _, hCalling, hSpared⟩
  · cases hDue with
    | @next answer =>
    rw [happens_next_custom hSteady.source hRow] at h
    rcases h with ⟨s₁, ⟨rounds, depth, hRun⟩, rfl⟩
    have hField : ∀ key (s : Session),
        Run.field found key s = some (.ok
          ((List.lookup key [("done", .bool false),
            ("value", .str "item")]).getD .undefined), s) := by
      intro key s
      unfold Run.field
      rw [if_neg (by decide)]
      change some (Except.ok ((s.property? found key).getD
        .undefined), s) = _
      rw [found, property?_record]
    have hYields : (do
        let v ← (Caller.ofDepth rounds depth).call
          (.client fun _ => .done found) []
        if (← Run.field v "done").truthy then
          return none
        else
          return some (← Run.field v "value") :
            Run (Option Value)).Ensures s fun answer s' =>
        answer = .ok (some (.str "item")) ∧
          s' = Run.calling s := by
      refine Run.Ensures.bind (ensures_client fun d =>
        Run.ensures_pure.mpr ?_)
      intro answer s' hRun
      obtain ⟨rfl, rfl⟩ := Prod.mk.inj (Option.some.inj
        (hRun.symm.trans (Run.step_eq (hField "done" _)
          (Run.step_eq (hField "value" _) rfl))))
      exact ⟨rfl, rfl⟩
    obtain ⟨rfl, rfl⟩ := hYields answer s₁ hRun
    refine ⟨(List.suffix_cons _ _).trans (List.suffix_cons _ _),
      ⟨?_, ?_, hSteady.iterables⟩,
      ⟨fun _ _ => rfl, fun _ _ _ _ h => h⟩⟩
    · simpa [reaching, placing] using hCalling.size
    · have hSource := hCalling.source
      simp only [reaching, placing, getD_modify, hCalling.size,
        and_self, if_true]
      exact hSource

/- A loop over the code has done no more than that by now. -/
private theorem runs_losses
    {trace : List Act}
    (hSteady : Steady s)
    (h : Runs env i m 0 losing s trace s') :
    trace <:+ losses ∧ Steady s' := by
  induction h with
  | starts => exact ⟨List.nil_suffix, hSteady⟩
  | acts _ hDue hHappens ih =>
      rcases happens_losses ih.2 ih.1 hDue hHappens with
        ⟨hTrace, hSteady', _⟩
      exact ⟨hTrace, hSteady'⟩
  | tidies _ hTidies ih => exact ⟨ih.1, ih.2.tidies hTidies⟩
  | waits _ hWaits _ ih =>
      have hTrace := ih.1
      simp only [losses, List.suffix_cons_iff, List.suffix_nil]
        at hTrace
      rcases hTrace with rfl | rfl | rfl | rfl <;> cases hWaits

/- So its body and its cursor do as they are asked. -/
private theorem behaves_losing
    (hSteady : Steady s) :
    Behaves env 0 m 0 losing s where
  fits trace s' h := by
    have hTrace := (runs_losses hSteady h).1
    simp only [losses, List.suffix_cons_iff, List.suffix_nil]
      at hTrace
    rcases hTrace with rfl | rfl | rfl | rfl <;> exact nofun
  respects trace s₁ act s' h hDue hHappens := by
    rcases runs_losses hSteady h with ⟨hTrace, hSteady'⟩
    exact (happens_losses hSteady' hTrace hDue hHappens).2.2
  keeps trace s₁ v s' h hReady hEnds := by
    rcases runs_losses hSteady h with ⟨hTrace, hSteady'⟩
    let act : Act := .next (.ok (some v))
    have hDue : act.Due (reached trace) := hReady ▸ .next
    have hHappens : act.Happens m 0 losing s₁
      (reaching 0 s' (.ok (some v))) := ⟨s', hEnds, rfl⟩
    have hSize :=
      (happens_losses hSteady' hTrace hDue hHappens).2.1.size
    simpa [reaching, placing] using hSize

/- Iterating over the code makes the cursor. -/
private theorem steady_new
    {q : Except Value Ref}
    (h : Run.Ends (fun caller => Cursor.new caller (.iterable 0))
      supplied q s) :
    q = .ok 0 ∧ s.cleanups.size = 0 ∧ Steady (s.founding 0
      (.cursorLoop (.machine 0) 0 losing) (.cursorClose 0)) := by
  rcases h with ⟨rounds, depth, hRun⟩
  have hMoves : Ordering.Moves supplied s := keeps_cursorOf
    (Ordering.serves rounds depth)
    (Ordering.sound orderly_supplied) _ _ _ hRun
  have hNew : (Cursor.new (.ofDepth rounds depth)
      (.iterable 0)).Ensures supplied fun r s =>
        r = .ok 0 ∧ Steady s ∧ s.cleanups.size = 0 := by
    unfold Cursor.new Cursor.start
    refine Run.Ensures.bind (Run.ensures_row_bind.mpr ?_)
    refine Run.Ensures.bind (Run.Ensures.discard
      (ensures_client fun d => Run.ensures_pure.mpr ?_))
    exact Run.ensures_pure.mpr (Run.ensures_alloc.mpr
      ⟨rfl, ⟨by decide, rfl, rfl⟩, rfl⟩)
  rcases hNew _ _ hRun with ⟨hOk, hSteady, hSize⟩
  have hm : 0 < s.machines.size :=
    Nat.lt_of_lt_of_le (by decide) hMoves.rel.machines.size_le
  exact ⟨hOk, hSize, hSteady.tidies
    (Cleanup.rests_founding hMoves.sound.inv hm _ _).1⟩

/-
  The cursor is closed once although the body failed, and
  what closing it fails with takes the place of that.
-/
theorem observes_the_protocol_losing :
    ∃ r s', Run.Ends (fun caller =>
        build caller (.machine 0) (.iterable 0) losing) supplied
        r s' ∧
      r = .error (.str "shut") ∧
      ∃ env i c s₁ trace,
        Runs env i 0 c losing s₁ trace s' ∧
        trace.countP Act.isClose = 1 ∧
        trace.filterMap Act.invoked? = [.str "item"] := by
  have hFails : ((build (.ofDepth 1 12) (.machine 0)
      (.iterable 0) losing) supplied).isSome = true := by
    decide +kernel
  obtain ⟨⟨r, s'⟩, hRun⟩ := Option.isSome_iff_exists.mp hFails
  have hEnds : Run.Ends (fun caller =>
      build caller (.machine 0) (.iterable 0) losing) supplied r
      s' := ⟨1, 12, hRun⟩
  let env : Session → Session → Prop := fun s s' =>
    s.Grows s' ∧ s'.Orderly ∧ s.Respects [0] s'
  have hEnv : Meanwhile [0] env :=
    ⟨fun _ _ h => h.1, fun _ _ h => h.2.1, fun _ _ h => h.2.2⟩
  rcases observes_the_protocol orderly_supplied
    (m := 0) (by decide) (.iterable 0) losing
    (fun c s₁ h => by
      rw [(steady_new h).2.1]
      exact hEnv)
    (fun c s₁ h => by
      rcases steady_new h with ⟨hOk, hSize, hSteady⟩
      cases hOk
      rw [hSize]
      exact behaves_losing hSteady)
    (.starts hEnds) with
    ⟨e, hNew, _⟩ | ⟨c, s₁, trace, hNew, hRuns, hShows, _, hItems,
      hClosings, _⟩
  · cases (steady_new hNew).1
  · rcases steady_new hNew with ⟨hOk, hSize, hSteady⟩
    cases hOk
    rw [hSize] at hRuns
    have hTrace := (runs_losses hSteady hRuns).1
    simp only [losses, List.suffix_cons_iff, List.suffix_nil]
      at hTrace
    rcases hTrace with rfl | rfl | rfl | rfl
    · cases hShows with
      | closed hYields =>
          cases r with
          | ok step => exact hYields.elim
          | error e =>
              obtain rfl : e = .str "shut" := hYields
              exact ⟨_, s', hEnds, rfl, env, 0, 0, _, _, hRuns,
                hClosings, hItems.symm⟩
    · cases hShows
    · cases hShows
    · cases hShows

end Iteration

end Resumption

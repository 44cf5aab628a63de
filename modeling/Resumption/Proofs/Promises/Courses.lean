import Resumption.Proofs.Promises.Settling

/-
  Whoever reacts to a future through promises gets what it
  settled with.

  A course is what comes to pass around a future, step by
  step: somebody reacts to it or to what was made from it,
  futures are made from what was derived, the future settles
  and those who watch it are told, a job is taken, and others
  do whatever they like that is not for the future's source
  alone to do.

  Main declarations:
    * `Docket.Step`, `Docket.Course`
    * `Docket.Course.sound`
    * `Docket.Chain`
    * `Future.preserves_outcomes`
-/

namespace Resumption

open Run Session

variable {s s' s₀ : Session}
variable {root f g p d : Ref}
variable {o : Outcome}
variable {L L' : Docket}

/- The handler that an outcome is for, and what it is given. -/
def Reaction.heeds
    (r : Reaction) : Outcome → Option (Closure × Value)
  | .fulfilled v => r.onFulfilled.map (·, v)
  | .rejected e => r.onRejected.map (·, e)

/-
  A turn of a reaction: its handler is called once, and what
  was derived settles by what that does, or as the promise did
  if there is none.
-/
def Reaction.turn
    (r : Reaction)
    (caller : Caller)
    (o : Outcome) : Run Unit :=
  match r.heeds o with
  | none => Promise.conclude r.derived o
  | some (handler, v) => do
      match ← attempt (Promise.within r.derived
          (caller.call handler [v])) with
      | .ok w => Promise.conclude r.derived (.fulfilled w)
      | .error e => Promise.conclude r.derived (.rejected e)

namespace Docket

------------------------------------------------------------
-- Courses
------------------------------------------------------------

/-
  One step, and what the docket knows of it.  Jobs are only
  taken when nobody is left to be told of a settlement, and
  where a job or a watcher runs other code, that is for others
  to go on with.
-/
inductive Step
    (root : Ref) :
    Docket → Session → Docket → Session → Prop where
  | others
      {L : Docket}
      {s s' : Session}
      (h : L.Spares s s') :
      Step root L s L s'
  | reacts
      {L : Docket}
      {s s' : Session}
      {f p d : Ref}
      {h h' : Option Closure}
      (hKept : f ∈ L.futures)
      (hRun : Ends (fun c => Future.react c f h h') s (.ok d) s')
      (hPromise : s'.promise? f = some p) :
      Step root L s (L.called p ⟨h, h', d⟩) s'
  | draws
      {L : Docket}
      {s s' : Session}
      {p d g : Ref}
      (hCall : .echo d ∈ L.calls p)
      (hRun : Future.ofSource (.promise d) s =
        some (.ok (.future g), s')) :
      Step root L s
        (L.linked ⟨d, g, s.promises.size, L.turns⟩) s'
  | settles
      {L : Docket}
      {s : Session}
      {o : Outcome}
      (hPending : s.outcome? root = none)
      (hPlain : o.Plain) :
      Step root L s (L.telling (s.watchers root))
        (s.settling root o)
  | tells
      {L : Docket}
      {s : Session}
      {w : Closure}
      {ws : List Closure}
      (hUntold : L.untold = w :: ws)
      (hOther : ∀ f p, w ≠ .bridge f p) :
      Step root L s (L.told ws) s
  | crosses
      {L : Docket}
      {s s' : Session}
      {f p : Ref}
      {ws : List Closure}
      {v : Value}
      (hUntold : L.untold = .bridge f p :: ws)
      (hRun : Ends (fun c => c.call (.bridge f p) []) s (.ok v)
        s') :
      Step root L s (L.told ws) s'
  | takes
      {L : Docket}
      {s : Session}
      {j : Job}
      {jobs : List Job}
      (hIdle : L.untold = [])
      (hHead : s.microtasks = j :: jobs)
      (hAloof : L.Aloof j) :
      Step root L s (L.took j) (behind s jobs)
  | passes
      {L : Docket}
      {s s' : Session}
      {p d : Ref}
      {o : Outcome}
      {jobs : List Job}
      (hIdle : L.untold = [])
      (hHead : s.microtasks = .react (.echo d) o :: jobs)
      (hCall : .echo d ∈ L.calls p)
      (hRun : Ends (fun c => (Job.react (.echo d) o).run c)
        (behind s jobs) (.ok ()) s') :
      Step root L s (L.took (.react (.echo d) o)) s'
  | follows
      {L : Docket}
      {s : Session}
      {k : Link}
      {o : Outcome}
      {jobs : List Job}
      (hIdle : L.untold = [])
      (hHead : s.microtasks = .react k.reaction o :: jobs)
      (hLink : k ∈ L.links) :
      Step root L s
        ((L.took (.react k.reaction o)).telling
          (s.watchers k.future))
        ((behind s jobs).settling k.future o)

/- Any number of steps. -/
inductive Course
    (root : Ref) :
    Docket → Session → Docket → Session → Prop where
  | rests
      {L : Docket}
      {s : Session} :
      Course root L s L s
  | goes
      {L₀ L L' : Docket}
      {s₀ s s' : Session}
      (h : Course root L₀ s₀ L s)
      (hStep : Step root L s L' s') :
      Course root L₀ s₀ L' s'

theorem steady_react
    (f : Ref)
    (h h' : Option Closure) :
    Steady fun c => Future.react c f h h' :=
  fun _ _ hc => (hc.promiseOf f).bind fun _ => .refl _

theorem Sound.reacts
    {h h' : Option Closure}
    (hs : L.Sound root s)
    (hKept : f ∈ L.futures)
    (hRun : Ends (fun c => Future.react c f h h') s (.ok d) s')
    (hPromise : s'.promise? f = some p) :
    (L.called p ⟨h, h', d⟩).Sound root s' := by
  have hPlain := (hs.sources.tends f hKept).plain
  have hEnds : Ends (fun c => Future.react c f h h') s _ _ :=
    ⟨0, 1, Future.react_eq hPlain 0 0 h h'⟩
  rcases Ends.unique (steady_react f h h') hRun hEnds with
    ⟨hDerived, rfl⟩
  cases hDerived
  rcases hs.ask hKept with ⟨hAsked, hGuards, hMade⟩
  have hSame : p = (s.promise? f).getD s.promises.size := by
    rw [promise?, Future.joined, futures_enlisting] at hPromise
    exact Option.some.inj (hPromise.symm.trans hMade)
  subst hSame
  exact hAsked.enlist hGuards rfl

theorem Sound.draws
    (hs : L.Sound root s)
    (hCall : .echo d ∈ L.calls p)
    (hRun : Future.ofSource (.promise d) s =
      some (.ok (.future g), s')) :
    (L.linked ⟨d, g, s.promises.size, L.turns⟩).Sound root
      s' := by
  rw [Future.ofSource_promise] at hRun
  cases hRun
  have hMade := hs.spares (spares_withFuture hs.sources)
  let k : Link :=
    ⟨d, s.futures.size, s.promises.size, L.turns⟩
  have hCalled := hMade.enlist (r := k.reaction)
    (.inr ⟨p, hCall⟩) rfl
  have hBlank := blank_withFuture s
  have hFutures : (Future.drawn s d).futures =
      (s.withFuture (.fresh none)).futures := futures_enlisting
  have hNew : s.futures.size ∉ L.futures := fun hMem =>
    Nat.lt_irrefl _ (hs.sources.tends _ hMem).exists_
  refine Sound.link (k := k) hCalled ?_ hNew hCall
    (fun o hTaken => ?_) rfl
  · refine ⟨?_, ?_, ?_, ?_, ?_⟩
    · exact hFutures ▸ hBlank.exists_
    · exact (congrArg (fun fs => (fs.getD s.futures.size
        default).settlement.map (·.outcome)) hFutures).trans
          hBlank.outcome
    · exact (congrArg (fun fs => (fs.getD s.futures.size
        default).promise) hFutures).trans hBlank.promise
    · exact (congrArg (fun fs => (fs.getD s.futures.size
        default).watchers.toList) hFutures).trans hBlank.watchers
    · exact (congrArg (fun fs => (fs.getD s.futures.size
        default).audience) hFutures).trans hBlank.audience
  · have hMem := (hs.lines.mem_of_taken hTaken).2.1
    exact hs.lines.fresh (r := k.reaction) rfl d _ hMem rfl

/- Whatever step is made, the books remain right. -/
theorem Step.sound
    (hStep : Step root L s L' s')
    (hs : L.Sound root s) :
    L'.Sound root s' := by
  cases hStep with
  | others h => exact hs.spares h
  | reacts hKept hRun hPromise =>
      exact hs.reacts hKept hRun hPromise
  | draws hCall hRun => exact hs.draws hCall hRun
  | settles hPending hPlain => exact hs.settle hPending hPlain
  | tells hUntold hOther => exact hs.tell hUntold hOther
  | @crosses _ f p _ _ hUntold hRun =>
      have hHead : .bridge f p ∈ L.untold := by
        rw [hUntold]
        exact List.mem_cons_self ..
      have hKept := (hs.sources.untold f p hHead).1
      have hPlain := (hs.sources.tends f hKept).plain
      have hEnds : Ends (fun c => c.call (.bridge f p) []) s _ _ :=
        ⟨0, 1, Future.call_bridge hPlain 0 0 []⟩
      rcases Ends.unique (steady_call _ _) hRun hEnds with
        ⟨_, rfl⟩
      exact hs.cross hUntold
  | takes _ hHead hAloof => exact hs.take hHead hAloof
  | @passes _ p d o jobs _ hHead hCall hRun =>
      rcases hs.lines.next hHead rfl
        (Reaction.among_of_mem hCall) with ⟨hGuards, _, hSome, _⟩
      have hPlain := hs.lines.plain p hGuards o hSome
      rcases hRun with ⟨rounds, depth, hRun⟩
      have hConclude : (Job.react (.echo d) o).run
          (.ofDepth rounds depth) (behind s jobs) =
            Promise.conclude d o (behind s jobs) := by
        cases o <;> rfl
      dsimp only at hRun
      rw [hConclude, Promise.conclude_eq hPlain] at hRun
      cases hRun
      exact hs.pass hHead hCall
  | follows _ hHead hLink => exact hs.draw hHead hLink

theorem Course.sound
    {L₀ : Docket}
    (h : Course root L₀ s₀ L s)
    (hs : L₀.Sound root s₀) :
    L.Sound root s := by
  induction h with
  | rests => exact hs
  | goes _ hStep ih => exact hStep.sound (ih hs)

/-
  A future that nobody has reacted to yet; what its promise
  will be does not exist.
-/
structure Unjoined
    (s : Session)
    (f : Ref) : Prop where
  exists_ : f < s.futures.size
  promise : s.promise? f = none
  plain : ∀ o, s.outcome? f = some o → o.Plain
  watchers : ∀ g p, .bridge g p ∉ s.watchers f
  audience : (s.audience f).filter (·.bridges f) = []
  jobs : ∀ j ∈ s.microtasks, ∀ d, j.derived? = some d →
    d < s.promises.size

theorem Unjoined.sound
    (h : Unjoined s f) :
    (opening f).Sound f s := by
  have hNone : ∀ p, ¬ (opening f).Guards s p := by
    rintro p (⟨g, hg, hPromise⟩ | ⟨q, hCall⟩)
    · cases List.mem_singleton.mp hg
      cases h.promise.symm.trans hPromise
    · cases hCall
  refine ⟨⟨fun p hp => (hNone p hp).elim,
      fun p hp => (hNone p hp).elim, nofun, nofun,
      fun p hp => (hNone p hp).elim, h.jobs, nofun,
      fun _ _ => rfl⟩,
    ⟨fun g hg => ?_, List.mem_singleton_self f, nofun,
      fun g hg g' hg' p hp => ?_, fun g hg p hp => ?_⟩,
    nofun, nofun, nofun⟩
  · cases List.mem_singleton.mp hg
    refine ⟨h.exists_, h.plain, ?_,
      fun g p hMem => (h.watchers g p hMem).elim, ?_, ?_⟩
    · rw [h.audience]
      exact Nat.zero_le _
    · rw [h.promise]
      exact nofun
    · rw [h.promise]
      exact nofun
  · cases List.mem_singleton.mp hg
    cases h.promise.symm.trans hp
  · cases List.mem_singleton.mp hg
    cases h.promise.symm.trans hp

------------------------------------------------------------
-- What Courses Come To
------------------------------------------------------------

/-
  The futures at the end of chains: each was made from what
  was derived without handlers from the one before.
-/
inductive Chain
    (L : Docket)
    (s : Session)
    (f : Ref) : Ref → Prop where
  | start : Chain L s f f
  | next
      {g p : Ref}
      {k : Link}
      (h : Chain L s f g)
      (hPromise : s.promise? g = some p)
      (hCall : .echo k.source ∈ L.calls p)
      (hLink : k ∈ L.links) :
      Chain L s f k.future

section Outcomes

variable (h : L.Sound f s)
include h

theorem Sound.kept_of_chain
    (hChain : L.Chain s f g) :
    g ∈ L.futures := by
  cases hChain with
  | start => exact h.sources.root_mem
  | next _ _ _ hLink => exact (h.links _ hLink).future.1

/- What a chain ends in has no outcome of its own. -/
theorem Sound.outcome_of_chain
    (hChain : L.Chain s f g)
    (hSome : s.outcome? g = some o) :
    s.outcome? f = some o := by
  induction hChain with
  | start => exact hSome
  | @next g p k hChain hPromise hCall hLink ih =>
      have hTaken := ((h.links k hLink).outcome o).mp hSome
      have hSource := (h.lines.mem_of_taken hTaken).2.2
      have hTurn := (h.echoes p k.source hCall o).mp hSource
      have hPromised := (h.lines.mem_of_taken hTurn).2.2
      have hTends := h.sources.tends g (h.kept_of_chain hChain)
      exact ih (hTends.settled p hPromise o hPromised)

/- The promise of a settled future settles before all is idle. -/
theorem Sound.promised_of_idle
    (hKept : g ∈ L.futures)
    (hIdle : L.untold = [])
    (hPromise : s.promise? g = some p)
    (hSome : s.outcome? g = some o) :
    s.promised? p = some o := by
  have hTends := h.sources.tends g hKept
  cases hPromised : s.promised? p with
  | none =>
      rcases hTends.pending p hPromise hPromised with
        ⟨hNone, _⟩ | ⟨_, hWaits⟩
      · cases hSome.symm.trans hNone
      · rw [hIdle] at hWaits
        cases hWaits
  | some o' =>
      have hSame := hTends.settled p hPromise o' hPromised
      exact hSame.symm.trans hSome

/- Once nothing is queued, everyone who came had a turn. -/
theorem Sound.drained
    (hGuards : L.Guards s p)
    (hJobs : s.microtasks = [])
    (hSome : s.promised? p = some o) :
    L.taken p = (L.calls p).map (·, o) := by
  have hLine := (h.lines.line p hGuards).2
  rw [hSome, hJobs] at hLine
  exact hLine.drained

/- Once nothing is left to do, chains have come to their end. -/
theorem Sound.chain_of_drained
    (hChain : L.Chain s f g)
    (hJobs : s.microtasks = [])
    (hIdle : L.untold = [])
    (hSome : s.outcome? f = some o) :
    s.outcome? g = some o := by
  have hTurn : ∀ q r, L.Guards s q → s.promised? q = some o →
      r ∈ L.calls q → (r, o) ∈ L.taken q := by
    intro q r hGuards hPromised hMem
    rw [h.drained hGuards hJobs hPromised]
    exact List.mem_map_of_mem hMem
  induction hChain with
  | start => exact hSome
  | @next g p k hChain hPromise hCall hLink ih =>
      have hKept := h.kept_of_chain hChain
      have hLinked := h.links k hLink
      have hPromised := h.promised_of_idle hKept hIdle hPromise ih
      have hEcho := hTurn p _ (.inl ⟨g, hKept, hPromise⟩)
        hPromised hCall
      have hSource := (h.echoes p k.source hCall o).mpr hEcho
      have hLast := hTurn k.source _ (.inr ⟨p, hCall⟩) hSource
        hLinked.called
      exact (hLinked.outcome o).mpr hLast

end Outcomes

end Docket

namespace Future

/-
  Whatever comes to pass around a future that settles with an
  error or with a value that no promise follows, before or
  after others react to it, the following holds at any time,
  of it and of the futures that were made from what was
  derived without handlers from such a future.

  Whoever reacts to one of them, and whoever settles its
  promise, calls no handler: a job is queued, or the reaction
  waits.  At most one watcher ever came to it for that, and
  the call that settles it calls just those who watch it.
  Everyone who reacted has at most one turn, in the order in
  which they came, and with the future's own outcome; once no
  job is queued, everyone has had their turn.  A turn is one
  job; it calls the handler for the outcome, once and with
  just the value or the error, if there is one.  At the end of
  a chain there is a future that is pending until jobs are
  taken, that settles as the first one did if at all, and that
  has done so once no job is queued.
-/
theorem preserves_outcomes
    (hStart : Docket.Unjoined s₀ f)
    (hCourse : Docket.Course f (.opening f) s₀ L s) :
    (∀ g ∈ L.futures,
      (∀ rounds depth h h',
        react (.ofDepth rounds (depth + 1)) g h h' s =
          some (.ok (asked s g).promises.size,
            joined s g h h')) ∧
      (∀ rounds depth p,
        (Caller.ofDepth rounds (depth + 1)).call (.bridge g p)
            [] s =
          some (.ok .undefined, crossed s g p)) ∧
      (s.outcome? g = none → ∀ c o r s',
        settle c g o s = some (r, s') ↔
          ∃ told, Tells c (s.watchers g) (s.settling g o) told
              s' ∧
            r = verdict told) ∧
      ((s.audience g).filter (·.bridges g)).length ≤ 1 ∧
      ∀ p, s.promise? g = some p →
        ((L.calls p).map (·.derived)).Nodup ∧
        (L.taken p).map (·.1) <+: L.calls p ∧
        (∀ r o, (r, o) ∈ L.taken p →
          s.outcome? g = some o) ∧
        (s.microtasks = [] → L.untold = [] → ∀ o,
          s.outcome? g = some o →
            L.taken p = (L.calls p).map (·, o))) ∧
    (∀ (c : Caller) j jobs, s.microtasks = j :: jobs →
      Jobs.turn c s =
        (do j.run c; return none : Run (Option Unit))
          (Docket.behind s jobs)) ∧
    (∀ (c : Caller) r o t,
      (Job.react r o).run c t = r.turn c o t) ∧
    ∀ g, L.Chain s f g →
      (∀ k ∈ L.links, k.future = g → L.turns = k.born →
        s.outcome? g = none) ∧
      (∀ o, s.outcome? g = some o → s.outcome? f = some o) ∧
      (s.microtasks = [] → L.untold = [] → ∀ o,
        s.outcome? f = some o → s.outcome? g = some o) := by
  have hs := hCourse.sound hStart.sound
  refine ⟨fun g hg => ?_, fun c j jobs hHead => ?_,
    fun c r o t => ?_, fun g hChain => ⟨fun k hk hEnd hBorn => ?_,
      fun o => hs.outcome_of_chain hChain,
      fun hJobs hIdle o => hs.chain_of_drained hChain hJobs
        hIdle⟩⟩
  · have hTends := hs.sources.tends g hg
    refine ⟨fun rounds depth => react_eq hTends.plain rounds
        depth,
      fun rounds depth p => call_bridge hTends.plain rounds depth
        [],
      fun hPending c o r s' => settle_iff hPending, ?_,
      fun p hPromise => ?_⟩
    · refine Nat.le_trans hTends.audience ?_
      split
      · exact Nat.le_refl 1
      · exact Nat.zero_le 1
    · have hGuards : L.Guards s p := .inl ⟨g, hg, hPromise⟩
      have hLine := (hs.lines.line p hGuards).2
      refine ⟨hLine.distinct, hLine.inOrder,
        fun r o hTaken => ?_, fun hJobs hIdle o hSome => ?_⟩
      · exact hTends.settled p hPromise o
          (hs.lines.mem_of_taken hTaken).2.2
      · exact hs.drained hGuards hJobs
          (hs.promised_of_idle hg hIdle hPromise hSome)
  · exact bind_of_end (Veil.takeMicrotask_cons hHead)
  · cases o <;> rfl
  · subst hEnd
    cases hSome : s.outcome? k.future with
    | none => rfl
    | some o =>
        have hLinked := hs.links k hk
        have hLater := hLinked.born.2 o
          ((hLinked.outcome o).mp hSome)
        exact (Nat.lt_irrefl _ (hBorn ▸ hLater)).elim

/-
  Somebody reacts without handlers, a future is made of what
  was derived, and the first one settles after that.
-/
private def seven : Outcome :=
  .fulfilled (.int 7)

private def pending : Session :=
  Session.empty.withFuture (.fresh none)

private def chained : Session :=
  drawn (joined pending 0 none none) 1

private def crossing : Session :=
  crossed (chained.settling 0 seven) 0 0

private def passed : Session :=
  (Docket.behind crossing []).resolving 1 seven

private def followed : Session :=
  (Docket.behind passed []).settling 1 seven

private theorem seven_plain : seven.Plain := by
  intro v hSame
  cases hSame
  rfl

private theorem unjoined_pending : Docket.Unjoined pending 0 := by
  have hNone : pending.outcome? 0 = none := rfl
  refine ⟨Nat.zero_lt_one, rfl, fun o hSome => ?_, ?_, rfl, ?_⟩
  · cases hNone.symm.trans hSome
  · exact nofun
  · exact nofun

/- What is made of it settles as the future has done. -/
theorem preserves_outcomes_along_a_chain :
    followed.outcome? 0 = some seven ∧
      followed.outcome? 1 = some seven := by
  have hSettled : followed.outcome? 0 = some seven := rfl
  have hReact : react (.ofDepth 0 1) 0 none none pending =
      some (.ok 1, joined pending 0 none none) :=
    react_eq unjoined_pending.plain 0 0 none none
  have hCross : (Caller.ofDepth 0 1).call (.bridge 0 0) []
      (chained.settling 0 seven) =
        some (.ok .undefined, crossing) := rfl
  have hPass : (Job.react (.echo 1) seven).run (.ofDepth 0 0)
      (Docket.behind crossing []) = some (.ok (), passed) := rfl
  have hStart : Docket.Course 0 (.opening 0) pending
      (.opening 0) pending := .rests
  have hCourse := hStart
    |>.goes (.reacts (List.mem_singleton_self 0) ⟨0, 1, hReact⟩
      (p := 0) rfl)
    |>.goes (.draws (p := 0) (List.mem_singleton_self _)
      (ofSource_promise 1 _))
    |>.goes (.settles rfl seven_plain)
    |>.goes (.crosses rfl ⟨0, 1, hCross⟩)
    |>.goes (.passes (p := 0) rfl rfl (List.mem_singleton_self _)
      ⟨0, 0, hPass⟩)
    |>.goes (.follows rfl rfl (List.mem_singleton_self _))
  rcases preserves_outcomes unjoined_pending hCourse with
    ⟨_, _, _, hChains⟩
  refine ⟨hSettled, (hChains 1 ?_).2.2 rfl rfl seven hSettled⟩
  exact .next (k := ⟨1, 1, 2, 0⟩) .start rfl
    (List.mem_singleton_self _) (List.mem_singleton_self _)

end Future

end Resumption

import Resumption.Proofs.Stretches.Cleanups

/-
  Nested resources are disposed of in reverse order.

  Any number of resources are opened one inside the other
  around a body, each by a cleanup of its own.  While the
  body is suspended, or what it handed off to is pending, all
  of them stay open.  Then they are disposed of, innermost
  first, each one whatever became of those before it, and the
  failure of the outermost disposal that failed is the
  outcome, if there is any.

  Main declarations:
    * `Resource.nested`, `Resource.opening`
    * `Resource.Unwinds`, `Resource.verdict`
    * `Resource.Nests`, `Resource.Inside`
    * `Resource.nested_disposes_in_reverse`
-/

namespace Resumption

open Session World Cleanup

namespace Resource

variable {s s₁ s₂ s' : Session}
variable {m i : Ref}
variable {env : Session → Session → Prop}
variable {q own own' r : Except Value Value}

------------------------------------------------------------
-- Nested Resources
------------------------------------------------------------

/-
  Resources that are opened one inside the other around a
  body, which is given all of them.
-/
def nested
    (m : Value)
    (body : Code) : List Value → List Value → Program
  | opened, [] => body opened
  | opened, resource :: rest =>
      .request (.using m resource fun args =>
        nested m body (opened ++ args) rest)

/- The code that goes on inside of a resource. -/
def inside
    (m : Ref)
    (body : Code)
    (opened : List Value)
    (resource : Value)
    (rest : List Value) : Closure :=
  .applied (.client fun args =>
    nested (.machine m) body (opened ++ args) rest) [resource]

/- The session in which the body starts: all cleanups are there. -/
def opening
    (m : Ref)
    (body : Code) :
    List Value → List Value → Session → Session
  | _, [], s => s
  | opened, resource :: rest, s =>
      opening m body (opened ++ [resource]) rest
        (Run.calling (s.founding m
          (inside m body opened resource rest)
          (.release resource)))

/- The cleanups of nested resources, the outermost first. -/
def levels : Ref → List Value → List (Ref × Value)
  | _, [] => []
  | i, resource :: rest =>
      (i, resource) :: levels (i + 1) rest

theorem levels_resources
    (i : Ref)
    (resources : List Value) :
    (levels i resources).map (·.2) = resources := by
  induction resources generalizing i with
  | nil => rfl
  | cons resource rest ih => simp [levels, ih]

/- The rows of the cleanups. -/
abbrev cells (levels : List (Ref × Value)) : List Ref :=
  levels.map (·.1)

theorem le_of_mem_levels
    {j : Ref}
    {resources : List Value}
    (h : j ∈ cells (levels i resources)) :
    i ≤ j := by
  induction resources generalizing i with
  | nil => cases h
  | cons resource rest ih =>
      rcases List.mem_cons.mp h with rfl | hMem
      · exact Nat.le_refl _
      · exact Nat.le_of_succ_le (ih hMem)

/- No level is that of another resource. -/
theorem not_mem_levels
    (i : Ref)
    (rest : List Value) :
    i ∉ cells (levels (i + 1) rest) := by
  intro h
  exact absurd (le_of_mem_levels h) (Nat.not_succ_le_self i)

------------------------------------------------------------
-- Unwinding
------------------------------------------------------------

/- A resource that was disposed of, where, and how that ended. -/
structure Disposal where
  resource : Value
  before : Session
  result : Except Value Value
  after : Session

/-
  The levels are left, the innermost first: what is missing
  needs no disposal, and everything else gets one.  The
  disposals are listed in the order in which they happened.
-/
inductive Unwinds
    (own : Except Value Value)
    (s : Session) :
    List (Ref × Value) → List Disposal →
      Except Value Value → Session → Prop where
  | none : Unwinds own s [] [] own s
  | missing
      {i resource inner done own' s₁ s'}
      (h : Unwinds own s inner done own' s₁)
      (hMissing : resource.isMissing = true)
      (hTidies : s₁.Tidies [i] s') :
      Unwinds own s ((i, resource) :: inner) done own' s'
  | disposes
      {i resource inner done own' s₁ s₂ o s₃ s'}
      (h : Unwinds own s inner done own' s₁)
      (hThere : resource.isMissing = false)
      (hTidies : s₁.Tidies [i] s₂)
      (hDispose : Run.Ends
        (fun caller => dispose caller resource) s₂ o s₃)
      (hTidies' : s₃.Tidies [i] s') :
      Unwinds own s ((i, resource) :: inner)
        (done ++ [⟨resource, s₂, o, s₃⟩]) (overridden own' o) s'

/- An outcome after disposals of which the last failure counts. -/
def verdict
    (own : Except Value Value)
    (done : List Disposal) : Except Value Value :=
  done.foldl (fun o d => overridden o d.result) own

theorem verdict_append
    (own : Except Value Value)
    (done done' : List Disposal) :
    verdict own (done ++ done') = verdict (verdict own done) done' :=
  List.foldl_append

/- If none of them failed, it is the outcome itself. -/
theorem verdict_of_ok
    {done : List Disposal}
    (h : ∀ d ∈ done, ∃ v, d.result = .ok v) :
    verdict own done = own := by
  induction done with
  | nil => rfl
  | cons d done ih =>
      rcases h d List.mem_cons_self with ⟨v, hOk⟩
      have hRest := ih fun d' hMem =>
        h d' (List.mem_cons_of_mem d hMem)
      simpa [verdict, hOk, overridden] using hRest

/- If one failed and none after it, it is that failure. -/
theorem verdict_of_error
    {done done' : List Disposal}
    {d : Disposal}
    {e : Value}
    (hError : d.result = .error e)
    (h : ∀ d' ∈ done', ∃ v, d'.result = .ok v) :
    verdict own (done ++ d :: done') = .error e := by
  rw [verdict_append]
  have hLast : verdict (verdict own done) (d :: done') =
      verdict (.error e) done' := by
    simp [verdict, hError, overridden]
  rw [hLast, verdict_of_ok h]

/- What an unwinding comes to is the verdict. -/
theorem Unwinds.verdict_eq
    {inner : List (Ref × Value)}
    {done : List Disposal}
    (h : Unwinds own s inner done own' s') :
    own' = verdict own done := by
  induction h with
  | none => rfl
  | missing _ _ _ ih => exact ih
  | disposes _ _ _ _ _ ih =>
      rw [verdict_append, ← ih]
      rfl

/- All resources that are there are disposed of, innermost first. -/
theorem Unwinds.resources
    {inner : List (Ref × Value)}
    {done : List Disposal}
    (h : Unwinds own s inner done own' s') :
    done.map (·.resource) =
      ((inner.map (·.2)).filter (!·.isMissing)).reverse := by
  induction h with
  | none => rfl
  | missing _ hMissing _ ih => simp [ih, hMissing]
  | disposes _ hThere _ _ _ ih => simp [ih, hThere]

/- Nothing else was done than to dispose of them. -/
theorem Unwinds.disposed
    {inner : List (Ref × Value)}
    {done : List Disposal}
    (h : Unwinds own s inner done own' s') :
    ∀ d ∈ done, Run.Ends
      (fun caller => dispose caller d.resource) d.before d.result
        d.after := by
  induction h with
  | none => simp
  | missing _ _ _ ih => exact ih
  | disposes _ _ _ hDispose _ ih =>
      intro d hMem
      rcases List.mem_append.mp hMem with hMem | hMem
      · exact ih d hMem
      · rw [List.mem_singleton.mp hMem]
        exact hDispose

/-
  A compensation that releases a resource disposes of it, or
  does nothing if it is missing.
-/
theorem ends_release
    {resource : Value}
    {o : Except Value Value}
    (own : Except Value Value)
    (h : Run.Ends (fun caller =>
      caller.call (.release resource) []) s o s') :
    resource.isMissing = true ∧ s' = s ∧
        overridden own o = own ∨
      resource.isMissing = false ∧ ∃ o',
        Run.Ends (fun caller => dispose caller resource) s o' s' ∧
        overridden own o = overridden own o' := by
  rcases Run.ends_call_iff.mp h with ⟨rounds, depth, hRun⟩
  replace hRun : release (.ofDepth rounds depth) resource s =
    some (o, s') := hRun
  unfold release at hRun
  cases hMissing : resource.isMissing with
  | true =>
      simp only [hMissing, if_true] at hRun
      obtain ⟨rfl, rfl⟩ := Prod.mk.inj (Option.some.inj hRun)
      exact .inl ⟨rfl, rfl, rfl⟩
  | false =>
      simp only [hMissing, Bool.false_eq_true, if_false] at hRun
      refine .inr ⟨rfl, ?_⟩
      have hEnds : (Functor.discard
          (dispose (.ofDepth rounds depth) resource) >>= fun _ =>
            (pure .undefined : Run Value)).Ensures s fun o s' =>
          ∃ o', Run.Ends (fun caller => dispose caller resource)
              s o' s' ∧
            overridden own o = overridden own o' := by
        refine Run.Ensures.bind (Run.Ensures.discard ?_)
        intro o' s₁ hDispose
        cases o' with
        | ok v =>
            exact Run.ensures_pure.mpr
              ⟨_, ⟨rounds, depth, hDispose⟩, rfl⟩
        | error e => exact ⟨_, ⟨rounds, depth, hDispose⟩, rfl⟩
      exact hEnds o s' hRun

------------------------------------------------------------
-- Where Nested Resources Have Got To
------------------------------------------------------------

/-
  How a stretch of nested resources ends, and where, when the
  last stretch of the body has ended in the given way.
-/
inductive Nests
    (env : Session → Session → Prop)
    (m : Ref)
    (inner : List (Ref × Value))
    (s : Session) :
    Except Value Value →
      Except Value Value → Session → Prop where
  /- There is no resource around the body. -/
  | bare
      {q : Except Value Value}
      (hNone : inner = []) :
      Nests env m inner s q q s
  /- The body is suspended. -/
  | suspended
      {step awaiter resume made l s'}
      (hStep : step.step? = some (.suspend awaiter resume))
      (hTidies : s.Tidies (cells inner) s')
      (hMade : made.step? = some (.suspend awaiter (.label l)))
      (hNever : ∀ i ∈ cells inner, s'.compensations i = 0) :
      Nests env m inner s (.ok step) (.ok made) s'
  /- What the body handed off to is pending. -/
  | waiting
      {step f made a l s'}
      (hStep : step.step? = some (.handOff (.future f)))
      (hPending : s.outcome? f = none)
      (hTidies : s.Tidies (cells inner) s')
      (hMade : made.step? =
        some (.suspend (.awaiter a) (.label l)))
      (hAwaiter : s'.awaiters[a]? = some (.future f true))
      (hNever : ∀ i ∈ cells inner, s'.compensations i = 0) :
      Nests env m inner s (.ok step) (.ok made) s'
  /- The body has come to an end, and all levels are left. -/
  | unwound
      {q own own' r : Except Value Value}
      {done : List Disposal}
      {s₁ s' : Session}
      (hConcludes : Concludes (Within env (cells inner)) s q
        own s₁)
      (hUnwinds : Unwinds own s₁ inner done own' s')
      (hYields : Yields r own')
      (hOnce : ∀ i ∈ cells inner, s'.compensations i = 1) :
      Nests env m inner s q r s'

variable {inner : List (Ref × Value)}

/- Inside of no resource a body has to make steps itself. -/
theorem Nests.fits
    {step : Value}
    (h : Nests env m inner s q (.ok step) s')
    (hFits : ∀ step, q = .ok step → step.Fits) :
    step.Fits := by
  cases h with
  | bare => exact hFits step rfl
  | suspended _ _ hMade _ => exact ⟨_, hMade, nofun⟩
  | waiting _ _ _ hMade _ _ => exact ⟨_, hMade, nofun⟩
  | unwound _ _ hYields _ =>
      obtain ⟨v, hView⟩ : ∃ v, step.step? = some (.finish v) :=
        hYields.terminates
      exact ⟨_, hView, nofun⟩

/-
  When nested resources have come to an end, so has the body
  inside, and all levels are left.
-/
theorem Nests.concluded
    {env' : Session → Session → Prop}
    (h : Nests env m inner s q r s₁)
    (hConcludes : Concludes env' s₁ r own' s')
    (hEnv : inner = [] → env' = Within env (cells inner)) :
    ∃ own s₂ done,
      Concludes (Within env (cells inner)) s q own s₂ ∧
        Unwinds own s₂ inner done own' s' := by
  cases h with
  | bare hNone =>
      refine ⟨own', s', [], hEnv hNone ▸ hConcludes, ?_⟩
      rw [hNone]
      exact .none
  | suspended _ _ hMade _ =>
      exact (hConcludes.not_suspend hMade).elim
  | waiting _ _ _ hMade _ _ =>
      exact (hConcludes.not_suspend hMade).elim
  | unwound hConcludes' hUnwinds hYields _ =>
      rcases hConcludes.of_yields hYields with ⟨rfl, rfl⟩
      exact ⟨_, _, _, hConcludes', hUnwinds⟩

/- A level that shuts is left. -/
theorem Unwinds.shuts
    {S : Site}
    {resource : Value}
    {done : List Disposal}
    (h : Unwinds own s inner done own' s₁)
    (hRelease : S.compensation = .release resource)
    (hShuts : Shuts S own' s₁ r s') :
    ∃ done' own'',
      Unwinds own s ((S.cell, resource) :: inner) done' own'' s' ∧
        Yields r own'' := by
  cases hShuts with
  | @intro s₂ o s₃ _ _ _ hInvoked _ hCall hTidies hYields =>
      rw [hRelease] at hCall
      rcases ends_release own' hCall with
        ⟨hMissing, rfl, hSame⟩ | ⟨hThere, o', hDispose, hSame⟩
      · rw [hSame] at hYields
        exact ⟨_, _, .missing h hMissing (hInvoked.trans hTidies),
          hYields⟩
      · rw [hSame] at hYields
        exact ⟨_, _, .disposes h hThere hInvoked hDispose hTidies,
          hYields⟩

/- One more level around nested resources. -/
theorem Nests.around
    {S : Site}
    {resource : Value}
    (h : Nests (Around S.cell env) m inner s q r s₁)
    (hs₁ : s₁.Orderly)
    (hCell : S.cell ∉ cells inner)
    (hRelease : S.compensation = .release resource)
    {r' : Except Value Value}
    (hTracks : Tracks env S m s₁ r r' s') :
    Nests env m ((S.cell, resource) :: inner) s q r' s' := by
  have hInner : ∀ i ∈ cells inner, i ∉ [S.cell] := by
    intro i hi
    rw [List.mem_singleton]
    rintro rfl
    exact hCell hi
  have hHead : ∀ i ∈ [S.cell],
      i ∈ cells ((S.cell, resource) :: inner) := by
    intro i hi
    rw [List.mem_singleton.mp hi]
    exact List.mem_cons_self
  have hTail : ∀ i ∈ cells inner,
      i ∈ cells ((S.cell, resource) :: inner) :=
    fun i hi => List.mem_cons_of_mem _ hi
  -- What was not invoked inside is not invoked by tidying up.
  have hNone : ∀ {inner'}, s₁.Tidies [S.cell] s' →
      S.Rests m inner' s' →
      (∀ i ∈ cells inner, s₁.compensations i = 0) →
      ∀ i ∈ cells ((S.cell, resource) :: inner),
        s'.compensations i = 0 := by
    intro inner' hTidies hRests hNever i hi
    rcases List.mem_cons.mp hi with rfl | hi
    · exact hRests.compensations hTidies.orderly
    · rw [hTidies.compensations hs₁ (hInner i hi)]
      exact hNever i hi
  have hAll : ∀ {own s₂ done own'},
      Concludes (Within (Around S.cell env) (cells inner)) s q
        own s₂ →
      Unwinds own s₂ inner done own' s₁ →
      (∀ i ∈ cells inner, s₁.compensations i = 1) →
      Shuts S own' s₁ r' s' →
      Nests env m ((S.cell, resource) :: inner) s q r' s' := by
    intro own s₂ done own' hConcludes hUnwinds hOnce hShuts
    rcases hUnwinds.shuts hRelease hShuts with
      ⟨done', own'', hUnwinds', hYields⟩
    refine .unwound hConcludes hUnwinds' hYields fun i hi => ?_
    rcases List.mem_cons.mp hi with rfl | hi
    · exact hShuts.compensated
    · have hMoves := hShuts.moves
      have hLeast := hMoves.rel.compensated i
      have hMost := compensations_le hMoves.sound.inv i
      have hOne := hOnce i hi
      omega
  cases h with
  | bare hNil =>
      subst hNil
      cases hTracks with
      | suspended hStep hTidies hMade hRests =>
          exact .suspended hStep hTidies hMade
            (hNone hTidies hRests (by simp))
      | waiting hStep hPending hTidies hMade hAwaiter _ hRests =>
          exact .waiting hStep hPending hTidies hMade hAwaiter
            (hNone hTidies hRests (by simp))
      | shut hConcludes hShuts =>
          rcases Unwinds.none.shuts hRelease hShuts with
            ⟨done, own, hUnwinds, hYields⟩
          refine .unwound hConcludes hUnwinds hYields ?_
          intro i hi
          rw [List.mem_singleton.mp hi]
          exact hShuts.compensated
  | suspended hStep hTidies hMade hNever =>
      cases hTracks with
      | suspended hStep' hTidies' hMade' hRests =>
          rw [hMade] at hStep'
          cases hStep'
          exact .suspended hStep
            ((hTidies.mono hTail).trans (hTidies'.mono hHead))
            hMade' (hNone hTidies' hRests hNever)
      | waiting hStep' =>
          rw [hMade] at hStep'
          cases hStep'
      | shut hConcludes _ =>
          exact (hConcludes.not_suspend hMade).elim
  | waiting hStep hPending hTidies hMade hAwaiter hNever =>
      cases hTracks with
      | suspended hStep' hTidies' hMade' hRests =>
          rw [hMade] at hStep'
          cases hStep'
          rcases hTidies'.grows.awaiters _ _ hAwaiter with
            ⟨_, hAwaiter', rfl⟩
          exact .waiting hStep hPending
            ((hTidies.mono hTail).trans (hTidies'.mono hHead))
            hMade' hAwaiter' (hNone hTidies' hRests hNever)
      | waiting hStep' =>
          rw [hMade] at hStep'
          cases hStep'
      | shut hConcludes _ =>
          exact (hConcludes.not_suspend hMade).elim
  | unwound hConcludes hUnwinds hYields hOnce =>
      cases hTracks with
      | suspended hStep' _ _ _ =>
          rcases hYields.terminates with ⟨v, hView⟩
          rw [hView] at hStep'
          cases hStep'
      | waiting hStep' =>
          rcases hYields.terminates with ⟨v, hView⟩
          rw [hView] at hStep'
          cases hStep'
      | shut hConcludes' hShuts =>
          rcases hConcludes'.of_yields hYields with ⟨rfl, rfl⟩
          exact hAll hConcludes hUnwinds hOnce hShuts

------------------------------------------------------------
-- What Runs Inside
------------------------------------------------------------

/-
  What runs inside of nested resources, from where to where:
  the stretches of the body, and the disposals after it.
-/
inductive Inside
    (env : Session → Session → Prop)
    (m : Ref)
    (all : List (Ref × Value))
    (start : Caller → Run Value)
    (s : Session) : Session → Session → Prop where
  | body
      {s₀ q s₁}
      (h : Stretch (Within env (cells all)) m start s s₀ q s₁) :
      Inside env m all start s s₀ s₁
  | disposal
      {s₀ q s₁ own s₂ i resource inner done own' s₃ s₄ o s₅}
      (h : Stretch (Within env (cells all)) m start s s₀ q s₁)
      (hConcludes :
        Concludes (Within env (cells all)) s₁ q own s₂)
      (hInner : (i, resource) :: inner <:+ all)
      (hThere : resource.isMissing = false)
      (hUnwinds : Unwinds own s₂ inner done own' s₃)
      (hTidies : s₃.Tidies [i] s₄)
      (hDispose : Run.Ends
        (fun caller => dispose caller resource) s₄ o s₅) :
      Inside env m all start s s₄ s₅

/- What runs inside of some resources does so inside of one more. -/
theorem Inside.deeper
    {resource : Value}
    {start : Caller → Run Value}
    (h : Inside (Around i env) m inner start s s₁ s') :
    Inside env m ((i, resource) :: inner) start s s₁ s' := by
  cases h with
  | body h => exact .body h
  | disposal h hConcludes hInner hThere hUnwinds hTidies
      hDispose =>
      exact .disposal h hConcludes
        (hInner.trans (List.suffix_cons _ _)) hThere hUnwinds
        hTidies hDispose

/- Calling client code is tidy. -/
theorem tidies_calling
    (hs : s.Orderly) :
    s.Tidies [] (Run.calling s) :=
  .of_ground hs (.of_kernel s.kernel_calling)
    (by simp only [scenery, Run.calling])

/- A new cleanup is one more. -/
theorem size_founding
    (s : Session)
    (m : Ref)
    (code compensation : Closure) :
    (s.founding m code compensation).cleanups.size =
      s.cleanups.size + 1 := by
  have hGround := sameGround_tending
    (s.withCleanup m code compensation)
    (.entered s.cleanups.size)
  exact (congrArg Array.size hGround.cleanups).trans
    (Array.size_push _)

/- Opening a resource builds a cleanup around what is inside. -/
theorem run_nested_cons
    (m : Ref)
    (body : Code)
    (opened : List Value)
    (resource : Value)
    (rest : List Value)
    (caller : Caller) :
    (nested (.machine m) body opened (resource :: rest)).run
        caller =
      Cleanup.build caller (.machine m)
        (inside m body opened resource rest)
        (.release resource) := by
  have hMachine : Builder.machineOf (.machine m) =
      pure (.machine m) := rfl
  simp only [nested, Program.request, Program.run,
    Request.perform, hMachine, pure_bind, use, inside]
  exact bind_pure _

/- Going on inside of a resource is to go on with the others. -/
theorem ends_inside
    {body : Code}
    {opened rest : List Value}
    {resource : Value}
    (h : Run.Ends
      (fun caller => (inside m body opened resource rest).enter
        caller []) s r s') :
    Run.Ends
      (fun caller => (nested (.machine m) body
        (opened ++ [resource]) rest).run caller)
      (Run.calling s) r s' :=
  Run.ends_call_iff.mp h

/-
  Every stretch of nested resources follows the last stretch
  of the body, and leaves alone whatever is left alone by all
  that runs inside.
-/
theorem nests
    (body : Code)
    (resources opened : List Value)
    (outer : List Ref)
    {s₀ : Session}
    (hs : s.Orderly)
    (hm : m < s.machines.size)
    (hi : s.cleanups.size = i)
    (hOuter : ∀ j ∈ outer, j < i)
    (hEnv : Meanwhile (cells (levels i resources)) env)
    (hFits : ∀ s₀ step s₁,
      Stretch (Within env (cells (levels i resources))) m
        (fun caller => (body (opened ++ resources)).run caller)
        (opening m body opened resources s) s₀ (.ok step) s₁ →
      step.Fits)
    (hInside : ∀ s₀ s₁,
      Inside env m (levels i resources)
        (fun caller => (body (opened ++ resources)).run caller)
        (opening m body opened resources s) s₀ s₁ →
      s₀.Respects (outer ++ cells (levels i resources)) s₁)
    (h : Stretch env m
      (fun caller => (nested (.machine m) body opened
        resources).run caller) s s₀ r s') :
    (∃ s₁ q s₂,
      Stretch (Within env (cells (levels i resources))) m
        (fun caller => (body (opened ++ resources)).run caller)
        (opening m body opened resources s) s₁ q s₂ ∧
      Nests env m (levels i resources) s₂ q r s') ∧
    s₀.Respects outer s' := by
  induction resources generalizing opened s i env outer s₀ r s'
    with
  | nil =>
      rw [List.append_nil] at hFits hInside ⊢
      refine ⟨⟨s₀, r, s', h, .bare rfl⟩, ?_⟩
      have hBody := hInside _ _ (.body h)
      rwa [show cells (levels i []) = [] from rfl,
        List.append_nil] at hBody
  | cons resource rest ih =>
      rw [List.append_cons] at hFits hInside ⊢
      simp only [run_nested_cons] at h
      subst hi
      let code := inside m body opened resource rest
      let s₁ := Run.calling
        (s.founding m code (.release resource))
      have hFounding :=
        (rests_founding hs hm code (.release resource)).1
      have hCalling := tidies_calling hFounding.orderly
      have hCell : s.cleanups.size ∉ outer := fun hMem =>
        Nat.lt_irrefl _ (hOuter _ hMem)
      have hm₁ : m < s₁.machines.size :=
        Nat.lt_of_lt_of_le hm (hFounding.grows.trans
          hCalling.grows).machines.size_le
      have hOuter₁ : ∀ j ∈ outer ++ [s.cleanups.size],
          j < s.cleanups.size + 1 := by
        intro j hj
        rcases List.mem_append.mp hj with hj | hj
        · exact Nat.lt_succ_of_lt (hOuter j hj)
        · rw [List.mem_singleton.mp hj]
          exact Nat.lt_succ_self _
      -- What is known of one resource less, one level deeper.
      have hDeeper : ∀ {s₀ q s₂}, Stretch
          (Around s.cleanups.size env) m
          (fun caller => code.enter caller [])
          (s.founding m code (.release resource)) s₀ q s₂ →
          (∃ s₃ q' s₄,
            Stretch (Within env (cells
                (levels s.cleanups.size (resource :: rest)))) m
              (fun caller => (body
                (opened ++ [resource] ++ rest)).run caller)
              (opening m body opened (resource :: rest) s)
              s₃ q' s₄ ∧
            Nests (Around s.cleanups.size env) m
              (levels (s.cleanups.size + 1) rest) s₄ q' q s₂) ∧
          s₀.Respects (s.cleanups.size :: outer) s₂ := by
        intro s₀ q s₂ hStretch
        have hStart : ∀ q s₂, Run.Ends
            (fun caller => code.enter caller [])
            (s.founding m code (.release resource)) q s₂ →
            Run.Ends (fun caller => (nested (.machine m) body
              (opened ++ [resource]) rest).run caller) s₁ q s₂ :=
          fun q s₂ => ends_inside
        rcases hStretch.congr hStart with ⟨t, hNested, hSame⟩
        rcases ih (opened ++ [resource])
          (outer ++ [s.cleanups.size]) hCalling.orderly hm₁
          (size_founding s m code (.release resource)) hOuter₁
          (hEnv.around (not_mem_levels _ _)) hFits
          (fun s₀ s₁ h => by
            rw [List.append_assoc]
            exact hInside _ _ h.deeper)
          hNested with ⟨hNests, hRespects⟩
        refine ⟨hNests, ?_⟩
        have hAll : ∀ j ∈ s.cleanups.size :: outer,
            j ∈ outer ++ [s.cleanups.size] := by
          intro j hj
          rw [List.mem_append, List.mem_singleton]
          exact (List.mem_cons.mp hj).symm
        rcases hSame with rfl | ⟨rfl, rfl⟩
        · exact hRespects.mono hAll
        · exact (hCalling.respects (by simp)).trans
            (hRespects.mono hAll)
      have hBehaves : Behaves env m s.cleanups.size outer
          (fun caller => code.enter caller [])
          (.release resource)
          (s.founding m code (.release resource)) :=
        { fits := fun s₀ step s₂ hStretch => by
            rcases (hDeeper hStretch).1 with
              ⟨s₃, q, s₄, hBody, hNests⟩
            refine hNests.fits ?_
            rintro step rfl
            exact hFits _ _ _ hBody
          respects := fun s₀ q s₂ hStretch =>
            (hDeeper hStretch).2
          after := fun s₀ q s₂ own s₃ s₄ o s₅ hStretch
              hConcludes hTidies hCall => by
            rcases (hDeeper hStretch).1 with
              ⟨b, q', s₆, hBody, hNests⟩
            rcases ends_release own hCall with
              ⟨_, rfl, _⟩ | ⟨hThere, o', hDispose, _⟩
            · exact ⟨fun _ _ => rfl, fun _ _ _ _ h => h⟩
            · rcases hNests.concluded hConcludes (by
                intro hNil
                rw [hNil]
                rfl) with ⟨own', s₇, done, hEnded, hUnwinds⟩
              exact (hInside _ _ (.disposal hBody hEnded
                List.suffix_rfl hThere hUnwinds hTidies
                hDispose)).mono
                  fun j hj => List.mem_append_left _ hj }
      rcases tracks hs hm hCell
        { hEnv with
          respects := fun s s' h => (hEnv.respects s s' h).mono
            fun j hj => by
              rw [List.mem_singleton.mp hj]
              exact List.mem_cons_self } hBehaves h with
        ⟨⟨b, q, s₂, hStretch, hTracks⟩, hRespects⟩
      rcases (hDeeper hStretch).1 with ⟨b', q', s₃, hBody, hNests⟩
      refine ⟨⟨b', q', s₃, hBody, ?_⟩, hRespects⟩
      have hMoves := hStretch.moves hFounding.orderly
        (hEnv.around (not_mem_levels _ _))
        fun q s₂ h => h.moves_enter hFounding.orderly
      exact hNests.around hMoves.2.2.sound.inv
        (not_mem_levels _ _) rfl hTracks

------------------------------------------------------------
-- Disposing in Reverse
------------------------------------------------------------

/-
  Resources are opened one inside the other around a body
  that makes steps, and nobody disturbs their cleanups.  As
  long as the body is suspended, or what it handed off to is
  pending, so are they, on the same future or other awaiter,
  and no compensation was invoked.  Once the body has come to
  an end, each of them was, once, and left to the end of the
  stretch are disposals alone: one for every resource that is
  not missing, in the order that reverses their opening.  The
  outcome is the body's own if none of them failed, and else
  the failure of the outermost resource whose disposal did.
-/
theorem nested_disposes_in_reverse
    (hs : s.Orderly)
    (hm : m < s.machines.size)
    (body : Code)
    (resources : List Value)
    (hEnv : Meanwhile
      (cells (levels s.cleanups.size resources)) env)
    (hFits : ∀ s₀ step s₁,
      Stretch
        (Within env (cells (levels s.cleanups.size resources))) m
        (fun caller => (body resources).run caller)
        (opening m body [] resources s) s₀ (.ok step) s₁ →
      step.Fits)
    (hInside : ∀ s₀ s₁,
      Inside env m (levels s.cleanups.size resources)
        (fun caller => (body resources).run caller)
        (opening m body [] resources s) s₀ s₁ →
      s₀.Respects (cells (levels s.cleanups.size resources)) s₁)
    {s₀ : Session}
    (h : Stretch env m (fun caller =>
      (nested (.machine m) body [] resources).run caller) s s₀ r
      s') :
    (∃ s₁ q s₂,
      Stretch
        (Within env (cells (levels s.cleanups.size resources))) m
        (fun caller => (body resources).run caller)
        (opening m body [] resources s) s₁ q s₂ ∧
      Nests env m (levels s.cleanups.size resources) s₂ q r
        s') ∧
    ∀ own s₁ done own',
      Unwinds own s₁ (levels s.cleanups.size resources) done own'
        s' →
      done.map (·.resource) =
        (resources.filter (!·.isMissing)).reverse ∧
      (∀ d ∈ done, Run.Ends
        (fun caller => dispose caller d.resource) d.before
          d.result d.after) ∧
      ((∀ d ∈ done, ∃ v, d.result = .ok v) → own' = own) ∧
      ∀ earlier d later e, done = earlier ++ d :: later →
        d.result = .error e →
        (∀ d' ∈ later, ∃ v, d'.result = .ok v) →
        own' = .error e := by
  refine ⟨(nests body resources [] [] hs hm rfl (by simp) hEnv
    hFits hInside h).1, fun own s₁ done own' hUnwinds => ?_⟩
  have hVerdict := hUnwinds.verdict_eq
  refine ⟨?_, hUnwinds.disposed, fun hOk => ?_, ?_⟩
  · rw [hUnwinds.resources, levels_resources]
  · rw [hVerdict, verdict_of_ok hOk]
  · rintro earlier d later e rfl hError hOk
    rw [hVerdict, verdict_of_error hError hOk]

/- A session with a machine and a resource that counts. -/
private def furnished : Session :=
  { Session.empty.withMachine true with
    resources := #[.tracked (.str "inner") false 0] }

private theorem orderly_furnished :
    furnished.Orderly :=
  have hs := Ordering.founds.newMachine true
    (Ordering.sound orderly_empty)
  SameGround.orderly (s := Session.empty.withMachine true)
    ⟨rfl, rfl, rfl, rfl, rfl, rfl, rfl, rfl⟩ hs.sound.inv

/-
  The outermost resource is not made to be disposed of, and
  the one in the middle is missing.
-/
private def furniture : List Value :=
  [.bool true, .null, .resource 0]

/- A body that fails at once. -/
private def losing : Code :=
  fun _ => .fail (.str "lost")

/- What fails at once has one stretch. -/
private theorem stretch_losing
    {s₀ : Session}
    (h : Stretch env m
      (fun caller => (losing furniture).run caller) s s₀ q s') :
    q = .error (.str "lost") ∧ s₀ = s ∧ s' = s := by
  induction h with
  | starts hRun =>
      rcases hRun with ⟨rounds, depth, hRun⟩
      obtain ⟨rfl, rfl⟩ := Prod.mk.inj (Option.some.inj hRun)
      exact ⟨rfl, rfl, rfl⟩
  | resumes _ _ _ _ _ ih =>
      cases ih.1

/- Disposing of what is there disturbs no cleanup. -/
private theorem respects_dispose
    {resource : Value}
    {o : Except Value Value}
    {cells : List Ref}
    (hMem : resource = .bool true ∨
      resource = .resource 0 ∧ s.resources = furnished.resources)
    (h : Run.Ends (fun caller => dispose caller resource) s o
      s') :
    s.Respects cells s' := by
  have hSame : ∀ {s'}, s'.cleanups = s.cleanups →
      s'.labels = s.labels → s'.machines = s.machines →
        s.Respects cells s' := by
    intro s' hCleanups hLabels hMachines
    refine ⟨fun i _ => by rw [hCleanups], fun m l code _ h => ?_⟩
    unfold Session.Bears at h ⊢
    rw [hLabels, hMachines]
    exact h
  rcases h with ⟨rounds, depth, hRun⟩
  rcases hMem with rfl | ⟨rfl, hResources⟩
  · obtain ⟨_, rfl⟩ := Prod.mk.inj (Option.some.inj hRun)
    exact hSame rfl rfl rfl
  · have hRow : (Table.resources.rows s).getD 0 default =
        .tracked (.str "inner") false 0 := by
      rw [show Table.resources.rows s = _ from hResources]
      rfl
    have hEnds : (dispose (.ofDepth rounds depth)
        (.resource 0)).Ensures s fun _ s' =>
          s.Respects cells s' := by
      unfold dispose
      refine Run.ensures_row_bind.mpr ?_
      rw [hRow]
      exact Run.ensures_alter_bind.mpr
        (Run.ensures_pure.mpr (hSame rfl rfl rfl))
    exact hEnds o s' hRun

/- Whatever runs inside disturbs no cleanup. -/
private theorem respects_inside
    (h : Inside env 0 (levels 0 furniture)
      (fun caller => (losing furniture).run caller)
      (opening 0 losing [] furniture furnished) s s') :
    s.Respects (cells (levels 0 furniture)) s' := by
  have hSame : (opening 0 losing [] furniture
      furnished).resources = furnished.resources := by
    rfl
  cases h with
  | body h =>
      rcases stretch_losing h with ⟨_, rfl, rfl⟩
      exact ⟨fun _ _ => rfl, fun _ _ _ _ h => h⟩
  | @disposal _ q s₃ own s₄ i resource inner done own' s₅ _ o _ h
      hConcludes hInner hThere hUnwinds hTidies hDispose =>
      rcases stretch_losing h with ⟨rfl, rfl, rfl⟩
      refine respects_dispose ?_ hDispose
      simp only [levels, furniture, List.suffix_cons_iff,
        List.suffix_nil, List.cons.injEq, Prod.mk.injEq] at hInner
      rcases hInner with ⟨⟨_, rfl⟩, _⟩ | ⟨⟨_, rfl⟩, _⟩ |
        ⟨⟨_, rfl⟩, rfl⟩ | hNil
      · exact .inl rfl
      · cases hThere
      · cases hConcludes
        cases hUnwinds
        exact .inr ⟨rfl, (congrArg Session.resources
          hTidies.scenery).trans hSame⟩
      · cases hNil

/- What is thrown in the end is an error without a tag. -/
private theorem nested_fails :
    ((nested (.machine 0) losing [] furniture).run
      (.ofDepth 1 12) furnished).any (fun out =>
        match out.1 with
        | .error (.error _ _ _ _) => true
        | _ => false) = true := by
  decide +kernel

/-
  The disposal of the inner resource comes before that of the
  outer one, and the failure of this takes the place of the
  body's.
-/
theorem nested_disposes_in_reverse_losing :
    ∃ r s', Run.Ends (fun caller =>
        (nested (.machine 0) losing [] furniture).run caller)
        furnished r s' ∧
      r ≠ .error (.str "lost") ∧
      (∀ i ∈ [0, 1, 2], s'.compensations i = 1) ∧
      ∃ own s₁ done own',
        Unwinds own s₁ (levels 0 furniture) done own' s' ∧
        done.map (·.resource) = [.resource 0, .bool true] := by
  have hFails := nested_fails
  obtain ⟨⟨r, s'⟩, hRun⟩ :=
    Option.isSome_iff_exists.mp (Option.isSome_of_any hFails)
  rw [hRun] at hFails
  have hEnds : Run.Ends (fun caller =>
      (nested (.machine 0) losing [] furniture).run caller)
      furnished r s' := ⟨1, 12, hRun⟩
  let env : Session → Session → Prop := fun s s' =>
    s.Grows s' ∧ s'.Orderly ∧
      s.Respects (cells (levels 0 furniture)) s'
  have hEnv : Meanwhile (cells (levels 0 furniture)) env :=
    ⟨fun _ _ h => h.1, fun _ _ h => h.2.1, fun _ _ h => h.2.2⟩
  rcases nested_disposes_in_reverse orderly_furnished
    (m := 0) (by decide) losing furniture hEnv
    (fun s₀ step s₁ h => by cases (stretch_losing h).1)
    (fun s₀ s₁ h => respects_inside h) (.starts hEnds) with
    ⟨⟨s₁, q, s₂, hBody, hNests⟩, hDone⟩
  rcases stretch_losing hBody with ⟨rfl, rfl, rfl⟩
  cases hNests with
  | bare hNone => cases hNone
  | @unwound _ own own' _ done s₃ _ hConcludes hUnwinds hYields
      hOnce =>
      refine ⟨r, s', hEnds, ?_, hOnce, own, s₃, done, own',
        hUnwinds, ?_⟩
      · rintro rfl
        cases hFails
      · exact (hDone own s₃ done own' hUnwinds).1

end Resource

end Resumption

import Resumption.Proofs.Care.Launch
import Resumption.Proofs.Leads

/-
  Careful programs in the careful world: those that make no
  steps keep it, and those that make one make a step that
  comes back to all cleanups that are open.  So whoever calls
  closures does what the world is for.

  Main declarations:
    * `Caring.keeps_program`
    * `Stint.Yields.program`
    * `Caring.keeps_enter`, `Stint.Yields.enter`
    * `Caring.serves_ofDepth`
-/

namespace Resumption

open Session World

variable {held : List Ref}
variable {s s₁ s' : Session}
variable {t m : Ref}
variable {caller : Caller}
variable {n : Nat}

------------------------------------------------------------
-- Machines and Builders
------------------------------------------------------------

/- A session with one more builder. -/
def Session.withBuilder
    (s : Session)
    (row : BuilderCell) : Session :=
  { s with builders := s.builders.push row }

theorem Label.ensures_newMachine_bind
    {α : Type}
    {assertions : Value}
    {next : Value → Run α}
    {post : Except Value α → Session → Prop} :
    (Label.newMachine assertions >>= next).Ensures s post ↔
      (next (.machine s.machines.size)).Ensures (s.withMachine
        (assertions.isMissing || assertions.truthy)) post :=
  Iff.rfl

theorem Builder.ensures_new_bind
    {α : Type}
    {machine captured : Value}
    {next : Value → Run α}
    {post : Except Value α → Session → Prop} :
    (Builder.new machine captured >>= next).Ensures s post ↔
      (next (.builder s.builders.size)).Ensures
        (s.withBuilder ⟨machine, captured⟩) post :=
  Iff.rfl

/- A new builder makes steps on its machine. -/
theorem Session.hub_withBuilder
    (hm : m < s.machines.size)
    (captured : Value) :
    (s.withBuilder ⟨.machine m, captured⟩).Hub m
      (.builder s.builders.size) := by
  refine ⟨?_, hm, fun b hb => ?_⟩
  · simp [Session.machineOf, Session.withBuilder]
  · cases hb
    simp [Session.withBuilder]

namespace Caring

/- A new machine is no matter to anyone, if it checks jumps. -/
theorem moves_withMachine
    {checks : Bool}
    (hs : (Caring held).Sound s)
    (hChecks : checks = true) :
    (Caring held).Moves s (s.withMachine checks) := by
  have hSustains : s.Sustains (s.withMachine checks) :=
    { Sustains.refl s with
      machines := by simp [Session.withMachine]
      bears := fun m l code hBears => by
        have hm := hBears.lt_machines
        rcases hBears with ⟨n, hLabel, hPlace⟩
        refine ⟨n, hLabel, ?_⟩
        unfold Session.withMachine
        rw [getD_push, if_neg (Nat.ne_of_lt hm)]
        exact hPlace }
  refine moves hs hSustains rfl
    (fun t => { Untouched.refl t s with })
    (fun f w hw => hSustains.careful (hs.inv.watchers f w hw))
    (fun m hm => ?_) (Nat.le_refl _) { hs.stocked with }
  simp only [Session.withMachine, Array.size_push] at hm ⊢
  rw [getD_push]
  split
  · exact hChecks
  · exact hs.inv.checks m (by omega)

/- Neither is a new builder. -/
theorem moves_withBuilder
    (hs : (Caring held).Sound s)
    (row : BuilderCell) :
    (Caring held).Moves s (s.withBuilder row) := by
  refine moves_aside hs
    { Sustains.refl s with
      builders := fun b old hOld => ?_ } rfl
    (fun t => { Untouched.refl t s with }) rfl rfl rfl
    { hs.stocked with }
  have hLt := (Array.getElem?_eq_some_iff.mp hOld).1
  unfold Session.withBuilder
  rw [Array.getElem?_push, if_neg (Nat.ne_of_lt hLt)]
  exact hOld

------------------------------------------------------------
-- Requests
------------------------------------------------------------

section Requests

variable (hAll : Caring.Serving caller)
variable (hc : Stint.Carrying caller)
variable (hs : (Caring held).Sound s)
variable (hLe : n ≤ s.machines.size)

include hAll hc hs hLe

/- A task is run on a machine that there is. -/
theorem keeps_runRequest
    {code : Code}
    {options : TaskOptions Program}
    (hm : m < n)
    (hCode : ∀ args,
      (code args).Careful (some (.machine m)) n)
    (hListener : ∀ listener ∈ options.listener, ∀ args,
      (listener args).Careful none n) :
    (Caring held).Keeps
      ((Request.run (.machine m) code options).perform caller)
      s := by
  have hHub : s.Hub m (.machine m) :=
    ⟨rfl, Nat.lt_of_lt_of_le hm hLe, nofun⟩
  refine keeps_runTask hAll hc hs (Nat.lt_of_lt_of_le hm hLe)
    (fun t => .client hHub ((hCode []).mono hLe)) ?_
  intro c hc
  rcases Option.map_eq_some_iff.mp hc with ⟨listener, hIs, rfl⟩
  exact fun args => (hListener listener hIs args).mono hLe

/- A task is run with a machine and a builder of its own. -/
theorem keeps_taskRequest
    {captured : Bool}
    {assertions : Value}
    {code : Code}
    {options : TaskOptions Program}
    (hChecks : assertions.isMissing || assertions.truthy)
    (hCode : ∀ b,
      (code [.builder b]).Careful (some (.builder b)) n)
    (hListener : ∀ listener ∈ options.listener, ∀ args,
      (listener args).Careful none n) :
    (Caring held).Keeps
      ((Request.task captured assertions code options).perform
        caller) s := by
  have h₁ := moves_withMachine hs hChecks
  have hm : s.machines.size < (s.withMachine
      (assertions.isMissing || assertions.truthy)).machines.size :=
    by simp [Session.withMachine]
  refine Label.ensures_newMachine_bind.mpr ?_
  generalize s.withMachine _ = s₁ at *
  have h₂ := moves_withBuilder h₁.sound
    ⟨.machine s.machines.size, .bool captured⟩
  have hHub := s₁.hub_withBuilder hm (.bool captured)
  refine Builder.ensures_new_bind.mpr ?_
  have h₁₂ := h₁.trans h₂
  have hMachines := Nat.le_trans hLe h₁₂.rel.sustains.machines
  refine Keeps.of_moves h₁₂ (keeps_runTask hAll hc h₂.sound hm
    (fun t => .applied (.client hHub ((hCode _).mono hMachines)))
    fun c hc => ?_)
  rcases Option.map_eq_some_iff.mp hc with ⟨listener, hIs, rfl⟩
  exact fun args => (hListener listener hIs args).mono hMachines

end Requests

------------------------------------------------------------
-- Code that Makes No Steps
------------------------------------------------------------

/- What makes no steps keeps the world. -/
theorem keeps_program
    {mode : Option Value}
    {p : Program}
    (hAll : Caring.Serving caller)
    (hc : Stint.Carrying caller)
    (h : p.Careful mode n)
    (hMode : mode = none)
    (hLe : n ≤ s.machines.size)
    (hs : (Caring held).Sound s) :
    (Caring held).Keeps (p.run caller) s := by
  have hHosts := hosts (hAll held)
  induction h generalizing s with
  | done => exact keeps_pure.mpr (.refl hs)
  | fail => exact keeps_raise.mpr (.refl hs)
  | ask hPlain hCodes _ _ ih =>
      refine (hHosts.keeps_perform (hAll held) hs hPlain
        fun code hm args => (hCodes code hm args).mono hLe).bind
          fun v s₁ h₁ => ?_
      exact ih v hMode
        (Nat.le_trans hLe h₁.rel.sustains.machines) h₁.sound
  | attempt _ _ ihBody ih =>
      refine (ihBody rfl hLe hs).attempt.bind
        fun outcome s₁ h₁ => ?_
      exact ih outcome hMode
        (Nat.le_trans hLe h₁.rel.sustains.machines) h₁.sound
  | newMachine hChecks _ ih =>
      have h₁ := moves_withMachine hs hChecks
      refine Label.ensures_newMachine_bind.mpr
        (Keeps.of_moves h₁ ?_)
      exact ih _ hLe hMode (by simp [Session.withMachine])
        h₁.sound
  | @newBuilder _ _ machine captured _ _ ih =>
      have h₁ := moves_withBuilder hs ⟨machine, captured⟩
      refine Builder.ensures_new_bind.mpr (Keeps.of_moves h₁ ?_)
      exact ih _ hMode hLe h₁.sound
  | run hm hCode hListener _ _ _ ih =>
      refine (keeps_runRequest hAll hc hs hLe hm hCode
        hListener).bind fun v s₁ h₁ => ?_
      exact ih v hMode
        (Nat.le_trans hLe h₁.rel.sustains.machines) h₁.sound
  | task hChecks hCode hListener _ _ _ ih =>
      refine (keeps_taskRequest hAll hc hs hLe hChecks hCode
        hListener).bind fun v s₁ h₁ => ?_
      exact ih v hMode
        (Nat.le_trans hLe h₁.rel.sustains.machines) h₁.sound
  | _ => cases hMode

end Caring

------------------------------------------------------------
-- Code that Makes a Step
------------------------------------------------------------

namespace Stint.Yields

variable {W : Stint}
variable {F : Footprint}
variable {hub : Value}

/- A result may be passed on. -/
theorem passOn
    {act : Run Value}
    (h : W.Yields F act s) :
    W.Yields F (act >>= fun v =>
      (Program.done v).run caller) s := by
  refine Run.Ensures.bind (Run.Ensures.mono h ?_)
  rintro (e | v) s₁ hMakes
  · exact hMakes
  · exact Run.ensures_pure.mpr hMakes

/- A construct is built on the machine behind a hub. -/
theorem onMachine
    {next : Value → Run Value}
    (hActive : W.Active s)
    (hHub : s.Hub W.machine hub)
    (h : W.Yields F (next (.machine W.machine)) s) :
    W.Yields F (Builder.machineOf hub >>= next) s := by
  refine of_eq (Run.step_eq (a := .machine W.machine) ?_ rfl)
    (.of_moves (.refl hActive.sound)) (fun _ _ hc => hc) h
  rcases hHub.cases with rfl | ⟨b, rfl, hMachine⟩
  · rfl
  · rw [← hMachine]
    rfl

/-
  What makes a step makes one that comes back to all that is
  open, and when it fails nothing is open.
-/
theorem program
    {mode : Option Value}
    {p : Program}
    (hAll : Caring.Serving caller)
    (hc : Carrying caller)
    (h : p.Careful mode n)
    (hMode : mode = some hub)
    (hLe : n ≤ s.machines.size)
    (hActive : W.Active s)
    (hHub : s.Hub W.machine hub)
    (hLeaves : W.Leaves [] s) :
    W.Yields .none (p.run caller) s := by
  have hHosts := Caring.hosts (hAll (W.task :: W.held))
  induction h generalizing s with
  | give h => exact .ends hActive hLeaves (.of_not h)
  | fail => exact .raise hActive hLeaves _
  | ask hPlain hCodes _ _ ih =>
      refine .bind hLeaves (hHosts.keeps_perform (hAll _)
        hActive.sound hPlain
        fun code hm args => (hCodes code hm args).mono hLe)
          fun v s₁ h₁ => ?_
      exact ih v hMode
        (Nat.le_trans hLe h₁.rel.sustains.machines)
        (hActive.moves h₁) (hHub.later h₁.rel.sustains)
        (hLeaves.moves h₁)
  | attempt hBody _ _ ih =>
      refine .bind hLeaves (Caring.keeps_program hAll hc hBody rfl
        hLe hActive.sound).attempt fun outcome s₁ h₁ => ?_
      exact ih outcome hMode
        (Nat.le_trans hLe h₁.rel.sustains.machines)
        (hActive.moves h₁) (hHub.later h₁.rel.sustains)
        (hLeaves.moves h₁)
  | newMachine hChecks _ ih =>
      have h₁ := Caring.moves_withMachine hActive.sound hChecks
      refine .of_eq (H := .none) (Run.step_eq (a := .machine
        s.machines.size) rfl rfl) (.of_moves h₁)
        (fun _ _ hc => hc) ?_
      exact ih _ hLe hMode (by simp [Session.withMachine])
        (hActive.moves h₁) (hHub.later h₁.rel.sustains)
        (hLeaves.moves h₁)
  | @newBuilder _ _ machine captured _ _ ih =>
      have h₁ := Caring.moves_withBuilder hActive.sound
        ⟨machine, captured⟩
      refine .of_eq (H := .none) (Run.step_eq (a := .builder
        s.builders.size) rfl rfl) (.of_moves h₁)
        (fun _ _ hc => hc) ?_
      exact ih _ hMode hLe (hActive.moves h₁)
        (hHub.later h₁.rel.sustains) (hLeaves.moves h₁)
  | run hm hCode hListener _ _ _ ih =>
      refine .bind hLeaves (Caring.keeps_runRequest hAll hc
        hActive.sound hLe hm hCode hListener) fun v s₁ h₁ => ?_
      exact ih v hMode
        (Nat.le_trans hLe h₁.rel.sustains.machines)
        (hActive.moves h₁) (hHub.later h₁.rel.sustains)
        (hLeaves.moves h₁)
  | task hChecks hCode hListener _ _ _ ih =>
      refine .bind hLeaves (Caring.keeps_taskRequest hAll hc
        hActive.sound hLe hChecks hCode hListener)
        fun v s₁ h₁ => ?_
      exact ih v hMode
        (Nat.le_trans hLe h₁.rel.sustains.machines)
        (hActive.moves h₁) (hHub.later h₁.rel.sustains)
        (hLeaves.moves h₁)
  | finish => exact passOn (.finish hActive hLeaves _)
  | handOff => exact passOn (.handOff hActive hLeaves _)
  | returnFrom =>
      cases hMode
      exact passOn (.returnFrom hAll hc hActive hLeaves hHub _)
  | bind hRest =>
      cases hMode
      exact passOn (.builderBind hAll hc hActive hLeaves hHub
        (fun v => .client hHub ((hRest [v]).mono hLe)) _)
  | bindDetached hRest =>
      cases hMode
      exact passOn (.bindDetached hAll hc hActive hLeaves hHub
        (fun v => .client hHub ((hRest [v]).mono hLe)) _)
  | awaitResult hRest =>
      cases hMode
      exact passOn (.awaitResult hAll hc hActive hLeaves hHub
        (fun v => .client hHub ((hRest [v]).mono hLe)) _)
  | rescue _ hPass _ ihBody ih =>
      -- A failure has closed all, so the handler starts anew.
      refine Run.Ensures.bind (Run.ensures_attempt.mpr
        (Run.Ensures.mono (ihBody hMode hLe hActive hHub hLeaves)
          ?_))
      rintro (e | v) s₁ hMakes
      · have hSustains := hMakes.works.sustains
        exact (ih e hMode (Nat.le_trans hLe hSustains.machines)
          (hActive.later hMakes.works) (hHub.later hSustains)
          (hMakes.failed e rfl)).sooner hMakes.works
            fun _ _ hc => hc
      · simp only [Run.Follows, hPass]
        exact Run.ensures_pure.mpr hMakes
  | combine _ hRest ihFirst _ =>
      cases hMode
      rw [Program.run_bind]
      refine Run.Ensures.bind (Run.Ensures.mono
        (ihFirst rfl hLe hActive hHub hLeaves) ?_)
      rintro (e | step) s₁ hMakes
      · exact ⟨hMakes.works, (fun _ h => by cases h),
          hMakes.failed⟩
      rcases hMakes.made step rfl with
        ⟨opened, G, hOpens, hLeaves₁, hG⟩
      have hSustains := hMakes.works.sustains
      have hActive₁ := hActive.later hMakes.works
      have hHub₁ := hHub.later hSustains
      refine Run.Ensures.mono (passOn (onMachine hActive₁ hHub₁
        (.buildSequence hc hActive₁ hOpens hLeaves₁
          (.client hHub₁ ((hRest []).mono
            (Nat.le_trans hLe hSustains.machines)))))) ?_
      exact fun r s₂ hMade => hMade.sooner hMakes.works hG
  | whileLoop hCondition hBody =>
      cases hMode
      exact passOn (onMachine hActive hHub (.buildLoop hc hActive
        hLeaves (fun args => (hCondition args).mono hLe)
        (.client hHub ((hBody []).mono hLe))))
  | forLoop hBody =>
      cases hMode
      exact passOn (onMachine hActive hHub (.buildIteration hAll
        hc hActive hLeaves
        (fun v => .client hHub ((hBody [v]).mono hLe)) _))
  | tryWith hCode hHandler =>
      cases hMode
      exact passOn (onMachine hActive hHub (.buildRecovery hc
        hActive hLeaves (.client hHub ((hCode []).mono hLe))
        fun e => .client hHub ((hHandler [e]).mono hLe)))
  | tryFinally hCode hCompensation =>
      cases hMode
      exact passOn (onMachine hActive hHub (.buildCleanup hc
        hActive hLeaves (.client hHub ((hCode []).mono hLe))
        fun args => (hCompensation args).mono hLe))
  | «using» hBody =>
      cases hMode
      exact passOn (onMachine hActive hHub (.buildCleanup hc
        hActive hLeaves
        (.applied (.client hHub ((hBody [_]).mono hLe)))
        trivial))
  | _ => cases hMode

end Stint.Yields

------------------------------------------------------------
-- Closures
------------------------------------------------------------

/- Entering what anyone may call keeps the world. -/
theorem Caring.keeps_enter
    (hAll : Caring.Serving caller)
    (hc : Stint.Carrying caller)
    (hs : (Caring held).Sound s)
    {closure : Closure}
    (h : closure.Careful s)
    (args : List Value) :
    (Caring held).Keeps (closure.enter caller args) s := by
  have hServes := hAll held
  have hHosts := hosts hServes
  cases closure with
  | client code =>
      exact Keeps.bind (keeps_calling hs) fun _ s₁ h₁ =>
        keeps_program hAll hc (h args) rfl
          h₁.rel.sustains.machines h₁.sound
  | applied f fixed => exact hServes.call hs h fixed
  | finished => exact keeps_newStep hs _
  | release resource => exact keeps_release hServes hs resource
  | cursorAdvance c => exact keeps_advanceCursor hServes hs c
  | cursorClose c => exact Keeps.quietly (keeps_close hServes hs c)
  | driverResume d callback =>
      exact Keeps.quietly (keeps_resume hAll hc hs d callback _)
  | driverOutcome d awaiter =>
      exact Keeps.quietly (keeps_conclude hServes hs h awaiter)
  | resumption context callback =>
      exact World.keeps_resume hServes hs context h
  | posted entered context callback =>
      exact World.keeps_enter hServes hs entered context h
  | bridge f p => exact Hosts.keeps_cross hs f p
  | settleFuture f fulfil =>
      exact Keeps.bind (keeps_settle hServes hs f _)
        fun _ _ h₁ => keeps_pure.mpr (.refl h₁.sound)
  | settlePromise p called fulfil =>
      exact World.keeps_enterSettle hs p called fulfil _
  | _ => exact absurd h id

/- Entering code of a task makes what it leaves open. -/
theorem Stint.Yields.enter
    {W : Stint}
    {F : Footprint}
    {opened : List Ref}
    {code : Closure}
    {args : List Value}
    (hAll : Caring.Serving caller)
    (hc : Stint.Carrying caller)
    (hActive : W.Active s)
    (hLeaves : W.Leaves opened s)
    (h : s.Carries W.machine W.task code args opened F) :
    W.Yields F (code.enter caller args) s := by
  have hNone : ∀ c, Footprint.none c → F c := fun _ hc => hc.elim
  cases code with
  | client f =>
      cases h with
      | client hHub hCode =>
      refine .bind hLeaves (keeps_calling hActive.sound)
        fun _ s₁ h₁ => ?_
      exact (program hAll hc hCode rfl h₁.rel.sustains.machines
        (hActive.moves h₁) (hHub.later h₁.rel.sustains)
        (hLeaves.moves h₁)).mono hNone
  | applied f fixed =>
      cases h with
      | applied h => exact hc hActive hLeaves h
  | received awaiter rest =>
      cases h with
      | received h =>
      refine .bind hLeaves ((Caring.hosts (hAll _)).keeps_result
        (hAll _) hActive.sound awaiter) fun v s₁ h₁ => ?_
      exact hc (hActive.moves h₁) (hLeaves.moves h₁)
        ((h v).moves h₁)
  | finished =>
      cases h with
      | finished => exact .finish hActive hLeaves _
  | jump m l =>
      cases h with
      | jump hLabel h => exact .jump hc hActive hLeaves hLabel h
  | loopHead m entry condition body =>
      cases h with
      | loopHead hEntry hCondition hBody =>
      exact .enterLoop hAll hc hActive hLeaves
        (.loopHead hEntry hCondition hBody)
  | cursorLoop m c body =>
      cases h with
      | cursorLoop hm h =>
      exact .buildLoop hc hActive hLeaves trivial (.cursorItem h)
  | cursorItem c body =>
      cases h with
      | cursorItem h =>
      refine .bind hLeaves (keeps_current hActive.sound c)
        fun v s₁ h₁ => ?_
      exact hc (hActive.moves h₁) (hLeaves.moves h₁)
        ((h v).moves h₁)
  | sequenceEntry i =>
      exact .enterSequence hAll hc hActive hLeaves h
  | sequenceResume i l =>
      exact .resumeSequence hc hActive hLeaves h
  | recoveryEntry i =>
      exact .enterRecovery hAll hc hActive hLeaves h
  | recoveryOutcome i awaiter =>
      exact .recoveryOutcome hAll hc hActive hLeaves h
  | cleanupEntry i =>
      exact .enterCleanup hAll hc hActive hLeaves h
  | cleanupOutcome i awaiter =>
      exact .cleanupOutcome hAll hActive hLeaves h
  | _ => cases h

/- Whoever calls closures does what the world is for. -/
theorem Caring.serves_ofDepth
    (rounds depth : Nat) :
    Caring.Serving (.ofDepth rounds depth) ∧
      Stint.Carrying (.ofDepth rounds depth) := by
  induction depth with
  | zero =>
      exact ⟨fun _ _ _ _ _ _ => Run.ensures_exhaust,
        fun _ _ _ _ _ _ _ _ _ => Run.ensures_exhaust⟩
  | succ depth ih =>
      refine ⟨fun held c args s hs h => ?_,
        fun W s code args opened F hActive hLeaves h =>
          .enter ih.1 ih.2 hActive hLeaves h⟩
      exact Run.Ensures.mono (keeps_enter ih.1 ih.2 hs h args)
        fun _ _ hMoves => ⟨hMoves, trivial⟩

end Resumption

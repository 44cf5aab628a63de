import Resumption.Proofs.Care.Cells

/-
  Awaiting, sequences and loops make what comes back to all
  cleanups that are open.

  Main declarations:
    * `Stint.Yields.awaitResult`, `Stint.Yields.bindTo`
    * `Stint.Yields.returnFrom`
    * `Stint.Yields.buildSequence`
    * `Stint.Yields.enterSequence`
    * `Stint.Yields.resumeSequence`
    * `Stint.Yields.buildLoop`, `Stint.Yields.enterLoop`
-/

namespace Resumption

open Session World

variable {W : Stint}
variable {F G : Footprint}
variable {s s₁ s' : Session}
variable {caller : Caller}
variable {opened : List Ref}
variable {hub : Value}

/- A caller serves the careful world, whoever is held. -/
def Caring.Serving (caller : Caller) : Prop :=
  ∀ held, (Caring held).Serves caller

/- What a source is awaited by is a future. -/
theorem Future.ensures_ofSource
    (source : Value)
    (s : Session) :
    (Future.ofSource source).Ensures s fun r _ =>
      ∀ v, r = .ok v → ∃ f, v = .future f := by
  have hAny : ∀ {α : Type} {act : Run α} {s : Session},
      act.Ensures s fun _ _ => True :=
    fun _ _ _ => trivial
  unfold Future.ofSource
  split
  · refine Run.ensures_pure.mpr ?_
    rintro _ ⟨⟩
    exact ⟨_, rfl⟩
  · refine Run.Ensures.bind (hAny.mono ?_)
    rintro (e | f) s₁ -
    · exact nofun
    refine Run.Ensures.bind (hAny.mono ?_)
    rintro (e | p) s₂ -
    · exact nofun
    refine Run.Ensures.bind (hAny.mono ?_)
    rintro (e | u) s₃ -
    · exact nofun
    refine Run.ensures_pure.mpr ?_
    rintro _ ⟨⟩
    exact ⟨f, rfl⟩

/- Steps are made with a machine, or with a builder on it. -/
theorem Session.Hub.cases
    {m : Ref}
    (h : s.Hub m hub) :
    hub = .machine m ∨ ∃ b, hub = .builder b ∧
      (s.builders.getD b default).machine = .machine m := by
  rcases h with ⟨hMachine, _, _⟩
  cases hub with
  | builder b => exact .inr ⟨b, rfl, hMachine⟩
  | _ => exact .inl hMachine

/- The machine of the task is one to make steps with. -/
theorem Stint.Active.ownHub
    (h : W.Active s) :
    s.Hub W.machine (.machine W.machine) :=
  ⟨rfl, h.machine, fun _ hb => by cases hb⟩

namespace Stint.Yields

section Awaiting

variable (hServes : Caring.Serving caller)
variable (hc : Carrying caller)
variable (hActive : W.Active s)
variable (hLeaves : W.Leaves [] s)
variable (hHub : s.Hub W.machine hub)

include hServes hc hActive hLeaves hHub

------------------------------------------------------------
-- Awaiting
------------------------------------------------------------

/- The rest runs at once, or when the awaiter calls back. -/
theorem awaitResult
    {rest : Closure}
    (hRest : ∀ v,
      s.Carries W.machine W.task rest [v] [] .none)
    (awaiter : Value) :
    W.Yields F (Await.awaitResult caller hub awaiter rest) s := by
  have hHosts := Caring.hosts (hServes (W.task :: W.held))
  have hAll := hServes (W.task :: W.held)
  unfold Await.awaitResult
  refine .bind hLeaves (hHosts.keeps_completed hAll hActive.sound
    awaiter) fun isDone s₁ h₁ => ?_
  have hActive₁ := hActive.moves h₁
  have hLeaves₁ := hLeaves.moves h₁
  split
  · refine .bind hLeaves₁ (hHosts.keeps_result hAll h₁.sound
      awaiter) fun v s₂ h₂ => ?_
    have hCall : W.Yields .none (caller.call rest [v]) s₂ :=
      hc (hActive₁.moves h₂) (hLeaves₁.moves h₂)
        ((hRest v).moves (h₁.trans h₂))
    exact hCall.mono fun _ hc => hc.elim
  · rcases hHub.cases with rfl | ⟨b, rfl, _⟩
    · have hCarries : s₁.Carries W.machine W.task
          (.received awaiter rest) [] [] .none :=
        .received fun v => (hRest v).moves h₁
      have hInstall := Yields.install hActive₁ hLeaves₁ hCarries
        awaiter
      exact hInstall.mono fun _ hc => hc.elim
    · exact .of_eq (rfl : _ = Run.typeError s₁)
        (.of_moves (.refl h₁.sound)) (fun _ _ hc => hc)
        (.typeError hActive₁ hLeaves₁)

theorem bindTo
    {rest : Closure}
    (hRest : ∀ v,
      s.Carries W.machine W.task rest [v] [] .none)
    (source : Value) :
    W.Yields F (Await.bind caller hub source rest) s := by
  have hHosts := Caring.hosts (hServes (W.task :: W.held))
  have hAll := hServes (W.task :: W.held)
  unfold Await.bind
  refine .bind hLeaves (hHosts.keeps_toAwaitable hActive.sound
    source) fun awaitable s₁ h₁ => ?_
  refine .bind (hLeaves.moves h₁) (hHosts.keeps_awaiterOf hAll
    h₁.sound awaitable) fun awaiter s₂ h₂ => ?_
  have h₁₂ := h₁.trans h₂
  exact .awaitResult hServes hc (hActive.moves h₁₂)
    (hLeaves.moves h₁₂) (hHub.later h₁₂.rel.sustains)
    (fun v => (hRest v).moves h₁₂) awaiter

theorem bindDetached
    {rest : Closure}
    (hRest : ∀ v,
      s.Carries W.machine W.task rest [v] [] .none)
    (source : Value) :
    W.Yields F (Await.bindDetached caller hub source rest) s := by
  have hHosts := Caring.hosts (hServes (W.task :: W.held))
  have hAll := hServes (W.task :: W.held)
  unfold Await.bindDetached
  refine .bind hLeaves (hHosts.keeps_toAwaitable hActive.sound
    source) fun awaitable s₁ h₁ => ?_
  refine .bind (hLeaves.moves h₁) (hHosts.keeps_detachedAwaiter
    hAll h₁.sound awaitable) fun awaiter s₂ h₂ => ?_
  have h₁₂ := h₁.trans h₂
  exact .awaitResult hServes hc (hActive.moves h₁₂)
    (hLeaves.moves h₁₂) (hHub.later h₁₂.rel.sustains)
    (fun v => (hRest v).moves h₁₂) awaiter

/- A builder chooses whether its awaits keep the context. -/
theorem builderBind
    {rest : Closure}
    (hRest : ∀ v,
      s.Carries W.machine W.task rest [v] [] .none)
    (source : Value) :
    W.Yields F (Builder.bind caller hub source rest) s := by
  unfold Builder.bind
  split
  · next b =>
    refine .row_bind (.get_bind ?_)
    refine .bind hLeaves (keeps_chronicle hActive.sound rfl)
      fun _ s₁ h₁ => ?_
    have hMachine : s.Hub W.machine
        ((Table.builders.rows s).getD b default).machine := by
      rcases hHub with ⟨hMachine, _, _⟩
      have hOwn : ((Table.builders.rows s).getD b
        default).machine = .machine W.machine := hMachine
      rw [hOwn]
      exact hActive.ownHub
    have hHub₁ := hMachine.later h₁.rel.sustains
    have hRest₁ := fun v => (hRest v).moves h₁
    split
    · exact .bindTo hServes hc (hActive.moves h₁)
        (hLeaves.moves h₁) hHub₁ hRest₁ source
    · exact .bindDetached hServes hc (hActive.moves h₁)
        (hLeaves.moves h₁) hHub₁ hRest₁ source
  · exact .bindTo hServes hc hActive hLeaves hHub hRest source

/- A source is handed off, or awaited. -/
theorem returnFrom
    (source : Value) :
    W.Yields F (do
      Builder.require hub
      Builder.returnFrom caller hub source) s := by
  refine .bind hLeaves (keeps_require hActive.sound hub)
    fun _ s₁ h₁ => ?_
  have hActive₁ := hActive.moves h₁
  have hLeaves₁ := hLeaves.moves h₁
  unfold Builder.returnFrom
  split
  · exact .handOff hActive₁ hLeaves₁ _
  · refine .bind hLeaves₁ (Hosts.keeps_isAwaitable h₁.sound
      source) fun isOne s₂ h₂ => ?_
    split
    · exact .builderBind hServes hc (hActive₁.moves h₂)
        (hLeaves₁.moves h₂)
        (hHub.later (h₁.trans h₂).rel.sustains)
        (fun _ => .finished) source
    · have hSource := (Caring.hosts (hServes
        (W.task :: W.held))).keeps_ofSource h₂.sound source
      refine .bind_with (hLeaves₁.moves h₂) hSource
        (Future.ensures_ofSource source s₂)
        fun v s₃ h₃ hFuture => ?_
      rcases hFuture v rfl with ⟨f, rfl⟩
      have h₂₃ := h₂.trans h₃
      exact .handOff (hActive₁.moves h₂₃) (hLeaves₁.moves h₂₃) f

end Awaiting

end Stint.Yields

------------------------------------------------------------
-- Sequences
------------------------------------------------------------

/- A row that there is reads as it is. -/
theorem Array.getD_of_getElem?
    {α : Type}
    [Inhabited α]
    {rows : Array α}
    {i : Nat}
    {row : α}
    (h : rows[i]? = some row) :
    rows.getD i default = row := by
  simp [Array.getD_eq_getD_getElem?, h]

/- A sequence's entry comes back to its step, and its cell. -/
theorem Session.Opens.enters
    {m t i entry rest : Ref}
    {step : Value}
    {code : Closure}
    (h : s.Opens m t step opened G)
    (hRow : s.sequences[i]? =
      some ⟨m, entry, step, rest, some t⟩)
    (hEntry : s.Bears m entry (some (.sequenceEntry i)))
    (hRest : s.Bears m rest (some code))
    (hCode : s.Carries m t code [] [] .none)
    (hApart : ¬ G (.sequence i)) :
    ∃ F, s.Carries m t (.sequenceEntry i) [] opened F ∧
      ∀ c, F c → G c ∨ c = .sequence i := by
  cases h with
  | ends h =>
      exact ⟨_, .sequenceAtEnd hRow hEntry hRest hCode h,
        fun c hc => .inr hc⟩
  | suspends hStep hLabel h =>
      exact ⟨_, .sequenceEntry hRow hEntry hRest hCode hStep
        hLabel h hApart, fun c hc => hc⟩

namespace Stint.Yields

/- A sequence is built on a step with cleanups in it. -/
theorem buildSequence
    {step : Value}
    {rest : Closure}
    (hc : Carrying caller)
    (hActive : W.Active s)
    (hOpens : s.Opens W.machine W.task step opened G)
    (hLeaves : W.Leaves opened s)
    (hRest : s.Carries W.machine W.task rest [] [] .none) :
    W.Yields G
      (Sequence.build caller (.machine W.machine) step rest)
      s := by
  have hMoves := Caring.moves_withSequence hActive.sound
    hActive.machine step rest
  have hAt := Sequence.at_withSequence hActive.machine step rest
  have hRow : (s.withSequence W.machine step
      rest).sequences[s.sequences.size]? =
        some ⟨W.machine, (Sequence.newSite s W.machine
          rest).entry, step, s.labels.size, some W.task⟩ := by
    rw [← hActive.task]
    simp [Session.withSequence, Session.relabelled,
      Session.withSequenceRow, Session.withLabel,
      Sequence.newSite]
  have hNew := (s.not_belongs_new W.task).1
  have hOpens' := hOpens.later hMoves.rel.sustains fun c hc =>
    (hMoves.rel.held W.task List.mem_cons_self).cells c
      (hOpens.belongs hc)
  rcases hOpens'.enters hRow hAt.entry hAt.rest
    (hRest.moves hMoves) (fun hc => hNew (hOpens.belongs hc)) with
    ⟨F, hCarries, hF⟩
  refine .of_eq (Sequence.build_eq caller hActive.machine step
    rest) (.of_moves hMoves) (fun c hOwn hMine => ?_)
    (.jump hc (hActive.moves hMoves) (hLeaves.moves hMoves)
      hAt.entry hCarries)
  rcases hF c hMine with hOld | rfl
  · exact hOld
  · exact absurd hOwn hNew

/- What ends is followed by the rest. -/
private theorem enterSequenceAtEnd
    {i entry rest : Ref}
    {step : Value}
    {code : Closure}
    (hServes : Caring.Serving caller)
    (hc : Carrying caller)
    (hActive : W.Active s)
    (hLeaves : W.Leaves [] s)
    (hRow : s.sequences[i]? =
      some ⟨W.machine, entry, step, rest, some W.task⟩)
    (hRest : s.Bears W.machine rest (some code))
    (hCode : s.Carries W.machine W.task code [] [] .none)
    (hEnds : step.Ends) :
    W.Yields F (Sequence.enter caller i) s := by
  unfold Sequence.enter
  refine .row_bind ?_
  rw [show (Table.sequences.rows s).getD i default = _ from
    Array.getD_of_getElem? hRow]
  have hNone : ∀ c, Footprint.none c → F c := fun _ hc => hc.elim
  dsimp only
  split
  · exact .typeError hActive hLeaves
  · split
    · exact .ends hActive hLeaves (.of_not rfl)
    · exact (Yields.jump hc hActive hLeaves hRest hCode).mono hNone
    · next future hStep =>
      rcases hEnds.handOff future hStep with ⟨f, rfl⟩
      have hAll := hServes (W.task :: W.held)
      refine .bind hLeaves ((Caring.hosts hAll).keeps_awaiterOf
        hAll hActive.sound _) fun awaiter s₁ h₁ => ?_
      refine .awaitResult hServes hc (hActive.moves h₁)
        (hLeaves.moves h₁)
        (hActive.moves h₁).ownHub (fun v => ?_) awaiter
      exact (Session.Carries.jump hRest hCode).moves h₁
    · next awaiter label hStep =>
      exact absurd hStep (hEnds.suspends awaiter label)

/- Entering a sequence goes on with its step, or with the rest. -/
theorem enterSequence
    {i : Ref}
    {args : List Value}
    (hServes : Caring.Serving caller)
    (hc : Carrying caller)
    (hActive : W.Active s)
    (hLeaves : W.Leaves opened s)
    (h : s.Carries W.machine W.task (.sequenceEntry i) args
      opened F) :
    W.Yields F (Sequence.enter caller i) s := by
  cases h with
  | sequenceAtEnd hRow hEntry hRest hCode hEnds =>
      exact enterSequenceAtEnd hServes hc hActive hLeaves hRow
        hRest hCode hEnds
  | sequenceEntry hRow hEntry hRest hCode hStep hLabel hInner
      hApart =>
      unfold Sequence.enter
      refine .row_bind ?_
      rw [show (Table.sequences.rows s).getD i default = _ from
        Array.getD_of_getElem? hRow]
      dsimp only
      rw [if_neg (by
        simp [Value.not_missing_of_isStep, Value.isStep, hStep])]
      rw [hStep]
      exact .install hActive hLeaves (.sequenceResume hRow hEntry
        hRest hCode hLabel hInner hApart) _

/- Resuming a sequence takes its next step. -/
theorem resumeSequence
    {i : Ref}
    {label : Value}
    {args : List Value}
    (hc : Carrying caller)
    (hActive : W.Active s)
    (hLeaves : W.Leaves opened s)
    (h : s.Carries W.machine W.task (.sequenceResume i label)
      args opened F) :
    W.Yields F (Sequence.resume caller i label) s := by
  cases h with
  | @sequenceResume _ entry _ rest code _ l inner _ F' hRow hEntry
      hRest hCode hLabel hInner hApart =>
  have hOwn : s.Belongs W.task (.sequence i) := ⟨_, hRow, rfl⟩
  unfold Sequence.resume
  refine .row_bind ?_
  rw [show (Table.sequences.rows s).getD i default = _ from
    Array.getD_of_getElem? hRow]
  refine Run.Ensures.bind (Run.Ensures.mono
    (Yields.jump hc hActive hLeaves hLabel hInner) ?_)
  rintro (e | step) s₁ hMakes
  · exact hMakes.mono fun c hc => .inl hc
  rcases hMakes.made step rfl with
    ⟨opened₁, G, hOpens, hLeaves₁, hG⟩
  have hActive₁ := hActive.later hMakes.works
  have hSame := hMakes.works.same _ hOwn hApart
  have hOwn₁ := (hSame.belongs_iff W.task).mpr hOwn
  have hAway : ¬ G (.sequence i) := fun hc =>
    hApart (hG _ hOwn hc)
  have hWorks := hActive₁.resequences hOwn₁ step
  have hRow₂ : (s₁.resequenced i step).sequences[i]? =
      some ⟨W.machine, entry, step, rest, some W.task⟩ := by
    have hRow₁ : s₁.sequences[i]? = _ := Eq.trans hSame hRow
    simp [Session.resequenced, Array.getElem?_modify, hRow₁]
  have hSustains := hMakes.works.sustains.trans hWorks.sustains
  have hOpens₂ := hOpens.later hWorks.sustains fun c hc =>
    hWorks.same c (hOpens.belongs hc) fun hIs => hAway (hIs ▸ hc)
  have hCode₂ := hCode.later hSustains fun c hc => hc.elim
  rcases hOpens₂.enters hRow₂ (hSustains.bears _ _ _ hEntry)
    (hSustains.bears _ _ _ hRest) hCode₂ hAway with
    ⟨F₂, hCarries, hF₂⟩
  have hLeaves₂ : W.Leaves opened₁ (s₁.resequenced i step) :=
    hLeaves₁
  have hBack : W.Yields F₂ (Label.jump caller W.machine
      (.label entry)) (s₁.resequenced i step) :=
    .jump hc (hActive₁.later hWorks) hLeaves₂
      (hSustains.bears _ _ _ hEntry) hCarries
  refine Run.ensures_alter_bind.mpr (hBack.sooner
    ((hMakes.works.mono fun c hc => .inl hc).trans hWorks
      fun c _ hc => .inr hc) fun c hOld hMine => ?_)
  rcases hF₂ c hMine with hc | rfl
  · exact .inl (hG c hOld hc)
  · exact .inr rfl

------------------------------------------------------------
-- Loops
------------------------------------------------------------

/- A loop is built, and entered at its head. -/
theorem buildLoop
    {condition body : Closure}
    (hc : Carrying caller)
    (hActive : W.Active s)
    (hLeaves : W.Leaves [] s)
    (hCondition : condition.Careful s)
    (hBody : s.Carries W.machine W.task body [] [] .none) :
    W.Yields F
      (Loop.build caller (.machine W.machine) condition body)
      s := by
  have hLabel := s.bears_withLabel hActive.machine none
  have h₁ := Caring.moves_withLabel hActive.sound W.machine none
  have h₂ := Caring.moves_relabelled h₁.sound hLabel
    (.loopHead W.machine s.labels.size condition body)
  have h₁₂ := h₁.trans h₂
  have hHead := hLabel.relabelled
    (.loopHead W.machine s.labels.size condition body)
  refine .of_eq (H := .none) (Run.step_eq (a := W.machine) rfl
    (Run.step_eq (Label.allocate_eq W.machine s) (Run.step_eq
      (Label.replace_eq hLabel _) rfl))) (.of_moves h₁₂)
    (fun _ _ hc => hc.elim) ?_
  exact .jump hc (hActive.moves h₁₂) (hLeaves.moves h₁₂) hHead
    (.loopHead hHead (h₁₂.fit hCondition) (hBody.moves h₁₂))

/-
  A round that does not finish at once is sequenced with a
  jump back, and its cleanups are open in the sequence.
-/
theorem enterLoop
    {entry : Ref}
    {condition body : Closure}
    (hServes : Caring.Serving caller)
    (hc : Carrying caller)
    (hActive : W.Active s)
    (hLeaves : W.Leaves [] s)
    (h : s.Carries W.machine W.task
      (.loopHead W.machine entry condition body) [] [] .none) :
    W.Yields .none
      (Loop.enter caller W.machine entry condition body) s := by
  have hNone : ∀ {s : Session} c, s.Belongs W.task c →
      Footprint.none c → Footprint.none c := fun _ _ hc => hc
  cases h with
  | loopHead hEntry hCondition hBody =>
  let before s₁ := W.Works .none s s₁ ∧ W.Leaves [] s₁
  have hStart : before s :=
    ⟨.of_moves (.refl hActive.sound), hLeaves⟩
  refine Run.Ensures.iterate ?_ _ hStart
  rintro s₁ ⟨hWorks, hLeaves₁⟩
  have hActive₁ := hActive.later hWorks
  unfold Loop.round
  have hOn : W.world.Keeps (caller.call condition []) s₁ :=
    (hServes _).call hActive₁.sound
      (hWorks.sustains.careful hCondition) []
  refine Run.Ensures.bind (Run.Ensures.mono hOn ?_)
  rintro (e | isOn) s₂ h₂
  · exact ⟨hWorks.trans (.of_moves h₂) hNone, nofun,
      fun _ _ => hLeaves₁.moves h₂⟩
  have hActive₂ := hActive₁.moves h₂
  have hLeaves₂ := hLeaves₁.moves h₂
  have hWorks₂ := hWorks.trans (.of_moves (F := .none) h₂) hNone
  change (if isOn.truthy = true then _ else _ :
    Run (Option Value)).Ensures s₂ _
  split
  · refine Run.Ensures.bind (Run.Ensures.mono (hc hActive₂
      hLeaves₂ (hBody.works hWorks₂ fun _ hc => hc.elim)) ?_)
    rintro (e | step) s₃ h₃
    · exact h₃.sooner hWorks₂ hNone
    rcases h₃.made step rfl with ⟨opened, G, hOpens, hOpen, hG⟩
    have hActive₃ := hActive₂.later h₃.works
    have hWorks₃ := hWorks₂.trans h₃.works hNone
    change (if step.isMissing = true then _ else _ :
      Run (Option Value)).Ensures s₃ _
    split
    · next hMissing =>
      have hNot : step.isStep = false := by
        refine Bool.eq_false_iff.mpr fun hIs => ?_
        rw [Value.not_missing_of_isStep hIs] at hMissing
        cases hMissing
      obtain rfl := hOpens.ends_of_not hNot
      have hFails : W.Yields .none Run.typeError s₃ :=
        .typeError hActive₃ hOpen
      exact (hFails.sooner hWorks₃ hNone).continues
    · split
      · next v hStep =>
        -- What has finished at once has closed what it opened.
        refine Run.ensures_pure.mpr ⟨hWorks₃, ?_⟩
        cases hOpens with
        | ends => exact hOpen
        | suspends hStep' => rw [hStep] at hStep'; cases hStep'
      · -- All else is sequenced with a jump back to the head.
        have hHead : s₃.Carries W.machine W.task
            (.loopHead W.machine entry condition body) [] []
              .none :=
          .works (.loopHead hEntry hCondition hBody) hWorks₃
            fun _ hc => hc.elim
        have hBuild : W.Yields G
            (Sequence.build caller (.machine W.machine) step
              (.jump W.machine entry)) s₃ :=
          .buildSequence hc hActive₃ hOpens hOpen
            (.jump (hWorks₃.sustains.bears _ _ _ hEntry) hHead)
        refine (hBuild.sooner hWorks₃ fun c hOwn hc => ?_).continues
        have hOld := (hWorks₂.same c hOwn id).belongs_iff W.task
        exact hG c (hOld.mpr hOwn) hc
  · exact ((Yields.finish hActive₂ hLeaves₂ .undefined).sooner
      hWorks₂ hNone).continues

end Stint.Yields

end Resumption

import Resumption.Construct.Iteration
import Resumption.Proofs.World.Library

/-
  Labels and constructs keep every world in which they can
  be founded.

  A world founds constructs when it is kept by making the
  cells of labels and constructs, and their code may be
  called; the rest is derived from that, one function of the
  library after the other.

  Main declarations:
    * `World.Founds`
    * `World.Founds.keeps_jump`
    * `World.Founds.keeps_buildSequence`,
      `World.Founds.keeps_buildLoop`
    * `World.Founds.keeps_buildRecovery`,
      `World.Founds.keeps_buildCleanup`
-/

namespace Resumption

/- The library's own code, with no code of others in it. -/
def Closure.isOwn : Closure → Bool
  | .finished => true
  | .jump _ _ => true
  | .sequenceEntry _ => true
  | .sequenceResume _ _ => true
  | .recoveryEntry _ => true
  | .recoveryOutcome _ _ => true
  | .cleanupEntry _ => true
  | .cleanupOutcome _ _ => true
  | .release _ => true
  | .cursorAdvance _ => true
  | .cursorClose _ => true
  | _ => false

/- Code that was handed over by a client. -/
def Closure.IsClient (c : Closure) : Prop :=
  ∃ code, c = .client code

namespace World

variable {W : World}
variable {s : Session}
variable {caller : Caller}
variable {α : Type}

/- There is a label with nothing under it yet. -/
def Vacant
    (s : Session)
    (l : Ref) : Prop :=
  l < s.labels.size ∧ (s.labels.getD l default).code = none

/- A label that was just allocated is vacant. -/
theorem ensures_vacant
    (s : Session)
    (m : Ref) :
    (Label.allocate m).Ensures s fun r s' =>
      ∀ l, r = .ok l → Vacant s' l := by
  refine Run.ensures_row_bind.mpr (Run.ensures_alloc_bind.mpr
    (Run.ensures_alter_bind.mpr (Run.ensures_pure.mpr ?_)))
  rintro _ ⟨⟩
  simp [Vacant, Table.labels, Table.machines]

/- Vacant labels remain so when another one gets its code. -/
theorem ensures_spared
    (m : Ref)
    (code : Closure)
    {s : Session}
    {l : Ref}
    (hl : Vacant s l) :
    (Label.install m code).Ensures s fun _ s' =>
      Vacant s' l := by
  refine Run.Ensures.bind (Run.ensures_row_bind.mpr
    (Run.ensures_alloc_bind.mpr (Run.ensures_alter_bind.mpr
      (Run.ensures_pure.mpr (Run.ensures_alter_bind.mpr
        (Run.ensures_pure.mpr ?_))))))
  have hNe : l ≠ s.labels.size := Nat.ne_of_lt hl.1
  have hLt : l < s.labels.size + 1 := Nat.lt_succ_of_lt hl.1
  refine ⟨by simpa [Table.labels, Table.machines] using hLt, ?_⟩
  simpa only [Table.labels, Table.machines, getD_modify,
    getD_push, hNe, hNe.symm, false_and, if_false] using hl.2

/- A handle is accepted for the label that it is. -/
theorem ensures_owned
    (s : Session)
    (m : Ref)
    (l : Value) :
    (Label.owned m l).Ensures s fun r s' =>
      ∀ l', r = .ok l' → l = .label l' ∧ s' = s := by
  have hRefused : ∀ v : Value,
      (Label.refuse v : Run Ref).Ensures s fun r s' =>
        ∀ l', r = .ok l' → l = .label l' ∧ s' = s := by
    intro v
    have hAny : ∀ {α : Type} {act : Run α} {s : Session},
        act.Ensures s fun _ _ => True :=
      fun _ _ _ => trivial
    refine Run.Ensures.bind (hAny.mono ?_)
    rintro (e | id) s₁ _
    · exact nofun
    · refine Run.Ensures.bind (hAny.mono ?_)
      rintro (e | e) s₂ _
      · exact nofun
      · exact Run.ensures_raise.mpr nofun
  unfold Label.owned
  refine Run.ensures_get_bind.mpr ?_
  split
  · split
    · refine Run.ensures_pure.mpr ?_
      rintro _ ⟨⟩
      exact ⟨rfl, rfl⟩
    · exact hRefused _
  · exact hRefused _

------------------------------------------------------------
-- Labels and Results
------------------------------------------------------------

theorem keeps_machineOf
    (hs : W.Sound s)
    (m : Value) :
    W.Keeps (Label.machineOf m) s := by
  unfold Label.machineOf
  split
  · exact keeps_pure.mpr (.refl hs)
  · exact keeps_typeError hs

theorem keeps_refuse
    (hs : W.Sound s)
    (l : Value) :
    W.Keeps (Label.refuse l : Run α) s := by
  unfold Label.refuse
  exact (keeps_field hs _ _).bind fun _ _ h₁ =>
    keeps_defect h₁.sound _

theorem keeps_owned
    (hs : W.Sound s)
    (m : Ref)
    (l : Value) :
    W.Keeps (Label.owned m l) s := by
  unfold Label.owned
  refine keeps_get_bind.mpr ?_
  split
  · split
    · exact keeps_pure.mpr (.refl hs)
    · exact keeps_refuse hs _
  · exact keeps_refuse hs _

theorem Hosts.keeps_enterReceived
    (hW : W.Hosts caller)
    (hc : W.Serves caller)
    (hs : W.Sound s)
    (awaiter : Value)
    {rest : Closure}
    (hRest : W.fit s rest) :
    W.Keeps (Await.enterReceived caller awaiter rest) s := by
  unfold Await.enterReceived
  refine (hW.keeps_result hc hs awaiter).bind fun v s₁ h₁ => ?_
  exact hc.call h₁.sound (h₁.fit hRest) _

theorem keeps_recover
    (hc : W.Serves caller)
    (hs : W.Sound s)
    {handler : Closure}
    (hHandler : W.fit s handler)
    (e : Value) :
    W.Keeps (Recovery.recover caller handler e) s := by
  unfold Recovery.recover
  split
  · exact keeps_raise.mpr (.refl hs)
  · exact hc.call hs hHandler _

------------------------------------------------------------
-- Worlds that Found Constructs
------------------------------------------------------------

/-
  Labels and constructs can be made in a world, of code that
  may be stored, and their code may be called.
-/
structure Founds (W : World) : Prop where
  -- Closures
  own : ∀ s {c}, c.isOwn = true → W.fit s c
  client : ∀ s code, W.fit s (.client code)
  applied : ∀ {s f} args,
    W.fit s (.applied f args) ↔ W.fit s f
  received : ∀ {s rest} awaiter,
    W.fit s (.received awaiter rest) ↔ W.fit s rest
  loopHead : ∀ {s condition body} m entry,
    W.fit s (.loopHead m entry condition body) ↔
      W.fit s condition ∧ W.fit s body
  cursorLoop : ∀ {s body} m c,
    W.fit s (.cursorLoop m c body) ↔ W.fit s body
  cursorItem : ∀ {s body} c,
    W.fit s (.cursorItem c body) ↔ W.fit s body
  resumption : ∀ {s callback} context,
    W.fit s (.resumption context callback) ↔ W.fit s callback
  -- Labels
  code : ∀ {s c} (l : Ref), W.Sound s →
    (s.labels.getD l default).code = some c → W.fit s c
  newMachine : ∀ {s} checks, W.Sound s →
    W.Moves s
      { s with machines := s.machines.push ⟨#[], checks⟩ }
  enlist : ∀ {s} (m l : Ref), W.Sound s →
    l < s.labels.size →
    s.labels.getD l default =
      ⟨.int (s.machines.getD m default).labels.size, .machine m,
        none⟩ →
    W.Moves s
      { s with
        machines := s.machines.modify m fun c =>
          { c with labels := c.labels.push l } }
  newLabel : ∀ {s} id machine, W.Sound s →
    W.Moves s
      { s with labels := s.labels.push ⟨id, machine, none⟩ }
  setCode : ∀ {s c} (l : Ref), W.Sound s → W.fit s c →
    (s.labels.getD l default).code = none ∨ c.IsClient →
    W.Moves s
      { s with
        labels :=
          s.labels.modify l ({ · with code := some c }) }
  -- Constructs
  handler : ∀ {s} (i : Ref), W.Sound s →
    W.fit s (s.recoveries.getD i default).handler
  compensation : ∀ {s} (i : Ref), W.Sound s →
    W.fit s (s.cleanups.getD i default).compensation
  newSequence : ∀ {s} cell, W.Sound s →
    W.Moves s { s with sequences := s.sequences.push cell }
  alterSequence : ∀ {s} (i : Ref) step, W.Sound s →
    W.Moves s
      { s with
        sequences :=
          s.sequences.modify i ({ · with step := step }) }
  newRecovery : ∀ {s} {cell : RecoveryCell}, W.Sound s →
    W.fit s cell.handler →
    W.Moves s { s with recoveries := s.recoveries.push cell }
  alterRecovery : ∀ {s} (i : Ref) inner, W.Sound s →
    W.Moves s
      { s with
        recoveries :=
          s.recoveries.modify i ({ · with inner := inner }) }
  newCleanup : ∀ {s} {cell : CleanupCell}, W.Sound s →
    W.fit s cell.compensation → cell.compensated = false →
    W.Moves s { s with cleanups := s.cleanups.push cell }
  alterCleanup : ∀ {s} (i : Ref) inner, W.Sound s →
    W.Moves s
      { s with
        cleanups :=
          s.cleanups.modify i ({ · with inner := inner }) }
  compensating : ∀ {s} (i : Ref), W.Sound s →
    (s.cleanups.getD i default).compensated = false →
    W.Moves s (s.compensating i)
  newBuilder : ∀ {s} cell, W.Sound s →
    W.Moves s { s with builders := s.builders.push cell }
  tend : ∀ {s} (t : Ref) c, W.Sound s →
    W.Moves s
      { s with
        tasks := s.tasks.modify t fun cell =>
          { cell with care := c :: cell.care } }

namespace Founds

variable (hF : W.Founds)

include hF

------------------------------------------------------------
-- Label Tables
------------------------------------------------------------

theorem keeps_newMachine
    (hs : W.Sound s)
    (assertions : Value) :
    W.Keeps (Label.newMachine assertions) s :=
  Keeps.bind (keeps_alloc (hF.newMachine _ hs)) fun _ _ h₁ =>
    keeps_pure.mpr (.refl h₁.sound)

theorem keeps_tendHere
    (hs : W.Sound s)
    (c : Care) :
    W.Keeps (Run.tendHere c) s := by
  unfold Run.tendHere
  refine keeps_get_bind.mpr ?_
  split
  · exact keeps_alter (hF.tend _ c hs)
  · exact keeps_pure.mpr (.refl hs)

theorem keeps_allocate
    (hs : W.Sound s)
    (m : Ref) :
    W.Keeps (Label.allocate m) s := by
  unfold Label.allocate
  refine keeps_row_bind.mpr ?_
  refine Run.ensures_alloc_bind.mpr ?_
  have h₁ := hF.newLabel
    (.int (s.machines.getD m default).labels.size)
    (.machine m) hs
  have h₂ := hF.enlist m s.labels.size h₁.sound
    (by simp) (by simp)
  refine Run.ensures_alter_bind.mpr ?_
  exact Run.ensures_pure.mpr (h₁.trans h₂)

theorem keeps_install
    (hs : W.Sound s)
    (m : Ref)
    {code : Closure}
    (hFit : W.fit s code) :
    W.Keeps (Label.install m code) s := by
  unfold Label.install
  refine (hF.keeps_allocate hs m).bind_with (ensures_vacant s m)
    fun l s₁ h₁ hVacant => ?_
  exact Keeps.bind
    (keeps_alter (hF.setCode l h₁.sound (h₁.fit hFit)
      (.inl (hVacant l rfl).2)))
    fun _ _ h₂ => keeps_pure.mpr (.refl h₂.sound)

theorem keeps_forge
    (hs : W.Sound s)
    (id m : Value) :
    W.Keeps (Label.forge id m) s := by
  unfold Label.forge
  exact Keeps.bind (keeps_alloc (hF.newLabel id m hs))
    fun _ _ h₁ => keeps_pure.mpr (.refl h₁.sound)

theorem keeps_replace
    (hs : W.Sound s)
    (m : Ref)
    (l : Value)
    {code : Closure}
    (hFit : W.fit s code)
    (hYields : (∃ r, l = .label r ∧ Vacant s r) ∨
      code.IsClient) :
    W.Keeps (Label.replace m l code) s := by
  unfold Label.replace
  refine (keeps_owned hs m l).bind_with (ensures_owned s m l)
    fun r s₁ h₁ hOwned => ?_
  rcases hOwned r rfl with ⟨rfl, rfl⟩
  refine keeps_alter (hF.setCode r hs hFit ?_)
  rcases hYields with ⟨_, ⟨⟩, hVacant⟩ | hClient
  · exact .inl hVacant.2
  · exact .inr hClient

------------------------------------------------------------
-- Jumps
------------------------------------------------------------

theorem keeps_jump
    (hc : W.Serves caller)
    (hs : W.Sound s)
    (m : Ref)
    (l : Value) :
    W.Keeps (Label.jump caller m l) s := by
  unfold Label.jump
  refine (keeps_owned hs m l).bind fun r s₁ h₁ => ?_
  refine keeps_row_bind.mpr ?_
  split
  · exact keeps_defect h₁.sound _
  · next code hCode =>
      have hFit := hF.code r h₁.sound hCode
      refine (hc.call h₁.sound hFit _).bind fun step s₂ h₂ => ?_
      refine keeps_row_bind.mpr ?_
      split
      · exact (keeps_chronicle h₂.sound rfl).bind
          fun _ _ h₃ => keeps_defect h₃.sound _
      · exact keeps_pure.mpr (.refl h₂.sound)

------------------------------------------------------------
-- Awaiting
------------------------------------------------------------

variable (hW : W.Hosts caller)

include hW

theorem keeps_awaitResult
    (hc : W.Serves caller)
    (hs : W.Sound s)
    (m awaiter : Value)
    {rest : Closure}
    (hRest : W.fit s rest) :
    W.Keeps (Await.awaitResult caller m awaiter rest) s := by
  unfold Await.awaitResult
  refine (hW.keeps_completed hc hs awaiter).bind
    fun isDone s₁ h₁ => ?_
  have hRest₁ := h₁.fit hRest
  split
  · refine (hW.keeps_result hc h₁.sound awaiter).bind
      fun v s₂ h₂ => ?_
    exact hc.call h₂.sound (h₂.fit hRest₁) _
  · refine (keeps_machineOf h₁.sound m).bind fun m s₂ h₂ => ?_
    refine (hF.keeps_install h₂.sound m ?_).bind fun l s₃ h₃ =>
      keeps_newStep h₃.sound _
    exact (hF.received awaiter).mpr (h₂.fit hRest₁)

theorem keeps_bind
    (hc : W.Serves caller)
    (hs : W.Sound s)
    (m source : Value)
    {rest : Closure}
    (hRest : W.fit s rest) :
    W.Keeps (Await.bind caller m source rest) s := by
  unfold Await.bind
  refine (hW.keeps_toAwaitable hs source).bind
    fun awaitable s₁ h₁ => ?_
  refine (hW.keeps_awaiterOf hc h₁.sound awaitable).bind
    fun awaiter s₂ h₂ => ?_
  exact hF.keeps_awaitResult hW hc h₂.sound _ _
    ((h₁.trans h₂).fit hRest)

theorem keeps_bindDetached
    (hc : W.Serves caller)
    (hs : W.Sound s)
    (m source : Value)
    {rest : Closure}
    (hRest : W.fit s rest) :
    W.Keeps (Await.bindDetached caller m source rest) s := by
  unfold Await.bindDetached
  refine (hW.keeps_toAwaitable hs source).bind
    fun awaitable s₁ h₁ => ?_
  refine (hW.keeps_detachedAwaiter hc h₁.sound awaitable).bind
    fun awaiter s₂ h₂ => ?_
  exact hF.keeps_awaitResult hW hc h₂.sound _ _
    ((h₁.trans h₂).fit hRest)

------------------------------------------------------------
-- Sequences and Loops
------------------------------------------------------------

omit hW

theorem keeps_buildSequence
    (hc : W.Serves caller)
    (hs : W.Sound s)
    (m first : Value)
    {rest : Closure}
    (hRest : W.fit s rest) :
    W.Keeps (Sequence.build caller m first rest) s := by
  unfold Sequence.build
  refine (keeps_machineOf hs m).bind fun m s₁ h₁ => ?_
  refine (hF.keeps_install h₁.sound m (h₁.fit hRest)).bind
    fun rest s₂ h₂ => ?_
  refine (hF.keeps_allocate h₂.sound m).bind_with
    (ensures_vacant s₂ m) fun entry s₃ h₃ hVacant => ?_
  refine keeps_get_bind.mpr ?_
  refine (keeps_alloc (hF.newSequence _ h₃.sound)).bind_with
    (P := fun _ s' => Vacant s' entry)
    (Run.ensures_alloc.mpr (hVacant entry rfl))
    fun i s₄ h₄ hVacant₄ => ?_
  have hOwn : W.fit s₄ (.sequenceEntry i) := hF.own s₄ rfl
  exact (hF.keeps_replace h₄.sound m _ hOwn
    (.inl ⟨entry, rfl, hVacant₄⟩)).bind fun _ _ h₅ =>
      hF.keeps_jump hc h₅.sound m _

theorem keeps_buildLoop
    (hc : W.Serves caller)
    (hs : W.Sound s)
    (m : Value)
    {condition body : Closure}
    (hCondition : W.fit s condition)
    (hBody : W.fit s body) :
    W.Keeps (Loop.build caller m condition body) s := by
  unfold Loop.build
  refine (keeps_machineOf hs m).bind fun m s₁ h₁ => ?_
  refine (hF.keeps_allocate h₁.sound m).bind_with
    (ensures_vacant s₁ m) fun entry s₂ h₂ hVacant => ?_
  have h₁₂ := h₁.trans h₂
  have hHead : W.fit s₂ (.loopHead m entry condition body) :=
    (hF.loopHead m entry).mpr
      ⟨h₁₂.fit hCondition, h₁₂.fit hBody⟩
  exact (hF.keeps_replace h₂.sound m _ hHead
    (.inl ⟨entry, rfl, hVacant entry rfl⟩)).bind
      fun _ _ h₃ => hF.keeps_jump hc h₃.sound m _

theorem keeps_round
    (hc : W.Serves caller)
    (hs : W.Sound s)
    (m entry : Ref)
    {condition body : Closure}
    (hCondition : W.fit s condition)
    (hBody : W.fit s body) :
    W.Keeps (Loop.round caller m entry condition body) s := by
  unfold Loop.round
  refine (hc.call hs hCondition _).bind
    fun isOn s₁ h₁ => ?_
  split
  · have hBody₁ := h₁.fit hBody
    refine (hc.call h₁.sound hBody₁ _).bind
      fun step s₂ h₂ => ?_
    split
    · exact keeps_typeError h₂.sound
    · split
      · exact keeps_pure.mpr (.refl h₂.sound)
      · exact Keeps.map (hF.keeps_buildSequence hc h₂.sound _ _
          (hF.own s₂ rfl))
  · exact (keeps_newStep h₁.sound _).map

theorem keeps_enterLoop
    (hc : W.Serves caller)
    (hs : W.Sound s)
    (m entry : Ref)
    {condition body : Closure}
    (hCondition : W.fit s condition)
    (hBody : W.fit s body) :
    W.Keeps (Loop.enter caller m entry condition body) s := by
  unfold Loop.enter
  refine Keeps.iterate (fun s' h' => ?_) hs _
  exact hF.keeps_round hc h'.sound m entry
    (h'.fit hCondition) (h'.fit hBody)

theorem keeps_resumeSequence
    (hc : W.Serves caller)
    (hs : W.Sound s)
    (i : Ref)
    (label : Value) :
    W.Keeps (Sequence.resume caller i label) s := by
  unfold Sequence.resume
  refine keeps_row_bind.mpr ?_
  refine (hF.keeps_jump hc hs _ _).bind fun step s₁ h₁ => ?_
  exact Keeps.bind
    (keeps_alter (hF.alterSequence i _ h₁.sound))
    fun _ s₂ h₂ => hF.keeps_jump hc h₂.sound _ _

------------------------------------------------------------
-- Recovery and Cleanup
------------------------------------------------------------

theorem keeps_buildRecovery
    (hc : W.Serves caller)
    (hs : W.Sound s)
    (m : Value)
    {body handler : Closure}
    (hBody : W.fit s body)
    (hHandler : W.fit s handler) :
    W.Keeps (Recovery.build caller m body handler) s := by
  unfold Recovery.build
  refine (keeps_machineOf hs m).bind fun m s₁ h₁ => ?_
  refine (hF.keeps_allocate h₁.sound m).bind_with
    (ensures_vacant s₁ m) fun entry s₂ h₂ hVacant => ?_
  have h₁₂ := h₁.trans h₂
  refine (hF.keeps_install h₂.sound m (h₁₂.fit hBody)).bind_with
    (ensures_spared m body (hVacant entry rfl))
    fun inner s₃ h₃ hVacant₃ => ?_
  have hHandler₃ := (h₁₂.trans h₃).fit hHandler
  refine keeps_get_bind.mpr ?_
  refine (keeps_alloc (hF.newRecovery h₃.sound
    hHandler₃)).bind_with (P := fun _ s' => Vacant s' entry)
      (Run.ensures_alloc.mpr hVacant₃) fun i s₄ h₄ hVacant₄ => ?_
  have hOwn : W.fit s₄ (.recoveryEntry i) := hF.own s₄ rfl
  exact (hF.keeps_replace h₄.sound m _ hOwn
    (.inl ⟨entry, rfl, hVacant₄⟩)).bind fun _ _ h₅ =>
      hF.keeps_jump hc h₅.sound m _

theorem keeps_compensate
    (hc : W.Serves caller)
    (hs : W.Sound s)
    (i : Ref) :
    W.Keeps (Cleanup.compensate caller i) s := by
  unfold Cleanup.compensate
  refine keeps_row_bind.mpr ?_
  split
  · exact keeps_pure.mpr (.refl hs)
  · next hNot =>
    have hWaits : (s.cleanups.getD i default).compensated =
        false := by
      simpa [Table.cleanups] using hNot
    refine Keeps.bind
      (keeps_modify (hF.compensating i hs hWaits))
      fun _ s₁ h₁ => ?_
    refine (hF.keeps_tendHere h₁.sound _).bind fun _ s₂ h₂ => ?_
    have hFit := (h₁.trans h₂).fit (hF.compensation i hs)
    exact (hc.call h₂.sound hFit _).discard

theorem keeps_buildCleanup
    (hc : W.Serves caller)
    (hs : W.Sound s)
    (m : Value)
    {body compensation : Closure}
    (hBody : W.fit s body)
    (hCompensation : W.fit s compensation) :
    W.Keeps (Cleanup.build caller m body compensation) s := by
  unfold Cleanup.build
  refine (keeps_machineOf hs m).bind fun m s₁ h₁ => ?_
  refine (hF.keeps_allocate h₁.sound m).bind_with
    (ensures_vacant s₁ m) fun entry s₂ h₂ hVacant => ?_
  have h₁₂ := h₁.trans h₂
  refine (hF.keeps_install h₂.sound m (h₁₂.fit hBody)).bind_with
    (ensures_spared m body (hVacant entry rfl))
    fun inner s₃ h₃ hVacant₃ => ?_
  have hCompensation₃ := (h₁₂.trans h₃).fit hCompensation
  refine keeps_get_bind.mpr ?_
  refine (keeps_alloc (hF.newCleanup h₃.sound hCompensation₃
    rfl)).bind_with (P := fun _ s' => Vacant s' entry)
      (Run.ensures_alloc.mpr hVacant₃) fun i s₄ h₄ hVacant₄ => ?_
  have hOwn : W.fit s₄ (.cleanupEntry i) := hF.own s₄ rfl
  refine (hF.keeps_replace h₄.sound m _ hOwn
    (.inl ⟨entry, rfl, hVacant₄⟩)).bind fun _ s₅ h₅ => ?_
  exact (hF.keeps_tendHere h₅.sound _).bind fun _ _ h₆ =>
    hF.keeps_jump hc h₆.sound m _

------------------------------------------------------------
-- Entering Constructs
------------------------------------------------------------

include hW

theorem keeps_enterSequence
    (hc : W.Serves caller)
    (hs : W.Sound s)
    (i : Ref) :
    W.Keeps (Sequence.enter caller i) s := by
  unfold Sequence.enter
  refine keeps_row_bind.mpr ?_
  split
  · exact keeps_typeError hs
  · split
    · exact keeps_pure.mpr (.refl hs)
    · exact hF.keeps_jump hc hs _ _
    · refine (hW.keeps_awaiterOf hc hs _).bind
        fun awaiter s₁ h₁ => ?_
      exact hF.keeps_awaitResult hW hc h₁.sound _ _
        (hF.own s₁ rfl)
    · exact Keeps.bind (hF.keeps_install hs _ (hF.own s rfl))
        fun l s₁ h₁ => keeps_newStep h₁.sound _

theorem keeps_recoveryOutcome
    (hc : W.Serves caller)
    (hs : W.Sound s)
    (i : Ref)
    (awaiter : Value) :
    W.Keeps (Recovery.outcome caller i awaiter) s := by
  unfold Recovery.outcome
  refine (hW.keeps_result hc hs awaiter).attempt.bind
    fun ended s₁ h₁ => ?_
  split
  · exact keeps_newStep h₁.sound _
  · exact keeps_row_bind.mpr
      (keeps_recover hc h₁.sound (hF.handler i h₁.sound) _)

theorem keeps_enterRecovery
    (hc : W.Serves caller)
    (hs : W.Sound s)
    (i : Ref) :
    W.Keeps (Recovery.enter caller i) s := by
  unfold Recovery.enter
  refine keeps_row_bind.mpr ?_
  refine (hF.keeps_jump hc hs _ _).attempt.bind
    fun ended s₁ h₁ => ?_
  split
  · exact keeps_recover hc h₁.sound
      (h₁.fit (hF.handler i hs)) _
  · split
    · exact keeps_typeError h₁.sound
    · split
      · exact keeps_pure.mpr (.refl h₁.sound)
      · exact keeps_pure.mpr (.refl h₁.sound)
      · refine (hW.keeps_awaiterOf hc h₁.sound _).bind
          fun awaiter s₂ h₂ => ?_
        refine (hW.keeps_completed hc h₂.sound _).bind
          fun isDone s₃ h₃ => ?_
        split
        · exact hF.keeps_recoveryOutcome hW hc h₃.sound i _
        · exact Keeps.bind
            (hF.keeps_install h₃.sound _ (hF.own s₃ rfl))
            fun l s₄ h₄ => keeps_newStep h₄.sound _
      · exact Keeps.bind
          (keeps_alter
            (hF.alterRecovery i _ h₁.sound))
          fun _ s₂ h₂ => keeps_newStep h₂.sound _

theorem keeps_cleanupOutcome
    (hc : W.Serves caller)
    (hs : W.Sound s)
    (i : Ref)
    (awaiter : Value) :
    W.Keeps (Cleanup.outcome caller i awaiter) s := by
  unfold Cleanup.outcome
  refine (hW.keeps_result hc hs awaiter).attempt.bind
    fun ended s₁ h₁ => ?_
  split
  · exact (hF.keeps_compensate hc h₁.sound i).bind fun _ s₂ h₂ =>
      keeps_newStep h₂.sound _
  · exact (hF.keeps_compensate hc h₁.sound i).bind fun _ s₂ h₂ =>
      keeps_raise.mpr (.refl h₂.sound)

theorem keeps_enterCleanup
    (hc : W.Serves caller)
    (hs : W.Sound s)
    (i : Ref) :
    W.Keeps (Cleanup.enter caller i) s := by
  unfold Cleanup.enter
  refine keeps_row_bind.mpr ?_
  refine (hF.keeps_jump hc hs _ _).attempt.bind
    fun ended s₁ h₁ => ?_
  split
  · exact (hF.keeps_compensate hc h₁.sound i).bind fun _ s₂ h₂ =>
      keeps_raise.mpr (.refl h₂.sound)
  · split
    · exact keeps_typeError h₁.sound
    · split
      · exact keeps_pure.mpr (.refl h₁.sound)
      · exact (hF.keeps_compensate hc h₁.sound i).bind
          fun _ s₂ h₂ => keeps_pure.mpr (.refl h₂.sound)
      · refine (hW.keeps_awaiterOf hc h₁.sound _).bind
          fun awaiter s₂ h₂ => ?_
        refine (hW.keeps_completed hc h₂.sound _).bind
          fun isDone s₃ h₃ => ?_
        split
        · exact hF.keeps_cleanupOutcome hW hc h₃.sound i _
        · exact Keeps.bind
            (hF.keeps_install h₃.sound _ (hF.own s₃ rfl))
            fun l s₄ h₄ => keeps_newStep h₄.sound _
      · exact Keeps.bind
          (keeps_alter
            (hF.alterCleanup i _ h₁.sound))
          fun _ s₂ h₂ => keeps_newStep h₂.sound _

end Founds

end World

end Resumption

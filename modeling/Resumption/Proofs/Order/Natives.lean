import Resumption.Proofs.Order.Cleanups
import Resumption.Proofs.Order.Recoveries
import Resumption.Proofs.Routine.Sequences

/-
  Await steps of constructs resume where their machine goes
  on.

  A construct puts code of its own, and a client's, under
  labels of the machine it is called on, and a client may put
  code of its own in its place.  Whatever a construct answers
  on the way is an await step of its own, whose label is the
  machine's and bears such code, or no await step, or just
  what a client's code answered.

  Main declarations:
    * `Session.Holds`, `Session.Native`
    * `Session.Resumes`, `Session.Supplied`
    * `Lands`
    * `Session.Native.lands`
-/

namespace Resumption

open Session World

------------------------------------------------------------
-- Native Code
------------------------------------------------------------

/-
  A label is the machine's, and bears some code, or that of a
  client in its place.
-/
def Session.Holds
    (s : Session)
    (m l : Ref)
    (code : Closure) : Prop :=
  ∃ code', s.Bears m l (some code') ∧
    (code' = code ∨ code'.IsClient)

section Holds

variable {s s' : Session}
variable {m l : Ref}
variable {code : Closure}

theorem Session.Bears.holds
    (h : s.Bears m l (some code)) :
    s.Holds m l code :=
  ⟨code, h, .inl rfl⟩

theorem Session.Holds.later
    (h : s.Holds m l code)
    (hGrows : s.Grows s') :
    s'.Holds m l code := by
  rcases h with ⟨code₁, hBears, hSame⟩
  rcases hGrows.bears hBears with ⟨code₂, hBears', hSame'⟩
  refine ⟨code₂, hBears', ?_⟩
  rcases hSame' with rfl | hClient
  · exact hSame
  · exact .inr hClient

end Holds

/-
  Code of the constructs on a machine: it goes on at labels
  of the machine, and calls code of clients.
-/
inductive Session.Native
    (s : Session)
    (m : Ref) : Closure → Prop where
  | client (f : List Value → Program) : Native s m (.client f)
  | applied
      {f}
      (args : List Value)
      (h : Native s m f) :
      Native s m (.applied f args)
  | received
      {rest}
      (awaiter : Value)
      (h : Native s m rest) :
      Native s m (.received awaiter rest)
  | jump
      {l code}
      (hLabel : s.Holds m l code)
      (h : Native s m code) :
      Native s m (.jump m l)
  | loopHead
      {entry condition body}
      (hEntry : s.Holds m entry
        (.loopHead m entry condition body)) :
      Native s m (.loopHead m entry condition body)
  | sequenceEntry
      {i row code}
      (hRow : s.sequences[i]? = some row)
      (hMachine : row.machine = m)
      (hEntry : s.Holds m row.entry (.sequenceEntry i))
      (hRest : s.Holds m row.rest code)
      (h : Native s m code) :
      Native s m (.sequenceEntry i)
  | sequenceResume
      {i}
      (resume : Value)
      (h : Native s m (.sequenceEntry i)) :
      Native s m (.sequenceResume i resume)
  | recoveryEntry
      {i row}
      (hRow : s.recoveries[i]? = some row)
      (hMachine : row.machine = m)
      (hEntry : s.Holds m row.entry (.recoveryEntry i))
      (h : Native s m row.handler) :
      Native s m (.recoveryEntry i)
  | recoveryOutcome
      {i row}
      (awaiter : Value)
      (hRow : s.recoveries[i]? = some row)
      (h : Native s m row.handler) :
      Native s m (.recoveryOutcome i awaiter)
  | cleanupEntry
      {i row}
      (hRow : s.cleanups[i]? = some row)
      (hMachine : row.machine = m)
      (hEntry : s.Holds m row.entry (.cleanupEntry i)) :
      Native s m (.cleanupEntry i)
  | cleanupOutcome (i : Ref) (awaiter : Value) :
      Native s m (.cleanupOutcome i awaiter)
  | cursorLoop
      (hm : m < s.machines.size)
      (c : Ref)
      (body : Closure) :
      Native s m (.cursorLoop (.machine m) c body)

variable {rounds depth : Nat}
variable {s s₁ s' : Session}
variable {m l : Ref}
variable {code : Closure}

/- What is under a label is native, if the label's code is. -/
theorem Session.Native.of_same
    {code' : Closure}
    (h : s.Native m code)
    (hSame : code' = code ∨ code'.IsClient) :
    s.Native m code' := by
  rcases hSame with rfl | ⟨f, rfl⟩
  · exact h
  · exact .client f

/- Native code remains so. -/
theorem Session.Native.later
    (h : s.Native m code)
    (hGrows : s.Grows s') :
    s'.Native m code := by
  induction h with
  | client f => exact .client f
  | applied args _ ih => exact .applied args ih
  | received awaiter _ ih => exact .received awaiter ih
  | jump hLabel _ ih => exact .jump (hLabel.later hGrows) ih
  | loopHead hEntry => exact .loopHead (hEntry.later hGrows)
  | @sequenceEntry i row _ hRow hMachine hEntry hRest _ ih =>
      rcases hGrows.sequences i row hRow with
        ⟨row', hRow', hBecomes⟩
      refine .sequenceEntry hRow'
        (hBecomes.machine.trans hMachine) ?_ ?_ ih
      · rw [hBecomes.entry]
        exact hEntry.later hGrows
      · rw [hBecomes.rest]
        exact hRest.later hGrows
  | sequenceResume resume _ ih => exact .sequenceResume resume ih
  | @recoveryEntry i row hRow hMachine hEntry _ ih =>
      rcases hGrows.recoveries i row hRow with
        ⟨row', hRow', hBecomes⟩
      refine .recoveryEntry hRow'
        (hBecomes.machine.trans hMachine) ?_ ?_
      · rw [hBecomes.entry]
        exact hEntry.later hGrows
      · rw [hBecomes.handler]
        exact ih
  | @recoveryOutcome i row awaiter hRow _ ih =>
      rcases hGrows.recoveries i row hRow with
        ⟨row', hRow', hBecomes⟩
      refine .recoveryOutcome awaiter hRow' ?_
      rw [hBecomes.handler]
      exact ih
  | @cleanupEntry i row hRow hMachine hEntry =>
      rcases hGrows.cleanups i row hRow with
        ⟨row', hRow', hBecomes⟩
      refine .cleanupEntry hRow'
        (hBecomes.machine.trans hMachine) ?_
      rw [hBecomes.entry]
      exact hEntry.later hGrows
  | cleanupOutcome i awaiter => exact .cleanupOutcome i awaiter
  | cursorLoop hm c body =>
      exact .cursorLoop
        (Nat.lt_of_lt_of_le hm hGrows.machines.size_le) c body

------------------------------------------------------------
-- Landing
------------------------------------------------------------

/-
  If something is an await step, then it resumes at a label
  of the machine that bears native code.
-/
def Session.Resumes
    (s : Session)
    (m : Ref)
    (v : Value) : Prop :=
  ∀ awaiter label, v.step? = some (.suspend awaiter label) →
    ∃ l code, label = .label l ∧ s.Bears m l (some code) ∧
      s.Native m code

/- Something is what a client's code just answered. -/
def Session.Supplied
    (s : Session)
    (rounds : Nat)
    (v : Value)
    (s' : Session) : Prop :=
  ∃ depth f args s₁, s₁.Orderly ∧ s.Grows s₁ ∧
    (Caller.ofDepth rounds depth).call (.client f) args s₁ =
      some (.ok v, s')

/-
  What something answers is no await step, or one that
  resumes on the machine, or what a client's code answered.
-/
def Lands
    (rounds : Nat)
    (m : Ref)
    (act : Run Value)
    (s : Session) : Prop :=
  act.Ensures s fun r s' => ∀ v, r = .ok v →
    s'.Resumes m v ∨ s.Supplied rounds v s'

namespace Lands

variable {α : Type}
variable {act : Run Value}

/- What lands later lands now. -/
theorem sooner
    (h : Lands rounds m act s₁)
    (hGrows : s.Grows s₁) :
    act.Ensures s₁ fun r s' => ∀ v, r = .ok v →
      s'.Resumes m v ∨ s.Supplied rounds v s' := by
  refine h.mono ?_
  rintro r s' h v hv
  refine (h v hv).imp_right ?_
  rintro ⟨depth, f, args, s₂, hs₂, hLater, hCall⟩
  exact ⟨depth, f, args, s₂, hs₂, hGrows.trans hLater, hCall⟩

theorem of_eq
    {act' : Run Value}
    (hGrows : s.Grows s₁)
    (hEq : act s = act' s₁)
    (h : Lands rounds m act' s₁) :
    Lands rounds m act s := by
  intro r s' hRun
  rw [hEq] at hRun
  exact h.sooner hGrows r s' hRun

/- What comes before keeps order. -/
theorem bind
    {first : Run α}
    {next : α → Run Value}
    (hFirst : Ordering.Keeps first s)
    (hNext : ∀ a s₁, Ordering.Moves s s₁ →
      Lands rounds m (next a) s₁) :
    Lands rounds m (first >>= next) s := by
  refine Run.Ensures.bind (Run.Ensures.mono hFirst ?_)
  intro r s₁ hMoves
  cases r with
  | error e => exact nofun
  | ok a => exact (hNext a s₁ hMoves).sooner hMoves.rel

theorem row_bind
    {ρ : Type}
    [Inhabited ρ]
    {t : Table ρ}
    {r : Ref}
    {next : ρ → Run Value}
    (h : Lands rounds m (next ((t.rows s).getD r default)) s) :
    Lands rounds m (t.row r >>= next) s :=
  Run.ensures_row_bind.mpr h

theorem get_bind
    {next : Session → Run Value}
    (h : Lands rounds m (next s) s) :
    Lands rounds m ((get : Run Session) >>= next) s :=
  Run.ensures_get_bind.mpr h

theorem raise (e : Value) :
    Lands rounds m (Run.raise e) s :=
  Run.ensures_raise.mpr nofun

theorem pure
    {v : Value}
    (h : s.Resumes m v) :
    Lands rounds m (return v) s := by
  refine Run.ensures_pure.mpr ?_
  rintro _ ⟨⟩
  exact .inl h

/- What is no await step resumes nowhere. -/
theorem answer
    {v : Value}
    (h : ∀ a l, v.step? ≠ some (.suspend a l)) :
    Lands rounds m (return v) s :=
  .pure fun a l hStep => absurd hStep (h a l)

/- An await step with a label of the machine's may be made. -/
theorem suspend
    (hBears : s.Bears m l (some code))
    (hNative : s.Native m code)
    (awaiter : Value) :
    Lands rounds m
      (Run.newStep (.suspend awaiter (.label l))) s := by
  refine (Run.ensures_newStep _ s).mono ?_
  rintro r _ ⟨rfl, made, rfl, hMade⟩
  rintro _ ⟨⟩
  refine .inl fun a label hStep => ?_
  rw [hMade] at hStep
  cases hStep
  exact ⟨l, code, rfl, hBears, hNative.later
    (SameGround.grows ⟨rfl, rfl, rfl, rfl, rfl, rfl, rfl, rfl⟩)⟩

theorem finish (v : Value) :
    Lands rounds m (Run.newStep (.finish v)) s := by
  refine (Run.ensures_newStep _ s).mono ?_
  rintro r _ ⟨rfl, made, rfl, hMade⟩
  rintro _ ⟨⟩
  refine .inl fun a label hStep => ?_
  rw [hMade] at hStep
  cases hStep

/- To suspend at a new label with native code is to land. -/
theorem install
    (hs : s.Orderly)
    (hm : m < s.machines.size)
    (hNative : s.Native m code)
    (awaiter : Value) :
    Lands rounds m (do
      let l ← Label.install m code
      Run.newStep (.suspend awaiter (.label l))) s := by
  refine Run.Ensures.bind ((Label.ensures_install hm code
    (Ordering.sound hs)).mono ?_)
  rintro r s₁ ⟨hIdles, rfl, _, hBears⟩
  exact (suspend hBears (hNative.later hIdles.grows)
    awaiter).sooner hIdles.grows

end Lands

/- A caller whose answers land, when it calls native code. -/
def Landing
    (rounds : Nat)
    (m : Ref)
    (caller : Caller) : Prop :=
  ∀ ⦃s code⦄ args, s.Orderly → s.Native m code →
    Lands rounds m (caller.call code args) s

/- A jump to a label that holds native code lands. -/
theorem Session.Holds.lands
    {caller : Caller}
    (h : s.Holds m l code)
    (hc : Landing rounds m caller)
    (hs : s.Orderly)
    (hNative : s.Native m code) :
    Lands rounds m (Label.jump caller m (.label l)) s := by
  rcases h with ⟨code', hBears, hSame⟩
  rcases Label.jump_eq hBears with ⟨id, hJump⟩
  intro r s' hRun
  rw [hJump] at hRun
  revert r s'
  change Run.Ensures _ s _
  refine Run.Ensures.bind
    ((hc [] hs (hNative.of_same hSame)).mono ?_)
  rintro (e | step) s₁ hStep
  · exact nofun
  · refine Run.ensures_row_bind.mpr ?_
    split
    · have hAny : ∀ {act : Run Value} {s : Session},
          act.Ensures s fun _ _ => True :=
        fun _ _ _ => trivial
      refine Run.ensures_modify_bind.mpr
        (Run.Ensures.bind (hAny.mono ?_))
      rintro (e | e) s₂ _
      · exact nofun
      · exact Run.ensures_raise.mpr nofun
    · exact Run.ensures_pure.mpr hStep

/- A round that ends a loop ends it as it lands. -/
theorem Run.Ensures.continues
    {act : Run Value}
    {before : Session → Prop}
    {post : Except Value Value → Session → Prop}
    (h : act.Ensures s post) :
    (some <$> act : Run (Option Value)).Ensures s
      (Run.Continues before post) := by
  refine Run.Ensures.bind (h.mono ?_)
  intro r s₁ hPost
  cases r with
  | ok v => exact Run.ensures_pure.mpr hPost
  | error e => exact hPost

------------------------------------------------------------
-- Constructs that Land
------------------------------------------------------------

/- A new sequence is founded in order. -/
theorem Sequence.ordered_withSequence
    (hs : s.Orderly)
    (hm : m < s.machines.size)
    (step : Value)
    (rest : Closure) :
    Ordering.Moves s (s.withSequence m step rest) := by
  have h₁ := Ordering.moves_withLabel (Ordering.sound hs) m
    (some rest)
  have h₂ := Ordering.moves_withLabel h₁.sound m none
  have hRow : Ordering.Moves
      ((s.withLabel m (some rest)).withLabel m none)
      (((s.withLabel m (some rest)).withLabel m
        none).withSequenceRow
          ⟨m, (newSite s m rest).entry, step, s.labels.size,
            s.task⟩) :=
    Ordering.founds.newSequence _ h₂.sound
  have h₄ := (bears_entry hm step rest).moves_relabelled
    hRow.sound (.sequenceEntry s.sequences.size)
  exact ((h₁.trans h₂).trans hRow).trans h₄

/- Building a sequence founds it, and then jumps to its entry. -/
theorem Sequence.build_eq
    (caller : Caller)
    (hm : m < s.machines.size)
    (step : Value)
    (rest : Closure) :
    build caller (.machine m) step rest s =
      Label.jump caller m (.label (newSite s m rest).entry)
        (s.withSequence m step rest) := by
  refine Run.step_eq (a := m) rfl ?_
  refine Run.step_eq (Label.install_eq m rest s) ?_
  refine Run.step_eq (Label.allocate_eq m _) ?_
  refine Run.step_eq rfl (Run.step_eq rfl ?_)
  exact Run.step_eq (Label.replace_eq
    (bears_entry hm step rest)
    (.sequenceEntry s.sequences.size)) rfl


section Constructs

variable {caller : Caller}
variable (hServes : Ordering.Serves caller)
variable (hc : Landing rounds m caller)
variable (hs : s.Orderly)

include hServes hc hs

/- A future that is awaited lands, if what comes next does. -/
theorem Lands.awaitResult
    (hm : m < s.machines.size)
    (hNative : s.Native m code)
    (awaiter : Value) :
    Lands rounds m
      (Await.awaitResult caller (.machine m) awaiter code) s := by
  have hHosts := Ordering.hosts hServes
  unfold Await.awaitResult
  refine .bind (hHosts.keeps_completed hServes
    (Ordering.sound hs) awaiter) fun isDone s₁ h₁ => ?_
  have hNative₁ := hNative.later h₁.rel
  split
  · exact .bind (hHosts.keeps_result hServes h₁.sound awaiter)
      fun v s₂ h₂ => hc [v] h₂.sound.inv
        (hNative₁.later h₂.rel)
  · exact .install h₁.sound.inv
      (Nat.lt_of_lt_of_le hm h₁.rel.machines.size_le)
      (.received awaiter hNative₁) awaiter

theorem Lands.bindTo
    (hm : m < s.machines.size)
    (hNative : s.Native m code)
    (source : Value) :
    Lands rounds m
      (Await.bind caller (.machine m) source code) s := by
  have hHosts := Ordering.hosts hServes
  unfold Await.bind
  refine .bind (hHosts.keeps_toAwaitable (Ordering.sound hs)
    source) fun awaitable s₁ h₁ => ?_
  refine .bind (hHosts.keeps_awaiterOf hServes h₁.sound
    awaitable) fun awaiter s₂ h₂ => ?_
  have h₁₂ := h₁.trans h₂
  exact .awaitResult hServes hc h₂.sound.inv
    (Nat.lt_of_lt_of_le hm h₁₂.rel.machines.size_le)
    (hNative.later h₁₂.rel) awaiter

theorem Lands.bindDetached
    (hm : m < s.machines.size)
    (hNative : s.Native m code)
    (source : Value) :
    Lands rounds m
      (Await.bindDetached caller (.machine m) source code)
      s := by
  have hHosts := Ordering.hosts hServes
  unfold Await.bindDetached
  refine .bind (hHosts.keeps_toAwaitable (Ordering.sound hs)
    source) fun awaitable s₁ h₁ => ?_
  refine .bind (hHosts.keeps_detachedAwaiter hServes h₁.sound
    awaitable) fun awaiter s₂ h₂ => ?_
  have h₁₂ := h₁.trans h₂
  exact .awaitResult hServes hc h₂.sound.inv
    (Nat.lt_of_lt_of_le hm h₁₂.rel.machines.size_le)
    (hNative.later h₁₂.rel) awaiter

omit hServes in
/- A new sequence is native code, and is entered. -/
theorem Lands.buildSequence
    (hm : m < s.machines.size)
    (hNative : s.Native m code)
    (first : Value) :
    Lands rounds m
      (Sequence.build caller (.machine m) first code) s := by
  have hAt := Sequence.at_withSequence hm first code
  have hMoves := Sequence.ordered_withSequence hs hm first code
  rcases hAt.cell with ⟨t, hRow⟩
  refine .of_eq hMoves.rel
    (Sequence.build_eq caller hm first code) ?_
  exact hAt.entry.holds.lands hc hMoves.sound.inv
    (.sequenceEntry hRow rfl hAt.entry.holds hAt.rest.holds
      (hNative.later hMoves.rel))

omit hServes in
/- So is a new loop. -/
theorem Lands.buildLoop
    (hm : m < s.machines.size)
    (condition body : Closure) :
    Lands rounds m
      (Loop.build caller (.machine m) condition body) s := by
  have hLabel := s.bears_withLabel hm none
  have h₁ := Ordering.moves_withLabel (Ordering.sound hs) m none
  have h₂ := hLabel.moves_relabelled h₁.sound
    (.loopHead m s.labels.size condition body)
  have hHead := hLabel.relabelled
    (.loopHead m s.labels.size condition body)
  refine .of_eq (h₁.trans h₂).rel (Run.step_eq (a := m) rfl
    (Run.step_eq (Label.allocate_eq m s) (Run.step_eq
      (Label.replace_eq hLabel _) rfl))) ?_
  exact hHead.holds.lands hc h₂.sound.inv (.loopHead hHead.holds)

omit hServes in
/- So is a new recovery, if its handler is native. -/
theorem Lands.buildRecovery
    (hm : m < s.machines.size)
    {handler : Closure}
    (hNative : s.Native m handler)
    (body : Closure) :
    Lands rounds m
      (Recovery.build caller (.machine m) body handler) s := by
  have hAt := Recovery.at_withRecovery hm body handler
  have hMoves := Recovery.ordered_withRecovery hs hm body handler
  rcases hAt.cell with ⟨t, hRow⟩
  refine .of_eq hMoves.rel
    (Recovery.build_eq caller hm body handler) ?_
  exact hAt.entry.holds.lands hc hMoves.sound.inv
    (.recoveryEntry hRow rfl hAt.entry.holds
      (hNative.later hMoves.rel))

omit hServes in
/- So is a new cleanup. -/
theorem Lands.buildCleanup
    (hm : m < s.machines.size)
    (body compensation : Closure) :
    Lands rounds m
      (Cleanup.build caller (.machine m) body compensation)
      s := by
  have hAt := Cleanup.at_withCleanup hm body compensation
  have hMoves := Cleanup.ordered_withCleanup hs hm body
    compensation
  have hGround := Session.sameGround_tending
    (s.withCleanup m body compensation)
    (.entered s.cleanups.size)
  have hFounded := hMoves.trans
    (Ordering.moves hMoves.sound hGround)
  rcases hAt.cell with ⟨t, hRow⟩
  rw [← hGround.cleanups] at hRow
  have hEntry := hAt.entry.holds.later hGround.grows
  refine .of_eq hFounded.rel
    (Cleanup.build_eq caller hm body compensation) ?_
  exact hEntry.lands hc hFounded.sound.inv
    (.cleanupEntry hRow rfl hEntry)

------------------------------------------------------------
-- Entering Constructs Lands
------------------------------------------------------------

/-
  Every round of a loop lands: it is sequenced with a jump to
  the loop's head.
-/
theorem Lands.enterLoop
    {entry : Ref}
    {condition body : Closure}
    (hEntry : s.Holds m entry
      (.loopHead m entry condition body)) :
    Lands rounds m
      (Loop.enter caller m entry condition body) s := by
  have hCondition := fun {s₁} (h₁ : Ordering.Sound s₁) =>
    Ordering.call hServes h₁ condition []
  have hBody := fun {s₁} (h₁ : Ordering.Sound s₁) =>
    Ordering.call hServes h₁ body []
  refine Run.Ensures.iterate ?_ _
    (World.Moves.refl (Ordering.sound hs))
  intro s₁ h₁
  unfold Loop.round
  refine Run.Ensures.bind ((hCondition h₁.sound).mono ?_)
  rintro (e | isOn) s₂ h₂
  · exact nofun
  have h₁₂ := h₁.trans h₂
  change (if isOn.truthy = true then _ else _ :
    Run (Option Value)).Ensures s₂ _
  split
  · refine Run.Ensures.bind ((hBody h₂.sound).mono ?_)
    rintro (e | step) s₃ h₃
    · exact nofun
    have h₁₃ := h₁₂.trans h₃
    have hEntry₃ := hEntry.later h₁₃.rel
    have hm : m < s₃.machines.size := by
      rcases hEntry₃ with ⟨_, hBears, _⟩
      exact hBears.lt_machines
    have hBuild : Lands rounds m (Sequence.build caller
        (.machine m) step (.jump m entry)) s₃ :=
      .buildSequence hc h₃.sound.inv hm
        (.jump hEntry₃ (.loopHead hEntry₃)) step
    change (if step.isMissing = true then _ else _ :
      Run (Option Value)).Ensures s₃ _
    split
    · refine Run.Ensures.bind (Run.Ensures.bind
        (Run.ensures_modifyGet.mpr (Run.ensures_pure.mpr ?_)))
      exact Run.ensures_raise.mpr nofun
    · split
      · exact Run.ensures_pure.mpr h₁₃
      · exact (hBuild.sooner h₁₃.rel).continues
  · exact ((Lands.finish (m := m) .undefined).sooner
      h₁₂.rel).continues

/- Entering a sequence lands. -/
theorem Lands.enterSequence
    {i : Ref}
    {row : SequenceCell}
    (hRow : s.sequences[i]? = some row)
    (hMachine : row.machine = m)
    (hEntry : s.Holds m row.entry (.sequenceEntry i))
    (hRest : s.Holds m row.rest code)
    (hNative : s.Native m code) :
    Lands rounds m (Sequence.enter caller i) s := by
  have hm : m < s.machines.size := by
    rcases hEntry with ⟨_, hBears, _⟩
    exact hBears.lt_machines
  unfold Sequence.enter
  refine .row_bind ?_
  have hCell : (Table.sequences.rows s).getD i default = row := by
    simp [Table.sequences, hRow]
  rw [hCell, hMachine]
  split
  · exact .bind (keeps_newTypeError (Ordering.sound hs))
      fun _ _ _ => .raise _
  · split
    · exact .answer nofun
    · exact hRest.lands hc hs hNative
    · refine .bind ((Ordering.hosts hServes).keeps_awaiterOf
        hServes (Ordering.sound hs) _) fun awaiter s₁ h₁ => ?_
      exact .awaitResult hServes hc h₁.sound.inv
        (Nat.lt_of_lt_of_le hm h₁.rel.machines.size_le)
        (.jump (hRest.later h₁.rel) (hNative.later h₁.rel))
        awaiter
    · exact .install hs hm (.sequenceResume _
        (.sequenceEntry hRow hMachine hEntry hRest hNative)) _

/- Resuming a sequence enters it once more, in the end. -/
theorem Lands.resumeSequence
    {i : Ref}
    (resume : Value)
    (hNative : s.Native m (.sequenceEntry i)) :
    Lands rounds m (Sequence.resume caller i resume) s := by
  have hNative' := hNative
  cases hNative' with
  | @sequenceEntry _ row _ hRow hMachine hEntry _ _ =>
  have hCell : (Table.sequences.rows s).getD i default = row := by
    simp [Table.sequences, hRow]
  unfold Sequence.resume
  refine .row_bind ?_
  rw [hCell, hMachine]
  refine .bind (Ordering.founds.keeps_jump hServes
    (Ordering.sound hs) m resume) fun step s₁ h₁ => ?_
  refine .bind (keeps_alter (Ordering.founds.alterSequence i step
    h₁.sound)) fun _ s₂ h₂ => ?_
  have h₁₂ := h₁.trans h₂
  exact (hEntry.later h₁₂.rel).lands hc h₂.sound.inv
    (hNative.later h₁₂.rel)

omit hServes in
/- What becomes of a failure lands, if the handler is native. -/
theorem Lands.recover
    {handler : Closure}
    (hNative : s.Native m handler)
    (e : Value) :
    Lands rounds m (Recovery.recover caller handler e) s := by
  unfold Recovery.recover
  split
  · exact .raise e
  · exact hc [e] hs hNative

/- So does what the body handed off to, in the end. -/
theorem Lands.recoveryOutcome
    {i : Ref}
    {row : RecoveryCell}
    (hRow : s.recoveries[i]? = some row)
    (hNative : s.Native m row.handler)
    (awaiter : Value) :
    Lands rounds m (Recovery.outcome caller i awaiter) s := by
  unfold Recovery.outcome
  refine .bind ((Ordering.hosts hServes).keeps_result hServes
    (Ordering.sound hs) awaiter).attempt fun ended s₁ h₁ => ?_
  rcases h₁.rel.recoveries i row hRow with
    ⟨row', hRow', hBecomes⟩
  cases ended with
  | ok v => exact .finish v
  | error e =>
      refine .row_bind ?_
      have hCell : (Table.recoveries.rows s₁).getD i default =
          row' := by
        simp [Table.recoveries, hRow']
      rw [hCell, hBecomes.handler]
      exact .recover hc h₁.sound.inv (hNative.later h₁.rel) e

/- Entering a recovery lands. -/
theorem Lands.enterRecovery
    {i : Ref}
    {row : RecoveryCell}
    (hRow : s.recoveries[i]? = some row)
    (hMachine : row.machine = m)
    (hEntry : s.Holds m row.entry (.recoveryEntry i))
    (hNative : s.Native m row.handler) :
    Lands rounds m (Recovery.enter caller i) s := by
  have hm : m < s.machines.size := by
    rcases hEntry with ⟨_, hBears, _⟩
    exact hBears.lt_machines
  have hCell : (Table.recoveries.rows s).getD i default = row := by
    simp [Table.recoveries, hRow]
  unfold Recovery.enter
  refine .row_bind ?_
  rw [hCell, hMachine]
  refine .bind (Ordering.founds.keeps_jump hServes
    (Ordering.sound hs) m row.inner).attempt
    fun ended s₁ h₁ => ?_
  have hEntry₁ := hEntry.later h₁.rel
  have hNative₁ := hNative.later h₁.rel
  have hm₁ : m < s₁.machines.size :=
    Nat.lt_of_lt_of_le hm h₁.rel.machines.size_le
  rcases h₁.rel.recoveries i row hRow with
    ⟨row₁, hRow₁, hBecomes⟩
  have hHandler₁ : s₁.Native m row₁.handler := by
    rw [hBecomes.handler]
    exact hNative₁
  have hOwn : s₁.Native m (.recoveryEntry i) :=
    .recoveryEntry hRow₁ (hBecomes.machine.trans hMachine)
      (hBecomes.entry ▸ hEntry₁) hHandler₁
  cases ended with
  | error e => exact .recover hc h₁.sound.inv hNative₁ e
  | ok step =>
  change Lands rounds m (if step.isMissing = true then _ else _)
    s₁
  split
  · exact .bind (keeps_newTypeError h₁.sound)
      fun _ _ _ => .raise _
  · split
    · refine .answer fun _ _ hStep => ?_
      cases hStep
    · next v hStep =>
        refine .answer fun a l hStep' => ?_
        rw [hStep] at hStep'
        cases hStep'
    · refine .bind ((Ordering.hosts hServes).keeps_awaiterOf
        hServes h₁.sound _) fun awaiter s₂ h₂ => ?_
      refine .bind ((Ordering.hosts hServes).keeps_completed
        hServes h₂.sound awaiter) fun isDone s₃ h₃ => ?_
      have h₂₃ := h₂.trans h₃
      rcases h₂₃.rel.recoveries i row₁ hRow₁ with
        ⟨row₃, hRow₃, hBecomes₃⟩
      have hHandler₃ : s₃.Native m row₃.handler := by
        rw [hBecomes₃.handler]
        exact hHandler₁.later h₂₃.rel
      split
      · exact .recoveryOutcome hServes hc h₃.sound.inv hRow₃
          hHandler₃ awaiter
      · exact .install h₃.sound.inv
          (Nat.lt_of_lt_of_le hm₁ h₂₃.rel.machines.size_le)
          (.recoveryOutcome awaiter hRow₃ hHandler₃) awaiter
    · next awaiter resume _ =>
        refine .bind (keeps_alter
          (Ordering.founds.alterRecovery i resume h₁.sound))
          fun _ s₂ h₂ => ?_
        rcases hEntry₁.later h₂.rel with ⟨code', hBears, hSame⟩
        exact .suspend hBears
          ((hOwn.later h₂.rel).of_same hSame) awaiter

omit hc in
/- A cleanup's ends land, whatever its body handed off to. -/
theorem Lands.cleanupOutcome
    (i : Ref)
    (awaiter : Value) :
    Lands rounds m (Cleanup.outcome caller i awaiter) s := by
  unfold Cleanup.outcome
  refine .bind ((Ordering.hosts hServes).keeps_result hServes
    (Ordering.sound hs) awaiter).attempt fun ended s₁ h₁ => ?_
  have hDone := Ordering.founds.keeps_compensate hServes h₁.sound i
  cases ended with
  | ok v => exact .bind hDone fun _ _ _ => .finish v
  | error e => exact .bind hDone fun _ _ _ => .raise e

omit hc in
/- Entering a cleanup lands. -/
theorem Lands.enterCleanup
    {i : Ref}
    {row : CleanupCell}
    (hRow : s.cleanups[i]? = some row)
    (hMachine : row.machine = m)
    (hEntry : s.Holds m row.entry (.cleanupEntry i)) :
    Lands rounds m (Cleanup.enter caller i) s := by
  have hm : m < s.machines.size := by
    rcases hEntry with ⟨_, hBears, _⟩
    exact hBears.lt_machines
  have hCell : (Table.cleanups.rows s).getD i default = row := by
    simp [Table.cleanups, hRow]
  unfold Cleanup.enter
  refine .row_bind ?_
  rw [hCell, hMachine]
  refine .bind (Ordering.founds.keeps_jump hServes
    (Ordering.sound hs) m row.inner).attempt
    fun ended s₁ h₁ => ?_
  have hEntry₁ := hEntry.later h₁.rel
  have hm₁ : m < s₁.machines.size :=
    Nat.lt_of_lt_of_le hm h₁.rel.machines.size_le
  have hOwn : s₁.Native m (.cleanupEntry i) :=
    (Session.Native.cleanupEntry hRow hMachine hEntry).later
      h₁.rel
  have hDone := Ordering.founds.keeps_compensate hServes h₁.sound i
  cases ended with
  | error e => exact .bind hDone fun _ _ _ => .raise e
  | ok step =>
  change Lands rounds m (if step.isMissing = true then _ else _)
    s₁
  split
  · exact .bind (keeps_newTypeError h₁.sound)
      fun _ _ _ => .raise _
  · split
    · refine .answer fun _ _ hStep => ?_
      cases hStep
    · next v hStep =>
        refine .bind hDone fun _ s₂ h₂ => ?_
        refine .answer fun a l hStep' => ?_
        rw [hStep] at hStep'
        cases hStep'
    · refine .bind ((Ordering.hosts hServes).keeps_awaiterOf
        hServes h₁.sound _) fun awaiter s₂ h₂ => ?_
      refine .bind ((Ordering.hosts hServes).keeps_completed
        hServes h₂.sound awaiter) fun isDone s₃ h₃ => ?_
      split
      · exact .cleanupOutcome hServes h₃.sound.inv i awaiter
      · exact .install h₃.sound.inv
          (Nat.lt_of_lt_of_le hm₁
            (h₂.trans h₃).rel.machines.size_le)
          (.cleanupOutcome i awaiter) awaiter
    · next awaiter resume _ =>
        refine .bind (keeps_alter
          (Ordering.founds.alterCleanup i resume h₁.sound))
          fun _ s₂ h₂ => ?_
        rcases hEntry₁.later h₂.rel with ⟨code', hBears, hSame⟩
        exact .suspend hBears
          ((hOwn.later h₂.rel).of_same hSame) awaiter

end Constructs

------------------------------------------------------------
-- Native Code Lands
------------------------------------------------------------

/-
  Callers of every depth land when they call native code.
  The induction is on the depth: what is entered lands, if
  what it calls in turn does.
-/
theorem landing
    (rounds depth : Nat)
    (m : Ref) :
    Landing rounds m (.ofDepth rounds depth) := by
  induction depth with
  | zero =>
      intro s code args _ _
      exact Run.ensures_exhaust
  | succ depth ih =>
      intro s code args hs hNative
      have hServes := Ordering.serves rounds depth
      change Lands rounds m
        (code.enter (.ofDepth rounds depth) args) s
      cases hNative with
      | client f =>
          rintro r s' hRun v rfl
          exact .inr ⟨depth + 1, f, args, s, hs, .refl s, hRun⟩
      | applied args' h => exact ih args' hs h
      | received awaiter h =>
          exact .bind ((Ordering.hosts hServes).keeps_result
            hServes (Ordering.sound hs) awaiter)
            fun v s₁ h₁ => ih [v] h₁.sound.inv (h.later h₁.rel)
      | jump hLabel h => exact hLabel.lands ih hs h
      | loopHead hEntry => exact .enterLoop hServes ih hs hEntry
      | sequenceEntry hRow hMachine hEntry hRest h =>
          exact .enterSequence hServes ih hs hRow hMachine hEntry
            hRest h
      | sequenceResume resume h =>
          exact .resumeSequence hServes ih hs resume h
      | recoveryEntry hRow hMachine hEntry h =>
          exact .enterRecovery hServes ih hs hRow hMachine hEntry
            h
      | recoveryOutcome awaiter hRow h =>
          exact .recoveryOutcome hServes ih hs hRow h awaiter
      | cleanupEntry hRow hMachine hEntry =>
          exact .enterCleanup hServes hs hRow hMachine hEntry
      | cleanupOutcome i awaiter =>
          exact .cleanupOutcome hServes hs i awaiter
      | cursorLoop hm c body =>
          exact .buildLoop ih hs hm _ _

end Resumption

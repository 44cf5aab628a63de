import Resumption.Construct.Iteration
import Resumption.Construct.Recovery
import Resumption.Proofs.Veil.Awaiters

/-
  Awaits, sequences, loops, recoveries, cleanups and
  iterations do the same under a veil.

  Main declarations:
    * `Veil.matches_awaitResult`
    * `Veil.matches_enterSequence`
    * `Veil.matches_enterLoop`
    * `Veil.matches_enterRecovery`
    * `Veil.matches_enterCleanup`
    * `Veil.matches_nextItem`
-/

namespace Resumption

open Run

namespace Veil

variable {V : Veil}
variable {α β : Type}
variable {c c' : Caller}

------------------------------------------------------------
-- Awaiting
------------------------------------------------------------

theorem matches_awaitResult
    (hc : V.Serves c c')
    (m awaiter : Value)
    (rest : Closure) :
    V.Matches Eq (Await.awaitResult c m awaiter rest)
      (Await.awaitResult c' m awaiter (V.closure rest)) := by
  refine (matches_completed hc awaiter).bind fun completed => ?_
  split
  · exact (matches_result hc awaiter).bind fun v =>
      hc.call rest [v]
  · refine (matches_machineOf m).bind fun r => ?_
    exact (matches_install r (.received awaiter rest)).bind
      fun l => matches_newStep _

theorem matches_awaitBind
    (hc : V.Serves c c')
    (m source : Value)
    (rest : Closure) :
    V.Matches Eq (Await.bind c m source rest)
      (Await.bind c' m source (V.closure rest)) :=
  (matches_toAwaitable source).bind fun awaitable =>
    (matches_ofValue hc awaitable).bind fun awaiter =>
      matches_awaitResult hc m awaiter rest

theorem matches_bindDetached
    (hc : V.Serves c c')
    (m source : Value)
    (rest : Closure) :
    V.Matches Eq (Await.bindDetached c m source rest)
      (Await.bindDetached c' m source (V.closure rest)) :=
  (matches_toAwaitable source).bind fun awaitable =>
    (matches_detachedAwaiter hc awaitable).bind fun awaiter =>
      matches_awaitResult hc m awaiter rest

theorem matches_enterReceived
    (hc : V.Serves c c')
    (awaiter : Value)
    (rest : Closure) :
    V.Matches Eq (Await.enterReceived c awaiter rest)
      (Await.enterReceived c' awaiter (V.closure rest)) :=
  (matches_result hc awaiter).bind fun v => hc.call rest [v]

------------------------------------------------------------
-- Sequences
------------------------------------------------------------

/- A sequence remembers the task that it was built in. -/
theorem matches_buildSequence
    (hc : V.Serves c c')
    (m first : Value)
    (rest : Closure) :
    V.Matches Eq (Sequence.build c m first rest)
      (Sequence.build c' m first (V.closure rest)) := by
  refine (matches_machineOf m).bind fun m => ?_
  refine (matches_install m rest).bind fun rest => ?_
  refine (matches_allocate m).bind fun entry => ?_
  have hBuilt : ∀ task : Option Ref, V.Matches Eq
      (do
        let i ← Table.sequences.alloc
          ⟨m, entry, first, rest, task⟩
        Label.replace m (.label entry) (.sequenceEntry i)
        Label.jump c m (.label entry))
      (do
        let i ← Table.sequences.alloc
          ⟨m, entry, first, rest, task⟩
        Label.replace m (.label entry) (.sequenceEntry i)
        Label.jump c' m (.label entry)) := fun task =>
    (column_sequences.alloc rfl).bind fun i =>
      (matches_replace m (.label entry) (.sequenceEntry i)).bind
        fun _ => matches_jump hc m _
  refine matches_get_bind (fun s => (hBuilt s.task).goes)
    fun s t hSees => ?_
  rw [hSees.task]
  exact hBuilt s.task

theorem matches_enterSequence
    (hc : V.Serves c c')
    (i : Ref) :
    V.Matches Eq (Sequence.enter c i)
      (Sequence.enter c' i) := by
  refine column_sequences.row_bind ?_
  rintro cell _ rfl
  split
  · exact matches_typeError
  · split
    · exact matches_pure rfl
    · exact matches_jump hc _ _
    · exact (matches_ofValue hc _).bind fun awaiter =>
        matches_awaitResult hc _ awaiter
          (.jump cell.machine cell.rest)
    · next awaiter resume _ =>
        exact (matches_install cell.machine
          (.sequenceResume i resume)).bind fun l =>
            matches_newStep _

theorem matches_resumeSequence
    (hc : V.Serves c c')
    (i : Ref)
    (label : Value) :
    V.Matches Eq (Sequence.resume c i label)
      (Sequence.resume c' i label) := by
  refine column_sequences.row_bind ?_
  rintro cell _ rfl
  refine (matches_jump hc _ label).bind fun step => ?_
  refine (column_sequences.alter i ?_).bind fun _ =>
    matches_jump hc _ _
  rintro _ _ rfl
  rfl

------------------------------------------------------------
-- Loops
------------------------------------------------------------

theorem matches_round
    (hc : V.Serves c c')
    (m entry : Ref)
    (condition body : Closure) :
    V.Matches Eq (Loop.round c m entry condition body)
      (Loop.round c' m entry (V.closure condition)
        (V.closure body)) := by
  refine (hc.call condition []).bind fun holds => ?_
  split
  · refine (hc.call body []).bind fun step => ?_
    split
    · exact matches_typeError
    · split
      · exact matches_pure rfl
      · exact (matches_buildSequence hc _ step
          (.jump m entry)).map fun _ => rfl
  · exact (matches_newStep _).map fun _ => rfl

theorem matches_enterLoop
    (hc : V.Serves c c')
    (m entry : Ref)
    (condition body : Closure) :
    V.Matches Eq (Loop.enter c m entry condition body)
      (Loop.enter c' m entry (V.closure condition)
        (V.closure body)) := by
  unfold Loop.enter
  rw [hc.rounds]
  exact (matches_round hc m entry condition body).iterate _

theorem matches_buildLoop
    (hc : V.Serves c c')
    (m : Value)
    (condition body : Closure) :
    V.Matches Eq (Loop.build c m condition body)
      (Loop.build c' m (V.closure condition)
        (V.closure body)) := by
  refine (matches_machineOf m).bind fun m => ?_
  refine (matches_allocate m).bind fun entry => ?_
  exact (matches_replace m (.label entry)
    (.loopHead m entry condition body)).bind fun _ =>
      matches_jump hc m _

------------------------------------------------------------
-- Recoveries
------------------------------------------------------------

theorem matches_recover
    (hc : V.Serves c c')
    (handler : Closure)
    (e : Value) :
    V.Matches Eq (Recovery.recover c handler e)
      (Recovery.recover c' (V.closure handler) e) := by
  unfold Recovery.recover
  split
  · exact matches_raise e
  · exact hc.call handler [e]

theorem matches_recoveryOutcome
    (hc : V.Serves c c')
    (i : Ref)
    (awaiter : Value) :
    V.Matches Eq (Recovery.outcome c i awaiter)
      (Recovery.outcome c' i awaiter) := by
  refine (matches_result hc awaiter).attempt.bind
    fun outcome => ?_
  cases outcome with
  | ok v => exact matches_newStep _
  | error e =>
      refine column_recoveries.row_bind ?_
      rintro cell _ rfl
      exact matches_recover hc cell.handler e

/-
  A protected body is entered alike: what a jump refuses in
  it is handed over alike, or else it shows.
-/
theorem matches_enterRecovery
    (hc : V.Serves c c')
    (i : Ref) :
    V.Matches Eq (Recovery.enter c i)
      (Recovery.enter c' i) := by
  refine column_recoveries.row_bind ?_
  rintro cell _ rfl
  refine (matches_jump hc cell.machine cell.inner).attempt.bind
    fun ended => ?_
  cases ended with
  | error e => exact matches_recover hc cell.handler e
  | ok step =>
      dsimp only
      split
      · exact matches_typeError
      · split
        · exact matches_pure rfl
        · exact matches_pure rfl
        · refine (matches_ofValue hc _).bind fun awaiter => ?_
          refine (matches_completed hc awaiter).bind
            fun completed => ?_
          split
          · exact matches_recoveryOutcome hc i awaiter
          · exact (matches_install cell.machine
              (.recoveryOutcome i awaiter)).bind fun l =>
                matches_newStep _
        · refine (column_recoveries.alter i ?_).bind fun _ =>
            matches_newStep _
          rintro _ _ rfl
          rfl

theorem matches_buildRecovery
    (hc : V.Serves c c')
    (m : Value)
    (body handler : Closure) :
    V.Matches Eq (Recovery.build c m body handler)
      (Recovery.build c' m (V.closure body)
        (V.closure handler)) := by
  refine (matches_machineOf m).bind fun m => ?_
  refine (matches_allocate m).bind fun entry => ?_
  refine (matches_install m body).bind fun inner => ?_
  have hBuilt : ∀ task : Option Ref, V.Matches Eq
      (do
        let i ← Table.recoveries.alloc
          ⟨m, entry, .label inner, handler, task⟩
        Label.replace m (.label entry) (.recoveryEntry i)
        Label.jump c m (.label entry))
      (do
        let i ← Table.recoveries.alloc
          ⟨m, entry, .label inner, V.closure handler, task⟩
        Label.replace m (.label entry) (.recoveryEntry i)
        Label.jump c' m (.label entry)) := fun task =>
    (column_recoveries.alloc rfl).bind fun i =>
      (matches_replace m (.label entry) (.recoveryEntry i)).bind
        fun _ => matches_jump hc m _
  refine matches_get_bind (fun s => (hBuilt s.task).goes)
    fun s t hSees => ?_
  rw [hSees.task]
  exact hBuilt s.task

------------------------------------------------------------
-- Cleanups
------------------------------------------------------------

theorem matches_compensating
    (i : Ref) :
    V.Matches Eq (modify (·.compensating i) : Run PUnit)
      (modify (·.compensating i)) := by
  have hAlter : V.Matches Eq
      (Table.cleanups.alter i ({ · with compensated := true }))
      (Table.cleanups.alter i
        ({ · with compensated := true })) := by
    refine column_cleanups.alter i ?_
    rintro _ _ rfl
    rfl
  exact (matches_chronicle (i := .compensates i)
    (j := .compensates i) rfl rfl rfl rfl).bind fun _ => hAlter

theorem matches_compensate
    (hc : V.Serves c c')
    (i : Ref) :
    V.Matches Eq (Cleanup.compensate c i)
      (Cleanup.compensate c' i) := by
  refine column_cleanups.row_bind ?_
  rintro ⟨_, _, _, compensation, compensated, _⟩ _ rfl
  cases compensated with
  | true => exact matches_pure rfl
  | false =>
      refine (matches_compensating i).bind fun _ => ?_
      exact (matches_tendHere _).bind fun _ =>
        (hc.call compensation []).discard

theorem matches_cleanupOutcome
    (hc : V.Serves c c')
    (i : Ref)
    (awaiter : Value) :
    V.Matches Eq (Cleanup.outcome c i awaiter)
      (Cleanup.outcome c' i awaiter) := by
  refine (matches_result hc awaiter).attempt.bind
    fun outcome => ?_
  cases outcome with
  | ok v =>
      exact (matches_compensate hc i).bind fun _ =>
        matches_newStep _
  | error e =>
      exact (matches_compensate hc i).bind fun _ =>
        matches_raise e

theorem matches_enterCleanup
    (hc : V.Serves c c')
    (i : Ref) :
    V.Matches Eq (Cleanup.enter c i)
      (Cleanup.enter c' i) := by
  refine column_cleanups.row_bind ?_
  rintro cell _ rfl
  refine (matches_jump hc cell.machine cell.inner).attempt.bind
    fun ended => ?_
  cases ended with
  | error e =>
      exact (matches_compensate hc i).bind fun _ =>
        matches_raise e
  | ok step =>
      dsimp only
      split
      · exact matches_typeError
      · split
        · exact matches_pure rfl
        · exact (matches_compensate hc i).bind fun _ =>
            matches_pure rfl
        · refine (matches_ofValue hc _).bind fun awaiter => ?_
          refine (matches_completed hc awaiter).bind
            fun completed => ?_
          split
          · exact matches_cleanupOutcome hc i awaiter
          · exact (matches_install cell.machine
              (.cleanupOutcome i awaiter)).bind fun l =>
                matches_newStep _
        · refine (column_cleanups.alter i ?_).bind fun _ =>
            matches_newStep _
          rintro _ _ rfl
          rfl

theorem matches_buildCleanup
    (hc : V.Serves c c')
    (m : Value)
    (body compensation : Closure) :
    V.Matches Eq (Cleanup.build c m body compensation)
      (Cleanup.build c' m (V.closure body)
        (V.closure compensation)) := by
  refine (matches_machineOf m).bind fun m => ?_
  refine (matches_allocate m).bind fun entry => ?_
  refine (matches_install m body).bind fun inner => ?_
  have hBuilt : ∀ task : Option Ref, V.Matches Eq
      (do
        let i ← Table.cleanups.alloc
          ⟨m, entry, .label inner, compensation, false, task⟩
        Label.replace m (.label entry) (.cleanupEntry i)
        Run.tendHere (.entered i)
        Label.jump c m (.label entry))
      (do
        let i ← Table.cleanups.alloc
          ⟨m, entry, .label inner, V.closure compensation,
            false, task⟩
        Label.replace m (.label entry) (.cleanupEntry i)
        Run.tendHere (.entered i)
        Label.jump c' m (.label entry)) := fun task =>
    (column_cleanups.alloc rfl).bind fun i =>
      (matches_replace m (.label entry) (.cleanupEntry i)).bind
        fun _ => (matches_tendHere _).bind fun _ =>
          matches_jump hc m _
  refine matches_get_bind (fun s => (hBuilt s.task).goes)
    fun s t hSees => ?_
  rw [hSees.task]
  exact hBuilt s.task

------------------------------------------------------------
-- Resources
------------------------------------------------------------

theorem matches_trackedResource
    (name : Value)
    (logged : Bool) :
    V.Matches Eq (Resource.tracked name logged)
      (Resource.tracked name logged) :=
  (column_resources.alloc rfl).bind fun _ => matches_pure rfl

theorem matches_customResource
    (code : Closure) :
    V.Matches Eq (Resource.custom code)
      (Resource.custom (V.closure code)) :=
  (column_resources.alloc rfl).bind fun _ => matches_pure rfl

theorem matches_dispose
    (hc : V.Serves c c')
    (resource : Value) :
    V.Matches Eq (Resource.dispose c resource)
      (Resource.dispose c' resource) := by
  unfold Resource.dispose
  split
  · next r =>
      refine column_resources.row_bind ?_
      rintro cell _ rfl
      cases cell with
      | tracked name logged count =>
          refine (column_resources.alter r ?_).bind fun _ => ?_
          · rintro cell _ rfl
            cases cell <;> rfl
          · cases logged with
            | false => exact matches_pure rfl
            | true =>
                exact (matches_text name).bind fun _ =>
                  (matches_logged rfl).bind fun _ =>
                    matches_pure rfl
      | custom code => exact hc.call code []
  · exact matches_callMethod hc resource _ _

theorem matches_release
    (hc : V.Serves c c')
    (resource : Value) :
    V.Matches Eq (Resource.release c resource)
      (Resource.release c' resource) := by
  unfold Resource.release
  split
  · exact matches_pure rfl
  · exact (matches_dispose hc resource).discard.bind fun _ =>
      matches_pure rfl

theorem matches_use
    (hc : V.Serves c c')
    (m resource : Value)
    (body : Closure) :
    V.Matches Eq (Resource.use c m resource body)
      (Resource.use c' m resource (V.closure body)) :=
  matches_buildCleanup hc m (.applied body [resource])
    (.release resource)

------------------------------------------------------------
-- Cursors
------------------------------------------------------------

theorem matches_startCursor
    (hc : V.Serves c c')
    (v : Value) :
    V.Matches Eq (Cursor.start c v) (Cursor.start c' v) := by
  unfold Cursor.start
  split
  · exact matches_pure rfl
  · exact matches_pure rfl
  · refine column_iterables.row_bind ?_
    rintro cell _ rfl
    cases cell with
    | counting items counts => exact matches_pure rfl
    | custom start next close =>
        exact (hc.call start []).discard.bind fun _ =>
          matches_pure rfl
  · exact matches_typeError

theorem matches_newCursor
    (hc : V.Serves c c')
    (v : Value) :
    V.Matches Eq (Cursor.new c v) (Cursor.new c' v) :=
  (matches_startCursor hc v).bind fun _ =>
    column_cursors.alloc rfl

theorem matches_place
    (r : Ref)
    (source : CursorSource) :
    V.Matches Eq (Cursor.place r source)
      (Cursor.place r source) := by
  refine column_cursors.alter r ?_
  rintro _ _ rfl
  rfl

/- Counters are kept for counting iterables alone. -/
theorem matches_countIterable
    {count : IterableCell → IterableCell}
    (i : Ref)
    (h : ∀ cell, count (V.iterableRow cell) =
      V.iterableRow (count cell)) :
    V.Matches Eq (Table.iterables.alter i count)
      (Table.iterables.alter i count) := by
  refine column_iterables.alter i ?_
  rintro cell _ rfl
  exact h cell

theorem matches_nextItem
    (hc : V.Serves c c')
    (checked : Bool)
    (r : Ref) :
    V.Matches Eq (Cursor.next c checked r)
      (Cursor.next c' checked r) := by
  refine column_cursors.row_bind ?_
  rintro cell _ rfl
  split
  · exact matches_pure rfl
  · refine column_lists.row_bind ?_
    rintro items _ rfl
    split
    · exact (matches_place r _).bind fun _ => matches_pure rfl
    · exact (matches_place r _).bind fun _ => matches_pure rfl
  · exact matches_pure rfl
  · exact (matches_place r _).bind fun _ => matches_pure rfl
  · refine column_iterables.row_bind ?_
    rintro iterable _ rfl
    cases iterable with
    | counting items counts =>
        refine (matches_countIterable _ ?_).bind fun _ => ?_
        · rintro (_ | _) <;> rfl
        refine (matches_itemsOf items).bind fun found => ?_
        split
        · refine (matches_countIterable _ ?_).bind fun _ => ?_
          · rintro (_ | _) <;> rfl
          exact (matches_place r _).bind fun _ =>
            matches_pure rfl
        · exact matches_pure rfl
    | custom start next close => exact matches_pure rfl
  · refine column_iterables.row_bind ?_
    rintro iterable _ rfl
    cases iterable with
    | counting items counts => exact matches_pure rfl
    | custom start next close =>
        refine (hc.call next []).bind fun answer => ?_
        split
        · exact matches_typeError
        · refine (matches_field answer
            (by simp [capturedKey])).bind fun finished => ?_
          split
          · exact matches_pure rfl
          · exact (matches_field answer
              (by simp [capturedKey])).bind fun _ =>
                matches_pure rfl

theorem matches_closeCursor
    (hc : V.Serves c c')
    (r : Ref) :
    V.Matches Eq (Cursor.close c r) (Cursor.close c' r) := by
  refine column_cursors.row_bind ?_
  rintro cell _ rfl
  split
  · refine (matches_countIterable _ ?_).bind fun _ => ?_
    · rintro (_ | _) <;> rfl
    refine column_iterables.row_bind ?_
    rintro iterable _ rfl
    cases iterable with
    | counting items counts =>
        refine (matches_itemsOf items).bind fun found => ?_
        exact (matches_place r _).bind fun _ => matches_pure rfl
    | custom start next close => exact matches_pure rfl
  · refine column_iterables.row_bind ?_
    rintro iterable _ rfl
    rcases iterable with ⟨_, _⟩ | ⟨_, _, _ | code⟩
    · exact matches_pure rfl
    · exact matches_pure rfl
    · exact (hc.call code []).map fun _ => rfl
  · exact matches_pure rfl

theorem matches_advanceCursor
    (hc : V.Serves c c')
    (r : Ref) :
    V.Matches Eq (Cursor.advance c r)
      (Cursor.advance c' r) := by
  refine (matches_nextItem hc false r).bind fun item => ?_
  cases item with
  | none => exact matches_pure rfl
  | some v =>
      refine (column_cursors.alter r ?_).bind fun _ =>
        matches_pure rfl
      rintro _ _ rfl
      rfl

theorem matches_currentItem
    (r : Ref) :
    V.Matches Eq (Cursor.current r) (Cursor.current r) := by
  refine column_cursors.row_bind ?_
  rintro cell _ rfl
  exact matches_pure rfl

------------------------------------------------------------
-- Iterations
------------------------------------------------------------

theorem matches_buildIteration
    (hc : V.Serves c c')
    (m items : Value)
    (body : Closure) :
    V.Matches Eq (Iteration.build c m items body)
      (Iteration.build c' m items (V.closure body)) :=
  (matches_newCursor hc items).bind fun r =>
    matches_buildCleanup hc m (.cursorLoop m r body)
      (.cursorClose r)

theorem matches_enterIteration
    (hc : V.Serves c c')
    (m : Value)
    (r : Ref)
    (body : Closure) :
    V.Matches Eq (Iteration.enter c m r body)
      (Iteration.enter c' m r (V.closure body)) :=
  matches_buildLoop hc m (.cursorAdvance r) (.cursorItem r body)

theorem matches_collectItems
    (hc : V.Serves c c')
    (r : Ref)
    (n : Nat)
    (items : Array Value) :
    V.Matches Eq (Iteration.collect c r n items)
      (Iteration.collect c' r n items) := by
  induction n generalizing items with
  | zero =>
      refine (matches_closeCursor hc r).bind fun answer => ?_
      cases answer with
      | none => exact matches_pure rfl
      | some v =>
          dsimp only
          split
          · exact matches_pure rfl
          · exact matches_typeError
  | succ n ih =>
      refine (matches_nextItem hc true r).bind fun item => ?_
      cases item with
      | none => exact matches_pure rfl
      | some v => exact ih _

theorem matches_drain
    (hc : V.Serves c c')
    (items : Value)
    (limit : Nat) :
    V.Matches Eq (Iteration.drain c items limit)
      (Iteration.drain c' items limit) := by
  unfold Iteration.drain
  split
  · exact (column_lists.alloc rfl).bind fun _ =>
      matches_pure rfl
  · refine (matches_newCursor hc items).bind fun r => ?_
    refine (matches_collectItems hc r limit #[]).bind
      fun found => ?_
    exact (column_lists.alloc rfl).bind fun _ =>
      matches_pure rfl

end Veil

end Resumption

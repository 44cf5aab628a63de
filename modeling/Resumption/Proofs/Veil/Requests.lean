import Resumption.Evaluate
import Resumption.Proofs.Veil.Builders

/-
  What client code asks for is done alike under a veil, and
  so client code runs alike, to any depth.

  Main declarations:
    * `Veil.matches_perform`
    * `Veil.matches_program`
    * `Veil.matches_enter`
    * `Veil.serves_ofDepth`
-/

namespace Resumption

open Run

namespace Veil

variable {V : Veil}
variable {α β : Type}
variable {Q : α → β → Prop}
variable {s t : Session}
variable {c c' : Caller}

------------------------------------------------------------
-- Inspecting
------------------------------------------------------------

/- Who asks a builder for its context rule sees it. -/
theorem matches_inspecting
    {v : Value}
    {key : String}
    {act : Run α}
    {act' : Run β}
    (hGo : Goes act)
    (h : (V.contexts = true →
        (∃ b, v = .builder b) → key ≠ capturedKey) →
      V.Matches Q act act') :
    V.Matches Q
      (do
        inspecting v key
        act)
      (do
        inspecting v key
        act') := by
  unfold inspecting
  split
  · next b =>
      split
      · next hKey =>
          refine matches_chronicle_bind rfl rfl rfl rfl hGo
            fun hHides => h fun hContexts _ => ?_
          simp [Hides, hContexts] at hHides
      · next hKey => exact h fun _ _ => hKey
  · next hOther =>
      exact h fun _ hBuilder =>
        (hBuilder.elim hOther).elim

theorem matches_inspectedField
    (v key : Value) :
    V.Matches Eq
      (do
        let name ← text key
        inspecting v name
        field v name)
      (do
        let name ← text key
        inspecting v name
        field v name) :=
  (matches_text key).bind fun name =>
    matches_inspecting (goes_field v name) (matches_field v)

/- Fields are the same, but for those of a builder. -/
theorem Sees.fieldsOf_eq_of_hidden
    (h : V.Sees s t)
    {v : Value}
    (hNot : V.contexts = true → ¬ ∃ b, v = .builder b) :
    t.fieldsOf v = s.fieldsOf v := by
  by_cases hBuilder : ∃ b, v = .builder b
  · rcases hBuilder with ⟨b, rfl⟩
    rcases h.builders.row b with ⟨hMachine, hSame⟩
    have hSeen : V.contexts = false := by
      rw [← Bool.not_eq_true]
      exact fun hContexts => hNot hContexts ⟨b, rfl⟩
    simp only [Session.fieldsOf, hMachine, hSame hSeen]
  · exact h.fieldsOf_eq fun b hb => hBuilder ⟨b, hb⟩

------------------------------------------------------------
-- Probes
------------------------------------------------------------

theorem matches_newControlled :
    V.Matches Eq Probe.controlled Probe.controlled := by
  refine matches_newFuture.bind fun f => ?_
  have hMade : ∀ a : Nat, V.Matches Eq
      (do
        let c ← Table.controlled.alloc ⟨a, f, 0, 0, 0, 0⟩
        discard <| Table.awaitables.alloc (.controlled c)
        return Value.controlled c)
      (do
        let c ← Table.controlled.alloc ⟨a, f, 0, 0, 0, 0⟩
        discard <| Table.awaitables.alloc (.controlled c)
        return .controlled c) := fun a =>
    (column_controlled.alloc rfl).bind fun _ =>
      (column_awaitables.alloc rfl).discard.bind fun _ =>
        matches_pure rfl
  refine matches_get_bind
    (fun s => (hMade s.awaitables.size).goes) fun s t hSees => ?_
  rw [hSees.awaitables.size]
  exact hMade _

theorem matches_complete
    (hc : V.Serves c c')
    (v : Value)
    (outcome : Outcome) :
    V.Matches Eq (Probe.complete c v outcome)
      (Probe.complete c' v outcome) := by
  unfold Probe.complete
  split
  · have hSettled : ∀ cell : ControlledCell, V.Matches Eq
        (do
          discard <| Future.settle c cell.future outcome
          return Value.undefined)
        (do
          discard <| Future.settle c' cell.future outcome
          return .undefined) := fun cell =>
      (matches_settle hc cell.future outcome).discard.bind
        fun _ => matches_pure rfl
    refine matches_get_bind (fun s => ?_) fun s t hSees => ?_
    · split
      · exact (hSettled _).goes
      · exact goes_typeError
    · rw [hSees.controlled.eq]
      split
      · exact hSettled _
      · exact matches_typeError
  · exact matches_typeError

theorem matches_stats
    (probe : Value) :
    V.Matches Eq (Probe.stats probe) (Probe.stats probe) := by
  refine (matches_field probe (by simp [capturedKey])).bind
    fun counters => ?_
  have hGo : Goes (do
      newRecord ((← get).fieldsOf counters)) :=
    goes_get_bind fun s =>
      (matches_newRecord (V := V) (s.fieldsOf counters)).goes
  refine matches_inspecting hGo fun hNot => ?_
  refine matches_get_bind
    (fun s => (matches_newRecord (V := V) _).goes)
    fun s t hSees => ?_
  rw [hSees.fieldsOf_eq_of_hidden fun hContexts hBuilder =>
    hNot hContexts hBuilder rfl]
  exact matches_newRecord _

theorem matches_collect
    (v event : Value) :
    V.Matches Eq (Probe.collect v event)
      (Probe.collect v event) := by
  unfold Probe.collect
  split
  · refine column_collectors.row_bind ?_
    rintro events _ rfl
    refine (column_lists.alter events ?_).bind fun _ =>
      matches_pure rfl
    rintro _ _ rfl
    rfl
  · exact matches_typeError

theorem matches_fieldsNamed
    {key : String}
    (hKey : key ≠ capturedKey)
    (vs : List Value)
    (found : Array Value) :
    V.Matches Eq (Probe.fieldsNamed key vs found)
      (Probe.fieldsNamed key vs found) := by
  induction vs generalizing found with
  | nil => exact matches_pure rfl
  | cons v rest ih =>
      exact (matches_field v fun _ _ => hKey).bind fun _ => ih _

theorem matches_types
    (v : Value) :
    V.Matches Eq (Probe.types v) (Probe.types v) := by
  unfold Probe.types
  split
  · refine column_collectors.row_bind ?_
    rintro events _ rfl
    refine column_lists.row_bind ?_
    rintro items _ rfl
    refine (matches_fieldsNamed (by simp [capturedKey]) _
      #[]).bind fun found => ?_
    exact (column_lists.alloc rfl).bind fun _ =>
      matches_pure rfl
  · exact matches_typeError

------------------------------------------------------------
-- Handing Over
------------------------------------------------------------

theorem optional_client
    (code : Option Code) :
    (V.optional code).map .client =
      (code.map Closure.client).map V.closure := by
  cases code <;> rfl

/- The options of a task describe a veiled emitter. -/
theorem emitter_options
    (options : TaskOptions Program) :
    (V.options options).emitter = V.emitter options.emitter := by
  rcases options with ⟨taskId, context, _ | listener⟩ <;>
    cases hListeners : V.listeners <;>
      simp [TaskOptions.emitter, Veil.options, Emitter.new,
        Veil.emitter, Veil.optional, hListeners, Veil.closure]
  rfl

------------------------------------------------------------
-- Requests
------------------------------------------------------------

theorem matches_texts
    (vs : List Value) :
    V.Matches Eq (vs.mapM text) (vs.mapM text) := by
  induction vs with
  | nil => exact matches_pure rfl
  | cons v rest ih =>
      rw [List.mapM_cons]
      exact (matches_text v).bind fun _ =>
        ih.bind fun _ => matches_pure rfl

/- What is logged looks the same, whatever it is. -/
theorem matches_log
    (v : Value) :
    V.Matches Eq (do logged (← picture v))
      (do logged (← picture v)) :=
  (matches_picture v).bindOf (fun d => ⟨d, rfl⟩)
    fun _ _ h => matches_logged h

theorem matches_logFields
    (fields : Fields) :
    V.Matches Eq
      (do logged (.record (← pictureFields fields)))
      (do logged (.record (← pictureFields fields))) :=
  (matches_pictureFields fields).bindOf (fun fs => ⟨fs, rfl⟩)
    fun _ _ h => matches_logged (shade_record h)

theorem matches_perform
    (hc : V.Serves c c')
    (r : Request Program) :
    V.Matches Eq (r.perform c) ((V.request r).perform c') := by
  cases r with
  | newRecord fields => exact matches_newRecord fields
  | field v key => exact matches_inspectedField v key
  | hasField v key =>
      exact (matches_text key).bind fun name =>
        (matches_hasField v name).bind fun _ => matches_pure rfl
  | newList items =>
      exact (column_lists.alloc rfl).bind fun _ =>
        matches_pure rfl
  | push l v =>
      refine (matches_listOf l).bind fun l => ?_
      refine (column_lists.alter l ?_).quietly
      rintro _ _ rfl
      rfl
  | length l => exact matches_field l (by simp [capturedKey])
  | text parts =>
      exact (matches_texts parts).bind fun _ => matches_pure rfl
  | newFunction code => exact matches_newFunction (.client code)
  | call f args => exact matches_callValue hc f args
  | readGlobal name =>
      refine (matches_text name).bind fun name => ?_
      refine matches_read fun s t hSees => ?_
      rw [hSees.globals]
  | writeGlobal name v =>
      refine (matches_text name).bind fun name => ?_
      refine Matches.bind ?_ fun _ => matches_pure rfl
      exact matches_modify (fun _ => .of_still ⟨rfl, rfl, rfl, rfl⟩)
        fun _ _ hSees =>
          { hSees with globals := by rw [hSees.globals] }
  | log v => exact (matches_log v).quietly
  | logFields fields => exact (matches_logFields fields).quietly
  | newError message cause =>
      exact matches_newPlain message cause
  | defineClass tag message =>
      simp only [Veil.request, Request.perform, optional_client]
      exact matches_defineClass tag _
  | newTagged cls props options =>
      exact matches_construct hc cls props options
  | unwrap result => exact matches_unwrap result
  | newMachine assertions => exact matches_newMachine assertions
  | allocate m =>
      exact (matches_machineOf m).bind fun m =>
        (matches_allocate m).bind fun _ => matches_pure rfl
  | install m code =>
      exact (matches_machineOf m).bind fun m =>
        (matches_install m (.client code)).bind fun _ =>
          matches_pure rfl
  | replace m l code =>
      exact (matches_machineOf m).bind fun m =>
        (matches_replace m l (.client code)).quietly
  | jump m l =>
      exact (matches_machineOf m).bind fun m =>
        matches_jump hc m l
  | forge id m => exact matches_forge id m
  | labelCount m => exact matches_labelCount m
  | newStep step => exact matches_newStep step
  | bind m source rest =>
      exact matches_builderBind hc m source (.client rest)
  | bindDetached m source rest =>
      exact matches_bindDetached hc m source (.client rest)
  | awaitResult m awaiter rest =>
      exact matches_awaitResult hc m awaiter (.client rest)
  | sequence m first rest =>
      exact (matches_builderMachine m).bind fun m =>
        matches_buildSequence hc m first (.client rest)
  | whileLoop m condition body =>
      exact (matches_builderMachine m).bind fun m =>
        matches_buildLoop hc m (.client condition)
          (.client body)
  | forLoop m items body =>
      exact (matches_builderMachine m).bind fun m =>
        matches_buildIteration hc m items (.client body)
  | tryWith m code handler =>
      exact (matches_builderMachine m).bind fun m =>
        matches_buildRecovery hc m (.client code)
          (.client handler)
  | tryFinally m code compensation =>
      exact (matches_builderMachine m).bind fun m =>
        matches_buildCleanup hc m (.client code)
          (.client compensation)
  | «using» m resource body =>
      exact (matches_builderMachine m).bind fun m =>
        matches_use hc m resource (.client body)
  | run m code options =>
      simp only [Veil.request, Request.perform, emitter_options]
      exact matches_runTask hc m (.client code) options.emitter
  | task captured assertions code options =>
      simp only [Veil.request, Request.perform, emitter_options]
      exact matches_startTask hc captured assertions
        (.client code) options.emitter
  | newBuilder m captured =>
      exact matches_newBuilder m fun _ => rfl
  | requireBuilder b => exact (matches_require b).quietly
  | returnFrom b source =>
      exact (matches_require b).bind fun _ =>
        matches_returnFrom hc b source
  | newFuture => exact matches_newDeferredFuture
  | newPromise => exact matches_newDeferredPromise
  | settle d outcome => exact matches_settleDeferred hc d outcome
  | settledFuture outcome =>
      exact (matches_settled outcome).bind fun _ =>
        matches_pure rfl
  | futureOf source => exact matches_ofSource source
  | awaiterOf source => exact matches_ofValue hc source
  | configureAwait source captured =>
      exact matches_configure hc source captured
  | isCompleted awaiter => exact matches_completed hc awaiter
  | getResult awaiter => exact matches_result hc awaiter
  | onCompleted awaiter code =>
      exact (matches_register hc awaiter (.client code)).quietly
  | react source onFulfilled onRejected =>
      simp only [Veil.request, Request.perform, optional_client]
      exact matches_reactTo hc source _ _
  | isAwaitable v =>
      exact (matches_isAwaitable v).bind fun _ =>
        matches_pure rfl
  | isConfigurable v =>
      exact (matches_isConfigurable v).bind fun _ =>
        matches_pure rfl
  | toAwaitable v => exact matches_toAwaitable v
  | customAwaitable completed result register =>
      exact matches_customAwaitable
        ⟨.client completed, .client result, .client register⟩
  | configurable base configure =>
      exact matches_configurable base (.client configure)
  | thenable code =>
      exact (column_thenables.alloc rfl).bind fun _ =>
        matches_pure rfl
  | recordingContext name => exact matches_recording name
  | customContext name code =>
      exact matches_customContext name (.client code)
  | post context f => exact (matches_post hc context f).quietly
  | runInContext context code =>
      exact (hc.call (.client code) []).elsewhere context
  | currentContext => exact matches_ambient
  | resumeOn context code =>
      exact matches_newFunction (.resumption context (.client code))
  | controlled => exact matches_newControlled
  | settleControlled v outcome =>
      exact matches_complete hc v outcome
  | stats probe => exact matches_stats probe
  | settleLater outcome => exact matches_later outcome
  | countingIterable items =>
      exact (column_iterables.alloc rfl).bind fun _ =>
        matches_pure rfl
  | customIterable start next close =>
      simp only [Veil.request, Request.perform, optional_client]
      exact (column_iterables.alloc rfl).bind fun _ =>
        matches_pure rfl
  | drain items limit =>
      cases limit with
      | int n => exact matches_drain hc items n.toNat
      | _ => exact matches_typeError
  | trackedResource name logged =>
      exact matches_trackedResource name _
  | customResource code =>
      exact matches_customResource (.client code)
  | dispose resource => exact (matches_dispose hc resource).quietly
  | newCollector =>
      exact (column_lists.alloc rfl).bind fun _ =>
        (column_collectors.alloc rfl).bind fun _ =>
          matches_pure rfl
  | collect v event => exact matches_collect v event
  | eventTypes v => exact matches_types v

------------------------------------------------------------
-- Programs
------------------------------------------------------------

/- Client code runs alike, from its first request to its end. -/
theorem matches_program
    (hc : V.Serves c c') :
    ∀ p : Program,
      V.Matches Eq (p.run c) ((V.program p).run c')
  | .done _ => matches_pure rfl
  | .fail e => matches_raise e
  | .perform r k =>
      (matches_perform hc r).bind fun v =>
        matches_program hc (k v)
  | .attempt body k =>
      (matches_program hc body).attempt.bind fun outcome =>
        matches_program hc (k outcome)

/- Recording leaves no trace but in the log. -/
theorem murmurs_perform
    {r : Request Program}
    (h : r.Records = true) :
    Murmurs (r.perform c) := by
  cases r with
  | newRecord fields => exact murmurs_newRecord fields
  | field v key =>
      exact (murmurs_text key).bind fun name =>
        (murmurs_inspecting v name).bind fun _ =>
          murmurs_field v name
  | hasField v key =>
      exact (murmurs_text key).bind fun name =>
        (murmurs_hasField v name).bind fun _ => murmurs_pure _
  | length l => exact murmurs_field l "length"
  | text parts =>
      exact (murmurs_texts parts).bind fun _ => murmurs_pure _
  | readGlobal name =>
      exact (murmurs_text name).bind fun _ =>
        murmurs_get_bind fun _ => murmurs_pure _
  | log v =>
      have hPicture : Murmurs (picture v) :=
        murmurs_get_bind fun _ => murmurs_pure _
      exact (hPicture.bind murmurs_logged).quietly
  | logFields fields =>
      have hPicture : Murmurs (pictureFields fields) :=
        murmurs_get_bind fun _ => murmurs_pure _
      exact (hPicture.bind fun _ => murmurs_logged _).quietly
  | newError message cause =>
      exact murmurs_newPlain message cause
  | unwrap result => exact murmurs_unwrap result
  | currentContext =>
      exact murmurs_get_bind fun _ => murmurs_pure _
  | _ => simp [Request.Records] at h

theorem murmurs_program
    {p : Program}
    (h : p.Records) :
    Murmurs (p.run c) := by
  induction h with
  | done v => exact murmurs_pure v
  | fail e => exact murmurs_raise e
  | perform h _ ih =>
      exact (murmurs_perform h).bind fun v => ih v
  | attempt _ _ ihBody ih =>
      exact ihBody.attempt.bind fun outcome => ih outcome

------------------------------------------------------------
-- Closures
------------------------------------------------------------

/- Everything that can be called does the same when it is. -/
theorem matches_enter
    (hc : V.Serves c c')
    (closure : Closure)
    (args : List Value) :
    V.Matches Eq (closure.enter c args)
      ((V.closure closure).enter c' args) := by
  cases closure with
  | client code =>
      exact matches_calling.bind fun _ =>
        matches_program hc (code args)
  | applied f given => exact hc.call f given
  | received awaiter rest =>
      exact matches_enterReceived hc awaiter rest
  | finished => exact matches_newStep _
  | jump m l => exact matches_jump hc m (.label l)
  | sequenceEntry i => exact matches_enterSequence hc i
  | sequenceResume i resume =>
      exact matches_resumeSequence hc i resume
  | loopHead m entry condition body =>
      exact matches_enterLoop hc m entry condition body
  | recoveryEntry i => exact matches_enterRecovery hc i
  | recoveryOutcome i awaiter =>
      exact matches_recoveryOutcome hc i awaiter
  | cleanupEntry i => exact matches_enterCleanup hc i
  | cleanupOutcome i awaiter =>
      exact matches_cleanupOutcome hc i awaiter
  | release resource => exact matches_release hc resource
  | cursorLoop m r body => exact matches_enterIteration hc m r body
  | cursorAdvance r => exact matches_advanceCursor hc r
  | cursorItem r body =>
      exact (matches_currentItem r).bind fun v =>
        hc.call body [v]
  | cursorClose r => exact (matches_closeCursor hc r).quietly
  | driverResume d callback =>
      exact (matches_resumeDriver hc d callback _).quietly
  | driverOutcome d awaiter =>
      exact (matches_concludeDriver hc d awaiter).quietly
  | resumption context callback =>
      exact matches_resume hc context callback
  | posted entered context callback =>
      exact matches_enterContext hc entered context callback
  | bridge f p => exact matches_cross f p
  | settleFuture f fulfil =>
      exact (matches_settle hc f _).bind fun _ =>
        matches_pure rfl
  | settlePromise p called fulfil =>
      exact matches_enterSettle p called fulfil _

/- Calls do the same, to any depth. -/
theorem serves_ofDepth
    {rounds : Nat}
    (h : V.contexts = true → rounds ≠ 0)
    (depth : Nat) :
    V.Serves (Caller.ofDepth rounds depth)
      (Caller.ofDepth rounds depth) := by
  induction depth with
  | zero =>
      exact
        { rounds := rfl
          ready := h
          call := fun _ _ =>
            ⟨fun _ => ensures_exhaust, fun _ => ensures_exhaust⟩
          records := fun _ _ _ _ _ => ensures_exhaust }
  | succ depth ih =>
      exact
        { rounds := rfl
          ready := h
          call := fun closure args => matches_enter ih closure args
          records := fun _ _ h =>
            murmurs_calling.bind fun _ => murmurs_program h }

end Veil

end Resumption

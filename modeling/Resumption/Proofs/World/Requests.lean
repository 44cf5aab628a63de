import Resumption.Proofs.World.Library
import Resumption.Evaluate

/-
  What client code asks for keeps every world that hosts
  futures, if the code that it hands over may be stored.

  Requests that build labels, constructs and tasks are left
  to each world: what they build is part of its invariant.

  Main declarations:
    * `Request.codes`, `Request.Builds`
    * `World.Hosts.keeps_perform`
    * `World.keeps_run`
-/

namespace Resumption

------------------------------------------------------------
-- Requests
------------------------------------------------------------

namespace Request

/- The client code that a request hands over. -/
def codes : Request Program → List Code
  | .newFunction code => [code]
  | .defineClass _ message => message.toList
  | .install _ code => [code]
  | .replace _ _ code => [code]
  | .bind _ _ rest => [rest]
  | .bindDetached _ _ rest => [rest]
  | .awaitResult _ _ rest => [rest]
  | .sequence _ _ rest => [rest]
  | .whileLoop _ condition body => [condition, body]
  | .forLoop _ _ body => [body]
  | .tryWith _ code handler => [code, handler]
  | .tryFinally _ code compensation => [code, compensation]
  | .using _ _ body => [body]
  | .run _ code options => code :: options.listener.toList
  | .task _ _ code options => code :: options.listener.toList
  | .onCompleted _ code => [code]
  | .react _ onFulfilled onRejected =>
      onFulfilled.toList ++ onRejected.toList
  | .customAwaitable completed result register =>
      [completed, result, register]
  | .configurable _ configure => [configure]
  | .thenable code => [code]
  | .customContext _ code => [code]
  | .runInContext _ code => [code]
  | .resumeOn _ code => [code]
  | .customIterable start next close =>
      [start, next] ++ close.toList
  | .customResource code => [code]
  | _ => []

/- Requests that make or enter labels, constructs and tasks. -/
def Builds : Request Program → Prop
  | .newMachine _ => True
  | .allocate _ => True
  | .install _ _ => True
  | .replace _ _ _ => True
  | .jump _ _ => True
  | .forge _ _ => True
  | .bind _ _ _ => True
  | .bindDetached _ _ _ => True
  | .awaitResult _ _ _ => True
  | .sequence _ _ _ => True
  | .whileLoop _ _ _ => True
  | .forLoop _ _ _ => True
  | .tryWith _ _ _ => True
  | .tryFinally _ _ _ => True
  | .using _ _ _ => True
  | .run _ _ _ => True
  | .task _ _ _ _ => True
  | .newBuilder _ _ => True
  | .returnFrom _ _ => True
  | _ => False

end Request

namespace World

variable {W : World}
variable {s : Session}
variable {caller : Caller}

------------------------------------------------------------
-- Texts and Machines
------------------------------------------------------------

private theorem keeps_texts
    (hs : W.Sound s)
    (parts : List Value) :
    W.Keeps (parts.mapM Run.text) s := by
  induction parts generalizing s with
  | nil => exact keeps_pure.mpr (.refl hs)
  | cons v rest ih =>
      rw [List.mapM_cons]
      refine (keeps_text hs v).bind fun _ s₁ h₁ => ?_
      refine (ih h₁.sound).bind fun _ s₂ h₂ => ?_
      exact keeps_pure.mpr (.refl h₂.sound)

theorem keeps_builderMachine
    (hs : W.Sound s)
    (m : Value) :
    W.Keeps (Builder.machineOf m) s := by
  unfold Builder.machineOf
  split
  · exact keeps_row_bind.mpr (keeps_pure.mpr (.refl hs))
  · exact keeps_pure.mpr (.refl hs)

theorem keeps_require
    (hs : W.Sound s)
    (b : Value) :
    W.Keeps (Builder.require b) s := by
  unfold Builder.require
  split
  · exact keeps_pure.mpr (.refl hs)
  · exact keeps_typeError hs

/- The closures of optional code are that code. -/
private theorem fits_optional
    {fit : Closure → Prop}
    {code : Option Code}
    (h : ∀ c ∈ code.toList, fit (.client c)) :
    ∀ c ∈ code.map Closure.client, fit c := by
  intro c hc
  rcases Option.map_eq_some_iff.mp hc with ⟨code', hCode, rfl⟩
  exact h code' (Option.mem_toList.mpr hCode)

------------------------------------------------------------
-- Requests of the Library
------------------------------------------------------------

/- A request that builds nothing keeps the world. -/
theorem Hosts.keeps_perform
    (hW : W.Hosts caller)
    (hc : W.Serves caller)
    (hs : W.Sound s)
    {request : Request Program}
    (hPlain : ¬ request.Builds)
    (hCodes : ∀ code ∈ request.codes,
      W.fit s (.client code)) :
    W.Keeps (request.perform caller) s := by
  cases request with
  | newRecord fields => exact keeps_newRecord hs fields
  | field v key =>
      refine (keeps_text hs key).bind fun _ s₁ h₁ => ?_
      exact (keeps_inspecting h₁.sound _ _).bind fun _ _ h₂ =>
        keeps_field h₂.sound _ _
  | hasField v key =>
      refine (keeps_text hs key).bind fun _ s₁ h₁ => ?_
      exact (keeps_hasField h₁.sound _ _).bind fun _ _ h₂ =>
        keeps_pure.mpr (.refl h₂.sound)
  | newList items =>
      exact (keeps_newList hs _).bind fun _ _ h₁ =>
        keeps_pure.mpr (.refl h₁.sound)
  | push l v =>
      exact (keeps_listOf hs l).bind fun _ _ h₁ =>
        Keeps.quietly (keeps_alterList h₁.sound _ _)
  | length l => exact keeps_field hs _ _
  | text parts =>
      exact (keeps_texts hs parts).bind fun _ _ h₁ =>
        keeps_pure.mpr (.refl h₁.sound)
  | newFunction code =>
      exact keeps_newFunction hs (hCodes code (by
        simp [Request.codes]))
  | call f args => exact keeps_callValue hc hs _ _
  | readGlobal name =>
      refine (keeps_text hs name).bind fun _ s₁ h₁ => ?_
      exact keeps_get_bind.mpr (keeps_pure.mpr (.refl h₁.sound))
  | writeGlobal name v =>
      refine (keeps_text hs name).bind fun _ s₁ h₁ => ?_
      refine Keeps.bind (keeps_modify
        (h₁.sound.moves_of_kernel rfl
          { h₁.sound.stocked with }))
        fun _ s₂ h₂ => keeps_pure.mpr (.refl h₂.sound)
  | log v =>
      exact (keeps_picture hs v).bind fun _ _ h₁ =>
        Keeps.quietly (keeps_logged h₁.sound _)
  | logFields fields =>
      exact (keeps_pictureFields hs fields).bind fun _ _ h₁ =>
        Keeps.quietly (keeps_logged h₁.sound _)
  | newError message cause => exact keeps_newPlain hs _ _
  | defineClass tag message =>
      exact keeps_defineClass hs tag (fits_optional hCodes)
  | newTagged cls props options =>
      exact keeps_construct hc hs _ _ _
  | unwrap result => exact keeps_unwrap hs result
  | labelCount m =>
      exact (keeps_builderMachine hs m).bind fun _ _ h₁ =>
        keeps_field h₁.sound _ _
  | newStep step => exact keeps_newStep hs step
  | requireBuilder b => exact Keeps.quietly (keeps_require hs b)
  | newFuture => exact hW.keeps_newDeferredFuture hs
  | newPromise => exact hW.keeps_newDeferredPromise hs
  | settle d outcome => exact hW.keeps_settleDeferred hs d outcome
  | settledFuture outcome =>
      exact (hW.keeps_settled hs outcome).bind fun _ _ h₁ =>
        keeps_pure.mpr (.refl h₁.sound)
  | futureOf source => exact hW.keeps_ofSource hs source
  | awaiterOf source => exact hW.keeps_awaiterOf hc hs source
  | configureAwait source captured =>
      exact keeps_configure hc hs source captured
  | isCompleted awaiter => exact hW.keeps_completed hc hs awaiter
  | getResult awaiter => exact hW.keeps_result hc hs awaiter
  | onCompleted awaiter code =>
      exact Keeps.quietly (hW.keeps_register hc hs awaiter
        (hCodes code (by simp [Request.codes])))
  | react source onFulfilled onRejected =>
      exact hW.keeps_reactTo hc hs source
        (fits_optional fun c hm => hCodes c
          (List.mem_append_left _ hm))
        (fits_optional fun c hm => hCodes c
          (List.mem_append_right _ hm))
  | isAwaitable v =>
      exact (keeps_isAwaitable hs v).bind fun _ _ h₁ =>
        keeps_pure.mpr (.refl h₁.sound)
  | isConfigurable v =>
      exact (keeps_isConfigurable hs v).bind fun _ _ h₁ =>
        keeps_pure.mpr (.refl h₁.sound)
  | toAwaitable v => exact hW.keeps_toAwaitable hs v
  | customAwaitable completed result register =>
      have hFits : AwaitableCell.Fits (W.fit s) (.custom
          ⟨.client completed, .client result,
           .client register⟩) := by
        refine ⟨hCodes _ ?_, hCodes _ ?_, hCodes _ ?_⟩ <;>
          simp [Request.codes]
      exact (keeps_newAwaitable hs hFits).bind fun _ _ h₁ =>
        keeps_pure.mpr (.refl h₁.sound)
  | configurable base configure =>
      have hFits : AwaitableCell.Fits (W.fit s)
          (.configurable base (.client configure)) :=
        hCodes configure (by simp [Request.codes])
      exact (keeps_newAwaitable hs hFits).bind fun _ _ h₁ =>
        keeps_pure.mpr (.refl h₁.sound)
  | thenable code =>
      refine Keeps.bind (keeps_alloc ?_) fun _ _ h₁ =>
        keeps_pure.mpr (.refl h₁.sound)
      refine hs.moves_of_kernel rfl
        { hs.stocked with thenables := fun r => ?_ }
      simp only [Table.thenables, getD_push]
      split
      · exact hCodes code (by simp [Request.codes])
      · exact hs.stocked.thenables r
  | recordingContext name =>
      exact Keeps.bind (keeps_newContext hs name trivial)
        fun _ _ h₁ => keeps_pure.mpr (.refl h₁.sound)
  | customContext name code =>
      have hFits : Posting.Fits (W.fit s)
          (.custom (.client code)) :=
        hCodes code (by simp [Request.codes])
      exact (keeps_newContext hs name hFits).bind fun _ _ h₁ =>
        keeps_pure.mpr (.refl h₁.sound)
  | post context f => exact Keeps.quietly (keeps_post hc hs _ _)
  | runInContext context code =>
      refine Keeps.elsewhere hs fun s₁ h₁ _ => ?_
      exact hc.call h₁.sound (h₁.fit (hCodes code (by
        simp [Request.codes]))) _
  | currentContext =>
      exact keeps_get_bind.mpr (keeps_pure.mpr (.refl hs))
  | resumeOn context code =>
      have hFit : W.fit s (.client code) :=
        hCodes code (by simp [Request.codes])
      exact keeps_newFunction hs (W.fit_resumption context hFit)
  | controlled => exact hW.keeps_controlled hs
  | settleControlled c outcome =>
      exact hW.keeps_complete hs c outcome
  | stats probe => exact keeps_stats hs probe
  | settleLater outcome => exact hW.keeps_later hs outcome
  | countingIterable items =>
      exact Keeps.bind (keeps_newIterable hs trivial)
        fun _ _ h₁ => keeps_pure.mpr (.refl h₁.sound)
  | customIterable start next close =>
      have hFits : IterableCell.Fits (W.fit s)
          (.custom (.client start) (.client next)
            (close.map .client)) := by
        refine ⟨hCodes start ?_, hCodes next ?_,
          fits_optional fun c hm => hCodes c ?_⟩
        · simp [Request.codes]
        · simp [Request.codes]
        · exact List.mem_append_right _ hm
      exact (keeps_newIterable hs hFits).bind fun _ _ h₁ =>
        keeps_pure.mpr (.refl h₁.sound)
  | drain items limit =>
      cases limit with
      | int n => exact keeps_drain hc hs items n.toNat
      | _ => exact keeps_typeError hs
  | trackedResource name logged =>
      exact Keeps.bind (keeps_newResource hs trivial)
        fun _ _ h₁ => keeps_pure.mpr (.refl h₁.sound)
  | customResource code =>
      have hFits : ResourceCell.Fits (W.fit s)
          (.custom (.client code)) :=
        hCodes code (by simp [Request.codes])
      exact (keeps_newResource hs hFits).bind fun _ _ h₁ =>
        keeps_pure.mpr (.refl h₁.sound)
  | dispose resource =>
      exact Keeps.quietly (keeps_dispose hc hs resource)
  | newCollector => exact keeps_collector hs
  | collect c event => exact keeps_collect hs c event
  | eventTypes c => exact keeps_types hs c
  | _ => exact absurd trivial hPlain

end World

end Resumption

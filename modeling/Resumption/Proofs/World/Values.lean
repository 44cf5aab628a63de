import Resumption.Proofs.World
import Resumption.Picture
import Resumption.Context

/-
  Values, errors, functions and contexts keep every world:
  what is done with them changes tables that no world looks
  at, or calls closures that may be called.

  Main declarations:
    * `World.keeps_field`, `World.keeps_defect`
    * `World.Serves.call`
    * `World.keeps_post`, `World.keeps_resume`
-/

namespace Resumption

namespace World

variable {W : World}
variable {s s' : Session}
variable {α β : Type}

------------------------------------------------------------
-- Steps
------------------------------------------------------------

theorem keeps_row_bind
    [Inhabited α]
    {t : Table α}
    {r : Ref}
    {f : α → Run β} :
    W.Keeps (t.row r >>= f) s ↔
      W.Keeps (f ((t.rows s).getD r default)) s :=
  Iff.rfl

theorem keeps_get_bind
    {f : Session → Run β} :
    W.Keeps ((get : Run Session) >>= f) s ↔
      W.Keeps (f s) s :=
  Iff.rfl

/- A change of the session that moves along. -/
theorem keeps_modify
    {g : Session → Session}
    (h : W.Moves s (g s)) :
    W.Keeps (modify g : Run PUnit) s :=
  Run.ensures_modify.mpr h

/- A new row, if it moves along. -/
theorem keeps_alloc
    {t : Table α}
    {row : α}
    (h : W.Moves s (t.change (·.push row) s)) :
    W.Keeps (t.alloc row) s :=
  Run.ensures_alloc.mpr h

/- A change of a row, if it moves along. -/
theorem keeps_alter
    {t : Table α}
    {r : Ref}
    {g : α → α}
    (h : W.Moves s (t.change (·.modify r g) s)) :
    W.Keeps (t.alter r g) s :=
  Run.ensures_alter.mpr h

/- A new object changes nothing but the count of objects. -/
theorem keeps_freshStamp
    (hs : W.Sound s) :
    W.Keeps Run.freshStamp s :=
  Run.ensures_modifyGet.mpr
    (hs.moves_of_kernel rfl { hs.stocked with })

theorem keeps_eventStamp
    (hs : W.Sound s) :
    W.Keeps Run.eventStamp s :=
  Run.ensures_modifyGet.mpr
    (hs.moves_of_kernel rfl { hs.stocked with })

theorem keeps_newRecord
    (hs : W.Sound s)
    (fields : Fields) :
    W.Keeps (Run.newRecord fields) s :=
  (keeps_freshStamp hs).bind fun _ _ h =>
    keeps_pure.mpr (.refl h.sound)

theorem keeps_newStep
    (hs : W.Sound s)
    (step : StepView) :
    W.Keeps (Run.newStep step) s :=
  keeps_newRecord hs _

theorem keeps_newTypeError
    (hs : W.Sound s) :
    W.Keeps Run.newTypeError s :=
  (keeps_freshStamp hs).bind fun _ _ h =>
    keeps_pure.mpr (.refl h.sound)

theorem keeps_typeError
    (hs : W.Sound s) :
    W.Keeps (Run.typeError : Run α) s :=
  (keeps_newTypeError hs).bind fun _ _ h =>
    keeps_raise.mpr (.refl h.sound)

theorem keeps_logged
    (hs : W.Sound s)
    (d : Datum) :
    W.Keeps (Run.logged d) s :=
  keeps_modify (hs.moves_of_kernel (s.kernel_logging d)
    { hs.stocked with })

/- Most of the past is no part of a world. -/
theorem keeps_chronicle
    {i : Incident}
    (hs : W.Sound s)
    (h : i.pivotal = false) :
    W.Keeps (Run.chronicle i) s :=
  keeps_modify (hs.moves_of_kernel (s.kernel_withIncident h)
    { hs.stocked with })

theorem keeps_calling
    (hs : W.Sound s) :
    W.Keeps (modify Run.calling : Run PUnit) s :=
  keeps_modify (hs.moves_of_kernel s.kernel_calling
    { hs.stocked with })

theorem keeps_inspecting
    (hs : W.Sound s)
    (v : Value)
    (key : String) :
    W.Keeps (Run.inspecting v key) s := by
  unfold Run.inspecting
  split
  · split
    · exact keeps_chronicle hs rfl
    · exact keeps_pure.mpr (.refl hs)
  · exact keeps_pure.mpr (.refl hs)

/- A job may be queued if its handlers may be called. -/
theorem keeps_enqueue
    (hs : W.Sound s)
    {job : Job}
    (hJob : job.Fits (W.fit s)) :
    W.Keeps (Run.enqueue job) s := by
  refine keeps_modify (hs.moves_of_kernel rfl
    { hs.stocked with microtasks := ?_ })
  intro j hj
  rcases List.mem_append.mp hj with hOld | hNew
  · exact hs.stocked.microtasks j hOld
  · rw [List.mem_singleton.mp hNew]
    exact hJob

------------------------------------------------------------
-- Fields and Texts
------------------------------------------------------------

theorem keeps_field
    (hs : W.Sound s)
    (v : Value)
    (key : String) :
    W.Keeps (Run.field v key) s := by
  unfold Run.field
  split
  · exact keeps_typeError hs
  · exact keeps_get_bind.mpr (keeps_pure.mpr (.refl hs))

theorem keeps_hasField
    (hs : W.Sound s)
    (v : Value)
    (key : String) :
    W.Keeps (Run.hasField v key) s := by
  unfold Run.hasField
  split
  · exact keeps_get_bind.mpr (keeps_pure.mpr (.refl hs))
  · exact keeps_typeError hs

theorem keeps_text
    (hs : W.Sound s)
    (v : Value) :
    W.Keeps (Run.text v) s :=
  keeps_get_bind.mpr (keeps_pure.mpr (.refl hs))

theorem keeps_unwrap
    (hs : W.Sound s)
    (result : Value) :
    W.Keeps (Run.unwrap result) s := by
  unfold Run.unwrap
  refine (keeps_field hs _ _).bind fun ok s₁ h₁ => ?_
  split
  · exact keeps_field h₁.sound _ _
  · exact (keeps_field h₁.sound _ _).bind fun _ _ h₂ =>
      keeps_raise.mpr (.refl h₂.sound)

theorem keeps_itemsOf
    (hs : W.Sound s)
    (v : Value) :
    W.Keeps (Run.itemsOf v) s := by
  unfold Run.itemsOf
  split
  · exact keeps_typeError hs
  · exact keeps_get_bind.mpr (keeps_pure.mpr (.refl hs))

theorem keeps_listOf
    (hs : W.Sound s)
    (l : Value) :
    W.Keeps (Run.listOf l) s := by
  unfold Run.listOf
  split
  · exact keeps_pure.mpr (.refl hs)
  · exact keeps_typeError hs

theorem keeps_picture
    (hs : W.Sound s)
    (v : Value) :
    W.Keeps (Run.picture v) s :=
  keeps_get_bind.mpr (keeps_pure.mpr (.refl hs))

theorem keeps_pictureFields
    (hs : W.Sound s)
    (fields : Fields) :
    W.Keeps (Run.pictureFields fields) s :=
  keeps_get_bind.mpr (keeps_pure.mpr (.refl hs))

------------------------------------------------------------
-- Errors
------------------------------------------------------------

theorem keeps_newDefect
    (hs : W.Sound s)
    (d : Defect) :
    W.Keeps (Run.newDefect d) s := by
  unfold Run.newDefect
  refine (keeps_newRecord hs _).bind fun props s₁ h₁ => ?_
  refine keeps_get_bind.mpr ?_
  refine (keeps_freshStamp h₁.sound).bind fun _ s₂ h₂ => ?_
  exact keeps_pure.mpr (.refl h₂.sound)

theorem keeps_defect
    (hs : W.Sound s)
    (d : Defect) :
    W.Keeps (Run.defect d : Run α) s :=
  (keeps_newDefect hs d).bind fun _ _ h =>
    keeps_raise.mpr (.refl h.sound)

theorem keeps_messageText
    (hs : W.Sound s)
    (v : Value) :
    W.Keeps (Run.messageText v) s := by
  unfold Run.messageText
  split
  · exact keeps_pure.mpr (.refl hs)
  · exact keeps_text hs v

theorem keeps_newPlain
    (hs : W.Sound s)
    (message : Value)
    (cause : Option Value) :
    W.Keeps (Run.newPlain message cause) s := by
  unfold Run.newPlain
  refine (keeps_messageText hs _).bind fun _ s₁ h₁ => ?_
  refine (keeps_freshStamp h₁.sound).bind fun _ s₂ h₂ => ?_
  exact keeps_pure.mpr (.refl h₂.sound)

theorem keeps_causeOf
    (hs : W.Sound s)
    (options : Value) :
    W.Keeps (Run.causeOf options) s := by
  unfold Run.causeOf
  split
  · exact keeps_pure.mpr (.refl hs)
  · refine (keeps_field hs _ _).bind fun cause s₁ h₁ => ?_
    split <;> exact keeps_pure.mpr (.refl h₁.sound)

section Calls

variable {caller : Caller}

/- A call of what may be called keeps the world. -/
theorem Serves.keeps
    (hc : W.Serves caller)
    (hs : W.Sound s)
    {c : Closure}
    {args : List Value}
    (hCalls : W.calls s c args) :
    W.Keeps (caller.call c args) s :=
  Run.Ensures.mono (hc c args s hs hCalls) fun _ _ h => h.1

/- A stored closure is served. -/
theorem Serves.call
    (hc : W.Serves caller)
    (hs : W.Sound s)
    {c : Closure}
    (hFit : W.fit s c)
    (args : List Value) :
    W.Keeps (caller.call c args) s :=
  hc.keeps hs (W.calls_of_fit args hFit)

theorem keeps_taggedMessage
    (hc : W.Serves caller)
    (hs : W.Sound s)
    (cls : ErrorClass)
    (props : Value) :
    W.Keeps (Run.taggedMessage caller cls props) s := by
  unfold Run.taggedMessage
  split
  · next c =>
      refine keeps_row_bind.mpr ?_
      split
      · exact keeps_row_bind.mpr (keeps_messageText hs _)
      · next code hCode =>
          have hFit : W.fit s code :=
            hs.stocked.classes c code hCode
          exact (hc.call hs hFit _).bind fun _ _ h₁ =>
            keeps_messageText h₁.sound _
  · split
    · exact keeps_typeError hs
    · exact keeps_get_bind.mpr (keeps_pure.mpr (.refl hs))

theorem keeps_newTagged
    (hc : W.Serves caller)
    (hs : W.Sound s)
    (cls : ErrorClass)
    (props options : Value) :
    W.Keeps (Run.newTagged caller cls props options) s := by
  unfold Run.newTagged
  refine (keeps_taggedMessage hc hs _ _).bind fun _ s₁ h₁ => ?_
  refine (keeps_causeOf h₁.sound _).bind fun _ s₂ h₂ => ?_
  refine (keeps_freshStamp h₂.sound).bind fun _ s₃ h₃ => ?_
  exact keeps_get_bind.mpr (keeps_pure.mpr (.refl h₃.sound))

theorem keeps_construct
    (hc : W.Serves caller)
    (hs : W.Sound s)
    (cls props options : Value) :
    W.Keeps (Run.construct caller cls props options) s := by
  unfold Run.construct
  split
  · exact keeps_newTagged hc hs _ _ _
  · exact keeps_typeError hs

theorem keeps_defineClass
    (hs : W.Sound s)
    (tag : Value)
    {message : Option Closure}
    (hFit : ∀ c ∈ message, W.fit s c) :
    W.Keeps (Run.defineClass tag message) s := by
  unfold Run.defineClass
  refine Keeps.bind (keeps_alloc ?_) fun _ s₁ h₁ =>
    keeps_pure.mpr (.refl h₁.sound)
  refine hs.moves_of_kernel rfl { hs.stocked with classes := ?_ }
  intro r c
  simp only [Table.classes, getD_push]
  split
  · exact hFit c
  · exact hs.stocked.classes r c

------------------------------------------------------------
-- Functions and Contexts
------------------------------------------------------------

theorem keeps_newFunction
    (hs : W.Sound s)
    {c : Closure}
    (hFit : W.fit s c) :
    W.Keeps (Run.newFunction c) s := by
  unfold Run.newFunction
  refine Keeps.bind (keeps_alloc ?_) fun _ s₁ h₁ =>
    keeps_pure.mpr (.refl h₁.sound)
  refine hs.moves_of_kernel rfl
    { hs.stocked with functions := ?_ }
  intro r
  simp only [Table.functions, getD_push]
  split
  · exact hFit
  · exact hs.stocked.functions r

theorem keeps_callValue
    (hc : W.Serves caller)
    (hs : W.Sound s)
    (f : Value)
    (args : List Value) :
    W.Keeps (Run.callValue caller f args) s := by
  unfold Run.callValue
  split
  · next r =>
      exact keeps_row_bind.mpr
        (hc.call hs (hs.stocked.functions r) _)
  · exact keeps_typeError hs

theorem keeps_callMethod
    (hc : W.Serves caller)
    (hs : W.Sound s)
    (v : Value)
    (key : String)
    (args : List Value) :
    W.Keeps (Run.callMethod caller v key args) s := by
  unfold Run.callMethod
  split
  · exact keeps_callValue hc hs _ _
  · exact keeps_typeError hs

theorem keeps_newContext
    (hs : W.Sound s)
    (name : Value)
    {posting : Posting}
    (hFit : posting.Fits (W.fit s)) :
    W.Keeps (Table.contexts.alloc ⟨name, posting⟩) s := by
  refine keeps_alloc (hs.moves_of_kernel rfl
    { hs.stocked with contexts := ?_ })
  intro r
  simp only [Table.contexts, getD_push]
  split
  · exact hFit
  · exact hs.stocked.contexts r

theorem keeps_post
    (hc : W.Serves caller)
    (hs : W.Sound s)
    (context f : Value) :
    W.Keeps (Context.post caller context f) s := by
  unfold Context.post
  split
  · next c =>
      refine keeps_row_bind.mpr ?_
      split
      · refine Keeps.bind (keeps_alter ?_) fun _ s₁ h₁ => ?_
        · refine hs.moves_of_kernel rfl
            { hs.stocked with contexts := ?_ }
          intro r
          simp only [Table.contexts, getD_modify]
          split
          · have hOld := hs.stocked.contexts r
            unfold Context.counted
            split
            · trivial
            · exact hOld
          · exact hs.stocked.contexts r
        · refine Keeps.bind
            (keeps_callValue hc h₁.sound _ _).discard ?_
          intro _ s₂ h₂
          exact keeps_pure.mpr (.refl h₂.sound)
      · next code hCode =>
          have hFit : W.fit s code := by
            have hOld := hs.stocked.contexts c
            rw [show (s.contexts.getD c default).posting =
              .custom code from hCode] at hOld
            exact hOld
          exact hc.call hs hFit _
  · exact keeps_callMethod hc hs _ _ _

theorem keeps_newLatch
    (hs : W.Sound s) :
    W.Keeps (Table.latches.alloc false) s :=
  keeps_alloc (hs.moves_of_kernel rfl { hs.stocked with })

theorem keeps_setLatch
    (hs : W.Sound s)
    (r : Ref) :
    W.Keeps (Table.latches.alter r fun _ => true) s :=
  keeps_alter (hs.moves_of_kernel rfl { hs.stocked with })

/-
  A callback may be resumed on a context, if it may be posted
  there, what is posted may be stored, and it may be called
  with a failure.
-/
theorem ensures_resume
    (hc : W.Serves caller)
    (hs : W.Sound s)
    (context : Value)
    {callback : Closure}
    (hPosts : ∀ s', W.Moves s s' → s.kernel = s'.kernel →
      W.Moves s' (s'.withIncident (.posts context callback)))
    (hPosted : ∀ s' entered, W.Moves s s' →
      W.fit s' (.posted entered context callback))
    (hCalls : ∀ s' id fields, W.Moves s s' →
      W.calls s' callback [.record id fields]) :
    (Context.resume caller context callback).Ensures s
      fun _ s' => ∃ s₁, W.Moves s s₁ ∧ s.kernel = s₁.kernel ∧
        W.Moves (s₁.withIncident (.posts context callback))
          s' := by
  unfold Context.resume
  refine Run.ensures_alloc_bind.mpr ?_
  have h₁ : W.Moves s
      { s with latches := s.latches.push false } :=
    hs.moves_of_kernel rfl { hs.stocked with }
  have h₂ := h₁.trans (keeps_newFunction h₁.sound
    (hPosted _ s.latches.size h₁) _ _ rfl)
  refine Run.Ensures.bind (Run.ensures_alloc_bind.mpr
    (Run.ensures_pure.mpr (Run.ensures_modify_bind.mpr ?_)))
  have h₃ := hPosts _ h₂ rfl
  refine Run.Ensures.mono ?_ fun _ _ h => ⟨_, h₂, rfl, h⟩
  refine (keeps_post hc h₃.sound _ _).attempt.bind
    fun r s₄ h₄ => ?_
  split
  · exact keeps_pure.mpr (.refl h₄.sound)
  · refine keeps_row_bind.mpr ?_
    split
    · exact keeps_raise.mpr (.refl h₄.sound)
    · have h₅ := keeps_freshStamp h₄.sound _ _ rfl
      refine Run.Ensures.bind (Run.Ensures.bind
        (Run.ensures_modifyGet.mpr (Run.ensures_pure.mpr ?_)))
      refine Keeps.of_moves h₅ ?_
      refine Keeps.bind (hc.keeps h₅.sound (hCalls _ _ _
        ((h₂.trans h₃).trans (h₄.trans h₅)))).discard ?_
      exact fun _ s₆ h₆ => keeps_pure.mpr (.refl h₆.sound)

/- A callback resumed on a context keeps what the callback keeps. -/
theorem keeps_resume
    (hc : W.Serves caller)
    (hs : W.Sound s)
    (context : Value)
    {callback : Closure}
    (hFit : W.fit s callback) :
    W.Keeps (Context.resume caller context callback) s := by
  refine Run.Ensures.mono (ensures_resume hc hs context
    (fun s₁ h₁ _ => h₁.sound.moves_posts context
      (h₁.fit hFit))
    (fun s₁ entered h₁ => W.fit_posted _ _ (h₁.fit hFit))
    (fun s₁ _ _ h₁ => W.calls_of_fit _ (h₁.fit hFit))) ?_
  rintro _ s' ⟨s₁, h₁, _, h'⟩
  exact (h₁.trans (h₁.sound.moves_posts context
    (h₁.fit hFit))).trans h'

theorem keeps_enter
    (hc : W.Serves caller)
    (hs : W.Sound s)
    (entered : Ref)
    (context : Value)
    {callback : Closure}
    (hFit : W.fit s callback) :
    W.Keeps (Context.enter caller entered context callback) s := by
  unfold Context.enter
  refine (keeps_setLatch hs entered).bind fun _ s₁ h₁ => ?_
  refine Keeps.bind
    (Keeps.elsewhere h₁.sound fun s₂ h₂ _ => ?_).discard ?_
  · exact hc.call h₂.sound ((h₁.trans h₂).fit hFit) _
  · intro _ s₃ h₃
    exact keeps_pure.mpr (.refl h₃.sound)

end Calls

end World

end Resumption

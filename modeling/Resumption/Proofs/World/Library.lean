import Resumption.Proofs.World.Futures

/-
  Cursors, resources, probes and jobs keep every world that
  hosts futures.

  Main declarations:
    * `World.Hosts.keeps_start`, `World.Hosts.keeps_close`
    * `World.keeps_tell`
    * `World.Hosts.keeps_turn`
-/

namespace Resumption

namespace World

variable {W : World}
variable {s s' : Session}
variable {caller : Caller}

------------------------------------------------------------
-- Tables of No World
------------------------------------------------------------

/- A list is stored for nobody to call. -/
theorem keeps_newList
    (hs : W.Sound s)
    (items : Array Value) :
    W.Keeps (Table.lists.alloc items) s :=
  keeps_alloc (hs.moves_of_kernel rfl { hs.stocked with })

theorem keeps_alterList
    (hs : W.Sound s)
    (l : Ref)
    (g : Array Value → Array Value) :
    W.Keeps (Table.lists.alter l g) s :=
  keeps_alter (hs.moves_of_kernel rfl { hs.stocked with })

theorem keeps_newCursor
    (hs : W.Sound s)
    (cell : CursorCell) :
    W.Keeps (Table.cursors.alloc cell) s :=
  keeps_alloc (hs.moves_of_kernel rfl { hs.stocked with })

theorem keeps_alterCursor
    (hs : W.Sound s)
    (c : Ref)
    (g : CursorCell → CursorCell) :
    W.Keeps (Table.cursors.alter c g) s :=
  keeps_alter (hs.moves_of_kernel rfl { hs.stocked with })

theorem keeps_newIterable
    (hs : W.Sound s)
    {cell : IterableCell}
    (hFit : cell.Fits (W.fit s)) :
    W.Keeps (Table.iterables.alloc cell) s := by
  refine keeps_alloc (hs.moves_of_kernel rfl
    { hs.stocked with iterables := ?_ })
  intro r
  simp only [Table.iterables, getD_push]
  split
  · exact hFit
  · exact hs.stocked.iterables r

/- Counting leaves the code of an iterable alone. -/
theorem keeps_alterIterable
    (hs : W.Sound s)
    (i : Ref)
    {g : IterableCell → IterableCell}
    (hg : ∀ {fit : Closure → Prop} {cell : IterableCell},
      cell.Fits fit → (g cell).Fits fit) :
    W.Keeps (Table.iterables.alter i g) s := by
  refine keeps_alter (hs.moves_of_kernel rfl
    { hs.stocked with iterables := ?_ })
  intro r
  simp only [Table.iterables, getD_modify]
  split
  · exact hg (hs.stocked.iterables r)
  · exact hs.stocked.iterables r

theorem fits_countNext
    {fit : Closure → Prop}
    {cell : IterableCell}
    (h : cell.Fits fit) :
    (Cursor.countNext cell).Fits fit := by
  cases cell with
  | counting items count => trivial
  | custom start next close => exact h

theorem fits_countYield
    {fit : Closure → Prop}
    {cell : IterableCell}
    (h : cell.Fits fit) :
    (Cursor.countYield cell).Fits fit := by
  cases cell with
  | counting items count => trivial
  | custom start next close => exact h

theorem fits_countReturn
    {fit : Closure → Prop}
    {cell : IterableCell}
    (h : cell.Fits fit) :
    (Cursor.countReturn cell).Fits fit := by
  cases cell with
  | counting items count => trivial
  | custom start next close => exact h

/- The code of an iterable that was looked up may be called. -/
theorem Sound.iterable
    (hs : W.Sound s)
    {i : Ref}
    {start next : Closure}
    {close : Option Closure}
    (h : (Table.iterables.rows s).getD i default =
      .custom start next close) :
    W.fit s start ∧ W.fit s next ∧ ∀ c ∈ close, W.fit s c := by
  have hOld := hs.stocked.iterables i
  rw [show s.iterables.getD i default =
    .custom start next close from h] at hOld
  exact hOld

------------------------------------------------------------
-- Cursors
------------------------------------------------------------

theorem keeps_start
    (hc : W.Serves caller)
    (hs : W.Sound s)
    (v : Value) :
    W.Keeps (Cursor.start caller v) s := by
  unfold Cursor.start
  split
  · exact keeps_pure.mpr (.refl hs)
  · exact keeps_pure.mpr (.refl hs)
  · refine keeps_row_bind.mpr ?_
    split
    · exact keeps_pure.mpr (.refl hs)
    · next hCell =>
        exact Keeps.bind
          (hc.call hs (hs.iterable hCell).1 _).discard
          fun _ _ h₁ => keeps_pure.mpr (.refl h₁.sound)
  · exact keeps_typeError hs

theorem keeps_cursorOf
    (hc : W.Serves caller)
    (hs : W.Sound s)
    (v : Value) :
    W.Keeps (Cursor.new caller v) s := by
  unfold Cursor.new
  exact (keeps_start hc hs v).bind fun _ _ h₁ =>
    keeps_newCursor h₁.sound _

theorem keeps_place
    (hs : W.Sound s)
    (c : Ref)
    (source : CursorSource) :
    W.Keeps (Cursor.place c source) s :=
  keeps_alterCursor hs c _

theorem keeps_next
    (hc : W.Serves caller)
    (hs : W.Sound s)
    (checked : Bool)
    (c : Ref) :
    W.Keeps (Cursor.next caller checked c) s := by
  unfold Cursor.next
  refine keeps_row_bind.mpr ?_
  split
  · exact keeps_pure.mpr (.refl hs)
  · refine keeps_row_bind.mpr ?_
    split <;>
      exact Keeps.bind (keeps_place hs _ _) fun _ _ h₁ =>
        keeps_pure.mpr (.refl h₁.sound)
  · exact keeps_pure.mpr (.refl hs)
  · exact Keeps.bind (keeps_place hs _ _) fun _ _ h₁ =>
      keeps_pure.mpr (.refl h₁.sound)
  · refine keeps_row_bind.mpr ?_
    split
    · refine Keeps.bind
        (keeps_alterIterable hs _ fits_countNext)
        fun _ s₁ h₁ => ?_
      refine (keeps_itemsOf h₁.sound _).bind fun _ s₂ h₂ => ?_
      split
      · refine Keeps.bind
          (keeps_alterIterable h₂.sound _ fits_countYield)
          fun _ s₃ h₃ => ?_
        exact Keeps.bind (keeps_place h₃.sound _ _)
          fun _ _ h₄ => keeps_pure.mpr (.refl h₄.sound)
      · exact keeps_pure.mpr (.refl h₂.sound)
    · exact keeps_pure.mpr (.refl hs)
  · refine keeps_row_bind.mpr ?_
    split
    · next hCell =>
        refine (hc.call hs (hs.iterable hCell).2.1 _).bind
          fun answer s₁ h₁ => ?_
        split
        · exact keeps_typeError h₁.sound
        · refine (keeps_field h₁.sound _ _).bind
            fun isDone s₂ h₂ => ?_
          split
          · exact keeps_pure.mpr (.refl h₂.sound)
          · exact (keeps_field h₂.sound _ _).bind
              fun _ _ h₃ => keeps_pure.mpr (.refl h₃.sound)
    · exact keeps_pure.mpr (.refl hs)

theorem keeps_close
    (hc : W.Serves caller)
    (hs : W.Sound s)
    (c : Ref) :
    W.Keeps (Cursor.close caller c) s := by
  unfold Cursor.close
  refine keeps_row_bind.mpr ?_
  split
  · refine Keeps.bind
      (keeps_alterIterable hs _ fits_countReturn)
      fun _ s₁ h₁ => ?_
    refine keeps_row_bind.mpr ?_
    split
    · refine (keeps_itemsOf h₁.sound _).bind fun _ s₂ h₂ => ?_
      exact Keeps.bind (keeps_place h₂.sound _ _)
        fun _ _ h₃ => keeps_pure.mpr (.refl h₃.sound)
    · exact keeps_pure.mpr (.refl h₁.sound)
  · refine keeps_row_bind.mpr ?_
    split
    · next code hCell =>
        have hFit := (hs.iterable hCell).2.2 code rfl
        exact (hc.call hs hFit _).map
    · exact keeps_pure.mpr (.refl hs)
  · exact keeps_pure.mpr (.refl hs)

theorem keeps_advanceCursor
    (hc : W.Serves caller)
    (hs : W.Sound s)
    (c : Ref) :
    W.Keeps (Cursor.advance caller c) s := by
  unfold Cursor.advance
  refine (keeps_next hc hs _ _).bind fun found s₁ h₁ => ?_
  split
  · exact keeps_pure.mpr (.refl h₁.sound)
  · exact Keeps.bind (keeps_alterCursor h₁.sound _ _)
      fun _ _ h₂ => keeps_pure.mpr (.refl h₂.sound)

theorem keeps_current
    (hs : W.Sound s)
    (c : Ref) :
    W.Keeps (Cursor.current c) s :=
  keeps_row_bind.mpr (keeps_pure.mpr (.refl hs))

theorem keeps_collectItems
    (hc : W.Serves caller)
    (hs : W.Sound s)
    (c : Ref)
    (n : Nat)
    (items : Array Value) :
    W.Keeps (Iteration.collect caller c n items) s := by
  induction n generalizing s items with
  | zero =>
      unfold Iteration.collect
      refine (keeps_close hc hs c).bind fun answer s₁ h₁ => ?_
      split
      · split
        · exact keeps_pure.mpr (.refl h₁.sound)
        · exact keeps_typeError h₁.sound
      · exact keeps_pure.mpr (.refl h₁.sound)
  | succ n ih =>
      unfold Iteration.collect
      refine (keeps_next hc hs true c).bind
        fun found s₁ h₁ => ?_
      split
      · exact ih h₁.sound _
      · exact keeps_pure.mpr (.refl h₁.sound)

theorem keeps_drain
    (hc : W.Serves caller)
    (hs : W.Sound s)
    (items : Value)
    (limit : Nat) :
    W.Keeps (Iteration.drain caller items limit) s := by
  unfold Iteration.drain
  split
  · exact (keeps_newList hs _).bind fun _ _ h₁ =>
      keeps_pure.mpr (.refl h₁.sound)
  · refine (keeps_cursorOf hc hs items).bind fun c s₁ h₁ => ?_
    refine (keeps_collectItems hc h₁.sound c _ _).bind
      fun found s₂ h₂ => ?_
    exact (keeps_newList h₂.sound _).bind fun _ _ h₃ =>
      keeps_pure.mpr (.refl h₃.sound)

------------------------------------------------------------
-- Resources
------------------------------------------------------------

theorem keeps_newResource
    (hs : W.Sound s)
    {cell : ResourceCell}
    (hFit : cell.Fits (W.fit s)) :
    W.Keeps (Table.resources.alloc cell) s := by
  refine keeps_alloc (hs.moves_of_kernel rfl
    { hs.stocked with resources := ?_ })
  intro r
  simp only [Table.resources, getD_push]
  split
  · exact hFit
  · exact hs.stocked.resources r

theorem keeps_countRelease
    (hs : W.Sound s)
    (r : Ref) :
    W.Keeps (Table.resources.alter r Resource.counted) s := by
  refine keeps_alter (hs.moves_of_kernel rfl
    { hs.stocked with resources := ?_ })
  intro r'
  have hOld := hs.stocked.resources r'
  simp only [Table.resources, getD_modify]
  split
  · unfold Resource.counted
    split
    · trivial
    · next hCell =>
        rw [hCell] at hOld
        exact hOld
  · exact hOld

theorem keeps_dispose
    (hc : W.Serves caller)
    (hs : W.Sound s)
    (resource : Value) :
    W.Keeps (Resource.dispose caller resource) s := by
  unfold Resource.dispose
  split
  · next r =>
      refine keeps_row_bind.mpr ?_
      split
      · refine Keeps.bind (keeps_countRelease hs r)
          fun _ s₁ h₁ => ?_
        split
        · refine (keeps_text h₁.sound _).bind
            fun _ s₂ h₂ => ?_
          exact Keeps.bind (keeps_logged h₂.sound _)
            fun _ _ h₃ => keeps_pure.mpr (.refl h₃.sound)
        · exact keeps_pure.mpr (.refl h₁.sound)
      · next code hCell =>
          have hOld := hs.stocked.resources r
          rw [show s.resources.getD r default = .custom code
            from hCell] at hOld
          exact hc.call hs hOld _
  · exact keeps_callMethod hc hs _ _ _

theorem keeps_release
    (hc : W.Serves caller)
    (hs : W.Sound s)
    (resource : Value) :
    W.Keeps (Resource.release caller resource) s := by
  unfold Resource.release
  split
  · exact keeps_pure.mpr (.refl hs)
  · exact (keeps_dispose hc hs resource).discard.bind
      fun _ _ h₁ => keeps_pure.mpr (.refl h₁.sound)

------------------------------------------------------------
-- Collectors
------------------------------------------------------------

theorem keeps_collector
    (hs : W.Sound s) :
    W.Keeps Probe.collector s := by
  unfold Probe.collector
  refine (keeps_newList hs _).bind fun events s₁ h₁ => ?_
  refine Keeps.bind (keeps_alloc ?_) fun _ _ h₂ =>
    keeps_pure.mpr (.refl h₂.sound)
  exact h₁.sound.moves_of_kernel rfl { h₁.sound.stocked with }

theorem keeps_collect
    (hs : W.Sound s)
    (c event : Value) :
    W.Keeps (Probe.collect c event) s := by
  unfold Probe.collect
  split
  · refine keeps_row_bind.mpr ?_
    exact Keeps.bind (keeps_alterList hs _ _) fun _ _ h₁ =>
      keeps_pure.mpr (.refl h₁.sound)
  · exact keeps_typeError hs

theorem keeps_fieldsNamed
    (hs : W.Sound s)
    (key : String)
    (values : List Value)
    (found : Array Value) :
    W.Keeps (Probe.fieldsNamed key values found) s := by
  induction values generalizing s found with
  | nil => exact keeps_pure.mpr (.refl hs)
  | cons v rest ih =>
      exact (keeps_field hs v key).bind fun _ _ h₁ =>
        ih h₁.sound _

theorem keeps_types
    (hs : W.Sound s)
    (c : Value) :
    W.Keeps (Probe.types c) s := by
  unfold Probe.types
  split
  · refine keeps_row_bind.mpr (keeps_row_bind.mpr ?_)
    refine (keeps_fieldsNamed hs _ _ _).bind
      fun found s₁ h₁ => ?_
    exact (keeps_newList h₁.sound _).bind fun _ _ h₂ =>
      keeps_pure.mpr (.refl h₂.sound)
  · exact keeps_typeError hs

theorem keeps_stats
    (hs : W.Sound s)
    (probe : Value) :
    W.Keeps (Probe.stats probe) s := by
  unfold Probe.stats
  refine (keeps_field hs _ _).bind fun counters s₁ h₁ => ?_
  refine (keeps_inspecting h₁.sound _ _).bind fun _ s₂ h₂ => ?_
  exact keeps_get_bind.mpr (keeps_newRecord h₂.sound _)

------------------------------------------------------------
-- Listeners
------------------------------------------------------------

/- What a listener throws is reported. -/
theorem keeps_hear
    (hs : W.Sound s)
    (code : Closure)
    (args : List Value)
    (ended : Except Value Value) :
    W.Keeps (Emitter.hear code args ended) s := by
  refine (keeps_chronicle hs rfl).bind fun _ s₁ h₁ => ?_
  cases ended with
  | ok v => exact keeps_pure.mpr (.refl h₁.sound)
  | error e => exact keeps_enqueue h₁.sound trivial

/- A listener may do what it likes. -/
theorem keeps_tell
    (hc : W.Serves caller)
    (hs : W.Sound s)
    {em : Emitter}
    (hFit : ∀ c ∈ em.listener, W.fit s c)
    (event : Event) :
    W.Keeps (em.tell caller event) s := by
  unfold Emitter.tell
  split
  · exact keeps_pure.mpr (.refl hs)
  · next code hCode =>
      refine (keeps_eventStamp hs).bind fun id s₁ h₁ => ?_
      have hStill : W.fit s₁ code := h₁.fit (hFit code hCode)
      exact (Keeps.aside h₁.sound fun s' h' =>
        hc.call h'.sound (h'.fit hStill)
          _).attempt.bind fun ended s₂ h₂ =>
            keeps_hear h₂.sound _ _ ended

/- Telling a listener does not fail. -/
theorem tell_ne_error
    {em : Emitter}
    {event : Event} :
    (em.tell caller event).Ensures s fun r _ => r = .ok () := by
  unfold Emitter.tell
  split
  · exact Run.ensures_pure.mpr rfl
  · refine Run.Ensures.bind (Run.ensures_modifyGet.mpr ?_)
    refine Run.Ensures.bind (Run.ensures_attempt.mpr ?_)
    intro r s' _
    refine Run.Ensures.bind (Run.ensures_modify.mpr ?_)
    cases r with
    | ok v => exact Run.ensures_pure.mpr rfl
    | error e => exact Run.ensures_modify.mpr rfl

------------------------------------------------------------
-- Probes and Jobs
------------------------------------------------------------

namespace Hosts

variable (hW : W.Hosts caller)

include hW

theorem keeps_controlled
    (hs : W.Sound s) :
    W.Keeps Probe.controlled s := by
  unfold Probe.controlled Future.new
  refine Run.ensures_alloc_bind.mpr ?_
  have hNew := hW.newFuture none hs
  refine Keeps.of_moves hNew (keeps_get_bind.mpr ?_)
  refine Keeps.bind (keeps_alloc
    (hW.newControlled _ hNew.sound
      (hW.newFuture_loose none hs))) fun c s₁ h₁ => ?_
  exact Keeps.bind
    (Keeps.discard (keeps_newAwaitable h₁.sound trivial))
    fun _ _ h₂ => keeps_pure.mpr (.refl h₂.sound)

theorem keeps_complete
    (hs : W.Sound s)
    (c : Value)
    (outcome : Outcome) :
    W.Keeps (Probe.complete caller c outcome) s := by
  unfold Probe.complete
  split
  · next r =>
      refine keeps_get_bind.mpr ?_
      cases hRow : s.controlled[r]? with
      | none => exact keeps_typeError hs
      | some cell =>
          have hLoose := hW.controlled_loose hs hRow
          exact Keeps.bind
            (Keeps.discard (hW.settle outcome hs hLoose))
            fun _ _ h₁ => keeps_pure.mpr (.refl h₁.sound)
  · exact keeps_typeError hs

theorem keeps_job
    (hc : W.Serves caller)
    (hs : W.Sound s)
    {job : Job}
    (hFit : job.Fits (W.fit s)) :
    W.Keeps (job.run caller) s := by
  cases job with
  | react reaction outcome =>
      exact keeps_runReaction hc hs hFit outcome
  | adopt source p => exact hW.keeps_adopt hc hs source p
  | report e =>
      exact (keeps_picture hs e).bind fun _ _ h₁ =>
        Keeps.aside h₁.sound fun _ h₂ => keeps_logged h₂.sound _

/- One turn of the queues keeps a world that hosts futures. -/
theorem keeps_turn
    (hc : W.Serves caller)
    (hs : W.Sound s) :
    W.Keeps (Jobs.turn caller) s := by
  unfold Jobs.turn Jobs.takeMicrotask
  refine Run.Ensures.bind (Run.ensures_modifyGet.mpr ?_)
  cases hJobs : s.microtasks with
  | nil =>
      unfold Jobs.takeImmediate
      refine Run.Ensures.bind (Run.ensures_modifyGet.mpr ?_)
      cases hTurns : s.immediates with
      | nil => exact keeps_pure.mpr (.refl hs)
      | cons t rest =>
          have h₁ : W.Moves s { s with immediates := rest } :=
            hs.moves_of_kernel rfl { hs.stocked with }
          refine Keeps.of_moves h₁ ?_
          exact (keeps_concludePromise h₁.sound _ _).bind
            fun _ _ h₂ => keeps_pure.mpr (.refl h₂.sound)
  | cons job rest =>
      have h₁ : W.Moves s { s with microtasks := rest } := by
        refine hs.moves_of_kernel rfl
          { hs.stocked with microtasks := ?_ }
        intro j hj
        apply hs.stocked.microtasks
        rw [hJobs]
        exact List.mem_cons_of_mem _ hj
      have hJob : job.Fits (W.fit s) :=
        hs.stocked.microtasks job
          (by rw [hJobs]; exact List.mem_cons_self)
      refine Keeps.of_moves h₁ ?_
      exact (hW.keeps_job hc h₁.sound
        (hJob.mono fun _ => h₁.fit)).bind
          fun _ _ h₂ => keeps_pure.mpr (.refl h₂.sound)

end Hosts

end World

end Resumption

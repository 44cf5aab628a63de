import Resumption.Proofs.Veil.Matches
import Resumption.Picture

/-
  How the tables of a session, its stamps, its log and its
  jobs are seen under a veil.

  Each table is a column: its rows are seen one by one, and a
  change that is seen leaves all else as it was.

  Main declarations:
    * `Veil.Column`
    * `Veil.Column.row_bind`, `Veil.Column.alloc`,
      `Veil.Column.alter`
    * `Veil.matches_logged`, `Veil.matches_enqueue`
-/

namespace Resumption

open Run

namespace Veil

variable {V : Veil}
variable {α β γ δ : Type}
variable {Q : γ → δ → Prop}
variable {s t : Session}

------------------------------------------------------------
-- Columns
------------------------------------------------------------

variable (V) in
/- A table whose rows are seen as related rows. -/
structure Column
    [Inhabited α]
    (T : Table α)
    (R : α → α → Prop) : Prop where
  total : ∀ a, ∃ b, R a b
  rows : ∀ {s t}, V.Sees s t → Rows R (T.rows s) (T.rows t)
  change : ∀ {s t f f'}, V.Sees s t →
    Rows R (f (T.rows s)) (f' (T.rows t)) →
      V.Sees (T.change f s) (T.change f' t)
  still : ∀ f s, Session.Still s (T.change f s)

namespace Column

variable [Inhabited α]
variable {T : Table α}
variable {R : α → α → Prop}
variable {f : α → Run γ}
variable {f' : α → Run δ}
variable {g g' : α → α}

theorem onward
    (C : V.Column T R)
    (f : Array α → Array α)
    (s : Session) :
    s.Onward (T.change f s) :=
  .of_still (C.still f s)

/- A row is read as a related row. -/
theorem row
    (C : V.Column T R)
    (r : Ref) :
    V.Matches R (T.row r) (T.row r) :=
  matches_read fun _ _ hSees => (C.rows hSees).row r

theorem row_bind
    (C : V.Column T R)
    {r : Ref}
    (hf : ∀ a b, R a b → V.Matches Q (f a) (f' b)) :
    V.Matches Q (T.row r >>= f) (T.row r >>= f') :=
  (C.row r).bindOf C.total hf

/- A row is added in the same place. -/
theorem alloc
    (C : V.Column T R)
    {a b : α}
    (h : R a b) :
    V.Matches Eq (T.alloc a) (T.alloc b) where
  goes := by
    intro s
    exact ensures_alloc.mpr (C.onward _ s)
  meets {s t} hSees := by
    refine ensures_alloc.mpr fun _ => ?_
    have hRows := C.rows hSees
    refine ⟨.ok (T.rows t).size, T.change (·.push b) t, rfl, ?_,
      C.change hSees (hRows.push h)⟩
    rw [hRows.size]
    exact .ok rfl

/- A row is changed as the related row is. -/
theorem alter
    (C : V.Column T R)
    (r : Ref)
    (h : ∀ a b, R a b → R (g a) (g' b)) :
    V.Matches Eq (T.alter r g) (T.alter r g') :=
  matches_modify (fun s => C.onward _ s) fun _ _ hSees =>
    C.change hSees ((C.rows hSees).modify h r)

end Column

------------------------------------------------------------
-- Tables
------------------------------------------------------------

theorem column_lists :
    V.Column Table.lists Eq :=
  ⟨fun a => ⟨a, rfl⟩, (·.lists),
    fun h h' => { h with lists := h' },
    fun _ _ => ⟨rfl, rfl, rfl, rfl⟩⟩

theorem column_functions :
    V.Column Table.functions fun c c' => c' = V.closure c :=
  ⟨fun _ => ⟨_, rfl⟩, (·.functions),
    fun h h' => { h with functions := h' },
    fun _ _ => ⟨rfl, rfl, rfl, rfl⟩⟩

theorem column_classes :
    V.Column Table.classes fun c c' => c' = V.classRow c :=
  ⟨fun _ => ⟨_, rfl⟩, (·.classes),
    fun h h' => { h with classes := h' },
    fun _ _ => ⟨rfl, rfl, rfl, rfl⟩⟩

theorem column_machines :
    V.Column Table.machines fun c c' => c' = V.machineRow c :=
  ⟨fun _ => ⟨_, rfl⟩, (·.machines),
    fun h h' => { h with machines := h' },
    fun _ _ => ⟨rfl, rfl, rfl, rfl⟩⟩

theorem column_labels :
    V.Column Table.labels fun c c' => c' = V.labelRow c :=
  ⟨fun _ => ⟨_, rfl⟩, (·.labels),
    fun h h' => { h with labels := h' },
    fun _ _ => ⟨rfl, rfl, rfl, rfl⟩⟩

theorem column_futures :
    V.Column Table.futures fun c c' => c' = V.futureRow c :=
  ⟨fun _ => ⟨_, rfl⟩, (·.futures),
    fun h h' => { h with futures := h' },
    fun _ _ => ⟨rfl, rfl, rfl, rfl⟩⟩

theorem column_promises :
    V.Column Table.promises fun c c' => c' = V.promiseRow c :=
  ⟨fun _ => ⟨_, rfl⟩, (·.promises),
    fun h h' => { h with promises := h' },
    fun _ _ => ⟨rfl, rfl, rfl, rfl⟩⟩

theorem column_deferreds :
    V.Column Table.deferreds Eq :=
  ⟨fun a => ⟨a, rfl⟩, (·.deferreds),
    fun h h' => { h with deferreds := h' },
    fun _ _ => ⟨rfl, rfl, rfl, rfl⟩⟩

theorem AwaiterRow.total
    (cell : AwaiterCell) :
    ∃ cell', V.AwaiterRow cell cell' := by
  cases cell with
  | future f captured => exact ⟨_, .future f fun _ => rfl⟩
  | controlled c => exact ⟨_, .controlled c⟩
  | custom r => exact ⟨_, .custom r⟩

theorem column_awaiters :
    V.Column Table.awaiters V.AwaiterRow :=
  ⟨AwaiterRow.total, (·.awaiters),
    fun h h' => { h with awaiters := h' },
    fun _ _ => ⟨rfl, rfl, rfl, rfl⟩⟩

theorem column_awaitables :
    V.Column Table.awaitables
      fun c c' => c' = V.awaitableRow c :=
  ⟨fun _ => ⟨_, rfl⟩, (·.awaitables),
    fun h h' => { h with awaitables := h' },
    fun _ _ => ⟨rfl, rfl, rfl, rfl⟩⟩

theorem column_thenables :
    V.Column Table.thenables fun c c' => c' = V.closure c :=
  ⟨fun _ => ⟨_, rfl⟩, (·.thenables),
    fun h h' => { h with thenables := h' },
    fun _ _ => ⟨rfl, rfl, rfl, rfl⟩⟩

theorem column_contexts :
    V.Column Table.contexts fun c c' => c' = V.contextRow c :=
  ⟨fun _ => ⟨_, rfl⟩, (·.contexts),
    fun h h' => { h with contexts := h' },
    fun _ _ => ⟨rfl, rfl, rfl, rfl⟩⟩

theorem column_controlled :
    V.Column Table.controlled Eq :=
  ⟨fun a => ⟨a, rfl⟩, (·.controlled),
    fun h h' => { h with controlled := h' },
    fun _ _ => ⟨rfl, rfl, rfl, rfl⟩⟩

theorem column_iterables :
    V.Column Table.iterables
      fun c c' => c' = V.iterableRow c :=
  ⟨fun _ => ⟨_, rfl⟩, (·.iterables),
    fun h h' => { h with iterables := h' },
    fun _ _ => ⟨rfl, rfl, rfl, rfl⟩⟩

theorem column_resources :
    V.Column Table.resources
      fun c c' => c' = V.resourceRow c :=
  ⟨fun _ => ⟨_, rfl⟩, (·.resources),
    fun h h' => { h with resources := h' },
    fun _ _ => ⟨rfl, rfl, rfl, rfl⟩⟩

theorem column_collectors :
    V.Column Table.collectors Eq :=
  ⟨fun a => ⟨a, rfl⟩, (·.collectors),
    fun h h' => { h with collectors := h' },
    fun _ _ => ⟨rfl, rfl, rfl, rfl⟩⟩

theorem column_sequences :
    V.Column Table.sequences Eq :=
  ⟨fun a => ⟨a, rfl⟩, (·.sequences),
    fun h h' => { h with sequences := h' },
    fun _ _ => ⟨rfl, rfl, rfl, rfl⟩⟩

theorem column_recoveries :
    V.Column Table.recoveries
      fun c c' => c' = V.recoveryRow c :=
  ⟨fun _ => ⟨_, rfl⟩, (·.recoveries),
    fun h h' => { h with recoveries := h' },
    fun _ _ => ⟨rfl, rfl, rfl, rfl⟩⟩

theorem column_cleanups :
    V.Column Table.cleanups fun c c' => c' = V.cleanupRow c :=
  ⟨fun _ => ⟨_, rfl⟩, (·.cleanups),
    fun h h' => { h with cleanups := h' },
    fun _ _ => ⟨rfl, rfl, rfl, rfl⟩⟩

theorem column_cursors :
    V.Column Table.cursors Eq :=
  ⟨fun a => ⟨a, rfl⟩, (·.cursors),
    fun h h' => { h with cursors := h' },
    fun _ _ => ⟨rfl, rfl, rfl, rfl⟩⟩

theorem column_drivers :
    V.Column Table.drivers fun c c' => c' = V.driverRow c :=
  ⟨fun _ => ⟨_, rfl⟩, (·.drivers),
    fun h h' => { h with drivers := h' },
    fun _ _ => ⟨rfl, rfl, rfl, rfl⟩⟩

theorem column_builders :
    V.Column Table.builders V.BuilderRow :=
  ⟨fun c => ⟨c, rfl, fun _ => rfl⟩, (·.builders),
    fun h h' => { h with builders := h' },
    fun _ _ => ⟨rfl, rfl, rfl, rfl⟩⟩

theorem column_latches :
    V.Column Table.latches Eq :=
  ⟨fun a => ⟨a, rfl⟩, (·.latches),
    fun h h' => { h with latches := h' },
    fun _ _ => ⟨rfl, rfl, rfl, rfl⟩⟩

theorem column_tasks :
    V.Column Table.tasks Eq :=
  ⟨fun a => ⟨a, rfl⟩, (·.tasks),
    fun h h' => { h with tasks := h' },
    fun _ _ => ⟨rfl, rfl, rfl, rfl⟩⟩

------------------------------------------------------------
-- Stamps
------------------------------------------------------------

/- A new object is numbered as it is under the veil. -/
theorem Sees.stamp_eq
    (h : V.Sees s t) :
    s.stamp = t.stamp := by
  unfold Session.stamp
  rw [h.aside, h.objects]
  split
  · next hAside =>
      have hSeen : V.listeners = false := by
        rw [← Bool.not_eq_true]
        exact fun hNot => by simp [h.frank hNot] at hAside
      rw [h.events hSeen]
  · rfl

theorem Sees.stamped
    (h : V.Sees s t) :
    V.Sees s.stamped t.stamped :=
  { h with
    objects := by
      simp only [Session.stamped, h.aside, h.objects]
    events := fun hSeen => by
      simp only [Session.stamped, h.aside, h.events hSeen] }

theorem matches_freshStamp :
    V.Matches Eq freshStamp freshStamp :=
  matches_modifyGet (fun _ => .of_still ⟨rfl, rfl, rfl, rfl⟩)
    fun _ _ hSees => ⟨hSees.stamp_eq, hSees.stamped⟩

theorem matches_eventStamp
    (hSeen : V.listeners = false) :
    V.Matches Eq eventStamp eventStamp :=
  matches_modifyGet (fun _ => .of_still ⟨rfl, rfl, rfl, rfl⟩)
    fun s t hSees => by
      refine ⟨?_, { hSees with events := fun _ => ?_ }⟩
      · simp only [hSees.events hSeen]
      · simp only [hSees.events hSeen]

theorem matches_newRecord
    (fields : Fields) :
    V.Matches Eq (newRecord fields) (newRecord fields) :=
  matches_freshStamp.bind fun _ => matches_pure rfl

theorem matches_newStep
    (step : StepView) :
    V.Matches Eq (newStep step) (newStep step) :=
  matches_newRecord _

theorem matches_newTypeError :
    V.Matches Eq newTypeError newTypeError :=
  matches_freshStamp.bind fun _ => matches_pure rfl

theorem matches_typeError
    {R : α → β → Prop} :
    V.Matches R (typeError : Run α) (typeError : Run β) :=
  matches_newTypeError.bind fun e => matches_raise e

theorem matches_ambient :
    V.Matches Eq ambient ambient :=
  matches_read fun _ _ hSees => hSees.ambient.symm

------------------------------------------------------------
-- The Log
------------------------------------------------------------

theorem onward_logging
    (d : Datum)
    (s : Session) :
    s.Onward (logging d s) := by
  by_cases hAside : s.aside = true
  · exact .of_still ⟨by simp [logging, hAside], rfl, rfl, rfl⟩
  · have hIncident : s.Onward (s.withIncident (.logs d)) :=
      .withIncident s rfl
    exact hIncident.trans (.of_still
      ⟨by simp [logging, hAside, Session.withIncident], rfl,
        rfl, rfl⟩)

theorem Sees.logging
    {d d' : Datum}
    (h : V.Sees s t)
    (hShade : V.shade d' = V.shade d) :
    V.Sees (Run.logging d s) (Run.logging d' t) :=
  { h with
    effects := by
      by_cases hAside : s.aside = true
      · simpa [Run.logging, Session.effects, h.aside, hAside]
          using h.effects
      · simpa [Run.logging, Session.effects, h.aside, hAside,
          Incident.effect?, hShade] using h.effects
    heard := fun hSeen => by
      have hSame := h.heard hSeen
      simp only [Session.heard] at hSame
      by_cases hAside : s.aside = true
      · simp [Run.logging, Session.heard, h.aside, hAside, hSame]
      · simp [Run.logging, Session.heard, h.aside, hAside,
          Incident.heard?, List.filterMap_cons, hSame]
    log := fun hSeen => by
      simp [Run.logging, h.log hSeen, hShade] }

/- What is logged may look otherwise under the veil. -/
theorem matches_logged
    {d d' : Datum}
    (hShade : V.shade d' = V.shade d) :
    V.Matches Eq (logged d) (logged d') :=
  matches_modify (onward_logging d)
    fun _ _ hSees => hSees.logging hShade

------------------------------------------------------------
-- Jobs
------------------------------------------------------------

/- A job is put behind all others, unless it reports. -/
theorem matches_enqueue
    {job job' : Job}
    (hReports : job.reported? = none)
    (h : V.job? job = some job') :
    V.Matches Eq (enqueue job) (enqueue job') :=
  matches_modify
    (fun s => .of_still
      ⟨rfl, by simp [Session.owed, hReports], rfl, rfl⟩)
    fun _ _ hSees =>
      { hSees with
        microtasks := by simp [hSees.microtasks, h] }

------------------------------------------------------------
-- Stories
------------------------------------------------------------

theorem matches_note
    (task : Ref)
    (m : Moment) :
    V.Matches Eq (note task m) (note task m) :=
  column_tasks.alter task fun _ _ h => by rw [h]

theorem matches_tend
    (task : Ref)
    (c : Care) :
    V.Matches Eq (tend task c) (tend task c) :=
  column_tasks.alter task fun _ _ h => by rw [h]

theorem matches_tendHere
    (c : Care) :
    V.Matches Eq (tendHere c) (tendHere c) := by
  refine matches_get_bind (fun s => ?_) fun s t hSees => ?_
  · cases s.task with
    | none => exact goes_pure _
    | some task =>
        exact goes_modify fun s => (column_tasks (V := V)).onward _ s
  · rw [hSees.task]
    cases s.task with
    | none => exact matches_pure rfl
    | some task => exact matches_tend task c

end Veil

end Resumption

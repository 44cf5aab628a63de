import Resumption.Proofs.Care
import Resumption.Proofs.Order.Labels
import Resumption.Proofs.Task.Standing

/-
  What the code under a label comes back to: the cells of
  the constructs that it is in the middle of, and among them
  the cleanups that it has left open.

  A piece of code owns these cells.  No other code of the
  task comes back to them, and other tasks have cells of
  their own; so that code owns what it did for as long as
  the cells are what they were.

  Main declarations:
    * `Closure.Careful`
    * `Session.Sustains`
    * `Session.Belongs`
    * `Session.Carries`, `Session.Carries.later`
    * `Session.Opens`
-/

namespace Resumption

open Session

------------------------------------------------------------
-- Closures that Anyone May Call
------------------------------------------------------------

/- The driver of a task has asked a future to end it. -/
def Session.Entrusts
    (s : Session)
    (d : Ref) : Prop :=
  ∃ cell future, s.drivers[d]? = some cell ∧
    .asks none future ∈ s.story cell.emitter.task

/-
  What anyone may call at any time: it makes no steps, and
  ends no task that is not to be ended by others.
-/
def Closure.Careful (s : Session) : Closure → Prop
  | .client code =>
      ∀ args, (code args).Careful none s.machines.size
  | .applied f _ => f.Careful s
  | .finished => True
  | .release _ => True
  | .cursorAdvance _ => True
  | .cursorClose _ => True
  | .driverResume _ _ => True
  | .driverOutcome d _ => s.Entrusts d
  | .resumption _ callback => callback.Careful s
  | .posted _ _ callback => callback.Careful s
  | .bridge _ _ => True
  | .settleFuture _ _ => True
  | .settlePromise _ _ _ => True
  | _ => False

------------------------------------------------------------
-- What Everyone Sustains
------------------------------------------------------------

/- Whatever happens, what was made is there afterwards. -/
structure Session.Sustains (s s' : Session) : Prop where
  machines : s.machines.size ≤ s'.machines.size
  builders : ∀ (b : Nat) row, s.builders[b]? = some row →
    s'.builders[b]? = some row
  bears : ∀ m l code,
    s.Bears m l (some code) → s'.Bears m l (some code)
  tasks : s.tasks.size ≤ s'.tasks.size
  stories : ∀ t, s.story t <:+ s'.story t
  drivers : ∀ (d : Nat) (cell : DriverCell),
    s.drivers[d]? = some cell →
      ∃ cell' : DriverCell, s'.drivers[d]? = some cell' ∧
        cell'.emitter = cell.emitter

namespace Session.Sustains

variable {s s₁ s' : Session}

theorem refl (s : Session) : s.Sustains s where
  machines := Nat.le_refl _
  builders _ _ h := h
  bears _ _ _ h := h
  tasks := Nat.le_refl _
  stories _ := List.suffix_rfl
  drivers _ cell h := ⟨cell, h, rfl⟩

theorem trans
    (h : s.Sustains s₁)
    (h' : s₁.Sustains s') :
    s.Sustains s' where
  machines := Nat.le_trans h.machines h'.machines
  builders b row hRow := h'.builders b row (h.builders b row hRow)
  bears m l code hBears :=
    h'.bears m l code (h.bears m l code hBears)
  tasks := Nat.le_trans h.tasks h'.tasks
  stories t := (h.stories t).trans (h'.stories t)
  drivers d cell hCell := by
    rcases h.drivers d cell hCell with ⟨cell₁, hCell₁, hSame⟩
    rcases h'.drivers d cell₁ hCell₁ with
      ⟨cell₂, hCell₂, hSame'⟩
    exact ⟨cell₂, hCell₂, hSame'.trans hSame⟩

/- Sessions with the same kernel sustain each other. -/
theorem of_kernel
    (h : s.kernel = s'.kernel) :
    s.Sustains s' := by
  cases s
  cases s'
  injection h
  subst_vars
  exact { Sustains.refl _ with bears := fun _ _ _ h => h }

/- A driver that has asked a future has asked it ever after. -/
theorem entrusts
    {d : Ref}
    (h : s.Sustains s')
    (hd : s.Entrusts d) :
    s'.Entrusts d := by
  rcases hd with ⟨cell, future, hCell, hMem⟩
  rcases h.drivers d cell hCell with ⟨cell', hCell', hSame⟩
  refine ⟨cell', future, hCell', ?_⟩
  rw [hSame]
  exact (h.stories _).subset hMem

/- What anyone may call, anyone may call ever after. -/
theorem careful
    {c : Closure}
    (h : s.Sustains s')
    (hc : c.Careful s) :
    c.Careful s' := by
  induction c with
  | client code =>
      exact fun args => (hc args).mono h.machines
  | applied f args ih => exact ih hc
  | driverOutcome d awaiter => exact h.entrusts hc
  | resumption context callback ih => exact ih hc
  | posted entered context callback ih => exact ih hc
  | _ => trivial

end Session.Sustains

------------------------------------------------------------
-- Cells of a Task
------------------------------------------------------------

/- A cell is that of a construct built in a task. -/
def Session.Belongs
    (s : Session)
    (t : Ref) : Cell → Prop
  | .sequence i =>
      ∃ row, s.sequences[i]? = some row ∧ row.task = some t
  | .recovery i =>
      ∃ row, s.recoveries[i]? = some row ∧ row.task = some t
  | .cleanup i =>
      ∃ row, s.cleanups[i]? = some row ∧ row.task = some t
  | .cursor _ => False

/- It is, wherever the cell is the same. -/
theorem Session.SameAt.belongs_iff
    {s s' : Session}
    {c : Cell}
    (h : s.SameAt s' c)
    (t : Ref) :
    s'.Belongs t c ↔ s.Belongs t c := by
  cases c with
  | cursor i => exact Iff.rfl
  | sequence i | recovery i | cleanup i =>
      simp only [Session.SameAt] at h
      simp only [Session.Belongs, h]

/- It is that of one task only. -/
theorem Session.Belongs.unique
    {s : Session}
    {t t' : Ref}
    {c : Cell}
    (h : s.Belongs t c)
    (h' : s.Belongs t' c) :
    t = t' := by
  cases c with
  | cursor i => exact h.elim
  | sequence i | recovery i | cleanup i =>
      rcases h with ⟨row, hRow, hTask⟩
      rcases h' with ⟨row', hRow', hTask'⟩
      obtain rfl := Option.some.inj (hRow.symm.trans hRow')
      exact Option.some.inj (hTask.symm.trans hTask')

------------------------------------------------------------
-- Owning Cells
------------------------------------------------------------

/- What steps of a task on a machine are made with. -/
def Session.Hub
    (s : Session)
    (m : Ref)
    (hub : Value) : Prop :=
  s.machineOf hub = .machine m ∧ m < s.machines.size ∧
    ∀ b, hub = .builder b → b < s.builders.size

/-
  Something that does not suspend: no step, or one that
  finishes, or that hands off to a future.
-/
structure Value.Ends (v : Value) : Prop where
  suspends : ∀ awaiter label,
    v.step? ≠ some (.suspend awaiter label)
  handOff : ∀ future, v.step? = some (.handOff future) →
    ∃ f, future = .future f

/-
  Code that makes a step of a task on a machine, called with
  arguments: the cleanups that it has left open so far, the
  innermost first, and the cells that it comes back to.
-/
inductive Session.Carries
    (s : Session)
    (m t : Ref) :
    Closure → List Value → List Ref → Footprint → Prop where
  | client
      {f args hub}
      (hHub : s.Hub m hub)
      (h : (f args).Careful (some hub) s.machines.size) :
      Carries s m t (.client f) args [] .none
  | applied
      {f fixed args}
      (h : Carries s m t f fixed [] .none) :
      Carries s m t (.applied f fixed) args [] .none
  | received
      {awaiter rest args}
      (h : ∀ v, Carries s m t rest [v] [] .none) :
      Carries s m t (.received awaiter rest) args [] .none
  | finished {args} : Carries s m t .finished args [] .none
  | jump
      {l code args}
      (hLabel : s.Bears m l (some code))
      (h : Carries s m t code [] [] .none) :
      Carries s m t (.jump m l) args [] .none
  | loopHead
      {entry condition body args}
      (hEntry : s.Bears m entry
        (some (.loopHead m entry condition body)))
      (hCondition : condition.Careful s)
      (hBody : Carries s m t body [] [] .none) :
      Carries s m t (.loopHead m entry condition body) args []
        .none
  | cursorLoop
      {c body args}
      (hm : m < s.machines.size)
      (h : ∀ v, Carries s m t body [v] [] .none) :
      Carries s m t (.cursorLoop (.machine m) c body) args []
        .none
  | cursorItem
      {c body args}
      (h : ∀ v, Carries s m t body [v] [] .none) :
      Carries s m t (.cursorItem c body) args [] .none
  | sequenceAtEnd
      {i entry step rest code args}
      (hRow : s.sequences[i]? =
        some ⟨m, entry, step, rest, some t⟩)
      (hEntry : s.Bears m entry (some (.sequenceEntry i)))
      (hRest : s.Bears m rest (some code))
      (h : Carries s m t code [] [] .none)
      (hStep : step.Ends) :
      Carries s m t (.sequenceEntry i) args []
        (.only (.sequence i))
  | sequenceEntry
      {i entry step rest code args awaiter l inner opened F}
      (hRow : s.sequences[i]? =
        some ⟨m, entry, step, rest, some t⟩)
      (hEntry : s.Bears m entry (some (.sequenceEntry i)))
      (hRest : s.Bears m rest (some code))
      (h : Carries s m t code [] [] .none)
      (hStep : step.step? =
        some (.suspend awaiter (.label l)))
      (hLabel : s.Bears m l (some inner))
      (hInner : Carries s m t inner [] opened F)
      (hApart : ¬ F (.sequence i)) :
      Carries s m t (.sequenceEntry i) args opened
        (.or F (.only (.sequence i)))
  | sequenceResume
      {i entry step rest code args l inner opened F}
      (hRow : s.sequences[i]? =
        some ⟨m, entry, step, rest, some t⟩)
      (hEntry : s.Bears m entry (some (.sequenceEntry i)))
      (hRest : s.Bears m rest (some code))
      (h : Carries s m t code [] [] .none)
      (hLabel : s.Bears m l (some inner))
      (hInner : Carries s m t inner [] opened F)
      (hApart : ¬ F (.sequence i)) :
      Carries s m t (.sequenceResume i (.label l)) args opened
        (.or F (.only (.sequence i)))
  | recoveryEntry
      {i entry l inner handler args opened F}
      (hRow : s.recoveries[i]? =
        some ⟨m, entry, .label l, handler, some t⟩)
      (hEntry : s.Bears m entry (some (.recoveryEntry i)))
      (hHandler : ∀ e, Carries s m t handler [e] [] .none)
      (hLabel : s.Bears m l (some inner))
      (hInner : Carries s m t inner [] opened F)
      (hApart : ¬ F (.recovery i)) :
      Carries s m t (.recoveryEntry i) args opened
        (.or F (.only (.recovery i)))
  | recoveryOutcome
      {i entry inner handler awaiter args}
      (hRow : s.recoveries[i]? =
        some ⟨m, entry, inner, handler, some t⟩)
      (hHandler : ∀ e, Carries s m t handler [e] [] .none) :
      Carries s m t (.recoveryOutcome i awaiter) args []
        (.only (.recovery i))
  | cleanupEntry
      {i entry l inner compensation args opened F}
      (hRow : s.cleanups[i]? =
        some ⟨m, entry, .label l, compensation, false, some t⟩)
      (hEntry : s.Bears m entry (some (.cleanupEntry i)))
      (hCompensation : compensation.Careful s)
      (hLabel : s.Bears m l (some inner))
      (hInner : Carries s m t inner [] opened F)
      (hApart : ¬ F (.cleanup i)) :
      Carries s m t (.cleanupEntry i) args (opened ++ [i])
        (.or F (.only (.cleanup i)))
  | cleanupOutcome
      {i entry inner compensation awaiter args}
      (hRow : s.cleanups[i]? =
        some ⟨m, entry, inner, compensation, false, some t⟩)
      (hCompensation : compensation.Careful s) :
      Carries s m t (.cleanupOutcome i awaiter) args [i]
        (.only (.cleanup i))

/-
  Something that a task's code made: a step that resumes at
  a label under which there is code that owns cells, or
  something that does not suspend.
-/
inductive Session.Opens
    (s : Session)
    (m t : Ref)
    (v : Value) : List Ref → Footprint → Prop where
  | ends (h : v.Ends) : Opens s m t v [] .none
  | suspends
      {awaiter l code opened F}
      (hStep : v.step? = some (.suspend awaiter (.label l)))
      (hLabel : s.Bears m l (some code))
      (h : s.Carries m t code [] opened F) :
      Opens s m t v opened F

section Later

variable {s s' : Session}
variable {m t : Ref}
variable {code : Closure}
variable {args : List Value}
variable {opened : List Ref}
variable {F : Footprint}

/- What makes steps on a machine makes them ever after. -/
theorem Session.Hub.later
    {hub : Value}
    (h : s.Hub m hub)
    (hSustains : s.Sustains s') :
    s'.Hub m hub := by
  rcases h with ⟨hMachine, hm, hb⟩
  refine ⟨?_, Nat.lt_of_lt_of_le hm hSustains.machines, ?_⟩
  · cases hub with
    | builder b =>
        have hRow := Array.getElem?_eq_getElem (hb b rfl)
        have hRow' := hSustains.builders b _ hRow
        simpa [Session.machineOf, Array.getD_eq_getD_getElem?,
          hRow, hRow'] using hMachine
    | _ => exact hMachine
  · rintro b rfl
    exact (Array.getElem?_eq_some_iff.mp
      (hSustains.builders b _
        (Array.getElem?_eq_getElem (hb b rfl)))).1

/- All that is owned belongs to the task. -/
theorem Session.Carries.belongs
    (h : s.Carries m t code args opened F)
    {c : Cell}
    (hc : F c) :
    s.Belongs t c := by
  induction h with
  | sequenceAtEnd hRow => exact hc ▸ ⟨_, hRow, rfl⟩
  | sequenceEntry hRow _ _ _ _ _ _ _ _ ih
  | sequenceResume hRow _ _ _ _ _ _ _ ih
  | recoveryEntry hRow _ _ _ _ _ _ ih
  | cleanupEntry hRow _ _ _ _ _ ih =>
      rcases hc with hc | rfl
      · exact ih hc
      · exact ⟨_, hRow, rfl⟩
  | recoveryOutcome hRow => exact hc ▸ ⟨_, hRow, rfl⟩
  | cleanupOutcome hRow => exact hc ▸ ⟨_, hRow, rfl⟩
  | _ => exact hc.elim

/-
  Code owns what it did, as long as the cells are what they
  were.
-/
theorem Session.Carries.later
    (h : s.Carries m t code args opened F)
    (hSustains : s.Sustains s')
    (hSame : ∀ c, F c → s.SameAt s' c) :
    s'.Carries m t code args opened F := by
  have hNone : ∀ c, Footprint.none c → s.SameAt s' c :=
    fun _ hc => hc.elim
  have hBears := fun l code => hSustains.bears m l code
  induction h with
  | client hHub h =>
      exact .client (hHub.later hSustains)
        (h.mono hSustains.machines)
  | applied _ ih => exact .applied (ih hNone)
  | received _ ih => exact .received fun v => ih v hNone
  | finished => exact .finished
  | jump hLabel _ ih =>
      exact .jump (hBears _ _ hLabel) (ih hNone)
  | loopHead hEntry hCondition _ ih =>
      exact .loopHead (hBears _ _ hEntry)
        (hSustains.careful hCondition) (ih hNone)
  | cursorLoop hm _ ih =>
      exact .cursorLoop (Nat.lt_of_lt_of_le hm hSustains.machines)
        fun v => ih v hNone
  | cursorItem _ ih => exact .cursorItem fun v => ih v hNone
  | sequenceAtEnd hRow hEntry hRest _ hStep ih =>
      exact .sequenceAtEnd (Eq.trans (hSame _ rfl) hRow)
        (hBears _ _ hEntry) (hBears _ _ hRest) (ih hNone) hStep
  | sequenceEntry hRow hEntry hRest _ hStep hLabel _ hApart ih
      ihInner =>
      exact .sequenceEntry (Eq.trans (hSame _ (.inr rfl)) hRow)
        (hBears _ _ hEntry) (hBears _ _ hRest) (ih hNone) hStep
        (hBears _ _ hLabel)
        (ihInner fun c hc => hSame c (.inl hc)) hApart
  | sequenceResume hRow hEntry hRest _ hLabel _ hApart ih
      ihInner =>
      exact .sequenceResume (Eq.trans (hSame _ (.inr rfl)) hRow)
        (hBears _ _ hEntry) (hBears _ _ hRest) (ih hNone)
        (hBears _ _ hLabel)
        (ihInner fun c hc => hSame c (.inl hc)) hApart
  | recoveryEntry hRow hEntry _ hLabel _ hApart ihHandler
      ihInner =>
      exact .recoveryEntry (Eq.trans (hSame _ (.inr rfl)) hRow)
        (hBears _ _ hEntry) (fun e => ihHandler e hNone)
        (hBears _ _ hLabel)
        (ihInner fun c hc => hSame c (.inl hc)) hApart
  | recoveryOutcome hRow _ ih =>
      exact .recoveryOutcome (Eq.trans (hSame _ rfl) hRow)
        fun e => ih e hNone
  | cleanupEntry hRow hEntry hCompensation hLabel _ hApart
      ihInner =>
      exact .cleanupEntry (Eq.trans (hSame _ (.inr rfl)) hRow)
        (hBears _ _ hEntry) (hSustains.careful hCompensation)
        (hBears _ _ hLabel)
        (ihInner fun c hc => hSame c (.inl hc)) hApart
  | cleanupOutcome hRow hCompensation =>
      exact .cleanupOutcome (Eq.trans (hSame _ rfl) hRow)
        (hSustains.careful hCompensation)

theorem Session.Opens.later
    {v : Value}
    (h : s.Opens m t v opened F)
    (hSustains : s.Sustains s')
    (hSame : ∀ c, F c → s.SameAt s' c) :
    s'.Opens m t v opened F := by
  cases h with
  | ends h => exact .ends h
  | suspends hStep hLabel h =>
      exact .suspends hStep (hSustains.bears _ _ _ hLabel)
        (h.later hSustains hSame)

/- All that a step comes back to belongs to the task. -/
theorem Session.Opens.belongs
    {v : Value}
    (h : s.Opens m t v opened F)
    {c : Cell}
    (hc : F c) :
    s.Belongs t c := by
  cases h with
  | ends h => exact hc.elim
  | suspends hStep hLabel h => exact h.belongs hc

end Later

end Resumption

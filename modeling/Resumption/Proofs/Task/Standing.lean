import Resumption.Property
import Resumption.Proofs.World
import Resumption.Proofs.Task.Course

/-
  How the tasks of a session stand: what ties the phase of a
  task to the cell of its driver, and what others leave
  alone when they do something else.

  Main declarations:
    * `Session.Drives`, `Session.ending`
    * `Session.Tokens`, `Session.Pledged`
    * `Session.Extends`, `Session.Unmoved`
    * `Seated`, `Placed`, `Held`, `Minds`
    * `Session.Lost`, `Session.Spares`
    * `Placed.unmoved`, `Held.unmoved`, `Minds.unmoved`
-/

namespace Resumption

------------------------------------------------------------
-- Reading a Session
------------------------------------------------------------

namespace Session

/- The story of a task, the latest moment first. -/
def story
    (s : Session)
    (t : Ref) : List Moment :=
  (s.tasks.getD t default).story

/- The outcome of a future that has settled. -/
def outcome?
    (s : Session)
    (f : Ref) : Option Outcome :=
  (s.futures.getD f default).settlement.map (·.outcome)

/- Those who wait for a future. -/
def watchers
    (s : Session)
    (f : Ref) : List Closure :=
  (s.futures.getD f default).watchers.toList

/- Everyone who ever came to wait for a future. -/
def audience
    (s : Session)
    (f : Ref) : List Closure :=
  (s.futures.getD f default).audience

/- The identifier of a label. -/
def labelId
    (s : Session)
    (l : Ref) : Value :=
  (s.labels.getD l default).id

/- A driver drives a task. -/
def Drives
    (s : Session)
    (t d : Ref)
    (cell : DriverCell) : Prop :=
  s.drivers[d]? = some cell ∧ cell.emitter.task = t

/- How a driver's task ended, if it has. -/
def ending
    (s : Session)
    (cell : DriverCell) : Option Outcome :=
  match cell.output with
  | some f => s.outcome? f
  | none => cell.early

/- A future is the output of a driver. -/
def IsOutput
    (s : Session)
    (f : Ref) : Prop :=
  ∃ (d : Nat) (cell : DriverCell),
    s.drivers[d]? = some cell ∧ cell.output = some f

/- A driver handed its task off to something else than a future. -/
def Stray
    (s : Session)
    (d : Ref) : Prop :=
  ∃ (cell : DriverCell) (v : Value), s.drivers[d]? = some cell ∧
    .handsOver v ∈ s.story cell.emitter.task ∧
      ∀ f, v ≠ .future f

/- A driver gave a callback to something else than a future. -/
def Escaped
    (s : Session)
    (d callback : Ref) : Prop :=
  ∃ (cell : DriverCell), s.drivers[d]? = some cell ∧
    .asks (some callback) none ∈ s.story cell.emitter.task

/- A driver has been in a last state. -/
def Over
    (s : Session)
    (d : Ref) : Prop :=
  ∃ (cell : DriverCell) (state : DriverState),
    s.drivers[d]? = some cell ∧ state.IsFinal ∧
      .stands state ∈ s.story cell.emitter.task

/- A callback of a driver can do no harm in anyone's hands. -/
def Idle
    (s : Session)
    (d callback : Ref) : Prop :=
  s.Escaped d callback ∨ s.Over d

end Session

/- What a driver's callback is for. -/
inductive Errand where
  /- To go on with the task. -/
  | resume
  /- To end the task as a future has ended. -/
  | conclude

namespace Session

/-
  A closure is how a driver is told that a future has
  settled, and nobody but the future may have it.
-/
def Tokens
    (s : Session)
    (d : Ref)
    (e : Errand)
    (c : Closure) : Prop :=
  match e with
  | .resume =>
      ∃ callback, c = .driverResume d callback ∧
        ¬ s.Idle d callback
  | .conclude =>
      (∃ awaiter, c = .driverOutcome d awaiter) ∧ ¬ s.Stray d

/- A future is to tell a driver of its settlement. -/
def Pledged
    (s : Session)
    (d : Ref)
    (e : Errand) : Prop :=
  ∃ f, ∃ w ∈ s.watchers f, s.Tokens d e w

end Session

/- What a driver asked for: the callback, and the future. -/
def Moment.asked? :
    Moment → Option (Option Ref × Option Ref)
  | .asks callback future => some (callback, future)
  | _ => none

/- Does a driver go on, or end its task, as it was called back? -/
def Moment.isTurn : Moment → Bool
  | .stands .running => true
  | .concludes => true
  | _ => false

namespace Session

/- What the driver of a task asked for last. -/
def asked?
    (s : Session)
    (t : Ref) : Option (Option Ref × Option Ref) :=
  (s.story t).findSome? Moment.asked?

/- How often the driver of a task has gone on. -/
def turns
    (s : Session)
    (t : Ref) : Nat :=
  (s.story t).countP Moment.isTurn

end Session

------------------------------------------------------------
-- What Others Leave Alone
------------------------------------------------------------

/- Whatever happens, some things are only added to. -/
structure Session.Extends (s s' : Session) : Prop where
  tasks : s.tasks.size ≤ s'.tasks.size
  futures : s.futures.size ≤ s'.futures.size
  labels : s.labels.size ≤ s'.labels.size
  stories : ∀ t, ∃ later, s'.story t = later ++ s.story t
  settled : ∀ f o, s.outcome? f = some o →
    s'.outcome? f = some o
  audience : ∀ f, ∀ w ∈ s.audience f, w ∈ s'.audience f
  ids : ∀ l < s.labels.size, s'.labelId l = s.labelId l
  awaiters : ∀ (a : Nat) (cell : AwaiterCell),
    s.awaiters[a]? = some cell → s'.awaiters[a]? = some cell
  drivers : ∀ (d : Nat) (cell : DriverCell),
    s.drivers[d]? = some cell →
    ∃ cell' : DriverCell, s'.drivers[d]? = some cell' ∧
      cell'.emitter = cell.emitter ∧
      ∀ f, cell.output = some f → cell'.output = some f
  outputs : ∀ f < s.futures.size, s'.IsOutput f → s.IsOutput f

/- Nothing happened to a task. -/
structure Session.Unmoved
    (t : Ref)
    (s s' : Session) : Prop where
  story : s'.story t = s.story t
  drives : ∀ d cell, s'.Drives t d cell ↔ s.Drives t d cell
  ending : ∀ d cell, s.Drives t d cell →
    s'.ending cell = s.ending cell
  tokens : ∀ d cell e f w, s.Drives t d cell →
    w ∈ s'.watchers f → s'.Tokens d e w →
      w ∈ s.watchers f ∧ s.Tokens d e w

namespace Session

variable {s s₁ s₂ s₃ : Session}
variable {t : Ref}

theorem Extends.refl
    (s : Session) :
    s.Extends s where
  tasks := Nat.le_refl _
  futures := Nat.le_refl _
  labels := Nat.le_refl _
  stories _ := ⟨[], rfl⟩
  settled _ _ h := h
  audience _ _ h := h
  ids _ _ := rfl
  awaiters _ _ h := h
  drivers _ cell h := ⟨cell, h, rfl, fun _ ho => ho⟩
  outputs _ _ h := h

theorem Extends.trans
    (h : s₁.Extends s₂)
    (h' : s₂.Extends s₃) :
    s₁.Extends s₃ where
  tasks := Nat.le_trans h.tasks h'.tasks
  futures := Nat.le_trans h.futures h'.futures
  labels := Nat.le_trans h.labels h'.labels
  stories t := by
    rcases h.stories t with ⟨later, hLater⟩
    rcases h'.stories t with ⟨latest, hLatest⟩
    exact ⟨latest ++ later, by
      rw [hLatest, hLater, List.append_assoc]⟩
  settled f o ho := h'.settled f o (h.settled f o ho)
  audience f w hw := h'.audience f w (h.audience f w hw)
  ids l hl :=
    (h'.ids l (Nat.lt_of_lt_of_le hl h.labels)).trans
      (h.ids l hl)
  awaiters a cell hCell :=
    h'.awaiters a cell (h.awaiters a cell hCell)
  drivers d cell hCell := by
    rcases h.drivers d cell hCell with ⟨cell₂, h₂, he, ho⟩
    rcases h'.drivers d cell₂ h₂ with ⟨cell₃, h₃, he', ho'⟩
    exact ⟨cell₃, h₃, he'.trans he,
      fun f hf => ho' f (ho f hf)⟩
  outputs f hf hOut :=
    h.outputs f hf
      (h'.outputs f (Nat.lt_of_lt_of_le hf h.futures) hOut)

theorem Unmoved.refl
    (t : Ref)
    (s : Session) :
    Unmoved t s s where
  story := rfl
  drives _ _ := Iff.rfl
  ending _ _ _ := rfl
  tokens _ _ _ _ _ _ hw ht := ⟨hw, ht⟩

theorem Unmoved.pledged
    {d : Ref}
    {cell : DriverCell}
    {e : Errand}
    (h : Unmoved t s₁ s₂)
    (hDrives : s₁.Drives t d cell)
    (hp : s₂.Pledged d e) :
    s₁.Pledged d e := by
  rcases hp with ⟨f, w, hw, hToken⟩
  exact ⟨f, w, h.tokens d cell e f w hDrives hw hToken⟩

theorem Unmoved.trans
    (h : Unmoved t s₁ s₂)
    (h' : Unmoved t s₂ s₃) :
    Unmoved t s₁ s₃ where
  story := h'.story.trans h.story
  drives d cell := (h'.drives d cell).trans (h.drives d cell)
  ending d cell hd :=
    (h'.ending d cell ((h.drives d cell).mpr hd)).trans
      (h.ending d cell hd)
  tokens d cell e f w hd hw ht := by
    have hd' := (h.drives d cell).mpr hd
    rcases h'.tokens d cell e f w hd' hw ht with ⟨hw', ht'⟩
    exact h.tokens d cell e f w hd hw' ht'

/- Whether a driver went astray is part of its task's story. -/
theorem Drives.stray_iff
    {d : Ref}
    {cell : DriverCell}
    (h : s.Drives t d cell) :
    s.Stray d ↔
      ∃ v, .handsOver v ∈ s.story t ∧ ∀ f, v ≠ .future f := by
  constructor
  · rintro ⟨cell', v, hCell', hMem, hv⟩
    have hCell := Option.some.inj (h.1.symm.trans hCell')
    subst hCell
    exact ⟨v, h.2 ▸ hMem, hv⟩
  · rintro ⟨v, hMem, hv⟩
    exact ⟨cell, v, h.1, h.2 ▸ hMem, hv⟩

/- So is whether a callback escaped, and the end. -/
theorem Drives.escaped_iff
    {d callback : Ref}
    {cell : DriverCell}
    (h : s.Drives t d cell) :
    s.Escaped d callback ↔
      .asks (some callback) none ∈ s.story t := by
  constructor
  · rintro ⟨cell', hCell', hMem⟩
    have hCell := Option.some.inj (h.1.symm.trans hCell')
    subst hCell
    exact h.2 ▸ hMem
  · intro hMem
    exact ⟨cell, h.1, h.2 ▸ hMem⟩

theorem Drives.over_iff
    {d : Ref}
    {cell : DriverCell}
    (h : s.Drives t d cell) :
    s.Over d ↔
      ∃ state : DriverState, state.IsFinal ∧
        .stands state ∈ s.story t := by
  constructor
  · rintro ⟨cell', state, hCell', hFinal, hMem⟩
    have hCell := Option.some.inj (h.1.symm.trans hCell')
    subst hCell
    exact ⟨state, hFinal, h.2 ▸ hMem⟩
  · rintro ⟨state, hFinal, hMem⟩
    exact ⟨cell, state, h.1, hFinal, h.2 ▸ hMem⟩

/- A story keeps what was once part of it. -/
theorem Extends.mem_story
    {m : Moment}
    (h : s₁.Extends s₂)
    (hm : m ∈ s₁.story t) :
    m ∈ s₂.story t := by
  rcases h.stories t with ⟨later, hLater⟩
  rw [hLater]
  exact List.mem_append_right _ hm

theorem Extends.stray
    {d : Ref}
    (h : s₁.Extends s₂)
    (hd : s₁.Stray d) :
    s₂.Stray d := by
  rcases hd with ⟨cell, v, hCell, hMem, hv⟩
  rcases h.drivers d cell hCell with ⟨cell', hCell', he, _⟩
  refine ⟨cell', v, hCell', ?_, hv⟩
  rw [he]
  exact h.mem_story hMem

theorem Extends.idle
    {d callback : Ref}
    (h : s₁.Extends s₂)
    (hIdle : s₁.Idle d callback) :
    s₂.Idle d callback := by
  rcases hIdle with ⟨cell, hCell, hMem⟩ |
    ⟨cell, state, hCell, hFinal, hMem⟩
  · rcases h.drivers d cell hCell with ⟨cell', hCell', he, _⟩
    refine .inl ⟨cell', hCell', ?_⟩
    rw [he]
    exact h.mem_story hMem
  · rcases h.drivers d cell hCell with ⟨cell', hCell', he, _⟩
    refine .inr ⟨cell', state, hCell', hFinal, ?_⟩
    rw [he]
    exact h.mem_story hMem

/- What only a future may have, only one could have before. -/
theorem Extends.tokens
    {d : Ref}
    {e : Errand}
    {c : Closure}
    (h : s₁.Extends s₂)
    (hToken : s₂.Tokens d e c) :
    s₁.Tokens d e c := by
  cases e with
  | resume =>
      rcases hToken with ⟨callback, rfl, hIdle⟩
      exact ⟨callback, rfl, fun hOld => hIdle (h.idle hOld)⟩
  | conclude => exact ⟨hToken.1, fun hs => hToken.2 (h.stray hs)⟩

/- Drivers go on more and more often. -/
theorem Extends.turns
    (h : s₁.Extends s₂)
    (t : Ref) :
    s₁.turns t ≤ s₂.turns t := by
  rcases h.stories t with ⟨later, hLater⟩
  unfold Session.turns
  rw [hLater, List.countP_append]
  exact Nat.le_add_left _ _

end Session

------------------------------------------------------------
-- Phases and Drivers
------------------------------------------------------------

/- All callbacks of a driver have fired. -/
def DriverCell.Spent (cell : DriverCell) : Prop :=
  ∀ i, cell.fired.getD i true = true

/- At most one callback of a driver has not fired. -/
def DriverCell.Single (cell : DriverCell) : Prop :=
  ∀ i j, cell.fired.getD i true = false →
    cell.fired.getD j true = false → i = j

/- No callback of a driver can move its task on. -/
def DriverCell.Shut (cell : DriverCell) : Prop :=
  cell.Spent ∨ cell.state.IsFinal

namespace Phase

/- What a future may still tell a driver in a phase. -/
def pledges? : Phase → Option Errand
  | .waiting _ _ => some .resume
  | .deciding => some .resume
  | .handing => some .conclude
  | .objecting => some .conclude
  | .overturning => some .conclude
  | .overruling _ => some .conclude
  | .overruled _ => some .conclude
  | .relapsing => some .conclude
  | .spoilt => some .conclude
  | .wild => some .conclude
  | _ => none

/- A future may still have a driver's callback in a phase. -/
def Pledges
    (p : Phase)
    (e : Errand) : Prop :=
  p.pledges? = some e

/- In these phases the driver waits to be called back. -/
def expects? : Phase → Option Errand
  | .waiting _ _ => some .resume
  | .handing => some .conclude
  | _ => none

/-
  In these phases nobody is at work on the task.  That it is
  being overruled is excused where somebody will see to it.
-/
def Rests (excused : Prop) : Phase → Prop
  | .atOnce _ => True
  | .passedOn => True
  | .named _ => True
  | .waiting _ _ => True
  | .handing => True
  | .ended _ => True
  | .overruling _ => excused
  | .overruled _ => True
  | .spoilt => True
  | .wild => True
  | _ => False

theorem Rests.mono
    {p : Phase}
    {a b : Prop}
    (h : p.Rests a)
    (hab : a → b) :
    p.Rests b := by
  cases p <;> first | exact h | exact hab h

end Phase

/- A driver's cell suits the phase that its task rests in. -/
def Suits
    (s : Session)
    (cell : DriverCell) : Phase → Prop
  | .named _ => cell.Spent ∧ s.ending cell = none
  | .waiting l id =>
      cell.current = l ∧ cell.first = none ∧ cell.Single ∧
        s.ending cell = none ∧
        ∀ n, id = .int n →
          s.property? l "id" = some (.int n)
  | .handing => cell.Spent ∧ s.ending cell = none
  | .ended v =>
      cell.Shut ∧ (s.ending cell).map Outcome.verdict = some v
  | .overruling _ => cell.Spent ∧ s.ending cell = none
  | .overruled v =>
      cell.Spent ∧ (s.ending cell).map Outcome.verdict = some v
  | .spoilt => cell.Shut
  | .wild => cell.Spent
  | _ => False

/-
  A moment answers nobody, and asks for one of so many
  callbacks if it asks for any.
-/
def Moment.Fits (callbacks : Nat) : Moment → Prop
  | .answers _ => False
  | .asks (some callback) _ => callback < callbacks
  | _ => True

theorem Moment.Fits.mono
    {m : Moment}
    {n n' : Nat}
    (h : m.Fits n)
    (hLe : n ≤ n') :
    m.Fits n' := by
  cases m with
  | asks callback future =>
      cases callback with
      | none => trivial
      | some k => exact Nat.lt_of_lt_of_le h hLe
  | answers v => exact h
  | _ => trivial

/-
  Whoever started a task was answered with its output, and
  its driver asked for callbacks of its own.
-/
structure Session.Linked
    (s : Session)
    (t : Ref)
    (cell : DriverCell) : Prop where
  answered : ∀ v, .answers v ∈ s.story t →
    ∃ f, v = .future f ∧ cell.output = some f
  asked : ∀ callback future,
    .asks (some callback) future ∈ s.story t →
      callback < cell.fired.size

/- A phase without a driver, and what was answered in it. -/
def Undriven
    (s : Session)
    (t : Ref) : Phase → Prop
  | .atOnce v =>
      ∀ f, .answers (.future f) ∈ s.story t →
        (s.outcome? f).map Outcome.verdict = some v
  | .passedOn => True
  | _ => False

/- A task is in a phase, with or without a driver. -/
def Seated
    (s : Session)
    (t : Ref)
    (p : Phase) : Prop :=
  ((∀ d cell, ¬ s.Drives t d cell) ∧ Undriven s t p) ∨
    ∃ d cell, s.Drives t d cell ∧ s.Linked t cell ∧
      Suits s cell p ∧ ∀ e, s.Pledged d e → p.Pledges e

/- A task rests in a phase that its story leads to. -/
def Placed
    (excused : Prop)
    (s : Session)
    (t : Ref) : Prop :=
  ∃ p : Phase, p.Rests excused ∧ Course (s.story t) p ∧
    Seated s t p

/-
  Nothing that is called makes a driver act: it takes no
  callback, or nobody has the one that it would take.
-/
structure Still
    (s : Session)
    (d : Ref)
    (cell : DriverCell) : Prop where
  shut : cell.Shut ∨ ∀ callback,
    cell.fired.getD callback true = false →
      ¬ s.Idle d callback
  unpledged : ∀ e, ¬ s.Pledged d e
  steady : ¬ s.Stray d

/-
  What a driver asked for is what it waits for.  A task that
  was ended more than once has ended, or is excused.
-/
def Mindful
    (excused : Prop)
    (s : Session)
    (d : Ref)
    (cell : DriverCell) : Phase → Prop
  | .named l => l.isMissing
  | .waiting _ _ =>
      cell.state = .suspended ∧ ∃ callback future,
        s.asked? cell.emitter.task =
          some (some callback, future) ∧
        cell.fired.getD callback true = false ∧
        ∀ f, ∀ w ∈ s.watchers f, s.Tokens d .resume w →
          w = .driverResume d callback ∧ future = some f
  | .handing =>
      cell.state = .suspended ∧ ∃ future,
        s.asked? cell.emitter.task = some (none, future) ∧
        ∀ f, ∀ w ∈ s.watchers f, s.Tokens d .conclude w →
          future = some f
  | .spoilt => excused ∨ (s.ending cell).isSome
  | _ => True

/- The driver of a task is mindful of what it asked for. -/
def Minds
    (excused : Prop)
    (s : Session)
    (t : Ref) : Prop :=
  ∀ d cell p, s.Drives t d cell → Course (s.story t) p →
    Mindful excused s d cell p

/-
  The driver of a task waits for a future that will not call
  it back.
-/
def Session.Lost
    (s : Session)
    (t : Ref) : Prop :=
  ∃ d cell p e callback f, s.Drives t d cell ∧
    Course (s.story t) p ∧ p.expects? = some e ∧
    s.asked? t = some (callback, some f) ∧ ¬ s.Pledged d e

/- No driver was lost, and those that were have not gone on. -/
def Session.Spares (s s' : Session) : Prop :=
  ∀ t, s'.Lost t → s.Lost t ∧ s'.turns t = s.turns t

/- A task that is being worked on is left alone by all others. -/
def Held
    (s : Session)
    (t : Ref) : Prop :=
  t < s.tasks.size ∧
    ∀ d cell, s.Drives t d cell → Still s d cell

section Unmoved

open Session

variable {s s' : Session}
variable {t : Ref}

/- No value has an item of that name. -/
private theorem item?_id
    (s : Session)
    (v : Value) :
    s.item? v "id" = none := by
  have hRepr : ∀ n : Nat, n.repr ≠ "id" := by
    intro n h
    have hMem : 'i' ∈ Nat.toDigits 10 n := by
      rw [← Nat.toList_repr, h]
      decide
    have hDigit := Nat.isDigit_of_mem_toDigits
      (by decide) (by decide) hMem
    exact absurd hDigit (by decide)
  simp [Session.item?, hRepr]

theorem Session.property?_id
    (s : Session)
    (v : Value) :
    s.property? v "id" = (s.fieldsOf v).lookup "id" := by
  simp [Session.property?, item?_id]

/- A label that has a number is one of the session's labels. -/
private theorem lt_of_labelId
    {l : Nat}
    {n : Int}
    (h : s.labelId l = .int n) :
    l < s.labels.size := by
  by_cases hl : l < s.labels.size
  · exact hl
  · rw [Session.labelId, getD_of_size_le _ (by omega)] at h
    cases h

/- Only labels and records have an identifier. -/
private theorem lookup_id
    {v : Value}
    (hLabel : ∀ l, v ≠ .label l)
    (hRecord : ∀ id fields, v ≠ .record id fields) :
    (s.fieldsOf v).lookup "id" = none := by
  cases v <;>
    simp_all [fieldsOf, futureFields, causeField,
      ControlledCell.stats]
  all_goals
    intro key w hMem hKey
    subst hKey
    split at hMem <;> simp [IterationCount.stats] at hMem

/- What has a number as its identifier keeps it. -/
theorem Session.Extends.property?_id
    (h : s.Extends s')
    {v : Value}
    {n : Int}
    (hId : s.property? v "id" = some (.int n)) :
    s'.property? v "id" = some (.int n) := by
  rw [Session.property?_id] at hId ⊢
  by_cases hLabel : ∃ l, v = .label l
  · rcases hLabel with ⟨l, rfl⟩
    have hNumber : s.labelId l = .int n := by
      simpa [fieldsOf, labelId] using hId
    have hSame := h.ids l (lt_of_labelId hNumber)
    rw [hNumber] at hSame
    simpa [fieldsOf, labelId] using hSame
  · by_cases hRecord : ∃ id fields, v = .record id fields
    · rcases hRecord with ⟨id, fields, rfl⟩
      exact hId
    · rw [lookup_id (fun l hl => hLabel ⟨l, hl⟩)
        fun id fields hr => hRecord ⟨id, fields, hr⟩] at hId
      cases hId

/- Whether a callback is idle is up to its task alone. -/
theorem Session.Unmoved.idle
    {d callback : Ref}
    {cell : DriverCell}
    (h : Unmoved t s s')
    (hDrives : s.Drives t d cell)
    (hIdle : s'.Idle d callback) :
    s.Idle d callback := by
  have hDrives' := (h.drives d cell).mpr hDrives
  rcases hIdle with hEscaped | hOver
  · rw [hDrives'.escaped_iff, h.story] at hEscaped
    exact .inl (hDrives.escaped_iff.mpr hEscaped)
  · rw [hDrives'.over_iff, h.story] at hOver
    exact .inr (hDrives.over_iff.mpr hOver)

/- So is whether its driver went astray. -/
theorem Session.Unmoved.stray
    {d : Ref}
    {cell : DriverCell}
    (h : Unmoved t s s')
    (hDrives : s.Drives t d cell)
    (hStray : s'.Stray d) :
    s.Stray d := by
  have hDrives' := (h.drives d cell).mpr hDrives
  rw [hDrives'.stray_iff, h.story] at hStray
  exact hDrives.stray_iff.mpr hStray

/- What tells a driver that nothing happened to, still does. -/
theorem Session.Unmoved.tokens_of
    {d : Ref}
    {cell : DriverCell}
    {e : Errand}
    {w : Closure}
    (h : Unmoved t s s')
    (hDrives : s.Drives t d cell)
    (hToken : s.Tokens d e w) :
    s'.Tokens d e w := by
  cases e with
  | resume =>
      rcases hToken with ⟨callback, rfl, hIdle⟩
      exact ⟨callback, rfl,
        fun hNew => hIdle (h.idle hDrives hNew)⟩
  | conclude =>
      exact ⟨hToken.1, fun hNew =>
        hToken.2 (h.stray hDrives hNew)⟩

------------------------------------------------------------
-- Standing Still
------------------------------------------------------------

/- A cell suits a phase as long as its output is left alone. -/
theorem Suits.extends
    {cell : DriverCell}
    {p : Phase}
    (h : Suits s cell p)
    (hExtends : s.Extends s')
    (hEnding : s'.ending cell = s.ending cell) :
    Suits s' cell p := by
  cases p with
  | waiting l id =>
      rcases h with ⟨hCurrent, hFirst, hSingle, hNone, hId⟩
      exact ⟨hCurrent, hFirst, hSingle, hEnding.trans hNone,
        fun n hn => hExtends.property?_id (hId n hn)⟩
  | spoilt => exact h
  | wild => exact h
  | named l | handing | ended v | overruling v
  | overruled v => simpa only [Suits, hEnding] using h
  | _ => exact h

theorem Seated.unmoved
    {p : Phase}
    (h : Seated s t p)
    (hUnmoved : Unmoved t s s')
    (hExtends : s.Extends s') :
    Seated s' t p := by
  rcases h with ⟨hNone, hUndriven⟩ |
    ⟨d, cell, hDrives, hLinked, hSuits, hPledges⟩
  · refine .inl ⟨fun d cell hd =>
      hNone d cell ((hUnmoved.drives d cell).mp hd), ?_⟩
    cases p with
    | atOnce v =>
        intro f hf
        have hOld := hUndriven f (hUnmoved.story ▸ hf)
        rcases hOutcome : s.outcome? f with _ | o
        · simp [hOutcome] at hOld
        · rw [hExtends.settled f o hOutcome, ← hOutcome]
          exact hOld
    | passedOn => trivial
    | _ => exact hUndriven
  · refine .inr ⟨d, cell, (hUnmoved.drives d cell).mpr hDrives,
      ?_, ?_, ?_⟩
    · exact ⟨fun v hv =>
          hLinked.answered v (hUnmoved.story ▸ hv),
        fun k a hk => hLinked.asked k a (hUnmoved.story ▸ hk)⟩
    · exact hSuits.extends hExtends
        (hUnmoved.ending d cell hDrives)
    · intro e hp
      exact hPledges e (hUnmoved.pledged hDrives hp)

/- A task that nothing happened to rests where it rested. -/
theorem Placed.unmoved
    {excused : Prop}
    (h : Placed excused s t)
    (hUnmoved : Unmoved t s s')
    (hExtends : s.Extends s') :
    Placed excused s' t := by
  rcases h with ⟨p, hRests, hCourse, hSeated⟩
  exact ⟨p, hRests, hUnmoved.story ▸ hCourse,
    hSeated.unmoved hUnmoved hExtends⟩

theorem Placed.mono
    {a b : Prop}
    (h : Placed a s t)
    (hab : a → b) :
    Placed b s t := by
  rcases h with ⟨p, hRests, hCourse, hSeated⟩
  exact ⟨p, hRests.mono hab, hCourse, hSeated⟩

theorem Held.unmoved
    (h : Held s t)
    (hUnmoved : Unmoved t s s')
    (hExtends : s.Extends s') :
    Held s' t := by
  refine ⟨Nat.lt_of_lt_of_le h.1 hExtends.tasks, ?_⟩
  intro d cell hd
  have hDrives := (hUnmoved.drives d cell).mp hd
  rcases h.2 d cell hDrives with ⟨hShut, hPledged, hSteady⟩
  refine ⟨hShut.imp_right fun hLeft callback hc hIdle =>
      hLeft callback hc (hUnmoved.idle hDrives hIdle),
    fun e hp => hPledged e (hUnmoved.pledged hDrives hp),
    fun hp => hSteady (hUnmoved.stray hDrives hp)⟩

theorem Mindful.unmoved
    {excused : Prop}
    {d : Ref}
    {cell : DriverCell}
    {p : Phase}
    (h : Mindful excused s d cell p)
    (hDrives : s.Drives t d cell)
    (hUnmoved : Unmoved t s s') :
    Mindful excused s' d cell p := by
  have hAsked : s'.asked? cell.emitter.task =
      s.asked? cell.emitter.task := by
    unfold Session.asked?
    rw [hDrives.2, hUnmoved.story]
  cases p with
  | waiting l id =>
      rcases h with ⟨hState, k, a, hLast, hLeft, hTokens⟩
      refine ⟨hState, k, a, hAsked.trans hLast, hLeft, ?_⟩
      intro f w hw hToken
      rcases hUnmoved.tokens d cell _ f w hDrives hw hToken
        with ⟨hw', hToken'⟩
      exact hTokens f w hw' hToken'
  | handing =>
      rcases h with ⟨hState, a, hLast, hTokens⟩
      refine ⟨hState, a, hAsked.trans hLast, ?_⟩
      intro f w hw hToken
      rcases hUnmoved.tokens d cell _ f w hDrives hw hToken
        with ⟨hw', hToken'⟩
      exact hTokens f w hw' hToken'
  | spoilt =>
      refine h.imp_right fun hEnding => ?_
      rw [hUnmoved.ending d cell hDrives]
      exact hEnding
  | _ => exact h

theorem Minds.unmoved
    {excused : Prop}
    (h : Minds excused s t)
    (hUnmoved : Unmoved t s s') :
    Minds excused s' t := by
  intro d cell p hd hCourse
  have hDrives := (hUnmoved.drives d cell).mp hd
  have hOld := h d cell p hDrives (hUnmoved.story ▸ hCourse)
  exact hOld.unmoved hDrives hUnmoved

theorem Mindful.mono
    {a b : Prop}
    {d : Ref}
    {cell : DriverCell}
    {p : Phase}
    (h : Mindful a s d cell p)
    (hab : a → b) :
    Mindful b s d cell p := by
  cases p with
  | spoilt => exact h.imp_left hab
  | _ => exact h

theorem Minds.mono
    {a b : Prop}
    (h : Minds a s t)
    (hab : a → b) :
    Minds b s t :=
  fun d cell p hDrives hCourse =>
    (h d cell p hDrives hCourse).mono hab

/- A driver that keeps its callback where it was is not lost. -/
theorem Session.Lost.of_unmoved
    (h : s'.Lost t)
    (hUnmoved : Unmoved t s s')
    (hWatchers : ∀ f, ∀ w ∈ s.watchers f, w ∈ s'.watchers f) :
    s.Lost t := by
  rcases h with
    ⟨d, cell, p, e, k, f, hd, hCourse, hExpects, hAsked, hNot⟩
  have hDrives := (hUnmoved.drives d cell).mp hd
  refine ⟨d, cell, p, e, k, f, hDrives,
    hUnmoved.story ▸ hCourse, hExpects, ?_, ?_⟩
  · unfold Session.asked? at hAsked ⊢
    rw [← hUnmoved.story]
    exact hAsked
  · rintro ⟨f', w, hw, hToken⟩
    exact hNot ⟨f', w, hWatchers f' w hw,
      hUnmoved.tokens_of hDrives hToken⟩

/- In other phases than those of waiting no driver is lost. -/
theorem Session.not_lost
    {p : Phase}
    (hCourse : Course (s.story t) p)
    (hExpects : p.expects? = none) :
    ¬ s.Lost t := by
  rintro ⟨_, _, p', e, _, _, _, hCourse', hExpects', _⟩
  rw [hCourse'.det hCourse, hExpects] at hExpects'
  cases hExpects'

theorem Session.Unmoved.turns
    (h : Unmoved t s s') :
    s'.turns t = s.turns t := by
  unfold Session.turns
  rw [h.story]

theorem Session.Spares.refl
    (s : Session) :
    s.Spares s :=
  fun _ h => ⟨h, rfl⟩

theorem Session.Spares.trans
    {s₁ s₂ s₃ : Session}
    (h : s₁.Spares s₂)
    (h' : s₂.Spares s₃) :
    s₁.Spares s₃ := by
  intro t ht
  rcases h' t ht with ⟨ht₂, hTurns₂⟩
  rcases h t ht₂ with ⟨ht₁, hTurns₁⟩
  exact ⟨ht₁, hTurns₂.trans hTurns₁⟩

/- What happens to no task loses no driver. -/
theorem Session.Spares.of_unmoved
    (hUnmoved : ∀ t, Unmoved t s s')
    (hWatchers : ∀ f, ∀ w ∈ s.watchers f, w ∈ s'.watchers f) :
    s.Spares s' :=
  fun t ht => ⟨ht.of_unmoved (hUnmoved t) hWatchers,
    (hUnmoved t).turns⟩

/-
  Whether somebody is lost is up to stories and watchers, and
  to which driver drives which task.
-/
theorem Session.Spares.of_stories
    (hStories : ∀ t, s'.story t = s.story t)
    (hDrivers : ∀ t d cell', s'.Drives t d cell' →
      ∃ cell, s.Drives t d cell)
    (hWatchers : ∀ f, ∀ w ∈ s.watchers f, w ∈ s'.watchers f) :
    s.Spares s' := by
  rintro t ⟨d, cell', p, e, k, f, hDrives', hCourse, hExpects,
    hAsked, hNot⟩
  rcases hDrivers t d cell' hDrives' with ⟨cell, hDrives⟩
  have hTurns : s'.turns t = s.turns t := by
    unfold Session.turns
    rw [hStories]
  refine ⟨⟨d, cell, p, e, k, f, hDrives, hStories t ▸ hCourse,
    hExpects, ?_, ?_⟩, hTurns⟩
  · unfold Session.asked? at hAsked ⊢
    rw [← hStories]
    exact hAsked
  · rintro ⟨f', w, hw, hToken⟩
    refine hNot ⟨f', w, hWatchers f' w hw, ?_⟩
    cases e with
    | resume =>
        rcases hToken with ⟨callback, rfl, hIdle⟩
        refine ⟨callback, rfl, fun hNew => hIdle ?_⟩
        refine hNew.imp (fun hOut => ?_) fun hOver => ?_
        · exact hDrives.escaped_iff.mpr
            (hStories t ▸ hDrives'.escaped_iff.mp hOut)
        · exact hDrives.over_iff.mpr
            (hStories t ▸ hDrives'.over_iff.mp hOver)
    | conclude =>
        refine ⟨hToken.1, fun hNew => hToken.2 ?_⟩
        exact hDrives.stray_iff.mpr
          (hStories t ▸ hDrives'.stray_iff.mp hNew)

end Unmoved

end Resumption

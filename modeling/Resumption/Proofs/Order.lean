import Resumption.Proofs.Network.Futures
import Resumption.Proofs.World.Constructs

/-
  The order of label tables and of constructs, and how they
  grow.

  What a machine allocated is numbered by its place in the
  machine's table, and stays there.  Rows of constructs keep
  the machine and the labels that they were built with, and a
  cleanup counts as compensated exactly if its compensation
  was invoked, which happens once.  A future keeps everyone
  who came to watch it until it settles, and nobody then.

  Main declarations:
    * `Session.table`, `Session.compensations`
    * `Session.Orderly`
    * `Session.Grows`
    * `Session.Bears.later`
-/

namespace Resumption

------------------------------------------------------------
-- Tables that Grow
------------------------------------------------------------

/- Every row is there later, as what it may turn into. -/
def Persists
    {α : Type}
    (becomes : α → α → Prop)
    (rows rows' : Array α) : Prop :=
  ∀ (i : Nat) (row : α), rows[i]? = some row →
    ∃ row', rows'[i]? = some row' ∧ becomes row row'

namespace Persists

variable {α : Type}
variable {becomes : α → α → Prop}
variable {rows rows' rows'' : Array α}

theorem refl
    (h : ∀ row, becomes row row)
    (rows : Array α) :
    Persists becomes rows rows :=
  fun _ row hRow => ⟨row, hRow, h row⟩

theorem trans
    (hTrans : ∀ {a b c},
      becomes a b → becomes b c → becomes a c)
    (h : Persists becomes rows rows')
    (h' : Persists becomes rows' rows'') :
    Persists becomes rows rows'' := by
  intro i row hRow
  rcases h i row hRow with ⟨row', hRow', hBecomes⟩
  rcases h' i row' hRow' with ⟨row'', hRow'', hBecomes'⟩
  exact ⟨row'', hRow'', hTrans hBecomes hBecomes'⟩

/- A row may be added. -/
theorem push
    (h : ∀ row, becomes row row)
    (rows : Array α)
    (row : α) :
    Persists becomes rows (rows.push row) := by
  intro i old hOld
  have hLt : i < rows.size :=
    (Array.getElem?_eq_some_iff.mp hOld).1
  exact ⟨old, by simp [Array.getElem?_push, hOld,
    Nat.ne_of_lt hLt], h old⟩

/- A row may be changed into what it may turn into. -/
theorem modify
    (h : ∀ row, becomes row row)
    {r : Nat}
    {f : α → α}
    (hf : ∀ row, rows[r]? = some row → becomes row (f row)) :
    Persists becomes rows (rows.modify r f) := by
  intro i row hRow
  by_cases hSame : r = i
  · subst hSame
    exact ⟨f row, by simp [Array.getElem?_modify, hRow],
      hf row hRow⟩
  · exact ⟨row, by simp [Array.getElem?_modify, hSame, hRow],
      h row⟩

theorem size_le
    (h : Persists becomes rows rows') :
    rows.size ≤ rows'.size := by
  refine Nat.le_of_not_lt fun hLess => ?_
  rcases h rows'.size rows[rows'.size]
    (Array.getElem?_eq_getElem hLess) with ⟨_, hRow, _⟩
  exact absurd (Array.getElem?_eq_some_iff.mp hRow).1
    (Nat.lt_irrefl _)

/- What a row that exists reads as later. -/
theorem getD
    [Inhabited α]
    (h : Persists becomes rows rows')
    {i : Nat}
    (hi : i < rows.size) :
    becomes (rows.getD i default) (rows'.getD i default) := by
  rcases h i rows[i] (Array.getElem?_eq_getElem hi) with
    ⟨row', hRow', hBecomes⟩
  simpa [Array.getD_eq_getD_getElem?, hRow', hi] using hBecomes

end Persists

/- A table of labels is only ever added to. -/
structure MachineCell.Becomes (c c' : MachineCell) : Prop where
  labels : c.labels.toList <+: c'.labels.toList
  assertions : c'.assertions = c.assertions

/-
  A label keeps its identity, and code under it may give way
  to a client's code only.
-/
structure LabelCell.Becomes (c c' : LabelCell) : Prop where
  id : c'.id = c.id
  machine : c'.machine = c.machine
  code : ∀ {code}, c.code = some code →
    ∃ code', c'.code = some code' ∧
      (code' = code ∨ code'.IsClient)

structure SequenceCell.Becomes (c c' : SequenceCell) : Prop where
  machine : c'.machine = c.machine
  entry : c'.entry = c.entry
  rest : c'.rest = c.rest

structure RecoveryCell.Becomes (c c' : RecoveryCell) : Prop where
  machine : c'.machine = c.machine
  entry : c'.entry = c.entry
  handler : c'.handler = c.handler

/- A compensation that was invoked remains so. -/
structure CleanupCell.Becomes (c c' : CleanupCell) : Prop where
  machine : c'.machine = c.machine
  entry : c'.entry = c.entry
  compensation : c'.compensation = c.compensation
  compensated : c.compensated = true → c'.compensated = true

/- A future settles once, and nobody comes to it after that. -/
structure FutureCell.Becomes (c c' : FutureCell) : Prop where
  settled : c.settlement.isSome →
    c'.settlement = c.settlement ∧ c'.audience = c.audience
  audience : c.audience <:+ c'.audience

/-
  Everyone who ever came watches a future that is pending, in
  the order in which they came, and nobody one that settled.
-/
def FutureCell.Attended (c : FutureCell) : Prop :=
  c.watchers.toList =
    if c.settlement.isSome then [] else c.audience.reverse

section Rows

theorem MachineCell.Becomes.refl
    (c : MachineCell) :
    c.Becomes c :=
  ⟨List.prefix_rfl, rfl⟩

theorem MachineCell.Becomes.trans
    {a b c : MachineCell}
    (h : a.Becomes b)
    (h' : b.Becomes c) :
    a.Becomes c :=
  ⟨h.labels.trans h'.labels,
    h'.assertions.trans h.assertions⟩

theorem LabelCell.Becomes.refl
    (c : LabelCell) :
    c.Becomes c :=
  ⟨rfl, rfl, fun h => ⟨_, h, .inl rfl⟩⟩

theorem LabelCell.Becomes.trans
    {a b c : LabelCell}
    (h : a.Becomes b)
    (h' : b.Becomes c) :
    a.Becomes c where
  id := h'.id.trans h.id
  machine := h'.machine.trans h.machine
  code hCode := by
    rcases h.code hCode with ⟨code₁, hCode₁, hSame₁⟩
    rcases h'.code hCode₁ with ⟨code₂, hCode₂, hSame₂⟩
    refine ⟨code₂, hCode₂, ?_⟩
    rcases hSame₂ with rfl | hClient
    · exact hSame₁
    · exact .inr hClient

theorem SequenceCell.Becomes.refl
    (c : SequenceCell) :
    c.Becomes c :=
  ⟨rfl, rfl, rfl⟩

theorem SequenceCell.Becomes.trans
    {a b c : SequenceCell}
    (h : a.Becomes b)
    (h' : b.Becomes c) :
    a.Becomes c :=
  ⟨h'.machine.trans h.machine, h'.entry.trans h.entry,
    h'.rest.trans h.rest⟩

theorem RecoveryCell.Becomes.refl
    (c : RecoveryCell) :
    c.Becomes c :=
  ⟨rfl, rfl, rfl⟩

theorem RecoveryCell.Becomes.trans
    {a b c : RecoveryCell}
    (h : a.Becomes b)
    (h' : b.Becomes c) :
    a.Becomes c :=
  ⟨h'.machine.trans h.machine, h'.entry.trans h.entry,
    h'.handler.trans h.handler⟩

theorem CleanupCell.Becomes.refl
    (c : CleanupCell) :
    c.Becomes c :=
  ⟨rfl, rfl, rfl, fun h => h⟩

theorem CleanupCell.Becomes.trans
    {a b c : CleanupCell}
    (h : a.Becomes b)
    (h' : b.Becomes c) :
    a.Becomes c :=
  ⟨h'.machine.trans h.machine, h'.entry.trans h.entry,
    h'.compensation.trans h.compensation,
    fun hDone => h'.compensated (h.compensated hDone)⟩

theorem FutureCell.Becomes.refl
    (c : FutureCell) :
    c.Becomes c :=
  ⟨fun _ => ⟨rfl, rfl⟩, List.suffix_rfl⟩

theorem FutureCell.Becomes.trans
    {a b c : FutureCell}
    (h : a.Becomes b)
    (h' : b.Becomes c) :
    a.Becomes c where
  settled hSettled := by
    rcases h.settled hSettled with ⟨hSame, hAudience⟩
    rw [← hSame] at hSettled
    rcases h'.settled hSettled with ⟨hSame', hAudience'⟩
    exact ⟨hSame'.trans hSame, hAudience'.trans hAudience⟩
  audience := h.audience.trans h'.audience

end Rows

------------------------------------------------------------
-- What Happened to Cleanups
------------------------------------------------------------

/- Is the compensation of the cleanup invoked? -/
def Incident.isCompensation (i : Ref) : Incident → Bool
  | .compensates i' => i' == i
  | _ => false

namespace Session

variable {s s' s'' : Session}
variable {m l : Ref}

/- The labels that a machine allocated, in order. -/
def table
    (s : Session)
    (m : Ref) : Array Ref :=
  (s.machines.getD m default).labels

/- How often the compensation of a cleanup was invoked. -/
def compensations
    (s : Session)
    (i : Ref) : Nat :=
  s.chronicle.countP (Incident.isCompensation i)

------------------------------------------------------------
-- Order
------------------------------------------------------------

/-
  The label in a place of a machine's table bears the number
  of that place and the machine, the compensation of a
  cleanup was invoked once, if it counts as invoked, and
  else never, and futures are attended.
-/
structure Orderly (s : Session) : Prop where
  numbered : ∀ (m i l : Nat), (s.table m)[i]? = some l →
    ∃ code, s.labels[l]? = some ⟨.int i, .machine m, code⟩
  counted : ∀ i : Ref, s.compensations i =
    if s.cleanups[i]?.any (·.compensated) then 1 else 0
  attended : ∀ (f : Nat) (c : FutureCell),
    s.futures[f]? = some c → c.Attended

/- In the beginning there is nothing out of order. -/
theorem orderly_empty :
    Session.empty.Orderly where
  numbered m i l h := by
    have hNone : (Session.empty.table m)[i]? = none :=
      Array.getElem?_eq_none (Nat.zero_le i)
    rw [hNone] at h
    cases h
  counted _ := rfl
  attended _ _ h := by cases h

/-
  What a session may turn into: nothing is taken out of its
  tables.
-/
structure Grows (s s' : Session) : Prop where
  machines : Persists MachineCell.Becomes s.machines s'.machines
  labels : Persists LabelCell.Becomes s.labels s'.labels
  futures : Persists FutureCell.Becomes s.futures s'.futures
  awaiters : Persists Eq s.awaiters s'.awaiters
  sequences :
    Persists SequenceCell.Becomes s.sequences s'.sequences
  recoveries :
    Persists RecoveryCell.Becomes s.recoveries s'.recoveries
  cleanups : Persists CleanupCell.Becomes s.cleanups s'.cleanups
  compensated : ∀ i, s.compensations i ≤ s'.compensations i

namespace Grows

theorem refl (s : Session) : s.Grows s where
  machines := .refl .refl _
  labels := .refl .refl _
  futures := .refl .refl _
  awaiters := .refl (fun _ => rfl) _
  sequences := .refl .refl _
  recoveries := .refl .refl _
  cleanups := .refl .refl _
  compensated _ := Nat.le_refl _

theorem trans
    (h : s.Grows s')
    (h' : s'.Grows s'') :
    s.Grows s'' where
  machines := h.machines.trans .trans h'.machines
  labels := h.labels.trans .trans h'.labels
  futures := h.futures.trans .trans h'.futures
  awaiters := h.awaiters.trans Eq.trans h'.awaiters
  sequences := h.sequences.trans .trans h'.sequences
  recoveries := h.recoveries.trans .trans h'.recoveries
  cleanups := h.cleanups.trans .trans h'.cleanups
  compensated i :=
    Nat.le_trans (h.compensated i) (h'.compensated i)

/- A label's place in its machine's table is its for good. -/
theorem table_getElem?
    (h : s.Grows s')
    {i : Nat}
    (hPlace : (s.table m)[i]? = some l) :
    (s'.table m)[i]? = some l := by
  have hm : m < s.machines.size := by
    refine Nat.lt_of_not_le fun hOut => ?_
    rw [table, getD_of_size_le _ hOut] at hPlace
    cases hPlace
  have hPrefix := (h.machines.getD hm).labels
  rw [← Array.getElem?_toList] at hPlace ⊢
  rcases hPrefix with ⟨rest, hRest⟩
  have hLt : i < (s.machines.getD m default).labels.toList.length :=
    (List.getElem?_eq_some_iff.mp hPlace).1
  rw [table, ← hRest, List.getElem?_append_left hLt]
  exact hPlace

/-
  A label that bears code bears it ever after, unless a
  client puts code of its own there.
-/
theorem bears
    (h : s.Grows s')
    {code : Closure}
    (hBears : s.Bears m l (some code)) :
    ∃ code', s'.Bears m l (some code') ∧
      (code' = code ∨ code'.IsClient) := by
  rcases hBears with ⟨n, hLabel, hPlace⟩
  rcases h.labels l _ hLabel with
    ⟨⟨id, machine, _⟩, hLabel', rfl, rfl, hCode⟩
  rcases hCode rfl with ⟨code', rfl, hSame⟩
  exact ⟨code', ⟨n, hLabel', h.table_getElem? hPlace⟩, hSame⟩

end Grows

------------------------------------------------------------
-- The Same Ground
------------------------------------------------------------

/- Sessions that differ in nothing that order is about. -/
structure SameGround (s s' : Session) : Prop where
  machines : s'.machines = s.machines
  labels : s'.labels = s.labels
  futures : s'.futures = s.futures
  awaiters : s'.awaiters = s.awaiters
  sequences : s'.sequences = s.sequences
  recoveries : s'.recoveries = s.recoveries
  cleanups : s'.cleanups = s.cleanups
  compensations : s'.compensations = s.compensations

namespace SameGround

theorem grows
    (h : s.SameGround s') :
    s.Grows s' where
  machines := h.machines ▸ .refl .refl _
  labels := h.labels ▸ .refl .refl _
  futures := h.futures ▸ .refl .refl _
  awaiters := h.awaiters ▸ .refl (fun _ => rfl) _
  sequences := h.sequences ▸ .refl .refl _
  recoveries := h.recoveries ▸ .refl .refl _
  cleanups := h.cleanups ▸ .refl .refl _
  compensated i := Nat.le_of_eq (congrFun h.compensations i).symm

theorem orderly
    (h : s.SameGround s')
    (hs : s.Orderly) :
    s'.Orderly where
  numbered m i l hPlace := by
    rw [h.labels]
    exact hs.numbered m i l
      (by simpa only [table, h.machines] using hPlace)
  counted i := by
    rw [h.compensations, h.cleanups]
    exact hs.counted i
  attended f c hCell := hs.attended f c (h.futures ▸ hCell)

/- What the kernel does not hold is no ground. -/
theorem of_kernel
    (h : s.kernel = s'.kernel) :
    s.SameGround s' := by
  have hChronicle :
      s.chronicle.filter Incident.pivotal =
        s'.chronicle.filter Incident.pivotal :=
    congrArg Session.chronicle h
  have hCount : ∀ p : Incident → Bool,
      (∀ i, p i = true → i.pivotal = true) →
      s'.chronicle.countP p = s.chronicle.countP p := by
    intro p hp
    have hFilter : ∀ c : List Incident,
        (c.filter Incident.pivotal).countP p = c.countP p := by
      intro c
      rw [List.countP_filter]
      refine List.countP_congr fun i _ => ?_
      simpa using hp i
    rw [← hFilter s.chronicle, hChronicle, hFilter]
  exact
    { machines := (congrArg Session.machines h).symm
      labels := (congrArg Session.labels h).symm
      futures := (congrArg Session.futures h).symm
      awaiters := (congrArg Session.awaiters h).symm
      sequences := (congrArg Session.sequences h).symm
      recoveries := (congrArg Session.recoveries h).symm
      cleanups := (congrArg Session.cleanups h).symm
      compensations := funext fun l => hCount _ fun i hi => by
        cases i <;> first | rfl | cases hi }

/- Neither is what is remembered besides. -/
theorem withIncident
    (s : Session)
    {i : Incident}
    (hCompensates : ∀ c, i.isCompensation c = false) :
    s.SameGround (s.withIncident i) where
  machines := rfl
  labels := rfl
  futures := rfl
  awaiters := rfl
  sequences := rfl
  recoveries := rfl
  cleanups := rfl
  compensations := funext fun c => by
    simp [Session.compensations, Session.withIncident,
      hCompensates c]

end SameGround

end Session

end Resumption

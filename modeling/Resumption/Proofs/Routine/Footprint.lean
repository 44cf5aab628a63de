import Resumption.Proofs.Leads
import Resumption.Proofs.Routine.Reading

/-
  What a routine's code touches of a session, and what stays
  as it was meanwhile.

  The cells of constructs are the only rows that the code
  changes after they were made.  A footprint says which of
  them a suspended piece of code comes back to; all else
  that it comes back to is only ever added to.

  Main declarations:
    * `Cell`, `Footprint`
    * `Session.Bears`, `Session.Retains`
    * `Setting.Calm`, `Setting.Agrees`
    * `Setting.Moves`, `Setting.Rests`
-/

namespace Resumption

------------------------------------------------------------
-- Cells
------------------------------------------------------------

/- A row that belongs to one construct. -/
inductive Cell where
  | sequence (i : Ref)
  | recovery (i : Ref)
  | cleanup (i : Ref)
  | cursor (i : Ref)

/- The cells that a piece of code comes back to. -/
abbrev Footprint :=
  Cell → Prop

namespace Footprint

/- No cells. -/
def none : Footprint :=
  fun _ => False

/- One cell. -/
def only (c : Cell) : Footprint :=
  fun c' => c' = c

/- The cells of either. -/
def or (F G : Footprint) : Footprint :=
  fun c => F c ∨ G c

/- No cell is in both. -/
def Apart (F G : Footprint) : Prop :=
  ∀ c, F c → ¬ G c

end Footprint

/- Lists have nothing to close. -/
def CursorSource.OverList (source : CursorSource) : Prop :=
  source = .finished ∨ ∃ l k, source = .items l k

namespace Session

/- Is there such a cell? -/
def Has (s : Session) : Cell → Prop
  | .sequence i => i < s.sequences.size
  | .recovery i => i < s.recoveries.size
  | .cleanup i => i < s.cleanups.size
  | .cursor i => i < s.cursors.size

/- Is a cell what it was? -/
def SameAt (s s' : Session) : Cell → Prop
  | .sequence i => s'.sequences[i]? = s.sequences[i]?
  | .recovery i => s'.recoveries[i]? = s.recoveries[i]?
  | .cleanup i => s'.cleanups[i]? = s.cleanups[i]?
  | .cursor i => s'.cursors[i]? = s.cursors[i]?

theorem SameAt.trans
    {s s₁ s₂ : Session}
    {c : Cell}
    (h : s.SameAt s₁ c)
    (h' : s₁.SameAt s₂ c) :
    s.SameAt s₂ c := by
  cases c <;> exact Eq.trans h' h

------------------------------------------------------------
-- What Stays
------------------------------------------------------------

/- A label of a machine, and what is under it. -/
def Bears
    (s : Session)
    (m l : Ref)
    (code : Option Closure) : Prop :=
  ∃ n : Nat,
    s.labels[l]? = some ⟨.int n, .machine m, code⟩ ∧
      (s.machines.getD m default).labels[n]? = some l

/- An awaiter of a future. -/
def Reads
    (s : Session)
    (a f : Ref) : Prop :=
  ∃ captured,
    s.awaiters[a]? = some (.future f captured)

/-
  An awaiter of a future that does not post what it is given
  to call back, as things are.
-/
def Quiet
    (s : Session)
    (a f : Ref) : Prop :=
  ∃ captured,
    s.awaiters[a]? = some (.future f captured) ∧
      (captured && s.ambient.truthy) = false

/- A future that has settled. -/
def Settled
    (s : Session)
    (f : Ref) : Prop :=
  (s.futures.getD f default).settlement.isSome = true

theorem Quiet.reads
    {s : Session}
    {a f : Ref}
    (h : s.Quiet a f) :
    s.Reads a f := by
  rcases h with ⟨captured, hRow, _⟩
  exact ⟨captured, hRow⟩

/- A future that has settled with an outcome. -/
def SettledAs
    (s : Session)
    (f : Ref)
    (outcome : Outcome) : Prop :=
  ∃ t, (s.futures.getD f default).settlement = some t ∧
    t.outcome = outcome

/- What has settled has settled with some outcome. -/
theorem settled_iff
    {s : Session}
    {f : Ref} :
    s.Settled f ↔ ∃ outcome, s.SettledAs f outcome := by
  constructor
  · intro h
    rcases Option.isSome_iff_exists.mp h with ⟨t, ht⟩
    exact ⟨t.outcome, t, ht, rfl⟩
  · rintro ⟨outcome, t, ht, _⟩
    exact Option.isSome_iff_exists.mpr ⟨t, ht⟩

/- A future settles with one outcome. -/
theorem SettledAs.unique
    {s : Session}
    {f : Ref}
    {outcome outcome' : Outcome}
    (h : s.SettledAs f outcome)
    (h' : s.SettledAs f outcome') :
    outcome = outcome' := by
  rcases h with ⟨t, ht, rfl⟩
  rcases h' with ⟨t', ht', rfl⟩
  rw [ht] at ht'
  cases ht'
  rfl

/- The tables of machines list only labels that there are. -/
def Tidy (s : Session) : Prop :=
  ∀ m l, l ∈ (s.machines.getD m default).labels →
    l < s.labels.size

/- A cursor over a list, or one that has run out. -/
def Listed
    (s : Session)
    (i : Ref) : Prop :=
  ∃ cell, s.cursors[i]? = some cell ∧ cell.source.OverList

/- What was made is there later, the kept cells unchanged. -/
structure Retains
    (kept : Cell → Prop)
    (s s' : Session) : Prop where
  machine : s.machines.size ≤ s'.machines.size
  checks : ∀ m < s.machines.size,
    (s'.machines.getD m default).assertions =
      (s.machines.getD m default).assertions
  tidy : s.Tidy → s'.Tidy
  builder : ∀ (b : Ref) (row : BuilderCell),
    s.builders[b]? = some row → s'.builders[b]? = some row
  list : ∀ (l : Ref) (row : Array Value),
    s.lists[l]? = some row → s'.lists[l]? = some row
  resource : ∀ (r : Ref) (code : Closure),
    s.resources[r]? = some (.custom code) →
      s'.resources[r]? = some (.custom code)
  bears : ∀ m l code,
    s.Bears m l (some code) → s'.Bears m l (some code)
  awaiter : ∀ (a : Ref) (row : AwaiterCell),
    s.awaiters[a]? = some row → s'.awaiters[a]? = some row
  has : ∀ c, s.Has c → s'.Has c
  settledAs : ∀ f outcome,
    s.SettledAs f outcome → s'.SettledAs f outcome
  listed : ∀ i, s.Listed i → s'.Listed i
  same : ∀ c, s.Has c → kept c → s.SameAt s' c

namespace Retains

variable {s s₁ s₂ : Session}

theorem refl
    (kept : Cell → Prop)
    (s : Session) :
    Retains kept s s where
  machine := Nat.le_refl _
  checks _ _ := rfl
  tidy h := h
  builder _ _ h := h
  list _ _ h := h
  resource _ _ h := h
  bears _ _ _ h := h
  awaiter _ _ h := h
  has _ h := h
  settledAs _ _ h := h
  listed _ h := h
  same c _ _ := by cases c <;> rfl

theorem trans
    {kept kept₁ kept₂ : Cell → Prop}
    (h : Retains kept₁ s s₁)
    (h' : Retains kept₂ s₁ s₂)
    (hKept : ∀ c, s.Has c → kept c → kept₁ c ∧ kept₂ c) :
    Retains kept s s₂ where
  machine := Nat.le_trans h.machine h'.machine
  checks m hm :=
    (h'.checks m (Nat.lt_of_lt_of_le hm h.machine)).trans
      (h.checks m hm)
  tidy hTidy := h'.tidy (h.tidy hTidy)
  builder b row hRow := h'.builder b row (h.builder b row hRow)
  list l row hRow := h'.list l row (h.list l row hRow)
  resource r code hRow :=
    h'.resource r code (h.resource r code hRow)
  bears m l code hBears :=
    h'.bears m l code (h.bears m l code hBears)
  awaiter a row hRow := h'.awaiter a row (h.awaiter a row hRow)
  has c hHas := h'.has c (h.has c hHas)
  settledAs f outcome hSettled :=
    h'.settledAs f outcome (h.settledAs f outcome hSettled)
  listed i hListed := h'.listed i (h.listed i hListed)
  same c hHas hc := by
    have hBoth := hKept c hHas hc
    have hFirst := h.same c hHas hBoth.1
    have hSecond := h'.same c (h.has c hHas) hBoth.2
    exact hFirst.trans hSecond

/- What has settled stays settled. -/
theorem settled
    {kept : Cell → Prop}
    (h : Retains kept s s₁)
    (f : Ref)
    (hSettled : s.Settled f) :
    s₁.Settled f := by
  rcases settled_iff.mp hSettled with ⟨outcome, hOutcome⟩
  exact settled_iff.mpr ⟨outcome, h.settledAs f _ hOutcome⟩

/- An awaiter goes on reading its future. -/
theorem reads
    {kept : Cell → Prop}
    {a f : Ref}
    (h : Retains kept s s₁)
    (hReads : s.Reads a f) :
    s₁.Reads a f := by
  rcases hReads with ⟨captured, hRow⟩
  exact ⟨captured, h.awaiter a _ hRow⟩

/- What keeps more keeps less. -/
theorem weaken
    {kept kept' : Cell → Prop}
    (h : Retains kept s s₁)
    (hKept : ∀ c, s.Has c → kept' c → kept c) :
    Retains kept' s s₁ :=
  { h with
    same := fun c hHas hc => h.same c hHas (hKept c hHas hc) }

/- Keeping no cell is the least there is. -/
theorem bare
    {kept : Cell → Prop}
    (h : Retains kept s s₁) :
    Retains Footprint.none s s₁ :=
  h.weaken fun _ _ hc => hc.elim

theorem bare_trans
    {kept kept' : Cell → Prop}
    (h : Retains kept s s₁)
    (h' : Retains kept' s₁ s₂) :
    Retains Footprint.none s s₂ :=
  h.trans h' fun _ _ hc => hc.elim

end Retains

end Session

------------------------------------------------------------
-- Settings
------------------------------------------------------------

/-
  What a routine's code is run with: an outlook, the future
  that each name stands for, a machine, and a builder on it.
  A detached one has no awaiter that keeps the ambient
  context.
-/
structure Setting (ν : Type) extends Outlook ν where
  place : ν → Ref
  machine : Ref
  builder : Ref
  detached : Prop

/- The part of a session that a routine's code leaves alone. -/
structure Backdrop where
  ambient : Value
  contexts : Array ContextCell
  task : Option Ref
  futures : Array FutureCell
  deferreds : Array Deferred
  drivers : Array DriverCell

def Session.backdrop (s : Session) : Backdrop :=
  ⟨s.ambient, s.contexts, s.task, s.futures, s.deferreds,
    s.drivers⟩

namespace Setting

variable {ν : Type}

/-
  There is no ambient context that might be kept, the
  machine, the builder and the resources are at hand, and no
  future settled but as it was to.
-/
structure Calm
    (E : Setting ν)
    (s : Session) : Prop where
  ambient : ¬ E.detached → s.ambient.truthy = false
  machine : E.machine < s.machines.size
  checks :
    (s.machines.getD E.machine default).assertions = E.checks
  tidy : s.Tidy
  builder : ∃ captured,
    s.builders[E.builder]? =
        some ⟨.machine E.machine, captured⟩ ∧
      (E.detached → captured.truthy = false)
  resource : ∀ r release, E.releases r = some release →
    s.resources[r]? =
      some (.custom (.client fun _ => release.code))
  fated : ∀ x fate, E.fates x = some fate →
    E.place x < s.futures.size ∧
      ∀ outcome, s.SettledAs (E.place x) outcome →
        fate.Allows outcome

/- A session is where a reading is. -/
structure Agrees
    (E : Setting ν)
    (s : Session)
    (R : Reading ν) : Prop where
  calm : E.Calm s
  memory : s.memory E.own = R.memory

/- An awaiter of a future, as a setting has them. -/
def Reads
    (E : Setting ν)
    (s : Session)
    (a f : Ref) : Prop :=
  ∃ captured,
    s.awaiters[a]? = some (.future f captured) ∧
      (E.detached → captured = false)

/- A session is where a reading awaits a pending future. -/
structure Waits
    (E : Setting ν)
    (s : Session)
    (R : Reading ν)
    (a : Ref)
    (x : ν) : Prop where
  agrees : E.Agrees s R
  awaits : E.Reads s a (E.place x)
  pending : ¬ s.Settled (E.place x)
  fated : (E.fates x).isSome = true

/-
  Code with a footprint ran, without a rest.  What it logged
  and wrote was its own.
-/
structure Moves
    (E : Setting ν)
    (F : Footprint)
    (s s' : Session) : Prop where
  retains : Session.Retains (¬ F ·) s s'
  backdrop : s'.backdrop = s.backdrop
  foreign : ∀ own : Territory, E.own.Apart own →
    s'.memory own = s.memory own

/- Code with a footprint rested, until it is resumed. -/
structure Rests
    (E : Setting ν)
    (F : Footprint)
    (s s' : Session) : Prop where
  retains : Session.Retains F s s'
  memory : s'.memory E.own = s.memory E.own
  calm : E.Calm s'

variable {E : Setting ν}
variable {F F₁ F₂ : Footprint}
variable {s s₁ s₂ : Session}
variable {a f : Ref}

------------------------------------------------------------
-- Awaiters
------------------------------------------------------------

theorem Reads.session
    (h : E.Reads s a f) :
    s.Reads a f := by
  rcases h with ⟨captured, hRow, _⟩
  exact ⟨captured, hRow⟩

theorem Reads.later
    {kept : Cell → Prop}
    (h : E.Reads s a f)
    (hRetains : Session.Retains kept s s₁) :
    E.Reads s₁ a f := by
  rcases h with ⟨captured, hRow, hDetached⟩
  exact ⟨captured, hRetains.awaiter a _ hRow, hDetached⟩

/- A callback that such an awaiter is given is not posted. -/
theorem Reads.quiet
    (h : E.Reads s a f)
    (hCalm : E.Calm s) :
    s.Quiet a f := by
  rcases h with ⟨captured, hRow, hDetached⟩
  refine ⟨captured, hRow, ?_⟩
  by_cases hKept : E.detached
  · rw [hDetached hKept, Bool.false_and]
  · rw [hCalm.ambient hKept, Bool.and_false]

------------------------------------------------------------
-- Moving
------------------------------------------------------------

/-
  It is calm later if the ambient context is the same and no
  future has settled but as it was to.
-/
theorem Calm.later
    {kept : Cell → Prop}
    (h : E.Calm s)
    (hRetains : Session.Retains kept s s₁)
    (hAmbient : s₁.ambient = s.ambient)
    (hFated : ∀ x fate, E.fates x = some fate →
      E.place x < s₁.futures.size ∧
        ∀ outcome, s₁.SettledAs (E.place x) outcome →
          fate.Allows outcome) :
    E.Calm s₁ where
  ambient hKept := by
    rw [hAmbient]
    exact h.ambient hKept
  machine := Nat.lt_of_lt_of_le h.machine hRetains.machine
  checks := (hRetains.checks _ h.machine).trans h.checks
  tidy := hRetains.tidy h.tidy
  builder := by
    rcases h.builder with ⟨captured, hRow, hDetached⟩
    exact ⟨captured, hRetains.builder _ _ hRow, hDetached⟩
  resource r release hRelease :=
    hRetains.resource r _ (h.resource r release hRelease)
  fated := hFated

theorem Moves.refl
    (E : Setting ν)
    (F : Footprint)
    (s : Session) :
    E.Moves F s s :=
  ⟨.refl _ s, rfl, fun _ _ => rfl⟩

/- Cells that were not there at first are no matter. -/
theorem Moves.trans
    (h : E.Moves F₁ s s₁)
    (h' : E.Moves F₂ s₁ s₂)
    (hF₁ : ∀ c, s.Has c → F₁ c → F c)
    (hF₂ : ∀ c, s.Has c → F₂ c → F c) :
    E.Moves F s s₂ where
  retains := by
    refine h.retains.trans h'.retains ?_
    intro c hHas hNot
    constructor
    · exact fun hc => hNot (hF₁ c hHas hc)
    · exact fun hc => hNot (hF₂ c hHas hc)
  backdrop := h'.backdrop.trans h.backdrop
  foreign own hApart :=
    (h'.foreign own hApart).trans (h.foreign own hApart)

/- A wider footprint promises less. -/
theorem Moves.widen
    (h : E.Moves F₁ s s₁)
    (hF : ∀ c, s.Has c → F₁ c → F c) :
    E.Moves F s s₁ :=
  h.trans (.refl E .none s₁) hF (fun _ _ hc => hc.elim)

/- What touches no cell of old has any footprint. -/
theorem Moves.any
    (h : E.Moves .none s s₁) :
    E.Moves F s s₁ :=
  h.widen fun _ _ hc => hc.elim

/- It leaves every cell as it was. -/
theorem Moves.keeps
    {kept : Cell → Prop}
    (h : E.Moves .none s s₁) :
    Session.Retains kept s s₁ :=
  h.retains.weaken fun _ _ _ => id

/- Two moves that touch no cell of old are one. -/
theorem Moves.none_trans
    (h : E.Moves .none s s₁)
    (h' : E.Moves F s₁ s₂) :
    E.Moves F s s₂ :=
  h.trans h' (fun _ _ hc => hc.elim) (fun _ _ hc => hc)

theorem Moves.trans_none
    (h : E.Moves F s s₁)
    (h' : E.Moves .none s₁ s₂) :
    E.Moves F s s₂ :=
  h.trans h' (fun _ _ hc => hc) (fun _ _ hc => hc.elim)

theorem Moves.futures
    (h : E.Moves F s s₁) :
    s₁.futures = s.futures :=
  congrArg Backdrop.futures h.backdrop

theorem Moves.settled_iff
    (h : E.Moves F s s₁)
    (f : Ref) :
    s₁.Settled f ↔ s.Settled f := by
  unfold Session.Settled
  rw [h.futures]

/- Whoever else is at rest finds it calm, too. -/
theorem Moves.calm
    {E' : Setting ν}
    (h : E'.Moves F s s₁)
    (hs : E.Calm s) :
    E.Calm s₁ := by
  refine hs.later h.retains
    (congrArg Backdrop.ambient h.backdrop) ?_
  simp only [Session.SettledAs, h.futures]
  exact hs.fated

/- A session stays where the reading is if its memory stays. -/
theorem Agrees.of_moves
    {R : Reading ν}
    (hs : E.Agrees s R)
    (h : E.Moves F s s₁)
    (hMemory : s₁.memory E.own = s.memory E.own) :
    E.Agrees s₁ R where
  calm := h.calm hs.calm
  memory := hMemory.trans hs.memory

theorem Waits.of_moves
    {R : Reading ν}
    {a : Ref}
    {x : ν}
    (hs : E.Waits s R a x)
    (h : E.Moves F s s₁)
    (hMemory : s₁.memory E.own = s.memory E.own) :
    E.Waits s₁ R a x where
  agrees := hs.agrees.of_moves h hMemory
  awaits := hs.awaits.later h.retains
  pending := by
    rw [h.settled_iff]
    exact hs.pending
  fated := hs.fated

/- Awaiting a future changes nothing by itself. -/
theorem Agrees.awaiting
    {R : Reading ν}
    (h : E.Agrees s R)
    (x : ν) :
    E.Agrees s (R.awaiting x) where
  calm := h.calm
  memory := h.memory

------------------------------------------------------------
-- Resting
------------------------------------------------------------

/-
  A rest that began after one more move was a rest before
  it too, if the move left the memory and the cells alone.
-/
theorem Rests.of_moves
    (h : E.Moves F₁ s s₁)
    (h' : E.Rests F₂ s₁ s₂)
    (hMemory : s₁.memory E.own = s.memory E.own)
    (hF : ∀ c, s.Has c → F c → ¬ F₁ c ∧ F₂ c) :
    E.Rests F s s₂ where
  retains := h.retains.trans h'.retains hF
  memory := h'.memory.trans hMemory
  calm := h'.calm

/- A move that touches no cell of old may come before a rest. -/
theorem Rests.of_moves_none
    (h : E.Moves .none s s₁)
    (h' : E.Rests F s₁ s₂)
    (hMemory : s₁.memory E.own = s.memory E.own) :
    E.Rests F s s₂ :=
  .of_moves h h' hMemory fun _ _ hc => ⟨id, hc⟩

/- A rest with fewer cells to come back to. -/
theorem Rests.weaken
    (h : E.Rests F s s₁)
    (hF : ∀ c, s.Has c → F₁ c → F c) :
    E.Rests F₁ s s₁ :=
  { h with retains := h.retains.weaken hF }

/- Two rests are one. -/
theorem Rests.trans
    (h : E.Rests F s s₁)
    (h' : E.Rests F s₁ s₂) :
    E.Rests F s s₂ where
  retains :=
    h.retains.trans h'.retains fun _ _ hc => ⟨hc, hc⟩
  memory := h'.memory.trans h.memory
  calm := h'.calm

/- After a rest the session is still where the reading is. -/
theorem Rests.agrees
    {R : Reading ν}
    (h : E.Rests F s s₁)
    (hs : E.Agrees s R) :
    E.Agrees s₁ R where
  calm := h.calm
  memory := h.memory.trans hs.memory

end Setting

end Resumption

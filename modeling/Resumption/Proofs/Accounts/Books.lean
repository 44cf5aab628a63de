import Resumption.Proofs.Accounts
import Resumption.Proofs.Routine.Loops
import Resumption.Proofs.Stretches.Cleanups

/-
  Books: what a session shows of what a routine is charged
  for, and how it comes to be there.

  Code moves: it adds to the labels of its machine and to the
  uses of its sources just what it is charged for, and else
  it touches its own cells and the variables.  While the code
  rests, others may settle futures and change variables.

  Main declarations:
    * `Session.stock`, `Supply.billed`
    * `Supply.Ready`, `Supply.view`
    * `Supply.Moves`, `Supply.Idles`
    * `Supply.Rests`
-/

namespace Resumption

open Run

------------------------------------------------------------
-- Stock
------------------------------------------------------------

/- The stories of all tasks. -/
def Session.stories (s : Session) : Array (List Moment) :=
  s.tasks.map (·.story)

/- What a routine's code leaves alone, whatever it does. -/
structure Surroundings where
  ambient : Value
  task : Option Ref
  drivers : Array DriverCell
  stories : Array (List Moment)

def Session.surroundings (s : Session) : Surroundings :=
  ⟨s.ambient, s.task, s.drivers, s.stories⟩

/- What is left alone where nothing is bound and nothing done. -/
structure Stock where
  surroundings : Surroundings
  globals : Fields
  futures : Array FutureCell
  awaitables : Array AwaitableCell
  controlled : Array ControlledCell

def Session.stock (s : Session) : Stock :=
  ⟨s.surroundings, s.globals, s.futures, s.awaitables,
    s.controlled⟩

/- A future has an outcome, if there is one to ask. -/
def Session.Reveals
    (s : Session)
    (src : Option Ref)
    (o : Outcome) : Prop :=
  ∀ f, src = some f → s.outcome? f = some o

namespace Supply

variable {ν : Type}
variable (S : Supply ν)

------------------------------------------------------------
-- Counters
------------------------------------------------------------

/- How often the sources of some list are a row's. -/
def tally
    (xs : List ν)
    (r : Ref) : Nat :=
  (xs.filterMap fun x => (S.origin x).probe?).count r

/- A row after what was charged for. -/
def billed
    (c : Charge ν)
    (r : Ref)
    (cell : ControlledCell) : ControlledCell :=
  { cell with
    awaiters := cell.awaiters + S.tally c.binds r
    completedChecks := cell.completedChecks + S.tally c.binds r
    resultReads := cell.resultReads + S.tally c.reads r }

@[simp] theorem tally_nil (r : Ref) :
    S.tally [] r = 0 :=
  rfl

theorem tally_append
    (xs ys : List ν)
    (r : Ref) :
    S.tally (xs ++ ys) r = S.tally xs r + S.tally ys r := by
  simp only [tally, List.filterMap_append, List.count_append]

/- What is no awaitable of that kind is counted nowhere. -/
theorem tally_of_none
    {x : ν}
    (h : (S.origin x).probe? = none)
    (r : Ref) :
    S.tally [x] r = 0 := by
  simp only [tally, List.filterMap_cons, h, List.filterMap_nil,
    List.count_nil]

theorem tally_of_some
    {x : ν}
    {c : Ref}
    (h : (S.origin x).probe? = some c)
    (r : Ref) :
    S.tally [x] r = if c = r then 1 else 0 := by
  simp only [tally, List.filterMap_cons, h, List.filterMap_nil,
    List.count_singleton, beq_iff_eq]

theorem billed_plus
    (c d : Charge ν)
    (r : Ref)
    (cell : ControlledCell) :
    S.billed (c.plus d) r cell =
      S.billed d r (S.billed c r cell) := by
  simp only [billed, Charge.plus, tally_append, Nat.add_assoc]

/- Labels are counted elsewhere. -/
theorem billed_ofLabels
    (n : Nat)
    (r : Ref)
    (cell : ControlledCell) :
    S.billed (.ofLabels n) r cell = cell :=
  rfl

/- Two charges that come to the same, whatever they are for. -/
structure Worth (c d : Charge ν) : Prop where
  labels : c.labels = d.labels
  binds : ∀ r, S.tally c.binds r = S.tally d.binds r
  reads : ∀ r, S.tally c.reads r = S.tally d.reads r

theorem Worth.refl (c : Charge ν) :
    S.Worth c c :=
  ⟨rfl, fun _ => rfl, fun _ => rfl⟩

theorem Worth.symm
    {c d : Charge ν}
    (h : S.Worth c d) :
    S.Worth d c :=
  ⟨h.labels.symm, fun r => (h.binds r).symm,
    fun r => (h.reads r).symm⟩

theorem Worth.billed_eq
    {c d : Charge ν}
    (h : S.Worth c d) :
    S.billed c = S.billed d := by
  funext r cell
  simp only [billed, h.binds, h.reads]

/- To bind or read what nobody counts is worth nothing. -/
theorem worth_binding
    {x : ν}
    (h : (S.origin x).probe? = none) :
    S.Worth .none (.binding [x]) :=
  ⟨rfl, fun r => (S.tally_of_none h r).symm, fun _ => rfl⟩

theorem worth_reading
    {x : ν}
    (h : (S.origin x).probe? = none) :
    S.Worth .none (.reading [x]) :=
  ⟨rfl, fun _ => rfl, fun r => (S.tally_of_none h r).symm⟩

/- So it is with a future. -/
theorem uncounted
    {x : ν}
    {f : Ref}
    (h : S.origin x = .future f) :
    (S.origin x).probe? = none := by
  rw [h]
  rfl

------------------------------------------------------------
-- Readiness
------------------------------------------------------------

/- What a name has come to, as its awaiter would be found. -/
def status
    (s : Session)
    (x : ν) : Option Outcome :=
  (S.origin x).behind?.bind s.outcome?

/- What a routine finds in a session. -/
def view (s : Session) : View ν :=
  ⟨s.globals, S.status s⟩

/-
  The machine is at hand, and so are the builder, the
  resources and what the names stand for.
-/
structure Ready (s : Session) : Prop where
  machine : S.machine < s.machines.size
  builder : ∀ b, S.builder = some b → ∃ captured,
    s.builders[b]? = some ⟨.machine S.machine, captured⟩
  resource : ∀ r release, S.releases r = some release →
    s.resources[r]? =
      some (.custom (.client fun _ => release.code))
  behind : ∀ x f, (S.origin x).behind? = some f →
    f < s.futures.size
  configured : ∀ x a f captured,
    S.origin x = .configured a f captured →
      s.awaitables[a]? = some (.configured f captured)
  controlled : ∀ x a c f, S.origin x = .controlled a c f →
    s.awaitables[a]? = some (.controlled c) ∧
      c < s.controlled.size ∧
      (s.controlled.getD c default).future = f
  custom : ∀ x a completed result register,
    S.origin x = .custom a completed result register →
      s.awaitables[a]? = some (.custom
        (.ofEffects completed result register))

------------------------------------------------------------
-- Moving and Resting
------------------------------------------------------------

/- How many labels the machine has allocated. -/
def count (s : Session) : Nat :=
  s.labelCount (.machine S.machine)

/- Code with a footprint ran, without a rest, and was charged. -/
structure Moves
    (F : Footprint)
    (c : Charge ν)
    (s s' : Session) : Prop where
  retains : Session.Retains (¬ F ·) s s'
  surroundings : s'.surroundings = s.surroundings
  labels : S.count s' = S.count s + c.labels
  size : s'.controlled.size = s.controlled.size
  billed : ∀ r < s.controlled.size,
    s'.controlled.getD r default =
      S.billed c r (s.controlled.getD r default)
  awaitable : ∀ (a : Ref) (row : AwaitableCell),
    s.awaitables[a]? = some row → s'.awaitables[a]? = some row
  made : s.futures.size ≤ s'.futures.size
  future : ∀ f < s.futures.size, s'.futures[f]? = s.futures[f]?

/- It touched nothing but labels, awaiters and its own cells. -/
structure Idles
    (F : Footprint)
    (n : Nat)
    (s s' : Session) : Prop where
  retains : Session.Retains (¬ F ·) s s'
  stock : s'.stock = s.stock
  labels : S.count s' = S.count s + n

/-
  Code with a footprint rested.  Nobody took from it what it
  is to come back to.
-/
structure Rests
    (F : Footprint)
    (s s' : Session) : Prop where
  retains : Session.Retains F s s'
  ready : S.Ready s'

variable {S}
variable {F F₁ F₂ : Footprint}
variable {c c₁ c₂ : Charge ν}
variable {s s₁ s₂ : Session}
variable {n n₁ n₂ : Nat}

namespace Moves

theorem refl
    (F : Footprint)
    (s : Session) :
    S.Moves F .none s s where
  retains := .refl _ s
  surroundings := rfl
  labels := rfl
  size := rfl
  billed _ _ := rfl
  awaitable _ _ h := h
  made := Nat.le_refl _
  future _ _ := rfl

/- Cells that were not there at first are no matter. -/
theorem trans
    (h : S.Moves F₁ c₁ s s₁)
    (h' : S.Moves F₂ c₂ s₁ s₂)
    (hF₁ : ∀ c, s.Has c → F₁ c → F c)
    (hF₂ : ∀ c, s.Has c → F₂ c → F c) :
    S.Moves F (c₁.plus c₂) s s₂ where
  retains := by
    refine h.retains.trans h'.retains fun c hHas hNot => ?_
    exact ⟨fun hc => hNot (hF₁ c hHas hc),
      fun hc => hNot (hF₂ c hHas hc)⟩
  surroundings := h'.surroundings.trans h.surroundings
  labels := by
    rw [h'.labels, h.labels]
    exact Nat.add_assoc ..
  size := h'.size.trans h.size
  billed r hr := by
    rw [h'.billed r (h.size ▸ hr), h.billed r hr,
      S.billed_plus]
  awaitable a row hRow :=
    h'.awaitable a row (h.awaitable a row hRow)
  made := Nat.le_trans h.made h'.made
  future f hf :=
    (h'.future f (Nat.lt_of_lt_of_le hf h.made)).trans
      (h.future f hf)

/- A wider footprint promises less. -/
theorem widen
    (h : S.Moves F₁ c s s₁)
    (hF : ∀ c, s.Has c → F₁ c → F c) :
    S.Moves F c s s₁ :=
  Charge.plus_none c ▸
    h.trans (.refl .none s₁) hF fun _ _ hc => hc.elim

/- What comes to the same is charged for alike. -/
theorem worth
    (h : S.Moves F c s s₁)
    (hWorth : S.Worth c c₁) :
    S.Moves F c₁ s s₁ :=
  { h with
    labels := hWorth.labels ▸ h.labels
    billed := hWorth.billed_eq ▸ h.billed }

/- What has come to something stays as it is meanwhile. -/
theorem outcome?_eq
    (h : S.Moves F c s s₁)
    {f : Ref}
    (hf : f < s.futures.size) :
    s₁.outcome? f = s.outcome? f := by
  have hRow := h.future f hf
  simp only [Session.outcome?, Array.getD_eq_getD_getElem?, hRow]

theorem ready
    (h : S.Moves F c s s₁)
    (hs : S.Ready s) :
    S.Ready s₁ where
  machine := Nat.lt_of_lt_of_le hs.machine h.retains.machine
  builder b hb := by
    rcases hs.builder b hb with ⟨captured, hRow⟩
    exact ⟨captured, h.retains.builder _ _ hRow⟩
  resource r release hRelease :=
    h.retains.resource r _ (hs.resource r release hRelease)
  behind x f hBehind :=
    Nat.lt_of_lt_of_le (hs.behind x f hBehind) h.made
  configured x a f captured hOrigin :=
    h.awaitable _ _ (hs.configured x a f captured hOrigin)
  controlled x a r f hOrigin := by
    rcases hs.controlled x a r f hOrigin with
      ⟨hRow, hr, hFuture⟩
    refine ⟨h.awaitable _ _ hRow, h.size ▸ hr, ?_⟩
    rw [h.billed r hr]
    exact hFuture
  custom x a completed result register hOrigin :=
    h.awaitable _ _ (hs.custom x a _ _ register hOrigin)

/- What the names stand for has come to what it had come to. -/
theorem status_eq
    (h : S.Moves F c s s₁)
    (hs : S.Ready s) :
    S.status s₁ = S.status s := by
  funext x
  unfold status
  cases hBehind : (S.origin x).behind? with
  | none => rfl
  | some f => exact h.outcome?_eq (hs.behind x f hBehind)

theorem view_eq
    (h : S.Moves F c s s₁)
    (hs : S.Ready s)
    (hGlobals : s₁.globals = s.globals) :
    S.view s₁ = S.view s := by
  rw [view, h.status_eq hs, hGlobals]
  rfl

end Moves

namespace Idles

theorem refl
    (F : Footprint)
    (s : Session) :
    S.Idles F 0 s s :=
  ⟨.refl _ s, rfl, rfl⟩

theorem trans
    (h : S.Idles F₁ n₁ s s₁)
    (h' : S.Idles F₂ n₂ s₁ s₂)
    (hF₁ : ∀ c, s.Has c → F₁ c → F c)
    (hF₂ : ∀ c, s.Has c → F₂ c → F c) :
    S.Idles F (n₁ + n₂) s s₂ where
  retains := by
    refine h.retains.trans h'.retains fun c hHas hNot => ?_
    exact ⟨fun hc => hNot (hF₁ c hHas hc),
      fun hc => hNot (hF₂ c hHas hc)⟩
  stock := h'.stock.trans h.stock
  labels := by rw [h'.labels, h.labels, Nat.add_assoc]

/- A wider footprint promises less. -/
theorem widen
    (h : S.Idles F₁ n s s₁)
    (hF : ∀ c, s.Has c → F₁ c → F c) :
    S.Idles F n s s₁ :=
  h.trans (.refl F s₁) hF fun _ _ hc => hc

/- Two that touch no cell of old are one. -/
theorem none_trans
    (h : S.Idles .none n₁ s s₁)
    (h' : S.Idles F n₂ s₁ s₂) :
    S.Idles F (n₁ + n₂) s s₂ :=
  h.trans h' (fun _ _ hc => hc.elim) fun _ _ hc => hc

theorem moves
    (h : S.Idles F n s s₁) :
    S.Moves F (.ofLabels n) s s₁ where
  retains := h.retains
  surroundings := congrArg Stock.surroundings h.stock
  labels := h.labels
  size := congrArg (·.controlled.size) h.stock
  billed r _ := by
    have hSame : s₁.controlled = s.controlled :=
      congrArg Stock.controlled h.stock
    rw [hSame, billed_ofLabels]
  awaitable a row hRow := by
    have hSame : s₁.awaitables = s.awaitables :=
      congrArg Stock.awaitables h.stock
    rw [hSame]
    exact hRow
  made := Nat.le_of_eq
    (congrArg (·.futures.size) h.stock).symm
  future f _ := by
    have hSame : s₁.futures = s.futures :=
      congrArg Stock.futures h.stock
    rw [hSame]

/- No label was allocated. -/
theorem moves_none
    (h : S.Idles F 0 s s₁) :
    S.Moves F .none s s₁ :=
  h.moves

theorem view_eq
    (h : S.Idles F n s s₁) :
    S.view s₁ = S.view s := by
  have hFutures : s₁.futures = s.futures :=
    congrArg Stock.futures h.stock
  have hGlobals : s₁.globals = s.globals :=
    congrArg Stock.globals h.stock
  have hOutcome : s₁.outcome? = s.outcome? := by
    funext f
    rw [Session.outcome?, hFutures]
    rfl
  have hStatus : S.status s₁ = S.status s :=
    funext fun x =>
      congrArg (fun told => (S.origin x).behind?.bind told)
        hOutcome
  simp only [view, hGlobals, hStatus]

theorem outcome?_eq
    (h : S.Idles F n s s₁)
    (f : Ref) :
    s₁.outcome? f = s.outcome? f := by
  have hFutures : s₁.futures = s.futures :=
    congrArg Stock.futures h.stock
  rw [Session.outcome?, hFutures]
  rfl

end Idles

------------------------------------------------------------
-- The Library's Own Doings
------------------------------------------------------------

/- Any setting, to take from it what is retained. -/
def setting (S : Supply ν) : Setting ν where
  fates _ := none
  own := .all
  releases := S.releases
  checks := false
  place := S.place
  machine := S.machine
  builder := 0
  detached := False

/- A move that touches no stock and no label is idle. -/
theorem idles_of_moves
    {E : Setting ν}
    (h : E.Moves F s s₁)
    (hStock : s₁.stock = s.stock)
    (hMachines : s₁.machines = s.machines) :
    S.Idles F 0 s s₁ where
  retains := h.retains
  stock := hStock
  labels := by
    simp only [count, Session.labelCount, hMachines]
    rfl

theorem idles_stamped (s : Session) :
    S.Idles .none 0 s s.stamped :=
  idles_of_moves (S.setting.moves_numbering s 1) rfl rfl

theorem idles_calling (s : Session) :
    S.Idles .none 0 s (Run.calling s) :=
  idles_of_moves (S.setting.moves_calling s) rfl rfl

theorem idles_withIncident
    (s : Session)
    (i : Incident) :
    S.Idles .none 0 s (s.withIncident i) :=
  idles_of_moves (S.setting.moves_withIncident s i) rfl rfl

theorem idles_withAwaiter
    (s : Session)
    (cell : AwaiterCell) :
    S.Idles .none 0 s (s.withAwaiter cell) :=
  idles_of_moves (S.setting.moves_withAwaiter s cell) rfl rfl

theorem idles_relabelled
    {l : Ref}
    (h : s.Bears S.machine l none)
    (code : Closure) :
    S.Idles .none 0 s (s.relabelled l code) :=
  idles_of_moves (S.setting.moves_relabelled h code) rfl rfl

/- Allocating a label adds one to the count. -/
theorem count_withLabel
    (hs : S.machine < s.machines.size)
    (code : Option Closure) :
    S.count (s.withLabel S.machine code) = S.count s + 1 := by
  simp only [count, Session.labelCount, Session.withLabel,
    getD_modify, true_and, if_pos hs, Array.size_push]

theorem idles_withLabel
    (hs : S.machine < s.machines.size)
    (code : Option Closure) :
    S.Idles .none 1 s (s.withLabel S.machine code) where
  retains := (S.setting.moves_withLabel s S.machine code).retains
  stock := rfl
  labels := count_withLabel hs code

------------------------------------------------------------
-- Resting
------------------------------------------------------------

namespace Rests

/- What is idle between leaves a rest what it was. -/
theorem of_idles
    (h : S.Idles F₁ n s s₁)
    (h' : S.Rests F₂ s₁ s₂)
    (hF : ∀ c, s.Has c → F c → ¬ F₁ c ∧ F₂ c) :
    S.Rests F s s₂ :=
  ⟨h.retains.trans h'.retains hF, h'.ready⟩

end Rests

end Supply

end Resumption

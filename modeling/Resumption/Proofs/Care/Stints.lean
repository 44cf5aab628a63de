import Resumption.Proofs.Care.World

/-
  What the code of a task does while its driver works on it.

  It changes the cells that it owns and others that it made,
  and nobody else's; and it leaves as many cleanups open as
  the step that it makes comes back to.  If it fails, it has
  compensated all that it had entered.

  Main declarations:
    * `Stint`, `Stint.Active`
    * `Stint.Works`, `Stint.Makes`, `Stint.Yields`
    * `Stint.Yields.bind`, `Stint.Yields.suspend`
    * `Stint.Carrying`, `Stint.Yields.jump`
-/

namespace Resumption

open Session World

------------------------------------------------------------
-- Stints
------------------------------------------------------------

/-
  A task that is worked on, on a machine: other tasks that
  are held meanwhile, and the cleanups that are open around
  the code at hand, the innermost first.
-/
structure Stint where
  held : List Ref
  task : Ref
  machine : Ref
  outer : List Ref

namespace Stint

variable (W : Stint)

/- The world of everyone else, who leaves the task alone. -/
abbrev world : World :=
  Caring (W.task :: W.held)

/- The stint of code inside of one more cleanup. -/
def inside (i : Ref) : Stint :=
  { W with outer := i :: W.outer }

/- The code of the task may go on. -/
structure Active (s : Session) : Prop where
  sound : W.world.Sound s
  task : s.task = some W.task
  free : W.task ∉ W.held
  machine : W.machine < s.machines.size

/-
  The open cleanups are those around the code at hand, and
  some inside of it.
-/
def Leaves
    (opened : List Ref)
    (s : Session) : Prop :=
  Care.Leaves (s.care W.task) (opened ++ W.outer)

/- Of the task's old cells only some were changed. -/
structure Works
    (F : Footprint)
    (s s' : Session) : Prop where
  sound : W.world.Sound s'
  sustains : s.Sustains s'
  task : s'.task = s.task
  held : ∀ t ∈ W.held, Untouched t s s'
  parked : Parked W.task s s'
  same : ∀ c, s.Belongs W.task c → ¬ F c → s.SameAt s' c

/-
  Something was made that comes back to cells of its own or
  to new ones, and to all cleanups that are open; or there
  was a failure, and none is.
-/
structure Makes
    (F : Footprint)
    (s : Session)
    (r : Except Value Value)
    (s' : Session) : Prop where
  works : W.Works F s s'
  made : ∀ v, r = .ok v → ∃ opened F',
    s'.Opens W.machine W.task v opened F' ∧
      W.Leaves opened s' ∧
      ∀ c, s.Belongs W.task c → F' c → F c
  failed : ∀ e, r = .error e → W.Leaves [] s'

/- A computation of the task's code makes something. -/
def Yields
    (F : Footprint)
    (act : Run Value)
    (s : Session) : Prop :=
  act.Ensures s (W.Makes F s)

end Stint

section Stint

variable {W : Stint}
variable {F H : Footprint}
variable {s s₁ s' : Session}
variable {opened : List Ref}

------------------------------------------------------------
-- Working
------------------------------------------------------------

namespace Stint

/- What everyone else does changes no cell of the task. -/
theorem Works.of_moves
    (h : W.world.Moves s s') :
    W.Works F s s' where
  sound := h.sound
  sustains := h.rel.sustains
  task := h.rel.task
  held t ht := h.rel.held t (List.mem_cons_of_mem _ ht)
  parked := (h.rel.held W.task List.mem_cons_self).toParked
  same c hc _ :=
    (h.rel.held W.task List.mem_cons_self).cells c hc

theorem Works.trans
    (h : W.Works F s s₁)
    (h' : W.Works H s₁ s')
    (hF : ∀ c, s.Belongs W.task c → H c → F c) :
    W.Works F s s' where
  sound := h'.sound
  sustains := h.sustains.trans h'.sustains
  task := h'.task.trans h.task
  held t ht := (h.held t ht).trans (h'.held t ht)
  parked := h.parked.trans h'.parked
  same c hc hNot := by
    have hSame := h.same c hc hNot
    refine hSame.trans (h'.same c ?_ fun hc' => hNot (hF c hc hc'))
    exact (hSame.belongs_iff W.task).mpr hc

theorem Works.mono
    (h : W.Works H s s')
    (hF : ∀ c, H c → F c) :
    W.Works F s s' :=
  { h with
    same := fun c hc hNot =>
      h.same c hc fun hc' => hNot (hF c hc') }

/- The code of the task may go on from there. -/
theorem Active.later
    (h : W.Active s)
    (hWorks : W.Works F s s') :
    W.Active s' where
  sound := hWorks.sound
  task := hWorks.task.trans h.task
  free := h.free
  machine := Nat.lt_of_lt_of_le h.machine hWorks.sustains.machines

theorem Active.moves
    (h : W.Active s)
    (hMoves : W.world.Moves s s') :
    W.Active s' :=
  h.later (Works.of_moves (F := .none) hMoves)

theorem Active.inside
    (h : W.Active s)
    (i : Ref) :
    (W.inside i).Active s :=
  ⟨h.sound, h.task, h.free, h.machine⟩

/- Whichever cleanups are open around it, the work is the same. -/
theorem Works.outside
    {i : Ref}
    (h : (W.inside i).Works F s s') :
    W.Works F s s' :=
  ⟨h.sound, h.sustains, h.task, h.held, h.parked, h.same⟩

/- A cleanup is open inside, or around what is inside. -/
theorem leaves_inside
    {i : Ref} :
    (W.inside i).Leaves opened s ↔ W.Leaves (opened ++ [i]) s := by
  simp [Leaves, inside]

/- Everyone else leaves the task's cleanups as they are. -/
theorem Leaves.moves
    (h : W.Leaves opened s)
    (hMoves : W.world.Moves s s') :
    W.Leaves opened s' := by
  unfold Leaves
  rw [(hMoves.rel.held W.task List.mem_cons_self).care]
  exact h

/- Machines check their jumps. -/
theorem Active.checks
    (h : W.Active s) :
    (s.machines.getD W.machine default).assertions = true :=
  h.sound.inv.checks W.machine h.machine

end Stint

/- What is no step does not suspend. -/
theorem Value.Ends.of_not
    {v : Value}
    (h : v.isStep = false) :
    v.Ends := by
  have hNone : v.step? = none := by
    simpa [Value.isStep] using h
  constructor <;> simp [hNone]

/- What is no step leaves nothing open. -/
theorem Session.Opens.ends_of_not
    {m t : Ref}
    {v : Value}
    (h : s.Opens m t v opened F)
    (hNot : v.isStep = false) :
    opened = [] := by
  cases h with
  | ends => rfl
  | suspends hStep => simp [Value.isStep, hStep] at hNot

/- Code owns what it did while others were at work. -/
theorem Session.Carries.moves
    {code : Closure}
    {args : List Value}
    (h : s.Carries W.machine W.task code args opened F)
    (hMoves : W.world.Moves s s') :
    s'.Carries W.machine W.task code args opened F :=
  h.later hMoves.rel.sustains fun c hc =>
    (hMoves.rel.held W.task List.mem_cons_self).cells c
      (h.belongs hc)

/- So does code while the task's own code worked elsewhere. -/
theorem Session.Carries.works
    {code : Closure}
    {args : List Value}
    (h : s.Carries W.machine W.task code args opened F)
    (hWorks : W.Works H s s')
    (hApart : ∀ c, F c → ¬ H c) :
    s'.Carries W.machine W.task code args opened F :=
  h.later hWorks.sustains fun c hc =>
    hWorks.same c (h.belongs hc) (hApart c hc)

namespace Stint

------------------------------------------------------------
-- Making Something
------------------------------------------------------------

/- What is made later is made now. -/
theorem Makes.sooner
    {r : Except Value Value}
    (h : W.Makes H s₁ r s')
    (hWorks : W.Works F s s₁)
    (hF : ∀ c, s.Belongs W.task c → H c → F c) :
    W.Makes F s r s' where
  works := hWorks.trans h.works hF
  made v hv := by
    rcases h.made v hv with ⟨opened, G, hOpens, hLeaves, hG⟩
    refine ⟨opened, G, hOpens, hLeaves, fun c hc hOwn => ?_⟩
    by_cases hMine : F c
    · exact hMine
    · have hSame := hWorks.same c hc hMine
      have hStill := (hSame.belongs_iff W.task).mpr hc
      exact hF c hc (hG c hStill hOwn)
  failed := h.failed

theorem Makes.mono
    {r : Except Value Value}
    (h : W.Makes H s r s')
    (hF : ∀ c, H c → F c) :
    W.Makes F s r s' where
  works := h.works.mono hF
  made v hv := by
    rcases h.made v hv with ⟨opened, G, hOpens, hLeaves, hG⟩
    exact ⟨opened, G, hOpens, hLeaves,
      fun c hc hOwn => hF c (hG c hc hOwn)⟩
  failed := h.failed

namespace Yields

variable {α : Type}
variable {act act' : Run Value}

theorem sooner
    (h : W.Yields H act s₁)
    (hWorks : W.Works F s s₁)
    (hF : ∀ c, s.Belongs W.task c → H c → F c) :
    act.Ensures s₁ (W.Makes F s) :=
  Run.Ensures.mono h fun _ _ hMakes => hMakes.sooner hWorks hF

theorem mono
    (h : W.Yields H act s)
    (hF : ∀ c, H c → F c) :
    W.Yields F act s :=
  Run.Ensures.mono h fun _ _ hMakes => hMakes.mono hF

/- A computation may go on like another one elsewhere. -/
theorem of_eq
    (hEq : act s = act' s₁)
    (hWorks : W.Works F s s₁)
    (hF : ∀ c, s.Belongs W.task c → H c → F c)
    (h : W.Yields H act' s₁) :
    W.Yields F act s := by
  intro r s' hRun
  rw [hEq] at hRun
  exact h.sooner hWorks hF r s' hRun

/- Everyone else may do something first. -/
theorem bind_with
    {first : Run α}
    {next : α → Run Value}
    {P : Except Value α → Session → Prop}
    (hLeaves : W.Leaves [] s)
    (hFirst : W.world.Keeps first s)
    (hKnown : first.Ensures s P)
    (hNext : ∀ a s₁, W.world.Moves s s₁ → P (.ok a) s₁ →
      W.Yields F (next a) s₁) :
    W.Yields F (first >>= next) s := by
  refine Run.Ensures.bind
    ((Run.Ensures.and hFirst hKnown).mono ?_)
  rintro r s₁ ⟨hMoves, hEnd⟩
  have hWorks := Works.of_moves (F := F) hMoves
  cases r with
  | error e =>
      exact ⟨hWorks, nofun, fun _ _ => hLeaves.moves hMoves⟩
  | ok a =>
      exact (hNext a s₁ hMoves hEnd).sooner hWorks
        fun _ _ hc => hc

theorem bind
    {first : Run α}
    {next : α → Run Value}
    (hLeaves : W.Leaves [] s)
    (hFirst : W.world.Keeps first s)
    (hNext : ∀ a s₁, W.world.Moves s s₁ →
      W.Yields F (next a) s₁) :
    W.Yields F (first >>= next) s :=
  bind_with hLeaves hFirst (Run.ensures_self first s)
    fun a s₁ hMoves _ => hNext a s₁ hMoves

theorem row_bind
    {ρ : Type}
    [Inhabited ρ]
    {t : Table ρ}
    {r : Ref}
    {next : ρ → Run Value}
    (h : W.Yields F (next ((t.rows s).getD r default)) s) :
    W.Yields F (t.row r >>= next) s :=
  Run.ensures_row_bind.mpr h

theorem get_bind
    {next : Session → Run Value}
    (h : W.Yields F (next s) s) :
    W.Yields F ((get : Run Session) >>= next) s :=
  Run.ensures_get_bind.mpr h

/- Where no cleanups are open, there may be a failure. -/
theorem raise
    (hActive : W.Active s)
    (hLeaves : W.Leaves [] s)
    (e : Value) :
    W.Yields F (Run.raise e) s :=
  Run.ensures_raise.mpr
    ⟨.of_moves (.refl hActive.sound), nofun, fun _ _ => hLeaves⟩

/- There may be an end as well. -/
theorem ends
    {v : Value}
    (hActive : W.Active s)
    (hLeaves : W.Leaves [] s)
    (h : v.Ends) :
    W.Yields F (return v) s := by
  refine Run.ensures_pure.mpr
    ⟨.of_moves (.refl hActive.sound), ?_, nofun⟩
  rintro _ ⟨⟩
  exact ⟨[], .none, .ends h, hLeaves, fun _ _ hc => hc.elim⟩

/- What is raised may be a new error. -/
theorem defect
    (hActive : W.Active s)
    (hLeaves : W.Leaves [] s)
    (d : Defect) :
    W.Yields F (Run.defect d) s :=
  bind hLeaves (keeps_newDefect hActive.sound d)
    fun _ _ hMoves =>
      raise (hActive.moves hMoves) (hLeaves.moves hMoves) _

theorem typeError
    (hActive : W.Active s)
    (hLeaves : W.Leaves [] s) :
    W.Yields F Run.typeError s :=
  bind hLeaves (keeps_newTypeError hActive.sound)
    fun _ _ hMoves =>
      raise (hActive.moves hMoves) (hLeaves.moves hMoves) _

/- A step is made of what it is a view of. -/
private theorem newStep
    {step : StepView}
    (hActive : W.Active s)
    (h : ∀ v s₁, W.world.Moves s s₁ → v.step? = some step →
      W.Makes F s (.ok v) s₁) :
    W.Yields F (Run.newStep step) s := by
  refine Run.Ensures.mono
    (Run.Ensures.and (keeps_newStep hActive.sound step)
      (Run.ensures_newStep step s)) ?_
  rintro r s₁ ⟨hMoves, _, made, rfl, hMade⟩
  exact h made s₁ hMoves hMade

/- A step may end the code. -/
theorem finish
    (hActive : W.Active s)
    (hLeaves : W.Leaves [] s)
    (v : Value) :
    W.Yields F (Run.newStep (.finish v)) s := by
  refine newStep hActive fun made s₁ hMoves hMade => ?_
  refine ⟨.of_moves hMoves, ?_, nofun⟩
  rintro _ ⟨⟩
  have hEnds : made.Ends := by
    constructor <;> simp [hMade]
  exact ⟨[], .none, .ends hEnds, hLeaves.moves hMoves,
    fun _ _ hc => hc.elim⟩

/- Or hand off to a future. -/
theorem handOff
    (hActive : W.Active s)
    (hLeaves : W.Leaves [] s)
    (f : Ref) :
    W.Yields F (Run.newStep (.handOff (.future f))) s := by
  refine newStep hActive fun made s₁ hMoves hMade => ?_
  refine ⟨.of_moves hMoves, ?_, nofun⟩
  rintro _ ⟨⟩
  have hEnds : made.Ends := by
    constructor <;> simp [hMade]
  exact ⟨[], .none, .ends hEnds, hLeaves.moves hMoves,
    fun _ _ hc => hc.elim⟩

/- A step may suspend where the open cleanups are carried on. -/
theorem suspend
    {l : Ref}
    {code : Closure}
    (hActive : W.Active s)
    (hLeaves : W.Leaves opened s)
    (hLabel : s.Bears W.machine l (some code))
    (hCarries : s.Carries W.machine W.task code [] opened F)
    (awaiter : Value) :
    W.Yields F (Run.newStep (.suspend awaiter (.label l))) s := by
  refine newStep hActive fun made s₁ hMoves hMade => ?_
  refine ⟨.of_moves hMoves, ?_, nofun⟩
  rintro _ ⟨⟩
  exact ⟨opened, F, .suspends hMade
    (hMoves.rel.sustains.bears _ _ _ hLabel)
    (hCarries.moves hMoves), hLeaves.moves hMoves,
    fun _ _ hc => hc⟩

end Yields

------------------------------------------------------------
-- Labels
------------------------------------------------------------

end Stint

namespace Caring

variable {held : List Ref}
variable {m l : Ref}

/- One more label is no matter to anyone. -/
theorem moves_withLabel
    (hs : (Caring held).Sound s)
    (m : Ref)
    (code : Option Closure) :
    (Caring held).Moves s (s.withLabel m code) := by
  have hSustains : s.Sustains (s.withLabel m code) :=
    { Sustains.refl s with
      machines := by simp [Session.withLabel]
      bears := fun _ _ _ h => h.withLabel _ }
  refine moves hs hSustains rfl
    (fun t => { Untouched.refl t s with
      cells := fun c _ => by cases c <;> rfl })
    (fun f w hw => hSustains.careful (hs.inv.watchers f w hw))
    (fun m' hm' => ?_) (Nat.le_refl _) { hs.stocked with }
  have hSize : (s.withLabel m code).machines.size =
      s.machines.size := by simp [Session.withLabel]
  rw [hSize] at hm'
  have hChecks := hs.inv.checks m' hm'
  simp only [Session.withLabel, getD_modify, apply_ite, ite_self]
  exact hChecks

/- Neither is code under a label that bore nothing. -/
theorem moves_relabelled
    (hs : (Caring held).Sound s)
    (h : s.Bears m l none)
    (code : Closure) :
    (Caring held).Moves s (s.relabelled l code) := by
  have hSustains : s.Sustains (s.relabelled l code) :=
    { Sustains.refl s with
      bears := fun m' l' code' hBears => by
        refine hBears.relabelled_of_ne ?_ code
        rintro rfl
        have hSame := h.lt
        rcases h with ⟨n, hLabel, _⟩
        rcases hBears with ⟨n', hLabel', _⟩
        rw [hLabel] at hLabel'
        cases hLabel' }
  exact moves hs hSustains rfl
    (fun t => { Untouched.refl t s with
      cells := fun c _ => by cases c <;> rfl })
    (fun f w hw => hSustains.careful (hs.inv.watchers f w hw))
    hs.inv.checks (Nat.le_refl _) { hs.stocked with }

end Caring

namespace Stint

/- A step may suspend at a new label. -/
theorem Yields.install
    {code : Closure}
    (hActive : W.Active s)
    (hLeaves : W.Leaves opened s)
    (hCarries : s.Carries W.machine W.task code [] opened F)
    (awaiter : Value) :
    W.Yields F (do
      let l ← Label.install W.machine code
      Run.newStep (.suspend awaiter (.label l))) s := by
  have hMoves := Caring.moves_withLabel hActive.sound W.machine
    (some code)
  refine .of_eq (Run.step_eq (Label.install_eq _ code s) rfl)
    (.of_moves hMoves) (fun _ _ hc => hc) ?_
  exact .suspend (hActive.moves hMoves) (hLeaves.moves hMoves)
    (s.bears_withLabel hActive.machine (some code))
    (hCarries.moves hMoves) awaiter

/- A caller of a task's code makes what the code leaves open. -/
def Carrying (caller : Caller) : Prop :=
  ∀ ⦃W : Stint⦄ ⦃s code args opened F⦄,
    W.Active s → W.Leaves opened s →
    s.Carries W.machine W.task code args opened F →
    W.Yields F (caller.call code args) s

/- A jump makes what the code under the label makes: a step. -/
theorem Yields.jump
    {caller : Caller}
    {l : Ref}
    {code : Closure}
    (hc : Carrying caller)
    (hActive : W.Active s)
    (hLeaves : W.Leaves opened s)
    (hLabel : s.Bears W.machine l (some code))
    (hCarries : s.Carries W.machine W.task code [] opened F) :
    W.Yields F (Label.jump caller W.machine (.label l)) s := by
  rcases Label.jump_eq hLabel with ⟨id, hJump⟩
  refine .of_eq (hJump caller) (.of_moves (.refl hActive.sound))
    (fun _ _ hc => hc) ?_
  refine Run.Ensures.bind (Run.Ensures.mono
    (hc hActive hLeaves hCarries) ?_)
  rintro (e | step) s₁ hMakes
  · exact ⟨hMakes.works, nofun, hMakes.failed⟩
  refine Run.ensures_row_bind.mpr ?_
  split
  · next hRefuse =>
    have hNot : step.isStep = false := by
      simp only [Bool.and_eq_true, Bool.not_eq_true'] at hRefuse
      exact hRefuse.2
    have hActive₁ := hActive.later hMakes.works
    rcases hMakes.made step rfl with ⟨_, _, hOpens, hLeaves₁, _⟩
    obtain rfl := hOpens.ends_of_not hNot
    refine sooner (H := .none) ?_ hMakes.works
      fun _ _ hc => hc.elim
    exact .bind hLeaves₁ (keeps_chronicle hActive₁.sound rfl)
      fun _ _ h₂ => .defect (hActive₁.moves h₂)
        (hLeaves₁.moves h₂) _
  · exact Run.ensures_pure.mpr hMakes

end Stint

end Stint

end Resumption

import Resumption.Proofs.Likeness

/-
  Client code that tells what a session shows openly.

  Sessions are alike if their logs, their globals and their
  futures are the same; what the library does on its own
  account is no part of these.  Client code that reports, and
  goes on as code does that cannot tell alike sessions apart,
  cannot tell them apart either.

  Main declarations:
    * `Likeness.overt`
    * `Likeness.Logs`, `Program.reporting`
    * `Likeness.Blind.reporting`, `Likeness.Telling.reporting`
    * `Likeness.meets_suspended`
-/

namespace Resumption

open Run

variable {L : Likeness}
variable {s t : Session}
variable {m l l' f : Ref}
variable {n : Nat}
variable {own own' : Set Spot}
variable {v e : Value}

------------------------------------------------------------
-- What Is Shown Openly
------------------------------------------------------------

/- What the library does on its own account is not shown. -/
theorem Scene.Writes.covert
    {X Y : Scene}
    (h : X.Writes Y) :
    Y.session.log = X.session.log ∧
      Y.session.globals = X.session.globals ∧
      Y.session.futures = X.session.futures := by
  cases h <;> exact ⟨rfl, rfl, rfl⟩

/- What belongs to somebody is there, whatever is done. -/
theorem Scene.Writes.sound
    {X Y : Scene}
    (h : X.Writes Y)
    (hSound : X.Sound) :
    Y.Sound := by
  cases h with
  | label s own m code =>
      rintro x (hx | rfl)
      · exact (Session.Books.withLabel s m code).has x (hSound x hx)
      · exact Nat.lt_of_lt_of_eq (Nat.lt_succ_self _)
          (Array.size_push _).symm
  | code hOwn code =>
      exact fun x hx =>
        (Session.Books.relabelled _ _ code).has x (hSound x hx)
  | sequence s own row =>
      rintro x (hx | rfl)
      · exact (Session.Books.withSequenceRow s row).has x
          (hSound x hx)
      · exact Nat.lt_of_lt_of_eq (Nat.lt_succ_self _)
          (Array.size_push _).symm
  | step hOwn step =>
      exact fun x hx =>
        (Session.Books.resequenced _ _ step).has x (hSound x hx)
  | awaiter s own f =>
      rintro x (hx | rfl)
      · exact (Session.Books.withAwaiter s f).has x (hSound x hx)
      · exact Nat.lt_of_lt_of_eq (Nat.lt_succ_self _)
          (Array.size_push _).symm
  | stamped s own =>
      exact fun x hx =>
        (Session.Books.stamped s).has x (hSound x hx)
  | calling s own =>
      exact fun x hx =>
        (Session.Books.calling s).has x (hSound x hx)
  | less hLess => exact fun x hx => hSound x (hLess hx)

/- Sessions show the same openly. -/
structure Scene.ShowsAs (X Y : Scene) : Prop where
  left : X.Sound
  right : Y.Sound
  log : Y.session.log = X.session.log
  globals : Y.session.globals = X.session.globals
  futures : Y.session.futures = X.session.futures

/- Client code can tell what is shown openly, and all values. -/
def Likeness.overt : Likeness where
  alike := Scene.ShowsAs
  same := Eq
  undefined := rfl
  truthy := by
    rintro v _ rfl
    rfl
  sound h := ⟨h.left, h.right⟩
  log h := h.log
  outcome := by
    intro X Y h f
    have hSame : Y.session.outcome? f = X.session.outcome? f := by
      rw [Session.outcome?, h.futures]
      rfl
    rw [hSame]
    cases (X.session.outcome? f).map Outcome.read with
    | none => exact .none
    | some r =>
        refine .some ?_
        cases r <;> rfl
  left h hWrites := by
    rcases hWrites.covert with ⟨hLog, hGlobals, hFutures⟩
    exact ⟨hWrites.sound h.left, h.right, h.log.trans hLog.symm,
      h.globals.trans hGlobals.symm, h.futures.trans hFutures.symm⟩
  right h hWrites := by
    rcases hWrites.covert with ⟨hLog, hGlobals, hFutures⟩
    exact ⟨h.left, hWrites.sound h.right, hLog.trans h.log,
      hGlobals.trans h.globals, hFutures.trans h.futures⟩

------------------------------------------------------------
-- Code that Cannot Tell
------------------------------------------------------------

/- Client code that logs, and then goes on. -/
def Program.reporting
    (x : String)
    (p : Program) : Program :=
  .perform (.log (.str x)) fun _ => p

/- Client code that makes a step. -/
def Program.stepping (view : StepView) : Program :=
  .request (.newStep view)

/- What reports goes on where that has been logged. -/
theorem Program.turnsTo_reporting
    (x : String)
    (p : Program)
    (s : Session) :
    TurnsTo 0 (fun caller => (p.reporting x).run caller) s
      (fun caller => p.run caller) (logging (.str x) s) := by
  refine .of_eq fun caller => ?_
  have hLog : Request.perform caller (.log (.str x)) s =
      some (.ok .undefined, logging (.str x) s) := rfl
  exact step_eq hLog rfl

/- What makes a step is done at once. -/
theorem Program.run_stepping
    (view : StepView)
    (s : Session) :
    ∃ step : Value, step.step? = some view ∧
      ∀ caller, (stepping view).run caller s =
        some (.ok step, s.stamped) :=
  ⟨_, Value.step?_record_fields _ _, fun _ => rfl⟩

/- The text of a text is itself. -/
theorem Session.text_str
    (s : Session)
    (x : String) :
    s.text (.str x) = x := by
  unfold Session.text
  cases s.lists.size <;> rfl

/- Client code that sets a global, and then goes on. -/
def Program.setting
    (x : String)
    (v : Value)
    (p : Program) : Program :=
  .perform (.writeGlobal (.str x) v) fun _ => p

/- A session in which a global has been set. -/
def Session.withGlobal
    (s : Session)
    (x : String)
    (v : Value) : Session :=
  { s with globals := Fields.put x v s.globals }

theorem Program.turnsTo_setting
    (x : String)
    (v : Value)
    (p : Program)
    (s : Session) :
    TurnsTo 0 (fun caller => (p.setting x v).run caller) s
      (fun caller => p.run caller) (s.withGlobal x v) := by
  refine .of_eq fun caller => ?_
  have hSet : Request.perform caller (.writeGlobal (.str x) v) s =
      some (.ok v, s.withGlobal (s.text (.str x)) v) := rfl
  rw [s.text_str] at hSet
  exact step_eq hSet rfl

/- No row of a construct is a global. -/
theorem Session.leaves_withGlobal
    (x : String)
    (v : Value)
    (s : Session)
    (own : Set Spot) :
    s.Leaves own (s.withGlobal x v) := by
  rintro (l | i | a) _
  · exact fun _ _ h => h
  · rfl
  · rfl

/- What is logged is no row of a construct. -/
theorem Session.leaves_logging
    (d : Datum)
    (s : Session)
    (own : Set Spot) :
    s.Leaves own (logging d s) := by
  rintro (l | i | a) _
  · exact fun _ _ h => h
  · rfl
  · rfl

namespace Likeness

/- What both sides log makes no difference between them. -/
def Logs (L : Likeness) : Prop :=
  ∀ X Y d, L.alike X Y →
    L.alike ⟨logging d X.session, X.own⟩
      ⟨logging d Y.session, Y.own⟩

variable {p : Program}

/- Code that reports tells no more than what it goes on as. -/
theorem Blind.reporting
    (h : L.Blind m p)
    (hLogs : L.Logs)
    (x : String) :
    L.Blind m (p.reporting x) :=
  fun n own own' s t hAlike =>
    (h n own own' _ _ (hLogs _ _ _ hAlike)).of_turns
      (Program.turnsTo_reporting x p s)
      (Program.turnsTo_reporting x p t)
      (Session.leaves_logging _ s own)
      (Session.leaves_logging _ t own')

theorem Telling.reporting
    (h : L.Telling p)
    (hLogs : L.Logs)
    (x : String) :
    L.Telling (p.reporting x) :=
  fun own own' s t hAlike =>
    (h own own' _ _ (hLogs _ _ _ hAlike)).of_turns
      (Program.turnsTo_reporting x p s)
      (Program.turnsTo_reporting x p t)
      (Session.leaves_logging _ s own)
      (Session.leaves_logging _ t own')

/- Code that finishes, hands off or fails tells nothing. -/
theorem blind_stepping
    {view : StepView}
    (hMeets : ∀ step step' s t, step.step? = some view →
      step'.step? = some view → L.alike ⟨s, own⟩ ⟨t, own'⟩ →
        L.Meets (L.Resumes m n) own own'
          (.ok step) s (.ok step') t)
    (hAlike : L.alike ⟨s, own⟩ ⟨t, own'⟩) :
    L.Alike m n own own'
      (fun caller => (Program.stepping view).run caller) s
      (fun caller => (Program.stepping view).run caller) t := by
  rcases Program.run_stepping view s with ⟨step, hStep, hRun⟩
  rcases Program.run_stepping view t with ⟨step', hStep', hRun'⟩
  have hSound := L.sound hAlike
  exact .ends (ends_of_eq hRun) (ends_of_eq hRun')
    ((Session.Books.stamped s).leaves own (Set.disjoint_empty _)
      hSound.1)
    ((Session.Books.stamped t).leaves own' (Set.disjoint_empty _)
      hSound.2)
    (hMeets step step' _ _ hStep hStep'
      (L.right (L.left hAlike (.stamped s own))
        (.stamped t own')))

theorem blind_finish
    (hSame : L.same v v) :
    L.Blind m (.stepping (.finish v)) :=
  fun _ _ _ _ _ => blind_stepping fun _ _ _ _ hStep hStep' =>
    .returns hStep hStep' hSame

theorem blind_handOff :
    L.Blind m (.stepping (.handOff (.future f))) :=
  fun _ _ _ _ _ => blind_stepping fun _ _ _ _ hStep hStep' =>
    .handsOff hStep hStep'

theorem blind_fail
    (hSame : L.same e e) :
    L.Blind m (.fail e) :=
  fun _ own own' s t hAlike =>
    .ends (ends_of_eq fun _ => rfl) (ends_of_eq fun _ => rfl)
      (.refl s own) (.refl t own') (.throws hSame hAlike)

/-
  A step that suspends, and has client code under its label,
  meets itself, if that cannot tell.
-/
theorem meets_suspended
    {code : Code}
    {step awaiter : Value}
    (hStep : step.step? = some (.suspend awaiter (.label l)))
    (hBears : s.Bears m l (some (.client code)))
    (hBears' : t.Bears m l (some (.client code)))
    (hSource : L.Source s t awaiter awaiter)
    (hOwn : Disjoint {.label l} own)
    (hOwn' : Disjoint {.label l} own')
    (hAlike : L.alike ⟨s, own ∪ {.label l}⟩
      ⟨t, own' ∪ {.label l}⟩)
    (hBlind : L.Blind m (code [])) :
    L.Meets (L.Resumes m n) own own' (.ok step) s (.ok step) t := by
  refine .suspends {.label l} {.label l} hStep hStep hSource hOwn
    hOwn' hAlike ?_
  intro others others' s₁ t₁ _ _ hAlike₁ hLeaves hLeaves' _ _
  cases n with
  | zero => trivial
  | succ k =>
  have hCalled := L.right (L.left (L.alike_less hAlike₁
    Set.subset_union_left Set.subset_union_left)
    (.calling s₁ others)) (.calling t₁ others')
  exact (((hBlind k others others' _ _ hCalled).of_turns
    (turnsTo_client code s₁) (turnsTo_client code t₁)
    (.refl s₁ others) (.refl t₁ others')).jump_left
      (hLeaves _ rfl _ _ hBears)).jump_right
        (hLeaves' _ rfl _ _ hBears')

------------------------------------------------------------
-- Code that Can Tell What Is Shown
------------------------------------------------------------

theorem logs_overt : overt.Logs :=
  fun _ _ d h =>
    { h with
      left := fun x hx => by
        have hHas := h.left x hx
        cases x <;> exact hHas
      right := fun x hx => by
        have hHas := h.right x hx
        cases x <;> exact hHas
      log := congrArg (·.push d) h.log }

/- A global is the same wherever the same is shown. -/
theorem telling_global (x : String) :
    overt.Telling (.request (.readGlobal (.str x))) := by
  intro own own' s t h
  refine .ends (ends_of_eq fun _ => rfl) (ends_of_eq fun _ => rfl)
    (.refl s own) (.refl t own') ⟨?_, h⟩
  have hGlobals : t.globals = s.globals := h.globals
  rw [s.text_str, t.text_str, hGlobals]
  rfl

/- Setting one makes no difference, if both sides do. -/
theorem Blind.setting
    (h : overt.Blind m p)
    (x : String)
    (v : Value) :
    overt.Blind m (p.setting x v) := by
  intro n own own' s t hAlike
  have hSet : overt.alike ⟨s.withGlobal x v, own⟩
      ⟨t.withGlobal x v, own'⟩ :=
    { hAlike with
      left := fun y hy => by
        have hHas := hAlike.left y hy
        cases y <;> exact hHas
      right := fun y hy => by
        have hHas := hAlike.right y hy
        cases y <;> exact hHas
      globals := congrArg (Fields.put x v) hAlike.globals }
  exact (h n own own' _ _ hSet).of_turns
    (Program.turnsTo_setting x v p s)
    (Program.turnsTo_setting x v p t)
    (Session.leaves_withGlobal x v s own)
    (Session.leaves_withGlobal x v t own')

end Likeness

end Resumption

import Resumption.Proofs.Veil.Courses

/-
  What makes no difference to the course of a session: that
  jumps are checked, where none refuses anything; how tasks
  were entered, where no context is ever ambient; and who
  listens to tasks, where that is all they do.

  Main declarations:
    * `Session.LooksLike`
    * `Session.Plays.same_unchecked`
    * `Session.Plays.same_by_either_rule`
    * `Session.Plays.same_whoever_listens`
-/

namespace Resumption

open Run

------------------------------------------------------------
-- The Empty Session
------------------------------------------------------------

namespace Veil

variable {V : Veil}
variable {s t : Session}

theorem futureRow_default :
    V.futureRow default = default := by
  have hNone : (default : FutureCell).watchers = #[] := rfl
  rw [futureRow, hNone, Array.map_empty]
  rfl

theorem promiseRow_default :
    V.promiseRow default = default := by
  have hNone : (default : PromiseCell).reactions = #[] := rfl
  rw [promiseRow, hNone, Array.map_empty]
  rfl

theorem driverRow_default :
    V.driverRow default = default := by
  rcases V with ⟨_, _, _ | _⟩ <;> rfl

/- In the beginning there is nothing to hide. -/
theorem sees_empty :
    V.Sees Session.empty Session.empty where
  objects := rfl
  events _ := rfl
  aside := rfl
  frank _ := rfl
  ambient := rfl
  plain _ := rfl
  task := rfl
  home := rfl
  globals := rfl
  effects := rfl
  heard _ := rfl
  log _ := rfl
  microtasks := rfl
  immediates := rfl
  lists := .of_eq fun _ => rfl
  functions := ⟨rfl, fun _ => rfl⟩
  classes := ⟨rfl, fun _ => rfl⟩
  machines := ⟨rfl, fun _ => rfl⟩
  labels := ⟨rfl, fun _ => rfl⟩
  futures := ⟨rfl, fun _ => futureRow_default.symm⟩
  promises := ⟨rfl, fun _ => promiseRow_default.symm⟩
  deferreds := .of_eq fun _ => rfl
  awaiters := ⟨rfl, fun _ => .future _ fun _ => rfl⟩
  awaitables := ⟨rfl, fun _ => rfl⟩
  thenables := ⟨rfl, fun _ => rfl⟩
  contexts := ⟨rfl, fun _ => rfl⟩
  controlled := .of_eq fun _ => rfl
  iterables := ⟨rfl, fun _ => rfl⟩
  resources := ⟨rfl, fun _ => rfl⟩
  collectors := .of_eq fun _ => rfl
  sequences := .of_eq fun _ => rfl
  recoveries := ⟨rfl, fun _ => rfl⟩
  cleanups := ⟨rfl, fun _ => rfl⟩
  cursors := .of_eq fun _ => rfl
  drivers := ⟨rfl, fun _ => driverRow_default.symm⟩
  builders := ⟨rfl, fun _ => ⟨rfl, fun _ => rfl⟩⟩
  latches := .of_eq fun _ => rfl
  tasks := .of_eq fun _ => rfl

end Veil

------------------------------------------------------------
-- Sessions That Look Alike
------------------------------------------------------------

/-
  Two sessions look alike to their clients: all that client
  code has logged and left in globals, what every task went
  through with the events it told of, the label counts, and
  how all futures and promises have ended.
-/
structure Session.LooksLike (s t : Session) : Prop where
  effects : s.effects = t.effects
  globals : s.globals = t.globals
  tasks : s.tasks = t.tasks
  labelCount : ∀ m, s.labelCount m = t.labelCount m
  futures : ∀ f : Nat,
    (s.futures.getD f default).settlement =
      (t.futures.getD f default).settlement
  promises : ∀ p : Nat,
    (s.promises.getD p default).outcome =
      (t.promises.getD p default).outcome

namespace Session.LooksLike

variable {s t u : Session}

theorem symm
    (h : s.LooksLike t) :
    t.LooksLike s where
  effects := h.effects.symm
  globals := h.globals.symm
  tasks := h.tasks.symm
  labelCount m := (h.labelCount m).symm
  futures f := (h.futures f).symm
  promises p := (h.promises p).symm

theorem trans
    (h : s.LooksLike t)
    (h' : t.LooksLike u) :
    s.LooksLike u where
  effects := h.effects.trans h'.effects
  globals := h.globals.trans h'.globals
  tasks := h.tasks.trans h'.tasks
  labelCount m := (h.labelCount m).trans (h'.labelCount m)
  futures f := (h.futures f).trans (h'.futures f)
  promises p := (h.promises p).trans (h'.promises p)

end Session.LooksLike

namespace Veil

variable {V : Veil}
variable {s t : Session}

/- Nothing is lost of entries without pictures of builders. -/
theorem eq_of_shades_eq
    {entries entries' : List Datum}
    (hPlain : V.contexts = true →
      ∀ d ∈ entries, d.ruleless = true)
    (h : entries'.map V.shade = entries.map V.shade) :
    entries' = entries := by
  cases hContexts : V.contexts with
  | false =>
      have hSeen : V.shade = id :=
        funext fun d => shade_of_seen hContexts d
      simpa [hSeen] using h
  | true =>
      have hBlurred : V.shade = Datum.blurred :=
        funext fun d => by simp [shade, hContexts]
      rw [hBlurred] at h
      induction entries generalizing entries' with
      | nil => simpa using h
      | cons d rest ih =>
          cases entries' with
          | nil => simp at h
          | cons d' rest' =>
              simp only [List.map_cons, List.cons.injEq] at h
              have hHead := Datum.eq_of_blurred_eq
                (hPlain hContexts d List.mem_cons_self) h.1
              rw [hHead, ih (fun hc e he => hPlain hc e
                (List.mem_cons_of_mem d he)) h.2]

/- What is hidden makes no difference to clients. -/
theorem Sees.looksLike
    (h : V.Sees s t)
    (hHidden : V.Hidden s) :
    s.LooksLike t where
  effects := by
    refine (eq_of_shades_eq (fun hContexts d hd => ?_)
      h.effects).symm
    rcases List.mem_filterMap.mp hd with ⟨i, hi, hEffect⟩
    cases i with
    | logs entry =>
        cases hEffect
        exact hHidden _ hi hContexts
    | _ => cases hEffect
  globals := h.globals.symm
  tasks := h.tasks.eq.symm
  labelCount m := (h.labelCount_eq m).symm
  futures f := (h.settlement_eq f).symm
  promises p := by
    have hRow : t.promises.getD p default =
        V.promiseRow (s.promises.getD p default) :=
      h.promises.row p
    rw [hRow, promiseRow]

end Veil

namespace Session.Plays

variable {acts acts' : List Act}
variable {s t s' t' : Session}
variable {rs rs' : List (Except Value Value)}
variable {es es' : List Value}

/- Acts can be played in one way only. -/
theorem unique
    (h : Plays acts s rs es t)
    (h' : Plays acts s rs' es' t') :
    rs = rs' ∧ es = es' ∧ t = t' := by
  induction h generalizing rs' es' t' with
  | nil s =>
      cases h'
      exact ⟨rfl, rfl, rfl⟩
  | ask hRun _ ih =>
      cases h' with
      | ask hRun' hRest' =>
          cases hRun.symm.trans hRun'
          rcases ih hRest' with ⟨rfl, rfl, rfl⟩
          exact ⟨rfl, rfl, rfl⟩
  | turn _ hTurn _ ih =>
      cases h' with
      | turn _ hTurn' hRest' =>
          cases hTurn.symm.trans hTurn'
          exact ih hRest'
  | report hDue hTurn _ ih =>
      cases h' with
      | report hDue' hTurn' hRest' =>
          cases hDue.symm.trans hDue'
          cases hTurn.symm.trans hTurn'
          rcases ih hRest' with ⟨rfl, rfl, rfl⟩
          exact ⟨rfl, rfl, rfl⟩

end Session.Plays

------------------------------------------------------------
-- A Course
------------------------------------------------------------

/-
  Start a task that awaits a future within the body of a
  construct, and logs when it goes on and when it is left.
-/
def Program.awaitingInside
    (captured : Bool)
    (listener : Option Code) : Program :=
  .perform .newFuture fun deferred =>
    .perform (.writeGlobal (.str "source") deferred) fun _ =>
      .perform (.field deferred (.str "future")) fun source =>
        .request (.task captured (.bool true)
          (fun args =>
            let b := args.headD .undefined
            .request (.tryFinally b
              (fun _ => .request
                (.bind b source fun found =>
                  .perform (.log (found.headD .undefined))
                    fun v => .request (.newStep (.finish v))))
              fun _ => .request (.log (.str "left"))))
          ⟨.undefined, .undefined, listener⟩)

/- Settle the future that the task awaits. -/
def Program.settlingSource : Program :=
  .perform (.readGlobal (.str "source")) fun deferred =>
    .request (.settle deferred (.fulfilled (.int 5)))

/-
  The task is started and the future settled; then there are
  some reports.
-/
def Act.awaitingInside
    (captured : Bool)
    (listener : Option Code)
    (reports : Nat) : List Act :=
  .ask 8 40 (.awaitingInside captured listener) ::
    .ask 8 40 .settlingSource ::
      List.replicate reports .report

/- Every incident of a course is as it should be. -/
theorem Session.plays_all
    (acts : List Act)
    (ok : Incident → Bool)
    (h : (played acts .empty).any
      (fun out => out.2.2.chronicle.all ok) = true) :
    ∃ rs es s, Plays acts .empty rs es s ∧
      ∀ i ∈ s.chronicle, ok i = true := by
  rcases (Option.any_eq_true _ _).mp h with
    ⟨⟨rs, es, s⟩, hPlayed, hAll⟩
  exact ⟨rs, es, s, plays_of_played hPlayed,
    List.all_eq_true.mp hAll⟩

------------------------------------------------------------
-- Checks
------------------------------------------------------------

/- No machine checks its jumps. -/
def Veil.unchecked : Veil :=
  ⟨true, none, false⟩

/-
  A course in which no jump refuses anything is the same
  where no machine checks its jumps.  Client code ends in the
  same ways, listeners hear the same, and the log is the same.
-/
theorem Session.Plays.same_unchecked
    {acts : List Act}
    {s : Session}
    {rs : List (Except Value Value)}
    {es : List Value}
    (h : Plays acts .empty rs es s)
    (hWell : ∀ l, .malformed l ∉ s.chronicle) :
    ∃ t, Plays (Veil.unchecked.acts acts) .empty rs es t ∧
      s.LooksLike t ∧ s.heard = t.heard ∧ s.log = t.log := by
  have hHidden : Veil.unchecked.Hidden s := by
    intro i hi
    cases i with
    | malformed l => exact (hWell l hi).elim
    | inspects b => rfl
    | within context => exact nofun
    | binds source configurable => exact nofun
    | logs d => exact nofun
    | hears listener args ended => exact nofun
    | _ => trivial
  rcases h.veiled Veil.sees_empty hHidden with
    ⟨t, hPlays, hSees⟩
  have hLog : t.log.toList = s.log.toList :=
    Veil.eq_of_shades_eq (V := Veil.unchecked) nofun
      (hSees.log rfl)
  exact ⟨t, hPlays, hSees.looksLike hHidden,
    (hSees.heard rfl).symm, Array.toList_inj.mp hLog.symm⟩

/- An incident that is no refusal of a jump. -/
def Incident.accepting : Incident → Bool
  | .malformed _ => false
  | _ => true

/- A task whose jumps are checked ends alike unchecked. -/
theorem Session.same_unchecked_inside :
    ∃ rs es s t,
      Plays (Act.awaitingInside true none 0) .empty rs es s ∧
      (∀ l, .malformed l ∉ s.chronicle) ∧
      Plays (Veil.unchecked.acts
        (Act.awaitingInside true none 0)) .empty rs es t ∧
      s.LooksLike t ∧ s.heard = t.heard ∧ s.log = t.log := by
  rcases plays_all (Act.awaitingInside true none 0)
      Incident.accepting (by decide +kernel) with
    ⟨rs, es, s, h, hAll⟩
  have hWell : ∀ l, .malformed l ∉ s.chronicle :=
    fun l hl => nomatch hAll _ hl
  rcases h.same_unchecked hWell with ⟨t, hRest⟩
  exact ⟨rs, es, s, t, h, hWell, hRest⟩

------------------------------------------------------------
-- Context Rules
------------------------------------------------------------

/- All tasks have the same context rule. -/
def Veil.ruled (keeps : Bool) : Veil :=
  ⟨false, some keeps, false⟩

/-
  No context was ever ambient, and nothing was done by which
  context rules could be told apart: no source that a builder
  awaited has a variant with another rule, and no builder was
  asked for its rule or shown in the log.
-/
structure Session.Contextless (s : Session) : Prop where
  ambient : ∀ context, .within context ∈ s.chronicle →
    context.truthy = false
  sources : ∀ v configurable,
    .binds v configurable ∈ s.chronicle → configurable = false
  builders : ∀ b, .inspects b ∉ s.chronicle
  pictures : ∀ d, .logs d ∈ s.chronicle → d.ruleless = true

theorem Session.Contextless.hidden
    {s : Session}
    (h : s.Contextless)
    (keeps : Bool) :
    (Veil.ruled keeps).Hidden s := by
  intro i hi
  cases i with
  | malformed l => rfl
  | inspects b => exact (h.builders b hi).elim
  | within context => exact fun _ => h.ambient context hi
  | binds v configurable => exact fun _ => h.sources v _ hi
  | logs d => exact fun _ => h.pictures d hi
  | hears listener args ended => exact nofun
  | _ => trivial

/-
  Where no context is ever ambient it makes no difference by
  which of the two entry points a task is started: courses
  that differ in nothing else end alike.  They can be played
  with either entry point for all tasks.
-/
theorem Session.Plays.same_by_either_rule
    {acts acts' : List Act}
    {s : Session}
    {rs : List (Except Value Value)}
    {es : List Value}
    {keeps : Bool}
    (h : Plays acts .empty rs es s)
    (hNone : s.Contextless)
    (hSame : (Veil.ruled keeps).acts acts =
      (Veil.ruled keeps).acts acts') :
    (∃ t, Plays ((Veil.ruled keeps).acts acts') .empty rs es t ∧
      s.LooksLike t ∧ s.heard = t.heard) ∧
    ∀ rs' es' s', Plays acts' .empty rs' es' s' →
      s'.Contextless →
        rs' = rs ∧ es' = es ∧ s.LooksLike s' ∧
          s.heard = s'.heard := by
  have hHidden := hNone.hidden keeps
  rcases h.veiled Veil.sees_empty hHidden with
    ⟨t, hPlays, hSees⟩
  have hLooks := hSees.looksLike hHidden
  have hHeard := (hSees.heard rfl).symm
  rw [hSame] at hPlays
  refine ⟨⟨t, hPlays, hLooks, hHeard⟩, ?_⟩
  intro rs' es' s' h' hNone'
  have hHidden' := hNone'.hidden keeps
  rcases h'.veiled Veil.sees_empty hHidden' with
    ⟨t', hPlays', hSees'⟩
  rcases hPlays'.unique hPlays with ⟨rfl, hReported, rfl⟩
  exact ⟨rfl, hReported,
    hLooks.trans (hSees'.looksLike hHidden').symm,
    hHeard.trans (hSees'.heard rfl)⟩

/- An incident that tells nothing of context rules. -/
def Incident.contextless : Incident → Bool
  | .within context => !context.truthy
  | .binds _ configurable => !configurable
  | .inspects _ => false
  | .logs d => d.ruleless
  | _ => true

theorem Session.Contextless.of_all
    {s : Session}
    (h : ∀ i ∈ s.chronicle, i.contextless = true) :
    s.Contextless where
  ambient context hi := by
    simpa [Incident.contextless] using h _ hi
  sources v configurable hi := by
    simpa [Incident.contextless] using h _ hi
  builders b hi := nomatch h _ hi
  pictures d hi := h _ hi

/- A task and a detached task await the same future alike. -/
theorem Session.same_by_either_rule_inside :
    ∃ rs es s s',
      Plays (Act.awaitingInside true none 0) .empty rs es s ∧
      s.Contextless ∧
      Plays (Act.awaitingInside false none 0) .empty
        rs es s' ∧
      s'.Contextless ∧
      s.LooksLike s' ∧ s.heard = s'.heard := by
  rcases plays_all (Act.awaitingInside true none 0)
      Incident.contextless (by decide +kernel) with
    ⟨rs, es, s, h, hAll⟩
  rcases plays_all (Act.awaitingInside false none 0)
      Incident.contextless (by decide +kernel) with
    ⟨rs', es', s', h', hAll'⟩
  have hNone := Contextless.of_all hAll
  have hNone' := Contextless.of_all hAll'
  have hSame : (Veil.ruled false).acts
      (Act.awaitingInside true none 0) =
        (Veil.ruled false).acts
          (Act.awaitingInside false none 0) := rfl
  rcases (h.same_by_either_rule hNone hSame).2 rs' es' s' h' hNone' with
    ⟨rfl, rfl, hLooks, hHeard⟩
  exact ⟨_, _, s, s', h, hNone, h', hNone', hLooks, hHeard⟩

------------------------------------------------------------
-- Listeners
------------------------------------------------------------

/- Nobody listens to tasks. -/
def Veil.unheard : Veil :=
  ⟨false, none, true⟩

/- All that listeners did was to record, and maybe to throw. -/
def Session.ListenersRecord (s : Session) : Prop :=
  ∀ listener args ended,
    .hears listener args ended ∈ s.chronicle →
      ∃ code, listener = .client code ∧ (code args).Records

theorem Session.ListenersRecord.hidden
    {s : Session}
    (h : s.ListenersRecord) :
    Veil.unheard.Hidden s := by
  intro i hi
  cases i with
  | malformed l => rfl
  | inspects b => rfl
  | within context => exact nofun
  | binds v configurable => exact nofun
  | logs d => exact nofun
  | hears listener args ended =>
      exact fun _ => h listener args ended hi
  | _ => trivial

/-
  It makes no difference who listens to tasks, if all that
  they do is to record or to throw: courses that differ in
  nothing else end alike, and can be played without any
  listener.  What listeners threw, in the order of the events,
  is what was reported, each by a job of its own, and then
  what is still to be.
-/
theorem Session.Plays.same_whoever_listens
    {acts acts' : List Act}
    {s : Session}
    {rs : List (Except Value Value)}
    {es : List Value}
    (h : Plays acts .empty rs es s)
    (hRecord : s.ListenersRecord)
    (hSame : Veil.unheard.acts acts =
      Veil.unheard.acts acts') :
    s.thrown = es ++ s.owed ∧
    (∃ t, Plays (Veil.unheard.acts acts') .empty rs [] t ∧
      s.LooksLike t) ∧
    ∀ rs' es' s', Plays acts' .empty rs' es' s' →
      s'.ListenersRecord →
        rs' = rs ∧ s.LooksLike s' := by
  have hHidden := hRecord.hidden
  rcases h.veiled Veil.sees_empty hHidden with
    ⟨t, hPlays, hSees⟩
  have hLooks := hSees.looksLike hHidden
  rw [hSame] at hPlays
  refine ⟨?_, ⟨t, hPlays, hLooks⟩, ?_⟩
  · rcases h.reports with ⟨more, hThrown, hOwed⟩
    exact hThrown.trans hOwed
  · intro rs' es' s' h' hRecord'
    have hHidden' := hRecord'.hidden
    rcases h'.veiled Veil.sees_empty hHidden' with
      ⟨t', hPlays', hSees'⟩
    rcases hPlays'.unique hPlays with ⟨rfl, _, rfl⟩
    exact ⟨rfl, hLooks.trans (hSees'.looksLike hHidden').symm⟩

/- A listener that throws what it is told. -/
def Code.throwing : Code :=
  fun args => .fail (args.headD .undefined)

/- A listener that does nothing but to throw. -/
def Incident.throwsOnly : Incident → Bool
  | .hears (.client code) args _ =>
      match code args with
      | .fail _ => true
      | _ => false
  | .hears _ _ _ => false
  | _ => true

theorem Session.ListenersRecord.of_all
    {s : Session}
    (h : ∀ i ∈ s.chronicle, i.throwsOnly = true) :
    s.ListenersRecord := by
  intro listener args ended hi
  have hThrows := h _ hi
  cases listener with
  | client code =>
      refine ⟨code, rfl, ?_⟩
      simp only [Incident.throwsOnly] at hThrows
      split at hThrows
      · next e hCode =>
          rw [hCode]
          exact .fail e
      · cases hThrows
  | _ => cases hThrows

/-
  A task whose listener throws at each of four events ends as
  it does without a listener; one error is still to be
  reported.
-/
theorem Session.same_whoever_listens_throwing :
    ∃ rs es s rs' es' s',
      Plays (Act.awaitingInside true (some .throwing) 3)
        .empty rs es s ∧
      s.ListenersRecord ∧ s.thrown = es ++ s.owed ∧
      Plays (Act.awaitingInside true none 0)
        .empty rs' es' s' ∧
      s'.ListenersRecord ∧
      rs' = rs ∧ s.LooksLike s' := by
  rcases plays_all
      (Act.awaitingInside true (some .throwing) 3)
      Incident.throwsOnly (by decide +kernel) with
    ⟨rs, es, s, h, hAll⟩
  rcases plays_all (Act.awaitingInside true none 0)
      Incident.throwsOnly (by decide +kernel) with
    ⟨rs', es', s', h', hAll'⟩
  have hRecord := ListenersRecord.of_all hAll
  have hRecord' := ListenersRecord.of_all hAll'
  have hSame : Veil.unheard.acts
      (Act.awaitingInside true (some .throwing) 3) =
        Veil.unheard.acts (Act.awaitingInside true none 0) := rfl
  rcases h.same_whoever_listens hRecord hSame with
    ⟨hReports, _, hOther⟩
  exact ⟨rs, es, s, rs', es', s', h, hRecord, hReports, h',
    hRecord', hOther rs' es' s' h' hRecord'⟩

end Resumption

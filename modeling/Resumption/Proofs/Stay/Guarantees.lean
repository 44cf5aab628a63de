import Resumption.Proofs.Stay.Tasks
import Resumption.Proofs.Task.Guarantees

/-
  A task stays on its context.  If a context is ambient when a
  task is started, and the task awaits nothing but futures by
  their default awaiters, all of its code runs with that
  context ambient, wherever the futures settle.

  Main declarations:
    * `Session.AwaitsByDefault`, `Session.StaysOn`
    * `Session.Reachable.runs_entered`
    * `Session.Reachable.stays_on`
-/

namespace Resumption

open Session World

------------------------------------------------------------
-- Where Code Runs
------------------------------------------------------------

/-
  Code of a task runs with a context ambient that the task was
  entered in, and between steps no task is at home.
-/
theorem Session.Reachable.runs_entered
    {s : Session}
    (h : s.Reachable) :
    s.home = none ∧ ∀ t a, .runs t a ∈ s.chronicle →
      .enters t a ∈ s.chronicle := by
  have hOn : ∀ {s s' : Session}, s.Onward s' →
      (s.home = none ∧ ∀ t a, .runs t a ∈ s.chronicle →
        .enters t a ∈ s.chronicle) →
      s'.home = none ∧ ∀ t a, .runs t a ∈ s'.chronicle →
        .enters t a ∈ s'.chronicle := by
    rintro s s' hOnward ⟨hHome, hRuns⟩
    have hHomely : s.Homely := fun t ht => by
      rw [hHome] at ht
      cases ht
    refine ⟨hOnward.home.trans hHome, fun t a hRun => ?_⟩
    rcases hOnward.runs hHomely t a hRun with hOld | hEnters
    · exact hOnward.chronicle.subset (hRuns t a hOld)
    · exact hEnters
  induction h with
  | empty => exact ⟨rfl, fun _ _ h => absurd h List.not_mem_nil⟩
  | run rounds depth _ hRun ih =>
      exact hOn (goes_program rounds depth _ _ _ _ hRun) ih
  | @turn s s' r rounds depth _ hTurn ih =>
      by_cases hDue : ∃ e rest, s.microtasks = .report e :: rest
      · rcases hDue with ⟨e, rest, hDue⟩
        rw [turn_report hDue] at hTurn
        cases hTurn
        exact ih
      · exact hOn (onward_turn rounds depth
          (fun e rest hMine => hDue ⟨e, rest, hMine⟩) _ _ hTurn)
          ih
  | within ambient _ ih => exact ih
  | unlogged _ ih => exact ih

------------------------------------------------------------
-- Suspensions and Posts
------------------------------------------------------------

namespace Session

/- Has the future settled that a driver asked? -/
def answers
    (s : Session)
    (p : Ref × Option (Ref × Bool)) : Bool :=
  p.2.any fun source => (s.outcome? source.1).isSome

/-
  The suspensions of a driver whose awaited future has
  settled, each by its callback.
-/
def answered
    (s : Session)
    (d : Ref) : List Ref :=
  ((s.awaited d).filter s.answers).map Prod.fst

/-
  Whenever the task was suspended, it was on the default
  awaiter of a future.
-/
def AwaitsByDefault
    (s : Session)
    (t : Ref) : Prop :=
  ∀ d cell, s.Drives t d cell →
    ∀ p ∈ s.awaited d, ∃ f, p.2 = some (f, true)

/-
  A task stays on a context: its code runs with the context
  ambient, and the posts for it are one on that context for
  each of its suspensions whose future has settled.
-/
structure StaysOn
    (s : Session)
    (t : Ref)
    (context : Value) : Prop where
  runs : ∀ a, .runs t a ∈ s.chronicle → a = context
  posts : ∀ d cell, s.Drives t d cell →
    (s.posted d).Perm
      ((s.answered d).map fun k => (context, some k))
  number : ∀ d cell, s.Drives t d cell →
    (s.posted d).length = (s.awaited d).countP s.answers
  apart : ∀ d cell, s.Drives t d cell →
    ((s.awaited d).map Prod.fst).Nodup

variable {s : Session}
variable {t d : Ref}

theorem taskOf_eq_iff
    {d : Nat}
    (hd : d < s.drivers.size) :
    s.taskOf d = t ↔ ∃ cell, s.Drives t d cell := by
  constructor
  · intro hTask
    refine ⟨s.drivers[d], Array.getElem?_eq_getElem hd, ?_⟩
    simpa [taskOf, hd] using hTask
  · rintro ⟨cell, hCell, rfl⟩
    simp [taskOf, Array.getD_eq_getD_getElem?, hCell]

end Session

namespace Stay

variable {H : Stay}
variable {s : Session}

/- What is owed no longer was posted, once each. -/
theorem Accounts.perm_answered
    (h : H.Accounts s)
    (hPaid : ∀ k, ¬ H.Owed s k)
    (hDefaults : ∀ p ∈ s.awaited H.driver,
      ∃ f, p.2 = some (f, true)) :
    (s.posted H.driver).Perm
      ((s.answered H.driver).map
        fun k => (H.context, some k)) := by
  have hNodup : (s.answered H.driver).Nodup :=
    h.distinct.sublist (List.filter_sublist.map Prod.fst)
  refine (List.perm_ext_iff_of_nodup h.once
    (hNodup.map fun k k' hSame => ?_)).mpr fun p => ?_
  · cases hSame
    rfl
  · constructor
    · intro hp
      rcases h.posts p hp with ⟨k, f, rfl, hAwaited, hSettled⟩
      refine List.mem_map.mpr ⟨k, List.mem_map.mpr
        ⟨(k, some (f, true)), List.mem_filter.mpr
          ⟨hAwaited, hSettled⟩, rfl⟩, rfl⟩
    · intro hp
      rcases List.mem_map.mp hp with ⟨_, hk, rfl⟩
      rcases List.mem_map.mp hk with ⟨⟨k, source⟩, hMem, rfl⟩
      rcases List.mem_filter.mp hMem with ⟨hAwaited, hSettled⟩
      rcases hDefaults _ hAwaited with ⟨f, rfl⟩
      refine Classical.byContradiction fun hUnposted => ?_
      exact hPaid k ⟨f, hAwaited, hSettled, hUnposted⟩

end Stay

------------------------------------------------------------
-- Staying
------------------------------------------------------------

/-
  A task stays on the context that was ambient when it was
  started, if there was one, it awaits futures only, by their
  default awaiters, and it is handed off to futures only.
-/
theorem Session.Reachable.stays_on
    {s : Session}
    (h : s.Reachable)
    {t : Ref}
    {context : Value}
    (hStarted : s.startedIn t = some context)
    (hTruthy : context.truthy = true)
    (hDefaults : s.AwaitsByDefault t)
    (hHands : HandsOverFutures (s.story t)) :
    s.StaysOn t context := by
  have hAdmits : ∀ d : Nat,
      (∀ d' < s.drivers.size, s.taskOf d' = t → d' = d) →
      (d < s.drivers.size → s.taskOf d = t) →
      Stay.Admits ⟨t, d, context, hTruthy⟩ s := by
    intro d hSole hOwns
    exact
      { started := fun c hc =>
          Option.some.inj (hc.symm.trans hStarted)
        defaults := fun hd =>
          let ⟨cell, hDrives⟩ := (taskOf_eq_iff hd).mp (hOwns hd)
          hDefaults d cell hDrives
        owns := hOwns
        sole := hSole
        handsFutures := hHands }
  have hSole : ∀ {d d' : Nat} {cell cell' : DriverCell},
      s.Drives t d cell → s.Drives t d' cell' → d' = d :=
    fun hDrives hDrives' =>
      h.sound.inv.sane.sole t _ _ _ _ hDrives' hDrives
  -- Of its driver everything is known.
  have hBooks : ∀ d cell, s.Drives t d cell →
      Stay.Accounts ⟨t, d, context, hTruthy⟩ s ∧
        ∀ k, ¬ Stay.Owed ⟨t, d, context, hTruthy⟩ s k := by
    intro d cell hDrives
    have hKept := h.stays ⟨t, d, context, hTruthy⟩
      (hAdmits d (fun d' hd' hTask =>
        let ⟨_, hDrives'⟩ := (taskOf_eq_iff hd').mp hTask
        hSole hDrives hDrives')
        fun hd => (taskOf_eq_iff hd).mpr ⟨cell, hDrives⟩)
    exact ⟨hKept.1, hKept.2.2⟩
  have hPerm : ∀ d cell, s.Drives t d cell →
      (s.posted d).Perm
        ((s.answered d).map fun k => (context, some k)) :=
    fun d cell hDrives => (hBooks d cell hDrives).1.perm_answered
      (hBooks d cell hDrives).2 (hDefaults d cell hDrives)
  refine ⟨fun a hRun => ?_, hPerm, fun d cell hDrives => ?_,
    fun d cell hDrives => (hBooks d cell hDrives).1.distinct⟩
  · -- A task that was never suspended has no driver.
    have hEntered : ∃ d, Stay.Accounts
        ⟨t, d, context, hTruthy⟩ s := by
      by_cases hDriven : ∃ d cell, s.Drives t d cell
      · rcases hDriven with ⟨d, cell, hDrives⟩
        exact ⟨d, (hBooks d cell hDrives).1⟩
      · refine ⟨s.drivers.size, (h.stays _ (hAdmits _
          (fun d' hd' hTask => ?_)
          fun hd => absurd hd (Nat.lt_irrefl _))).1⟩
        exact absurd ⟨d', (taskOf_eq_iff hd').mp hTask⟩ hDriven
    rcases hEntered with ⟨d, hAccounts⟩
    refine hAccounts.entered a (List.mem_filterMap.mpr
      ⟨_, h.runs_entered.2 t a hRun, ?_⟩)
    simp [Incident.entry?]
  · rw [(hPerm d cell hDrives).length_eq, List.length_map,
      answered, List.length_map, List.countP_eq_length_filter]

/-
  Start a task in a context, and settle the future that it
  awaits in another one.
-/
def Program.settlingElsewhere : Program :=
  .perform (.recordingContext (.str "home")) fun home =>
    .perform (.recordingContext (.str "other")) fun other =>
      .perform .newFuture fun deferred =>
        .perform (.field deferred (.str "future")) fun source =>
          .perform (.runInContext home fun _ =>
            .request (.task true .undefined
              (fun args => .request
                (.bind (args.headD .undefined) source
                  fun found => .request (.newStep
                    (.finish (found.headD .undefined)))))
              ⟨.undefined, .undefined, none⟩)) fun _ =>
            .request (.runInContext other fun _ =>
              .request (.settle deferred (.fulfilled (.int 5))))

/- Its continuation runs where it was started. -/
theorem Session.stays_on_settled_elsewhere :
    ∃ context cell,
      (Session.after .settlingElsewhere).startedIn 0 =
        some context ∧
      context.truthy = true ∧
      (Session.after .settlingElsewhere).AwaitsByDefault 0 ∧
      HandsOverFutures
        ((Session.after .settlingElsewhere).story 0) ∧
      (Session.after .settlingElsewhere).Drives 0 0 cell ∧
      (Session.after .settlingElsewhere).StaysOn 0 context ∧
      ((Session.after .settlingElsewhere).posted 0).length =
        1 := by
  have hSize :
      (Session.after .settlingElsewhere).drivers.size = 1 := by
    decide +kernel
  have hStarted :
      ((Session.after .settlingElsewhere).startedIn 0).any
        Value.truthy = true := by
    decide +kernel
  rcases (Option.any_eq_true _ _).mp hStarted with
    ⟨context, hContext, hTruthy⟩
  have hAll :
      ((Session.after .settlingElsewhere).awaited 0).all
        (fun p => p.2.any Prod.snd) = true := by
    decide +kernel
  have hDefaults :
      (Session.after .settlingElsewhere).AwaitsByDefault 0 := by
    intro d cell hDrives p hp
    have hd := hDrives.lt
    rw [hSize] at hd
    obtain rfl : d = 0 := Nat.lt_one_iff.mp hd
    rcases (Option.any_eq_true _ _).mp
      (List.all_eq_true.mp hAll p hp) with ⟨⟨f, b⟩, hSource, rfl⟩
    exact ⟨f, hSource⟩
  have hHands : HandsOverFutures
      ((Session.after .settlingElsewhere).story 0) := by
    decide +kernel
  have hDrives : (Session.after .settlingElsewhere).Drives 0 0
      ((Session.after .settlingElsewhere).drivers.getD 0
        default) :=
    ⟨by simp [hSize], by decide +kernel⟩
  exact ⟨context, _, hContext, hTruthy, hDefaults, hHands,
    hDrives, (Reachable.after .settlingElsewhere).stays_on
      hContext hTruthy hDefaults hHands, by decide +kernel⟩

end Resumption

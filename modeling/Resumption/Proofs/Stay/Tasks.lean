import Resumption.Proofs.Stay.Driver
import Resumption.Proofs.Task.Reachable

/-
  Tasks in the world of a stay.  The task that stays is shut
  until its code is entered for the first time, so that its
  context is the one that is ambient when it is run.

  Main declarations:
    * `Stay.keeps_launch`, `Stay.keeps_runTask`
    * `Stay.employs`
    * `Stay.serves`
    * `Session.Reachable.stays`
-/

namespace Resumption

namespace Stay

open Session World

variable {H : Stay}
variable {s s' : Session}
variable {spared : Ref → Prop}
variable {shut : Prop}
variable {caller : Caller}

section Serving

variable (hAll : ∀ spared shut,
  (Staying H spared shut).Serves caller)
variable (hClear : Veil.clear.Serves caller caller)

include hAll hClear

------------------------------------------------------------
-- Starting
------------------------------------------------------------

theorem keeps_startDriver
    (hs : (Staying H spared shut).Sound s)
    {em : Emitter}
    (hOpen : shut → em.task ≠ H.task)
    (hBorn : em.task < s.tasks.size)
    (hAmbient : H.Admits s → em.task = H.task →
      s.ambient = H.context)
    (hFit : ∀ c ∈ em.listener, (Staying H spared shut).fit s c)
    (m first : Value) :
    (Staying H spared shut).Keeps
      (Driver.start caller m first em) s := by
  unfold Driver.start
  refine Run.ensures_alloc_bind.mpr ?_
  let cell : DriverCell :=
    ⟨m, .notStarted, some first, .undefined, #[], none, none, em⟩
  have h₁ : (Staying H spared shut).Moves s
      { s with drivers := s.drivers.push cell } :=
    moves_newDriver hs hOpen hBorn hFit
  refine Keeps.of_moves h₁ ?_
  have hAt : H.AtHome
      { s with drivers := s.drivers.push cell }
      s.drivers.size := by
    refine ⟨by simp, fun hAdmits hSame => ?_⟩
    refine hAmbient (hAdmits.before h₁.rel.1) ?_
    have hTask := hAdmits.owns (hSame ▸ by simp)
    rw [← hSame] at hTask
    simpa [taskOf, getD_push] using hTask
  refine ((advances (hAll · _) hClear).keeps_advance h₁.sound
    hAt).bind fun _ s₂ h₂ => ?_
  exact ((directs (hAll · _)).keeps_makeOutput h₂.sound _).bind
    fun _ _ h₃ => keeps_pure.mpr (.refl h₃.sound)

omit hAll hClear in
/- A task that was shut is started where it is entered. -/
theorem startedIn_entering
    (h : H.Shuts True s s')
    (hBorn : H.task < s.tasks.size)
    (hUnentered : s.entries H.task = [] ∧ s.Undriven H.task) :
    (Run.entering H.task s').startedIn H.task =
      some s'.ambient := by
  have hSame := (h trivial hBorn hUnentered.2).2
  rw [startedIn, entries_entering, if_pos rfl, hSame,
    hUnentered.1]
  rfl

theorem keeps_launch
    (hs : (Staying H spared shut).Sound s)
    {code : Closure}
    (em : Emitter)
    (hOpen : shut → em.task ≠ H.task)
    (hBorn : em.task < s.tasks.size)
    (hUnentered : H.Admits s → em.task = H.task →
      s.entries H.task = [] ∧ s.Undriven H.task)
    (hCode : (Staying H spared shut).fit s code)
    (hFit : ∀ c ∈ em.listener, (Staying H spared shut).fit s c)
    (m : Value) :
    (Staying H spared shut).Keeps
      (Task.launch caller m code em) s := by
  have hD : (Staying H spared shut).Directs caller :=
    directs (hAll · _)
  unfold Task.launch
  -- Whoever is told of the start finds the task shut.
  have hEmit : (Staying H spared True).Keeps
      (em.emit caller .start) s :=
    (directs (hAll · True)).keeps_emit (sound_of hs)
      (fun c hc => hFit c hc) .start
  refine Run.Ensures.bind ((Run.Ensures.and hEmit
    ((Veil.matches_emit hClear em .start).goes s)).mono ?_)
  rintro r s₁ ⟨hShut, hOnward₁⟩
  have h₁ : (Staying H spared shut).Moves s s₁ :=
    moves_open hShut
  cases r with
  | error e => exact h₁
  | ok u => ?_
  have hBorn₁ := Nat.lt_of_lt_of_le hBorn h₁.rel.1.tasks
  have hAmbient : H.Admits (Run.entering em.task s₁) →
      em.task = H.task → s₁.ambient = H.context := by
    intro hAdmits hSame
    refine hAdmits.started _ ?_
    rw [hSame] at hAdmits hBorn ⊢
    exact startedIn_entering hShut.rel.2.1 hBorn
      (hUnentered ((hAdmits.before
        (follows_entering _ s₁)).before h₁.rel.1) hSame)
  have hFirst := ensures_withTask h₁.sound
    (fun _ _ => hBorn₁) (fun hShut _ => hOpen hShut) hAmbient
    fun s₂ h₂ => hD.keeps_firstStep h₂.sound
      ((h₁.trans h₂).fit hCode)
  have hGoes := ((Veil.matches_firstStep hClear code).withTask
    em.task).goes s₁
  refine Keeps.of_moves h₁ (Run.Ensures.bind
    (Run.ensures_attempt.mpr ((hFirst.and hGoes).mono ?_)))
  rintro r s₂ ⟨⟨h₂, hEntered⟩, hOnward₂⟩
  have h₁₂ := h₁.trans h₂
  have hFit₂ : ∀ c ∈ em.listener,
      (Staying H spared shut).fit s₂ c :=
    fun c hc => h₁₂.fit (hFit c hc)
  refine Keeps.of_moves h₂ ?_
  split
  · exact (hD.keeps_emit h₂.sound hFit₂ _).bind
      fun _ _ h₃ => hD.keeps_answer h₃.sound _
  · split
    · exact keeps_pure.mpr (.refl h₂.sound)
    · exact (hD.keeps_emit h₂.sound hFit₂ _).bind
        fun _ _ h₃ => hD.keeps_answer h₃.sound _
    · exact (hD.keeps_emit h₂.sound hFit₂ _).bind
        fun _ _ h₃ => keeps_pure.mpr (.refl h₃.sound)
    · exact keeps_startDriver hAll hClear h₂.sound hOpen
        (Nat.lt_of_lt_of_le hBorn h₁₂.rel.1.tasks)
        (fun hAdmits hSame => hOnward₂.ambient.trans
          (hAmbient (hAdmits.before hEntered) hSame))
        hFit₂ m _

/- A task is run, be it the one that stays or another one. -/
theorem keeps_runTask
    (hs : (Staying H spared shut).Sound s)
    {code : Closure}
    {em : Emitter}
    (hCode : (Staying H spared shut).fit s code)
    (hFit : ∀ c ∈ em.listener, (Staying H spared shut).fit s c)
    (m : Value) :
    (Staying H spared shut).Keeps (Task.run caller m code em)
      s := by
  have hRun : ∀ shut : Prop, (shut → s.tasks.size ≠ H.task) →
      (Staying H spared shut).Keeps (Task.run caller m code em)
        s := by
    intro shut hOpen
    unfold Task.run
    have h₁ : (Staying H spared shut).Moves s
        { s with tasks := s.tasks.push ⟨[], []⟩ } :=
      moves_newTask (sound_of hs)
    refine Run.ensures_alloc_bind.mpr (Keeps.of_moves h₁ ?_)
    refine Keeps.bind (keeps_launch hAll hClear h₁.sound
      { em with task := s.tasks.size } hOpen (by simp)
      (fun hAdmits hSame => ?_) (h₁.fit hCode)
      (fun c hc => h₁.fit (hFit c hc)) m)
        fun output s₂ h₂ => ?_
    · exact (hs.inv (hAdmits.before h₁.rel.1)).1.unborn
        (Nat.le_of_eq hSame)
    · exact Keeps.bind (keeps_alter (moves_note h₂.sound _ _))
        fun _ _ h₃ => keeps_pure.mpr (.refl h₃.sound)
  by_cases hStays : s.tasks.size = H.task
  · exact Run.Ensures.mono (hRun False False.elim)
      fun _ _ h => moves_shut h (Nat.le_of_eq hStays)
  · exact hRun shut fun _ => hStays

------------------------------------------------------------
-- Everything
------------------------------------------------------------

/- Tasks are run in the world of a stay. -/
theorem employs :
    (Staying H spared shut).Employs caller where
  toHosts := hosts (hAll · _)
  toFounds := founds
  serves := hAll _ _
  run m hs hCode hFit := keeps_runTask hAll hClear hs hCode hFit m
  resume _ hs hFit := keeps_resumeDriver (hAll · _) hClear
    hs (fun hAdmits hSame => absurd hSame (hFit hAdmits)) _
  conclude hs _ := (directs (hAll · _)).keeps_conclude hs _ _
  posted hs hFit := keeps_enterPosted (hAll _ _) hs hFit

/- Whatever may be called keeps the books. -/
theorem ensures_enter
    (hs : (Staying H spared shut).Sound s)
    {c : Closure}
    {args : List Value}
    (hCalls : (Staying H spared shut).calls s c args) :
    (c.enter caller args).Ensures s fun r s' =>
      (Staying H spared shut).Moves s s' ∧
        (Staying H spared shut).after s c args r s' := by
  -- Only a summons has anything to pay.
  have hPlain : (H.Admits s → ∀ k, c ≠ H.summons k) →
      (Staying H spared shut).Keeps (c.enter caller args) s →
      (c.enter caller args).Ensures s fun r s' =>
        (Staying H spared shut).Moves s s' ∧
          (Staying H spared shut).after s c args r s' :=
    fun hNone hKeeps => Run.Ensures.mono hKeeps fun _ _ h =>
      ⟨h, fun hAdmits k hSame => absurd hSame
        (hNone (hAdmits.before h.rel.1) k)⟩
  have hFits : (H.Admits s → H.Fits c) →
      (c.enter caller args).Ensures s fun r s' =>
        (Staying H spared shut).Moves s s' ∧
          (Staying H spared shut).after s c args r s' := by
    refine fun hFit => hPlain ?_
      ((employs hAll hClear).keeps_enterFit hs hFit args)
    rintro hAdmits k rfl
    exact hFit hAdmits rfl
  by_cases hAdmits : H.Admits s
  · rcases hCalls hAdmits with
      hFit | ⟨k, rfl, hOwed, hFree⟩ | ⟨k, rfl, hCalled⟩ |
        ⟨awaiter, rfl⟩
    · exact hFits fun _ => hFit
    · refine Run.Ensures.mono (ensures_summons (hAll _ _) hs
        (fun _ => hOwed) hFree) fun _ _ h =>
          ⟨h.1, fun hAdmits k' hSame => ?_⟩
      cases hSame
      exact h.2 hAdmits
    · exact hPlain (fun _ _ => nofun) (Keeps.quietly
        (keeps_resumeDriver (hAll · _) hClear hs
          (fun _ _ => hCalled) k))
    · exact hPlain (fun _ _ => nofun) (Keeps.quietly
        ((directs (hAll · _)).keeps_conclude hs _ _))
  · exact hFits fun h => absurd h hAdmits

end Serving

/- A caller of any depth serves the world of a stay. -/
theorem serves
    (rounds depth : Nat)
    (spared : Ref → Prop)
    (shut : Prop) :
    (Staying H spared shut).Serves (.ofDepth rounds depth) := by
  induction depth generalizing spared shut with
  | zero =>
      intro c args s _ _
      exact Run.ensures_exhaust
  | succ depth ih =>
      intro c args s hs hCalls
      exact ensures_enter ih (Veil.serves_clear rounds depth) hs
        hCalls

------------------------------------------------------------
-- Sessions
------------------------------------------------------------

/- In the beginning there is nothing to account for. -/
private theorem accounts_empty :
    H.Accounts Session.empty where
  entered _ h := absurd h List.not_mem_nil
  unborn _ := ⟨rfl, fun _ h => absurd h (Nat.not_lt_zero _)⟩
  distinct := .nil
  numbered _ h := absurd h List.not_mem_nil
  posts _ h := absurd h List.not_mem_nil
  once := .nil
  watcher _ _ h := absurd h List.not_mem_nil
  apart _ := .nil
  settled _ _ := rfl
  waits _ _ h := absurd h List.not_mem_nil

private theorem stores_empty :
    H.Stores Session.empty where
  code _ _ h := by cases h
  handler _ := trivial
  compensation _ := trivial

end Stay

namespace Session.Reachable

variable {s : Session}

/- The books of a stay are kept in whatever comes about. -/
theorem stays
    (h : s.Reachable)
    (H : Stay)
    (hAdmits : H.Admits s) :
    H.Accounts s ∧ H.Stores s ∧ ∀ k, ¬ H.Owed s k := by
  have hEmpty : (Staying H (fun _ => False) False).Sound
      Session.empty :=
    { inv := fun _ => ⟨Stay.accounts_empty, Stay.stores_empty⟩
      stocked := stocked_empty fun _ => trivial }
  have hMoves := h.moves_in hEmpty fun rounds depth =>
    Stay.employs (Stay.serves rounds depth)
      (Veil.serves_clear rounds depth)
  rcases hMoves.sound.inv hAdmits with ⟨hAccounts, hStores⟩
  refine ⟨hAccounts, hStores, fun k hOwed => ?_⟩
  rcases (hMoves.rel.2.2 hAdmits).repaid k hOwed with
    ⟨_, hAwaited, _⟩
  exact absurd hAwaited List.not_mem_nil

end Session.Reachable

end Resumption

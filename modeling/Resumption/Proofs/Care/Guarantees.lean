import Resumption.Proofs.Care.Programs
import Resumption.Proofs.Task.Guarantees

/-
  What is guaranteed of cleanups where code is careful, and
  whatever awaiters, contexts and listeners do.

  Before the output of a task is settled, every cleanup that
  the task has entered was compensated once, unless the task
  was broken off.

  Main declarations:
    * `Session.Careful`
    * `Session.Careful.sound`
    * `Session.Careful.compensated_before_settled`
-/

namespace Resumption

open World

------------------------------------------------------------
-- Sessions of Careful Code
------------------------------------------------------------

/- What careful code makes of an empty session. -/
inductive Session.Careful : Session → Prop where
  | empty : Careful Session.empty
  /- Careful code runs to its end. -/
  | run
      {s s' program r}
      (rounds depth : Nat)
      (h : Careful s)
      (hCode : Program.Careful none s.machines.size program)
      (hRun : Program.run (.ofDepth rounds depth) program s =
        some (r, s')) :
      Careful s'
  /- The oldest job that is queued runs to its end. -/
  | turn
      {s s' r}
      (rounds depth : Nat)
      (h : Careful s)
      (hTurn : Jobs.turn (.ofDepth rounds depth) s =
        some (r, s')) :
      Careful s'
  /- The ambient context becomes another one. -/
  | within
      {s}
      (ambient : Value)
      (h : Careful s) :
      Careful { s with ambient := ambient }
  /- The log is taken out. -/
  | unlogged
      {s}
      (h : Careful s) :
      Careful { s with log := #[] }

namespace Session.Careful

variable {s : Session}
variable {t d f : Ref}
variable {cell : DriverCell}

/- They are sessions like others. -/
theorem reachable
    (h : s.Careful) :
    s.Reachable := by
  induction h with
  | empty => exact .empty
  | run rounds depth _ _ hRun ih => exact .run rounds depth ih hRun
  | turn rounds depth _ hTurn ih =>
      exact .turn rounds depth ih hTurn
  | within ambient _ ih => exact .within ambient ih
  | unlogged _ ih => exact .unlogged ih

/- The session in which careful code has run is one. -/
theorem after
    {program : Program}
    (h : program.Careful none 0) :
    (Session.after program).Careful := by
  unfold Session.after
  cases hRun : program.run (.ofDepth 8 40) Session.empty with
  | none => exact .empty
  | some out => exact .run 8 40 .empty h hRun

/- Where nothing has happened there is nothing to care for. -/
private theorem sound_empty :
    (Caring []).Sound Session.empty where
  inv :=
    { watchers := fun _ _ hw => absurd hw List.not_mem_nil
      checks := fun m hm => absurd hm (Nat.not_lt_zero m)
      staffed := fun t =>
        ⟨fun _ _ h => by simp [Drives, Session.empty] at h,
          fun _ _ _ _ h => by
            simp [Drives, Session.empty] at h⟩
      entered := fun _ _ hMem => absurd hMem List.not_mem_nil
      handsOver := fun _ _ hMem => absurd hMem List.not_mem_nil
      safe := fun _ _ _ _ h => by
        simp [Drives, Session.empty] at h
      held := fun _ hMem => absurd hMem List.not_mem_nil }
  stocked := Reachable.stocked_empty fun _ => .done

/- The world of careful code is sound in them. -/
theorem sound
    (h : s.Careful) :
    (Caring []).Sound s := by
  have hServes := Caring.serves_ofDepth
  induction h with
  | empty => exact sound_empty
  | run rounds depth _ hCode hRun ih =>
      have hKeeps := Caring.keeps_program
        (hServes rounds depth).1 (hServes rounds depth).2 hCode
          rfl (Nat.le_refl _) ih
      exact (hKeeps _ _ hRun).sound
  | turn rounds depth _ hTurn ih =>
      have hc := (hServes rounds depth).1 []
      exact ((Caring.hosts hc).keeps_turn hc ih _ _ hTurn).sound
  | within ambient _ ih =>
      exact Moves.sound
        (ih.moves_of_kernel rfl { ih.stocked with })
  | unlogged _ ih =>
      exact Moves.sound
        (ih.moves_of_kernel rfl { ih.stocked with })

end Session.Careful

------------------------------------------------------------
-- Outputs that Were Settled
------------------------------------------------------------

/- A task that was not at an end can still be resumed. -/
theorem Course.quits_of_over
    {story : List Moment}
    {p : Phase}
    (h : Course story p)
    (hOver : p.Over)
    (hFutures : ∀ v, .handsOver v ∈ story →
      ∃ f, v = .future f) :
    ∃ m ∈ story, m.Quits := by
  induction h with
  | nil => exact hOver.elim
  | @cons story p m q _ hLeads ih =>
      have hOld : ∀ v, .handsOver v ∈ story →
          ∃ f, v = .future f := fun v hMem =>
        hFutures v (List.mem_cons_of_mem m hMem)
      have hLater : p.Over → ∃ m' ∈ m :: story, m'.Quits :=
        fun hp => by
          rcases ih hp hOld with ⟨m', hMem, hQuits⟩
          exact ⟨m', List.mem_cons_of_mem m hMem, hQuits⟩
      cases hLeads with
      | end_ hFinal | fail hFinal | decide hFinal
      | overturn hFinal | stand hFinal =>
          exact ⟨_, List.mem_cons_self, hFinal⟩
      | stray hv =>
          rcases hFutures _ List.mem_cons_self with ⟨f, rfl⟩
          exact absurd rfl (hv f)
      | answer => exact hLater hOver
      | _ => first | exact hOver.elim | exact hLater trivial

/- In these phases an end was overruled, or came to pass. -/
def Phase.Settling : Phase → Prop
  | .objecting => True
  | .overturning => True
  | .overruling _ => True
  | .overruled _ => True
  | .ended _ => True
  | .relapsing => True
  | .spoilt => True
  | _ => False

/- Its output was settled then, or the task was broken off. -/
theorem Course.settles_or_brokenOff
    {story : List Moment}
    {p : Phase}
    (h : Course story p)
    (hSettling : p.Settling) :
    (∃ outcome, .settles outcome ∈ story) ∨
      BrokenOff story := by
  induction h with
  | nil => exact hSettling.elim
  | @cons story p m q _ hLeads ih =>
      have hLater : p.Settling →
          (∃ outcome, .settles outcome ∈ m :: story) ∨
            BrokenOff (m :: story) := fun hp =>
        (ih hp).imp
          (fun ⟨outcome, hMem⟩ =>
            ⟨outcome, List.mem_cons_of_mem m hMem⟩)
          (·.later (List.suffix_cons m story))
      cases hLeads with
      | settle | settleOver | settleAgain =>
          exact .inl ⟨_, List.mem_cons_self⟩
      | object =>
          by_cases hSettled : ∃ outcome, .settles outcome ∈ story
          · rcases hSettled with ⟨outcome, hMem⟩
            exact .inl ⟨outcome, List.mem_cons_of_mem _ hMem⟩
          · exact .inr ⟨[], _, story, rfl, trivial,
              fun outcome hMem => hSettled ⟨outcome, hMem⟩⟩
      | answer => exact hLater hSettling
      | _ => first
        | exact hSettling.elim
        | exact hLater trivial

namespace Session

variable {s : Session}
variable {t d f : Ref}
variable {cell : DriverCell}

/-
  Where the output of a task was settled that has a driver,
  the driver has quit; and it has settled the output itself,
  or else the task was broken off.
-/
theorem Reachable.settles_or_brokenOff
    (h : s.Reachable)
    (hDrives : s.Drives t d cell)
    (hFutures : ∀ v, .handsOver v ∈ s.story t →
      ∃ f, v = .future f)
    (hAnswer : .answers (.future f) ∈ s.story t)
    (hSettled : (s.outcome? f).isSome) :
    s.Quit t ∧ ((∃ outcome, .settles outcome ∈ s.story t) ∨
      BrokenOff (s.story t)) := by
  have hLt := h.sound.inv.sane.owner t d cell hDrives
  rcases h.placed hLt with ⟨p, hRests, hCourse, hSeated⟩
  rcases hSeated with
    ⟨hNone, _⟩ | ⟨d', cell', hDrives', hLinked, hSuits, _⟩
  · exact absurd hDrives (hNone d cell)
  have hEnding : s.ending cell' ≠ none := by
    rcases hLinked.answered _ hAnswer with ⟨f', hSame, hOutput⟩
    cases hSame
    rw [Session.ending, hOutput]
    exact Option.isSome_iff_ne_none.mp hSettled
  have hPhase : p.Over ∧ p.Settling := by
    cases p with
    | named l => exact absurd hSuits.2 hEnding
    | waiting l id => exact absurd hSuits.2.2.2.1 hEnding
    | handing => exact absurd hSuits.2 hEnding
    | ended v => exact ⟨trivial, trivial⟩
    | overruled v => exact ⟨trivial, trivial⟩
    | spoilt => exact ⟨trivial, trivial⟩
    | wild =>
        rcases hCourse.wild_iff.mp rfl with ⟨v, hMem, hv⟩
        rcases hFutures v hMem with ⟨f', hSame⟩
        exact absurd hSame (hv f')
    | atOnce v | passedOn => exact absurd hSuits id
    | _ => exact absurd hRests id
  exact ⟨hCourse.quits_of_over hPhase.1 hFutures,
    hCourse.settles_or_brokenOff hPhase.2⟩

------------------------------------------------------------
-- No Leaked Cleanups
------------------------------------------------------------

/-
  Whatever awaiters, contexts and listeners do: when the
  output of a task has been settled that suspended at its
  first step, each cleanup that the task has entered was
  compensated once, and before that; unless the task was
  broken off, which an awaiter does that throws when it is
  asked to call back, and a context that refuses a callback.
-/
theorem Careful.compensated_before_settled
    (h : s.Careful)
    (hDrives : s.Drives t d cell)
    (hAnswer : .answers (.future f) ∈ s.story t)
    (hSettled : (s.outcome? f).isSome)
    (hUnbroken : ¬ BrokenOff (s.story t)) :
    ∃ later earlier, s.care t = later ++ .settled :: earlier ∧
      .settled ∉ earlier ∧
      ∀ i, .entered i ∈ s.care t →
        earlier.count (.compensated i) = 1 ∧
        (s.care t).count (.compensated i) = 1 := by
  have hGuarded := h.sound.inv
  rcases h.reachable.settles_or_brokenOff hDrives
    (hGuarded.handsOver t) hAnswer hSettled with ⟨hQuit, hEnds⟩
  have hSettles := hEnds.resolve_right hUnbroken
  cases hGuarded.safe t d cell List.not_mem_nil hDrives with
  | suspended hWaits =>
      exact absurd hWaits.ongoing hQuit.not_ongoing
  | broken _ hBroken => exact absurd hBroken hUnbroken
  | cleared _ hCleared =>
      rcases hCleared with ⟨n, earlier, hCare, hLeaves, hMore⟩
      rcases Nat.exists_eq_succ_of_ne_zero
        (Nat.ne_of_gt (hMore hSettles)) with ⟨n, rfl⟩
      refine ⟨List.replicate n .settled, earlier, ?_,
        hLeaves.not_settled, fun i hEntered => ?_⟩
      · rw [hCare, List.replicate_succ']
        simp
      have hEarlier : .entered i ∈ earlier := by
        rw [hCare] at hEntered
        simpa using hEntered
      have hOnce := hLeaves.compensated_once hEarlier
      refine ⟨hOnce, ?_⟩
      rw [hCare, List.count_append, hOnce, List.count_replicate]
      rfl

end Session

/-
  A task that awaits within a cleanup, with code that
  registers, and returns the result.
-/
def Program.protecting
    (register : Value → Program) : Program :=
  .request (.task true .undefined
    (fun args => .request (.tryFinally (args.headD .undefined)
      (fun _ =>
        .perform (.awaitable register) fun source =>
          .request (.bind (args.headD .undefined) source
            fun found => .request
              (.newStep (.finish (found.headD .undefined)))))
      fun _ => .request (.log (.str "released"))))
    ⟨.undefined, .undefined, none⟩)

/- Throw. -/
def Program.throwing (_ : Value) : Program :=
  .fail (.str "boom")

/- It is careful if the code that registers is. -/
theorem Program.careful_protecting
    {register : Value → Program}
    (h : ∀ v, (register v).Careful none 0) :
    (Program.protecting register).Careful none 0 := by
  refine .task rfl (fun b => .tryFinally (fun _ => ?_)
    fun _ => .ask id nofun fun _ => .done) nofun fun _ => .done
  refine .ask id (fun code hCode args => ?_)
    fun source => .bind fun found => .finish
  simp only [Request.awaitable, Request.codes, List.mem_cons,
    List.not_mem_nil, or_false] at hCode
  rcases hCode with rfl | rfl | rfl
  · exact .done
  · exact .done
  · exact h _

/- Is a task answered with a future? -/
def Moment.answersWith (f : Ref) : Moment → Bool
  | .answers (.future f') => f == f'
  | _ => false

theorem Moment.mem_of_answersWith
    {story : List Moment}
    {f : Ref}
    (h : story.any (answersWith f)) :
    .answers (.future f) ∈ story := by
  rcases List.any_eq_true.mp h with ⟨m, hMem, hAnswer⟩
  unfold answersWith at hAnswer
  split at hAnswer
  · rwa [eq_of_beq hAnswer]
  · cases hAnswer

/- Nothing breaks a task off without a moment for that. -/
theorem BrokenOff.not_of_forall
    {story : List Moment}
    (h : ∀ m ∈ story, ¬ m.Breaks) :
    ¬ BrokenOff story := by
  rintro ⟨later, m, earlier, rfl, hBreaks, _⟩
  exact h m (by simp) hBreaks

namespace Session

/- Whoever is driven by a driver that there is. -/
theorem drives_of_lt
    {s : Session}
    {t d : Nat}
    (h : d < s.drivers.size)
    (hTask : (s.drivers.getD d default).emitter.task = t) :
    s.Drives t d (s.drivers.getD d default) :=
  ⟨by simp [Array.getD, h], hTask⟩

/- A callback that is called twice at once breaks nothing. -/
theorem compensated_calling_twice :
    ∃ cell later earlier,
      (Session.after (.protecting .callingTwice)).Careful ∧
      (Session.after (.protecting .callingTwice)).Drives 0 0
        cell ∧
      .answers (.future 0) ∈
        (Session.after (.protecting .callingTwice)).story 0 ∧
      ((Session.after
        (.protecting .callingTwice)).outcome? 0).isSome ∧
      ¬ BrokenOff
        ((Session.after (.protecting .callingTwice)).story 0) ∧
      (Session.after (.protecting .callingTwice)).care 0 =
        later ++ .settled :: earlier ∧
      .settled ∉ earlier ∧
      ∀ i, .entered i ∈
          (Session.after (.protecting .callingTwice)).care 0 →
        earlier.count (.compensated i) = 1 ∧
        ((Session.after (.protecting .callingTwice)).care 0
          ).count (.compensated i) = 1 := by
  have hCareful :
      (Session.after (.protecting .callingTwice)).Careful :=
    .after (Program.careful_protecting fun v =>
      .ask id nofun fun _ => .ask id nofun fun _ => .done)
  have hDrives := drives_of_lt (t := 0) (d := 0)
    (s := Session.after (.protecting .callingTwice))
    (by decide +kernel) (by decide +kernel)
  have hAnswer : .answers (.future 0) ∈
      (Session.after (.protecting .callingTwice)).story 0 :=
    Moment.mem_of_answersWith (by decide +kernel)
  have hSettled : ((Session.after
      (.protecting .callingTwice)).outcome? 0).isSome := by
    decide +kernel
  have hUnbroken : ¬ BrokenOff
      ((Session.after (.protecting .callingTwice)).story 0) :=
    BrokenOff.not_of_forall (by decide +kernel)
  rcases Careful.compensated_before_settled hCareful hDrives
    hAnswer hSettled hUnbroken with ⟨later, earlier, hRest⟩
  exact ⟨_, later, earlier, hCareful, hDrives, hAnswer, hSettled,
    hUnbroken, hRest⟩

/-
  An awaiter that throws when it is asked to call back leaves
  a cleanup open whose task's output is settled.
-/
theorem leaked_throwing :
    ∃ cell,
      (Session.after (.protecting .throwing)).Careful ∧
      (Session.after (.protecting .throwing)).Drives 0 0 cell ∧
      .answers (.future 0) ∈
        (Session.after (.protecting .throwing)).story 0 ∧
      ((Session.after
        (.protecting .throwing)).outcome? 0).isSome ∧
      .entered 0 ∈
        (Session.after (.protecting .throwing)).care 0 ∧
      .compensated 0 ∉
        (Session.after (.protecting .throwing)).care 0 :=
  ⟨_, .after (Program.careful_protecting fun _ => .fail),
    drives_of_lt (by decide +kernel) (by decide +kernel),
    Moment.mem_of_answersWith (by decide +kernel),
    by decide +kernel, by decide +kernel, by decide +kernel⟩

end Session

end Resumption

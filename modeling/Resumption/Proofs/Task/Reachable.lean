import Resumption.Proofs.Task.Service
import Resumption.Script.Transcript

/-
  The sessions that come about: client code and queued jobs
  run, any number of times and in any order, each with
  bounds of its own on how far it may go.

  Main declarations:
    * `Session.Reachable`
    * `Session.Reachable.sound`
    * `Session.Reachable.placed`
-/

namespace Resumption

open World

------------------------------------------------------------
-- Reachable Sessions
------------------------------------------------------------

/- What can become of a session in which nothing has happened. -/
inductive Session.Reachable : Session → Prop where
  | empty : Reachable Session.empty
  /- Client code runs to its end. -/
  | run
      {s s' program r}
      (rounds depth : Nat)
      (h : Reachable s)
      (hRun : Program.run (.ofDepth rounds depth) program s =
        some (r, s')) :
      Reachable s'
  /- The oldest job that is queued runs to its end. -/
  | turn
      {s s' r}
      (rounds depth : Nat)
      (h : Reachable s)
      (hTurn : Jobs.turn (.ofDepth rounds depth) s =
        some (r, s')) :
      Reachable s'
  /- The ambient context becomes another one. -/
  | within
      {s}
      (ambient : Value)
      (h : Reachable s) :
      Reachable { s with ambient := ambient }
  /- The log is taken out. -/
  | unlogged
      {s}
      (h : Reachable s) :
      Reachable { s with log := #[] }

/- The session in which a program has run, if it has an end. -/
def Session.after (program : Program) : Session :=
  match program.run (.ofDepth 8 40) Session.empty with
  | some (_, s) => s
  | none => Session.empty

namespace Session.Reachable

variable {s s' : Session}

theorem after
    (program : Program) :
    (Session.after program).Reachable := by
  unfold Session.after
  cases hRun : program.run (.ofDepth 8 40) Session.empty with
  | none => exact .empty
  | some out =>
      rcases out with ⟨r, s⟩
      exact .run 8 40 .empty hRun

/- Code may make a context ambient and then do nothing. -/
theorem becoming
    (ambient : Value)
    (h : s.Reachable) :
    (Run.becoming ambient s).Reachable := by
  let idle : Program := .request
    (.runInContext ambient fun _ => .done .undefined)
  have hRun : idle.run (.ofDepth 0 1) s =
      some (.ok .undefined,
        { Run.becoming ambient s with ambient := s.ambient }) :=
    rfl
  exact (h.run 0 1 hRun).within ambient

/- Running jobs until none is left leads to a session too. -/
theorem flush
    {r : Except Value Unit}
    (rounds depth : Nat)
    (h : s.Reachable)
    (hFlush : Jobs.flush (.ofDepth rounds depth) s =
      some (r, s')) :
    s'.Reachable := by
  have hTurns : (Run.iterate (Caller.ofDepth rounds depth).rounds
      (Jobs.turn (.ofDepth rounds depth))).Ensures
        (Run.becoming .undefined s)
        fun _ s₁ => s₁.Reachable := by
    have hTurn : ∀ s₁ : Session, s₁.Reachable →
        (Jobs.turn (.ofDepth rounds depth)).Ensures s₁
          (Run.Continues Reachable fun _ s₂ =>
            s₂.Reachable) := by
      intro s₁ h₁ r s₂ hTurn
      have h₂ := h₁.turn rounds depth hTurn
      match r with
      | .ok (some a) => exact h₂
      | .ok none => exact h₂
      | .error e => exact h₂
    exact Run.Ensures.iterate hTurn _ (h.becoming .undefined)
  have hFlushed : (Jobs.flush (.ofDepth rounds depth)).Ensures s
      fun _ s' => s'.Reachable := by
    refine Run.ensures_withAmbient.mpr
      (Run.Ensures.mono hTurns ?_)
    intro _ s₁ h₁
    exact h₁.within s.ambient
  exact hFlushed r s' hFlush

/- A script leads from session to session. -/
theorem stage
    (h : s.Reachable)
    (stage : Script.Stage) :
    (Script.runStage stage s).2.Reachable := by
  unfold Script.runStage
  cases hRun : stage.run s with
  | none => exact h
  | some out =>
      rcases out with ⟨r, s'⟩
      refine unlogged ?_
      have hEnsures : stage.run.Ensures s
          fun _ s' => s'.Reachable := by
        cases stage with
        | flush =>
            refine Run.Ensures.bind fun r s₁ hFlush => ?_
            have h₁ := h.flush _ _ hFlush
            cases r with
            | ok u => exact Run.ensures_pure.mpr h₁
            | error e => exact h₁
        | evaluate e =>
            refine Run.Ensures.map fun r s₁ hEval => ?_
            exact h.run _ _ hEval
      exact hEnsures r s' hRun

------------------------------------------------------------
-- Worlds
------------------------------------------------------------

/- A world that employs tasks is kept by all that comes about. -/
theorem moves_in
    {W : World}
    (hEmpty : W.Sound Session.empty)
    (hE : ∀ rounds depth,
      W.Employs (Caller.ofDepth rounds depth))
    (h : s.Reachable) :
    W.Moves Session.empty s := by
  induction h with
  | empty => exact .refl hEmpty
  | run rounds depth _ hRun ih =>
      exact ih.trans ((hE rounds depth).keeps_program ih.sound
        _ _ _ hRun)
  | turn rounds depth _ hTurn ih =>
      exact ih.trans ((hE rounds depth).toHosts.keeps_turn
        (hE rounds depth).serves ih.sound _ _ hTurn)
  | within ambient _ ih =>
      exact ih.trans (ih.sound.moves_of_kernel rfl
        { ih.sound.stocked with })
  | unlogged _ ih =>
      exact ih.trans (ih.sound.moves_of_kernel rfl
        { ih.sound.stocked with })

------------------------------------------------------------
-- Standing
------------------------------------------------------------

/- In the beginning there is nothing that could be amiss. -/
private theorem sane_empty :
    Sane Session.empty where
  owner _ _ _ h := by simp [Drives, Session.empty] at h
  sole _ _ _ _ _ h := by simp [Drives, Session.empty] at h
  output_lt _ h := by simp [IsOutput, Session.empty] at h
  output_sole _ _ _ _ _ h := by simp [Session.empty] at h
  watcher _ _ h := absurd h List.not_mem_nil
  unwatched _ _ := rfl
  once _ _ _ _ _ _ h := absurd h List.not_mem_nil
  apart _ := .nil
  audience _ _ h := absurd h List.not_mem_nil
  code _ _ h := by cases h
  handler _ := trivial
  compensation _ := trivial
  deferred _ _ h := by simp [Session.empty] at h
  controlled _ _ h := by simp [Session.empty] at h

theorem stocked_empty
    {fit : Closure → Prop}
    (h : fit default) :
    Session.empty.Stocked fit where
  functions _ := h
  classes _ _ hc := by cases hc
  promises _ _ hq := by cases hq
  microtasks _ hj := by cases hj
  awaiters _ := trivial
  awaitables _ := trivial
  thenables _ := h
  contexts _ := trivial
  iterables _ := trivial
  resources _ := trivial
  listeners _ _ hc := by cases hc

private theorem sound_empty :
    (Driving [] []).Sound Session.empty where
  inv :=
    { sane := sane_empty
      placed := fun t ht => absurd ht (Nat.not_lt_zero t)
      minded := fun t ht => absurd ht (Nat.not_lt_zero t)
      held := fun _ ht => absurd ht List.not_mem_nil }
  stocked := stocked_empty trivial

/- What comes about is what the empty session turns into. -/
theorem moves
    (h : s.Reachable) :
    (Driving [] []).Moves Session.empty s :=
  h.moves_in sound_empty fun rounds depth =>
    Driving.employs (Driving.serves rounds depth)

/- No reachable session is amiss, and nobody is at work in it. -/
theorem sound
    (h : s.Reachable) :
    (Driving [] []).Sound s :=
  h.moves.sound

/- No driver waits for a future that has forgotten it. -/
theorem not_lost
    (h : s.Reachable)
    (t : Ref) :
    ¬ s.Lost t := by
  intro hLost
  rcases (h.moves.rel.spares t hLost).1 with
    ⟨_, _, _, _, _, _, hDrives, _⟩
  simp [Drives, Session.empty] at hDrives

/- What a task's driver waits for is what it asked for. -/
theorem minds
    (h : s.Reachable)
    {t : Ref}
    (ht : t < s.tasks.size) :
    Minds False s t := by
  refine (h.sound.inv.minded t ht List.not_mem_nil).mono ?_
  exact fun hMem => absurd hMem List.not_mem_nil

/- Every task rests in a phase that its story leads to. -/
theorem placed
    (h : s.Reachable)
    {t : Ref}
    (ht : t < s.tasks.size) :
    Placed False s t := by
  refine (h.sound.inv.placed t ht List.not_mem_nil).mono ?_
  exact fun hMem => absurd hMem List.not_mem_nil

/- Every story leads to some phase. -/
theorem course
    (h : s.Reachable)
    (t : Ref) :
    ∃ p, Course (s.story t) p := by
  by_cases ht : t < s.tasks.size
  · rcases h.placed ht with ⟨p, _, hCourse, _⟩
    exact ⟨p, hCourse⟩
  · refine ⟨.fresh, ?_⟩
    rw [Session.story, getD_of_size_le _ (Nat.not_lt.mp ht)]
    exact .nil

end Session.Reachable

end Resumption

import Resumption.Proofs.Veil.Pictures
import Resumption.Proofs.Veil.Requests

/-
  Whole courses of a session under a veil.

  A session is played by acts: client code runs, or the
  oldest job does, in any order.  A report of what a listener
  threw is an act of its own.

  Main declarations:
    * `Act`, `Session.Plays`, `Session.played`
    * `Session.Plays.reports`
    * `Session.Plays.veiled`
-/

namespace Resumption

open Run

------------------------------------------------------------
-- Courses
------------------------------------------------------------

/-
  Something that happens to a session, with the bounds on how
  far it may go; a flat loop may take one round at least.
-/
inductive Act where
  /- Client code runs. -/
  | ask (rounds depth : Nat) (program : Program)
  /- The oldest job runs, and is no report. -/
  | turn (rounds depth : Nat)
  /- The oldest job runs, and reports an error. -/
  | report

/-
  The acts are played, one after the other: client code has
  ended in the given ways, and the given errors have been
  reported.
-/
inductive Session.Plays :
    List Act → Session → List (Except Value Value) →
      List Value → Session → Prop where
  | nil (s : Session) :
      Plays [] s [] [] s
  | ask
      {rounds depth program acts s s₁ s' r rs es}
      (hRun : Program.run (.ofDepth (rounds + 1) depth)
        program s = some (r, s₁))
      (hRest : Plays acts s₁ rs es s') :
      Plays (.ask rounds depth program :: acts) s
        (r :: rs) es s'
  | turn
      {rounds depth acts s s₁ s' r rs es}
      (hDue : ∀ e rest, s.microtasks ≠ .report e :: rest)
      (hTurn : Jobs.turn (.ofDepth (rounds + 1) depth) s =
        some (r, s₁))
      (hRest : Plays acts s₁ rs es s') :
      Plays (.turn rounds depth :: acts) s rs es s'
  | report
      {e rest acts s s₁ s' r rs es}
      (hDue : s.microtasks = .report e :: rest)
      (hTurn : Jobs.turn (.ofDepth 1 0) s = some (r, s₁))
      (hRest : Plays acts s₁ rs es s') :
      Plays (.report :: acts) s rs (e :: es) s'

/- Play the acts, if they can be played to their end. -/
def Session.played :
    List Act → Session →
      Option (List (Except Value Value) × List Value × Session)
  | [], s => some ([], [], s)
  | .ask rounds depth program :: acts, s =>
      match program.run (.ofDepth (rounds + 1) depth) s with
      | some (r, s₁) =>
          match played acts s₁ with
          | some (rs, es, s') => some (r :: rs, es, s')
          | none => none
      | none => none
  | .turn rounds depth :: acts, s =>
      match s.microtasks with
      | .report _ :: _ => none
      | _ =>
          match Jobs.turn (.ofDepth (rounds + 1) depth) s with
          | some (_, s₁) => played acts s₁
          | none => none
  | .report :: acts, s =>
      match s.microtasks with
      | .report e :: _ =>
          match Jobs.turn (.ofDepth 1 0) s with
          | some (_, s₁) =>
              match played acts s₁ with
              | some (rs, es, s') => some (rs, e :: es, s')
              | none => none
          | none => none
      | _ => none

theorem Session.plays_of_played
    {acts : List Act}
    {s s' : Session}
    {rs : List (Except Value Value)}
    {es : List Value}
    (h : played acts s = some (rs, es, s')) :
    Plays acts s rs es s' := by
  induction acts generalizing s rs es with
  | nil =>
      cases h
      exact .nil _
  | cons act acts ih =>
      cases act with
      | ask rounds depth program =>
          simp only [played] at h
          split at h
          · next r s₁ hRun =>
              split at h
              · next hRest =>
                  cases h
                  exact .ask hRun (ih hRest)
              · cases h
          · cases h
      | turn rounds depth =>
          simp only [played] at h
          split at h
          · cases h
          · next hDue =>
              split at h
              · next hTurn => exact .turn hDue hTurn (ih h)
              · cases h
      | report =>
          simp only [played] at h
          split at h
          · next hDue =>
              split at h
              · next hTurn =>
                  split at h
                  · next hRest =>
                      cases h
                      exact .report hDue hTurn (ih hRest)
                  · cases h
              · cases h
          · cases h

namespace Veil

variable (V : Veil)

/- An act under a veil: without listeners nothing is reported. -/
def act? : Act → Option Act
  | .ask rounds depth program =>
      some (.ask rounds depth (V.program program))
  | .turn rounds depth => some (.turn rounds depth)
  | .report => if V.listeners then none else some .report

/- Acts under a veil. -/
def acts (acts : List Act) : List Act :=
  acts.filterMap V.act?

end Veil

------------------------------------------------------------
-- Jobs
------------------------------------------------------------

namespace Veil

variable {V : Veil}
variable {s t : Session}
variable {c c' : Caller}

theorem matches_job
    {job job' : Job}
    (hc : V.Serves c c')
    (h : V.job? job = some job') :
    V.Matches Eq (job.run c) (job'.run c') := by
  cases job with
  | react r outcome =>
      cases h
      exact matches_runReaction hc r outcome
  | adopt source p =>
      cases h
      exact matches_adopt hc source p
  | report e =>
      cases hListeners : V.listeners with
      | true => simp [job?, hListeners] at h
      | false =>
          simp only [job?, hListeners] at h
          cases h
          refine (matches_picture e).bindOf
            (fun d => ⟨d, rfl⟩) fun d d' hShade => ?_
          refine (matches_logged ?_).aside hListeners
          exact shade_record (shades_cons hShade rfl)

theorem takeMicrotask_cons
    {job : Job}
    {rest : List Job}
    (h : s.microtasks = job :: rest) :
    Jobs.takeMicrotask s =
      some (.ok (some job), { s with microtasks := rest }) := by
  have hTake : (Jobs.takeMicrotask).Ensures s fun r s' =>
      r = .ok (some job) ∧
        s' = { s with microtasks := rest } := by
    refine ensures_modifyGet.mpr ?_
    rw [h]
    exact ⟨rfl, rfl⟩
  rcases hTake _ _ rfl with ⟨hResult, hSession⟩
  exact congrArg some (Prod.ext hResult hSession)

theorem takeMicrotask_nil
    (h : s.microtasks = []) :
    Jobs.takeMicrotask s = some (.ok none, s) := by
  have hTake : (Jobs.takeMicrotask).Ensures s fun r s' =>
      r = .ok none ∧ s' = s := by
    refine ensures_modifyGet.mpr ?_
    rw [h]
    exact ⟨rfl, rfl⟩
  rcases hTake _ _ rfl with ⟨hResult, hSession⟩
  exact congrArg some (Prod.ext hResult hSession)

theorem matches_takeImmediate :
    V.Matches Eq Jobs.takeImmediate Jobs.takeImmediate := by
  refine matches_modifyGet (fun s => ?_) fun s t hSees => ?_
  · split
    · exact .refl s
    · exact .of_still ⟨rfl, rfl, rfl, rfl⟩
  · rw [hSees.immediates]
    split
    · exact ⟨rfl, hSees⟩
    · exact ⟨rfl, { hSees with immediates := rfl }⟩

/- Only reports go unseen. -/
theorem job?_of_due
    {job : Job}
    {rest : List Job}
    (hDue : ∀ e rest, s.microtasks ≠ .report e :: rest)
    (hQueue : s.microtasks = job :: rest) :
    ∃ job', V.job? job = some job' ∧
      ∀ e, job' ≠ .report e := by
  cases job with
  | react r outcome => exact ⟨_, rfl, nofun⟩
  | adopt source p => exact ⟨_, rfl, nofun⟩
  | report e => exact (hDue e rest hQueue).elim

/- What is due under the veil is no report either. -/
theorem Sees.due
    (hSees : V.Sees s t)
    (hDue : ∀ e rest, s.microtasks ≠ .report e :: rest) :
    ∀ e rest, t.microtasks ≠ .report e :: rest := by
  intro e rest hQueue'
  rw [hSees.microtasks] at hQueue'
  cases hQueue : s.microtasks with
  | nil => simp [hQueue] at hQueue'
  | cons job jobs =>
      rcases job?_of_due hDue hQueue with ⟨job', hJob, hPlain⟩
      rw [hQueue, List.filterMap_cons_some hJob] at hQueue'
      exact hPlain e (List.cons.inj hQueue').1

/- So does a turn for which no job is queued. -/
theorem matches_idle :
    V.Matches Eq
      (do
        match ← Jobs.takeImmediate with
        | some turn =>
            Promise.conclude turn.promise turn.outcome
            return none
        | none => return some ())
      (do
        match ← Jobs.takeImmediate with
        | some turn =>
            Promise.conclude turn.promise turn.outcome
            return none
        | none => return some ()) := by
  refine matches_takeImmediate.bind fun turn => ?_
  cases turn with
  | none => exact matches_pure rfl
  | some turn =>
      exact (matches_conclude _ _).bind fun _ => matches_pure rfl

/- A turn goes alike, unless what it runs is not seen at all. -/
theorem meets_turn
    (hc : V.Serves c c')
    (hSees : V.Sees s t)
    (hKept : ∀ job rest, s.microtasks = job :: rest →
      ∃ job', V.job? job = some job') :
    V.Meets Eq (Jobs.turn c) (Jobs.turn c') s t := by
  intro r s' hRun hHidden
  unfold Jobs.turn at hRun ⊢
  cases hQueue : s.microtasks with
  | nil =>
      have hQueue' : t.microtasks = [] := by
        rw [hSees.microtasks, hQueue]
        rfl
      rw [bind_of_end (takeMicrotask_nil hQueue)] at hRun
      rcases matches_idle.meets hSees r s' hRun hHidden with
        ⟨r', t', hEnd, hRest⟩
      exact ⟨r', t', (bind_of_end
        (takeMicrotask_nil hQueue')).trans hEnd, hRest⟩
  | cons job rest =>
      rcases hKept job rest hQueue with ⟨job', hJob⟩
      have hQueue' : t.microtasks =
          job' :: rest.filterMap V.job? := by
        rw [hSees.microtasks, hQueue,
          List.filterMap_cons_some hJob]
      have hTaken : V.Sees { s with microtasks := rest }
          { t with microtasks := rest.filterMap V.job? } :=
        { hSees with microtasks := rfl }
      have hJobRun : V.Matches Eq
          (do
            job.run c
            return (none : Option Unit))
          (do
            job'.run c'
            return none) :=
        (matches_job hc hJob).bind fun _ => matches_pure rfl
      rw [bind_of_end (takeMicrotask_cons hQueue)] at hRun
      rcases hJobRun.meets hTaken r s' hRun hHidden with
        ⟨r', t', hEnd, hRest⟩
      exact ⟨r', t', (bind_of_end
        (takeMicrotask_cons hQueue')).trans hEnd, hRest⟩

end Veil

------------------------------------------------------------
-- Reports
------------------------------------------------------------

/-
  The session after what a listener threw was reported: the
  log tells of it, and nothing else has changed.
-/
def Session.reported
    (s : Session)
    (e : Value)
    (rest : List Job) : Session :=
  let shown := ({ s with microtasks := rest } : Session).picture e
  { s with
    microtasks := rest
    log := s.log.push (.record [("uncaught", shown)]) }

theorem Session.turn_report
    {s : Session}
    {e : Value}
    {rest : List Job}
    (h : s.microtasks = .report e :: rest)
    (c : Caller) :
    Jobs.turn c s = some (.ok none, s.reported e rest) := by
  unfold Jobs.turn
  rw [bind_of_end (Veil.takeMicrotask_cons h)]
  rfl

namespace Veil

variable {V : Veil}
variable {s t : Session}

/- Where there are listeners, a report is seen. -/
theorem Sees.reported
    {e : Value}
    {rest : List Job}
    (hSees : V.Sees s t)
    (hSeen : V.listeners = false) :
    V.Sees (s.reported e rest)
      (t.reported e (rest.filterMap V.job?)) := by
  have hTaken : V.Sees { s with microtasks := rest }
      { t with microtasks := rest.filterMap V.job? } :=
    { hSees with microtasks := rfl }
  have hShade := hTaken.shade_picture e
  refine { hTaken with log := fun _ => ?_ }
  simp only [Session.reported, Array.toList_push,
    List.map_append, hSees.log hSeen, List.map_cons]
  rw [shade_record (shades_cons hShade rfl)]

/- Where there are none, it goes unseen. -/
theorem Sees.unreported
    {e : Value}
    {rest : List Job}
    (hSees : V.Sees s t)
    (hHidden : V.listeners = true)
    (hDue : s.microtasks = .report e :: rest) :
    V.Sees (s.reported e rest) t :=
  { hSees with
    log := fun hSeen => by simp [hHidden] at hSeen
    microtasks := by
      rw [hSees.microtasks, hDue, List.filterMap_cons]
      simp [job?, hHidden, Session.reported] }

end Veil

------------------------------------------------------------
-- Going On
------------------------------------------------------------

section Goes

variable {s : Session}

/- Seen through no veil at all. -/
def Veil.clear : Veil :=
  ⟨false, none, false⟩

/- There a caller may do no rounds too. -/
theorem Veil.serves_clear
    (rounds depth : Nat) :
    Veil.clear.Serves (.ofDepth rounds depth)
      (.ofDepth rounds depth) :=
  Veil.serves_ofDepth (V := Veil.clear) (fun h => by cases h) depth

theorem goes_program
    (rounds depth : Nat)
    (program : Program) :
    Goes (program.run (.ofDepth rounds depth)) :=
  (Veil.matches_program (Veil.serves_clear rounds depth)
    program).goes

/- What is due is not owed any longer; all else is. -/
theorem onward_turn
    (rounds depth : Nat)
    (hDue : ∀ e rest, s.microtasks ≠ .report e :: rest) :
    (Jobs.turn (.ofDepth rounds depth)).Ensures s
      fun _ s' => s.Onward s' := by
  have hc := Veil.serves_clear rounds depth
  intro r s' hRun
  unfold Jobs.turn at hRun
  cases hQueue : s.microtasks with
  | nil =>
      rw [bind_of_end (Veil.takeMicrotask_nil hQueue)] at hRun
      exact (Veil.matches_idle (V := Veil.clear)).goes s r s' hRun
  | cons job rest =>
      rw [bind_of_end (Veil.takeMicrotask_cons hQueue)] at hRun
      have hKept : ∃ job', Veil.clear.job? job = some job' := by
        cases job <;> exact ⟨_, rfl⟩
      rcases hKept with ⟨job', hJob⟩
      have hGo : Goes (do
          job.run (.ofDepth rounds depth)
          return (none : Option Unit)) :=
        (Veil.matches_job hc hJob).goes.bind fun _ =>
          goes_pure _
      have hPlain : job.reported? = none := by
        cases job with
        | report e => exact (hDue e rest hQueue).elim
        | _ => rfl
      have hTaken : s.Onward { s with microtasks := rest } :=
        .of_still ⟨rfl, by simp [Session.owed, hQueue, hPlain],
          rfl, rfl⟩
      exact hTaken.trans (hGo _ r s' hRun)

end Goes

namespace Session.Plays

variable {acts : List Act}
variable {s s' : Session}
variable {rs : List (Except Value Value)}
variable {es : List Value}

/- Nothing that has happened is forgotten. -/
theorem chronicle
    (h : Plays acts s rs es s') :
    s.chronicle <:+ s'.chronicle := by
  induction h with
  | nil s => exact List.suffix_refl _
  | ask hRun _ ih =>
      exact (goes_program _ _ _ _ _ _ hRun).chronicle.trans ih
  | turn hDue hTurn _ ih =>
      exact (onward_turn _ _ hDue _ _ hTurn).chronicle.trans ih
  | report hDue hTurn _ ih =>
      rw [turn_report hDue] at hTurn
      cases hTurn
      exact ih

/-
  Whatever listeners threw was reported by acts of their own,
  in the order of the events, or is still to be.
-/
theorem reports
    (h : Plays acts s rs es s') :
    ∃ more, s'.thrown = s.thrown ++ more ∧
      s.owed ++ more = es ++ s'.owed := by
  induction h with
  | nil s => exact ⟨[], by simp, by simp⟩
  | ask hRun _ ih =>
      rcases (goes_program _ _ _ _ _ _ hRun).reports with
        ⟨es₁, hThrown₁, hOwed₁⟩
      rcases ih with ⟨es₂, hThrown₂, hOwed₂⟩
      refine ⟨es₁ ++ es₂, ?_, ?_⟩
      · rw [hThrown₂, hThrown₁, List.append_assoc]
      · rw [← List.append_assoc, ← hOwed₁, hOwed₂]
  | turn hDue hTurn _ ih =>
      rcases (onward_turn _ _ hDue _ _ hTurn).reports with
        ⟨es₁, hThrown₁, hOwed₁⟩
      rcases ih with ⟨es₂, hThrown₂, hOwed₂⟩
      refine ⟨es₁ ++ es₂, ?_, ?_⟩
      · rw [hThrown₂, hThrown₁, List.append_assoc]
      · rw [← List.append_assoc, ← hOwed₁, hOwed₂]
  | @report e rest acts s _ _ _ _ _ hDue hTurn _ ih =>
      rw [turn_report hDue] at hTurn
      cases hTurn
      rcases ih with ⟨more, hThrown, hOwed⟩
      have hOwes : s.owed = e :: (s.reported e rest).owed := by
        simp [owed, hDue, reported, Job.reported?]
      refine ⟨more, hThrown, ?_⟩
      rw [hOwes, List.cons_append, hOwed, List.cons_append]

------------------------------------------------------------
-- Under a Veil
------------------------------------------------------------

/-
  A whole course is played alike under a veil, if nothing
  shows through it by the end.
-/
theorem veiled
    {V : Veil}
    {t : Session}
    (h : Plays acts s rs es s')
    (hSees : V.Sees s t)
    (hHidden : V.Hidden s') :
    ∃ t', Plays (V.acts acts) t rs
        (if V.listeners then [] else es) t' ∧
      V.Sees s' t' := by
  induction h generalizing t with
  | nil s =>
      refine ⟨t, ?_, hSees⟩
      simpa [Veil.acts] using Plays.nil t
  | @ask rounds depth program acts _ s₁ _ _ _ _ hRun hRest ih =>
      have hHidden₁ : V.Hidden s₁ := fun i hi =>
        hHidden i (hRest.chronicle.subset hi)
      have hc : V.Serves (.ofDepth (rounds + 1) depth)
          (.ofDepth (rounds + 1) depth) :=
        Veil.serves_ofDepth (fun _ => rounds.succ_ne_zero) depth
      rcases (Veil.matches_program hc program).meets hSees _ _
          hRun hHidden₁ with
        ⟨_, t₁, hEnd, hAlike, hSees₁⟩
      rcases ih hSees₁ hHidden with ⟨t', hPlays, hSees'⟩
      refine ⟨t', ?_, hSees'⟩
      cases hAlike with
      | ok hSame =>
          subst hSame
          exact .ask hEnd hPlays
      | error e => exact .ask hEnd hPlays
  | @turn rounds depth acts s s₁ _ _ _ _ hDue hTurn hRest ih =>
      have hHidden₁ : V.Hidden s₁ := fun i hi =>
        hHidden i (hRest.chronicle.subset hi)
      have hc : V.Serves (.ofDepth (rounds + 1) depth)
          (.ofDepth (rounds + 1) depth) :=
        Veil.serves_ofDepth (fun _ => rounds.succ_ne_zero) depth
      have hMeets := Veil.meets_turn hc hSees
        fun job rest hQueue =>
          (Veil.job?_of_due hDue hQueue).imp fun _ h => h.1
      rcases hMeets _ _ hTurn hHidden₁ with
        ⟨_, t₁, hEnd, _, hSees₁⟩
      rcases ih hSees₁ hHidden with ⟨t', hPlays, hSees'⟩
      exact ⟨t', .turn (hSees.due hDue) hEnd hPlays, hSees'⟩
  | @report e rest acts s _ _ _ _ _ hDue hTurn hRest ih =>
      rw [turn_report hDue] at hTurn
      cases hTurn
      cases hListeners : V.listeners with
      | true =>
          rcases ih (hSees.unreported hListeners hDue) hHidden
            with ⟨t', hPlays, hSees'⟩
          refine ⟨t', ?_, hSees'⟩
          rw [if_pos hListeners] at hPlays
          simpa [Veil.acts, Veil.act?, hListeners] using hPlays
      | false =>
          rcases ih (hSees.reported hListeners) hHidden with
            ⟨t', hPlays, hSees'⟩
          have hDue' : t.microtasks =
              .report e :: rest.filterMap V.job? := by
            simp [hSees.microtasks, hDue, Veil.job?, hListeners]
          refine ⟨t', ?_, hSees'⟩
          have hPlays' := Plays.report hDue'
            (turn_report hDue' _) hPlays
          simpa [Veil.acts, Veil.act?, hListeners] using hPlays'

end Session.Plays

end Resumption

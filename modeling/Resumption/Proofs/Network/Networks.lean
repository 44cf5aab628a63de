import Resumption.Proofs.Network.Starts

/-
  Networks of tasks, and the schedules by which they are
  started and their sources are settled.

  The members of a network are routines that await sources
  and each other's outputs.  What the futures come to is
  foretold by the members' readings, from the outcomes that
  the sources are settled with.

  Main declarations:
    * `Member`, `Network`, `Network.Detached`
    * `Network.Act`, `Network.Step`, `Network.Plays`
    * `Network.Ready`, `Network.Opens`
    * `Network.Foretold`, `Network.Sources`
    * `Session.Answers`
-/

namespace Resumption

open Run
open Direct (Stepped landed)

variable {ν : Type}

------------------------------------------------------------
-- Networks
------------------------------------------------------------

/-
  A routine that is to be a task: what of the session is its
  own, the futures that it is given, and its options.
-/
structure Member (ν : Type) where
  routine : Routine ν
  own : Territory
  inputs : ν → Bool
  captured : Bool
  assertions : Value
  taskId : Value
  context : Value

/-
  A task whose awaits do not keep the ambient context, and
  that hands off nothing within its constructs, which would.
-/
structure Member.Detached (m : Member ν) : Prop where
  captured : m.captured = false
  hands : m.routine.HandsOffOnly True False

/-
  What the names of futures stand for: the output of a
  member, or else a source, which is settled from outside by
  its handle.  And how resources are released.
-/
structure Network (ν : Type) where
  member : ν → Option (Member ν)
  handle : ν → Ref
  releases : Ref → Option Effect

namespace Network

/- A task is started, or a source is settled. -/
inductive Act (ν : Type) where
  | start (t : ν)
  | settle (x : ν) (outcome : Outcome)

/- The future that an act is about. -/
def Act.name : Act ν → ν
  | .start t => t
  | .settle x _ => x

/-
  All tasks are detached: no await keeps the ambient context,
  and what is handed off is handed off outside of constructs.
-/
def Detached (N : Network ν) : Prop :=
  ∀ t m, N.member t = some m → m.Detached

/- A session, and where the futures are that there are. -/
structure State (ν : Type) where
  session : Session
  place : ν → Option Ref

namespace State

/- The futures that a member is given. -/
def view
    (S : State ν)
    (m : Member ν) : ν → Ref :=
  fun x => if m.inputs x then (S.place x).getD 0 else 0

open Classical in
/- A task has been started, and its output is at hand. -/
noncomputable def enter
    (S : State ν)
    (t : ν)
    (f : Ref)
    (s' : Session) : State ν where
  session := s'
  place x := if x = t then some f else S.place x

end State

variable (N : Network ν)

/- One thing happens, and all that follows from it at once. -/
inductive Step : Act ν → State ν → State ν → Prop where
  | start
      {t m f S s'}
      (hMember : N.member t = some m)
      (hLeads : Leads (fun c =>
          (m.routine.task (S.view m) m.captured m.assertions
            m.taskId m.context).run c)
        S.session (.ok (.future f)) s') :
      Step (.start t) S (S.enter t f s')
  | settle
      {x outcome S s'}
      (hLeads : Leads (fun c =>
          (Program.request (.settle (.deferred (N.handle x))
            outcome)).run c)
        S.session (.ok (.bool true)) s') :
      Step (.settle x outcome) S { S with session := s' }

/- One thing happens after another. -/
inductive Plays : List (Act ν) → State ν → State ν → Prop where
  | nil {S} :
      Plays [] S S
  | cons
      {act acts S S₁ S₂}
      (hStep : Step N act S S₁)
      (hRest : Plays acts S₁ S₂) :
      Plays (act :: acts) S S₂

variable {N}
variable {act : Act ν}
variable {acts acts₁ acts₂ : List (Act ν)}
variable {S S₁ S₂ : State ν}

/- Nothing is left to chance. -/
theorem Step.unique
    (h : N.Step act S S₁)
    (h' : N.Step act S S₂) :
    S₁ = S₂ := by
  cases h with
  | start hMember hLeads =>
      cases h' with
      | start hMember' hLeads' =>
          rw [hMember] at hMember'
          cases hMember'
          rcases hLeads.unique hLeads' with ⟨hValue, rfl⟩
          cases hValue
          rfl
  | settle hLeads =>
      cases h' with
      | settle hLeads' =>
          rcases hLeads.unique hLeads' with ⟨_, rfl⟩
          rfl

theorem Plays.unique
    (h : N.Plays acts S S₁)
    (h' : N.Plays acts S S₂) :
    S₁ = S₂ := by
  induction h with
  | nil =>
      cases h'
      rfl
  | cons hStep _ ih =>
      cases h' with
      | cons hStep' hRest' =>
          cases hStep.unique hStep'
          exact ih hRest'

/- A schedule can be halted at any time. -/
theorem Plays.halt
    (h : N.Plays (acts₁ ++ acts₂) S S₂) :
    ∃ S₁, N.Plays acts₁ S S₁ ∧ N.Plays acts₂ S₁ S₂ := by
  induction acts₁ generalizing S with
  | nil => exact ⟨S, .nil, h⟩
  | cons act acts₁ ih =>
      cases h with
      | cons hStep hRest =>
          rcases ih hRest with ⟨S₁, hFirst, hSecond⟩
          exact ⟨S₁, .cons hStep hFirst, hSecond⟩

variable (N)

/-
  A schedule starts each task once, when all that it is given
  is at hand, and settles each source once.
-/
def Ready (done : List ν) : List (Act ν) → Prop
  | [] => True
  | .start t :: acts =>
      t ∉ done ∧
        (∃ m, N.member t = some m ∧ ∀ x, m.inputs x = true →
          N.member x = none ∨ x ∈ done) ∧
        Ready (t :: done) acts
  | .settle x _ :: acts =>
      x ∉ done ∧ N.member x = none ∧ Ready (x :: done) acts

variable {N}
variable {done : List ν}

/- What a schedule settles are sources. -/
theorem Ready.source
    {x : ν}
    {outcome : Outcome}
    (h : N.Ready done acts)
    (hx : .settle x outcome ∈ acts) :
    N.member x = none := by
  induction acts generalizing done with
  | nil => cases hx
  | cons act acts ih =>
      cases act with
      | start t =>
          rcases List.mem_cons.mp hx with hSame | hx
          · cases hSame
          · exact ih h.2.2 hx
      | settle y outcome' =>
          rcases List.mem_cons.mp hx with hSame | hx
          · cases hSame
            exact h.2.1
          · exact ih h.2.2 hx

/- What comes first of a schedule is one. -/
theorem Ready.halt
    (h : N.Ready done (acts₁ ++ acts₂)) :
    N.Ready done acts₁ := by
  induction acts₁ generalizing done with
  | nil => trivial
  | cons act acts₁ ih =>
      cases act with
      | start t => exact ⟨h.1, h.2.1, ih h.2.2⟩
      | settle x outcome => exact ⟨h.1, h.2.1, ih h.2.2⟩

/-
  What holds of sources, and of a member when it holds of all
  that the member is given, holds of all that the members are
  given which a schedule starts.
-/
theorem Ready.given
    {P : ν → Prop}
    (h : N.Ready done acts)
    (hSources : ∀ x, N.member x = none → P x)
    (hMembers : ∀ t m, N.member t = some m →
      (∀ x, m.inputs x = true → P x) → P t)
    (hDone : ∀ x ∈ done, P x) :
    ∀ t, .start t ∈ acts → ∃ m, N.member t = some m ∧
      ∀ x, m.inputs x = true → P x := by
  -- A member is given what was settled or started before it.
  induction acts generalizing done with
  | nil => exact fun t ht => by cases ht
  | cons act acts ih =>
      intro t ht
      cases act with
      | start u =>
          rcases h with ⟨_, ⟨m, hMember, hGiven⟩, hRest⟩
          have hInputs : ∀ x, m.inputs x = true → P x := by
            intro x hx
            rcases hGiven x hx with hSource | hx
            · exact hSources x hSource
            · exact hDone x hx
          rcases List.mem_cons.mp ht with hSame | ht
          · cases hSame
            exact ⟨m, hMember, hInputs⟩
          · refine ih hRest (fun x hx => ?_) t ht
            rcases List.mem_cons.mp hx with rfl | hx
            · exact hMembers x m hMember hInputs
            · exact hDone x hx
      | settle y outcome =>
          rcases h with ⟨_, hSource, hRest⟩
          rcases List.mem_cons.mp ht with hSame | ht
          · cases hSame
          · refine ih hRest (fun x hx => ?_) t ht
            rcases List.mem_cons.mp hx with rfl | hx
            · exact hSources x hSource
            · exact hDone x hx

variable (N)

/-
  A session to begin with: every source is at hand, pending,
  and nobody waits for it.
-/
structure Opens (S : State ν) : Prop where
  ambient : S.session.ambient.truthy = false
  tidy : S.session.Tidy
  resource : ∀ r release, N.releases r = some release →
    S.session.resources[r]? =
      some (.custom (.client fun _ => release.code))
  source : ∀ x, N.member x = none → ∃ r,
    S.place x = some r ∧
      S.session.deferreds[N.handle x]? = some (.future r) ∧
      S.session.futures[r]? = some (.fresh none)
  apart : ∀ x y r, N.member x = none → N.member y = none →
    S.place x = some r → S.place y = some r → x = y
  member : ∀ t m, N.member t = some m → S.place t = none

/- No two members have a variable or a log entry in common. -/
def Separate : Prop :=
  ∀ t u m m', N.member t = some m → N.member u = some m' →
    t ≠ u → m.own.Apart m'.own

------------------------------------------------------------
-- What Is Foretold
------------------------------------------------------------

variable (φ : ν → Fate)

/- What the reading of a member is told. -/
def outlook (m : Member ν) : Outlook ν where
  fates x := if m.inputs x then some (φ x) else none
  own := m.own
  releases := N.releases
  checks := m.assertions.isMissing || m.assertions.truthy

/-
  The members' readings bear out what was foretold of their
  outputs, from the memories that they begin with.
-/
structure Foretold
    (s₀ : Session)
    (o : ν → Except (Stop ν) Value)
    (R : ν → Reading ν) : Prop where
  reads : ∀ t m, N.member t = some m → ∃ n o₁,
    m.routine.direct (N.outlook φ m) n ⟨s₀.memory m.own, []⟩ =
        some (o₁, R t) ∧
      landed o₁ = o t
  fates : ∀ t m, N.member t = some m →
    φ t = Fate.ofResult (o t)

/- A schedule settles the sources as was foretold. -/
structure Sources (acts : List (Act ν)) : Prop where
  settled : ∀ x outcome, .settle x outcome ∈ acts →
    φ x = .known outcome
  pending : ∀ x, N.member x = none →
    (∀ outcome, Act.settle x outcome ∉ acts) → φ x = .never

end Network

/-
  What a future has come to that is the output of a task
  whose reading ended so.
-/
def Session.Answers
    (s : Session)
    (place : ν → Ref)
    (f : Ref) : Except (Stop ν) Value → Prop
  | .ok v => s.SettledAs f (.fulfilled v)
  | .error (.thrown e) => s.SettledAs f (.rejected e)
  | .error (.breached b) =>
      ∃ e, b.Raises e ∧ s.SettledAs f (.rejected e)
  | .error (.given v) | .error (.malformed v) =>
      ∃ l e, e.Reports (.malformedStep l v) ∧
        s.SettledAs f (.rejected e)
  | .error (.broken x) =>
      ∃ e, e.isDefect = true ∧
        s.SettledAs (place x) (.rejected e) ∧
        s.SettledAs f (.rejected e)
  | .error (.stuck _) => ¬ s.Settled f

/- A future that settled as a reading ended answers it. -/
theorem Setting.Matches.answers
    {E : Setting ν}
    {s : Session}
    {f : Ref}
    {o : Except (Stop ν) Value}
    {outcome : Outcome}
    (h : E.Matches s o outcome.toExcept)
    (hSettled : s.SettledAs f outcome) :
    s.Answers E.place f o := by
  match o, outcome with
  | .ok v, .fulfilled v' =>
      cases h
      exact hSettled
  | .error stop, .rejected e =>
      have hMeans : E.Means s stop e := h
      cases stop with
      | thrown e' =>
          cases hMeans
          exact hSettled
      | breached b => exact ⟨e, hMeans, hSettled⟩
      | given v =>
          rcases hMeans with ⟨l, hReports⟩
          exact ⟨l, e, hReports, hSettled⟩
      | malformed v =>
          rcases hMeans with ⟨l, hReports⟩
          exact ⟨l, e, hReports, hSettled⟩
      | broken x => exact ⟨e, hMeans.1, hMeans.2, hSettled⟩
      | stuck x => exact hMeans.elim

end Resumption

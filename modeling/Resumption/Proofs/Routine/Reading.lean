import Resumption.Proofs.Routine
import Resumption.Session

/-
  The sequential reading of a routine: what it does where an
  await waits, and goes on with the value of its future, or
  throws the error.

  The reading knows nothing of steps, labels or drivers.  It
  is told what each future is to come to, and is cut short
  by a bound on how deep constructs nest, a loop's rounds
  included.  It stops where a future never settles.  What is
  not the routine's own it cannot read or write.

  Main declarations:
    * `Fate`, `Stop`
    * `Memory`, `Reading`, `Direct`
    * `Routine.direct`
-/

namespace Resumption

------------------------------------------------------------
-- Memory
------------------------------------------------------------

/- The variables and the log entries that are a routine's own. -/
structure Territory where
  var : String → Bool
  entry : Datum → Bool

namespace Territory

/- Everything is the routine's own. -/
def all : Territory :=
  ⟨fun _ => true, fun _ => true⟩

/- Two routines have nothing in common. -/
structure Apart (own own' : Territory) : Prop where
  var : ∀ name, own.var name = true → own'.var name = false
  entry : ∀ face,
    own.entry face = true → own'.entry face = false

theorem Apart.symm
    {own own' : Territory}
    (h : own.Apart own') :
    own'.Apart own where
  var name hName := by
    refine Bool.eq_false_iff.mpr fun hOwn => ?_
    rw [h.var name hOwn] at hName
    cases hName
  entry face hFace := by
    refine Bool.eq_false_iff.mpr fun hOwn => ?_
    rw [h.entry face hOwn] at hFace
    cases hFace

end Territory

/- Variables, and the entries logged so far. -/
structure Memory where
  vars : Fields
  log : List Datum

/- What a session holds of a territory. -/
def Session.memory
    (s : Session)
    (own : Territory) : Memory :=
  ⟨s.globals.filter fun f => own.var f.1,
   s.log.toList.filter own.entry⟩

/- A memory, and the futures awaited so far, the latest first. -/
structure Reading (ν : Type) where
  memory : Memory
  awaited : List ν

/- A reading that goes on to await a future. -/
def Reading.awaiting
    {ν : Type}
    (R : Reading ν)
    (x : ν) : Reading ν :=
  { R with awaited := x :: R.awaited }

------------------------------------------------------------
-- Fates and Stops
------------------------------------------------------------

/-
  What a future comes to: an outcome, or a rejection with
  some defect, or nothing at all.
-/
inductive Fate where
  | known (outcome : Outcome)
  | defect
  | never

/- May a future of that fate settle so? -/
def Fate.Allows : Fate → Outcome → Prop
  | .known outcome, settled => settled = outcome
  | .defect, .rejected e => e.isDefect = true
  | .defect, .fulfilled _ => False
  | .never, _ => False

/- Why a reading stops without a value. -/
inductive Stop (ν : Type) where
  /- A value was thrown. -/
  | thrown (e : Value)
  /- The protocol was breached. -/
  | breached (b : Breach ν)
  /- Something was given that is no step. -/
  | given (v : Value)
  /- It was found not to be one. -/
  | malformed (v : Value)
  /- A future was rejected with a defect. -/
  | broken (x : ν)
  /- A future never settles. -/
  | stuck (x : ν)

namespace Stop

variable {ν : Type}

/- What a handler is given, if it is given anything. -/
def handled? : Stop ν → Option Value
  | .thrown e => if e.isDefect then none else some e
  | _ => none

/- Is the reading to go no further? -/
def isStuck : Stop ν → Bool
  | .stuck _ => true
  | _ => false

end Stop

/- Code that is read from top to bottom. -/
abbrev Direct (ν : Type) :=
  ExceptT (Stop ν) (StateT (Reading ν) Option)

/-
  What a reading is told: what each future comes to, what is
  the routine's own, how each resource is released, and
  whether jumps check that they end in a step.
-/
structure Outlook (ν : Type) where
  fates : ν → Option Fate
  own : Territory
  releases : Ref → Option Effect
  checks : Bool

/- How code goes on that has awaited an outcome. -/
def Outcome.result
    {ν : Type} : Outcome → Except (Stop ν) Value
  | .fulfilled v => .ok v
  | .rejected e => .error (.thrown e)

/- How code goes on that has awaited a future. -/
def Fate.result
    {ν : Type}
    (x : ν) : Fate → Except (Stop ν) Value
  | .known outcome => outcome.result
  | .defect => .error (.broken x)
  | .never => .error (.stuck x)

/- What the future of a task comes to whose reading came so far. -/
def Fate.ofResult
    {ν : Type} : Except (Stop ν) Value → Fate
  | .ok v => .known (.fulfilled v)
  | .error (.thrown e) => .known (.rejected e)
  | .error (.stuck _) => .never
  | .error _ => .defect

@[simp] theorem Fate.ofResult_result
    {ν : Type}
    (x : ν)
    (fate : Fate) :
    Fate.ofResult (fate.result x) = fate := by
  match fate with
  | .known (.fulfilled v) => rfl
  | .known (.rejected e) => rfl
  | .defect => rfl
  | .never => rfl

------------------------------------------------------------
-- Deeds and Effects
------------------------------------------------------------

/- What a deed answers with, and the memory that it leaves. -/
def Deed.apply
    (own : Territory)
    (memory : Memory) : Deed → Option (Value × Memory)
  | .log entry =>
      if own.entry entry.face then
        some (.undefined,
          { memory with log := memory.log ++ [entry.face] })
      else none
  | .read name =>
      if own.var name then
        some ((memory.vars.lookup name).getD .undefined, memory)
      else none
  | .write name v =>
      if own.var name then
        some (v, { memory with vars := memory.vars.put name v })
      else none

section Reading

variable {ν : Type}
variable (O : Outlook ν)

/- Do a deed. -/
def Deed.direct (deed : Deed) : Direct ν Value :=
  fun R =>
    (deed.apply O.own R.memory).map fun (v, memory) =>
      (.ok v, { R with memory := memory })

/- Read an effect. -/
def Effect.direct : Effect → Direct ν Value
  | .done v => return v
  | .fail e => throw (.thrown e)
  | .act deed k => do (k (← deed.direct O)).direct

------------------------------------------------------------
-- Routines
------------------------------------------------------------

namespace Direct

/- No reading within the bound. -/
def unread {α : Type} : Direct ν α :=
  fun _ => none

/- Wait for a future, and go on by what it comes to. -/
def await (x : ν) : Direct ν Value :=
  fun R =>
    (O.fates x).map fun fate => (fate.result x, R.awaiting x)

/- A reading that is to end in a step, or to be thrown out of. -/
def stepping (act : Direct ν Value) : Direct ν Value :=
  fun R =>
    match act R with
    | some (.error (.given _), _) => none
    | out => out

/- What a jump makes of how its code ended. -/
def landed : Except (Stop ν) Value → Except (Stop ν) Value
  | .error (.given v) => .error (.malformed v)
  | o => o

/- Nothing was given that is no step. -/
def Stepped (o : Except (Stop ν) Value) : Prop :=
  ∀ v, o ≠ .error (.given v)

/- Read code under a label. -/
def land (act : Direct ν Value) : Direct ν Value :=
  fun R => (act R).map fun (o, R') => (landed o, R')

/-
  Hand what is thrown to a handler, outside of what it
  handles.  A defect is no ordinary error; nothing handles
  it.
-/
def handle
    (body : Direct ν Value)
    (handler : Value → Direct ν Value) : Direct ν Value :=
  tryCatch body fun stop =>
    match stop.handled? with
    | some e => handler e
    | none => throw stop

/- Run a compensation before what was protected is left. -/
def protect
    (body : Direct ν Value)
    (compensation : Direct ν Value) : Direct ν Value := do
  let v ← tryCatch body fun stop =>
    if stop.isStuck then throw stop
    else do
      discard compensation
      throw stop
  discard compensation
  return v

/- Run a body for each item, in order. -/
def each
    (body : Value → Direct ν Value) :
    List Value → Direct ν Value
  | [] => return .undefined
  | v :: items => do
      discard (stepping (body v))
      each body items

end Direct

/- How a resource is released; nothing needs no release. -/
def Outlook.release : Value → Option Effect
  | .undefined => some (.done .undefined)
  | .null => some (.done .undefined)
  | .resource r => O.releases r
  | _ => none

/- Is a breach one? -/
def Breach.Applies : Breach ν → Prop
  | .malformedStep _ _ => O.checks = true
  | .unsettledResult x => O.fates x = some .never
  | _ => True

open Classical in
/- Read a breach. -/
noncomputable def Breach.direct
    (b : Breach ν) : Direct ν Value :=
  if b.Applies O then throw (.breached b) else Direct.unread

/- Read a routine, as deep as the bound allows. -/
noncomputable def Routine.direct :
    Nat → Routine ν → Direct ν Value
  | 0, _ => Direct.unread
  | _ + 1, .ret v => return v
  | _ + 1, .fail e => throw (.thrown e)
  | _ + 1, .breach b => b.direct O
  | _ + 1, .give v _ =>
      if O.checks then throw (.given v) else Direct.unread
  | n + 1, .act deed k => do
      (k (← deed.direct O)).direct n
  | n + 1, .await x rest => do
      (rest (← Direct.await O x)).direct n
  | _ + 1, .handOff x => Direct.await O x
  | n + 1, .combine first rest => do
      discard (Direct.stepping (first.direct n))
      Direct.land (rest.direct n)
  | n + 1, .whileLoop condition body => do
      if (← condition.direct O).truthy then
        discard (Direct.stepping (body.direct n))
        (Routine.whileLoop condition body).direct n
      else
        return .undefined
  | n + 1, .forLoop items body =>
      Direct.each (fun v => (body v).direct n) items
  | n + 1, .tryWith body handler =>
      Direct.land (Direct.handle (body.direct n)
        fun e => (handler e).direct n)
  | n + 1, .tryFinally body compensation =>
      Direct.land
        (Direct.protect (body.direct n) (compensation.direct O))
  | n + 1, .using resource body =>
      match O.release resource with
      | none => Direct.unread
      | some release =>
          Direct.land
            (Direct.protect ((body resource).direct n)
              (release.direct O))

end Reading

------------------------------------------------------------
-- Reading in Parts
------------------------------------------------------------

namespace Direct

variable {ν α β : Type}
variable {R R' : Reading ν}

/- A sequence reads its second part where the first finishes. -/
theorem of_bind
    {act : Direct ν α}
    {f : α → Direct ν β}
    {o : Except (Stop ν) β}
    (h : (act >>= f) R = some (o, R')) :
    (∃ a R₁, act R = some (.ok a, R₁) ∧
      f a R₁ = some (o, R')) ∨
    (∃ stop, act R = some (.error stop, R') ∧
      o = .error stop) := by
  have hBind : (act >>= f) R =
      (act R).bind fun out =>
        ExceptT.bindCont f out.1 out.2 := rfl
  rw [hBind] at h
  cases hAct : act R with
  | none =>
      rw [hAct] at h
      cases h
  | some out =>
      rcases out with ⟨r, R₁⟩
      rw [hAct] at h
      cases r with
      | ok a => exact .inl ⟨a, R₁, rfl, h⟩
      | error stop =>
          have hEnd := Option.some.inj h
          cases hEnd
          exact .inr ⟨stop, rfl, rfl⟩

theorem bind_ok
    {act : Direct ν α}
    {f : α → Direct ν β}
    {a : α}
    (h : act R = some (.ok a, R')) :
    (act >>= f) R = f a R' := by
  have hBind : (act >>= f) R =
      (act R).bind fun out =>
        ExceptT.bindCont f out.1 out.2 := rfl
  rw [hBind, h]
  rfl

theorem bind_error
    {act : Direct ν α}
    {f : α → Direct ν β}
    {stop : Stop ν}
    (h : act R = some (.error stop, R')) :
    (act >>= f) R = some (.error stop, R') := by
  have hBind : (act >>= f) R =
      (act R).bind fun out =>
        ExceptT.bindCont f out.1 out.2 := rfl
  rw [hBind, h]
  rfl

/- What is thrown is read by the handler. -/
theorem of_tryCatch
    {act : Direct ν α}
    {handler : Stop ν → Direct ν α}
    {o : Except (Stop ν) α}
    (h : (tryCatch act handler) R = some (o, R')) :
    (∃ a, act R = some (.ok a, R') ∧ o = .ok a) ∨
    (∃ stop R₁, act R = some (.error stop, R₁) ∧
      handler stop R₁ = some (o, R')) := by
  change (act R).bind _ = _ at h
  cases hAct : act R with
  | none =>
      rw [hAct] at h
      cases h
  | some out =>
      rcases out with ⟨r, R₁⟩
      rw [hAct] at h
      cases r with
      | ok a =>
          have hEnd := Option.some.inj h
          cases hEnd
          exact .inl ⟨a, rfl, rfl⟩
      | error stop => exact .inr ⟨stop, R₁, rfl, h⟩

theorem tryCatch_ok
    {act : Direct ν α}
    {handler : Stop ν → Direct ν α}
    {a : α}
    (h : act R = some (.ok a, R')) :
    (tryCatch act handler) R = some (.ok a, R') := by
  change (act R).bind _ = _
  rw [h]
  rfl

theorem tryCatch_error
    {act : Direct ν α}
    {handler : Stop ν → Direct ν α}
    {stop : Stop ν}
    (h : act R = some (.error stop, R')) :
    (tryCatch act handler) R = handler stop R' := by
  change (act R).bind _ = _
  rw [h]
  rfl

/- Leaving a value unused changes no reading otherwise. -/
theorem of_discard
    {act : Direct ν α}
    {o : Except (Stop ν) PUnit}
    (h : discard act R = some (o, R')) :
    ∃ r, act R = some (r, R') ∧ o = r.map fun _ => ⟨⟩ := by
  have hBind :
      (act >>= fun _ => (return ⟨⟩ : Direct ν PUnit)) R =
        some (o, R') := h
  rcases of_bind hBind with
    ⟨a, R₁, hAct, hEnd⟩ | ⟨stop, hAct, rfl⟩
  · have hSame := Option.some.inj hEnd
    cases hSame
    exact ⟨.ok a, hAct, rfl⟩
  · exact ⟨.error stop, hAct, rfl⟩

/- A first part whose value is left unused, and what follows. -/
theorem of_discard_bind
    {act : Direct ν α}
    {next : Direct ν β}
    {o : Except (Stop ν) β}
    (h : (discard act >>= fun _ => next) R = some (o, R')) :
    (∃ a R₁, act R = some (.ok a, R₁) ∧
      next R₁ = some (o, R')) ∨
    (∃ stop, act R = some (.error stop, R') ∧
      o = .error stop) := by
  rcases of_bind h with
    ⟨u, R₁, hFirst, hNext⟩ | ⟨stop, hFirst, hEnd⟩
  · rcases of_discard hFirst with ⟨r, hAct, hSame⟩
    cases r with
    | ok a => exact .inl ⟨a, R₁, hAct, hNext⟩
    | error e => cases hSame
  · rcases of_discard hFirst with ⟨r, hAct, hSame⟩
    cases r with
    | ok a => cases hSame
    | error stop' =>
        cases hSame
        exact .inr ⟨stop, hAct, hEnd⟩

/- What steps is what it is, and gives nothing but a step. -/
theorem of_stepping
    {act : Direct ν Value}
    {o : Except (Stop ν) Value}
    (h : stepping act R = some (o, R')) :
    act R = some (o, R') ∧ Stepped o := by
  unfold stepping at h
  split at h
  · cases h
  · rename_i out hNot
    refine ⟨h, ?_⟩
    rintro v rfl
    exact hNot v R' h

/- Code under a label ends by itself, and then lands. -/
theorem of_land
    {act : Direct ν Value}
    {o : Except (Stop ν) Value}
    (h : land act R = some (o, R')) :
    ∃ o₁, act R = some (o₁, R') ∧ o = landed o₁ := by
  unfold land at h
  rcases Option.map_eq_some_iff.mp h with ⟨out, hAct, hEnd⟩
  cases hEnd
  exact ⟨out.1, hAct, rfl⟩

theorem stepping_eq
    {act : Direct ν Value}
    {o : Except (Stop ν) Value}
    (h : act R = some (o, R'))
    (hStepped : Stepped o) :
    stepping act R = some (o, R') := by
  unfold stepping
  rw [h]
  split
  · rename_i hGiven
    cases hGiven
    exact (hStepped _ rfl).elim
  · rfl

theorem land_eq
    {act : Direct ν Value}
    {o : Except (Stop ν) Value}
    (h : act R = some (o, R')) :
    land act R = some (landed o, R') := by
  unfold land
  rw [h]
  rfl

/- What has landed gives nothing but a step. -/
theorem stepped_landed
    (o : Except (Stop ν) Value) :
    Stepped (landed o) := by
  intro v h
  unfold landed at h
  split at h
  · cases h
  · rename_i hNot
    exact hNot v h

theorem landed_eq
    {o : Except (Stop ν) Value}
    (h : Stepped o) :
    landed o = o := by
  unfold landed
  split
  · exact (h _ rfl).elim
  · rfl

@[simp] theorem landed_landed
    (o : Except (Stop ν) Value) :
    landed (landed o) = landed o :=
  landed_eq (stepped_landed o)

/- A value is not given where a step ought to be. -/
theorem stepped_ok
    (v : Value) :
    Stepped (.ok v : Except (Stop ν) Value) := by
  intro w hSame
  cases hSame

/- What is awaited gives no step, but a value. -/
theorem stepped_result
    (x : ν)
    (fate : Fate) :
    Stepped (fate.result x) := by
  intro v h
  match fate with
  | .known (.fulfilled w) => cases h
  | .known (.rejected e) => cases h
  | .defect => cases h
  | .never => cases h

/- What passes a handler, and what it handles. -/
theorem of_handle
    {body : Direct ν Value}
    {handler : Value → Direct ν Value}
    {o : Except (Stop ν) Value}
    (h : handle body handler R = some (o, R')) :
    (∃ v, body R = some (.ok v, R') ∧ o = .ok v) ∨
    (∃ stop, body R = some (.error stop, R') ∧
      stop.handled? = none ∧ o = .error stop) ∨
    (∃ e R₁, body R = some (.error (.thrown e), R₁) ∧
      e.isDefect = false ∧
      handler e R₁ = some (o, R')) := by
  rcases of_tryCatch h with
    ⟨v, hBody, rfl⟩ | ⟨stop, R₁, hBody, hCatch⟩
  · exact .inl ⟨v, hBody, rfl⟩
  · cases hHandled : stop.handled? with
    | none =>
        rw [hHandled] at hCatch
        have hEnd := Option.some.inj hCatch
        cases hEnd
        exact .inr (.inl ⟨stop, hBody, hHandled, rfl⟩)
    | some e =>
        rw [hHandled] at hCatch
        cases stop with
        | thrown e' =>
            simp only [Stop.handled?] at hHandled
            split at hHandled
            · cases hHandled
            · rename_i hOrdinary
              cases hHandled
              exact .inr (.inr ⟨e, R₁, hBody,
                Bool.eq_false_iff.mpr hOrdinary, hCatch⟩)
        | _ => cases hHandled

/-
  How what was protected ends, from how it ended by itself
  and how its compensation did.
-/
def leaving
    (o r : Except (Stop ν) Value) : Except (Stop ν) Value :=
  match r with
  | .ok _ => o
  | .error stop => .error stop

/-
  However the body ends, the compensation follows it, unless
  the body never ends.
-/
theorem of_protect
    {body compensation : Direct ν Value}
    {o : Except (Stop ν) Value}
    (h : protect body compensation R = some (o, R')) :
    (∃ x, body R = some (.error (.stuck x), R') ∧
      o = .error (.stuck x)) ∨
    (∃ o₁ R₁ r, body R = some (o₁, R₁) ∧
      (∀ x, o₁ ≠ .error (.stuck x)) ∧
      compensation R₁ = some (r, R') ∧ o = leaving o₁ r) := by
  rcases of_bind h with
    ⟨v, R₁, hBody, hAfter⟩ | ⟨stop, hBody, rfl⟩
  · rcases of_tryCatch hBody with
      ⟨a, hBody, hSame⟩ | ⟨stop, R₂, _, hCatch⟩
    · cases hSame
      rcases of_discard_bind hAfter with
        ⟨w, R₂, hComp, hEnd⟩ | ⟨stop, hComp, rfl⟩
      · have hLast := Option.some.inj hEnd
        cases hLast
        exact .inr ⟨.ok v, R₁, .ok w, hBody, nofun, hComp, rfl⟩
      · exact .inr ⟨.ok v, R₁, .error stop, hBody, nofun,
          hComp, rfl⟩
    -- What is thrown is thrown again: no value comes out of it.
    · split at hCatch
      · cases hCatch
      · rcases of_bind hCatch with
          ⟨u, R₃, _, hEnd⟩ | ⟨stop', _, hSame⟩
        · have hLast := Option.some.inj hEnd
          cases hLast
        · cases hSame
  · rcases of_tryCatch hBody with
      ⟨a, _, hSame⟩ | ⟨stop', R₁, hBody, hCatch⟩
    · cases hSame
    · split at hCatch
      · rename_i hStuck
        have hEnd := Option.some.inj hCatch
        cases hEnd
        cases stop with
        | stuck x => exact .inl ⟨x, hBody, rfl⟩
        | _ => cases hStuck
      · rename_i hStuck
        have hEnds : ∀ x,
            (.error stop' : Except (Stop ν) Value) ≠
              .error (.stuck x) := by
          intro x hSame
          cases hSame
          exact hStuck rfl
        rcases of_discard_bind hCatch with
          ⟨w, R₂, hComp, hEnd⟩ | ⟨stop'', hComp, hSame⟩
        · have hLast := Option.some.inj hEnd
          cases hLast
          exact .inr ⟨_, R₁, .ok w, hBody, hEnds, hComp, rfl⟩
        · cases hSame
          exact .inr ⟨_, R₁, .error stop, hBody, hEnds, hComp,
            rfl⟩

/- A future that is awaited has a fate. -/
theorem of_await
    {O : Outlook ν}
    {x : ν}
    {o : Except (Stop ν) Value}
    (h : await O x R = some (o, R')) :
    ∃ fate, O.fates x = some fate ∧
      o = fate.result x ∧ R' = R.awaiting x := by
  unfold await at h
  cases hFate : O.fates x with
  | none =>
      rw [hFate] at h
      cases h
  | some fate =>
      rw [hFate] at h
      cases h
      exact ⟨fate, rfl, rfl, rfl⟩

theorem await_eq
    {O : Outlook ν}
    {x : ν}
    {fate : Fate}
    (h : O.fates x = some fate) :
    await O x R = some (fate.result x, R.awaiting x) := by
  unfold await
  rw [h]
  rfl

/- A deed that is done has an answer. -/
theorem of_deed
    {O : Outlook ν}
    {deed : Deed}
    {o : Except (Stop ν) Value}
    (h : deed.direct O R = some (o, R')) :
    ∃ v memory, deed.apply O.own R.memory = some (v, memory) ∧
      o = .ok v ∧ R' = { R with memory := memory } := by
  unfold Deed.direct at h
  cases hApply : deed.apply O.own R.memory with
  | none =>
      rw [hApply] at h
      cases h
  | some out =>
      rw [hApply] at h
      cases h
      exact ⟨out.1, out.2, rfl, rfl, rfl⟩

/- A breach that is read is one. -/
theorem of_breach
    {O : Outlook ν}
    {b : Breach ν}
    {o : Except (Stop ν) Value}
    (h : b.direct O R = some (o, R')) :
    b.Applies O ∧ o = .error (.breached b) ∧ R' = R := by
  unfold Breach.direct at h
  split at h
  · rename_i hApplies
    have hEnd := Option.some.inj h
    cases hEnd
    exact ⟨hApplies, rfl, rfl⟩
  · cases h

theorem breach_eq
    {O : Outlook ν}
    {b : Breach ν}
    (h : b.Applies O) :
    b.direct O R = some (.error (.breached b), R) := by
  unfold Breach.direct
  rw [if_pos h]
  rfl

/- What an effect throws is some value. -/
theorem of_effect
    {O : Outlook ν}
    {effect : Effect}
    {o : Except (Stop ν) Value}
    (h : effect.direct O R = some (o, R')) :
    (∃ v, o = .ok v) ∨ ∃ e, o = .error (.thrown e) := by
  induction effect generalizing R with
  | done v =>
      have hEnd := Option.some.inj h
      cases hEnd
      exact .inl ⟨v, rfl⟩
  | fail e =>
      have hEnd := Option.some.inj h
      cases hEnd
      exact .inr ⟨e, rfl⟩
  | act deed k ih =>
      rcases of_bind h with
        ⟨v, R₁, _, hRest⟩ | ⟨stop, hDeed, _⟩
      · exact ih v hRest
      · rcases of_deed hDeed with ⟨_, _, _, hSame, _⟩
        cases hSame

/- Rounds give nothing but steps. -/
theorem stepped_each
    {body : Value → Direct ν Value}
    {items : List Value}
    {o : Except (Stop ν) Value}
    (h : each body items R = some (o, R')) :
    Stepped o := by
  induction items generalizing R with
  | nil =>
      have hEnd := Option.some.inj h
      cases hEnd
      nofun
  | cons v items ih =>
      rcases of_discard_bind h with
        ⟨w, R₁, _, hRest⟩ | ⟨stop, hFirst, rfl⟩
      · exact ih hRest
      · intro w hSame
        cases hSame
        exact (of_stepping hFirst).2 w rfl

theorem stepped_while
    {O : Outlook ν}
    {condition : Effect}
    {body : Routine ν}
    {n : Nat}
    {o : Except (Stop ν) Value}
    (h : (Routine.whileLoop condition body).direct O n R =
      some (o, R')) :
    Stepped o := by
  induction n generalizing R with
  | zero => cases h
  | succ n ih =>
      rcases of_bind h with
        ⟨v, R₁, _, hRest⟩ | ⟨stop, hCondition, rfl⟩
      · by_cases hTrue : v.truthy = true
        · rw [if_pos hTrue] at hRest
          rcases of_discard_bind hRest with
            ⟨w, R₂, _, hNext⟩ | ⟨stop, hFirst, rfl⟩
          · exact ih hNext
          · intro w hSame
            cases hSame
            exact (of_stepping hFirst).2 w rfl
        · rw [if_neg hTrue] at hRest
          have hEnd := Option.some.inj hRest
          cases hEnd
          nofun
      · rcases of_effect hCondition with ⟨v, hSame⟩ | ⟨e, hSame⟩
        · cases hSame
        · cases hSame
          nofun

end Direct

end Resumption

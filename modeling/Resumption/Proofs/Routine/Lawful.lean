import Resumption.Proofs.Routine.Reading

/-
  What readings are stopped with.

  Any reading may be stopped by a value that is thrown, and
  where a future never settles or is rejected with a defect
  of the library's own.  That of a routine which breaches
  nothing, and gives steps where it ought to, is stopped by
  nothing else.

  Main declarations:
    * `Routine.Lawful`
    * `Direct.Only`, `Routine.only`
    * `Direct.Plain`, `Routine.Lawful.plain`
-/

namespace Resumption

variable {ν α β : Type}

/- The routine breaches nothing and gives steps alone. -/
def Routine.Lawful : Routine ν → Prop
  | .ret _ => True
  | .fail _ => True
  | .breach _ => False
  | .give _ _ => False
  | .act _ k => ∀ v, (k v).Lawful
  | .await _ rest => ∀ v, (rest v).Lawful
  | .handOff _ => True
  | .combine first rest => first.Lawful ∧ rest.Lawful
  | .whileLoop _ body => body.Lawful
  | .forLoop _ body => ∀ v, (body v).Lawful
  | .tryWith body handler =>
      body.Lawful ∧ ∀ e, (handler e).Lawful
  | .tryFinally body _ => body.Lawful
  | .using _ body => ∀ v, (body v).Lawful

/- No future is rejected with a defect of the library's own. -/
def Outlook.Clean (O : Outlook ν) : Prop :=
  ∀ x, O.fates x ≠ some .defect

------------------------------------------------------------
-- Stops
------------------------------------------------------------

/- What any reading may be stopped with has the property. -/
structure Outlook.Stops
    (O : Outlook ν)
    (P : Stop ν → Prop) : Prop where
  thrown : ∀ e, P (.thrown e)
  broken : ∀ x, O.fates x = some .defect → P (.broken x)
  stuck : ∀ x, O.fates x = some .never → P (.stuck x)
  landed : ∀ v, P (.given v) → P (.malformed v)

namespace Direct

variable {O : Outlook ν}
variable {P : Stop ν → Prop}

/- Code that is stopped with nothing else. -/
def Only
    (P : Stop ν → Prop)
    (act : Direct ν α) : Prop :=
  ∀ R stop R', act R = some (.error stop, R') → P stop

namespace Only

theorem pure
    (a : α) :
    Only P (return a : Direct ν α) := by
  intro R stop R' h
  cases Option.some.inj h

theorem throw
    {stop : Stop ν}
    (hStop : P stop) :
    Only P (MonadExcept.throw stop : Direct ν α) := by
  intro R stop' R' h
  have hEnd := Option.some.inj h
  cases hEnd
  exact hStop

theorem unread : Only P (Direct.unread : Direct ν α) := by
  intro R stop R' h
  cases h

theorem bind
    {act : Direct ν α}
    {f : α → Direct ν β}
    (h : Only P act)
    (hNext : ∀ a, Only P (f a)) :
    Only P (act >>= f) := by
  intro R stop R' hRead
  rcases of_bind hRead with
    ⟨a, R₁, _, hRest⟩ | ⟨stop', hAct, hSame⟩
  · exact hNext a _ _ _ hRest
  · cases hSame
    exact h _ _ _ hAct

theorem discard
    {act : Direct ν α}
    (h : Only P act) :
    Only P (Functor.discard act) :=
  h.bind fun _ => .pure _

theorem tryCatch
    {act : Direct ν α}
    {handler : Stop ν → Direct ν α}
    (h : Only P act)
    (hHandler : ∀ stop, P stop → Only P (handler stop)) :
    Only P (MonadExcept.tryCatch act handler) := by
  intro R stop R' hRead
  rcases of_tryCatch hRead with
    ⟨a, _, hSame⟩ | ⟨stop', R₁, hAct, hRest⟩
  · cases hSame
  · exact hHandler stop' (h _ _ _ hAct) _ _ _ hRest

theorem stepping
    {act : Direct ν Value}
    (h : Only P act) :
    Only P (Direct.stepping act) := by
  intro R stop R' hRead
  exact h _ _ _ (of_stepping hRead).1

theorem land
    {act : Direct ν Value}
    (hLanded : ∀ v, P (.given v) → P (.malformed v))
    (h : Only P act) :
    Only P (Direct.land act) := by
  intro R stop R' hRead
  rcases of_land hRead with ⟨o, hAct, hSame⟩
  match o with
  | .ok v => cases hSame
  | .error (.given v) =>
      cases hSame
      exact hLanded v (h _ _ _ hAct)
  | .error (.thrown _) | .error (.breached _)
  | .error (.malformed _) | .error (.broken _)
  | .error (.stuck _) =>
      cases hSame
      exact h _ _ _ hAct

theorem handle
    {body : Direct ν Value}
    {handler : Value → Direct ν Value}
    (h : Only P body)
    (hHandler : ∀ e, Only P (handler e)) :
    Only P (Direct.handle body handler) := by
  refine h.tryCatch fun stop hStop => ?_
  cases stop.handled? with
  | none => exact .throw hStop
  | some e => exact hHandler e

theorem protect
    {body compensation : Direct ν Value}
    (h : Only P body)
    (hCompensation : Only P compensation) :
    Only P (Direct.protect body compensation) := by
  refine (h.tryCatch fun stop hStop => ?_).bind
    fun v => hCompensation.discard.bind fun _ => .pure v
  cases stop.isStuck with
  | true => exact .throw hStop
  | false =>
      exact hCompensation.discard.bind fun _ => .throw hStop

theorem each
    {body : Value → Direct ν Value}
    (h : ∀ v, Only P (body v))
    (items : List Value) :
    Only P (Direct.each body items) := by
  induction items with
  | nil => exact .pure _
  | cons v items ih =>
      exact (h v).stepping.discard.bind fun _ => ih

theorem await
    (hStops : O.Stops P)
    (x : ν) :
    Only P (Direct.await O x) := by
  intro R stop R' h
  rcases of_await h with ⟨fate, hFate, hSame, _⟩
  match fate with
  | .known (.fulfilled v) => cases hSame
  | .known (.rejected e) =>
      cases hSame
      exact hStops.thrown e
  | .defect =>
      cases hSame
      exact hStops.broken x hFate
  | .never =>
      cases hSame
      exact hStops.stuck x hFate

theorem deed
    (deed : Deed) :
    Only P (deed.direct O) := by
  intro R stop R' h
  rcases of_deed h with ⟨_, _, _, hSame, _⟩
  cases hSame

theorem effect
    (hThrown : ∀ e, P (.thrown e))
    (effect : Effect) :
    Only P (effect.direct O) := by
  intro R stop R' h
  rcases of_effect h with ⟨v, hSame⟩ | ⟨e, hSame⟩
  · cases hSame
  · cases hSame
    exact hThrown e

end Only

end Direct

/- What the reading of a routine is stopped with. -/
theorem Routine.only
    {O : Outlook ν}
    {P : Stop ν → Prop}
    {routine : Routine ν}
    (hStops : O.Stops P)
    (h : routine.Lawful ∨
      (∀ b, P (.breached b)) ∧ ∀ v, P (.given v))
    (n : Nat) :
    Direct.Only P (routine.direct O n) := by
  induction n generalizing routine with
  | zero => exact .unread
  | succ n ih =>
      match routine with
      | .ret v => exact .pure v
      | .fail e => exact .throw (hStops.thrown e)
      | .breach b =>
          intro R stop R' hRead
          rcases Direct.of_breach hRead with ⟨_, hSame, _⟩
          cases hSame
          exact (h.resolve_left id).1 b
      | .give v hNot =>
          have hGiven := (h.resolve_left id).2 v
          simp only [Routine.direct]
          split
          · exact .throw hGiven
          · exact .unread
      | .act deed k =>
          exact (Direct.Only.deed deed).bind
            fun v => ih (h.imp_left (· v))
      | .await x rest =>
          exact (Direct.Only.await hStops x).bind
            fun v => ih (h.imp_left (· v))
      | .handOff x => exact .await hStops x
      | .combine first rest =>
          exact (ih (h.imp_left (·.1))).stepping.discard.bind
            fun _ => (ih (h.imp_left (·.2))).land hStops.landed
      | .whileLoop condition body =>
          refine (Direct.Only.effect hStops.thrown
            condition).bind fun v => ?_
          have hBody : body.Lawful ∨ _ := h
          cases v.truthy with
          | true =>
              refine (ih hBody).stepping.discard.bind
                fun _ => ih ?_
              exact h
          | false => exact .pure _
      | .forLoop items body =>
          exact .each (fun v => ih (h.imp_left (· v))) items
      | .tryWith body handler =>
          exact ((ih (h.imp_left (·.1))).handle
            fun e => ih (h.imp_left (·.2 e))).land hStops.landed
      | .tryFinally body compensation =>
          have hBody : body.Lawful ∨ _ := h
          exact ((ih hBody).protect
            (.effect hStops.thrown compensation)).land
              hStops.landed
      | .using resource body =>
          simp only [Routine.direct]
          cases O.release resource with
          | none => exact .unread
          | some release =>
              exact ((ih (h.imp_left (· resource))).protect
                (.effect hStops.thrown release)).land
                  hStops.landed

/- A reading is stuck at a future that never settles. -/
theorem Routine.never_of_stuck
    {O : Outlook ν}
    {routine : Routine ν}
    {n : Nat}
    {R R' : Reading ν}
    {x : ν}
    (hRead : routine.direct O n R = some (.error (.stuck x), R')) :
    O.fates x = some .never := by
  let P : Stop ν → Prop := fun stop =>
    ∀ x, stop = .stuck x → O.fates x = some .never
  have hStops : O.Stops P := by
    refine ⟨nofun, nofun, fun x hNever y hSame => ?_, nofun⟩
    cases hSame
    exact hNever
  exact Routine.only hStops (.inr ⟨nofun, nofun⟩) n _ _ _ hRead
    x rfl

------------------------------------------------------------
-- Plain Ends
------------------------------------------------------------

namespace Direct

variable {O : Outlook ν}

/-
  An end with a value, or with one thrown, or none, at a
  future that never settles.
-/
def Plain
    (O : Outlook ν) : Except (Stop ν) Value → Prop
  | .ok _ => True
  | .error (.thrown _) => True
  | .error (.stuck x) => O.fates x = some .never
  | .error _ => False

/- A plain end is an outcome if all futures settle. -/
theorem Plain.outcome
    {o : Except (Stop ν) Value}
    (h : Plain O o)
    (hSettle : ∀ x, O.fates x ≠ some .never) :
    ∃ outcome, o = Outcome.result outcome := by
  match o with
  | .ok v => exact ⟨.fulfilled v, rfl⟩
  | .error (.thrown e) => exact ⟨.rejected e, rfl⟩
  | .error (.stuck x) => exact (hSettle x h).elim

/- An outcome is a plain end. -/
theorem Plain.result
    (outcome : Outcome) :
    Plain O (Outcome.result outcome) := by
  cases outcome <;> trivial

/- To land changes no plain end. -/
theorem Plain.landed_eq
    {o : Except (Stop ν) Value}
    (h : Plain O o) :
    landed o = o := by
  match o with
  | .ok v => rfl
  | .error (.thrown e) => rfl
  | .error (.stuck x) => rfl

end Direct

/- The reading of a lawful routine comes to a plain end. -/
theorem Routine.Lawful.plain
    {O : Outlook ν}
    {routine : Routine ν}
    {n : Nat}
    {R R' : Reading ν}
    {o : Except (Stop ν) Value}
    (h : routine.Lawful)
    (hClean : O.Clean)
    (hRead : routine.direct O n R = some (o, R')) :
    Direct.Plain O o := by
  let P : Stop ν → Prop := fun stop =>
    Direct.Plain O (.error stop)
  have hStops : O.Stops P := {
    thrown := fun _ => trivial
    broken := fun x hDefect => (hClean x hDefect).elim
    stuck := fun _ hNever => hNever
    landed := fun _ hGiven => hGiven }
  cases o with
  | ok v => trivial
  | error stop =>
      exact Routine.only hStops (.inl h) n _ _ _ hRead

end Resumption

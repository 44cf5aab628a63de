import Resumption.Proofs.Routine.Reading

/-
  One reading compared with another: of a routine like the
  first, and under an outlook that has some futures never
  settle.

  The second reading trails the first.  It comes to the
  same, or it is stuck where it awaits a future that the
  other has settle, and what it has done by then is where
  the other one started from.

  Main declarations:
    * `Outlook.Defers`, `Outlook.Extends`
    * `Routine.Alike`
    * `Direct.Trails`
    * `Routine.Alike.direct_trails`
-/

namespace Resumption

variable {ν α β : Type}

------------------------------------------------------------
-- Deferring
------------------------------------------------------------

/- The same but for some futures, which never settle. -/
structure Outlook.Defers (O O' : Outlook ν) : Prop where
  own : O'.own = O.own
  releases : O'.releases = O.releases
  checks : O'.checks = O.checks
  fates : ∀ x, O'.fates x = O.fates x ∨
    (O.fates x).isSome = true ∧ O'.fates x = some .never

theorem Outlook.Defers.refl (O : Outlook ν) : O.Defers O :=
  ⟨rfl, rfl, rfl, fun _ => .inl rfl⟩

/- What has been awaited so far comes to the same. -/
def Outlook.Agree
    (O O' : Outlook ν)
    (R : Reading ν) : Prop :=
  ∀ x ∈ R.awaited, O'.fates x = O.fates x

/-
  A reading went on: nothing was taken back, and what was
  awaited has a fate.
-/
structure Outlook.Extends
    (O : Outlook ν)
    (R R' : Reading ν) : Prop where
  log : R.memory.log <+: R'.memory.log
  awaited : R.awaited <:+ R'.awaited
  fated : ∀ x ∈ R'.awaited,
    x ∈ R.awaited ∨ (O.fates x).isSome = true

namespace Outlook.Extends

variable {O : Outlook ν}
variable {R R₁ R' : Reading ν}

theorem refl
    (O : Outlook ν)
    (R : Reading ν) :
    O.Extends R R where
  log := List.prefix_rfl
  awaited := List.suffix_rfl
  fated _ hx := .inl hx

theorem trans
    (h : O.Extends R R₁)
    (h' : O.Extends R₁ R') :
    O.Extends R R' where
  log := h.log.trans h'.log
  awaited := h.awaited.trans h'.awaited
  fated x hx := by
    rcases h'.fated x hx with hx | hFate
    · exact h.fated x hx
    · exact .inr hFate

/- What was awaited stays awaited. -/
theorem mem
    (h : O.Extends R R')
    {x : ν}
    (hx : x ∈ R.awaited) :
    x ∈ R'.awaited :=
  h.awaited.subset hx

end Outlook.Extends

------------------------------------------------------------
-- Trailing
------------------------------------------------------------

namespace Direct

/-
  What code comes to of which other code came to an end with
  a reading.
-/
inductive Comes
    (O O' : Outlook ν)
    (act : Direct ν α)
    (R : Reading ν)
    (o : Except (Stop ν) α)
    (R' : Reading ν) : Prop where
  | same
      (h : act R = some (o, R'))
      (hAgree : O.Agree O' R')
  | stuck
      {x R₁}
      (h : act R = some (.error (.stuck x), R₁))
      (hExtends : O.Extends R₁ R')
      (hAwaited : x ∈ R'.awaited)
      (hDeferred : O'.fates x ≠ O.fates x)

/-
  Code takes nothing back, and other code comes to the same
  or is stuck before.
-/
def Trails
    (O O' : Outlook ν)
    (act act' : Direct ν α) : Prop :=
  ∀ R o R', act R = some (o, R') →
    O.Extends R R' ∧ (O.Agree O' R → Comes O O' act' R o R')

namespace Trails

variable {O O' : Outlook ν}

theorem pure
    (a : α) :
    Trails O O' (return a) (return a) := by
  intro R o R' h
  have hEnd := Option.some.inj h
  cases hEnd
  exact ⟨.refl O R, .same rfl⟩

theorem throw
    (stop : Stop ν) :
    Trails O O' (MonadExcept.throw stop : Direct ν α)
      (MonadExcept.throw stop) := by
  intro R o R' h
  have hEnd := Option.some.inj h
  cases hEnd
  exact ⟨.refl O R, .same rfl⟩

theorem unread
    (act : Direct ν α) :
    Trails O O' Direct.unread act := by
  intro R o R' h
  cases h

theorem bind
    {act act' : Direct ν α}
    {f f' : α → Direct ν β}
    (h : Trails O O' act act')
    (hNext : ∀ a, Trails O O' (f a) (f' a)) :
    Trails O O' (act >>= f) (act' >>= f') := by
  intro R o R' hRead
  rcases of_bind hRead with
    ⟨a, R₁, hAct, hRest⟩ | ⟨stop, hAct, rfl⟩
  · rcases h _ _ _ hAct with ⟨hExtends, hComes⟩
    rcases hNext a _ _ _ hRest with ⟨hExtends', hComes'⟩
    refine ⟨hExtends.trans hExtends', fun hAgree => ?_⟩
    cases hComes hAgree with
    | same hSame hAgree₁ =>
        cases hComes' hAgree₁ with
        | same hEnd hAgree' =>
            exact .same ((bind_ok hSame).trans hEnd) hAgree'
        | stuck hStuck hBefore hAwaited hDeferred =>
            exact .stuck ((bind_ok hSame).trans hStuck) hBefore
              hAwaited hDeferred
    | stuck hStuck hBefore hAwaited hDeferred =>
        exact .stuck (bind_error hStuck) (hBefore.trans hExtends')
          (hExtends'.mem hAwaited) hDeferred
  · rcases h _ _ _ hAct with ⟨hExtends, hComes⟩
    refine ⟨hExtends, fun hAgree => ?_⟩
    cases hComes hAgree with
    | same hSame hAgree₁ => exact .same (bind_error hSame) hAgree₁
    | stuck hStuck hBefore hAwaited hDeferred =>
        exact .stuck (bind_error hStuck) hBefore hAwaited
          hDeferred

theorem discard
    {act act' : Direct ν α}
    (h : Trails O O' act act') :
    Trails O O' (Functor.discard act)
      (Functor.discard act') :=
  h.bind fun _ => .pure _

/- A handler hands on what is stuck. -/
theorem tryCatch
    {act act' : Direct ν α}
    {handler handler' : Stop ν → Direct ν α}
    (h : Trails O O' act act')
    (hHandler : ∀ stop,
      Trails O O' (handler stop) (handler' stop))
    (hStuck : ∀ x R, handler' (.stuck x) R =
      some (.error (.stuck x), R)) :
    Trails O O' (MonadExcept.tryCatch act handler)
      (MonadExcept.tryCatch act' handler') := by
  intro R o R' hRead
  rcases of_tryCatch hRead with
    ⟨a, hAct, rfl⟩ | ⟨stop, R₁, hAct, hRest⟩
  · rcases h _ _ _ hAct with ⟨hExtends, hComes⟩
    refine ⟨hExtends, fun hAgree => ?_⟩
    cases hComes hAgree with
    | same hSame hAgree₁ => exact .same (tryCatch_ok hSame) hAgree₁
    | stuck hEnd hBefore hAwaited hDeferred =>
        exact .stuck
          ((tryCatch_error hEnd).trans (hStuck _ _)) hBefore
          hAwaited hDeferred
  · rcases h _ _ _ hAct with ⟨hExtends, hComes⟩
    rcases hHandler stop _ _ _ hRest with ⟨hExtends', hComes'⟩
    refine ⟨hExtends.trans hExtends', fun hAgree => ?_⟩
    cases hComes hAgree with
    | same hSame hAgree₁ =>
        cases hComes' hAgree₁ with
        | same hEnd hAgree' =>
            exact .same ((tryCatch_error hSame).trans hEnd) hAgree'
        | stuck hEnd hBefore hAwaited hDeferred =>
            exact .stuck ((tryCatch_error hSame).trans hEnd)
              hBefore hAwaited hDeferred
    | stuck hEnd hBefore hAwaited hDeferred =>
        exact .stuck
          ((tryCatch_error hEnd).trans (hStuck _ _))
          (hBefore.trans hExtends') (hExtends'.mem hAwaited)
          hDeferred

/- How code ended is looked at; what is stuck stays so. -/
theorem stepping
    {act act' : Direct ν Value}
    (h : Trails O O' act act') :
    Trails O O' (Direct.stepping act)
      (Direct.stepping act') := by
  intro R o R' hRead
  rcases of_stepping hRead with ⟨hAct, hStepped⟩
  rcases h _ _ _ hAct with ⟨hExtends, hComes⟩
  refine ⟨hExtends, fun hAgree => ?_⟩
  cases hComes hAgree with
  | same hSame hAgree₁ =>
      exact .same (stepping_eq hSame hStepped) hAgree₁
  | stuck hStuck hBefore hAwaited hDeferred =>
      exact .stuck (stepping_eq hStuck nofun) hBefore hAwaited
        hDeferred

theorem land
    {act act' : Direct ν Value}
    (h : Trails O O' act act') :
    Trails O O' (Direct.land act) (Direct.land act') := by
  intro R o R' hRead
  rcases of_land hRead with ⟨o₁, hAct, rfl⟩
  rcases h _ _ _ hAct with ⟨hExtends, hComes⟩
  refine ⟨hExtends, fun hAgree => ?_⟩
  cases hComes hAgree with
  | same hSame hAgree₁ => exact .same (land_eq hSame) hAgree₁
  | stuck hStuck hBefore hAwaited hDeferred =>
      exact .stuck (land_eq hStuck) hBefore hAwaited hDeferred

theorem handle
    {body body' : Direct ν Value}
    {handler handler' : Value → Direct ν Value}
    (h : Trails O O' body body')
    (hHandler : ∀ e, Trails O O' (handler e) (handler' e)) :
    Trails O O' (Direct.handle body handler)
      (Direct.handle body' handler') := by
  refine h.tryCatch (fun stop => ?_) fun _ _ => rfl
  cases stop.handled? with
  | none => exact .throw stop
  | some e => exact hHandler e

theorem protect
    {body body' compensation compensation' : Direct ν Value}
    (h : Trails O O' body body')
    (hCompensation : Trails O O' compensation compensation') :
    Trails O O' (Direct.protect body compensation)
      (Direct.protect body' compensation') := by
  refine (h.tryCatch (fun stop => ?_) fun _ _ => rfl).bind
    fun v => hCompensation.discard.bind fun _ => .pure v
  cases stop.isStuck with
  | true => exact .throw stop
  | false =>
      exact hCompensation.discard.bind fun _ => .throw stop

theorem each
    {body body' : Value → Direct ν Value}
    (h : ∀ v, Trails O O' (body v) (body' v))
    (items : List Value) :
    Trails O O' (Direct.each body items)
      (Direct.each body' items) := by
  induction items with
  | nil => exact .pure _
  | cons v items ih =>
      exact (h v).stepping.discard.bind fun _ => ih

/- An await may be stuck that the other is not. -/
theorem await
    (hDefers : O.Defers O')
    (x : ν) :
    Trails O O' (Direct.await O x) (Direct.await O' x) := by
  intro R o R' h
  rcases of_await h with ⟨fate, hFate, rfl, rfl⟩
  have hExtends : O.Extends R (R.awaiting x) := by
    refine ⟨List.prefix_rfl, List.suffix_cons x R.awaited,
      fun y hy => ?_⟩
    rcases List.mem_cons.mp hy with rfl | hy
    · exact .inr (Option.isSome_iff_exists.mpr ⟨fate, hFate⟩)
    · exact .inl hy
  refine ⟨hExtends, fun hAgree => ?_⟩
  by_cases hSame : O'.fates x = O.fates x
  · refine .same (await_eq (hSame.trans hFate)) ?_
    intro y hy
    rcases List.mem_cons.mp hy with rfl | hy
    · exact hSame
    · exact hAgree y hy
  · have hNever : O'.fates x = some .never :=
      ((hDefers.fates x).resolve_left hSame).2
    exact .stuck (await_eq hNever) (.refl O _)
      List.mem_cons_self hSame

theorem deed
    (hDefers : O.Defers O')
    (deed : Deed) :
    Trails O O' (deed.direct O) (deed.direct O') := by
  intro R o R' h
  refine ⟨?_, fun hAgree => .same ?_ ?_⟩
  · rcases of_deed h with ⟨v, memory, hApply, _, rfl⟩
    refine ⟨?_, List.suffix_rfl, fun _ hx => .inl hx⟩
    cases deed with
    | log entry =>
        simp only [Deed.apply] at hApply
        split at hApply
        · cases hApply
          exact List.prefix_append _ _
        · cases hApply
    | read name =>
        simp only [Deed.apply] at hApply
        split at hApply
        · cases hApply
          exact List.prefix_rfl
        · cases hApply
    | write name v =>
        simp only [Deed.apply] at hApply
        split at hApply
        · cases hApply
          exact List.prefix_rfl
        · cases hApply
  · simp only [Deed.direct, hDefers.own]
    exact h
  · rcases of_deed h with ⟨_, _, _, _, rfl⟩
    exact hAgree

theorem effect
    (hDefers : O.Defers O')
    (effect : Effect) :
    Trails O O' (effect.direct O) (effect.direct O') := by
  induction effect with
  | done v => exact .pure v
  | fail e => exact .throw _
  | act deed k ih => exact (Trails.deed hDefers deed).bind ih

theorem breach
    (hDefers : O.Defers O')
    (b : Breach ν) :
    Trails O O' (b.direct O) (b.direct O') := by
  intro R o R' h
  rcases of_breach h with ⟨hApplies, rfl, rfl⟩
  refine ⟨.refl O _, .same (breach_eq ?_)⟩
  cases b with
  | malformedStep v hNot => exact hDefers.checks.trans hApplies
  | unsettledResult x =>
      rcases hDefers.fates x with hSame | ⟨_, hNever⟩
      · exact hSame.trans hApplies
      · exact hNever
  | _ => trivial

end Trails

end Direct

------------------------------------------------------------
-- Routines That Are Alike
------------------------------------------------------------

/-
  Routines that differ in nothing but this: where one hands
  off, the other awaits and returns what it was given.
-/
inductive Routine.Alike : Routine ν → Routine ν → Prop where
  | ret (v) :
      Alike (.ret v) (.ret v)
  | fail (e) :
      Alike (.fail e) (.fail e)
  | breach (b) :
      Alike (.breach b) (.breach b)
  | give (v h) :
      Alike (.give v h) (.give v h)
  | act
      {deed k k'}
      (h : ∀ v, Alike (k v) (k' v)) :
      Alike (.act deed k) (.act deed k')
  | await
      {x rest rest'}
      (h : ∀ v, Alike (rest v) (rest' v)) :
      Alike (.await x rest) (.await x rest')
  | handOff (x) :
      Alike (.handOff x) (.handOff x)
  | awaits (x) :
      Alike (.handOff x) (.await x .ret)
  | handsOff (x) :
      Alike (.await x .ret) (.handOff x)
  | combine
      {first first' rest rest'}
      (hFirst : Alike first first')
      (hRest : Alike rest rest') :
      Alike (.combine first rest) (.combine first' rest')
  | whileLoop
      {condition body body'}
      (h : Alike body body') :
      Alike (.whileLoop condition body)
        (.whileLoop condition body')
  | forLoop
      {items body body'}
      (h : ∀ v, Alike (body v) (body' v)) :
      Alike (.forLoop items body) (.forLoop items body')
  | tryWith
      {body body' handler handler'}
      (hBody : Alike body body')
      (hHandler : ∀ e, Alike (handler e) (handler' e)) :
      Alike (.tryWith body handler) (.tryWith body' handler')
  | tryFinally
      {body body' compensation}
      (h : Alike body body') :
      Alike (.tryFinally body compensation)
        (.tryFinally body' compensation)
  | uses
      {resource body body'}
      (h : ∀ v, Alike (body v) (body' v)) :
      Alike (.using resource body) (.using resource body')

namespace Routine.Alike

theorem refl (routine : Routine ν) : routine.Alike routine := by
  induction routine with
  | ret v => exact .ret v
  | fail e => exact .fail e
  | breach b => exact .breach b
  | give v h => exact .give v h
  | act deed k ih => exact .act ih
  | await x rest ih => exact .await ih
  | handOff x => exact .handOff x
  | combine first rest ihFirst ihRest =>
      exact .combine ihFirst ihRest
  | whileLoop condition body ih => exact .whileLoop ih
  | forLoop items body ih => exact .forLoop ih
  | tryWith body handler ihBody ihHandler =>
      exact .tryWith ihBody ihHandler
  | tryFinally body compensation ih => exact .tryFinally ih
  | «using» resource body ih => exact .uses ih

/-
  The reading of a routine is trailed by that of one that is
  like it, read one deeper, with some futures that never
  settle.
-/
theorem direct_trails
    {O O' : Outlook ν}
    {routine routine' : Routine ν}
    (h : routine.Alike routine')
    (hDefers : O.Defers O')
    (n : Nat) :
    Direct.Trails O O' (routine.direct O n)
      (routine'.direct O' (n + 1)) := by
  induction n generalizing routine routine' with
  | zero => exact .unread _
  | succ n ih =>
      cases h with
      | ret v => exact .pure v
      | fail e => exact .throw _
      | breach b => exact .breach hDefers b
      | give v hNot =>
          simp only [Routine.direct, hDefers.checks]
          cases O.checks with
          | true => exact .throw _
          | false => exact .unread _
      | act h =>
          exact (Direct.Trails.deed hDefers _).bind
            fun v => ih (h v)
      | await h =>
          exact (Direct.Trails.await hDefers _).bind
            fun v => ih (h v)
      | handOff x => exact .await hDefers x
      | awaits x =>
          have hTrails : Direct.Trails O O' (Direct.await O x)
              (Direct.await O' x >>= fun v => return v) := by
            rw [bind_pure]
            exact .await hDefers x
          exact hTrails
      | handsOff x =>
          have hTrails : Direct.Trails O O'
              (Direct.await O x >>= fun v =>
                (Routine.ret v).direct O n)
              (Direct.await O' x >>= fun v => return v) := by
            refine (Direct.Trails.await hDefers x).bind fun v => ?_
            cases n with
            | zero => exact .unread _
            | succ n => exact .pure v
          rw [bind_pure] at hTrails
          exact hTrails
      | combine hFirst hRest =>
          exact (ih hFirst).stepping.discard.bind
            fun _ => (ih hRest).land
      | whileLoop h =>
          refine (Direct.Trails.effect hDefers _).bind
            fun v => ?_
          cases v.truthy with
          | true =>
              exact (ih h).stepping.discard.bind
                fun _ => ih (.whileLoop h)
          | false => exact .pure _
      | forLoop h => exact .each (fun v => ih (h v)) _
      | tryWith hBody hHandler =>
          exact ((ih hBody).handle fun e => ih (hHandler e)).land
      | tryFinally h =>
          exact ((ih h).protect (.effect hDefers _)).land
      | @uses resource body body' h =>
          have hRelease : O'.release resource =
              O.release resource := by
            cases resource <;>
              simp only [Outlook.release, hDefers.releases]
          simp only [Routine.direct, hRelease]
          cases O.release resource with
          | none => exact .unread _
          | some release =>
              exact ((ih (h resource)).protect
                (.effect hDefers release)).land

/- A reading is the same for a routine that is like it. -/
theorem direct_eq
    {O : Outlook ν}
    {routine routine' : Routine ν}
    {n : Nat}
    {o : Except (Stop ν) Value}
    {R R' : Reading ν}
    (h : routine.Alike routine')
    (hRead : routine.direct O n R = some (o, R')) :
    routine'.direct O (n + 1) R = some (o, R') := by
  have hTrails := h.direct_trails (.refl O) n
  cases (hTrails R o R' hRead).2 fun _ _ => rfl with
  | same hSame => exact hSame
  | stuck _ _ _ hDeferred => exact (hDeferred rfl).elim

end Routine.Alike

end Resumption

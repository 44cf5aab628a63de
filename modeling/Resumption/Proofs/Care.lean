import Resumption.Proofs.World.Requests

/-
  Careful code: every step is returned, or sequenced, where
  it is made, and nobody else gets hold of it.

  Code either makes no steps, or makes its one step with a
  hub: the machine of its task, or a builder on that.  It
  asks for no labels and jumps to none, and what it hands
  over to be called later makes no steps, unless it is the
  code of a construct or of a task.  All machines check their
  jumps.

  Main declarations:
    * `Care.Leaves`
    * `Care.Leaves.compensated_once`
    * `Program.Careful`
    * `Program.Careful.mono`
-/

namespace Resumption

------------------------------------------------------------
-- What Becomes of Cleanups
------------------------------------------------------------

namespace Care

/-
  What became of a task's cleanups, before its output was
  settled, leaves some of them open, the innermost first.
  Each is entered once, and the innermost is compensated
  first.
-/
inductive Leaves : List Care → List Ref → Prop where
  | nil : Leaves [] []
  | entered
      {care opened i}
      (h : Leaves care opened)
      (hNew : .entered i ∉ care) :
      Leaves (.entered i :: care) (i :: opened)
  | compensated
      {care opened i}
      (h : Leaves care (i :: opened)) :
      Leaves (.compensated i :: care) opened

namespace Leaves

variable {care : List Care}
variable {opened : List Ref}
variable {i : Ref}

/- Whatever is left open was entered. -/
theorem entered_of_mem
    (h : Leaves care opened)
    (hMem : i ∈ opened) :
    .entered i ∈ care := by
  induction h with
  | nil => cases hMem
  | entered _ _ ih =>
      rcases List.mem_cons.mp hMem with rfl | hOld
      · exact List.mem_cons_self
      · exact List.mem_cons_of_mem _ (ih hOld)
  | compensated _ ih =>
      exact List.mem_cons_of_mem _
        (ih (List.mem_cons_of_mem _ hMem))

/- So was whatever is compensated. -/
theorem entered_of_compensated
    (h : Leaves care opened)
    (hMem : .compensated i ∈ care) :
    .entered i ∈ care := by
  induction h with
  | nil => cases hMem
  | entered _ _ ih =>
      rcases List.mem_cons.mp hMem with hSame | hOld
      · cases hSame
      · exact List.mem_cons_of_mem _ (ih hOld)
  | compensated h ih =>
      refine List.mem_cons_of_mem _ ?_
      rcases List.mem_cons.mp hMem with hSame | hOld
      · cases hSame
        exact h.entered_of_mem List.mem_cons_self
      · exact ih hOld

/- Nothing is left open twice. -/
theorem nodup
    (h : Leaves care opened) :
    opened.Nodup := by
  induction h with
  | nil => exact .nil
  | entered h hNew ih =>
      exact List.nodup_cons.mpr
        ⟨fun hMem => hNew (h.entered_of_mem hMem), ih⟩
  | compensated _ ih => exact (List.nodup_cons.mp ih).2

/- What was not entered was not compensated. -/
theorem count_of_not_entered
    (h : Leaves care opened)
    (hNew : .entered i ∉ care) :
    care.count (.compensated i) = 0 :=
  List.count_eq_zero.mpr fun hMem =>
    hNew (h.entered_of_compensated hMem)

/-
  What was entered has been compensated once, unless it is
  left open.
-/
theorem count
    (h : Leaves care opened)
    (hEntered : .entered i ∈ care) :
    care.count (.compensated i) =
      if i ∈ opened then 0 else 1 := by
  induction h with
  | nil => cases hEntered
  | @entered care opened j h hNew ih =>
      by_cases hSame : i = j
      · subst hSame
        simpa using h.count_of_not_entered hNew
      · have hOld : .entered i ∈ care := by
          simpa [hSame] using hEntered
        simpa [hSame] using ih hOld
  | @compensated care opened j h ih =>
      have hOld : .entered i ∈ care := by
        simpa using hEntered
      by_cases hSame : i = j
      · subst hSame
        have hClosed := (List.nodup_cons.mp h.nodup).1
        simpa [hClosed] using ih hOld
      · have hOther : j ≠ i := Ne.symm hSame
        simpa [hSame, hOther] using ih hOld

/- Where nothing is left open, each was compensated once. -/
theorem compensated_once
    (h : Leaves care [])
    (hEntered : .entered i ∈ care) :
    care.count (.compensated i) = 1 := by
  simpa using h.count hEntered

/- The output was not settled meanwhile. -/
theorem not_settled
    (h : Leaves care opened) :
    .settled ∉ care := by
  induction h with
  | nil => exact List.not_mem_nil
  | entered _ _ ih => simpa using ih
  | compensated _ ih => simpa using ih

end Leaves

end Care

------------------------------------------------------------
-- Careful Programs
------------------------------------------------------------

/-
  Careful code that knows some machines, by their number.  It
  makes no steps, or it makes one with a hub.
-/
inductive Program.Careful :
    Option Value → Nat → Program → Prop where
  -- Ends
  | done {n v} : Careful none n (.done v)
  | give
      {hub n v}
      (h : v.isStep = false) :
      Careful (some hub) n (.done v)
  | fail {mode n e} : Careful mode n (.fail e)
  -- Whatever builds nothing
  | ask
      {mode n r k}
      (hPlain : ¬ r.Builds)
      (hCodes : ∀ code ∈ r.codes, ∀ args,
        Careful none n (code args))
      (h : ∀ v, Careful mode n (k v)) :
      Careful mode n (.perform r k)
  | attempt
      {mode n body k}
      (hBody : Careful none n body)
      (h : ∀ outcome, Careful mode n (k outcome)) :
      Careful mode n (.attempt body k)
  -- Machines, builders and tasks
  | newMachine
      {mode n assertions k}
      (hChecks : assertions.isMissing || assertions.truthy)
      (h : ∀ m, n ≤ m →
        Careful mode (m + 1) (k (.machine m))) :
      Careful mode n (.perform (.newMachine assertions) k)
  | newBuilder
      {mode n m captured k}
      (h : ∀ v, Careful mode n (k v)) :
      Careful mode n (.perform (.newBuilder m captured) k)
  | run
      {mode n m code options k}
      (hm : m < n)
      (hCode : ∀ args,
        Careful (some (.machine m)) n (code args))
      (hListener : ∀ listener ∈ options.listener, ∀ args,
        Careful none n (listener args))
      (h : ∀ v, Careful mode n (k v)) :
      Careful mode n (.perform (.run (.machine m) code options) k)
  | task
      {mode n captured assertions code options k}
      (hChecks : assertions.isMissing || assertions.truthy)
      (hCode : ∀ b,
        Careful (some (.builder b)) n (code [.builder b]))
      (hListener : ∀ listener ∈ options.listener, ∀ args,
        Careful none n (listener args))
      (h : ∀ v, Careful mode n (k v)) :
      Careful mode n
        (.perform (.task captured assertions code options) k)
  -- Steps
  | finish {hub n v} :
      Careful (some hub) n
        (.perform (.newStep (.finish v)) .done)
  | handOff {hub n f} :
      Careful (some hub) n
        (.perform (.newStep (.handOff (.future f))) .done)
  | returnFrom {hub n source} :
      Careful (some hub) n
        (.perform (.returnFrom hub source) .done)
  | bind
      {hub n source rest}
      (hRest : ∀ args, Careful (some hub) n (rest args)) :
      Careful (some hub) n
        (.perform (.bind hub source rest) .done)
  | bindDetached
      {hub n source rest}
      (hRest : ∀ args, Careful (some hub) n (rest args)) :
      Careful (some hub) n
        (.perform (.bindDetached hub source rest) .done)
  | awaitResult
      {hub n awaiter rest}
      (hRest : ∀ args, Careful (some hub) n (rest args)) :
      Careful (some hub) n
        (.perform (.awaitResult hub awaiter rest) .done)
  | rescue
      {hub n body k}
      (hBody : Careful (some hub) n body)
      (hPass : ∀ v, k (.ok v) = .done v)
      (h : ∀ e, Careful (some hub) n (k (.error e))) :
      Careful (some hub) n (.attempt body k)
  -- Constructs
  | combine
      {hub n first rest}
      (hFirst : Careful (some hub) n first)
      (hRest : ∀ args, Careful (some hub) n (rest args)) :
      Careful (some hub) n (first.bind fun step =>
        .perform (.sequence hub step rest) .done)
  | whileLoop
      {hub n condition body}
      (hCondition : ∀ args, Careful none n (condition args))
      (hBody : ∀ args, Careful (some hub) n (body args)) :
      Careful (some hub) n
        (.perform (.whileLoop hub condition body) .done)
  | forLoop
      {hub n items body}
      (hBody : ∀ args, Careful (some hub) n (body args)) :
      Careful (some hub) n
        (.perform (.forLoop hub items body) .done)
  | tryWith
      {hub n code handler}
      (hCode : ∀ args, Careful (some hub) n (code args))
      (hHandler : ∀ args, Careful (some hub) n (handler args)) :
      Careful (some hub) n
        (.perform (.tryWith hub code handler) .done)
  | tryFinally
      {hub n code compensation}
      (hCode : ∀ args, Careful (some hub) n (code args))
      (hCompensation : ∀ args,
        Careful none n (compensation args)) :
      Careful (some hub) n
        (.perform (.tryFinally hub code compensation) .done)
  | using
      {hub n resource body}
      (hBody : ∀ args, Careful (some hub) n (body args)) :
      Careful (some hub) n
        (.perform (.using hub resource body) .done)

/- Careful code is careful where there are more machines. -/
theorem Program.Careful.mono
    {mode : Option Value}
    {n n' : Nat}
    {p : Program}
    (h : p.Careful mode n)
    (hLe : n ≤ n') :
    p.Careful mode n' := by
  induction h generalizing n' with
  | done => exact .done
  | give h => exact .give h
  | fail => exact .fail
  | ask hPlain _ _ ihCodes ih =>
      exact .ask hPlain
        (fun code hCode args => ihCodes code hCode args hLe)
        fun v => ih v hLe
  | attempt _ _ ihBody ih =>
      exact .attempt (ihBody hLe) fun o => ih o hLe
  | newMachine hChecks h _ =>
      exact .newMachine hChecks fun m hm =>
        h m (Nat.le_trans hLe hm)
  | newBuilder _ ih => exact .newBuilder fun v => ih v hLe
  | run hm _ _ _ ihCode ihListener ih =>
      exact .run (Nat.lt_of_lt_of_le hm hLe)
        (fun args => ihCode args hLe)
        (fun l hl args => ihListener l hl args hLe)
        fun v => ih v hLe
  | task hChecks _ _ _ ihCode ihListener ih =>
      exact .task hChecks (fun b => ihCode b hLe)
        (fun l hl args => ihListener l hl args hLe)
        fun v => ih v hLe
  | finish => exact .finish
  | handOff => exact .handOff
  | returnFrom => exact .returnFrom
  | bind _ ih => exact .bind fun args => ih args hLe
  | bindDetached _ ih =>
      exact .bindDetached fun args => ih args hLe
  | awaitResult _ ih =>
      exact .awaitResult fun args => ih args hLe
  | rescue _ hPass _ ihBody ih =>
      exact .rescue (ihBody hLe) hPass fun e => ih e hLe
  | combine _ _ ihFirst ihRest =>
      exact .combine (ihFirst hLe) fun args => ihRest args hLe
  | whileLoop _ _ ihCondition ihBody =>
      exact .whileLoop (fun args => ihCondition args hLe)
        fun args => ihBody args hLe
  | forLoop _ ih => exact .forLoop fun args => ih args hLe
  | tryWith _ _ ihCode ihHandler =>
      exact .tryWith (fun args => ihCode args hLe)
        fun args => ihHandler args hLe
  | tryFinally _ _ ihCode ihCompensation =>
      exact .tryFinally (fun args => ihCode args hLe)
        fun args => ihCompensation args hLe
  | «using» _ ih => exact .using fun args => ih args hLe

end Resumption

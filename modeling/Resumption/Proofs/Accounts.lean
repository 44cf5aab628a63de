import Resumption.Proofs.Routine

/-
  Accounts: what a routine is charged for, as it goes on.

  A routine is charged for the labels that are allocated on
  its machine, for each source that it binds, for each that
  its steps wait for, and for each result that it reads.  It
  finds what its view shows, and comes to nothing but an end,
  or to a pause from which it is woken by an outcome.

  An account knows nothing of steps, labels or rows.  It says
  what each construct costs, and adds up what was executed.

  Main declarations:
    * `Origin`, `Supply`
    * `Routine.written`, `Routine.Apt`
    * `View`, `Waking`, `Charge`, `Report`
    * `Account`
    * `Routine.account`
-/

namespace Resumption

------------------------------------------------------------
-- Origins
------------------------------------------------------------

/-
  What is awaited through a future of its own: an object that
  is no awaitable, such as a promise.
-/
structure Value.Foreign (v : Value) : Prop where
  object : v.isObject = true
  future : ∀ f, v ≠ .future f
  awaitable : ∀ a, v ≠ .awaitable a
  method : v.method? "getAwaiter" = none

/- An awaiter that is client code, by what it does when asked. -/
def Reporter.ofEffects
    (completed result : Effect)
    (register : Closure) : Reporter where
  completed := .client fun _ => completed.code
  result := .client fun _ => result.code
  register := register

/-
  What a name stands for: a future, a variant of a future
  with a context rule of its own, an awaitable that completes
  on demand, by a row and by the future behind it, one whose
  awaiters are client code, by what that does when asked, or
  something foreign.
-/
inductive Origin where
  | future (f : Ref)
  | configured (a f : Ref) (captured : Bool)
  | controlled (a c f : Ref)
  | custom
      (a : Ref)
      (completed result : Effect)
      (register : Closure)
  | foreign (v : Value) (h : v.Foreign)

namespace Origin

/- The value that client code has. -/
def value : Origin → Value
  | .future f => .future f
  | .configured a _ _ => .awaitable a
  | .controlled a _ _ => .awaitable a
  | .custom a _ _ _ => .awaitable a
  | .foreign v _ => v

/- The future behind it; what is foreign gets a new one. -/
def behind? : Origin → Option Ref
  | .future f => some f
  | .configured _ f _ => some f
  | .controlled _ _ f => some f
  | .custom _ _ _ _ => none
  | .foreign _ _ => none

/- The row of an awaitable that completes on demand. -/
def probe? : Origin → Option Ref
  | .controlled _ c _ => some c
  | _ => none

/- What client code does when asked, if it is what is awaited. -/
def custom? : Origin → Option (Effect × Effect)
  | .custom _ completed result _ => some (completed, result)
  | _ => none

end Origin

/-
  What a routine's code is run with: what its names stand
  for, and which of them are bound detached on the machine
  itself; how each resource is released; and a machine, with
  a builder on it if it is written with one.
-/
structure Supply (ν : Type) where
  origin : ν → Origin
  detached : ν → Bool
  releases : Ref → Option Effect
  machine : Ref
  builder : Option Ref

namespace Supply

variable {ν : Type}
variable (S : Supply ν)

/- What the constructs are called with. -/
def hub : Value :=
  match S.builder with
  | some b => .builder b
  | none => .machine S.machine

/- The future behind a name, or any. -/
def place (x : ν) : Ref :=
  (S.origin x).behind?.getD 0

/- How a source is bound. -/
def awaiting
    (x : ν)
    (rest : Code) : Request Program :=
  if S.detached x then
    .bindDetached (.machine S.machine) (S.origin x).value rest
  else
    .bind S.hub (S.origin x).value rest

/- How a future is handed off to. -/
def handing (x : ν) : Request Program :=
  match S.builder with
  | some b => .returnFrom (.builder b) (S.origin x).value
  | none => .newStep (.handOff (S.origin x).value)

/- How a resource is released; nothing needs no release. -/
def release : Value → Option Effect
  | .undefined => some (.done .undefined)
  | .null => some (.done .undefined)
  | .resource r => S.releases r
  | _ => none

end Supply

------------------------------------------------------------
-- Code
------------------------------------------------------------

section Code

variable {ν : Type}
variable (S : Supply ν)

/- A routine as client code on a machine. -/
def Routine.written : Routine ν → Program
  | .ret v => .request (.newStep (.finish v))
  | .fail e => .fail e
  | .breach offence => offence.code S.place S.hub
  | .give v _ => .done v
  | .act deed k =>
      .perform deed.request fun v => (k v).written
  | .await x rest =>
      .request (S.awaiting x
        (Code.ofValue fun v => (rest v).written))
  | .handOff x => .request (S.handing x)
  | .combine first rest =>
      first.written.bind fun step =>
        .request (.sequence S.hub step fun _ => rest.written)
  | .whileLoop condition body =>
      .request (.whileLoop S.hub
        (fun _ => condition.code) (fun _ => body.written))
  | .forLoop items body =>
      .perform (.newList items) fun list =>
        .request (.forLoop S.hub list
          (Code.ofValue fun v => (body v).written))
  | .tryWith body handler =>
      .request (.tryWith S.hub (fun _ => body.written)
        (Code.ofValue fun e => (handler e).written))
  | .tryFinally body compensation =>
      .request (.tryFinally S.hub (fun _ => body.written)
        (fun _ => compensation.code))
  | .using resource body =>
      .request (.using S.hub resource
        (Code.ofValue fun v => (body v).written))

/-
  A routine keeps to binds and constructs: it breaches and
  misuses nothing, hands off to futures only, and uses what
  it is known how to release.
-/
def Routine.Apt : Routine ν → Prop
  | .ret _ | .fail _ => True
  | .breach _ | .give _ _ => False
  | .act _ k => ∀ v, (k v).Apt
  | .await _ rest => ∀ v, (rest v).Apt
  | .handOff x => ∃ f, S.origin x = .future f
  | .combine first rest => first.Apt ∧ rest.Apt
  | .whileLoop _ body => body.Apt
  | .forLoop _ body => ∀ v, (body v).Apt
  | .tryWith body handler => body.Apt ∧ ∀ e, (handler e).Apt
  | .tryFinally body _ => body.Apt
  | .using resource body =>
      (S.release resource).isSome = true ∧ (body resource).Apt

end Code

------------------------------------------------------------
-- Views
------------------------------------------------------------

/-
  What a routine finds: the variables, and what each source
  has come to when it is bound, if to anything.
-/
structure View (ν : Type) where
  vars : Fields
  status : ν → Option Outcome

/- What a routine is woken with: an outcome, and a view then. -/
structure Waking (ν : Type) where
  outcome : Outcome
  view : View ν

/- What a deed answers with, and the variables afterwards. -/
def Deed.upon
    (vars : Fields) : Deed → Value × Fields
  | .log _ => (.undefined, vars)
  | .read name => ((vars.lookup name).getD .undefined, vars)
  | .write name v => (v, vars.put name v)

/- How an effect ends, and the variables afterwards. -/
def Effect.upon
    (vars : Fields) : Effect → Except Value Value × Fields
  | .done v => (.ok v, vars)
  | .fail e => (.error e, vars)
  | .act deed k =>
      (k (deed.upon vars).1).upon (deed.upon vars).2

------------------------------------------------------------
-- Charges
------------------------------------------------------------

/-
  What is charged for: labels; the sources bound, those that
  await steps wait for, and those whose result is read after
  they were bound, in order.
-/
structure Charge (ν : Type) where
  labels : Nat
  binds : List ν
  waits : List ν
  reads : List ν

namespace Charge

variable {ν : Type}

/- Nothing is charged for. -/
def none : Charge ν :=
  ⟨0, [], [], []⟩

/- Some labels are charged for. -/
def ofLabels (n : Nat) : Charge ν :=
  ⟨n, [], [], []⟩

/- One charge after another. -/
def plus (c d : Charge ν) : Charge ν :=
  ⟨c.labels + d.labels, c.binds ++ d.binds,
    c.waits ++ d.waits, c.reads ++ d.reads⟩

/- How many await steps there were. -/
def steps (c : Charge ν) : Nat :=
  c.waits.length

theorem plus_assoc (c d e : Charge ν) :
    (c.plus d).plus e = c.plus (d.plus e) := by
  simp only [plus, Nat.add_assoc, List.append_assoc]

@[simp] theorem none_plus (c : Charge ν) :
    none.plus c = c := by
  simp only [plus, none, Nat.zero_add, List.nil_append]

@[simp] theorem plus_none (c : Charge ν) :
    c.plus none = c := by
  simp only [plus, none, Nat.add_zero, List.append_nil]

@[simp] theorem steps_plus (c d : Charge ν) :
    (c.plus d).steps = c.steps + d.steps := by
  simp only [steps, plus, List.length_append]

/- What is bound. -/
def binding (held : List ν) : Charge ν :=
  ⟨0, held, [], []⟩

/- Labels may be charged for together. -/
theorem plus_ofLabels
    (c d : Charge ν)
    (a b : Nat) :
    (c.plus (ofLabels a)).plus (d.plus (ofLabels b)) =
      (c.plus d).plus (ofLabels (a + b)) := by
  simp only [plus, ofLabels, List.append_nil, mk.injEq, and_self,
    and_true]
  exact Nat.add_add_add_comm ..

/- What is read of what was bound. -/
def reading (held : List ν) : Charge ν :=
  ⟨0, [], [], held⟩

/- A label to resume at, and an await step. -/
def pausing (x : ν) : Charge ν :=
  ⟨1, [], [x], []⟩

end Charge

------------------------------------------------------------
-- Reports
------------------------------------------------------------

/-
  How a routine ended, or what it waits for: it finished with
  a value, handed off to a future, threw a value, or paused
  until something completes.
-/
inductive Ending (ν : Type) where
  | finished (v : Value)
  | handed (x : ν)
  | threw (e : Value)
  | paused (x : ν)

/-
  What a routine has come to: how it ended, the view from
  there, the wakings that were left, and what it was charged.
-/
structure Report (ν : Type) where
  ending : Ending ν
  view : View ν
  left : List (Waking ν)
  charge : Charge ν

namespace Report

variable {ν : Type}

/- A report of what came after something charged for. -/
def after
    (R : Report ν)
    (c : Charge ν) : Report ν :=
  { R with charge := c.plus R.charge }

@[simp] theorem after_none (R : Report ν) :
    R.after .none = R := by
  simp only [after, Charge.none_plus]

@[simp] theorem after_after
    (R : Report ν)
    (c d : Charge ν) :
    (R.after c).after d = R.after (d.plus c) := by
  simp only [after, Charge.plus_assoc]

/- It finished without an await step. -/
def Flat (R : Report ν) : Prop :=
  R.charge.steps = 0 ∧ ∃ v, R.ending = .finished v

/- It threw without an await step: there was no step at all. -/
def Broke (R : Report ν) : Prop :=
  R.charge.steps = 0 ∧ ∃ e, R.ending = .threw e

end Report

------------------------------------------------------------
-- Accounts
------------------------------------------------------------

/-
  What some code may come to, from a view and with wakings to
  come.
-/
abbrev Account (ν : Type) :=
  View ν → List (Waking ν) → Report ν → Prop

namespace Account

variable {ν : Type}

/- It ends at once, free of charge. -/
def ends (ending : Ending ν) : Account ν :=
  fun V later R => R = ⟨ending, V, later, .none⟩

/- It is charged for something first. -/
def costing
    (c : Charge ν)
    (A : Account ν) : Account ν :=
  fun V later R => ∃ R', A V later R' ∧ R = R'.after c

/- What follows goes by what a first part has come to. -/
def andThen
    (A : Account ν)
    (next : Report ν → Account ν) : Account ν :=
  fun V later R => ∃ R₁, A V later R₁ ∧
    (next R₁).costing R₁.charge R₁.view R₁.left R

/- What follows an effect goes by how that ended. -/
def effect
    (e : Effect)
    (next : Except Value Value → Account ν) : Account ν :=
  fun V later R =>
    next (e.upon V.vars).1
      { V with vars := (e.upon V.vars).2 } later R

/- Pause, for a label, until woken with an outcome. -/
def pauses
    (x : ν)
    (next : Outcome → Account ν) : Account ν :=
  fun V later R =>
    match later with
    | [] => R = ⟨.paused x, V, [], .pausing x⟩
    | w :: later =>
        (next w.outcome).costing (.pausing x) w.view later R

/-
  Wait for what a name stands for, and go on with the outcome.
  Where there is one, no label is allocated.
-/
def awaits
    (x : ν)
    (next : Outcome → Account ν) : Account ν :=
  fun V later R =>
    match V.status x with
    | some o => next o V later R
    | none => pauses x next V later R

/- Bind a source: wait for it, and read its result. -/
def binds
    (x : ν)
    (next : Outcome → Account ν) : Account ν :=
  (awaits x fun o => (next o).costing (.reading [x])).costing
    (.binding [x])

/- Go on with a value; an error is thrown. -/
def proceeding (next : Value → Account ν) :
    Outcome → Account ν
  | .fulfilled v => next v
  | .rejected e => ends (.threw e)

/- So it is with how an effect ended. -/
def returning (next : Value → Account ν) :
    Except Value Value → Account ν
  | .ok v => next v
  | .error e => ends (.threw e)

/- Client code is asked for its result. -/
def reports
    (x : ν)
    (result : Effect)
    (next : Value → Account ν) : Account ν :=
  (effect result (returning next)).costing (.reading [x])

/- What client code says of whether it has completed. -/
def told
    (x : ν)
    (result : Effect)
    (next : Value → Account ν)
    (v : Value) : Account ν :=
  if v.truthy then reports x result next
  else pauses x fun _ => reports x result next

/- Bind a source whose awaiters are client code. -/
def asks
    (x : ν)
    (completed result : Effect)
    (next : Value → Account ν) : Account ν :=
  (effect completed (returning (told x result next))).costing
    (.binding [x])

------------------------------------------------------------
-- Sequences and Loops
------------------------------------------------------------

/-
  What comes after a first part.  A hand-off is awaited, and
  nothing comes after a failure.
-/
def sequel
    (rest : Account ν) : Ending ν → Account ν
  | .finished _ => rest
  | .handed x => awaits x (proceeding fun _ => rest)
  | .threw e => ends (.threw e)
  | .paused x => ends (.paused x)

/- Each await step of the first part costs one more label. -/
def linking
    (base : Nat)
    (rest : Account ν)
    (R : Report ν) : Account ν :=
  (sequel rest R.ending).costing
    (.ofLabels (base + R.charge.steps))

open Classical in
/-
  The price of a sequence: two labels, and one for each await
  step of its first part.  There is no sequence if there is
  no first step.
-/
noncomputable def linked
    (rest : Account ν)
    (R : Report ν) : Account ν :=
  if R.Broke then ends R.ending else linking 2 rest R

open Classical in
/- A round that finishes at once costs nothing. -/
noncomputable def round
    (rest : Account ν)
    (R : Report ν) : Account ν :=
  if R.Flat then rest else linked rest R

/- What a condition leads to: a round, if it holds. -/
noncomputable def turned
    (rest body : Account ν) : Except Value Value → Account ν
  | .ok v =>
      if v.truthy then body.andThen (round rest)
      else ends (.finished .undefined)
  | .error e => ends (.threw e)

/- A condition, and a round if it holds, up to a number of them. -/
noncomputable def looping
    (condition : Effect)
    (body : Account ν) : Nat → Account ν
  | 0 => fun _ _ _ => False
  | n + 1 =>
      effect condition (turned (looping condition body n) body)

/- However many rounds there are. -/
def loop
    (condition : Effect)
    (body : Account ν) : Account ν :=
  fun V later R => ∃ n, looping condition body n V later R

/- A round for each item, in order. -/
noncomputable def each
    (body : Value → Account ν) : List Value → Account ν
  | [] => ends (.finished .undefined)
  | v :: items => (body v).andThen (round (each body items))

------------------------------------------------------------
-- Recoveries and Cleanups
------------------------------------------------------------

/- A failure is handed to a handler, unless it is a defect. -/
def caught
    (handler : Value → Account ν)
    (e : Value) : Account ν :=
  if e.isDefect then ends (.threw e) else handler e

/- What becomes of what a protected body handed off to. -/
def rescued
    (handler : Value → Account ν) : Outcome → Account ν
  | .fulfilled v => ends (.finished v)
  | .rejected e => caught handler e

/- What becomes of how a protected body ended. -/
def recovered
    (handler : Value → Account ν) : Ending ν → Account ν
  | .finished v => ends (.finished v)
  | .handed x => awaits x (rescued handler)
  | .threw e => caught handler e
  | .paused x => ends (.paused x)

/- An end that a failure prevails over. -/
def undone
    (ending : Ending ν) : Except Value Value → Account ν
  | .ok _ => ends ending
  | .error e => ends (.threw e)

/- A compensation comes before the end; its failure prevails. -/
def settling
    (compensation : Effect)
    (ending : Ending ν) : Account ν :=
  effect compensation (undone ending)

/- What such a body handed off to is its end, too. -/
def settled
    (compensation : Effect) : Outcome → Account ν
  | .fulfilled v => settling compensation (.finished v)
  | .rejected e => settling compensation (.threw e)

/- What becomes of how a body with a compensation ended. -/
def compensated
    (compensation : Effect) : Ending ν → Account ν
  | .finished v => settling compensation (.finished v)
  | .handed x => awaits x (settled compensation)
  | .threw e => settling compensation (.threw e)
  | .paused x => ends (.paused x)

/- A body with a compensation. -/
def protecting
    (body : Account ν)
    (compensation : Effect) : Account ν :=
  body.andThen fun R => compensated compensation R.ending

end Account

/- Bind a source and go on with its value. -/
def Supply.binds
    {ν : Type}
    (S : Supply ν)
    (x : ν)
    (next : Value → Account ν) : Account ν :=
  match (S.origin x).custom? with
  | some (completed, result) => .asks x completed result next
  | none => .binds x (.proceeding next)

/-
  What a routine may come to.  Besides what its parts cost, a
  sequence costs two labels and one for each await step of
  its first part, and so does each round of a loop that does
  not finish at once; a loop costs one label, one over items
  three, and a protected body two.  Whatever is found pending
  costs one label.
-/
noncomputable def Routine.account
    {ν : Type}
    (S : Supply ν) : Routine ν → Account ν
  | .ret v => .ends (.finished v)
  | .fail e => .ends (.threw e)
  | .breach _ | .give _ _ => fun _ _ _ => False
  | .act deed k => fun V later R =>
      (k (deed.upon V.vars).1).account S
        { V with vars := (deed.upon V.vars).2 } later R
  | .await x rest =>
      S.binds x fun v => (rest v).account S
  | .handOff x => .ends (.handed x)
  | .combine first rest =>
      (first.account S).andThen (.linked (rest.account S))
  | .whileLoop condition body =>
      (Account.loop condition (body.account S)).costing
        (.ofLabels 1)
  | .forLoop items body =>
      (Account.each (fun v => (body v).account S) items).costing
        (.ofLabels 3)
  | .tryWith body handler =>
      ((body.account S).andThen fun R =>
        .recovered (fun e => (handler e).account S)
          R.ending).costing (.ofLabels 2)
  | .tryFinally body compensation =>
      ((body.account S).protecting compensation).costing
        (.ofLabels 2)
  | .using resource body => fun V later R =>
      ∃ release, S.release resource = some release ∧
        (((body resource).account S).protecting release).costing
          (.ofLabels 2) V later R

end Resumption

import Resumption.Picture
import Resumption.Program

/-
  Routines: sequential code that awaits futures, as a syntax
  tree, and the client code that it is translated to.

  Each step is built where it is returned or passed on.  The
  code that a builder is handed is a routine of its own, and
  what client code does at once between two awaits is a
  deed.  A routine knows the futures that it awaits by name;
  its translation is told what they are.

  Main declarations:
    * `Deed`, `Effect`, `Breach`, `Routine`
    * `Routine.HandsOffOnly`
    * `Routine.code`
    * `Routine.task`
-/

namespace Resumption

------------------------------------------------------------
-- Deeds
------------------------------------------------------------

/- A value that is shown alike in every session. -/
structure Entry where
  value : Value
  face : Datum
  shown : ∀ s : Session, s.picture value = face

/- A text as an entry of a log. -/
def Entry.text (t : String) : Entry where
  value := .str t
  face := .str t
  shown _ := rfl

/- A number as an entry of a log. -/
def Entry.int (n : Int) : Entry where
  value := .int n
  face := .int n
  shown _ := rfl

/- What client code does at once, and goes on from. -/
inductive Deed where
  | log (entry : Entry)
  | read (name : String)
  | write (name : String) (v : Value)

/- What a deed asks for. -/
def Deed.request : Deed → Request Program
  | .log entry => .log entry.value
  | .read name => .readGlobal (.str name)
  | .write name v => .writeGlobal (.str name) v

------------------------------------------------------------
-- Effects
------------------------------------------------------------

/- Code that never awaits: a condition, or a compensation. -/
inductive Effect where
  | done (v : Value)
  | fail (e : Value)
  | act (deed : Deed) (k : Value → Effect)

/- An effect as client code. -/
def Effect.code : Effect → Program
  | .done v => .done v
  | .fail e => .fail e
  | .act deed k => .perform deed.request fun v => (k v).code

------------------------------------------------------------
-- Breaches
------------------------------------------------------------

/- A breach of the protocol, which is answered by a defect. -/
inductive Breach (ν : Type) where
  /- A jump to a label of another machine. -/
  | borrowedLabel
  /- A jump to a handle that no machine allocated. -/
  | forgedLabel (id : Value)
  /- A jump to a label without code under it. -/
  | uninstalledLabel
  /- A jump to code that ends in something that is no step. -/
  | malformedStep (v : Value) (h : v.isStep = false)
  /- Reading the result of a future that has none. -/
  | unsettledResult (x : ν)

/- Jump to a label on the machine of a builder. -/
def Program.jumpOn (b l : Value) : Program :=
  .perform (.field b (.str "machine")) fun m =>
    .request (.jump m l)

/- A breach as client code. -/
def Breach.code
    {ν : Type}
    (place : ν → Ref)
    (b : Value) : Breach ν → Program
  | .borrowedLabel =>
      .perform (.newMachine .undefined) fun other =>
        .perform (.allocate other) (.jumpOn b)
  | .forgedLabel id =>
      .perform (.field b (.str "machine")) fun m =>
        .perform (.forge id m) (.jumpOn b)
  | .uninstalledLabel =>
      .perform (.field b (.str "machine")) fun m =>
        .perform (.allocate m) (.jumpOn b)
  | .malformedStep v _ =>
      .perform (.field b (.str "machine")) fun m =>
        .perform (.install m fun _ => .done v) (.jumpOn b)
  | .unsettledResult x =>
      .perform (.awaiterOf (.future (place x))) fun awaiter =>
        .request (.getResult awaiter)

------------------------------------------------------------
-- Routines
------------------------------------------------------------

/-
  Sequential code that awaits futures.  A hand-off is the
  await whose value is returned, where nothing follows it.
  Code that errs breaches the protocol, or gives something
  that is no step where it ought to give one.
-/
inductive Routine (ν : Type) where
  | ret (v : Value)
  | fail (e : Value)
  | breach (b : Breach ν)
  | give (v : Value) (h : v.isStep = false)
  | act (deed : Deed) (k : Value → Routine ν)
  | await (x : ν) (rest : Value → Routine ν)
  | handOff (x : ν)
  | combine (first rest : Routine ν)
  | whileLoop (condition : Effect) (body : Routine ν)
  | forLoop (items : List Value) (body : Value → Routine ν)
  | tryWith (body : Routine ν) (handler : Value → Routine ν)
  | tryFinally (body : Routine ν) (compensation : Effect)
  | using (resource : Value) (body : Value → Routine ν)

/- Nothing to do. -/
def Routine.zero {ν : Type} : Routine ν :=
  .ret .undefined

/-
  A routine hands off only where it may: in last place, or
  within a construct, which waits for the outcome.
-/
def Routine.HandsOffOnly
    {ν : Type}
    (last within : Prop) : Routine ν → Prop
  | .ret _ | .fail _ | .breach _ | .give _ _ => True
  | .act _ k => ∀ v, (k v).HandsOffOnly last within
  | .await _ rest => ∀ v, (rest v).HandsOffOnly last within
  | .handOff _ => last
  | .combine first rest =>
      first.HandsOffOnly within within ∧
        rest.HandsOffOnly last within
  | .whileLoop _ body => body.HandsOffOnly within within
  | .forLoop _ body =>
      ∀ v, (body v).HandsOffOnly within within
  | .tryWith body handler =>
      body.HandsOffOnly within within ∧
        ∀ e, (handler e).HandsOffOnly last within
  | .tryFinally body _ => body.HandsOffOnly within within
  | .using _ body => ∀ v, (body v).HandsOffOnly within within

/- Where a hand-off may stand anywhere, none is amiss. -/
theorem Routine.handsOffOnly
    {ν : Type}
    {last within : Prop}
    (routine : Routine ν)
    (hLast : last)
    (hWithin : within) :
    routine.HandsOffOnly last within := by
  induction routine generalizing last with
  | ret | fail | breach | give => trivial
  | act _ _ ih => exact fun v => ih v hLast
  | await _ _ ih => exact fun v => ih v hLast
  | handOff => exact hLast
  | combine _ _ ihFirst ihRest =>
      exact ⟨ihFirst hWithin, ihRest hLast⟩
  | whileLoop _ _ ih => exact ih hWithin
  | forLoop _ _ ih => exact fun v => ih v hWithin
  | tryWith _ _ ihBody ihHandler =>
      exact ⟨ihBody hWithin, fun e => ihHandler e hLast⟩
  | tryFinally _ _ ih => exact ih hWithin
  | «using» _ _ ih => exact fun v => ih v hWithin

/- Code that is given one value. -/
def Code.ofValue (code : Value → Program) : Code :=
  fun args => code (args.headD .undefined)

/- A routine as client code that is written with a builder. -/
def Routine.code
    {ν : Type}
    (place : ν → Ref)
    (b : Value) : Routine ν → Program
  | .ret v => .request (.newStep (.finish v))
  | .fail e => .fail e
  | .breach offence => offence.code place b
  | .give v _ => .done v
  | .act deed k =>
      .perform deed.request fun v => (k v).code place b
  | .await x rest =>
      .request (.bind b (.future (place x))
        (Code.ofValue fun v => (rest v).code place b))
  | .handOff x =>
      .request (.returnFrom b (.future (place x)))
  | .combine first rest =>
      (first.code place b).bind fun step =>
        .request (.sequence b step fun _ => rest.code place b)
  | .whileLoop condition body =>
      .request (.whileLoop b
        (fun _ => condition.code) (fun _ => body.code place b))
  | .forLoop items body =>
      .perform (.newList items) fun list =>
        .request (.forLoop b list
          (Code.ofValue fun v => (body v).code place b))
  | .tryWith body handler =>
      .request (.tryWith b (fun _ => body.code place b)
        (Code.ofValue fun e => (handler e).code place b))
  | .tryFinally body compensation =>
      .request (.tryFinally b (fun _ => body.code place b)
        (fun _ => compensation.code))
  | .using resource body =>
      .request (.using b resource
        (Code.ofValue fun v => (body v).code place b))

/- What is told of a task that nobody listens to. -/
def TaskOptions.quiet
    (taskId context : Value) : TaskOptions Program :=
  ⟨taskId, context, none⟩

/- A routine as a task of its own. -/
def Routine.task
    {ν : Type}
    (routine : Routine ν)
    (place : ν → Ref)
    (captured : Bool)
    (assertions taskId context : Value) : Program :=
  .request (.task captured assertions
    (Code.ofValue fun b => routine.code place b)
    (.quiet taskId context))

end Resumption

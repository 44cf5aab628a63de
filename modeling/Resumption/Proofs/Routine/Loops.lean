import Resumption.Proofs.Routine.Cleanups
import Resumption.Proofs.Routine.Sequences

/-
  Loops deliver what their rounds come to, one after the
  other.

  Rounds that finish at once are taken flat; a round that
  does not is the first step of a sequence that goes back to
  the loop's head.  Either way the head delivers what the
  remaining rounds come to.

  Main declarations:
    * `Loop.delivers_round`
    * `Loop.delivers_while`
    * `Iteration.delivers_items`
    * `Iteration.delivers_build`
-/

namespace Resumption

open Run
open Direct (Stepped landed)

------------------------------------------------------------
-- Rounds
------------------------------------------------------------

namespace Loop

variable {ν : Type}
variable {E : Setting ν}
variable {hands : Prop}
variable {G : Footprint}
variable {s s₁ s₂ s' : Session}
variable {R R₁ R' : Reading ν}
variable {o o₁ : Except (Stop ν) Value}
variable {condition body : Closure}
variable {entry m : Ref}
variable {v step : Value}

/- The rounds of a loop, after some were taken flat. -/
def rounds
    (m entry : Ref)
    (condition body : Closure)
    (used : Nat)
    (caller : Caller) : Run Value :=
  Run.iterate (caller.rounds - used)
    (round caller m entry condition body)

/- A round whose body finishes at once has no result. -/
theorem leads_round_none
    (hCondition : Leads (fun c => c.call condition [])
      s (.ok v) s₁)
    (hTrue : v.truthy = true)
    (hBody : Leads (fun c => c.call body []) s₁ (.ok step) s₂)
    {w : Value}
    (hStep : step.step? = some (.finish w)) :
    Leads (fun c => round c m entry condition body)
      s (.ok none) s₂ := by
  refine hCondition.bind ?_
  simp only [hTrue, if_true]
  refine hBody.bind ?_
  simp only [Setting.isMissing_of_step hStep, hStep,
    Bool.false_eq_true, if_false]
  exact .pure none

/- A round whose body does not is a sequence. -/
theorem leads_round_some
    (hCondition : Leads (fun c => c.call condition [])
      s (.ok v) s₁)
    (hTrue : v.truthy = true)
    (hBody : Leads (fun c => c.call body []) s₁ (.ok step) s₂)
    {view : StepView}
    (hStep : step.step? = some view)
    (hNot : ∀ w, view ≠ .finish w)
    {r : Except Value Value}
    (hBuild : Leads
      (fun c => Sequence.build c (.machine m) step
        (.jump m entry)) s₂ r s') :
    Leads (fun c => round c m entry condition body)
      s (r.map some) s' := by
  refine hCondition.bind ?_
  simp only [hTrue, if_true]
  refine hBody.bind ?_
  simp only [Setting.isMissing_of_step hStep, hStep,
    Bool.false_eq_true, if_false]
  cases view with
  | finish w => exact (hNot w rfl).elim
  | handOff f => exact hBuild.map some
  | suspend a l => exact hBuild.map some

/-
  One round: the condition holds, the body comes to an end,
  and the head goes on from there if the body did not fail.
-/
theorem delivers_round
    (used : Nat)
    (hCondition : Leads (fun c => c.call condition [])
      s (.ok v) s₁)
    (hTrue : v.truthy = true)
    (hMoves : E.Moves G s s₁)
    (hHas : ∀ c, G c → s₁.Has c)
    (hEntry : s₁.Bears E.machine entry
      (some (.loopHead E.machine entry condition body)))
    (hBody : E.Delivers (¬ E.detached) .none
      (fun c => c.call body []) s₁ o₁ R₁)
    (hStepped₁ : Stepped o₁)
    (hStepped : Stepped o)
    (hNext : ∀ used, E.Follows hands G s₁ R₁
      (fun _ => rounds E.machine entry condition body used)
      o₁ o R') :
    E.Delivers hands G
      (rounds E.machine entry condition body used) s o R' := by
  have hLanded : landed o = o := Direct.landed_eq hStepped
  have hBack : ∀ {s₂ : Session} {R₂ : Reading ν} {r},
      Session.Retains G s₁ s₂ →
      E.Follows hands G s₁ R₂
        (fun _ => rounds E.machine entry condition body 0)
        r o R' →
      E.Follows hands G s₂ R₂
        (fun _ c => c.call (.jump E.machine entry) [])
        r o R' := by
    intro s₂ R₂ r hRetains hFollows
    cases hFollows.later hRetains with
    | passes => exact .passes
    | proceeds h =>
        refine .proceeds fun s₃ hRetains₁ hAgrees => ?_
        have hLabel := hRetains₁.bears _ _ _
          (hRetains.bears _ _ _ hEntry)
        rw [← hLanded]
        exact .call (.jump hLabel
          (.call (h s₃ hRetains₁ hAgrees)))
  cases hBody with
  | finishes hLeads hBodyMoves hStep hAgrees =>
      cases hNext (used + 1) with
      | proceeds hHead =>
          have hRest := hHead _ hBodyMoves.keeps hAgrees
          refine hRest.after (hMoves.trans_none hBodyMoves)
            (fun _ _ hc => hc) fun r s₃ hEnd => ?_
          exact .again
            (leads_round_none hCondition hTrue hLeads hStep) hEnd
  | fails hLeads hBodyMoves hMeans hAgrees =>
      cases hNext used with
      | passes =>
          refine .fails (.stop ?_)
            (hMoves.trans_none hBodyMoves) hMeans hAgrees
          refine hCondition.bind ?_
          simp only [hTrue, if_true]
          exact hLeads.bind_error
  | gives => exact (hStepped₁ _ rfl).elim
  | handsOff hLeads hBodyMoves hStep hKept hAgrees hFate
      hResult hReading =>
      subst hResult hReading
      have hBuild := Sequence.delivers_build_handOff hKept
        (.jump E.machine entry) hStep hAgrees hFate
        (fun c hc => hBodyMoves.retains.has c (hHas c hc))
        (hBack hBodyMoves.keeps (hNext 0))
      rw [hLanded] at hBuild
      refine hBuild.after (hMoves.trans_none hBodyMoves)
        (fun _ _ hc => hc) fun r s₃ hEnd => ?_
      exact .once (leads_round_some hCondition hTrue hLeads hStep
        (fun w h => by cases h) hEnd)
  | @waits F F' act s₁ s₂ step a l x o₁ R R₁ hLeads hBodyMoves
      hStep hWaits hStuck hFoot hRest =>
      rw [Direct.landed_eq hStepped₁] at hRest
      have hApart : F'.Apart G := fun c hc hG =>
        (hFoot c hc).2 (hHas c hG)
      have hBuild := Sequence.delivers_build_suspend
        (.jump E.machine entry) hStep hWaits hStuck
        (fun c hc => (hFoot c hc).1) hStepped₁ hRest hApart
        (fun c hc => hBodyMoves.retains.has c (hHas c hc))
        (hBack hBodyMoves.keeps (hNext 0))
      rw [hLanded] at hBuild
      refine hBuild.after (hMoves.trans_none hBodyMoves) ?_
        fun r s₃ hEnd => ?_
      · rintro c hIn (hc | hc)
        · have hIn₁ := hMoves.retains.has c hIn
          exact ((hFoot c hc).2 hIn₁).elim
        · exact hc
      · exact .once (leads_round_some hCondition hTrue hLeads
          hStep (fun w h => by cases h) hEnd)

/- A round whose condition does not hold ends the loop. -/
theorem delivers_last
    (used : Nat)
    (hCondition : Leads (fun c => c.call condition [])
      s (.ok v) s₁)
    (hFalse : v.truthy = false)
    (hMoves : E.Moves G s s₁)
    (hAgrees : E.Agrees s₁ R) :
    E.Delivers hands G (rounds E.machine entry condition body used)
      s (.ok .undefined) R := by
  have hFinish : E.Delivers hands G _ s₁ _ R :=
    .finish .undefined hAgrees
  refine hFinish.after hMoves (fun _ _ hc => hc)
    fun r s₂ hEnd => ?_
  refine .once (hCondition.bind ?_)
  simp only [hFalse, Bool.false_eq_true, if_false]
  exact hEnd.map some

/- A new loop delivers what its head does. -/
theorem delivers_build
    (hAgrees : E.Agrees s R)
    (hStepped : Stepped o)
    (hHead : ∀ s₁ entry, E.Moves .none s s₁ → E.Agrees s₁ R →
      s₁.Bears E.machine entry
        (some (.loopHead E.machine entry condition body)) →
      E.Delivers hands G (rounds E.machine entry condition body 0)
        s₁ o R') :
    E.Delivers hands G
      (fun c => build c (.machine E.machine) condition body)
      s o R' := by
  have hMachine := hAgrees.calm.machine
  have hLabel := s.bears_withLabel hMachine none
  let code : Closure :=
    .loopHead E.machine s.labels.size condition body
  have hMoves := (E.moves_withLabel s E.machine none).none_trans
    (E.moves_relabelled hLabel code)
  have hBears := hLabel.relabelled code
  have hEnter := hHead _ _ hMoves
    (hAgrees.of_moves hMoves (by simp)) hBears
  refine .step (a := E.machine) rfl (.refl E G s) ?_
  have hJump := Setting.Delivers.jump hBears (.call hEnter)
  rw [Direct.landed_eq hStepped] at hJump
  refine hJump.after hMoves.any (fun _ _ hc => hc)
    fun r s₂ hEnd => ?_
  refine .step (Label.allocate_eq E.machine s) ?_
  exact .step (Label.replace_eq hLabel code) hEnd

------------------------------------------------------------
-- Looping on a Condition
------------------------------------------------------------

section While

variable {effect : Effect}
variable {routine : Routine ν}

/-
  The head of a loop delivers what is read from there on.
  The induction is on how deep the reading goes; each round
  reads the rest of the loop one level deeper.
-/
theorem delivers_while
    (n : Nat)
    (hBody : ∀ k < n, ∀ s R o R',
      routine.direct E.toOutlook k R = some (o, R') →
      E.Agrees s R →
      E.Delivers (¬ E.detached) .none
        (fun c => c.call body []) s o R')
    (hRead : (Routine.whileLoop effect routine).direct
      E.toOutlook n R = some (o, R'))
    (hAgrees : E.Agrees s R)
    (hEntry : s.Bears E.machine entry
      (some (.loopHead E.machine entry
        (.client fun _ => effect.code) body)))
    (used : Nat) :
    E.Delivers hands .none
      (rounds E.machine entry (.client fun _ => effect.code)
        body used) s o R' := by
  induction n generalizing s R used with
  | zero => cases hRead
  | succ n ih =>
      have hStepped := Direct.stepped_while hRead
      rcases Direct.of_bind hRead with
        ⟨v, R₁, hEffect, hRest⟩ | ⟨stop, hEffect, rfl⟩
      · rcases (Effect.does_client hEffect hAgrees []).leads with
          ⟨s₁, hLeads, hMoves, hAgrees₁⟩
        by_cases hTrue : v.truthy = true
        · rw [if_pos hTrue] at hRest
          have hEntry₁ := hMoves.retains.bears _ _ _ hEntry
          have hHead : ∀ {R₂},
              (Routine.whileLoop effect routine).direct
                E.toOutlook n R₂ = some (o, R') →
              ∀ used, E.Proceeds hands .none s₁ R₂
                (rounds E.machine entry
                  (.client fun _ => effect.code) body used)
                o R' := by
            intro R₂ hNext used s₂ hRetains hAgrees₂
            exact ih
              (fun k hk => hBody k (Nat.lt_succ_of_lt hk))
              hNext hAgrees₂ (hRetains.bears _ _ _ hEntry₁) used
          rcases Direct.of_discard_bind hRest with
            ⟨w, R₂, hFirst, hNext⟩ | ⟨stop, hFirst, rfl⟩
          · rcases Direct.of_stepping hFirst with
              ⟨hRound, hStepped₁⟩
            have hFirst' :=
              hBody n (Nat.lt_succ_self n) _ _ _ _ hRound
                hAgrees₁
            exact delivers_round used hLeads hTrue hMoves
              (fun _ hc => hc.elim) hEntry₁ hFirst' hStepped₁
              hStepped fun used => .proceeds (hHead hNext used)
          · rcases Direct.of_stepping hFirst with
              ⟨hRound, hStepped₁⟩
            have hFirst' :=
              hBody n (Nat.lt_succ_self n) _ _ _ _ hRound
                hAgrees₁
            exact delivers_round used hLeads hTrue hMoves
              (fun _ hc => hc.elim) hEntry₁ hFirst' hStepped₁
              hStepped₁ fun _ => .passes
        · rw [if_neg hTrue] at hRest
          have hEnd := Option.some.inj hRest
          cases hEnd
          exact delivers_last used hLeads
            (Bool.eq_false_iff.mpr hTrue) hMoves hAgrees₁
      · rcases (Effect.does_client hEffect hAgrees []).throws with
          ⟨s₁, e, hLeads, hMoves, hAgrees₁, hMeans⟩
        exact .fails (.stop hLeads.bind_error) hMoves
          hMeans hAgrees₁

end While

end Loop

------------------------------------------------------------
-- Iterating a List
------------------------------------------------------------

/- A session whose cursor was changed. -/
def Session.placing
    (s : Session)
    (i : Ref)
    (f : CursorCell → CursorCell) : Session :=
  { s with cursors := s.cursors.modify i f }

/- A session whose cursor has moved on to an item of a list. -/
def Session.advancing
    (s : Session)
    (i l : Ref)
    (k : Nat)
    (v : Value) : Session :=
  (s.placing i ({ · with source := .items l k })).placing i
    ({ · with current := v })

/- A session with a cursor over a new list. -/
def Session.withCursor
    (s : Session)
    (l : Ref) : Session :=
  { s with cursors := s.cursors.push ⟨.items l 0, .undefined⟩ }

namespace Iteration

variable {ν : Type}
variable {E : Setting ν}
variable {hands : Prop}
variable {s s₁ : Session}
variable {R R' : Reading ν}
variable {o : Except (Stop ν) Value}
variable {entry i l : Ref}
variable {body : Closure}

/- A cursor has some items of a list before it. -/
structure Ahead
    (s : Session)
    (i l : Ref)
    (items : List Value) : Prop where
  cursor : ∃ k current,
    s.cursors[i]? = some ⟨.items l k, current⟩ ∧
      ∃ row, s.lists[l]? = some row ∧
        row.toList.drop k = items

theorem Ahead.has
    {items : List Value}
    (h : Ahead s i l items) :
    s.Has (.cursor i) := by
  rcases h.cursor with ⟨k, current, hCursor, _⟩
  exact (Array.getElem?_eq_some_iff.mp hCursor).1

/- A cursor that is kept has the same items before it. -/
theorem Ahead.later
    {kept : Cell → Prop}
    {items : List Value}
    (h : Ahead s i l items)
    (hRetains : Session.Retains kept s s₁)
    (hKept : kept (.cursor i)) :
    Ahead s₁ i l items where
  cursor := by
    rcases h.cursor with ⟨k, current, hCursor, row, hRow, hDrop⟩
    have hSame := hRetains.same _ h.has hKept
    exact ⟨k, current, Eq.trans hSame hCursor, row,
      hRetains.list _ _ hRow, hDrop⟩

/-
  Changing a cursor touches that cursor alone, if it stays
  a cursor over a list.
-/
theorem moves_placing
    (E : Setting ν)
    (s : Session)
    (i : Ref)
    (f : CursorCell → CursorCell)
    (hListed : ∀ cell : CursorCell, cell.source.OverList →
      (f cell).source.OverList) :
    E.Moves (.only (.cursor i)) s (s.placing i f) where
  retains :=
    { Session.Retains.refl (fun _ => True) s with
      has := by
        intro c hc
        cases c with
        | cursor j =>
            simpa [Session.placing, Session.Has] using hc
        | _ => exact hc
      listed := by
        rintro j ⟨cell, hCell, hSource⟩
        by_cases hSame : i = j
        · subst hSame
          refine ⟨f cell, ?_, hListed cell hSource⟩
          simp [Session.placing, Array.getElem?_modify, hCell]
        · refine ⟨cell, ?_, hSource⟩
          simp [Session.placing, Array.getElem?_modify, hSame,
            hCell]
      same := by
        intro c _ hNot
        cases c with
        | cursor j =>
            have hNe : i ≠ j := by
              rintro rfl
              exact hNot rfl
            simp [Session.SameAt, Session.placing,
              Array.getElem?_modify, hNe]
        | _ => rfl }
  backdrop := rfl
  foreign _ _ := by simp only [Session.memory, Session.placing]

/- The row of a cursor. -/
theorem cursor_row_eq
    {cell : CursorCell}
    (h : s.cursors[i]? = some cell) :
    Table.cursors.row i s = some (.ok cell, s) := by
  have hEnd : Table.cursors.row i s =
      some (.ok (s.cursors.getD i default), s) := rfl
  rw [hEnd]
  simp [Array.getD_eq_getD_getElem?, h]

theorem list_row_eq
    {row : Array Value}
    (h : s.lists[l]? = some row) :
    Table.lists.row l s = some (.ok row, s) := by
  have hEnd : Table.lists.row l s =
      some (.ok (s.lists.getD l default), s) := rfl
  rw [hEnd]
  simp [Array.getD_eq_getD_getElem?, h]

/- A cursor moves to its next item. -/
theorem advance_cons
    {v : Value}
    {items : List Value}
    (h : Ahead s i l (v :: items)) :
    ∃ k, (∀ caller, Cursor.advance caller i s =
        some (.ok (.bool true), s.advancing i l k v)) ∧
      Ahead (s.advancing i l k v) i l items ∧
      Cursor.current i (s.advancing i l k v) =
        some (.ok v, s.advancing i l k v) := by
  rcases h.cursor with ⟨k, current, hCursor, row, hRow, hDrop⟩
  have hItem : row[k]? = some v := by
    have hHead := congrArg List.head? hDrop
    simpa [List.head?_drop] using hHead
  have hTail : row.toList.drop (k + 1) = items := by
    have hRest := congrArg List.tail hDrop
    simpa [List.tail_drop] using hRest
  have hLast : (s.advancing i l (k + 1) v).cursors[i]? =
      some ⟨.items l (k + 1), v⟩ := by
    simp [Session.advancing, Session.placing,
      Array.getElem?_modify, hCursor]
  refine ⟨k + 1, ?_, ⟨k + 1, v, hLast, row, hRow, hTail⟩,
    bind_of_end (cursor_row_eq hLast)⟩
  intro caller
  have hNext : Cursor.next caller false i s = some (.ok (some v),
      s.placing i ({ · with source := .items l (k + 1) })) := by
    refine step_eq (cursor_row_eq hCursor) ?_
    refine step_eq (list_row_eq hRow) ?_
    simp only [hItem]
    rfl
  exact bind_of_end hNext

/- It touches that cursor alone. -/
theorem moves_advancing
    (E : Setting ν)
    (s : Session)
    (i l : Ref)
    (k : Nat)
    (v : Value) :
    E.Moves (.only (.cursor i)) s (s.advancing i l k v) :=
  Setting.Moves.trans
    (moves_placing E s i _ fun _ _ => .inr ⟨l, k, rfl⟩)
    (moves_placing E _ i _ fun _ hCell => hCell)
    (fun _ _ hc => hc) (fun _ _ hc => hc)

theorem advance_some
    (E : Setting ν)
    {v : Value}
    {items : List Value}
    (h : Ahead s i l (v :: items)) :
    ∃ s', (∀ caller, Cursor.advance caller i s =
        some (.ok (.bool true), s')) ∧
      E.Moves (.only (.cursor i)) s s' ∧
      s'.memory E.own = s.memory E.own ∧
      Ahead s' i l items ∧
      Cursor.current i s' = some (.ok v, s') := by
  rcases advance_cons h with ⟨k, hAdvance, hAhead, hCurrent⟩
  exact ⟨_, hAdvance, moves_advancing E s i l k v, by
    simp only [Session.memory, Session.advancing,
      Session.placing], hAhead, hCurrent⟩

/- A cursor with no item before it has run out. -/
theorem advance_nil
    (h : Ahead s i l [])
    (caller : Caller) :
    Cursor.advance caller i s = some (.ok (.bool false),
      s.placing i ({ · with source := .finished })) := by
  rcases h.cursor with ⟨k, current, hCursor, row, hRow, hDrop⟩
  have hItem : row[k]? = none := by
    have hHead := congrArg List.head? hDrop
    simpa [List.head?_drop] using hHead
  have hNext : Cursor.next caller false i s = some (.ok none,
      s.placing i ({ · with source := .finished })) := by
    refine step_eq (cursor_row_eq hCursor) ?_
    refine step_eq (list_row_eq hRow) ?_
    simp only [hItem]
    rfl
  exact bind_of_end hNext

theorem advance_none
    (E : Setting ν)
    (h : Ahead s i l []) :
    ∃ s', (∀ caller, Cursor.advance caller i s =
        some (.ok (.bool false), s')) ∧
      E.Moves (.only (.cursor i)) s s' ∧
      s'.memory E.own = s.memory E.own :=
  ⟨_, advance_nil h, moves_placing E s i _ fun _ _ => .inl rfl, by
    simp only [Session.memory, Session.placing]⟩

/- Closing a cursor over a list changes nothing. -/
theorem close_eq
    (h : s.Listed i)
    (caller : Caller) :
    (Closure.cursorClose i).enter caller [] s =
      some (.ok .undefined, s) := by
  rcases h with ⟨cell, hCursor, hSource⟩
  have hClose : Cursor.close caller i s =
      some (.ok none, s) := by
    refine step_eq (cursor_row_eq hCursor) ?_
    rcases hSource with hSource | ⟨l, k, hSource⟩
    · simp only [hSource]
      rfl
    · simp only [hSource]
      rfl
  have hDiscard : Functor.discard (Cursor.close caller i) s =
      some (.ok ⟨⟩, s) :=
    bind_of_end hClose
  exact bind_of_end hDiscard

/-
  The head of a loop over a list delivers what is read of
  the items before its cursor, one after the other.
-/
theorem delivers_items
    {read : Value → Direct ν Value}
    (hBody : ∀ v s R o R', read v R = some (o, R') →
      E.Agrees s R →
      E.Delivers (¬ E.detached) .none
        (fun c => c.call body [v]) s o R')
    (items : List Value)
    (hRead : Direct.each read items R = some (o, R'))
    (hAgrees : E.Agrees s R)
    (hAhead : Ahead s i l items)
    (hEntry : s.Bears E.machine entry
      (some (.loopHead E.machine entry (.cursorAdvance i)
        (.cursorItem i body))))
    (used : Nat) :
    E.Delivers hands (.only (.cursor i))
      (Loop.rounds E.machine entry (.cursorAdvance i)
        (.cursorItem i body) used) s o R' := by
  induction items generalizing s R used with
  | nil =>
      have hEnd := Option.some.inj hRead
      cases hEnd
      rcases advance_none E hAhead with
        ⟨s₁, hAdvance, hMoves, hMemory⟩
      exact Loop.delivers_last used (.call (.of_eq hAdvance))
        rfl hMoves (hAgrees.of_moves hMoves hMemory)
  | cons v items ih =>
      rcases advance_some E hAhead with
        ⟨s₁, hAdvance, hMoves, hMemory, hAhead₁, hCurrent⟩
      have hAgrees₁ := hAgrees.of_moves hMoves hMemory
      have hEntry₁ := hMoves.retains.bears _ _ _ hEntry
      have hItem : ∀ {o₁ R₁}, read v R = some (o₁, R₁) →
          E.Delivers (¬ E.detached) .none
            (fun c => c.call (.cursorItem i body) [])
            s₁ o₁ R₁ := by
        intro o₁ R₁ hFirst
        exact .call (.step hCurrent (.refl E _ s₁)
          (hBody v s₁ R o₁ R₁ hFirst hAgrees₁))
      have hHas : ∀ c, Footprint.only (.cursor i) c →
          s₁.Has c := by
        rintro c rfl
        exact hAhead₁.has
      have hCondition :
          Leads (fun c => c.call (.cursorAdvance i) []) s
            (.ok (.bool true)) s₁ :=
        .call (.of_eq hAdvance)
      have hStepped := Direct.stepped_each hRead
      rcases Direct.of_discard_bind hRead with
        ⟨w, R₁, hFirst, hNext⟩ | ⟨stop, hFirst, rfl⟩
      · rcases Direct.of_stepping hFirst with
          ⟨hRound, hStepped₁⟩
        refine Loop.delivers_round used hCondition rfl hMoves hHas
          hEntry₁ (hItem hRound) hStepped₁ hStepped
          fun used => .proceeds fun s₂ hRetains hAgrees₂ => ?_
        exact ih hNext hAgrees₂ (hAhead₁.later hRetains rfl)
          (hRetains.bears _ _ _ hEntry₁) used
      · rcases Direct.of_stepping hFirst with
          ⟨hRound, hStepped₁⟩
        exact Loop.delivers_round used hCondition rfl hMoves hHas
          hEntry₁ (hItem hRound) hStepped₁ hStepped₁
          fun _ => .passes

/- One more cursor is a move. -/
theorem moves_withCursor
    (E : Setting ν)
    (s : Session)
    (l : Ref) :
    E.Moves .none s (s.withCursor l) where
  retains :=
    { Session.Retains.refl (fun _ => True) s with
      has := by
        intro c hc
        cases c with
        | cursor j =>
            have hLt : j < s.cursors.size := hc
            change j < (s.cursors.push _).size
            rw [Array.size_push]
            exact Nat.lt_succ_of_lt hLt
        | _ => exact hc
      listed := by
        rintro j ⟨cell, hCell, hSource⟩
        refine ⟨cell, ?_, hSource⟩
        have hLt := (Array.getElem?_eq_some_iff.mp hCell).1
        simp only [Session.withCursor, Array.getElem?_push,
          if_neg (Nat.ne_of_lt hLt)]
        exact hCell
      same := by
        intro c hc _
        cases c with
        | cursor j =>
            have hNe : j ≠ s.cursors.size := Nat.ne_of_lt hc
            simp only [Session.SameAt, Session.withCursor,
              Array.getElem?_push, if_neg hNe]
        | _ => rfl }
  backdrop := rfl
  foreign _ _ := by
    simp only [Session.memory, Session.withCursor]

/- A loop over a list delivers what is read of its items. -/
theorem delivers_build
    {read : Value → Direct ν Value}
    (hBody : ∀ v s R o R', read v R = some (o, R') →
      E.Agrees s R →
      E.Delivers (¬ E.detached) .none
        (fun c => c.call body [v]) s o R')
    {row : Array Value}
    (hList : s.lists[l]? = some row)
    (hRead : Direct.each read row.toList R = some (o, R'))
    (hAgrees : E.Agrees s R) :
    E.Delivers hands .none
      (fun c => build c (.machine E.machine) (.list l) body)
      s o R' := by
  have hMoves := moves_withCursor E s l
  have hAgrees₁ := hAgrees.of_moves hMoves
    (by simp only [Session.memory, Session.withCursor])
  have hAhead : Ahead (s.withCursor l) s.cursors.size l
      row.toList :=
    ⟨0, .undefined, by simp [Session.withCursor], row, hList,
      by simp⟩
  have hListed : (s.withCursor l).Listed s.cursors.size :=
    ⟨⟨.items l 0, .undefined⟩, by simp [Session.withCursor],
      .inr ⟨l, 0, rfl⟩⟩
  have hStepped := Direct.stepped_each hRead
  have hInner : E.Proceeds (¬ E.detached)
      (.only (.cursor s.cursors.size)) (s.withCursor l) R
      (fun c => c.call (.cursorLoop (.machine E.machine)
        s.cursors.size body) []) o R' := by
    intro s₁ hRetains hAgrees₂
    refine .call (Loop.delivers_build hAgrees₂ hStepped ?_)
    intro s₂ entry hMoves₂ hAgrees₃ hEntry
    have hAhead₂ := hAhead.later
      (hRetains.trans hMoves₂.keeps fun _ _ hc => ⟨hc, hc⟩) rfl
    exact delivers_items hBody row.toList hRead hAgrees₃
      hAhead₂ hEntry 0
  have hClose : E.Compensates (s.withCursor l) R'
      (.cursorClose s.cursors.size) (.ok .undefined) R' := by
    intro s₁ hRetains hAgrees₂
    exact ⟨s₁, _, .call (.of_eq (close_eq
      (hRetains.listed _ hListed))), .refl E _ s₁, hAgrees₂,
      rfl⟩
  have hHas : ∀ c, Footprint.only (.cursor s.cursors.size) c →
      (s.withCursor l).Has c := by
    rintro c rfl
    exact hAhead.has
  have hLoop : E.Delivers hands _ _ _ _ _ :=
    Cleanup.delivers_build hAgrees₁ hHas hInner (.of_idle hClose)
  rw [Direct.landed_eq hStepped] at hLoop
  refine hLoop.after hMoves ?_ fun r s' hEnd => ?_
  · rintro c hIn rfl
    exact (Nat.lt_irrefl _ hIn).elim
  · have hNew : Leads (fun c => Cursor.new c (.list l)) s
        (.ok s.cursors.size) (s.withCursor l) :=
      .of_eq fun _ => rfl
    exact hNew.bind hEnd

end Iteration

end Resumption

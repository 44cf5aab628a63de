import Resumption.Proofs.Accounts.Loops

/-
  Iterations: what is charged for a round for each item.

  A loop over items is a loop on what its cursor says, inside
  a cleanup that closes the cursor: one label, and two.  To
  close a cursor over a list is to do nothing.

  Main declarations:
    * `Supply.turns_items`
    * `Supply.meets_forLoop`
-/

namespace Resumption

open Run Iteration

variable {ν : Type}

------------------------------------------------------------
-- Loops over Items in Accounts
------------------------------------------------------------

namespace Account

variable {A : Account ν}
variable {B : Value → Account ν}

/- Whatever some code comes to, it is no hand-off. -/
def Lasts (A : Account ν) : Prop :=
  ∀ V later R, A V later R → ∀ x, R.ending ≠ .handed x

theorem lasts_sequel
    (h : A.Lasts)
    (ending : Ending ν) :
    (sequel A ending).Lasts := by
  intro V later R hSequel
  cases ending with
  | finished v => exact h V later R hSequel
  | handed x =>
      have hNext : ∀ o V later R,
          proceeding (fun _ => A) o V later R →
            ∀ y, R.ending ≠ .handed y := by
        intro o V later R hR
        cases o with
        | fulfilled v => exact h V later R hR
        | rejected e =>
            cases hR
            exact fun y hEnding => by cases hEnding
      cases hStatus : V.status x with
      | some o =>
          exact hNext _ _ _ _ ((awaits_of_some hStatus).mp hSequel)
      | none =>
          cases later with
          | nil =>
              cases (awaits_of_none hStatus).mp hSequel
              exact fun y hEnding => by cases hEnding
          | cons w later =>
              rcases (awaits_woken hStatus).mp hSequel with
                ⟨R', hR', rfl⟩
              exact hNext _ _ _ R' hR'
  | threw e =>
      cases hSequel
      exact fun y hEnding => by cases hEnding
  | paused x =>
      cases hSequel
      exact fun y hEnding => by cases hEnding

theorem lasts_round
    (h : A.Lasts)
    (R₁ : Report ν) :
    (round A R₁).Lasts := by
  intro V later R hRound
  unfold round linked at hRound
  by_cases hFlat : R₁.Flat
  · simp only [if_pos hFlat] at hRound
    exact h V later R hRound
  · by_cases hBroke : R₁.Broke
    · simp only [if_neg hFlat, if_pos hBroke] at hRound
      rcases hBroke with ⟨_, e, hEnding⟩
      cases hRound
      rw [hEnding]
      exact fun y hSame => by cases hSame
    · simp only [if_neg hFlat, if_neg hBroke] at hRound
      rcases hRound with ⟨R', hSequel, rfl⟩
      exact lasts_sequel h R₁.ending V later R' hSequel

/- A loop over items waits for what its rounds hand off to. -/
theorem lasts_each (items : List Value) :
    (each B items).Lasts := by
  induction items with
  | nil =>
      intro V later R hR
      cases hR
      exact fun y hEnding => by cases hEnding
  | cons v items ih =>
      rintro V later R ⟨R₁, _, R₂, hRound, rfl⟩
      exact lasts_round ih R₁ _ _ R₂ hRound

/- Code that does not hand off needs no compensation for that. -/
theorem of_protecting
    {V : View ν}
    {later : List (Waking ν)}
    {R : Report ν}
    {v : Value}
    (hLasts : A.Lasts)
    (h : A.protecting (.done v) V later R) :
    A V later R := by
  rcases h with ⟨R₁, hA, R₂, hNext, rfl⟩
  have hEnds : ends R₁.ending R₁.view R₁.left R₂ := by
    cases hEnding : R₁.ending with
    | handed x => exact (hLasts V later R₁ hA x hEnding).elim
    | finished w =>
        rw [hEnding] at hNext
        exact hNext
    | threw e =>
        rw [hEnding] at hNext
        exact hNext
    | paused x =>
        rw [hEnding] at hNext
        exact hNext
  cases hEnds
  simp only [Report.after, Charge.plus_none]
  exact hA

end Account

------------------------------------------------------------
-- Cursors in Sessions
------------------------------------------------------------

/- A session with one more list. -/
def Session.withList
    (s : Session)
    (row : Array Value) : Session :=
  { s with lists := s.lists.push row }

namespace Supply

variable {S : Supply ν}
variable {B : Value → Account ν}
variable {s : Session}
variable {i l : Ref}
variable {body : Value → Program}

/- One more list is no matter. -/
theorem idles_withList
    (s : Session)
    (row : Array Value) :
    S.Idles .none 0 s (s.withList row) where
  retains := { Session.Retains.refl (¬ Footprint.none ·) s with
    list := by
      intro l row' hRow
      have hLt := (Array.getElem?_eq_some_iff.mp hRow).1
      simp only [Session.withList, Array.getElem?_push,
        if_neg (Nat.ne_of_lt hLt)]
      exact hRow
    same := fun c _ _ => by cases c <;> rfl }
  stock := rfl
  labels := rfl

/- A cursor that moves on is idle but for its own cell. -/
theorem idles_advancing
    (s : Session)
    (i l : Ref)
    (k : Nat)
    (v : Value) :
    S.Idles (.only (.cursor i)) 0 s (s.advancing i l k v) :=
  idles_of_moves (moves_advancing S.setting s i l k v) rfl rfl

/- So is one that has run out. -/
theorem idles_finished
    (s : Session)
    (i : Ref) :
    S.Idles (.only (.cursor i)) 0 s
      (s.placing i ({ · with source := .finished })) :=
  idles_of_moves (moves_placing S.setting s i _
    fun _ _ => .inl rfl) rfl rfl

theorem idles_withCursor
    (s : Session)
    (l : Ref) :
    S.Idles .none 0 s (s.withCursor l) :=
  idles_of_moves (moves_withCursor S.setting s l) rfl rfl

/- A cursor over a list is closed without more ado. -/
theorem undoes_close
    (h : s.Listed i) :
    S.Undoes (.cursorClose i) (.done .undefined) s := by
  intro s₁ hRetains _ rounds depth
  refine ensures_call_below fun d _ r s' hRun => ?_
  cases (close_eq (hRetains.listed i h) _).symm.trans hRun
  exact ⟨rfl, .refl s₁⟩

------------------------------------------------------------
-- Rounds
------------------------------------------------------------

/- A cursor leads to a round for each item before it. -/
theorem turns_items
    (hBody : ∀ v, S.Meets (body v) (B v)) :
    Loop.Turns S (.only (.cursor i)) (.cursorAdvance i)
      (.cursorItem i (.client (Code.ofValue body)))
      (fun items s => Ahead s i l items)
      (Account.each B) where
  has items s hAhead c hc := hc ▸ hAhead.has
  later items s s₁ hAhead hRetains := hAhead.later hRetains rfl
  turns items s hs hAhead rounds depth := by
    refine ensures_call_below fun d _ r s₁ hRun => ?_
    cases items with
    | nil =>
        cases (advance_nil hAhead _).symm.trans hRun
        have hIdles := idles_finished (S := S) s i
        refine .stops rfl hIdles.moves_none fun later R hEnds => ?_
        rw [hIdles.view_eq] at hEnds
        exact hEnds
    | cons v items =>
        rcases advance_cons hAhead with
          ⟨k, hAdvance, hAhead₁, hCurrent⟩
        cases (hAdvance _).symm.trans hRun
        have hIdles := idles_advancing (S := S) s i l k v
        have hs₁ := hIdles.moves_none.ready hs
        refine .round (j := items) (A := B v) rfl
          hIdles.moves_none hAhead₁ (fun k rounds depth => ?_)
          fun later R hAll => ?_
        · refine .call fun d _ => ?_
          refine .idle_none hCurrent (.refl .none _)
            (.call fun d' _ => ?_) fun _ _ hc => hc
          exact Meets.enter (hBody v) hs₁
        · rw [hIdles.view_eq] at hAll
          exact hAll

/- A loop over a list realizes a round for each item. -/
theorem realizes_items
    {row : Array Value}
    {k rounds depth : Nat}
    (hBody : ∀ v, S.Meets (body v) (B v))
    (hs : S.Ready s)
    (hList : s.lists[l]? = some row) :
    S.Realizes k .none
      (Iteration.build (.ofDepth rounds depth)
        (.machine S.machine) (.list l)
        (.client (Code.ofValue body))) s
      ((Account.each B row.toList).costing (.ofLabels 3)) := by
  have hIdles := idles_withCursor (S := S) s l
  have hs₁ := hIdles.moves_none.ready hs
  have hAhead : Ahead (s.withCursor l) s.cursors.size l
      row.toList :=
    ⟨0, .undefined, by simp [Session.withCursor], row, hList,
      by simp⟩
  have hListed : (s.withCursor l).Listed s.cursors.size :=
    ⟨⟨.items l 0, .undefined⟩, by simp [Session.withCursor],
      .inr ⟨l, 0, rfl⟩⟩
  have hNew : Cursor.new (.ofDepth rounds depth) (.list l) s =
      some (.ok s.cursors.size, s.withCursor l) := rfl
  have hGone : ¬ s.Has (.cursor s.cursors.size) :=
    Nat.lt_irrefl _
  refine .idle_none hNew hIdles (.tell (Cleanup.realizes_build
    (F := .only (.cursor s.cursors.size))
    (A := (Account.each B row.toList).costing (.ofLabels 1)) hs₁
    (fun c hc => hc ▸ hAhead.has) ?_ (undoes_close hListed)) ?_)
    fun c hHas hc => (hGone (hc ▸ hHas)).elim
  · intro k' rounds' d _ s₂ hRetains hs₂
    exact Loop.realizes_build (turns_items hBody) hs₂
      (hAhead.later hRetains rfl)
  · rintro later R ⟨R', hProtecting, rfl⟩
    have hLasts : ((Account.each B row.toList).costing
        (.ofLabels 1)).Lasts := by
      rintro V later R ⟨R₁, hEach, rfl⟩
      exact Account.lasts_each row.toList V later R₁ hEach
    rcases Account.of_protecting hLasts hProtecting with
      ⟨R₁, hEach, rfl⟩
    exact ⟨R₁, hEach, Report.after_after R₁ _ _⟩

------------------------------------------------------------
-- Client Code
------------------------------------------------------------

/- A loop over items meets its account. -/
theorem meets_forLoop
    {items : List Value}
    (hBody : ∀ v, S.Meets (body v) (B v)) :
    S.Meets
      (.perform (.newList items) fun list =>
        .request (.forLoop S.hub list (Code.ofValue body)))
      ((Account.each B items).costing (.ofLabels 3)) := by
  intro k rounds depth s hs
  have hIdles := idles_withList (S := S) s items.toArray
  have hs₁ := hIdles.moves_none.ready hs
  have hNew : (Request.newList items).perform
      (.ofDepth rounds depth) s =
        some (.ok (.list s.lists.size),
          s.withList items.toArray) := rfl
  have hList : (s.withList items.toArray).lists[s.lists.size]? =
      some items.toArray := by
    simp [Session.withList]
  refine .idle_none hNew hIdles (realizes_iff.mpr
    (ensures_request (realizes_iff.mp ?_))) fun _ _ hc => hc
  exact .idle_none (machineOf_hub hs₁) (.refl .none _)
    (realizes_items hBody hs₁ hList) fun _ _ hc => hc

end Supply

end Resumption

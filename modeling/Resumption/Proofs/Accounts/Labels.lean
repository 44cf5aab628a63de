import Resumption.Proofs.Accounts.Courses
import Resumption.Proofs.Accounts.Drivers
import Resumption.Proofs.Accounts.Rounds

/-
  The labels that are allocated are those that are charged
  for: by binds and constructs, however often they suspend,
  and by nothing else.

  Main declarations:
    * `Routine.allocates_as_charged`
-/

namespace Resumption

open Run

/-
  A routine's code comes to what the one account tells of its
  course, and allocates as many labels as that charges for.
  A loop whose rounds all finish at once is charged for one
  label besides those of its bodies, or for three if it is
  over items.  Whoever runs and drives a task makes the label
  count go only as the calls on its behalf make it go.
-/
theorem Routine.allocates_as_charged
    {ν : Type}
    (S : Supply ν) :
    (∀ (routine : Routine ν) s₀ K later n r s,
      routine.Apt S → S.Ready s₀ →
      S.Course (routine.written S) s₀ K later n r s →
      ∃ R, (∀ R', routine.account S (S.view s₀) later R' ↔
          R' = R) ∧
        S.Stands s r R.ending ∧ R.view = S.view s ∧
        R.left = [] ∧ R.charge.labels = n) ∧
    (∀ condition (body : Routine ν) V later n R,
      Account.FlatLoop condition (body.account S) V later n →
      (Routine.whileLoop condition body).account S V later R →
      R.charge.labels = 1 + n) ∧
    (∀ items (body : Value → Routine ν) V later n R,
      Account.FlatEach (fun v => (body v).account S) items V
        later n →
      (Routine.forLoop items body).account S V later R →
      R.charge.labels = 3 + n) ∧
    ∀ Q m caller, Accrues Q →
      (∀ code args, Run.Counts Q m (caller.call code args)) →
      (∀ m' code em,
        Run.Counts Q m (Task.run caller m' code em)) ∧
      (∀ d callback failure,
        Run.Counts Q m
          (Driver.resume caller d callback failure)) ∧
      ∀ d awaiter,
        Run.Counts Q m (Driver.conclude caller d awaiter) := by
  refine ⟨?_, ?_, ?_, ?_⟩
  · intro routine s₀ K later n r s hApt hs hCourse
    rcases hCourse.accounted hs
      (Supply.meets_written routine hApt) with ⟨R, hR, hStands⟩
    exact ⟨R, fun R' =>
      ⟨fun hR' => routine.account_single S _ _ R' R hR' hR,
        fun hSame => hSame ▸ hR⟩, hStands⟩
  · rintro condition body V later n _ hFlat ⟨R, hR, rfl⟩
    have hLabels :=
      Account.labels_looping (body.account_single S) hFlat hR
    exact congrArg (1 + ·) hLabels
  · rintro items body V later n _ hFlat ⟨R, hR, rfl⟩
    have hLabels := Account.labels_each
      (fun v => (body v).account_single S) hFlat hR
    exact congrArg (3 + ·) hLabels
  · intro Q m caller hQ hCalls
    exact ⟨Task.counts_run hQ hCalls,
      Driver.counts_resume hQ hCalls,
      Driver.counts_conclude hQ hCalls⟩

------------------------------------------------------------
-- Two Rounds
------------------------------------------------------------

/- How a run ends, where it does. -/
def Run.ended
    (act : Run Value)
    (s : Session) : Except Value Value × Session :=
  (act s).getD (.error .undefined, s)

theorem Run.eq_ended
    {act : Run Value}
    {s : Session}
    (h : (act s).isSome = true) :
    act s = some ((act.ended s).1, (act.ended s).2) := by
  rcases Option.isSome_iff_exists.mp h with ⟨out, hOut⟩
  rw [ended, hOut]
  rfl

/- Did a run end in a step that waits by an awaiter? -/
def Run.suspendsAt
    (r : Except Value Value)
    (a l : Ref) : Bool :=
  match r with
  | .ok step =>
      match step.step? with
      | some (.suspend (.awaiter a') (.label l')) =>
          a' == a && l' == l
      | _ => false
  | .error _ => false

theorem Run.suspends_of_suspendsAt
    {r : Except Value Value}
    {a l : Ref}
    (h : suspendsAt r a l = true) :
    ∃ step, r = .ok step ∧ step.step? =
      some (.suspend (.awaiter a) (.label l)) := by
  unfold suspendsAt at h
  split at h
  · next step =>
      split at h
      · next a' l' hStep =>
          simp only [Bool.and_eq_true, beq_iff_eq] at h
          exact ⟨step, rfl, by rw [hStep, h.1, h.2]⟩
      · cases h
  · cases h

/- Two rounds that await the same future. -/
def Routine.twoRounds : Routine (Fin 1) :=
  .forLoop [.int 1, .int 2] fun _ => .await ⟨0, Nat.one_pos⟩ .ret

def Supply.oneFuture : Supply (Fin 1) where
  origin _ := .future 0
  detached _ := false
  releases _ := none
  machine := 0
  builder := none

/- A machine and a pending future, -/
def Session.beforeTwoRounds : Session :=
  .after (.perform (.newMachine .undefined) fun _ =>
    .request .newFuture)

/- how the rounds come to wait for it, -/
def Run.firstOfTwoRounds : Except Value Value × Session :=
  ((Routine.twoRounds.written .oneFuture).run
    (.ofDepth 8 40)).ended .beforeTwoRounds

/- and how they end when it has settled. -/
def Session.betweenTwoRounds : Session :=
  firstOfTwoRounds.2.settling 0 (.fulfilled (.int 5))

def Run.lastOfTwoRounds : Except Value Value × Session :=
  (Label.jump (.ofDepth 8 40) 0 (.label 0)).ended
    .betweenTwoRounds

/-
  The loop is charged for three labels, the first await for
  one, and the round that it is in for two and one more; the
  other round costs nothing.
-/
theorem Routine.allocates_as_charged_two_rounds :
    (∃ R, Routine.twoRounds.account .oneFuture
        (Supply.oneFuture.view .beforeTwoRounds)
        [⟨.fulfilled (.int 5),
          Supply.oneFuture.view .betweenTwoRounds⟩] R ∧
      Supply.oneFuture.Stands lastOfTwoRounds.2
        lastOfTwoRounds.1 R.ending ∧
      R.charge.labels = 3 + (1 + (2 + 1))) ∧
    (∀ V R, (Routine.forLoop [.int 1, .int 2] .ret).account
        Supply.oneFuture V [] R →
      R.charge.labels = 3) ∧
    Run.Counts Eq 0 (Driver.resume ⟨0, fun _ _ => .exhaust⟩
      0 0 .undefined) := by
  have hAll := allocates_as_charged Supply.oneFuture
  refine ⟨?_, ?_, ?_⟩
  · have hApt : Routine.twoRounds.Apt .oneFuture :=
      fun _ _ => trivial
    have hReady : ∀ s : Session, 0 < s.machines.size →
        0 < s.futures.size → Supply.oneFuture.Ready s :=
      fun s hMachine hFuture =>
        { machine := hMachine
          builder := fun _ h => by cases h
          resource := fun _ _ h => by cases h
          behind := fun _ f h => by
            cases h
            exact hFuture
          configured := fun _ _ _ _ h => by cases h
          controlled := fun _ _ _ _ h => by cases h
          custom := fun _ _ _ _ _ h => by cases h }
    have hFirst : (Routine.twoRounds.written .oneFuture).run
        (.ofDepth 8 40) .beforeTwoRounds =
          some (firstOfTwoRounds.1, firstOfTwoRounds.2) :=
      eq_ended (by decide +kernel)
    have hLast : Label.jump (.ofDepth 8 40) 0 (.label 0)
        .betweenTwoRounds =
          some (lastOfTwoRounds.1, lastOfTwoRounds.2) :=
      eq_ended (by decide +kernel)
    rcases suspends_of_suspendsAt (r := firstOfTwoRounds.1)
      (a := 0) (l := 0) (by decide +kernel) with
      ⟨step, hOk, hStep⟩
    have hStarts : Supply.oneFuture.Course _ .beforeTwoRounds _ _ _
        firstOfTwoRounds.1 firstOfTwoRounds.2 := .starts hFirst
    rw [hOk] at hStarts
    have hOne : 0 < firstOfTwoRounds.2.futures.size := by
      decide +kernel
    have hPending : ¬ firstOfTwoRounds.2.Settled 0 := by
      unfold Session.Settled
      decide +kernel
    have hReady₂ : Supply.oneFuture.Ready .betweenTwoRounds :=
      hReady _ (by decide +kernel) (by decide +kernel)
    have hAwaited : firstOfTwoRounds.2.awaited? 0 = some 0 := by
      decide +kernel
    have hTells : Session.betweenTwoRounds.Reveals
        (firstOfTwoRounds.2.awaited? 0)
        (.fulfilled (.int 5)) := by
      rw [hAwaited]
      intro f hf
      cases hf
      exact (Session.outcome?_settling hOne).trans (if_pos rfl)
    have hCourse := hStarts.resumes hStep
      (Session.retains_settling _ (.fulfilled (.int 5)) hOne
        hPending) hReady₂ hTells hLast
    rcases hAll.1 _ _ _ _ _ _ _ hApt
      (hReady _ (by decide +kernel) (by decide +kernel)) hCourse
      with ⟨R, hR, hStands, _, _, hLabels⟩
    refine ⟨R, (hR R).mpr rfl, hStands, ?_⟩
    rw [hLabels]
    decide +kernel
  · intro V R h
    have hFlat : ∀ v, Report.Flat
        (⟨.finished v, V, [], .none⟩ : Report (Fin 1)) :=
      fun v => ⟨rfl, v, rfl⟩
    have hEach : Account.FlatEach
        (fun v => (Routine.ret v).account Supply.oneFuture)
        [.int 1, .int 2] V [] (0 + (0 + 0)) :=
      .cons (R := ⟨.finished (.int 1), V, [], .none⟩) rfl
        (hFlat _) (.cons
          (R := ⟨.finished (.int 2), V, [], .none⟩) rfl
          (hFlat _) .nil)
    exact hAll.2.2.1 _ _ V [] _ R hEach h
  · exact (hAll.2.2.2 Eq 0 _ ⟨fun _ => rfl, Eq.trans⟩
      fun _ _ _ _ _ h => by cases h).2.1 _ _ _

------------------------------------------------------------
-- A Settled Promise
------------------------------------------------------------

/- A promise is settled, and then bound on a machine. -/
def Program.bindingSettledPromise : Program :=
  .perform (.newMachine .undefined) fun m =>
    .perform .newPromise fun d =>
      .perform (.settle d (.fulfilled (.int 1))) fun _ =>
        .perform (.field d (.str "future")) fun p =>
          .request (.bind m p fun _ =>
            .request (.newStep (.finish .undefined)))

/-
  A promise is awaited through a new future, which is pending
  although the promise is not.
-/
theorem Session.labels_binding_settled_promise :
    (((Session.after Program.bindingSettledPromise).promises.getD
        0 default).outcome matches some (.fulfilled _)) ∧
      (Session.after Program.bindingSettledPromise).labelCount
        (.machine 0) = 1 := by
  decide +kernel

end Resumption

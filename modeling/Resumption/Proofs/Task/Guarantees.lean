import Resumption.Proofs.Task.Alternation
import Resumption.Proofs.Task.Conclusion
import Resumption.Proofs.Task.Reachable

/-
  What is guaranteed of every task, whatever client code,
  awaiters, listeners and watchers do.

  A task is resumed once for each suspension.  It ends once,
  and as its listener was told, exactly if nothing makes its
  driver end it after that.

  Main declarations:
    * `Session.Reachable.resumes_once`
    * `Session.Reachable.ends_once_iff`
-/

namespace Resumption

/- Is it to a future that a moment hands the task off? -/
def Moment.handsFuture : Moment → Bool
  | .handsOver (.future _) => true
  | .handsOver _ => false
  | _ => true

------------------------------------------------------------
-- Awaiters to Try
------------------------------------------------------------

/- An awaitable with a result, and code that registers with it. -/
def Request.awaitable
    (register : Value → Program) : Request Program :=
  .customAwaitable (fun _ => .done (.bool false))
    (fun _ => .done (.int 1))
    fun args => register (args.headD .undefined)

/- Start a task that awaits that, and returns the result. -/
def Program.awaiting
    (register : Value → Program) : Program :=
  .request (.task true .undefined
    (fun args =>
      .perform (.awaitable register) fun source =>
        .request (.bind (args.headD .undefined) source
          fun found => .request
            (.newStep (.finish (found.headD .undefined)))))
    ⟨.undefined, .undefined, some fun _ => .done .undefined⟩)

/- Call a callback twice at once. -/
def Program.callingTwice (callback : Value) : Program :=
  .perform (.call callback []) fun _ =>
    .request (.call callback [])

/- Call a callback, and throw. -/
def Program.callingAndThrowing (callback : Value) : Program :=
  .perform (.call callback []) fun _ => .fail (.str "boom")

namespace Session

variable {s : Session}
variable {t : Ref}

------------------------------------------------------------
-- One Resumption per Suspension
------------------------------------------------------------

/-
  Suspensions and jumps take turns, each jump leading to the
  label that was named last; no jump starts before the last
  one has landed, nor once the output has settled; and so do
  the events, if labels have numbers.
-/
theorem Reachable.resumes_once
    (h : s.Reachable)
    (t : Ref) :
    Alternates ((s.story t).reverse.filterMap
      Moment.parking?) ∧
    Alternates ((s.story t).reverse.filterMap
      Moment.jumping?) ∧
    (∀ l settled, .jumps l settled ∈ s.story t →
      settled = false) ∧
    (Course.Numbered (s.story t) →
      Alternates ((s.story t).reverse.filterMap
        Moment.pausing?)) := by
  rcases h.course t with ⟨p, hCourse⟩
  refine ⟨hCourse.alternates_parking,
    hCourse.alternates_jumping, ?_, ?_⟩
  · intro l settled hMem
    exact hCourse.jumps_unsettled hMem
  · intro hIds
    exact hCourse.alternates_pausing hIds

/- A second call of a callback resumes nothing. -/
theorem resumes_once_calling_twice :
    Course.Numbered ((Session.after
      (.awaiting .callingTwice)).story 0) ∧
    Alternates (((Session.after
      (.awaiting .callingTwice)).story 0).reverse.filterMap
        Moment.pausing?) := by
  have hIds : Course.Numbered ((Session.after
      (.awaiting .callingTwice)).story 0) := by
    decide +kernel
  have hReachable := Reachable.after (.awaiting .callingTwice)
  exact ⟨hIds, (hReachable.resumes_once 0).2.2.2 hIds⟩

------------------------------------------------------------
-- One End per Task
------------------------------------------------------------

/- The events that a listener was told of, the latest first. -/
def eventsOf
    (s : Session)
    (t : Ref) : List Event :=
  (s.story t).filterMap Moment.told?

/-
  What the listener was told of agrees with the output: it
  was told of an end exactly if the output has ended so.  A
  task that its first step hands off is another's to end.
-/
def Agrees
    (s : Session)
    (t : Ref) : Prop :=
  s.eventsOf t = [.handOff, .start] ∨
    ∀ f, .answers (.future f) ∈ s.story t →
      ∀ v, Tells (s.story t) v ↔
        (s.outcome? f).map Outcome.verdict = some v

/- A task is handed off to futures only. -/
def HandsOverFutures (story : List Moment) : Prop :=
  ∀ v, .handsOver v ∈ story → ∃ f, v = .future f

instance (story : List Moment) :
    Decidable (HandsOverFutures story) :=
  decidable_of_iff (∀ m ∈ story, m.handsFuture = true) (by
    constructor
    · intro h v hMem
      have hFuture := h _ hMem
      cases v with
      | future f => exact ⟨f, rfl⟩
      | _ => cases hFuture
    · intro h m hMem
      cases m with
      | handsOver v =>
          rcases h v hMem with ⟨f, rfl⟩
          rfl
      | _ => rfl)

end Session

/- The events that a listener was told of without a driver. -/
def Phase.opening? : Phase → Option (List Event)
  | .fresh => some []
  | .begun => some [.start]
  | .passedOn => some [.handOff, .start]
  | _ => none

theorem Course.opening
    {story : List Moment}
    {p : Phase}
    {events : List Event}
    (h : Course story p)
    (hOpening : p.opening? = some events) :
    story.filterMap Moment.told? = events := by
  induction h generalizing events with
  | nil => exact Option.some.inj hOpening
  | cons _ hLeads ih =>
      cases hLeads with
      | answer => exact ih hOpening
      | start =>
          have hEarlier := ih rfl
          simp only [List.filterMap_cons, Moment.told?, hEarlier]
          exact Option.some.inj hOpening
      | passOn =>
          have hEarlier := ih rfl
          simp only [List.filterMap_cons, Moment.told?, hEarlier]
          exact Option.some.inj hOpening
      | _ => cases hOpening

/-
  Where a task rests that was handed to futures only, its
  output has ended as the phase says.
-/
theorem Seated.agrees
    {s : Session}
    {t f : Ref}
    {p : Phase}
    (h : Seated s t p)
    (hPhase : p ≠ .passedOn ∧ p ≠ .spoilt ∧ p ≠ .wild)
    (hOver : ∀ v, p ≠ .overruling v)
    (hAnswer : .answers (.future f) ∈ s.story t) :
    (s.outcome? f).map Outcome.verdict = p.verdict? := by
  rcases h with ⟨_, hUndriven⟩ |
    ⟨d, cell, _, hLinked, hSuits, _⟩
  · cases p with
    | atOnce v => exact hUndriven f hAnswer
    | passedOn => exact absurd rfl hPhase.1
    | _ => exact absurd hUndriven id
  · rcases hLinked.answered _ hAnswer with ⟨f', hSame, hOutput⟩
    cases hSame
    have hEnding : s.ending cell = s.outcome? f := by
      rw [Session.ending, hOutput]
    rw [← hEnding]
    cases p with
    | named l => rw [hSuits.2]; rfl
    | waiting l id => rw [hSuits.2.2.2.1]; rfl
    | handing => rw [hSuits.2]; rfl
    | ended v => exact hSuits.2
    | overruled v => exact hSuits.2
    | overruling v => exact absurd rfl (hOver v)
    | spoilt => exact absurd rfl hPhase.2.1
    | wild => exact absurd rfl hPhase.2.2
    | _ => exact absurd hSuits id

/-
  A task that rests has told of its end once, and of the end
  that it came to, exactly if nothing made it end again.
-/
theorem Placed.ends_iff
    {s : Session}
    {t : Ref}
    (h : Placed False s t)
    (hFutures : Session.HandsOverFutures (s.story t)) :
    Conclusive (s.story t) ∧ s.Agrees t ↔
      Prompt (s.story t) := by
  rcases h with ⟨p, hRests, hCourse, hSeated⟩
  have hSummary := hCourse.summary
  have hOrderly : Orderly (s.story t) p → s.Agrees t →
      (Conclusive (s.story t) ∧ s.Agrees t ↔
        Prompt (s.story t)) := by
    intro hOrderly hAgrees
    exact ⟨fun _ => hOrderly.prompt,
      fun _ => ⟨hOrderly.conclusive, hAgrees⟩⟩
  have hTells : Orderly (s.story t) p →
      (p ≠ .passedOn ∧ p ≠ .spoilt ∧ p ≠ .wild) →
      (∀ v, p ≠ .overruling v) → s.Agrees t := by
    intro hOrderly hPhase hOver
    refine .inr fun f hAnswer v => ?_
    rw [hOrderly.tells, hSeated.agrees hPhase hOver hAnswer]
  cases p with
  | atOnce v | named l | waiting l id | handing | ended v
  | overruled v =>
      exact hOrderly hSummary
        (hTells hSummary (by simp) (by simp))
  | passedOn =>
      exact hOrderly hSummary (.inl (hCourse.opening rfl))
  | spoilt =>
      constructor
      · intro hBoth
        exact absurd hBoth.1 hSummary.2
      · intro hPrompt
        exact absurd hPrompt hSummary.1
  | wild =>
      rcases hCourse.wild_iff.mp rfl with ⟨v, hMem, hv⟩
      rcases hFutures v hMem with ⟨f, hf⟩
      exact absurd hf (hv f)
  | _ => exact absurd hRests id

/-
  The one event that tells the end of a task is its last, and
  the driver stays in its last state, and the output has
  ended as was told, exactly if nothing made the driver end
  the task after that event: no awaiter that threw, and no
  future that it had handed the task off to.
-/
theorem Session.Reachable.ends_once_iff
    {s : Session}
    {t : Ref}
    (h : s.Reachable)
    (hFutures : HandsOverFutures (s.story t)) :
    Conclusive (s.story t) ∧ s.Agrees t ↔
      Prompt (s.story t) := by
  by_cases ht : t < s.tasks.size
  · exact (h.placed ht).ends_iff hFutures
  · have hStory : s.story t = [] := by
      rw [Session.story, getD_of_size_le _ (Nat.not_lt.mp ht)]
      rfl
    rw [Session.Agrees, hStory]
    refine ⟨fun _ => .nil, fun _ => ⟨.nil, .inr ?_⟩⟩
    intro f hAnswer
    cases hAnswer

/- A task whose callback is called twice ends once. -/
theorem Session.ends_once_calling_twice :
    Conclusive ((Session.after
      (.awaiting .callingTwice)).story 0) ∧
    (Session.after (.awaiting .callingTwice)).Agrees 0 :=
  (Session.Reachable.ends_once_iff (t := 0)
    (.after (.awaiting .callingTwice))
    (by decide +kernel)).mpr (by decide +kernel)

/-
  An awaiter that calls back and then throws makes the task
  end twice, with a success and with a failure.
-/
theorem Session.ends_twice_calling_and_throwing :
    (Session.after (.awaiting .callingAndThrowing)).Reachable ∧
    Session.HandsOverFutures ((Session.after
      (.awaiting .callingAndThrowing)).story 0) ∧
    ¬ Conclusive ((Session.after
      (.awaiting .callingAndThrowing)).story 0) :=
  ⟨.after (.awaiting .callingAndThrowing),
    by decide +kernel, by decide +kernel⟩

end Resumption

import Resumption.Proofs.Task.Course

/-
  What a course says about suspensions, jumps and the events
  that tell of them: they take turns, and each closes what
  was opened just before it.

  Main declarations:
    * `Alternates`
    * `Course.alternates_parking`
    * `Course.alternates_jumping`
    * `Course.alternates_pausing`
    * `Course.jumps_unsettled`
-/

namespace Resumption

------------------------------------------------------------
-- Alternation
------------------------------------------------------------

/- Something is opened, or something is closed. -/
inductive Mark (α : Type) where
  | opening (a : α)
  | closing (a : α)

variable {α : Type}

/-
  Marks in the order of time strictly alternate: the first
  one opens, and each closing one closes what the mark just
  before it opened.
-/
inductive Alternates : List (Mark α) → Prop where
  | nil : Alternates []
  | open_ (a : α) : Alternates [.opening a]
  | pair
      {rest}
      (a : α)
      (h : Alternates rest) :
      Alternates (.opening a :: .closing a :: rest)

/- Marks, the latest first, alternate and leave nothing open. -/
inductive Closed : List (Mark α) → Prop where
  | nil : Closed []
  | pair
      {a marks}
      (h : Closed marks) :
      Closed (.closing a :: .opening a :: marks)

/- Marks, the latest first, alternate up to what is open. -/
def OpenAt
    (marks : List (Mark α)) : Option α → Prop
  | none => Closed marks
  | some a => ∃ earlier,
      marks = .opening a :: earlier ∧ Closed earlier

theorem OpenAt.opening
    {marks : List (Mark α)}
    (h : OpenAt marks none)
    (a : α) :
    OpenAt (.opening a :: marks) (some a) :=
  ⟨marks, rfl, h⟩

theorem OpenAt.closing
    {marks : List (Mark α)}
    {a : α}
    (h : OpenAt marks (some a)) :
    OpenAt (.closing a :: marks) none := by
  rcases h with ⟨earlier, rfl, hEarlier⟩
  exact .pair hEarlier

theorem OpenAt.mem
    {marks : List (Mark α)}
    {a : α}
    (h : OpenAt marks (some a)) :
    .opening a ∈ marks := by
  rcases h with ⟨earlier, rfl, _⟩
  exact List.mem_cons_self

/- What alternates can follow what was closed before it. -/
theorem Closed.alternates_append
    {marks rest : List (Mark α)}
    (h : Closed marks)
    (hRest : Alternates rest) :
    Alternates (marks.reverse ++ rest) := by
  induction h generalizing rest with
  | nil => exact hRest
  | @pair a marks _ ih =>
      have hSplit :
          (.closing a :: .opening a :: marks).reverse ++ rest =
            marks.reverse ++
              (.opening a :: .closing a :: rest) := by
        simp
      rw [hSplit]
      exact ih (.pair a hRest)

/- What alternates backwards in time alternates. -/
theorem OpenAt.alternates
    {marks : List (Mark α)}
    {o : Option α}
    (h : OpenAt marks o) :
    Alternates marks.reverse := by
  cases o with
  | none =>
      have hNil := Closed.alternates_append h .nil
      simpa using hNil
  | some a =>
      rcases h with ⟨earlier, rfl, hEarlier⟩
      have hLast := hEarlier.alternates_append (.open_ a)
      simpa using hLast

------------------------------------------------------------
-- Marks in a Story
------------------------------------------------------------

namespace Moment

/- Suspensions open at their labels, and jumps close them. -/
def parking? : Moment → Option (Mark Value)
  | .suspends l => some (.opening l)
  | .jumps l _ => some (.closing l)
  | _ => none

/- Jumps open at their labels, and landings close them. -/
def jumping? : Moment → Option (Mark Value)
  | .jumps l _ => some (.opening l)
  | .lands l => some (.closing l)
  | _ => none

/- The events of suspensions open, those of resumptions close. -/
def pausing? : Moment → Option (Mark Value)
  | .told (.suspend id) => some (.opening id)
  | .told (.resume id) => some (.closing id)
  | _ => none

/- Is it a number that a suspension names, if this tells of one? -/
def numbers : Moment → Bool
  | .told (.suspend (.int _)) => true
  | .told (.suspend _) => false
  | _ => true

/- The end of a task neither suspends it nor resumes it. -/
theorem Strays.unmarked
    {m : Moment}
    (h : m.Strays) :
    m.parking? = none ∧ m.jumping? = none ∧
      m.pausing? = none := by
  cases m with
  | told event =>
      cases event <;>
        simp_all [Strays, Ends, Event.verdict?, parking?,
          jumping?, pausing?]
  | stands state => exact ⟨rfl, rfl, rfl⟩
  | asks callback future => exact ⟨rfl, rfl, rfl⟩
  | concludes => exact ⟨rfl, rfl, rfl⟩
  | unregistered e => exact ⟨rfl, rfl, rfl⟩
  | settles outcome => exact ⟨rfl, rfl, rfl⟩
  | _ => cases h

theorem Ends.strays
    {m : Moment}
    (h : m.Ends) :
    m.Strays := by
  cases m with
  | told event => cases event <;> first | exact h | trivial
  | stands state => cases state <;> first | exact h | trivial
  | asks callback future => trivial
  | _ => exact h

end Moment

------------------------------------------------------------
-- Alternation in a Course
------------------------------------------------------------

namespace Phase

/- The label that a suspension in this phase is to resume at. -/
def ParksAt
    (p : Phase)
    (o : Option Value) : Prop :=
  match p with
  | .named l => o = some l
  | .waiting l _ => o = some l
  | .resuming l _ => o = some l
  | .called l => o = some l
  | .fresh => o = none
  | .begun => o = none
  | .taking => o = none
  | .parking => o = none
  | .inside _ => o = none
  | _ => True

/- The label that is being jumped to in this phase. -/
def JumpsAt
    (p : Phase)
    (o : Option Value) : Prop :=
  match p with
  | .inside l => o = some l
  | _ => o = none

/- The suspension that was told of last in this phase. -/
def PausesAt
    (p : Phase)
    (o : Option Value) : Prop :=
  match p with
  | .waiting _ id => o = some id
  | .resuming _ id => o = some id
  | .fresh => o = none
  | .begun => o = none
  | .called _ => o = none
  | .inside _ => o = none
  | .taking => o = none
  | .parking => o = none
  | .named _ => o = none
  | _ => True

end Phase

namespace Course

variable {story : List Moment}
variable {p : Phase}

/- A verdict is told neither on suspending nor on resuming. -/
private theorem pausing?_of_verdict
    {event : Event}
    {v : Verdict}
    (h : event.verdict? = some v) :
    (Moment.told event).pausing? = none := by
  cases event <;> simp_all [Event.verdict?, Moment.pausing?]

theorem openAt_parking
    (h : Course story p) :
    ∃ o, OpenAt (story.filterMap Moment.parking?) o ∧
      p.ParksAt o := by
  induction h with
  | nil => exact ⟨none, .nil, rfl⟩
  | @cons story p m q _ hLeads ih =>
      rcases ih with ⟨o, hOpen, hAt⟩
      cases hLeads with
      | name =>
          obtain rfl : o = none := hAt
          exact ⟨_, hOpen.opening _, rfl⟩
      | jump =>
          obtain rfl := hAt
          exact ⟨none, hOpen.closing, rfl⟩
      | again hEnds =>
          rw [List.filterMap_cons_none hEnds.strays.unmarked.1]
          exact ⟨o, hOpen, trivial⟩
      | strayOn hStrays =>
          rw [List.filterMap_cons_none hStrays.unmarked.1]
          exact ⟨o, hOpen, trivial⟩
      | relapse hAgain | relapseOver hAgain
      | relapseOverruled hAgain =>
          rcases hAgain with rfl | ⟨e, rfl⟩ <;>
            exact ⟨o, hOpen, trivial⟩
      | _ =>
          refine ⟨o, hOpen, ?_⟩
          first | exact hAt | trivial

theorem openAt_jumping
    (h : Course story p) :
    ∃ o, OpenAt (story.filterMap Moment.jumping?) o ∧
      p.JumpsAt o := by
  induction h with
  | nil => exact ⟨none, .nil, rfl⟩
  | @cons story p m q _ hLeads ih =>
      rcases ih with ⟨o, hOpen, hAt⟩
      cases hLeads with
      | jump =>
          obtain rfl : o = none := hAt
          exact ⟨_, hOpen.opening _, rfl⟩
      | land =>
          obtain rfl := hAt
          exact ⟨none, hOpen.closing, rfl⟩
      | again hEnds =>
          rw [List.filterMap_cons_none
            hEnds.strays.unmarked.2.1]
          exact ⟨o, hOpen, hAt⟩
      | strayOn hStrays =>
          rw [List.filterMap_cons_none hStrays.unmarked.2.1]
          exact ⟨o, hOpen, hAt⟩
      | relapse hAgain | relapseOver hAgain
      | relapseOverruled hAgain =>
          rcases hAgain with rfl | ⟨e, rfl⟩ <;>
            exact ⟨o, hOpen, hAt⟩
      | _ => exact ⟨o, hOpen, hAt⟩

/- Every suspension that was told of named a number. -/
def Numbered (story : List Moment) : Prop :=
  ∀ id, .told (.suspend id) ∈ story → ∃ n, id = .int n

instance (story : List Moment) : Decidable (Numbered story) :=
  decidable_of_iff (∀ m ∈ story, m.numbers = true) (by
    constructor
    · intro h id hMem
      have hNumber := h _ hMem
      cases id with
      | int n => exact ⟨n, rfl⟩
      | _ => cases hNumber
    · intro h m hMem
      cases m with
      | told event =>
          cases event with
          | suspend id =>
              rcases h id hMem with ⟨n, rfl⟩
              rfl
          | _ => rfl
      | _ => rfl)

theorem openAt_pausing
    (h : Course story p)
    (hIds : Numbered story) :
    ∃ o, OpenAt (story.filterMap Moment.pausing?) o ∧
      p.PausesAt o := by
  induction h with
  | nil => exact ⟨none, .nil, rfl⟩
  | @cons story p m q _ hLeads ih =>
      rcases ih fun id hId =>
        hIds id (List.mem_cons_of_mem m hId) with
          ⟨o, hOpen, hAt⟩
      cases hLeads with
      | wait =>
          obtain rfl : o = none := hAt
          exact ⟨_, hOpen.opening _, rfl⟩
      | @resume l id id' hSame =>
          obtain rfl : o = some id := hAt
          -- The suspension is in the story: its number tells
          -- that the resumption named the same label.
          obtain ⟨m, hMem, hMark⟩ :=
            List.mem_filterMap.mp hOpen.mem
          have hTold : m = .told (.suspend id) := by
            cases m with
            | told event =>
                cases event <;> simp_all [Moment.pausing?]
            | _ => simp [Moment.pausing?] at hMark
          subst hTold
          obtain ⟨n, rfl⟩ :=
            hIds id (List.mem_cons_of_mem _ hMem)
          rw [hSame n rfl]
          exact ⟨none, hOpen.closing, rfl⟩
      | again hEnds =>
          rw [List.filterMap_cons_none
            hEnds.strays.unmarked.2.2]
          exact ⟨o, hOpen, trivial⟩
      | strayOn hStrays =>
          rw [List.filterMap_cons_none hStrays.unmarked.2.2]
          exact ⟨o, hOpen, trivial⟩
      | finish hTells | tell hTells | overrule hTells
      | spoil hTells =>
          rw [List.filterMap_cons_none
            (pausing?_of_verdict hTells)]
          exact ⟨o, hOpen, trivial⟩
      | relapse hAgain | relapseOver hAgain
      | relapseOverruled hAgain =>
          rcases hAgain with rfl | ⟨e, rfl⟩ <;>
            exact ⟨o, hOpen, trivial⟩
      | _ =>
          refine ⟨o, hOpen, ?_⟩
          first | exact hAt | trivial

/- Marks of a story, in the order of time. -/
private theorem alternates_reverse
    {f : Moment → Option (Mark Value)}
    {o : Option Value}
    (h : OpenAt (story.filterMap f) o) :
    Alternates (story.reverse.filterMap f) := by
  rw [List.filterMap_reverse]
  exact h.alternates

/- Each jump leads to the label that was suspended at last. -/
theorem alternates_parking
    (h : Course story p) :
    Alternates (story.reverse.filterMap Moment.parking?) := by
  rcases h.openAt_parking with ⟨o, hOpen, _⟩
  exact alternates_reverse hOpen

/- No jump starts before the last one has landed. -/
theorem alternates_jumping
    (h : Course story p) :
    Alternates (story.reverse.filterMap Moment.jumping?) := by
  rcases h.openAt_jumping with ⟨o, hOpen, _⟩
  exact alternates_reverse hOpen

/- The events of suspensions and resumptions take turns. -/
theorem alternates_pausing
    (h : Course story p)
    (hIds : Numbered story) :
    Alternates (story.reverse.filterMap Moment.pausing?) := by
  rcases h.openAt_pausing hIds with ⟨o, hOpen, _⟩
  exact alternates_reverse hOpen

/- No jump starts once the output has settled. -/
theorem jumps_unsettled
    (h : Course story p)
    {l : Value}
    {settled : Bool}
    (hMem : .jumps l settled ∈ story) :
    settled = false := by
  induction h with
  | nil => simp at hMem
  | cons _ hLeads ih =>
      rcases List.mem_cons.mp hMem with rfl | hEarlier
      · cases hLeads with
        | jump => rfl
        | relapse hAgain => simp at hAgain
        | relapseOver hAgain => simp at hAgain
        | relapseOverruled hAgain => simp at hAgain
        | again hEnds => cases hEnds
        | strayOn hStrays => cases hStrays
      · exact ih hEarlier

end Course

end Resumption

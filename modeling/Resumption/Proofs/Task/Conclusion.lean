import Resumption.Proofs.Task.Course

/-
  What a course says about the end of a task: unless it is
  made to end again, one event tells how it ends, none comes
  after that, and the driver stays in its last state.

  Main declarations:
    * `Conclusive`, `Prompt`, `Tells`
    * `Course.summary`
-/

namespace Resumption

------------------------------------------------------------
-- Conclusive Stories
------------------------------------------------------------

/- The event that a moment tells of. -/
def Moment.told? : Moment → Option Event
  | .told event => some event
  | _ => none

theorem Moment.told?_eq_some
    {m : Moment}
    {event : Event} :
    m.told? = some event ↔ m = .told event := by
  cases m <;> simp [told?]

/- Does a moment tell how the task ends? -/
def Moment.IsTerminal (m : Moment) : Prop :=
  ∃ event, m = .told event ∧ event.verdict?.isSome

instance : DecidablePred Moment.IsTerminal := fun m =>
  decidable_of_iff
    (∃ event ∈ m.told?, event.verdict?.isSome)
    (by simp only [Option.mem_def, Moment.told?_eq_some,
      Moment.IsTerminal])

/-
  A moment in which the driver is made to end its task from
  outside: the future that it handed off to settles, or an
  awaiter throws out of the registration.
-/
def Moment.Reopens : Moment → Prop
  | .concludes => True
  | .unregistered _ => True
  | _ => False

instance : DecidablePred Moment.Reopens
  | .concludes => isTrue trivial
  | .unregistered _ => isTrue trivial
  | .told _ => isFalse id
  | .stands _ => isFalse id
  | .suspends _ => isFalse id
  | .jumps _ _ => isFalse id
  | .lands _ => isFalse id
  | .handsOver _ => isFalse id
  | .asks _ _ => isFalse id
  | .refused _ => isFalse id
  | .settles _ => isFalse id
  | .answers _ => isFalse id

/- The state that a moment enters. -/
def Moment.stands? : Moment → Option DriverState
  | .stands state => some state
  | _ => none

theorem Moment.stands?_eq_some
    {m : Moment}
    {state : DriverState} :
    m.stands? = some state ↔ m = .stands state := by
  cases m <;> simp [stands?]

/-
  A moment can follow an earlier one: no event follows one
  that told the end, and no other state follows a last one.
-/
def Moment.MayFollow (later earlier : Moment) : Prop :=
  (earlier.IsTerminal → ∀ event, later ≠ .told event) ∧
    ∀ state state',
      later = .stands state → earlier = .stands state' →
        state'.IsFinal → state = state'

instance : DecidableRel Moment.MayFollow := fun later earlier =>
  decidable_of_iff
    ((earlier.IsTerminal → later.told? = none) ∧
      ∀ state ∈ later.stands?, ∀ state' ∈ earlier.stands?,
        state'.IsFinal → state = state')
    (by
      simp only [Moment.MayFollow, Option.mem_def,
        Moment.stands?_eq_some, ne_eq,
        Option.eq_none_iff_forall_ne_some,
        Moment.told?_eq_some]
      refine and_congr_right fun _ => ⟨?_, ?_⟩
      · intro h state state' hLater hEarlier
        exact h state hLater state' hEarlier
      · intro h state hLater state' hEarlier
        exact h state state' hLater hEarlier)

/-
  At most one event of a story, the latest moment first,
  tells the end; none follows it, and a last state is kept.
-/
def Conclusive (story : List Moment) : Prop :=
  story.Pairwise Moment.MayFollow

instance (story : List Moment) : Decidable (Conclusive story) :=
  inferInstanceAs (Decidable (story.Pairwise _))

/- Nothing makes a task end after an event told its end. -/
def Prompt (story : List Moment) : Prop :=
  story.Pairwise fun later earlier =>
    later.Reopens → ¬ earlier.IsTerminal

instance (story : List Moment) : Decidable (Prompt story) :=
  inferInstanceAs (Decidable (story.Pairwise _))

/- An event of a story told that the task ends so. -/
def Tells
    (story : List Moment)
    (v : Verdict) : Prop :=
  ∃ event, .told event ∈ story ∧ event.verdict? = some v

theorem Tells.isTerminal
    {story : List Moment}
    {v : Verdict}
    (h : Tells story v) :
    ∃ m ∈ story, m.IsTerminal := by
  rcases h with ⟨event, hMem, hVerdict⟩
  exact ⟨_, hMem, event, rfl, by simp [hVerdict]⟩

theorem Moment.IsTerminal.tells
    {story : List Moment}
    {m : Moment}
    (h : m.IsTerminal)
    (hMem : m ∈ story) :
    ∃ v, Tells story v := by
  rcases h with ⟨event, rfl, hVerdict⟩
  obtain ⟨v, hv⟩ := Option.isSome_iff_exists.mp hVerdict
  exact ⟨v, event, hMem, hv⟩

theorem tells_cons
    {story : List Moment}
    {m : Moment}
    {v : Verdict} :
    Tells (m :: story) v ↔
      (∃ event, m = .told event ∧ event.verdict? = some v) ∨
        Tells story v := by
  constructor
  · rintro ⟨event, hMem, hVerdict⟩
    rcases List.mem_cons.mp hMem with rfl | hEarlier
    · exact .inl ⟨event, rfl, hVerdict⟩
    · exact .inr ⟨event, hEarlier, hVerdict⟩
  · rintro (⟨event, rfl, hVerdict⟩ | ⟨event, hMem, hVerdict⟩)
    · exact ⟨event, List.mem_cons_self, hVerdict⟩
    · exact ⟨event, List.mem_cons_of_mem _ hMem, hVerdict⟩

------------------------------------------------------------
-- Phases of an Orderly Task
------------------------------------------------------------

namespace Phase

/- The verdict that was told by this phase. -/
def verdict? : Phase → Option Verdict
  | .atOnce v => some v
  | .closing v => some v
  | .ended v => some v
  | .overruling v => some v
  | .overruled v => some v
  | _ => none

/- Is the driver not in its last state yet? -/
def IsEarly : Phase → Prop
  | .atOnce _ => False
  | .ending => False
  | .closing _ => False
  | .ended _ => False
  | .overturning => False
  | .overruling _ => False
  | .overruled _ => False
  | _ => True

end Phase

/-
  A story that has come to a phase without ending again: the
  one event that told the end is that of the phase, if any.
-/
structure Orderly
    (story : List Moment)
    (p : Phase) : Prop where
  conclusive : Conclusive story
  prompt : Prompt story
  tells : ∀ v, Tells story v ↔ p.verdict? = some v
  early : p.IsEarly →
    ∀ state, .stands state ∈ story → ¬ state.IsFinal

/- A moment that ends nothing twice keeps a story orderly. -/
theorem Orderly.cons
    {story : List Moment}
    {p q : Phase}
    {m : Moment}
    (h : Orderly story p)
    (hTold : ∀ event, m = .told event → p.verdict? = none)
    (hStands : ∀ state, m = .stands state → p.IsEarly)
    (hReopens : m.Reopens → p.verdict? = none)
    (hVerdict : ∀ v, q.verdict? = some v ↔
      (∃ event, m = .told event ∧ event.verdict? = some v) ∨
        p.verdict? = some v)
    (hEarly : q.IsEarly →
      p.IsEarly ∧ ∀ state, m = .stands state →
        ¬ state.IsFinal) :
    Orderly (m :: story) q where
  conclusive := by
    refine List.pairwise_cons.mpr ⟨?_, h.conclusive⟩
    intro earlier hMem
    constructor
    · intro hTerminal event hm
      rcases hTerminal.tells hMem with ⟨v, hv⟩
      have hSome := (h.tells v).mp hv
      rw [hTold event hm] at hSome
      cases hSome
    · intro state state' hm hEarlier hFinal
      subst hEarlier
      exact absurd hFinal (h.early (hStands state hm) _ hMem)
  prompt := by
    refine List.pairwise_cons.mpr ⟨?_, h.prompt⟩
    intro earlier hMem hm hTerminal
    rcases hTerminal.tells hMem with ⟨v, hv⟩
    have hSome := (h.tells v).mp hv
    rw [hReopens hm] at hSome
    cases hSome
  tells v := by
    rw [tells_cons, h.tells, hVerdict]
  early hq state hMem := by
    rcases hEarly hq with ⟨hp, hm⟩
    rcases List.mem_cons.mp hMem with rfl | hEarlier
    · exact hm state rfl
    · exact h.early hp state hEarlier

------------------------------------------------------------
-- Ending Again
------------------------------------------------------------

theorem not_prompt_cons
    {story : List Moment}
    {m : Moment}
    {v : Verdict}
    (h : Tells story v)
    (hm : m.Reopens) :
    ¬ Prompt (m :: story) := by
  intro hPrompt
  rcases h.isTerminal with ⟨earlier, hMem, hTerminal⟩
  exact (List.pairwise_cons.mp hPrompt).1 earlier hMem hm
    hTerminal

theorem not_conclusive_cons
    {story : List Moment}
    {event : Event}
    {v : Verdict}
    (h : Tells story v) :
    ¬ Conclusive (.told event :: story) := by
  intro hConclusive
  rcases h.isTerminal with ⟨earlier, hMem, hTerminal⟩
  exact ((List.pairwise_cons.mp hConclusive).1 earlier hMem).1
    hTerminal event rfl

theorem Prompt.of_cons
    {story : List Moment}
    {m : Moment}
    (h : Prompt (m :: story)) :
    Prompt story :=
  (List.pairwise_cons.mp h).2

theorem Conclusive.of_cons
    {story : List Moment}
    {m : Moment}
    (h : Conclusive (m :: story)) :
    Conclusive story :=
  (List.pairwise_cons.mp h).2

------------------------------------------------------------
-- Summaries
------------------------------------------------------------

/- What a story that leads to a phase says about its end. -/
def Summary
    (story : List Moment) : Phase → Prop
  | .relapsing => ¬ Prompt story ∧ ∃ v, Tells story v
  | .spoilt => ¬ Prompt story ∧ ¬ Conclusive story
  | .wild => True
  | p => Orderly story p

/- A task that was told to end is made to end again. -/
private theorem Orderly.relapse
    {story : List Moment}
    {p : Phase}
    {v : Verdict}
    {m : Moment}
    (h : Orderly story p)
    (hp : p.verdict? = some v)
    (hm : m = .concludes ∨ ∃ e, m = .unregistered e) :
    ¬ Prompt (m :: story) ∧ ∃ v, Tells (m :: story) v := by
  have hTells := (h.tells v).mpr hp
  have hReopens : m.Reopens := by
    rcases hm with rfl | ⟨e, rfl⟩ <;> trivial
  exact ⟨not_prompt_cons hTells hReopens, v,
    tells_cons.mpr (.inr hTells)⟩

/- An answer neither ends a task nor tells how it ends. -/
private theorem Orderly.answer
    {story : List Moment}
    {p : Phase}
    (h : Orderly story p)
    (v : Value) :
    Orderly (.answers v :: story) p := by
  refine h.cons ?_ ?_ ?_ ?_ ?_ <;> simp [Moment.Reopens]

private theorem Summary.answer
    {story : List Moment}
    {p : Phase}
    (h : Summary story p)
    (v : Value) :
    Summary (.answers v :: story) p := by
  cases p with
  | relapsing =>
      rcases h with ⟨hPrompt, w, hw⟩
      exact ⟨fun h => hPrompt h.of_cons, w,
        tells_cons.mpr (.inr hw)⟩
  | spoilt =>
      exact ⟨fun hp => h.1 hp.of_cons, fun hc => h.2 hc.of_cons⟩
  | wild => trivial
  | _ => exact Orderly.answer h v

theorem Course.summary
    {story : List Moment}
    {p : Phase}
    (h : Course story p) :
    Summary story p := by
  induction h with
  | nil =>
      exact ⟨.nil, .nil, fun v => by
        simp [Tells, Phase.verdict?], by simp⟩
  | cons _ hLeads ih =>
      cases hLeads with
      | answer => exact ih.answer _
      | relapse hm => exact Orderly.relapse ih rfl hm
      | relapseOver hm => exact Orderly.relapse ih rfl hm
      | relapseOverruled hm => exact Orderly.relapse ih rfl hm
      | stand =>
          rcases ih with ⟨hPrompt, v, hv⟩
          exact ⟨fun h => hPrompt h.of_cons, v,
            tells_cons.mpr (.inr hv)⟩
      | spoil =>
          rcases ih with ⟨hPrompt, v, hv⟩
          exact ⟨fun h => hPrompt h.of_cons,
            not_conclusive_cons hv⟩
      | again =>
          exact ⟨fun h => ih.1 h.of_cons,
            fun h => ih.2 h.of_cons⟩
      | stray => trivial
      | strayOn => trivial
      | _ =>
          refine Orderly.cons ih ?_ ?_ ?_ ?_ ?_ <;>
            simp_all [Phase.verdict?, Phase.IsEarly,
              Moment.Reopens, Event.verdict?,
              DriverState.IsFinal, eq_comm]

end Resumption

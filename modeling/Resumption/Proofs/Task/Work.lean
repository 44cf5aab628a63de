import Resumption.Task.Start
import Resumption.Proofs.Task.Constructs
import Resumption.Proofs.Task.Notices

/-
  Work on a task: what holds while somebody changes its story
  and its driver, and all other tasks stand as they stood.

  Main declarations:
    * `AtWork`, `Desk`
    * `AtWork.noted`, `AtWork.reseated`
    * `AtWork.hold`, `AtWork.rest`
-/

namespace Resumption

open Session World

------------------------------------------------------------
-- At Work
------------------------------------------------------------

/-
  Somebody is at work on a task since a session: the story
  of the task has come to a phase, and all others stand.
-/
structure AtWork
    (held excused : List Ref)
    (s₀ : Session)
    (t : Ref)
    (p : Phase)
    (s : Session) : Prop where
  sane : Sane s
  stocked : s.Stocked fun c => s.Harmless c.core
  lt : t < s.tasks.size
  free : t ∉ held
  others : ∀ t' < s.tasks.size, t' ≠ t → t' ∉ held →
    Placed (t' ∈ excused) s t'
  minded : ∀ t' < s.tasks.size, t' ≠ t → t' ∉ held →
    Minds (t' ∈ excused) s t'
  holds : ∀ t' ∈ held, Held s t'
  since : Leaves held s₀ s
  spared : ∀ t' ≠ t, s.Lost t' →
    s₀.Lost t' ∧ s.turns t' = s₀.turns t'
  course : Course (s.story t) p

/- A driver drives a task, whose phase tells what it waits for. -/
structure Desk
    (s : Session)
    (t d : Ref)
    (cell : DriverCell)
    (p : Phase) : Prop where
  drives : s.Drives t d cell
  linked : s.Linked t cell
  pledges : ∀ e, s.Pledged d e → p.Pledges e

section Work

variable {held excused : List Ref}
variable {s₀ s s' : Session}
variable {t d : Ref}
variable {p q : Phase}
variable {cell : DriverCell}

------------------------------------------------------------
-- Beginning and Resting
------------------------------------------------------------

/- Work can begin on a task that nobody holds. -/
theorem AtWork.begin_
    (hs : (Driving held excused).Sound s)
    (hLt : t < s.tasks.size)
    (hFree : t ∉ held)
    (hCourse : Course (s.story t) p) :
    AtWork held excused s t p s where
  sane := hs.inv.sane
  stocked := hs.stocked
  lt := hLt
  free := hFree
  others t' ht' _ hFree' := hs.inv.placed t' ht' hFree'
  minded t' ht' _ hFree' := hs.inv.minded t' ht' hFree'
  holds := hs.inv.held
  since := .refl held s
  spared _ _ hLost := ⟨hLost, rfl⟩
  course := hCourse

/- Work can be thought of as beginning just now. -/
theorem AtWork.anew
    (h : AtWork held excused s₀ t p s) :
    AtWork held excused s t p s :=
  { h with
    since := .refl held s
    spared := fun _ _ hLost => ⟨hLost, rfl⟩ }

/- The world is sound when the task rests again. -/
theorem AtWork.sound
    (h : AtWork held excused s₀ t p s)
    (hRests : p.Rests (t ∈ excused))
    (hSeated : Seated s t p)
    (hMinds : Minds (t ∈ excused) s t) :
    (Driving held excused).Sound s where
  inv :=
    { sane := h.sane
      placed := fun t' ht' hFree => by
        by_cases hSame : t' = t
        · subst hSame
          exact ⟨p, hRests, h.course, hSeated⟩
        · exact h.others t' ht' hSame hFree
      minded := fun t' ht' hFree => by
        by_cases hSame : t' = t
        · subst hSame
          exact hMinds
        · exact h.minded t' ht' hSame hFree
      held := h.holds }
  stocked := h.stocked

/- Work is over when the task rests again, and is not lost. -/
theorem AtWork.rest
    (h : AtWork held excused s₀ t p s)
    (hRests : p.Rests (t ∈ excused))
    (hSeated : Seated s t p)
    (hMinds : Minds (t ∈ excused) s t)
    (hOwn : s.Lost t → s₀.Lost t ∧ s.turns t = s₀.turns t) :
    (Driving held excused).Moves s₀ s where
  sound := h.sound hRests hSeated hMinds
  rel := ⟨h.since, fun t' hLost => by
    by_cases hSame : t' = t
    · subst hSame
      exact hOwn hLost
    · exact h.spared t' hSame hLost⟩

/-
  Who is not lost from where the work has come is not lost
  from where it began, if the task itself goes on.
-/
theorem AtWork.spares
    (h : AtWork held excused s₀ t p s)
    (hSpares : s.Spares s')
    (hOwn : s.Lost t → s.turns t < s'.turns t) :
    s₀.Spares s' := by
  intro t' hLost
  rcases hSpares t' hLost with ⟨hOld, hTurns⟩
  by_cases hSame : t' = t
  · subst hSame
    exact absurd hTurns (Nat.ne_of_gt (hOwn hOld))
  · rcases h.spared t' hSame hOld with ⟨hFirst, hTurns'⟩
    exact ⟨hFirst, hTurns.trans hTurns'⟩

/- So what happens from there counts from where it began. -/
theorem AtWork.onto
    (h : AtWork held excused s₀ t p s)
    (hMoves : (Driving held excused).Moves s s')
    (hOwn : s.Lost t → s.turns t < s'.turns t) :
    (Driving held excused).Moves s₀ s' where
  sound := hMoves.sound
  rel := ⟨h.since.trans hMoves.rel.toLeaves,
    h.spares hMoves.rel.spares hOwn⟩

/- A driver's task is seated when its cell suits the phase. -/
theorem Desk.seated
    (h : Desk s t d cell p)
    (hSuits : Suits s cell p) :
    Seated s t p :=
  .inr ⟨d, cell, h.drives, h.linked, hSuits, h.pledges⟩

/- In a phase for that, nobody is to tell the driver. -/
theorem Desk.unpledged
    (h : Desk s t d cell p)
    (hNone : p.pledges? = none)
    (e : Errand) :
    ¬ s.Pledged d e := by
  intro hp
  have hPledges := h.pledges e hp
  rw [Phase.Pledges, hNone] at hPledges
  cases hPledges

/- What its driver is mindful of is all the task minds. -/
theorem Desk.minds
    {excused : Prop}
    (h : Desk s t d cell p)
    (hSane : Sane s)
    (hCourse : Course (s.story t) p)
    (hMindful : Mindful excused s d cell p) :
    Minds excused s t := by
  intro d' cell' p' hDrives hCourse'
  obtain rfl := hSane.sole t d d' cell cell' h.drives hDrives
  obtain ⟨_, rfl⟩ := h.drives.unique hDrives
  obtain rfl := hCourse.det hCourse'
  exact hMindful

------------------------------------------------------------
-- Letting Others Do Something
------------------------------------------------------------

/- While nobody can move the task, it is held. -/
theorem AtWork.hold
    (h : AtWork held excused s₀ t p s)
    (hStill : ∀ d cell, s.Drives t d cell → Still s d cell) :
    (Driving (t :: held) excused).Sound s where
  inv :=
    { sane := h.sane
      placed := fun t' ht' hFree => by
        rw [List.mem_cons, not_or] at hFree
        exact h.others t' ht' hFree.1 hFree.2
      minded := fun t' ht' hFree => by
        rw [List.mem_cons, not_or] at hFree
        exact h.minded t' ht' hFree.1 hFree.2
      held := fun t' ht' => by
        rcases List.mem_cons.mp ht' with rfl | hOld
        · exact ⟨h.lt, hStill⟩
        · exact h.holds t' hOld }
  stocked := h.stocked

/- Work goes on after others did something. -/
theorem AtWork.moved
    (h : AtWork held excused s₀ t p s)
    (hMoves : (Driving (t :: held) excused).Moves s s') :
    AtWork held excused s₀ t p s' where
  sane := hMoves.sound.inv.sane
  stocked := hMoves.sound.stocked
  lt := (hMoves.sound.inv.held t List.mem_cons_self).1
  free := h.free
  others t' ht' hOther hFree :=
    hMoves.sound.inv.placed t' ht' (by simp [hOther, hFree])
  minded t' ht' hOther hFree :=
    hMoves.sound.inv.minded t' ht' (by simp [hOther, hFree])
  holds t' ht' :=
    hMoves.sound.inv.held t' (List.mem_cons_of_mem t ht')
  since := h.since.trans hMoves.rel.of_cons
  spared t' hOther hLost := by
    rcases hMoves.rel.spares t' hLost with ⟨hOld, hTurns⟩
    rcases h.spared t' hOther hOld with ⟨hFirst, hTurns'⟩
    exact ⟨hFirst, hTurns.trans hTurns'⟩
  course := by
    rw [(hMoves.rel.unmoved t List.mem_cons_self).story]
    exact h.course

theorem Desk.moved
    (h : Desk s t d cell p)
    (hUnmoved : s.Unmoved t s') :
    Desk s' t d cell p where
  drives := (hUnmoved.drives d cell).mpr h.drives
  linked :=
    ⟨fun v hv => h.linked.answered v (hUnmoved.story ▸ hv),
      fun k a hk => h.linked.asked k a (hUnmoved.story ▸ hk)⟩
  pledges e hp := h.pledges e (hUnmoved.pledged h.drives hp)

/- A task is still as far as its driver waits for nothing. -/
theorem Desk.still
    (h : Desk s t d cell p)
    (hSane : Sane s)
    (hCourse : Course (s.story t) p)
    (hShut : cell.Shut)
    (hFree : ∀ e, ¬ s.Pledged d e)
    (hTame : p ≠ .wild) :
    ∀ d' cell', s.Drives t d' cell' → Still s d' cell' := by
  intro d' cell' h'
  obtain rfl := hSane.sole t d d' cell cell' h.drives h'
  obtain ⟨_, rfl⟩ := h.drives.unique h'
  exact ⟨.inl hShut, hFree, fun hStray =>
    hTame (hCourse.wild_iff.mpr (h.drives.stray_iff.mp hStray))⟩

/- Work begins again when only the task at work has changed. -/
theorem AtWork.again
    (h : AtWork held excused s₀ t p s)
    (hSane : Sane s')
    (hExtends : s.Extends s')
    (hSize : s'.tasks.size = s.tasks.size)
    (hUnmoved : ∀ t' ≠ t, s.Unmoved t' s')
    (hStocked : s'.Stocked fun c => s.Harmless c.core)
    (hCourse : Course (s'.story t) q) :
    AtWork held excused s' t q s' where
  sane := hSane
  stocked := hStocked.mono fun _ => hExtends.harmless
  lt := hSize ▸ h.lt
  free := h.free
  others t' ht' hOther hFree :=
    (h.others t' (hSize ▸ ht') hOther hFree).unmoved
      (hUnmoved t' hOther) hExtends
  minded t' ht' hOther hFree :=
    (h.minded t' (hSize ▸ ht') hOther hFree).unmoved
      (hUnmoved t' hOther)
  holds t' ht' :=
    (h.holds t' ht').unmoved
      (hUnmoved t' fun h' => h.free (h' ▸ ht')) hExtends
  since := .refl held s'
  spared _ _ hLost := ⟨hLost, rfl⟩
  course := hCourse

/-
  Work goes on when no driver's output has changed either,
  and everyone still waits who waited.
-/
theorem AtWork.onward
    (h : AtWork held excused s₀ t p s)
    (hSane : Sane s')
    (hExtends : s.Extends s')
    (hSize : s'.tasks.size = s.tasks.size)
    (hUnmoved : ∀ t' ≠ t, s.Unmoved t' s')
    (hWatchers : ∀ f, ∀ w ∈ s.watchers f, w ∈ s'.watchers f)
    (hOutputs : s.KeepsOutputs s')
    (hStocked : s'.Stocked fun c => s.Harmless c.core)
    (hCourse : Course (s'.story t) q) :
    AtWork held excused s₀ t q s' :=
  { h.again hSane hExtends hSize hUnmoved hStocked hCourse with
    since := h.since.trans
      ⟨hExtends, fun t' ht' =>
        hUnmoved t' fun h' => h.free (h' ▸ ht'), hOutputs⟩
    spared := fun t' hOther hLost => by
      have hStill := hUnmoved t' hOther
      rcases h.spared t' hOther
        (hLost.of_unmoved hStill hWatchers) with
          ⟨hFirst, hTurns⟩
      exact ⟨hFirst, hStill.turns.trans hTurns⟩ }

------------------------------------------------------------
-- Moments
------------------------------------------------------------

/- A session in which a moment was added to a story. -/
def Session.noted
    (s : Session)
    (t : Ref)
    (m : Moment) : Session :=
  s.withTasks (s.tasks.modify t fun c =>
    { c with story := m :: c.story })

theorem Session.story_noted
    (t t' : Nat)
    (m : Moment) :
    (s.noted t m).story t' =
      if t = t' ∧ t' < s.tasks.size then m :: s.story t'
      else s.story t' := by
  simp only [story, noted, withTasks, getD_modify]
  split <;> rfl

theorem Session.mem_of_noted
    {t t' : Nat}
    {m m' : Moment}
    (h : m' ∈ (s.noted t m).story t') :
    m' = m ∨ m' ∈ s.story t' := by
  rw [story_noted] at h
  split at h
  · exact List.mem_cons.mp h
  · exact .inr h

/- Some moments are turns that the driver takes. -/
theorem Session.turns_noted
    {m : Moment}
    (hLt : t < s.tasks.size)
    (hTurn : m.isTurn) :
    s.turns t < (s.noted t m).turns t := by
  unfold Session.turns
  rw [story_noted, if_pos ⟨rfl, hLt⟩,
    List.countP_cons_of_pos hTurn]
  exact Nat.lt_succ_self _

/- What a driver asked for just now is what it asked for last. -/
theorem Session.asked?_noted
    {callback future : Option Ref}
    (hLt : t < s.tasks.size) :
    (s.noted t (.asks callback future)).asked? t =
      some (callback, future) := by
  rw [Session.asked?, story_noted, if_pos ⟨rfl, hLt⟩]
  rfl

theorem Session.extends_noted
    (s : Session)
    (t : Ref)
    (m : Moment) :
    s.Extends (s.noted t m) := by
  refine extends_withTasks (by simp) fun t' => ?_
  have hStory := story_noted (s := s) t t' m
  split at hStory
  · exact ⟨[m], hStory⟩
  · exact ⟨[], hStory⟩

theorem Session.unmoved_noted
    {t' : Ref}
    (hOther : t' ≠ t)
    (m : Moment) :
    s.Unmoved t' (s.noted t m) := by
  refine unmoved_withTasks (s.extends_noted t m) ?_
  have hStory := story_noted (s := s) t t' m
  rw [if_neg fun h => hOther h.1.symm] at hStory
  exact hStory

/- A moment leads the task at work to its next phase. -/
theorem AtWork.noted
    {m : Moment}
    (h : AtWork held excused s₀ t p s)
    (hLeads : p.Leads m q) :
    AtWork held excused s₀ t q (s.noted t m) := by
  have hExtends := s.extends_noted t m
  refine h.onward (sane_withTasks h.sane hExtends) hExtends
    (by simp [Session.noted, withTasks])
    (fun t' ht' => unmoved_noted ht' m) (fun _ _ hw => hw)
    (.of_drivers rfl)
    { h.stocked with } ?_
  rw [story_noted, if_pos ⟨rfl, h.lt⟩]
  exact .cons h.course hLeads

theorem Desk.noted
    {m : Moment}
    (h : Desk s t d cell p)
    (hFits : m.Fits cell.fired.size)
    (hPledges : ∀ e, (s.noted t m).Pledged d e →
      q.Pledges e) :
    Desk (s.noted t m) t d cell q where
  drives := h.drives
  linked := by
    refine ⟨fun v hv => ?_, fun k a hk => ?_⟩
    · rcases mem_of_noted hv with rfl | hOld
      · exact hFits.elim
      · exact h.linked.answered v hOld
    · rcases mem_of_noted hk with rfl | hOld
      · exact hFits
      · exact h.linked.asked k a hOld
  pledges := hPledges

/- A moment pledges nothing that was not pledged. -/
theorem Session.pledged_of_noted
    {m : Moment}
    {e : Errand}
    (h : (s.noted t m).Pledged d e) :
    s.Pledged d e :=
  pledged_withTasks (s.extends_noted t m) h

/- Nobody is to resume a task that enters a last state. -/
theorem Session.not_pledged_of_final
    {state : DriverState}
    (hDrives : s.Drives t d cell)
    (hLt : t < s.tasks.size)
    (hFinal : state.IsFinal) :
    ¬ (s.noted t (.stands state)).Pledged d .resume := by
  rintro ⟨f, w, hw, callback, rfl, hIdle⟩
  refine hIdle (.inr ⟨cell, state, hDrives.1, hFinal, ?_⟩)
  rw [hDrives.2, story_noted, if_pos ⟨rfl, hLt⟩]
  exact List.mem_cons_self

------------------------------------------------------------
-- Changes of the Cell
------------------------------------------------------------

/- A session in which a driver's cell has changed. -/
def Session.reseated
    (s : Session)
    (d : Ref)
    (g : DriverCell → DriverCell) : Session :=
  { s with drivers := s.drivers.modify d g }

/-
  A change that leaves a driver's emitter and output alone,
  and takes none of its callbacks back.
-/
structure Mild (g : DriverCell → DriverCell) : Prop where
  emitter : ∀ cell, (g cell).emitter = cell.emitter
  output : ∀ cell, (g cell).output = cell.output
  fired : ∀ cell, cell.fired.size ≤ (g cell).fired.size

theorem Session.getElem?_reseated
    {g : DriverCell → DriverCell}
    (d d' : Nat) :
    (s.reseated d g).drivers[d']? =
      if d = d' then s.drivers[d']?.map g
      else s.drivers[d']? := by
  simp only [reseated, Array.getElem?_modify]

theorem Session.drives_reseated
    {g : DriverCell → DriverCell}
    (hMild : Mild g)
    {t' d' : Ref}
    {cell' : DriverCell} :
    (s.reseated d g).Drives t' d' cell' ↔
      ∃ old, s.Drives t' d' old ∧
        cell' = if d = d' then g old else old := by
  unfold Drives
  rw [getElem?_reseated]
  constructor
  · rintro ⟨hCell, rfl⟩
    split at hCell
    · rcases Option.map_eq_some_iff.mp hCell with
        ⟨old, hOld, rfl⟩
      exact ⟨old, ⟨hOld, (hMild.emitter old) ▸ rfl⟩,
        by simp [*]⟩
    · exact ⟨cell', ⟨hCell, rfl⟩, by simp [*]⟩
  · rintro ⟨old, ⟨hOld, rfl⟩, rfl⟩
    split
    · simp [hOld, hMild.emitter]
    · simp [hOld]

theorem Session.isOutput_reseated
    {g : DriverCell → DriverCell}
    (hMild : Mild g)
    {f : Ref} :
    (s.reseated d g).IsOutput f ↔ s.IsOutput f := by
  constructor
  · rintro ⟨d', cell', hCell', hOutput⟩
    rcases (drives_reseated hMild).mp ⟨hCell', rfl⟩ with
      ⟨old, hOld, rfl⟩
    refine ⟨d', old, hOld.1, ?_⟩
    split at hOutput
    · rw [← hOutput, hMild.output]
    · exact hOutput
  · rintro ⟨d', old, hOld, hOutput⟩
    have hNew := (drives_reseated (d := d) hMild).mpr
      ⟨old, ⟨hOld, rfl⟩, rfl⟩
    refine ⟨d', _, hNew.1, ?_⟩
    split
    · rw [hMild.output, hOutput]
    · exact hOutput

/-
  Drivers change, and some future may come to be an output;
  the tables still fit together if the drivers' own do.
-/
theorem Sane.redriven
    (hs : Sane s)
    (hExtends : s.Extends s')
    (hOwner : ∀ t d cell, s'.Drives t d cell →
      t < s'.tasks.size)
    (hSole : ∀ t d d' cell cell',
      s'.Drives t d cell → s'.Drives t d' cell' → d = d')
    (hOutput : ∀ f, s'.IsOutput f → f < s'.futures.size)
    (hOutputs : ∀ (f : Ref) (d d' : Nat)
      (cell cell' : DriverCell),
      s'.drivers[d]? = some cell →
        s'.drivers[d']? = some cell' →
          cell.output = some f → cell'.output = some f → d = d')
    (hWatchers : ∀ f, s'.watchers f = s.watchers f)
    (hUnwatched : ∀ f, (s'.outcome? f).isSome →
      s'.watchers f = [])
    (hLabels : s'.labels = s.labels)
    (hRecoveries : s'.recoveries = s.recoveries)
    (hCleanups : s'.cleanups = s.cleanups)
    (hDeferreds : s'.deferreds = s.deferreds)
    (hControlled : s'.controlled = s.controlled) :
    Sane s' where
  owner := hOwner
  sole := hSole
  output_lt := hOutput
  output_sole := hOutputs
  watcher f w hw :=
    (hs.watcher f w (hWatchers f ▸ hw)).imp hExtends.harmless
      hExtends.isPledge
  unwatched := hUnwatched
  once d e f f' w w' hw hw' ht ht' :=
    hs.once d e f f' w w' (hWatchers f ▸ hw)
      (hWatchers f' ▸ hw') (hExtends.tokens ht)
      (hExtends.tokens ht')
  apart f := by
    rw [hWatchers]
    exact (hs.apart f).imp fun hApart d e ht ht' =>
      hApart d e (hExtends.tokens ht) (hExtends.tokens ht')
  audience f w hw :=
    hExtends.audience f w (hs.audience f w (hWatchers f ▸ hw))
  code l c hc :=
    hExtends.harmless (hs.code l c (hLabels ▸ hc))
  handler i := by
    rw [hRecoveries]
    exact hExtends.harmless (hs.handler i)
  compensation i := by
    rw [hCleanups]
    exact hExtends.harmless (hs.compensation i)
  deferred r f hf :=
    hExtends.loose (hs.deferred r f (hDeferreds ▸ hf))
  controlled r cell hCell :=
    hExtends.loose (hs.controlled r cell (hControlled ▸ hCell))

theorem Session.extends_reseated
    {g : DriverCell → DriverCell}
    (hMild : Mild g) :
    s.Extends (s.reseated d g) :=
  { Extends.refl s with
    drivers := fun d' old hOld => by
      have hNew := (drives_reseated (d := d) hMild).mpr
        ⟨old, ⟨hOld, rfl⟩, rfl⟩
      refine ⟨_, hNew.1, ?_, fun f hf => ?_⟩
      · split
        · exact hMild.emitter old
        · rfl
      · split
        · rw [hMild.output, hf]
        · exact hf
    outputs := fun f _ => (isOutput_reseated hMild).mp }

theorem Sane.reseated
    {g : DriverCell → DriverCell}
    (hs : Sane s)
    (hMild : Mild g) :
    Sane (s.reseated d g) := by
  refine hs.redriven (extends_reseated hMild) ?_ ?_ ?_ ?_
    (fun _ => rfl) hs.unwatched rfl rfl rfl rfl rfl
  · intro t' d' cell' h'
    rcases (drives_reseated hMild).mp h' with ⟨old, hOld, _⟩
    exact hs.owner t' d' old hOld
  · intro t' d₁ d₂ cell₁ cell₂ h₁ h₂
    rcases (drives_reseated hMild).mp h₁ with ⟨old₁, hOld₁, _⟩
    rcases (drives_reseated hMild).mp h₂ with ⟨old₂, hOld₂, _⟩
    exact hs.sole t' d₁ d₂ old₁ old₂ hOld₁ hOld₂
  · intro f hf
    exact hs.output_lt f ((isOutput_reseated hMild).mp hf)
  · intro f d₁ d₂ cell₁ cell₂ h₁ h₂ hf₁ hf₂
    rcases (drives_reseated hMild).mp ⟨h₁, rfl⟩ with
      ⟨old₁, hOld₁, rfl⟩
    rcases (drives_reseated hMild).mp ⟨h₂, rfl⟩ with
      ⟨old₂, hOld₂, rfl⟩
    have hSame : ∀ d' (old : DriverCell),
        (if d = d' then g old else old).output = old.output := by
      intro d' old
      split
      · exact hMild.output old
      · rfl
    rw [hSame] at hf₁ hf₂
    exact hs.output_sole f d₁ d₂ old₁ old₂ hOld₁.1 hOld₂.1
      hf₁ hf₂

/- A change of a driver's cell happens to its own task alone. -/
theorem Session.unmoved_reseated
    {g : DriverCell → DriverCell}
    (hMild : Mild g)
    (hDrives : s.Drives t d cell)
    {t' : Ref}
    (hOther : t' ≠ t) :
    s.Unmoved t' (s.reseated d g) where
  story := rfl
  drives d' cell' := by
    have hApart : ∀ old, s.Drives t' d' old → d ≠ d' := by
      rintro old hOld rfl
      have hCell := Option.some.inj
        (hDrives.1.symm.trans hOld.1)
      exact hOther (hOld.2.symm.trans
        (hCell ▸ hDrives.2))
    rw [drives_reseated hMild]
    constructor
    · rintro ⟨old, hOld, rfl⟩
      rw [if_neg (hApart old hOld)]
      exact hOld
    · intro hOld
      exact ⟨cell', hOld, by rw [if_neg (hApart cell' hOld)]⟩
  ending _ _ _ := rfl
  tokens _ _ _ _ _ _ hw hToken :=
    ⟨hw, (extends_reseated hMild).tokens hToken⟩

theorem Session.keepsOutputs_reseated
    {g : DriverCell → DriverCell}
    (hMild : Mild g) :
    s.KeepsOutputs (s.reseated d g) := by
  intro d' cell₁ cell₂ h₁ h₂
  rw [getElem?_reseated, h₁] at h₂
  split at h₂
  · have hCell := Option.some.inj h₂
    rw [← hCell, hMild.output]
  · rw [Option.some.inj h₂]

/- A change of the driver's cell is part of the work. -/
theorem AtWork.reseated
    {g : DriverCell → DriverCell}
    (h : AtWork held excused s₀ t p s)
    (hMild : Mild g)
    (hDrives : s.Drives t d cell) :
    AtWork held excused s₀ t p (s.reseated d g) := by
  refine h.onward (h.sane.reseated hMild)
    (extends_reseated hMild) rfl
    (fun t' ht' => unmoved_reseated hMild hDrives ht')
    (fun _ _ hw => hw) (keepsOutputs_reseated hMild)
    { h.stocked with listeners := fun d' c hc => ?_ } h.course
  simp only [Session.reseated, getD_modify] at hc
  split at hc
  · rw [hMild.emitter] at hc
    exact h.stocked.listeners d' c hc
  · exact h.stocked.listeners d' c hc

theorem Desk.reseated
    {g : DriverCell → DriverCell}
    (h : Desk s t d cell p)
    (hMild : Mild g) :
    Desk (s.reseated d g) t d (g cell) p where
  drives := by
    refine (drives_reseated hMild).mpr ⟨cell, h.drives, ?_⟩
    rw [if_pos rfl]
  linked := by
    refine ⟨fun v hv => ?_, fun k a hk => ?_⟩
    · rcases h.linked.answered v hv with ⟨f, rfl, hf⟩
      exact ⟨f, rfl, (hMild.output cell).trans hf⟩
    · exact Nat.lt_of_lt_of_le (h.linked.asked k a hk)
        (hMild.fired cell)
  pledges e hp := by
    rcases hp with ⟨f, w, hw, hToken⟩
    exact h.pledges e
      ⟨f, w, hw, (extends_reseated hMild).tokens hToken⟩

/- How a task ended does not depend on the rest of the cell. -/
theorem Session.ending_reseated
    {g : DriverCell → DriverCell}
    (hMild : Mild g)
    (hEarly : ∀ cell, (g cell).early = cell.early)
    (d' : Ref) :
    (s.reseated d' g).ending (g cell) = s.ending cell := by
  unfold ending
  rw [hMild.output, hEarly]
  rfl

------------------------------------------------------------
-- Cleanups and Futures
------------------------------------------------------------

/- A session in which more became of a task's cleanups. -/
def Session.tended
    (s : Session)
    (t : Ref)
    (c : Care) : Session :=
  s.withTasks (s.tasks.modify t fun cell =>
    { cell with care := c :: cell.care })

@[simp] theorem Session.story_tended
    (t t' : Ref)
    (c : Care) :
    (s.tended t c).story t' = s.story t' := by
  simp only [story, tended, withTasks, getD_modify]
  split <;> rfl

theorem Session.extends_tended
    (t : Ref)
    (c : Care) :
    s.Extends (s.tended t c) :=
  extends_withTasks (by simp)
    fun t' => ⟨[], story_tended t t' c⟩

theorem Session.unmoved_tended
    (t t' : Ref)
    (c : Care) :
    s.Unmoved t' (s.tended t c) :=
  unmoved_withTasks (extends_tended t c) (story_tended t t' c)

theorem AtWork.tended
    (h : AtWork held excused s₀ t p s)
    (t' : Ref)
    (c : Care) :
    AtWork held excused s₀ t p (s.tended t' c) := by
  have hExtends := extends_tended (s := s) t' c
  refine h.onward (sane_withTasks h.sane hExtends) hExtends
    (by simp [Session.tended, withTasks])
    (fun t'' _ => unmoved_tended t' t'' c) (fun _ _ hw => hw)
    (.of_drivers rfl)
    { h.stocked with } ?_
  rw [story_tended]
  exact h.course

/- A new object is nobody's work. -/
theorem AtWork.counted
    (h : AtWork held excused s₀ t p s)
    (n k : Nat) :
    AtWork held excused s₀ t p
      { s with objects := n, events := k } :=
  h.onward { h.sane with } { Extends.refl s with } rfl
    (fun t' _ => { Unmoved.refl t' s with })
    (fun _ _ hw => hw) (.of_drivers rfl) { h.stocked with }
    h.course

/- Nor is what is remembered of the past. -/
theorem AtWork.withIncident
    (h : AtWork held excused s₀ t p s)
    (i : Incident) :
    AtWork held excused s₀ t p (s.withIncident i) :=
  h.onward { h.sane with } { Extends.refl s with } rfl
    (fun t' _ => { Unmoved.refl t' s with })
    (fun _ _ hw => hw) (.of_drivers rfl) { h.stocked with }
    h.course

/-
  An output settles as part of the work on its task: nothing
  happens to other tasks but that they are to be told.
-/
theorem AtWork.settling
    (h : AtWork held excused s₀ t p s)
    (hDrives : s.Drives t d cell)
    {f : Ref}
    (hOutput : cell.output = some f)
    (hPending : s.outcome? f = none)
    (outcome : Outcome) :
    AtWork held excused (Driving.settling s f outcome) t p
      (Driving.settling s f outcome) ∧
      Leaves held s (Driving.settling s f outcome) := by
  have hCounted := h.counted s.stamped.objects s.stamped.events
  have hFuture := refuture_settledAt hCounted.sane hPending
    s.stamp outcome
  have hBefore : s.Extends s.stamped :=
    .of_kernel (s := s) rfl
  have hExtends : s.Extends (Driving.settling s f outcome) :=
    hBefore.trans hFuture.extends_
  have hUnmoved : ∀ t' ≠ t,
      s.Unmoved t' (Driving.settling s f outcome) := by
    intro t' ht'
    have hKernel : s.kernel =
        s.stamped.kernel := rfl
    refine (Session.Unmoved.of_kernel hKernel t').trans
      (hFuture.unmoved fun d' cell' f' hDrives' hOutput' => ?_)
    have hOther : f ≠ f' := by
      rintro rfl
      obtain rfl := h.sane.output_sole f d d' cell cell'
        hDrives.1 hDrives'.1 hOutput hOutput'
      exact ht' (hDrives.unique hDrives').1.symm
    have hRead := outcome?_settledAt
      (s := s.stamped)
      f f' s.stamp outcome
    rw [if_neg fun h' => hOther h'.1] at hRead
    exact hRead
  refine ⟨h.again (hFuture.sane hCounted.sane) hExtends rfl
    hUnmoved { h.stocked with } h.course, hExtends,
    fun t' ht' => hUnmoved t' fun h' => h.free (h' ▸ ht'),
    .of_drivers rfl⟩

------------------------------------------------------------
-- Drivers at Work
------------------------------------------------------------

/-
  Somebody is at work on a task that has a driver, and the
  task has or has not ended.
-/
structure Busy
    (held excused : List Ref)
    (s₀ : Session)
    (t d : Ref)
    (cell : DriverCell)
    (p : Phase)
    (e : Option Outcome)
    (s : Session) : Prop where
  work : AtWork held excused s₀ t p s
  desk : Desk s t d cell p
  ending : s.ending cell = e

variable {e : Option Outcome}

namespace Busy

theorem withIncident
    (h : Busy held excused s₀ t d cell p e s)
    (i : Incident) :
    Busy held excused s₀ t d cell p e (s.withIncident i) where
  work := h.work.withIncident i
  desk :=
    ⟨h.desk.drives, { h.desk.linked with }, h.desk.pledges⟩
  ending := h.ending

theorem noted
    {m : Moment}
    (h : Busy held excused s₀ t d cell p e s)
    (hLeads : p.Leads m q)
    (hFits : m.Fits cell.fired.size)
    (hPledges : ∀ e, s.Pledged d e → q.Pledges e) :
    Busy held excused s₀ t d cell q e (s.noted t m) where
  work := h.work.noted hLeads
  desk := h.desk.noted hFits fun e hp =>
    hPledges e (pledged_of_noted hp)
  ending := h.ending

theorem reseated
    {g : DriverCell → DriverCell}
    (h : Busy held excused s₀ t d cell p e s)
    (hMild : Mild g)
    (hEarly : ∀ cell, (g cell).early = cell.early) :
    Busy held excused s₀ t d (g cell) p e (s.reseated d g) where
  work := h.work.reseated hMild h.desk.drives
  desk := h.desk.reseated hMild
  ending := (ending_reseated hMild hEarly d).trans h.ending

/- The session for others while the task is held. -/
theorem hold
    (h : Busy held excused s₀ t d cell p e s)
    (hShut : cell.Shut)
    (hNone : p.pledges? = none) :
    (Driving (t :: held) excused).Sound s :=
  h.work.hold (h.desk.still h.work.sane h.work.course hShut
    (h.desk.unpledged hNone) (by rintro rfl; cases hNone))

theorem moved
    (h : Busy held excused s₀ t d cell p e s)
    (hMoves : (Driving (t :: held) excused).Moves s s') :
    Busy held excused s₀ t d cell p e s' := by
  have hUnmoved := hMoves.rel.unmoved t List.mem_cons_self
  exact
    { work := h.work.moved hMoves
      desk := h.desk.moved hUnmoved
      ending :=
        (hUnmoved.ending d cell h.desk.drives).trans h.ending }

/- The task of a driver can rest where it is mindful. -/
theorem sound
    (h : Busy held excused s₀ t d cell p e s)
    (hRests : p.Rests (t ∈ excused))
    (hSuits : Suits s cell p)
    (hMindful : Mindful (t ∈ excused) s d cell p) :
    (Driving held excused).Sound s :=
  h.work.sound hRests (h.desk.seated hSuits)
    (h.desk.minds h.work.sane h.work.course hMindful)

/- It can rest and wait if it is not lost. -/
theorem wait
    (h : Busy held excused s₀ t d cell p e s)
    (hRests : p.Rests (t ∈ excused))
    (hSuits : Suits s cell p)
    (hMindful : Mindful (t ∈ excused) s d cell p)
    (hLost : ¬ s.Lost t) :
    (Driving held excused).Moves s₀ s :=
  h.work.rest hRests (h.desk.seated hSuits)
    (h.desk.minds h.work.sane h.work.course hMindful)
    fun hOwn => absurd hOwn hLost

/- Or if it is not to be called back. -/
theorem rest
    (h : Busy held excused s₀ t d cell p e s)
    (hRests : p.Rests (t ∈ excused))
    (hSuits : Suits s cell p)
    (hMindful : Mindful (t ∈ excused) s d cell p)
    (hExpects : p.expects? = none) :
    (Driving held excused).Moves s₀ s :=
  h.wait hRests hSuits hMindful
    (not_lost h.work.course hExpects)

theorem anew
    (h : Busy held excused s₀ t d cell p e s) :
    Busy held excused s t d cell p e s :=
  { h with work := h.work.anew }

/- What comes of the work counts from where it began. -/
theorem onto
    (h : Busy held excused s₀ t d cell p e s)
    (hMoves : (Driving held excused).Moves s s')
    (hExpects : p.expects? = none) :
    (Driving held excused).Moves s₀ s' :=
  h.work.onto hMoves fun hLost =>
    absurd hLost (not_lost h.work.course hExpects)

end Busy

end Work

end Resumption

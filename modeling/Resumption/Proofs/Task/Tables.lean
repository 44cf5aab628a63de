import Resumption.Proofs.Task.Driving
import Resumption.Proofs.World.Futures

/-
  Changes of a session's tables that happen to no task: new
  futures, awaiters and labels, watchers that come, and what
  constructs keep.

  Main declarations:
    * `Sane.of_futures`
    * `Driving.moves_newFuture`
    * `Driving.moves_watch`
-/

namespace Resumption

namespace Session

variable {s : Session}

------------------------------------------------------------
-- Changed Futures
------------------------------------------------------------

/- A session with other futures. -/
def withFutures
    (s : Session)
    (futures : Array FutureCell) : Session :=
  { s with futures := futures }

@[simp] theorem stray_withFutures
    (futures : Array FutureCell)
    (d : Ref) :
    (s.withFutures futures).Stray d ↔ s.Stray d :=
  Iff.rfl

@[simp] theorem tokens_withFutures
    (futures : Array FutureCell)
    (d : Ref)
    (e : Errand)
    (c : Closure) :
    (s.withFutures futures).Tokens d e c ↔ s.Tokens d e c :=
  Iff.rfl

@[simp] theorem drives_withFutures
    (futures : Array FutureCell)
    (t d : Ref)
    (cell : DriverCell) :
    (s.withFutures futures).Drives t d cell ↔
      s.Drives t d cell :=
  Iff.rfl

@[simp] theorem isOutput_withFutures
    (futures : Array FutureCell)
    (f : Ref) :
    (s.withFutures futures).IsOutput f ↔ s.IsOutput f :=
  Iff.rfl

theorem outcome?_of_size_le
    {f : Nat}
    (h : s.futures.size ≤ f) :
    s.outcome? f = none := by
  rw [outcome?, getD_of_size_le _ h]
  rfl

/- A new future may have settled; nobody watches it yet. -/
theorem outcome?_newFuture
    (settlement : Option Settlement)
    (f : Nat) :
    (s.withFutures
      (s.futures.push ⟨settlement, #[], none, []⟩)).outcome? f =
        if f = s.futures.size then settlement.map (·.outcome)
        else s.outcome? f := by
  simp only [outcome?, withFutures, getD_push]
  split <;> rfl

theorem watchers_newFuture
    (settlement : Option Settlement)
    (f : Nat) :
    (s.withFutures
      (s.futures.push ⟨settlement, #[], none, []⟩)).watchers f =
        s.watchers f := by
  simp only [watchers, withFutures, getD_push]
  split
  · next hNew =>
      rw [getD_of_size_le _ (Nat.le_of_eq hNew.symm)]
      rfl
  · rfl

/- The promise of a future is neither. -/
theorem outcome?_setPromise
    (f p f' : Ref) :
    (s.withFutures (s.futures.modify f
      ({ · with promise := some p }))).outcome? f' =
        s.outcome? f' := by
  simp only [outcome?, withFutures, getD_modify]
  split <;> rfl

theorem watchers_setPromise
    (f p f' : Ref) :
    (s.withFutures (s.futures.modify f
      ({ · with promise := some p }))).watchers f' =
        s.watchers f' := by
  simp only [watchers, withFutures, getD_modify]
  split <;> rfl

/-
  Futures change, and so do their watchers: none is lost
  unless its future settles.
-/
structure Refuture
    (s : Session)
    (futures : Array FutureCell) : Prop where
  size : s.futures.size ≤ futures.size
  settled : ∀ f o, s.outcome? f = some o →
    (s.withFutures futures).outcome? f = some o
  watchers : ∀ f,
    ((s.withFutures futures).watchers f).Sublist (s.watchers f)
  audience : ∀ f, ∀ w ∈ s.audience f,
    w ∈ (s.withFutures futures).audience f
  unwatched : ∀ f,
    ((s.withFutures futures).outcome? f).isSome →
      (s.withFutures futures).watchers f = []

variable {futures : Array FutureCell}

theorem Refuture.extends_
    (h : s.Refuture futures) :
    s.Extends (s.withFutures futures) :=
  { Extends.refl s with
    futures := h.size
    settled := h.settled
    audience := h.audience }

theorem Refuture.pledged
    (h : s.Refuture futures)
    {d : Ref}
    {e : Errand}
    (hPledged : (s.withFutures futures).Pledged d e) :
    s.Pledged d e := by
  rcases hPledged with ⟨f, w, hMem, hToken⟩
  exact ⟨f, w, (h.watchers f).mem hMem, hToken⟩

theorem Refuture.sane
    (h : s.Refuture futures)
    (hs : Sane s) :
    Sane (s.withFutures futures) where
  owner := hs.owner
  sole := hs.sole
  output_lt f hf :=
    Nat.lt_of_lt_of_le (hs.output_lt f hf) h.size
  output_sole := hs.output_sole
  watcher f w hw := by
    rcases hs.watcher f w ((h.watchers f).mem hw) with
      hHarmless | hPledge
    · exact .inl (h.extends_.harmless hHarmless)
    · exact .inr hPledge
  unwatched := h.unwatched
  once d e f f' w w' hw hw' :=
    hs.once d e f f' w w' ((h.watchers f).mem hw)
      ((h.watchers f').mem hw')
  apart f := (hs.apart f).sublist (h.watchers f)
  audience f w hw :=
    h.audience f w (hs.audience f w ((h.watchers f).mem hw))
  code l c hc := h.extends_.harmless (hs.code l c hc)
  handler i := h.extends_.harmless (hs.handler i)
  compensation i := h.extends_.harmless (hs.compensation i)
  deferred r f hf := h.extends_.loose (hs.deferred r f hf)
  controlled r cell hCell :=
    h.extends_.loose (hs.controlled r cell hCell)

/- Tasks whose outputs end as before are left alone. -/
theorem Refuture.unmoved
    (h : s.Refuture futures)
    {t : Ref}
    (hEnding : ∀ d cell f, s.Drives t d cell →
      cell.output = some f →
        (s.withFutures futures).outcome? f = s.outcome? f) :
    s.Unmoved t (s.withFutures futures) where
  story := rfl
  drives _ _ := Iff.rfl
  ending d cell hDrives := by
    unfold ending
    split
    · next f hOutput => exact hEnding d cell f hDrives hOutput
    · rfl
  tokens _ _ _ f _ _ hw hToken := ⟨(h.watchers f).mem hw, hToken⟩

------------------------------------------------------------
-- New Watchers
------------------------------------------------------------

/- A session in which somebody else watches a future. -/
def watched
    (s : Session)
    (f : Ref)
    (w : Closure) : Session :=
  s.withFutures (s.futures.modify f fun c =>
    { c with
      watchers := c.watchers.push w
      audience := w :: c.audience })

@[simp] theorem outcome?_watched
    (f f' : Ref)
    (w : Closure) :
    (s.watched f w).outcome? f' = s.outcome? f' := by
  simp only [outcome?, watched, withFutures, getD_modify]
  split <;> rfl

@[simp] theorem isOutput_watched
    (f f' : Ref)
    (w : Closure) :
    (s.watched f w).IsOutput f' ↔ s.IsOutput f' :=
  Iff.rfl

theorem watchers_watched
    (f f' : Nat)
    (w : Closure) :
    (s.watched f w).watchers f' =
      if f = f' ∧ f' < s.futures.size then s.watchers f' ++ [w]
      else s.watchers f' := by
  simp only [watchers, watched, withFutures, getD_modify]
  split
  · simp
  · rfl

theorem audience_watched
    (f f' : Nat)
    (w : Closure) :
    (s.watched f w).audience f' =
      if f = f' ∧ f' < s.futures.size then w :: s.audience f'
      else s.audience f' := by
  simp only [audience, watched, withFutures, getD_modify]
  split <;> rfl

theorem mem_audience_watched
    {f f' : Ref}
    (w : Closure)
    {w' : Closure}
    (h : w' ∈ s.audience f') :
    w' ∈ (s.watched f w).audience f' := by
  rw [audience_watched]
  split
  · exact List.mem_cons_of_mem w h
  · exact h

theorem mem_watchers_watched
    {f f' : Ref}
    {w w' : Closure}
    (h : w' ∈ (s.watched f w).watchers f') :
    w' ∈ s.watchers f' ∨
      w' = w ∧ f' = f ∧ f' < s.futures.size := by
  rw [watchers_watched] at h
  split at h
  · next hHere =>
      rw [List.mem_append, List.mem_singleton] at h
      exact h.imp_right fun hLast =>
        ⟨hLast, hHere.1.symm, hHere.2⟩
  · exact .inl h

theorem extends_watched
    (s : Session)
    (f : Ref)
    (w : Closure) :
    s.Extends (s.watched f w) :=
  { Extends.refl s with
    futures := by simp [watched, withFutures]
    settled := fun f' o ho => by rw [outcome?_watched, ho]
    audience := fun _ _ => mem_audience_watched w }

/- Nobody who waited for a future waits no more. -/
theorem mem_watched_of_mem
    {f f' : Ref}
    (w : Closure)
    {w' : Closure}
    (h : w' ∈ s.watchers f') :
    w' ∈ (s.watched f w).watchers f' := by
  rw [watchers_watched]
  split
  · exact List.mem_append_left [w] h
  · exact h

theorem pledged_watched
    {f d : Ref}
    {e : Errand}
    {w : Closure}
    (h : (s.watched f w).Pledged d e) :
    s.Pledged d e ∨ s.Tokens d e w := by
  rcases h with ⟨f', w', hMem, hToken⟩
  rcases mem_watchers_watched hMem with hOld | ⟨rfl, _⟩
  · exact .inl ⟨f', w', hOld, hToken⟩
  · exact .inr hToken

/-
  A pending future can be watched by what is harmless, and
  by a driver that waits for no other future.
-/
theorem sane_watched
    {f : Ref}
    {w : Closure}
    (hs : Sane s)
    (hPending : s.outcome? f = none)
    (hWatcher : s.Harmless w ∨ s.IsPledge f w)
    (hFree : ∀ d e, s.Tokens d e w → ¬ s.Pledged d e) :
    Sane (s.watched f w) where
  owner := hs.owner
  sole := hs.sole
  output_lt f' hf' :=
    Nat.lt_of_lt_of_le (hs.output_lt f' hf')
      (s.extends_watched f w).futures
  output_sole := hs.output_sole
  watcher f' w' hw' := by
    have hOld : s.Harmless w' ∨ s.IsPledge f' w' := by
      rcases mem_watchers_watched hw' with hOld | ⟨rfl, rfl, _⟩
      · exact hs.watcher f' w' hOld
      · exact hWatcher
    rcases hOld with hHarmless | hPledge
    · exact .inl ((s.extends_watched f w).harmless hHarmless)
    · exact .inr hPledge
  unwatched f' hf' := by
    rw [outcome?_watched] at hf'
    rw [watchers_watched, if_neg, hs.unwatched f' hf']
    rintro ⟨rfl, _⟩
    rw [hPending] at hf'
    cases hf'
  once d e f₁ f₂ w₁ w₂ hw₁ hw₂ ht₁ ht₂ := by
    rcases mem_watchers_watched hw₁ with hOld₁ | ⟨rfl, rfl, _⟩
    · rcases mem_watchers_watched hw₂ with
        hOld₂ | ⟨rfl, rfl, _⟩
      · exact hs.once d e f₁ f₂ w₁ w₂ hOld₁ hOld₂ ht₁ ht₂
      · exact absurd ⟨f₁, w₁, hOld₁, ht₁⟩ (hFree d e ht₂)
    · rcases mem_watchers_watched hw₂ with
        hOld₂ | ⟨_, rfl, _⟩
      · exact absurd ⟨f₂, w₂, hOld₂, ht₂⟩ (hFree d e ht₁)
      · rfl
  apart f' := by
    rw [watchers_watched]
    split
    · refine List.pairwise_append.mpr
        ⟨hs.apart f', List.pairwise_singleton _ _, ?_⟩
      intro w₁ hw₁ w₂ hw₂ d e ht₁ ht₂
      rw [List.mem_singleton] at hw₂
      subst hw₂
      exact hFree d e ht₂ ⟨f', w₁, hw₁, ht₁⟩
    · exact hs.apart f'
  audience f' w' hw' := by
    rcases mem_watchers_watched hw' with
      hOld | ⟨rfl, rfl, hThere⟩
    · exact mem_audience_watched w (hs.audience f' w' hOld)
    · rw [audience_watched, if_pos ⟨rfl, hThere⟩]
      exact List.mem_cons_self
  code l c hc := (s.extends_watched f w).harmless (hs.code l c hc)
  handler i := (s.extends_watched f w).harmless (hs.handler i)
  compensation i :=
    (s.extends_watched f w).harmless (hs.compensation i)
  deferred r f' hf' :=
    (s.extends_watched f w).loose (hs.deferred r f' hf')
  controlled r cell hCell :=
    (s.extends_watched f w).loose (hs.controlled r cell hCell)

/- Nothing happens to a task whose driver does not watch. -/
theorem unmoved_watched
    {t f : Ref}
    {w : Closure}
    (hOther : ∀ d cell e, s.Drives t d cell →
      ¬ s.Tokens d e w) :
    s.Unmoved t (s.watched f w) where
  story := rfl
  drives _ _ := Iff.rfl
  ending d cell _ := by
    unfold ending
    split <;> simp
  tokens d cell e f' w' hDrives hw' hToken := by
    rcases mem_watchers_watched hw' with hOld | ⟨rfl, _⟩
    · exact ⟨hOld, hToken⟩
    · exact absurd hToken (hOther d cell e hDrives)

------------------------------------------------------------
-- Changed Stories
------------------------------------------------------------

/- A session in which more has happened to its tasks. -/
def withTasks
    (s : Session)
    (tasks : Array TaskCell) : Session :=
  { s with tasks := tasks }

theorem extends_withTasks
    {tasks : Array TaskCell}
    (hSize : s.tasks.size ≤ tasks.size)
    (hStories : ∀ t, ∃ later,
      (s.withTasks tasks).story t = later ++ s.story t) :
    s.Extends (s.withTasks tasks) :=
  { Extends.refl s with
    tasks := hSize
    stories := hStories }

theorem pledged_withTasks
    {tasks : Array TaskCell}
    (h : s.Extends (s.withTasks tasks))
    {d : Ref}
    {e : Errand}
    (hPledged : (s.withTasks tasks).Pledged d e) :
    s.Pledged d e := by
  rcases hPledged with ⟨f, w, hMem, hToken⟩
  exact ⟨f, w, hMem, h.tokens hToken⟩

theorem sane_withTasks
    {tasks : Array TaskCell}
    (hs : Sane s)
    (h : s.Extends (s.withTasks tasks)) :
    Sane (s.withTasks tasks) where
  owner t d cell hDrives :=
    Nat.lt_of_lt_of_le (hs.owner t d cell hDrives) h.tasks
  sole := hs.sole
  output_lt := hs.output_lt
  output_sole := hs.output_sole
  watcher f w hw := (hs.watcher f w hw).imp_left h.harmless
  unwatched := hs.unwatched
  once d e f f' w w' hw hw' ht ht' :=
    hs.once d e f f' w w' hw hw' (h.tokens ht) (h.tokens ht')
  apart f := (hs.apart f).imp fun hApart d e ht ht' =>
    hApart d e (h.tokens ht) (h.tokens ht')
  audience := hs.audience
  code l c hc := h.harmless (hs.code l c hc)
  handler i := h.harmless (hs.handler i)
  compensation i := h.harmless (hs.compensation i)
  deferred := hs.deferred
  controlled := hs.controlled

/- Tasks whose stories are the same are left alone. -/
theorem unmoved_withTasks
    {tasks : Array TaskCell}
    (h : s.Extends (s.withTasks tasks))
    {t : Ref}
    (hStory : (s.withTasks tasks).story t = s.story t) :
    s.Unmoved t (s.withTasks tasks) where
  story := hStory
  drives _ _ := Iff.rfl
  ending _ _ _ := rfl
  tokens _ _ _ _ _ _ hw hToken := ⟨hw, h.tokens hToken⟩

end Session

------------------------------------------------------------
-- Moves
------------------------------------------------------------

namespace Driving

open Session World

variable {s : Session}
variable {held excused : List Ref}

/- Futures change, and no driver's output settles. -/
theorem unmoved_refuture
    {futures : Array FutureCell}
    (h : s.Refuture futures)
    (hEnding : ∀ f, s.IsOutput f →
      (s.withFutures futures).outcome? f = s.outcome? f)
    (t : Ref) :
    s.Unmoved t (s.withFutures futures) :=
  h.unmoved fun d cell f hDrives hOutput =>
    hEnding f ⟨d, cell, hDrives.1, hOutput⟩

/- Besides, nobody who waited for a future waits no more. -/
theorem moves_refuture
    {futures : Array FutureCell}
    (hs : (Driving held excused).Sound s)
    (h : s.Refuture futures)
    (hEnding : ∀ f, s.IsOutput f →
      (s.withFutures futures).outcome? f = s.outcome? f)
    (hWatchers : ∀ f, ∀ w ∈ s.watchers f,
      w ∈ (s.withFutures futures).watchers f) :
    (Driving held excused).Moves s (s.withFutures futures) := by
  exact Standing.moves hs (h.sane hs.inv.sane) h.extends_ rfl
    (unmoved_refuture h hEnding) hWatchers { hs.stocked with }

theorem refuture_push
    (hs : Sane s)
    (settlement : Option Settlement) :
    s.Refuture (s.futures.push ⟨settlement, #[], none, []⟩) where
  size := by simp
  settled f o ho := by
    rw [outcome?_newFuture, if_neg]
    · exact ho
    · rintro rfl
      rw [outcome?_of_size_le (Nat.le_refl _)] at ho
      cases ho
  watchers f := by
    simpa only [watchers_newFuture] using List.Sublist.refl _
  audience f w hw := by
    simp only [audience, withFutures, getD_push]
    split
    · next hNew =>
        rw [audience, getD_of_size_le _
          (Nat.le_of_eq hNew.symm)] at hw
        exact hw
    · exact hw
  unwatched f hf := by
    rw [watchers_newFuture]
    rw [outcome?_newFuture] at hf
    split at hf
    · next hNew =>
        rw [watchers, getD_of_size_le _
          (Nat.le_of_eq hNew.symm)]
        rfl
    · exact hs.unwatched f hf

theorem moves_newFuture
    (settlement : Option Settlement)
    (hs : (Driving held excused).Sound s) :
    (Driving held excused).Moves s
      (s.withFutures
        (s.futures.push ⟨settlement, #[], none, []⟩)) := by
  refine moves_refuture hs (refuture_push hs.inv.sane _)
    (fun f hOutput => ?_) fun f w hw => ?_
  · rw [outcome?_newFuture, if_neg]
    exact Nat.ne_of_lt (hs.inv.sane.output_lt f hOutput)
  · rwa [watchers_newFuture]

theorem refuture_setPromise
    (hs : Sane s)
    (f p : Ref) :
    s.Refuture
      (s.futures.modify f ({ · with promise := some p })) where
  size := by simp
  settled f' o ho := by rw [outcome?_setPromise, ho]
  watchers f' := by
    simpa only [watchers_setPromise] using List.Sublist.refl _
  audience f' w hw := by
    simp only [audience, withFutures, getD_modify]
    split
    · exact hw
    · exact hw
  unwatched f' hf' := by
    rw [watchers_setPromise]
    rw [outcome?_setPromise] at hf'
    exact hs.unwatched f' hf'

theorem moves_setPromise
    (f p : Ref)
    (hs : (Driving held excused).Sound s) :
    (Driving held excused).Moves s
      (s.withFutures
        (s.futures.modify f ({ · with promise := some p }))) :=
  moves_refuture hs (refuture_setPromise hs.inv.sane f p)
    (fun f' _ => outcome?_setPromise f p f')
    fun f' w hw => by rwa [watchers_setPromise]

theorem moves_watched
    {f : Ref}
    {w : Closure}
    (hs : (Driving held excused).Sound s)
    (hPending : s.outcome? f = none)
    (hFit : (Driving held excused).fit s w) :
    (Driving held excused).Moves s (s.watched f w) := by
  have hHarmless : s.Harmless w :=
    (Closure.harmless_core w).mp hFit
  have hFree : ∀ d e, ¬ s.Tokens d e w :=
    Session.Harmless.not_tokens hFit
  refine Standing.moves hs ?_ (s.extends_watched f w) rfl ?_
    (fun _ _ => mem_watched_of_mem w) { hs.stocked with }
  · exact sane_watched hs.inv.sane hPending (.inl hHarmless)
      fun d e hd => absurd hd (hFree d e)
  · exact fun t => unmoved_watched fun d _ e _ => hFree d e

------------------------------------------------------------
-- Awaiters and Deferreds
------------------------------------------------------------

theorem moves_newAwaiter
    {cell : AwaiterCell}
    (hs : (Driving held excused).Sound s)
    (hFit : cell.Fits ((Driving held excused).fit s)) :
    (Driving held excused).Moves s
      { s with awaiters := s.awaiters.push cell } := by
  have hExtends :
      s.Extends { s with awaiters := s.awaiters.push cell } :=
    { Extends.refl s with
      awaiters := fun a old ha => by
        have hLt : a < s.awaiters.size :=
          (Array.getElem?_eq_some_iff.mp ha).1
        simp only [Array.getElem?_push, Nat.ne_of_lt hLt,
          if_false]
        exact ha }
  refine Standing.moves hs ?_ hExtends rfl
    (fun t => { Unmoved.refl t s with }) (fun _ _ hp => hp)
    { hs.stocked with awaiters := ?_ }
  · exact
      { hs.inv.sane with
        watcher := fun f w hw =>
          (hs.inv.sane.watcher f w hw).imp_right
            hExtends.isPledge }
  · intro r
    simp only [getD_push]
    split
    · exact hFit
    · exact hs.stocked.awaiters r

theorem moves_newDeferred
    {d : Deferred}
    (hs : (Driving held excused).Sound s)
    (hLoose : ∀ f, d = .future f → s.Loose f) :
    (Driving held excused).Moves s
      { s with deferreds := s.deferreds.push d } := by
  refine Standing.moves hs ?_ { Extends.refl s with } rfl
    (fun t => { Unmoved.refl t s with }) (fun _ _ hp => hp)
    { hs.stocked with }
  refine { hs.inv.sane with deferred := fun r f hf => ?_ }
  rw [Array.getElem?_push] at hf
  split at hf
  · exact hLoose f (Option.some.inj hf)
  · exact hs.inv.sane.deferred r f hf

theorem moves_newControlled
    {f : Ref}
    (a : Ref)
    (hs : (Driving held excused).Sound s)
    (hLoose : s.Loose f) :
    (Driving held excused).Moves s
      { s with
        controlled := s.controlled.push ⟨a, f, 0, 0, 0, 0⟩ } := by
  refine Standing.moves hs ?_ { Extends.refl s with } rfl
    (fun t => { Unmoved.refl t s with }) (fun _ _ hp => hp)
    { hs.stocked with }
  refine { hs.inv.sane with controlled := fun r cell hCell => ?_ }
  rw [Array.getElem?_push] at hCell
  split at hCell
  · rw [← Option.some.inj hCell]
    exact hLoose
  · exact hs.inv.sane.controlled r cell hCell

theorem moves_countControlled
    (c : Ref)
    (g : ControlledCell → ControlledCell)
    (hs : (Driving held excused).Sound s)
    (hg : ∀ cell, (g cell).future = cell.future) :
    (Driving held excused).Moves s
      { s with controlled := s.controlled.modify c g } := by
  refine Standing.moves hs ?_ { Extends.refl s with } rfl
    (fun t => { Unmoved.refl t s with }) (fun _ _ hp => hp)
    { hs.stocked with }
  refine { hs.inv.sane with controlled := fun r cell hCell => ?_ }
  rw [Array.getElem?_modify] at hCell
  split at hCell
  · rcases Option.map_eq_some_iff.mp hCell with ⟨old, hOld, rfl⟩
    rw [hg]
    exact hs.inv.sane.controlled r old hOld
  · exact hs.inv.sane.controlled r cell hCell

end Driving

end Resumption

import Resumption.Proofs.Task.Suspension

/-
  The output of a driver is made when its first step has been
  taken, and has settled if the task has ended by then.

  Main declarations:
    * `Session.outputMade`
    * `Busy.outputMade`
    * `Busy.makeOutput`
-/

namespace Resumption

open Session World

section Output

variable {held excused : List Ref}
variable {s₀ s s' : Session}
variable {t d : Ref}
variable {p q : Phase}
variable {cell : DriverCell}
variable {e : Option Outcome}
variable {caller : Caller}

------------------------------------------------------------
-- Making the Output
------------------------------------------------------------

/- A session in which a driver has a new future as its output. -/
def Session.outputMade
    (s : Session)
    (d : Ref)
    (settlement : Option Settlement) : Session :=
  { s with
    futures := s.futures.push ⟨settlement, #[], none, []⟩
    drivers := s.drivers.modify d
      ({ · with output := some s.futures.size }) }

/- A driver with its output. -/
def DriverCell.made
    (cell : DriverCell)
    (f : Ref) : DriverCell :=
  { cell with output := some f }

theorem Session.drives_outputMade
    {settlement : Option Settlement}
    {t' d' : Ref}
    {cell' : DriverCell} :
    (s.outputMade d settlement).Drives t' d' cell' ↔
      ∃ old, s.Drives t' d' old ∧
        cell' = if d = d' then old.made s.futures.size
          else old := by
  unfold Drives outputMade
  simp only [Array.getElem?_modify]
  constructor
  · rintro ⟨hCell, rfl⟩
    split at hCell
    · rcases Option.map_eq_some_iff.mp hCell with
        ⟨old, hOld, rfl⟩
      exact ⟨old, ⟨hOld, rfl⟩, by simp [*, DriverCell.made]⟩
    · exact ⟨cell', ⟨hCell, rfl⟩, by simp [*]⟩
  · rintro ⟨old, ⟨hOld, rfl⟩, rfl⟩
    split
    · simp [hOld, DriverCell.made]
    · simp [hOld]

/- The cell that a driver has after an output was made. -/
theorem Session.driver_outputMade
    (d : Ref)
    (settlement : Option Settlement)
    {d' : Nat}
    {old : DriverCell}
    (hOld : s.drivers[d']? = some old) :
    (s.outputMade d settlement).drivers[d']? =
      some (if d = d' then old.made s.futures.size
        else old) := by
  simp only [outputMade, Array.getElem?_modify, hOld]
  split <;> rfl

theorem Session.isOutput_outputMade
    {settlement : Option Settlement}
    {f : Ref}
    (hDrives : s.Drives t d cell)
    (hNone : cell.output = none) :
    (s.outputMade d settlement).IsOutput f ↔
      s.IsOutput f ∨ f = s.futures.size := by
  constructor
  · rintro ⟨d', cell', hCell', hOutput⟩
    rcases drives_outputMade.mp ⟨hCell', rfl⟩ with
      ⟨old, hOld, rfl⟩
    split at hOutput
    · exact .inr (Option.some.inj hOutput).symm
    · exact .inl ⟨d', old, hOld.1, hOutput⟩
  · rintro (⟨d', old, hOld, hOutput⟩ | rfl)
    · have hOther : d ≠ d' := by
        rintro rfl
        have hCell := Option.some.inj
          (hDrives.1.symm.trans hOld)
        rw [← hCell, hNone] at hOutput
        cases hOutput
      have hNew := driver_outputMade d settlement hOld
      rw [if_neg hOther] at hNew
      exact ⟨d', old, hNew, hOutput⟩
    · have hNew := driver_outputMade d settlement hDrives.1
      rw [if_pos rfl] at hNew
      exact ⟨d, _, hNew, rfl⟩

theorem Session.outcome?_outputMade
    (settlement : Option Settlement)
    (f : Ref) :
    (s.outputMade d settlement).outcome? f =
      if f = s.futures.size then settlement.map (·.outcome)
      else s.outcome? f := by
  simp only [outcome?, outputMade, getD_push]
  split <;> rfl

theorem Session.watchers_outputMade
    (settlement : Option Settlement)
    (f : Ref) :
    (s.outputMade d settlement).watchers f = s.watchers f := by
  simp only [watchers, outputMade, getD_push]
  split
  · next hNew =>
      rw [getD_of_size_le _ (Nat.le_of_eq hNew.symm)]
      rfl
  · rfl

theorem Session.audience_outputMade
    (settlement : Option Settlement)
    (f : Ref) :
    (s.outputMade d settlement).audience f = s.audience f := by
  simp only [audience, outputMade, getD_push]
  split
  · next hNew =>
      rw [getD_of_size_le _ (Nat.le_of_eq hNew.symm)]
      rfl
  · rfl

theorem Session.extends_outputMade
    (hDrives : s.Drives t d cell)
    (hNone : cell.output = none)
    (settlement : Option Settlement) :
    s.Extends (s.outputMade d settlement) :=
  { Extends.refl s with
    futures := by simp [outputMade]
    settled := fun f o ho => by
      have hOld : f ≠ s.futures.size := by
        rintro rfl
        rw [outcome?_of_size_le (Nat.le_refl _)] at ho
        cases ho
      rw [outcome?_outputMade, if_neg hOld, ho]
    audience := fun f w hw => by
      rw [audience_outputMade]
      exact hw
    drivers := fun d' old hOld => by
      have hNew := driver_outputMade d settlement hOld
      refine ⟨_, hNew, ?_, fun f hf => ?_⟩
      · split <;> rfl
      · split
        · next hSame =>
            subst hSame
            have hCell := Option.some.inj
              (hDrives.1.symm.trans hOld)
            rw [← hCell, hNone] at hf
            cases hf
        · exact hf
    outputs := fun f hf hOutput => by
      rcases (isOutput_outputMade hDrives hNone).mp hOutput with
        hOld | hNew
      · exact hOld
      · exact absurd hNew (Nat.ne_of_lt hf) }

theorem Sane.outputMade
    (hs : Sane s)
    (hDrives : s.Drives t d cell)
    (hNone : cell.output = none)
    (settlement : Option Settlement) :
    Sane (s.outputMade d settlement) := by
  have hOutput : ∀ {d' old f},
      s.drivers[d']? = some old →
        (if d = d' then old.made s.futures.size
          else old).output = some f →
          d = d' ∧ f = s.futures.size ∨
            old.output = some f := by
    intro d' old f hOld hf
    split at hf
    · next hSame =>
        exact .inl ⟨hSame, (Option.some.inj hf).symm⟩
    · exact .inr hf
  have hNew : ∀ {d' : Nat} {old f},
      s.drivers[d']? = some old → old.output = some f →
        f ≠ s.futures.size := fun hOld hf =>
    Nat.ne_of_lt (hs.output_lt _ ⟨_, _, hOld, hf⟩)
  refine hs.redriven (extends_outputMade hDrives hNone _)
    ?_ ?_ ?_ ?_ (watchers_outputMade settlement) ?_
    rfl rfl rfl rfl rfl
  · intro t' d' cell' h'
    rcases drives_outputMade.mp h' with ⟨old, hOld, _⟩
    exact hs.owner t' d' old hOld
  · intro t' d₁ d₂ cell₁ cell₂ h₁ h₂
    rcases drives_outputMade.mp h₁ with ⟨old₁, hOld₁, _⟩
    rcases drives_outputMade.mp h₂ with ⟨old₂, hOld₂, _⟩
    exact hs.sole t' d₁ d₂ old₁ old₂ hOld₁ hOld₂
  · intro f hf
    rcases (isOutput_outputMade hDrives hNone).mp hf with
      hOld | rfl
    · exact Nat.lt_of_lt_of_le (hs.output_lt f hOld)
        (by simp [Session.outputMade])
    · simp [Session.outputMade]
  · intro f d₁ d₂ cell₁ cell₂ h₁ h₂ hf₁ hf₂
    rcases drives_outputMade.mp ⟨h₁, rfl⟩ with
      ⟨old₁, hOld₁, rfl⟩
    rcases drives_outputMade.mp ⟨h₂, rfl⟩ with
      ⟨old₂, hOld₂, rfl⟩
    rcases hOutput hOld₁.1 hf₁ with ⟨rfl, rfl⟩ | hSome₁
    · rcases hOutput hOld₂.1 hf₂ with ⟨hSame, _⟩ | hSome₂
      · exact hSame
      · exact absurd rfl (hNew hOld₂.1 hSome₂)
    · rcases hOutput hOld₂.1 hf₂ with ⟨_, rfl⟩ | hSome₂
      · exact absurd rfl (hNew hOld₁.1 hSome₁)
      · exact hs.output_sole f d₁ d₂ old₁ old₂ hOld₁.1
          hOld₂.1 hSome₁ hSome₂
  · intro f hf
    rw [watchers_outputMade]
    rw [outcome?_outputMade] at hf
    split at hf
    · next hSame =>
        unfold watchers
        rw [getD_of_size_le _ (Nat.le_of_eq hSame.symm)]
        rfl
    · exact hs.unwatched f hf

/- Other tasks have nothing to do with the output. -/
theorem Session.unmoved_outputMade
    (hs : Sane s)
    (hDrives : s.Drives t d cell)
    (hNone : cell.output = none)
    (settlement : Option Settlement)
    {t' : Ref}
    (hOther : t' ≠ t) :
    s.Unmoved t' (s.outputMade d settlement) where
  story := rfl
  drives d' cell' := by
    have hApart : ∀ old, s.Drives t' d' old → d ≠ d' := by
      rintro old hOld rfl
      have hCell := Option.some.inj
        (hDrives.1.symm.trans hOld.1)
      exact hOther (hOld.2.symm.trans (hCell ▸ hDrives.2))
    rw [drives_outputMade]
    constructor
    · rintro ⟨old, hOld, rfl⟩
      rw [if_neg (hApart old hOld)]
      exact hOld
    · intro hOld
      exact ⟨cell', hOld, by rw [if_neg (hApart cell' hOld)]⟩
  ending d' cell' hDrives' := by
    unfold ending
    split
    · next f hOutput =>
        have hOld : f ≠ s.futures.size := Nat.ne_of_lt
          (hs.output_lt f ⟨d', cell', hDrives'.1, hOutput⟩)
        rw [outcome?_outputMade, if_neg hOld]
    · rfl
  tokens _ _ _ f _ _ hw hToken :=
    ⟨watchers_outputMade settlement f ▸ hw,
      (extends_outputMade hDrives hNone settlement).tokens
        hToken⟩

/- Nobody is lost as an output is made. -/
theorem Session.spares_outputMade
    (settlement : Option Settlement) :
    s.Spares (s.outputMade d settlement) := by
  refine .of_stories (fun _ => rfl)
    (fun t' d' cell' hDrives' => ?_) fun f w hw => ?_
  · rcases drives_outputMade.mp hDrives' with ⟨old, hOld, _⟩
    exact ⟨old, hOld⟩
  · rw [watchers_outputMade]
    exact hw

/- The phase of a task does not depend on which its output is. -/
theorem Suits.made
    {f : Ref}
    (h : Suits s cell p)
    (hExtends : s.Extends s')
    (hEnding : s'.ending (cell.made f) = s.ending cell) :
    Suits s' (cell.made f) p := by
  cases p with
  | waiting l id =>
      rcases h with ⟨hCurrent, hFirst, hSingle, hNone, hId⟩
      exact ⟨hCurrent, hFirst, hSingle, hEnding.trans hNone,
        fun n hn => hExtends.property?_id (hId n hn)⟩
  | spoilt => exact h
  | wild => exact h
  | named l | handing | overruling v =>
      exact ⟨h.1, hEnding.trans h.2⟩
  | ended v | overruled v =>
      exact ⟨h.1, by rw [hEnding]; exact h.2⟩
  | _ => exact h

/- Nor does what its driver is mindful of. -/
theorem Mindful.made
    {excused : Prop}
    {f : Ref}
    (h : Mindful excused s d cell p)
    (hExtends : s.Extends s')
    (hStories : ∀ t, s'.story t = s.story t)
    (hWatchers : ∀ f, s'.watchers f = s.watchers f)
    (hEnding : s'.ending (cell.made f) = s.ending cell) :
    Mindful excused s' d (cell.made f) p := by
  have hAsked : ∀ t, s'.asked? t = s.asked? t := by
    intro t
    unfold asked?
    rw [hStories]
  cases p with
  | waiting l id =>
      rcases h with ⟨hState, k, a, hLast, hLeft, hTokens⟩
      refine ⟨hState, k, a, (hAsked _).trans hLast, hLeft, ?_⟩
      intro f' w hw hToken
      exact hTokens f' w (hWatchers f' ▸ hw)
        (hExtends.tokens hToken)
  | handing =>
      rcases h with ⟨hState, a, hLast, hTokens⟩
      refine ⟨hState, a, (hAsked _).trans hLast, ?_⟩
      intro f' w hw hToken
      exact hTokens f' w (hWatchers f' ▸ hw)
        (hExtends.tokens hToken)
  | spoilt =>
      refine h.imp_right fun hSome => ?_
      rw [hEnding]
      exact hSome
  | _ => exact h

/- A task stands as it stood when its output is made. -/
theorem Busy.outputMade
    (h : Busy held excused s₀ t d cell p e s)
    (hNone : cell.output = none)
    (hRests : p.Rests (t ∈ excused))
    (hSuits : Suits s cell p)
    (hMindful : Mindful (t ∈ excused) s d cell p)
    {settlement : Option Settlement}
    (hSettlement : settlement.map (·.outcome) = cell.early) :
    (Driving held excused).Sound
      (s.outputMade d settlement) := by
  have hDrives := h.desk.drives
  have hExtends := extends_outputMade hDrives hNone settlement
  have hDrives' : (s.outputMade d settlement).Drives t d
      (cell.made s.futures.size) := by
    refine drives_outputMade.mpr ⟨cell, hDrives, ?_⟩
    rw [if_pos rfl]
  have hEnding : (s.outputMade d settlement).ending
      (cell.made s.futures.size) = s.ending cell := by
    change (s.outputMade d settlement).outcome?
      s.futures.size = s.ending cell
    rw [outcome?_outputMade, if_pos rfl, hSettlement,
      Session.ending, hNone]
  have hDesk : Desk (s.outputMade d settlement) t d
      (cell.made s.futures.size) p := by
    refine ⟨hDrives', ⟨fun v hv => ?_,
      fun k a hk => h.desk.linked.asked k a hk⟩, ?_⟩
    · rcases h.desk.linked.answered v hv with ⟨f, _, hf⟩
      rw [hNone] at hf
      cases hf
    · rintro e ⟨f, w, hw, hToken⟩
      rw [watchers_outputMade] at hw
      exact h.desk.pledges e
        ⟨f, w, hw, hExtends.tokens hToken⟩
  have hWork := h.work.again
    (h.work.sane.outputMade hDrives hNone settlement) hExtends
    rfl (fun t' ht' => unmoved_outputMade h.work.sane hDrives
      hNone settlement ht')
    { h.work.stocked with listeners := fun d' c hc => ?_ }
    h.work.course
  · exact hWork.sound hRests
      (hDesk.seated (hSuits.made hExtends hEnding))
      (hDesk.minds hWork.sane hWork.course
        (hMindful.made hExtends (fun _ => rfl)
          (watchers_outputMade settlement) hEnding))
  · simp only [Session.outputMade, getD_modify] at hc
    split at hc
    · exact h.work.stocked.listeners d' c hc
    · exact h.work.stocked.listeners d' c hc

/-
  What is true when an output has been made: nothing but the
  one driver, and its task, has changed.
-/
structure OutputMade
    (held excused : List Ref)
    (t d : Ref)
    (s : Session)
    (f : Ref)
    (s' : Session) : Prop where
  sound : (Driving held excused).Sound s'
  extends_ : s.Extends s'
  unmoved : ∀ t' ≠ t, s.Unmoved t' s'
  spares : s.Spares s'
  drives : ∃ cell, s'.Drives t d cell ∧ cell.output = some f
  others : ∀ d' : Nat, d' ≠ d →
    s'.drivers[d']? = s.drivers[d']?

theorem Busy.makeOutput
    (h : Busy held excused s₀ t d cell p e s)
    (hNone : cell.output = none)
    (hRests : p.Rests (t ∈ excused))
    (hSuits : Suits s cell p)
    (hMindful : Mindful (t ∈ excused) s d cell p) :
    (Driver.makeOutput d).Ensures s fun r s' =>
      ∃ f, r = .ok f ∧
        OutputMade held excused t d s f s' := by
  have hMade : ∀ (n k : Nat) (settlement : Option Settlement),
      settlement.map (·.outcome) = cell.early →
        OutputMade held excused t d s s.futures.size
          (Session.outputMade { s with objects := n, events := k }
            d settlement) := by
    intro n k settlement hSettlement
    have hCounted : Busy held excused s₀ t d cell p e
        { s with objects := n, events := k } :=
      ⟨h.work.counted n k, ⟨h.desk.drives,
        { h.desk.linked with }, h.desk.pledges⟩, h.ending⟩
    have hDrives := hCounted.desk.drives
    have hExtends : s.Extends { s with objects := n, events := k } :=
      { Extends.refl s with }
    have hUnmoved : ∀ t', s.Unmoved t' { s with objects := n, events := k } :=
      fun t' => { Unmoved.refl t' s with }
    refine
      { sound := hCounted.outputMade hNone hRests
          (hSuits.extends hExtends rfl)
          (hMindful.unmoved hDrives (hUnmoved t)) hSettlement
        spares := spares_outputMade settlement
        extends_ := hExtends.trans
          (extends_outputMade hDrives hNone settlement)
        unmoved := fun t' ht' => (hUnmoved t').trans
          (unmoved_outputMade hCounted.work.sane hDrives
            hNone settlement ht')
        drives := ?_
        others := fun d' hOther => ?_ }
    · refine ⟨cell.made s.futures.size,
        drives_outputMade.mpr ⟨cell, hDrives, ?_⟩, rfl⟩
      rw [if_pos rfl]
    · simp [Session.outputMade, Array.getElem?_modify,
        Ne.symm hOther]
  unfold Driver.makeOutput
  refine Run.ensures_row_bind.mpr ?_
  rw [show (Table.drivers.rows s).getD d default = cell
    from h.desk.drives.getD]
  cases hEarly : cell.early with
  | none =>
      refine Run.Ensures.bind ?_
      refine Run.ensures_alloc.mpr ?_
      refine Run.ensures_alter_bind.mpr
        (Run.ensures_pure.mpr ⟨_, rfl, ?_⟩)
      exact hMade s.objects s.events none hEarly.symm
  | some outcome =>
      refine Run.Ensures.bind ?_
      refine Run.Ensures.bind (Run.ensures_modifyGet.mpr ?_)
      refine Run.ensures_alloc.mpr ?_
      refine Run.ensures_alter_bind.mpr
        (Run.ensures_pure.mpr ⟨_, rfl, ?_⟩)
      exact hMade s.stamped.objects s.stamped.events
        (some ⟨s.stamp, outcome⟩) hEarly.symm

end Output

end Resumption

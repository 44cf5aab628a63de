import Resumption.Proofs.Task.Launch
import Resumption.Proofs.World.Service

/-
  Whatever client code does, every task stays in the world of
  tasks: the library keeps the world if those that it calls
  keep it, and a caller of any depth does.

  Main declarations:
    * `Driving.employs`
    * `Driving.serves`
-/

namespace Resumption

open Session World

namespace Driving

variable {held excused : List Ref}
variable {s : Session}
variable {caller : Caller}

/- A caller may be called in every world of tasks. -/
def ServesAll (caller : Caller) : Prop :=
  ∀ held excused, (Driving held excused).Serves caller

variable (hAll : ServesAll caller)

include hAll

------------------------------------------------------------
-- Closures
------------------------------------------------------------

/- Tasks are employed in the world of tasks. -/
theorem employs : (Driving held excused).Employs caller where
  toHosts := hosts (hAll · excused)
  toFounds := founds
  serves := hAll held excused
  run {_ code _} m hs hCode hFit :=
    keeps_runTask hAll hs hFit
      ((Closure.harmless_core code).mp hCode) m
  resume _ hs h :=
    Run.Ensures.mono (ensures_resumeIdle hAll hs h _)
      fun _ _ hEnded => hEnded.moves
  conclude hs h := keeps_concludeStray hAll hs h _
  posted {_ entered context callback} hs h :=
    keeps_enter (hAll held excused) hs entered context
      (show (Driving held excused).fit _ callback from h)

/-
  A harmless driver's callback, or a promise, throws nothing
  in a network.
-/
theorem quiet_enterHarmless
    (hs : (Driving held excused).Sound s)
    {closure : Closure}
    (h : s.Harmless closure)
    (hNative : closure.IsNative)
    (args : List Value) :
    (closure.enter caller args).Ensures s fun r s' =>
      ∀ e, r = .error e → ¬ s'.Network := by
  have hKeeps :=
    (employs hAll).keeps_enterFit hs (fit_of_harmless h) args
  cases closure with
  | driverResume d callback =>
      refine Run.Ensures.quietly (Run.Ensures.mono
        (ensures_resumeIdle hAll hs h _) ?_)
      rintro (e | _) s' hEnded
      · rintro _ -
        exact (hEnded.quiet e rfl).2
      · rintro _ ⟨⟩
  | driverOutcome d awaiter =>
      refine Run.Ensures.mono hKeeps fun r s' hMoves e _ => ?_
      exact (hMoves.rel.extends_.stray h).not_network
  | bridge f p =>
      refine Run.Ensures.mono (calm_cross f p s) ?_
      rintro _ s' ⟨v, rfl⟩ e hr
      cases hr
  | _ => exact hNative.elim

/- What is due is called, and the task goes on. -/
theorem ensures_enterDue
    (hs : (Driving held excused).Sound s)
    {closure : Closure}
    {t : Ref}
    (hFree : t ∉ held)
    (hDue : s.Due t closure)
    (args : List Value) :
    (closure.enter caller args).Ensures s fun r s' =>
      Ended held excused s True r s' ∧
        (args = [] → s.turns t < s'.turns t) := by
  have hMap : ∀ {r : Except Value Unit} {s'},
      Ended held excused s True r s' →
        Ended held excused s True
          (r.map fun _ => Value.undefined) s' := by
    rintro (e | _) s' hEnded
    · refine ⟨hEnded.moves, ?_⟩
      rintro _ -
      exact hEnded.quiet e rfl
    · exact .ok hEnded.moves
  have hClosure := hDue
  rcases hClosure with
    ⟨hDrives, _, _, _, _⟩ | ⟨hDrives, _, _, _, _, _, _⟩
  · refine Run.Ensures.quietly (Run.Ensures.mono
      (ensures_resumeDue hAll hs hFree hDue _) ?_)
    rintro r s' ⟨hEnded, hTurns⟩
    refine ⟨hMap hEnded, ?_⟩
    rintro rfl
    exact hTurns rfl
  · refine Run.Ensures.quietly (Run.Ensures.mono
      (ensures_conclude hAll hs hFree hDue) ?_)
    rintro r s' ⟨hEnded, hTurns⟩
    exact ⟨hMap hEnded, fun _ => hTurns⟩

/-
  Entering what may be called keeps the world of tasks, and
  brings about what it is called for.
-/
theorem ensures_enterClosure
    (hs : (Driving held excused).Sound s)
    {closure : Closure}
    {args : List Value}
    (h : (Driving held excused).calls s closure args) :
    (closure.enter caller args).Ensures s fun r s' =>
      (Driving held excused).Moves s s' ∧
        (Driving held excused).after s closure args r s' := by
  rcases h with hHarmless | ⟨t, hFree, hDue⟩
  · have hNever : ∀ t, ¬ s.Due t closure := by
      intro t hDue
      rcases hDue.tokens with
        ⟨d, _, _, e, _, _, _, _, _, hToken⟩
      exact Harmless.not_tokens
        ((Closure.harmless_core closure).mpr hHarmless) d e
        hToken
    have hEmploys : (Driving held excused).Employs caller :=
      employs hAll
    have hFit : (Driving held excused).fit s closure :=
      fit_of_harmless hHarmless
    by_cases hNative : closure.IsNative
    · refine Run.Ensures.mono
        ((hEmploys.keeps_enterFit hs hFit args).and
          (quiet_enterHarmless hAll hs hHarmless hNative args))
        ?_
      rintro r s' ⟨hMoves, hQuiet⟩
      exact ⟨hMoves, fun _ => ⟨fun t _ hDue =>
        absurd hDue (hNever t), fun _ => hQuiet⟩⟩
    · refine Run.Ensures.mono
        (hEmploys.keeps_enterFit hs hFit args) ?_
      intro r s' hMoves
      exact ⟨hMoves, fun _ => ⟨fun t _ hDue =>
        absurd hDue (hNever t), fun hYes =>
          absurd hYes hNative⟩⟩
  · refine Run.Ensures.mono
      (ensures_enterDue hAll hs hFree hDue args) ?_
    rintro r s' ⟨hEnded, hTurns⟩
    refine ⟨hEnded.moves, fun hArgs =>
      ⟨fun t' _ hDue' => ?_, fun _ e he =>
        (hEnded.quiet e he).2⟩⟩
    rcases hDue'.tokens with
      ⟨_, _, _, _, hDrives, _, _, _, _, hToken⟩
    obtain rfl := hDue.task hDrives hToken
    exact hTurns hArgs

omit hAll in
/- A caller of any depth keeps the world of tasks. -/
theorem serves
    (rounds depth : Nat) :
    ServesAll (.ofDepth rounds depth) := by
  induction depth with
  | zero =>
      intro held excused c args s _ _
      exact Run.ensures_exhaust
  | succ depth ih =>
      intro held excused c args s hs hCalls
      exact ensures_enterClosure ih hs hCalls

end Driving

end Resumption

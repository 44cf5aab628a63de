import Resumption.Proofs.Network.Networks

/-
  Networks that are made of numbered routines, and sessions
  to begin with.

  A routine is given the futures that are numbered lower than
  its own, and logs numbers of its own hundred: so no two
  have anything in common.

  Main declarations:
    * `State.fresh`, `Network.opens_fresh`
    * `Network.ofRoutines`
-/

namespace Resumption

/- A hundred numbers as a territory: what may be logged. -/
def Territory.hundred (k : Nat) : Territory where
  var _ := false
  entry
    | .int i => i / 100 == k
    | _ => false

theorem Territory.hundred_apart
    {k l : Nat}
    (hNe : k ≠ l) :
    (Territory.hundred k).Apart (.hundred l) where
  var _ h := by cases h
  entry face h := by
    cases face with
    | int i =>
        simp only [Territory.hundred, beq_iff_eq] at h
        simp only [Territory.hundred, h, beq_eq_false_iff_ne]
        exact fun hSame => hNe (Int.ofNat_inj.mp hSame)
    | _ => rfl

/- A routine that is a task like any other. -/
def Member.numbered
    {n : Nat}
    (t : Fin n)
    (routine : Routine (Fin n)) : Member (Fin n) where
  routine := routine
  own := .hundred t
  inputs x := x < t
  captured := true
  assertions := .undefined
  taskId := .undefined
  context := .undefined

namespace Network

section Fresh

variable {ν : Type}
variable [DecidableEq ν]

/- The session that has some sources, and nothing else. -/
def State.fresh (sources : List ν) : State ν where
  session := { Session.empty with
    futures := Array.replicate sources.length (.fresh none)
    deferreds := (Array.range sources.length).map .future }
  place x :=
    if x ∈ sources then some (sources.idxOf x) else none

variable {N : Network ν}

/- There is a session to begin with. -/
theorem opens_fresh
    {sources : List ν}
    (hSources : ∀ x, N.member x = none ↔ x ∈ sources)
    (hHandle : ∀ x, N.handle x = sources.idxOf x)
    (hReleases : ∀ r, N.releases r = none) :
    N.Opens (State.fresh sources) where
  ambient := rfl
  tidy m l hl := by
    cases Array.not_mem_empty l hl
  resource r release h := by
    rw [hReleases] at h
    cases h
  source x hx := by
    have hIn := (hSources x).mp hx
    have hLt := List.idxOf_lt_length_of_mem hIn
    refine ⟨sources.idxOf x, if_pos hIn, ?_, ?_⟩
    · simp [State.fresh, hHandle, hLt]
    · simp [State.fresh, hLt]
  apart x y r hx hy hr hr' := by
    have hIn := (hSources x).mp hx
    have hIn' := (hSources y).mp hy
    have hSame : sources.idxOf x = sources.idxOf y := by
      simp only [State.fresh, hIn, hIn', if_true] at hr hr'
      exact Option.some.inj (hr.trans hr'.symm)
    rw [← List.getElem_idxOf (List.idxOf_lt_length_of_mem hIn),
      ← List.getElem_idxOf (List.idxOf_lt_length_of_mem hIn')]
    simp only [hSame]
  member t m ht := by
    refine if_neg fun hIn => ?_
    rw [(hSources t).mpr hIn] at ht
    cases ht

end Fresh

section Routines

variable {n : Nat}

/- The futures that no routine is there for. -/
def sourcesOf
    (routines : Fin n → Option (Routine (Fin n))) :
    List (Fin n) :=
  (List.finRange n).filter fun x => (routines x).isNone

/- The network of some routines. -/
def ofRoutines
    (routines : Fin n → Option (Routine (Fin n))) :
    Network (Fin n) where
  member t := (routines t).map (Member.numbered t)
  handle x := (sourcesOf routines).idxOf x
  releases _ := none

variable (routines : Fin n → Option (Routine (Fin n)))

theorem ofRoutines_opens :
    (ofRoutines routines).Opens
      (State.fresh (sourcesOf routines)) := by
  refine opens_fresh (fun x => ?_) (fun _ => rfl) fun _ => rfl
  simp [ofRoutines, sourcesOf]

theorem ofRoutines_separate :
    (ofRoutines routines).Separate := by
  intro t u m m' ht hu hNe
  rcases Option.map_eq_some_iff.mp ht with ⟨_, _, rfl⟩
  rcases Option.map_eq_some_iff.mp hu with ⟨_, _, rfl⟩
  exact Territory.hundred_apart fun hSame => hNe (Fin.ext hSame)

end Routines

end Network

end Resumption

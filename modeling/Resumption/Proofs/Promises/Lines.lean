import Mathlib.Data.List.Nodup
import Resumption.Proofs.Promises

/-
  Who waits in line for a promise.

  The reactions that came to a promise are kept in the order
  in which they came, among whatever else waits for it; once
  it has settled, those that have not had their turn are in
  the queue, in that order, among whatever else is queued.
  A reaction is known by the promise that was derived for it.

  Main declarations:
    * `Reaction.among`, `Job.stems`
    * `Line`
    * `Line.enlist`, `Line.resolve`, `Line.take`
-/

namespace Resumption

variable {r r' : Reaction}
variable {o : Outcome}
variable {d : Ref}
variable {calls reactions rs : List Reaction}
variable {taken : List (Reaction × Outcome)}
variable {outcome : Option Outcome}
variable {jobs js : List Job}
variable {j : Job}

------------------------------------------------------------
-- Reactions in Line
------------------------------------------------------------

/- Is a reaction one of those that are waited for? -/
def Reaction.among
    (calls : List Reaction)
    (r : Reaction) : Bool :=
  calls.any (·.derived == r.derived)

/- Does a job run one of them? -/
def Job.stems
    (calls : List Reaction) : Job → Bool
  | .react r _ => r.among calls
  | _ => false

/- The promise that was derived for what a job runs. -/
def Job.derived? : Job → Option Ref
  | .react r _ => some r.derived
  | _ => none

theorem Reaction.among_iff :
    r.among calls = true ↔ ∃ r' ∈ calls, r'.derived = r.derived := by
  simp only [among, List.any_eq_true, beq_iff_eq]

theorem Reaction.among_of_mem
    (h : r ∈ calls) :
    r.among calls = true :=
  among_iff.mpr ⟨r, h, rfl⟩

theorem Reaction.not_among
    (h : ∀ r' ∈ calls, r'.derived ≠ r.derived) :
    r.among calls = false := by
  rw [Bool.eq_false_iff]
  intro hAmong
  rcases among_iff.mp hAmong with ⟨r', hMem, hSame⟩
  exact h r' hMem hSame

/- One more is waited for. -/
theorem Reaction.among_concat :
    r.among (calls ++ [r']) =
      (r.among calls || r'.derived == r.derived) := by
  simp only [among, List.any_append, List.any_cons, List.any_nil,
    Bool.or_false]

theorem Job.stems_iff :
    j.stems calls = true ↔
      ∃ r o, j = .react r o ∧ r.among calls = true := by
  cases j with
  | react r o =>
      constructor
      · intro h
        exact ⟨r, o, rfl, h⟩
      · rintro ⟨_, _, ⟨⟩, h⟩
        exact h
  | _ => exact ⟨nofun, by rintro ⟨_, _, ⟨⟩, _⟩⟩

theorem Job.not_stems
    (h : ∀ d, j.derived? = some d → ∀ r ∈ calls,
      r.derived ≠ d) :
    j.stems calls = false := by
  rw [Bool.eq_false_iff]
  intro hStems
  rcases stems_iff.mp hStems with ⟨r, o, rfl, hAmong⟩
  rcases Reaction.among_iff.mp hAmong with ⟨r', hMem, hSame⟩
  exact h r.derived rfl r' hMem hSame

------------------------------------------------------------
-- Lines
------------------------------------------------------------

/-
  The line for a promise: who came to it, in order, whose job
  was taken and with which outcome, what the promise settled
  with, what waits for it, and what is queued.
-/
structure Line
    (calls : List Reaction)
    (taken : List (Reaction × Outcome))
    (outcome : Option Outcome)
    (reactions : List Reaction)
    (jobs : List Job) : Prop where
  distinct : (calls.map (·.derived)).Nodup
  pending : outcome = none →
    reactions.filter (·.among calls) = calls ∧ taken = [] ∧
      jobs.filter (·.stems calls) = []
  settled : ∀ o, outcome = some o →
    ∃ n, taken = (calls.take n).map (·, o) ∧
      jobs.filter (·.stems calls) =
        (calls.drop n).map (.react · o)

namespace Line

private theorem no_job (jobs : List Job) :
    jobs.filter (·.stems []) = [] :=
  List.filter_eq_nil_iff.mpr fun j _ => by
    cases j <;> exact Bool.false_ne_true

/- Nobody has come. -/
theorem empty
    (outcome : Option Outcome)
    (reactions : List Reaction)
    (jobs : List Job) :
    Line [] [] outcome reactions jobs where
  distinct := List.nodup_nil
  pending _ := by
    refine ⟨?_, rfl, ?_⟩
    · exact List.filter_eq_nil_iff.mpr fun r _ =>
        Bool.false_ne_true
    · exact no_job jobs
  settled o _ := ⟨0, rfl, no_job jobs⟩

/- Others come to wait, and other jobs are queued. -/
theorem extend
    (h : Line calls taken outcome reactions jobs)
    (hReactions : ∀ r ∈ rs, r.among calls = false)
    (hJobs : ∀ j ∈ js, j.stems calls = false) :
    Line calls taken outcome (reactions ++ rs) (jobs ++ js) := by
  have hNone : rs.filter (·.among calls) = [] :=
    List.filter_eq_nil_iff.mpr fun r hMem => by
      rw [hReactions r hMem]
      exact Bool.false_ne_true
  have hNoJob : js.filter (·.stems calls) = [] :=
    List.filter_eq_nil_iff.mpr fun j hMem => by
      rw [hJobs j hMem]
      exact Bool.false_ne_true
  refine ⟨h.distinct, fun hPending => ?_, fun o hSettled => ?_⟩
  · rw [List.filter_append, List.filter_append, hNone, hNoJob,
      List.append_nil, List.append_nil]
    exact h.pending hPending
  · rw [List.filter_append, hNoJob, List.append_nil]
    exact h.settled o hSettled

section Enlisting

variable
  (hFresh : ∀ r' ∈ calls, r'.derived ≠ r.derived)
  (hJobs : ∀ j ∈ jobs, j.derived? ≠ some r.derived)
include hFresh hJobs

omit hJobs in
private theorem distinct_concat
    (h : (calls.map (·.derived)).Nodup) :
    ((calls ++ [r]).map (·.derived)).Nodup := by
  rw [List.map_append, List.nodup_append]
  refine ⟨h, List.nodup_singleton _, ?_⟩
  intro d hMem d' hMem'
  rcases List.mem_map.mp hMem with ⟨r', hCall, rfl⟩
  rw [List.map_singleton, List.mem_singleton] at hMem'
  rw [hMem']
  exact hFresh r' hCall

/- No job that was queued before is for who comes last. -/
omit hFresh in
private theorem filter_concat :
    jobs.filter (·.stems (calls ++ [r])) =
      jobs.filter (·.stems calls) := by
  refine List.filter_congr fun j hMem => ?_
  cases j with
  | react r' o' =>
      have hOther : (r.derived == r'.derived) = false := by
        rw [beq_eq_false_iff_ne]
        intro hSame
        exact hJobs _ hMem (congrArg some hSame.symm)
      change r'.among (calls ++ [r]) = r'.among calls
      rw [Reaction.among_concat, hOther, Bool.or_false]
  | _ => rfl

/- Someone comes to a pending promise. -/
theorem enlist_pending
    (h : Line calls taken none reactions jobs)
    (hReactions : ∀ r' ∈ reactions, r'.derived ≠ r.derived) :
    Line (calls ++ [r]) taken none (reactions ++ [r]) jobs := by
  rcases h.pending rfl with ⟨hCalls, hTaken, hNoJob⟩
  refine ⟨distinct_concat hFresh h.distinct,
    fun _ => ⟨?_, hTaken, ?_⟩, nofun⟩
  · rw [List.filter_append, List.filter_cons_of_pos
      (Reaction.among_of_mem (List.mem_append_right calls
        (List.mem_singleton_self r))), List.filter_nil]
    refine congrArg (· ++ [r]) (Eq.trans ?_ hCalls)
    refine List.filter_congr fun r' hMem => ?_
    rw [Reaction.among_concat, beq_eq_false_iff_ne.mpr
      (hReactions r' hMem).symm, Bool.or_false]
  · rw [filter_concat hJobs, hNoJob]

/- Someone comes to one that has settled. -/
theorem enlist_settled
    (h : Line calls taken (some o) reactions jobs) :
    Line (calls ++ [r]) taken (some o) reactions
      (jobs ++ [.react r o]) := by
  refine ⟨distinct_concat hFresh h.distinct, nofun,
    fun o' hSettled => ?_⟩
  cases hSettled
  rcases h.settled o rfl with ⟨n, hTaken, hQueued⟩
  refine ⟨min n calls.length, ?_, ?_⟩
  · rw [hTaken, List.take_append_of_le_length
      (Nat.min_le_right _ _), ← List.take_take,
      List.take_length]
  · rw [List.filter_append, filter_concat hJobs, hQueued,
      List.drop_append_of_le_length (Nat.min_le_right _ _),
      List.map_append]
    refine congrArg₂ (· ++ ·) (congrArg _ ?_) ?_
    · rcases Nat.le_total n calls.length with hLe | hLe
      · rw [Nat.min_eq_left hLe]
      · rw [Nat.min_eq_right hLe, List.drop_eq_nil_of_le hLe,
          List.drop_length]
    · exact List.filter_cons_of_pos (Reaction.among_of_mem
        (List.mem_append_right calls
          (List.mem_singleton_self r)))

end Enlisting

/- The promise settles, and everyone's job is queued. -/
theorem resolve
    (h : Line calls taken none reactions jobs)
    (o : Outcome)
    (rs : List Reaction) :
    Line calls taken (some o) rs
      (jobs ++ reactions.map (.react · o)) := by
  rcases h.pending rfl with ⟨hCalls, hTaken, hNoJob⟩
  refine ⟨h.distinct, nofun, fun o' hSettled => ?_⟩
  cases hSettled
  refine ⟨0, hTaken, ?_⟩
  rw [List.filter_append, hNoJob, List.nil_append,
    List.filter_map, List.drop_zero]
  exact congrArg (List.map (Job.react · o)) hCalls

/- Whose job is first in the queue was the next in line. -/
theorem take_own
    (h : Line calls taken outcome reactions (.react r o :: jobs))
    (hOwn : r.among calls = true) :
    outcome = some o ∧ r ∈ calls ∧
      (∀ o', (r, o') ∉ taken) ∧
      Line calls (taken ++ [(r, o)]) outcome reactions jobs := by
  have hHead : ((Job.react r o :: jobs).filter
      (·.stems calls)) =
        .react r o :: jobs.filter (·.stems calls) :=
    List.filter_cons_of_pos hOwn
  cases hOutcome : outcome with
  | none =>
      rcases h.pending hOutcome with ⟨_, _, hNoJob⟩
      rw [hHead] at hNoJob
      cases hNoJob
  | some o' =>
      rcases h.settled o' hOutcome with ⟨n, hTaken, hQueued⟩
      rw [hHead] at hQueued
      cases hDrop : calls.drop n with
      | nil =>
          rw [hDrop] at hQueued
          cases hQueued
      | cons r' rest =>
          rw [hDrop] at hQueued
          obtain ⟨hFirst, hRest⟩ := List.cons.inj hQueued
          cases hFirst
          have hSplit : calls = calls.take n ++ r :: rest := by
            rw [← hDrop, List.take_append_drop]
          have hLength : n < calls.length := by
            by_contra hNot
            rw [List.drop_eq_nil_of_le (Nat.not_lt.mp hNot)]
              at hDrop
            cases hDrop
          have hNext : calls.take (n + 1) = calls.take n ++ [r] := by
            rw [List.take_add_one, ← List.head?_drop, hDrop]
            rfl
          have hMem : r ∈ calls := by
            rw [hSplit]
            exact List.mem_append_right _ (List.mem_cons_self ..)
          refine ⟨rfl, hMem, fun o' hTwice => ?_, h.distinct, nofun,
            fun o' hSettled => ?_⟩
          · rw [hTaken] at hTwice
            rcases List.mem_map.mp hTwice with ⟨r', hEarly, hSame⟩
            cases hSame
            have hDistinct := h.distinct
            rw [hSplit, List.map_append, List.nodup_append]
              at hDistinct
            exact hDistinct.2.2 r.derived
              (List.mem_map_of_mem hEarly) r.derived
              (List.mem_map_of_mem (List.mem_cons_self ..)) rfl
          · cases hSettled
            refine ⟨n + 1, ?_, ?_⟩
            · rw [hNext, hTaken, List.map_append]
              rfl
            · rw [← List.tail_drop, hDrop]
              exact hRest

/- Another job is taken. -/
theorem take_other
    (h : Line calls taken outcome reactions (j :: jobs))
    (hOther : j.stems calls = false) :
    Line calls taken outcome reactions jobs := by
  have hSame : (j :: jobs).filter (·.stems calls) =
      jobs.filter (·.stems calls) :=
    List.filter_cons_of_neg (by rw [hOther]; exact
      Bool.false_ne_true)
  refine ⟨h.distinct, fun hPending => ?_, fun o hSettled => ?_⟩
  · rw [← hSame]
    exact h.pending hPending
  · rw [← hSame]
    exact h.settled o hSettled

/- Whoever's job was taken had come, and the outcome is theirs. -/
theorem of_taken
    (h : Line calls taken outcome reactions jobs)
    (hTaken : (r, o) ∈ taken) :
    r ∈ calls ∧ outcome = some o := by
  cases hOutcome : outcome with
  | none =>
      rw [(h.pending hOutcome).2.1] at hTaken
      cases hTaken
  | some o' =>
      rcases h.settled o' hOutcome with ⟨n, hAll, _⟩
      rw [hAll] at hTaken
      rcases List.mem_map.mp hTaken with ⟨r', hMem, hSame⟩
      cases hSame
      exact ⟨List.mem_of_mem_take hMem, rfl⟩

/- Turns are had in the order in which they came. -/
theorem inOrder
    (h : Line calls taken outcome reactions jobs) :
    taken.map (·.1) <+: calls := by
  cases hOutcome : outcome with
  | none =>
      rw [(h.pending hOutcome).2.1]
      exact List.nil_prefix
  | some o =>
      rcases h.settled o hOutcome with ⟨n, hAll, _⟩
      rw [hAll, List.map_map]
      exact (List.map_id _).symm ▸ List.take_prefix n calls

/- Once nothing is queued, everyone has had their turn. -/
theorem drained
    (h : Line calls taken (some o) reactions []) :
    taken = calls.map (·, o) := by
  rcases h.settled o rfl with ⟨n, hAll, hQueued⟩
  have hDrop := List.map_eq_nil_iff.mp hQueued.symm
  have hTake : calls.take n = calls :=
    List.take_of_length_le (List.drop_eq_nil_iff.mp hDrop)
  rw [hAll, hTake]

end Line

end Resumption

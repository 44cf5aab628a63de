import Resumption.Proofs.Promises.Keeping

/-
  Whatever settles of the futures and promises that a docket
  keeps, and whosever job is taken, its books remain right.

  Main declarations:
    * `Docket.Sound.link`
    * `Docket.Sound.settle`
    * `Docket.Sound.tell`, `Docket.Sound.cross`
    * `Docket.Sound.take`, `Docket.Sound.pass`,
      `Docket.Sound.draw`
-/

namespace Resumption

open Session

variable {s s' : Session}
variable {root f g p q d : Ref}
variable {o : Outcome}
variable {r : Reaction}
variable {j : Job}
variable {jobs : List Job}
variable {ws : List Closure}
variable {L : Docket}

namespace Docket

------------------------------------------------------------
-- Futures Made from Promises
------------------------------------------------------------

/- A future as it was made. -/
structure Blank
    (s : Session)
    (g : Ref) : Prop where
  exists_ : g < s.futures.size
  outcome : s.outcome? g = none
  promise : s.promise? g = none
  watchers : s.watchers g = []
  audience : s.audience g = []

theorem blank_withFuture (s : Session) :
    Blank (s.withFuture (.fresh none)) s.futures.size := by
  have hRow : (s.withFuture (.fresh none)).futures.getD
      s.futures.size default = .fresh none := by
    rw [withFuture, getD_push, if_pos rfl]
  refine ⟨?_, ?_, ?_, ?_, ?_⟩
  · change _ < (s.futures.push _).size
    rw [Array.size_push]
    exact Nat.lt_succ_self _
  · rw [outcome?, hRow]
    rfl
  · rw [promise?, hRow]
    rfl
  · rw [Session.watchers, hRow]
    rfl
  · rw [Session.audience, hRow]
    rfl

/- A future that is made from an echo is kept from then on. -/
theorem Sound.link
    {k : Link}
    (h : (L.called k.source k.reaction).Sound root s)
    (hBlank : Blank s k.future)
    (hNew : k.future ∉ L.futures)
    (hSource : .echo k.source ∈ L.calls p)
    (hTaken : ∀ o, (k.reaction, o) ∉ L.taken k.source)
    (hBorn : k.born = L.turns) :
    (L.linked k).Sound root s := by
  have hGuards : ∀ p, (L.linked k).Guards s p ↔
      (L.called k.source k.reaction).Guards s p := by
    refine fun p => or_congr ?_ Iff.rfl
    constructor
    · rintro ⟨g, hg, hPromise⟩
      rcases List.mem_cons.mp hg with rfl | hg
      · cases hBlank.promise.symm.trans hPromise
      · exact ⟨g, hg, hPromise⟩
    · rintro ⟨g, hg, hPromise⟩
      exact ⟨g, List.mem_cons_of_mem _ hg, hPromise⟩
  have hKept : ∀ g ∈ L.futures, g ≠ k.future := by
    rintro g hg rfl
    exact hNew hg
  have hPromised : ∀ g ∈ (L.linked k).futures, ∀ p,
      s.promise? g = some p → g ∈ L.futures := by
    intro g hg p hp
    rcases List.mem_cons.mp hg with rfl | hg
    · cases hBlank.promise.symm.trans hp
    · exact hg
  refine ⟨⟨fun p hp => h.lines.line p ((hGuards p).mp hp),
      fun p hp => h.lines.plain p ((hGuards p).mp hp),
      fun p r hr => (hGuards p).mpr (h.lines.guards p r hr),
      h.lines.calls,
      fun p hp => h.lines.reactions p ((hGuards p).mp hp),
      h.lines.jobs, h.lines.apart,
      fun p hp => h.lines.taken p (mt (hGuards p).mpr hp)⟩,
    ⟨fun g hg => ?_, List.mem_cons_of_mem _ h.sources.root_mem,
      fun g p hMem => ?_, fun g hg g' hg' p hp hp' => ?_,
      fun g hg p hp => ?_⟩, h.echoes, fun k' hk => ?_,
    fun k₁ hk₁ k₂ hk₂ hSame => ?_⟩
  · rcases List.mem_cons.mp hg with rfl | hg
    · refine ⟨hBlank.exists_, ?_, ?_, ?_, ?_, ?_⟩
      · rw [hBlank.outcome]
        exact nofun
      · rw [hBlank.audience]
        exact Nat.zero_le _
      · rw [hBlank.watchers]
        exact nofun
      · rw [hBlank.promise]
        exact nofun
      · rw [hBlank.promise]
        exact nofun
    · exact { h.sources.tends g hg with }
  · rcases h.sources.untold g p hMem with ⟨hg, hRest⟩
    exact ⟨List.mem_cons_of_mem _ hg, hRest⟩
  · exact h.sources.apart g (hPromised g hg p hp) g'
      (hPromised g' hg' p hp') p hp hp'
  · exact h.sources.unowned g (hPromised g hg p hp) p hp
  · rcases List.mem_cons.mp hk with rfl | hk
    · refine ⟨⟨p, mem_called_of_mem hSource⟩, ?_,
        ⟨List.mem_cons_self .., ?_⟩, fun o => ?_,
        Nat.le_of_eq hBorn, fun o hMem => (hTaken o hMem).elim⟩
      · change k'.reaction ∈ (L.called k'.source
          k'.reaction).calls k'.source
        rw [calls_called, if_pos rfl]
        exact List.mem_append_right _ (List.mem_singleton_self _)
      · exact (hKept root h.sources.root_mem).symm
      · rw [hBlank.outcome]
        exact ⟨nofun, fun hMem => (hTaken o hMem).elim⟩
    · have hLinked := h.links k' hk
      exact { hLinked with
        future := ⟨List.mem_cons_of_mem _ hLinked.future.1,
          hLinked.future.2⟩ }
  · rcases List.mem_cons.mp hk₁ with rfl | hOld₁
    · rcases List.mem_cons.mp hk₂ with rfl | hOld₂
      · rfl
      · exact (hKept _ (h.links k₂ hOld₂).future.1
          hSame.symm).elim
    · rcases List.mem_cons.mp hk₂ with rfl | hOld₂
      · exact (hKept _ (h.links k₁ hOld₁).future.1 hSame).elim
      · exact h.distinct k₁ hOld₁ k₂ hOld₂ hSame

------------------------------------------------------------
-- Futures That Settle
------------------------------------------------------------

section Settling

variable (hf : f < s.futures.size)
include hf

theorem outcome?_settling :
    (s.settling f o).outcome? g =
      if g = f then some o else s.outcome? g := by
  simp only [outcome?, settling, futures_modify hf]
  by_cases hSame : g = f <;> simp [hSame]

theorem promise?_settling :
    (s.settling f o).promise? g = s.promise? g := by
  simp only [promise?, settling, futures_modify hf]
  by_cases hSame : g = f <;> simp [hSame]

theorem audience_settling :
    (s.settling f o).audience g = s.audience g := by
  simp only [Session.audience, settling, futures_modify hf]
  by_cases hSame : g = f <;> simp [hSame]

theorem watchers_settling_self :
    (s.settling f o).watchers f = [] := by
  simp only [Session.watchers, settling, futures_modify hf,
    if_true]

end Settling

theorem guards_settling
    (hf : f < s.futures.size) :
    L.Guards (s.settling f o) p ↔ L.Guards s p := by
  simp only [Guards, promise?_settling hf]

/- No promise settles with a future at once. -/
theorem Lines.settle
    (h : L.Lines s)
    (hf : f < s.futures.size)
    (o : Outcome)
    (ws : List Closure) :
    (L.telling ws).Lines (s.settling f o) := by
  have hGuards : ∀ p, (L.telling ws).Guards (s.settling f o) p ↔
      L.Guards s p := fun p => guards_settling hf
  exact ⟨fun p hp => h.line p ((hGuards p).mp hp),
    fun p hp => h.plain p ((hGuards p).mp hp),
    fun p r hr => (hGuards p).mpr (h.guards p r hr),
    h.calls,
    fun p hp => h.reactions p ((hGuards p).mp hp),
    h.jobs, h.apart,
    fun p hp => h.taken p (mt (hGuards p).mpr hp)⟩

/- Its watchers are to be told, its promise's among them. -/
theorem Sources.settle
    (h : L.Sources root s)
    (hf : f ∈ L.futures)
    (hPending : s.outcome? f = none)
    (hPlain : o.Plain) :
    (L.telling (s.watchers f)).Sources root
      (s.settling f o) := by
  have hExists := (h.tends f hf).exists_
  have hKept : ∀ g, (s.outcome? g).isSome →
      ((s.settling f o).outcome? g).isSome := by
    intro g hSome
    rw [outcome?_settling hExists]
    split
    · rfl
    · exact hSome
  refine ⟨fun g hg => ?_, h.root_mem, fun g p hMem => ?_,
    fun g hg g' hg' p => ?_, fun g hg p hp => ?_⟩
  · have hTends := h.tends g hg
    refine ⟨?_, fun o' hSome => ?_, ?_, fun g' p hMem => ?_,
      fun p hp hNone => ?_, fun p hp o' hSome => ?_⟩
    · exact Nat.lt_of_lt_of_eq hTends.exists_
        Array.size_modify.symm
    · rw [outcome?_settling hExists] at hSome
      split at hSome
      · cases hSome
        exact hPlain
      · exact hTends.plain o' hSome
    · rw [audience_settling hExists, promise?_settling hExists]
      exact hTends.audience
    · rw [promise?_settling hExists]
      by_cases hSame : g = f
      · subst hSame
        rw [watchers_settling_self hExists] at hMem
        cases hMem
      · rw [watchers_settling hExists hSame] at hMem
        exact hTends.watchers g' p hMem
    · rw [promise?_settling hExists] at hp
      rw [outcome?_settling hExists]
      rcases hTends.pending p hp hNone with
        ⟨hOpen, hWaits⟩ | ⟨hSettled, hWaits⟩
      · by_cases hSame : g = f
        · subst hSame
          rw [if_pos rfl]
          exact .inr ⟨rfl, List.mem_append_left _ hWaits⟩
        · rw [if_neg hSame, watchers_settling hExists hSame]
          exact .inl ⟨hOpen, hWaits⟩
      · refine .inr ⟨?_, List.mem_append_right _ hWaits⟩
        split
        · rfl
        · exact hSettled
    · rw [promise?_settling hExists] at hp
      have hOutcome := hTends.settled p hp o' hSome
      rw [outcome?_settling hExists, if_neg]
      · exact hOutcome
      · rintro rfl
        cases hPending.symm.trans hOutcome
  · rw [promise?_settling hExists]
    rcases List.mem_append.mp hMem with hMem | hMem
    · rcases (h.tends f hf).watchers g p hMem with ⟨rfl, hp⟩
      refine ⟨hf, hp, ?_⟩
      rw [outcome?_settling hExists, if_pos rfl]
      rfl
    · rcases h.untold g p hMem with ⟨hg, hp, hSettled⟩
      exact ⟨hg, hp, hKept g hSettled⟩
  · rw [promise?_settling hExists, promise?_settling hExists]
    exact h.apart g hg g' hg' p
  · rw [promise?_settling hExists] at hp
    exact h.unowned g hg p hp

/- The future that all others stem from settles. -/
theorem Sound.settle
    (h : L.Sound root s)
    (hPending : s.outcome? root = none)
    (hPlain : o.Plain) :
    (L.telling (s.watchers root)).Sound root
      (s.settling root o) := by
  have hRoot := h.sources.root_mem
  have hExists := (h.sources.tends root hRoot).exists_
  refine ⟨h.lines.settle hExists o _,
    h.sources.settle hRoot hPending hPlain, h.echoes,
    fun k hk => ?_, h.distinct⟩
  have hLinked := h.links k hk
  refine { hLinked with outcome := fun o' => ?_ }
  rw [outcome?_settling hExists, if_neg hLinked.future.2]
  exact hLinked.outcome o'

------------------------------------------------------------
-- Those Who Are Told
------------------------------------------------------------

/- Somebody is told whose business is not the docket's. -/
theorem Sound.tell
    {w : Closure}
    (h : L.Sound root s)
    (hUntold : L.untold = w :: ws)
    (hOther : ∀ f p, w ≠ .bridge f p) :
    (L.told ws).Sound root s := by
  have hMem : ∀ w' ∈ ws, w' ∈ L.untold := by
    intro w' hMem
    rw [hUntold]
    exact List.mem_cons_of_mem _ hMem
  refine ⟨{ h.lines with }, ⟨fun f hf => ?_,
    h.sources.root_mem, fun f p hp => h.sources.untold f p (hMem _ hp),
    h.sources.apart, h.sources.unowned⟩, h.echoes,
    fun k hk => { h.links k hk with }, h.distinct⟩
  have hTends := h.sources.tends f hf
  refine { hTends with pending := fun p hp hNone => ?_ }
  refine (hTends.pending p hp hNone).imp id fun hWaits => ?_
  refine ⟨hWaits.1, ?_⟩
  have hLeft := hWaits.2
  rw [hUntold] at hLeft
  exact (List.mem_cons.mp hLeft).resolve_left
    (hOther f p).symm

------------------------------------------------------------
-- Promises That Settle
------------------------------------------------------------

theorem guards_resolving :
    L.Guards (s.resolving p o) q ↔ L.Guards s q := by
  simp only [Guards, promise?, futures_resolving]

/- A guarded promise settles, and all are queued who came. -/
theorem Lines.resolve
    (h : L.Lines s)
    (hp : L.Guards s p)
    (hPending : s.promised? p = none)
    (hPlain : o.Plain) :
    L.Lines (s.resolving p o) := by
  have hSize := (h.line p hp).1
  have hPromised : ∀ q, (s.resolving p o).promised? q =
      if q = p then some o else s.promised? q := by
    intro q
    rw [promised?_resolving hSize, hPending, Option.getD_none]
  have hJobs : (s.resolving p o).microtasks =
      s.microtasks ++ (s.reactions p).map (.react · o) :=
    microtasks_resolving hPending
  have hLt : ∀ d, d < s.promises.size →
      d < (s.resolving p o).promises.size :=
    fun d hd => size_resolving.symm ▸ hd
  refine ⟨fun q hq => ?_, fun q hq o' hSome => ?_,
    fun q r hr => guards_resolving.mpr (h.guards q r hr),
    fun q r hr => hLt _ (h.calls q r hr), fun q hq r hr => ?_,
    fun j hj d hd => ?_, h.apart,
    fun q hq => h.taken q (mt guards_resolving.mpr hq)⟩
  · rw [guards_resolving] at hq
    rcases h.line q hq with ⟨hSize', hLine⟩
    refine ⟨hLt q hSize', ?_⟩
    rw [hPromised, hJobs]
    by_cases hSame : q = p
    · subst hSame
      rw [hPending] at hLine
      rw [if_pos rfl]
      exact hLine.resolve o _
    · rw [if_neg hSame, reactions_resolving hSame]
      have hOther : ∀ j ∈ (s.reactions p).map (Job.react · o),
          j.stems (L.calls q) = false := by
        intro j hMem
        rcases List.mem_map.mp hMem with ⟨r, hr, rfl⟩
        rw [Bool.eq_false_iff]
        intro hAmong
        exact hSame ((h.reactions p hp r hr).2 q hAmong)
      have hExtend := hLine.extend (List.forall_mem_nil _)
        hOther
      rw [List.append_nil] at hExtend
      exact hExtend
  · rw [guards_resolving] at hq
    rw [hPromised] at hSome
    split at hSome
    · cases hSome
      exact hPlain
    · exact h.plain q hq o' hSome
  · rw [guards_resolving] at hq
    by_cases hSame : q = p
    · subst hSame
      rw [reactions_resolving_self hSize hPending] at hr
      cases hr
    · rw [reactions_resolving hSame] at hr
      rcases h.reactions q hq r hr with ⟨hd, hPlace⟩
      exact ⟨hLt _ hd, hPlace⟩
  · rw [hJobs] at hj
    rcases List.mem_append.mp hj with hj | hj
    · exact hLt d (h.jobs j hj d hd)
    · rcases List.mem_map.mp hj with ⟨r, hr, rfl⟩
      cases hd
      exact hLt _ (h.reactions p hp r hr).1

/- The promise of a future settles, as the future has done. -/
theorem Sound.cross
    (h : L.Sound root s)
    (hUntold : L.untold = .bridge f p :: ws) :
    (L.told ws).Sound root (Future.crossed s f p) := by
  have hHead : .bridge f p ∈ L.untold := by
    rw [hUntold]
    exact List.mem_cons_self ..
  have hTail : ∀ w ∈ ws, w ∈ L.untold := by
    intro w hMem
    rw [hUntold]
    exact List.mem_cons_of_mem _ hMem
  rcases h.sources.untold f p hHead with ⟨hf, hPromise, hSome⟩
  rcases Option.isSome_iff_exists.mp hSome with ⟨o, hOutcome⟩
  have hCrossed : Future.crossed s f p = s.resolving p o := by
    rw [Future.crossed, hOutcome]
  have hPlain := (h.sources.tends f hf).plain o hOutcome
  have hGuards : L.Guards s p := .inl ⟨f, hf, hPromise⟩
  have hSize := (h.lines.line p hGuards).1
  have hFutures : (s.resolving p o).futures = s.futures :=
    futures_resolving
  have hPromised : ∀ q, q ≠ p →
      (s.resolving p o).promised? q = s.promised? q := by
    intro q hSame
    rw [promised?_resolving hSize, if_neg hSame]
  have hSelf : (s.resolving p o).promised? p = some o := by
    rw [promised?_resolving hSize, if_pos rfl]
    cases hBefore : s.promised? p with
    | none => rfl
    | some o' =>
        have hSame := (h.sources.tends f hf).settled p hPromise
          o' hBefore
        cases hOutcome.symm.trans hSame
        rfl
  have hLines : L.Lines (s.resolving p o) := by
    cases hBefore : s.promised? p with
    | none => exact h.lines.resolve hGuards hBefore hPlain
    | some o' =>
        rw [resolving_of_settled hBefore]
        exact h.lines
  rw [hCrossed]
  refine ⟨{ hLines with }, ⟨fun g hg => ?_, h.sources.root_mem,
    fun g q hMem => ?_, fun g hg g' hg' q => ?_,
    fun g hg q hq => ?_⟩, fun q d hCall o' => ?_,
    fun k hk => ?_, h.distinct⟩
  · have hTends := h.sources.tends g hg
    refine ⟨hFutures ▸ hTends.exists_, ?_, ?_, ?_,
      fun q hq hNone => ?_, fun q hq o' hSome => ?_⟩
    · rw [outcome?, hFutures]
      exact hTends.plain
    · rw [Session.audience, promise?, hFutures]
      exact hTends.audience
    · rw [Session.watchers, promise?, hFutures]
      exact hTends.watchers
    · rw [promise?, hFutures] at hq
      rw [outcome?, Session.watchers, hFutures]
      have hOther : q ≠ p := by
        rintro rfl
        cases hSelf.symm.trans hNone
      rw [hPromised q hOther] at hNone
      refine (hTends.pending q hq hNone).imp id fun hWaits => ?_
      refine ⟨hWaits.1, ?_⟩
      have hLeft := hWaits.2
      rw [hUntold] at hLeft
      refine (List.mem_cons.mp hLeft).resolve_left fun hSame => ?_
      cases hSame
      exact hOther rfl
    · rw [promise?, hFutures] at hq
      rw [outcome?, hFutures]
      by_cases hSame : q = p
      · subst hSame
        cases hSelf.symm.trans hSome
        cases h.sources.apart f hf g hg q hPromise hq
        exact hOutcome
      · rw [hPromised q hSame] at hSome
        exact hTends.settled q hq o' hSome
  · rw [promise?, outcome?, hFutures]
    exact h.sources.untold g q (hTail _ hMem)
  · rw [promise?, promise?, hFutures]
    exact h.sources.apart g hg g' hg' q
  · rw [promise?, hFutures] at hq
    rw [size_resolving]
    exact h.sources.unowned g hg q hq
  · have hOther : d ≠ p := by
      rintro rfl
      exact (h.sources.unowned f hf d hPromise).2
        ⟨q, _, hCall, rfl⟩
    rw [hPromised d hOther]
    exact h.echoes q d hCall o'
  · have hLinked := h.links k hk
    refine { hLinked with outcome := fun o' => ?_ }
    rw [outcome?, hFutures]
    exact hLinked.outcome o'

------------------------------------------------------------
-- Jobs That Are Taken
------------------------------------------------------------

/- The session without its first job. -/
def behind
    (s : Session)
    (jobs : List Job) : Session :=
  { s with microtasks := jobs }

/- Only whoever came to a promise has turns there. -/
theorem mem_took
    {r' : Reaction}
    {o' : Outcome}
    (h : (r', o') ∈ (L.took j).taken p) :
    (r', o') ∈ L.taken p ∨
      j = .react r' o' ∧ r'.among (L.calls p) = true := by
  cases j with
  | react r o =>
      change _ ∈ (if r.among (L.calls p) then
        L.taken p ++ [(r, o)] else L.taken p) at h
      split at h
      · next hAmong =>
          refine (List.mem_append.mp h).imp id fun hMem => ?_
          cases List.mem_singleton.mp hMem
          exact ⟨rfl, hAmong⟩
      · exact .inl h
  | adopt v p => exact .inl h
  | report e => exact .inl h

theorem mem_took_of_mem
    {r' : Reaction}
    {o' : Outcome}
    (h : (r', o') ∈ L.taken p) :
    (r', o') ∈ (L.took j).taken p := by
  cases j with
  | react r o =>
      change _ ∈ (if r.among (L.calls p) then
        L.taken p ++ [(r, o)] else L.taken p)
      split
      · exact List.mem_append_left _ h
      · exact h
  | adopt v p => exact h
  | report e => exact h

theorem mem_took_self
    (h : r ∈ L.calls p) :
    (r, o) ∈ (L.took (.react r o)).taken p := by
  change _ ∈ (if r.among (L.calls p) then
    L.taken p ++ [(r, o)] else L.taken p)
  rw [if_pos (Reaction.among_of_mem h)]
  exact List.mem_append_right _ (List.mem_singleton_self _)

section Taking

variable (h : L.Lines s)
variable (hHead : s.microtasks = j :: jobs)
include h hHead

/- The lines, once the first job has been taken. -/
theorem Lines.take :
    (L.took j).Lines (behind s jobs) := by
  have hGuards : ∀ p, (L.took j).Guards (behind s jobs) p ↔
      L.Guards s p := fun _ => Iff.rfl
  refine ⟨fun p hp => ?_, fun p hp => h.plain p hp,
    fun p r hr => h.guards p r hr, h.calls,
    fun p hp => h.reactions p hp, fun j' hMem => ?_, h.apart,
    fun p hp => ?_⟩
  · rcases h.line p hp with ⟨hSize, hLine⟩
    refine ⟨hSize, ?_⟩
    rw [hHead] at hLine
    change Line (L.calls p) ((L.took j).taken p) (s.promised? p)
      (s.reactions p) jobs
    cases j with
    | react r o =>
        change Line _ (if r.among (L.calls p) then
          L.taken p ++ [(r, o)] else L.taken p) _ _ _
        split
        · next hOwn => exact (hLine.take_own hOwn).2.2.2
        · next hOther =>
            exact hLine.take_other (Bool.eq_false_iff.mpr hOther)
    | adopt v q => exact hLine.take_other rfl
    | report e => exact hLine.take_other rfl
  · exact h.jobs j' (hHead ▸ List.mem_cons_of_mem _ hMem)
  · have hNobody : L.calls p = [] :=
      List.eq_nil_iff_forall_not_mem.mpr fun r hr =>
        hp (h.guards p r hr)
    refine List.eq_nil_iff_forall_not_mem.mpr ?_
    rintro ⟨r', o'⟩ hMem
    rcases mem_took hMem with hMem | ⟨_, hAmong⟩
    · rw [h.taken p hp] at hMem
      cases hMem
    · rw [hNobody] at hAmong
      cases hAmong

/- Whoever has a turn has come, and has had none before. -/
theorem Lines.next
    {r' : Reaction}
    {o' : Outcome}
    (hj : j = .react r' o')
    (hAmong : r'.among (L.calls p) = true) :
    L.Guards s p ∧ r' ∈ L.calls p ∧ s.promised? p = some o' ∧
      ∀ o, (r', o) ∉ L.taken p := by
  rcases Reaction.among_iff.mp hAmong with ⟨r, hr, _⟩
  have hGuards := h.guards p r hr
  have hLine := (h.line p hGuards).2
  rw [hHead, hj] at hLine
  rcases hLine.take_own hAmong with ⟨hOutcome, hMem, hNew, _⟩
  exact ⟨hGuards, hMem, hOutcome, hNew⟩

end Taking

/- The futures are as before, once a job has been taken. -/
theorem Sources.take
    (h : L.Sources root s)
    (j : Job)
    (jobs : List Job) :
    (L.took j).Sources root (behind s jobs) :=
  ⟨fun f hf => { h.tends f hf with }, h.root_mem, h.untold,
    h.apart, h.unowned⟩

/- A job that settles nothing that the docket knows of. -/
def Aloof
    (L : Docket)
    (j : Job) : Prop :=
  ∀ r o, j = .react r o → ∀ p, r ∈ L.calls p →
    (∀ d, r ≠ .echo d) ∧ ∀ k ∈ L.links, r ≠ k.reaction

/- Whatever it runs, other code runs. -/
theorem Sound.take
    (h : L.Sound root s)
    (hHead : s.microtasks = j :: jobs)
    (hAloof : L.Aloof j) :
    (L.took j).Sound root (behind s jobs) := by
  have hSame : ∀ p r' o', r' ∈ L.calls p →
      ((∃ d, r' = .echo d) ∨ ∃ k ∈ L.links, r' = k.reaction) →
      ((r', o') ∈ (L.took j).taken p ↔ (r', o') ∈ L.taken p) := by
    intro p r' o' hMem hKnown
    refine ⟨fun hTook => ?_, mem_took_of_mem⟩
    refine (mem_took hTook).resolve_right fun hTurn => ?_
    rcases hAloof r' o' hTurn.1 p hMem with ⟨hEcho, hLink⟩
    rcases hKnown with ⟨d, hd⟩ | ⟨k, hk, hr⟩
    · exact hEcho d hd
    · exact hLink k hk hr
  refine ⟨h.lines.take hHead, h.sources.take j jobs,
    fun p d hCall o => ?_, fun k hk => ?_, h.distinct⟩
  · rw [hSame p _ o hCall (.inl ⟨d, rfl⟩)]
    exact h.echoes p d hCall o
  · have hLinked := h.links k hk
    have hTaken := fun o => hSame k.source k.reaction o
      hLinked.called (.inr ⟨k, hk, rfl⟩)
    refine ⟨hLinked.source, hLinked.called, hLinked.future,
      fun o => ?_, Nat.le_succ_of_le hLinked.born.1,
      fun o hMem => Nat.lt_succ_of_lt
        (hLinked.born.2 o ((hTaken o).mp hMem))⟩
    rw [hTaken o]
    exact hLinked.outcome o

/- No promise is derived for two reactions. -/
theorem Lines.eq_of_derived
    {r' : Reaction}
    (h : L.Lines s)
    (hr : r ∈ L.calls p)
    (hr' : r' ∈ L.calls q)
    (hSame : r.derived = r'.derived) :
    p = q ∧ r = r' := by
  have hAmong : r.among (L.calls q) = true :=
    Reaction.among_iff.mpr ⟨r', hr', hSame.symm⟩
  have hp := h.apart p q r hr hAmong
  subst hp
  have hDistinct := (h.line p (h.guards p r hr)).2.distinct
  exact ⟨rfl, List.inj_on_of_nodup_map hDistinct hr hr' hSame⟩

/- Its own job settles what was derived without handlers. -/
theorem Sound.pass
    (h : L.Sound root s)
    (hHead : s.microtasks = .react (.echo d) o :: jobs)
    (hCall : .echo d ∈ L.calls p) :
    (L.took (.react (.echo d) o)).Sound root
      ((behind s jobs).resolving d o) := by
  rcases h.lines.next hHead rfl (Reaction.among_of_mem hCall) with
    ⟨hGuards, _, hOutcome, hNew⟩
  have hPlain := h.lines.plain p hGuards o hOutcome
  have hPending : s.promised? d = none := by
    cases hSome : s.promised? d with
    | none => rfl
    | some o' =>
        exact (hNew o' ((h.echoes p d hCall o').mp hSome)).elim
  have hLines := (h.lines.take hHead).resolve
    (p := d) (o := o) (.inr ⟨p, hCall⟩) hPending hPlain
  have hSize : d < (behind s jobs).promises.size :=
    h.lines.calls p _ hCall
  have hPromised : ∀ q,
      ((behind s jobs).resolving d o).promised? q =
        if q = d then some o else s.promised? q := by
    intro q
    rw [promised?_resolving hSize]
    change (if q = d then some ((s.promised? d).getD o)
      else s.promised? q) = _
    rw [hPending, Option.getD_none]
  have hFutures : ((behind s jobs).resolving d o).futures =
      s.futures := futures_resolving
  have hUnowned : ∀ f ∈ L.futures, ∀ q,
      s.promise? f = some q → q ≠ d := by
    rintro f hf q hq rfl
    exact (h.sources.unowned f hf q hq).2 ⟨p, _, hCall, rfl⟩
  refine ⟨hLines, ⟨fun f hf => ?_, h.sources.root_mem,
    fun f q => ?_, fun f hf g hg q => ?_, fun f hf q => ?_⟩,
    fun q d' hCall' o' => ?_, fun k hk => ?_, h.distinct⟩
  · have hTends := h.sources.tends f hf
    refine ⟨hFutures ▸ hTends.exists_, ?_, ?_, ?_,
      fun q hq hNone => ?_, fun q hq o' hSome => ?_⟩
    · rw [outcome?, hFutures]
      exact hTends.plain
    · rw [Session.audience, promise?, hFutures]
      exact hTends.audience
    · rw [Session.watchers, promise?, hFutures]
      exact hTends.watchers
    · rw [promise?, hFutures] at hq
      rw [outcome?, Session.watchers, hFutures]
      rw [hPromised, if_neg (hUnowned f hf q hq)] at hNone
      exact hTends.pending q hq hNone
    · rw [promise?, hFutures] at hq
      rw [outcome?, hFutures]
      rw [hPromised, if_neg (hUnowned f hf q hq)] at hSome
      exact hTends.settled q hq o' hSome
  · rw [promise?, outcome?, hFutures]
    exact h.sources.untold f q
  · rw [promise?, promise?, hFutures]
    exact h.sources.apart f hf g hg q
  · rw [promise?, hFutures, size_resolving]
    exact h.sources.unowned f hf q
  · rw [hPromised]
    by_cases hSame : d' = d
    · subst hSame
      rcases h.lines.eq_of_derived hCall' hCall rfl with ⟨rfl, _⟩
      rw [if_pos rfl]
      constructor
      · rintro ⟨⟩
        exact mem_took_self hCall
      · intro hTook
        rcases mem_took hTook with hMem | ⟨hTurn, _⟩
        · exact (hNew o' hMem).elim
        · cases hTurn
          rfl
    · rw [if_neg hSame, h.echoes q d' hCall' o']
      refine ⟨mem_took_of_mem, fun hTook => ?_⟩
      refine (mem_took hTook).resolve_right fun hTurn => ?_
      cases hTurn.1
      exact hSame rfl
  · have hLinked := h.links k hk
    have hTaken : ∀ o', (k.reaction, o') ∈
        (L.took (.react (.echo d) o)).taken k.source ↔
          (k.reaction, o') ∈ L.taken k.source := by
      refine fun o' => ⟨fun hTook => ?_, mem_took_of_mem⟩
      refine (mem_took hTook).resolve_right fun hTurn => ?_
      cases hTurn.1
    refine ⟨hLinked.source, hLinked.called, hLinked.future,
      fun o' => ?_, Nat.le_succ_of_le hLinked.born.1,
      fun o' hMem => Nat.lt_succ_of_lt
        (hLinked.born.2 o' ((hTaken o').mp hMem))⟩
    rw [hTaken o', outcome?, hFutures]
    exact hLinked.outcome o'

/- Its own job settles a future that was made from a promise. -/
theorem Sound.draw
    {k : Link}
    (h : L.Sound root s)
    (hHead : s.microtasks = .react k.reaction o :: jobs)
    (hk : k ∈ L.links) :
    ((L.took (.react k.reaction o)).telling
      (s.watchers k.future)).Sound root
        ((behind s jobs).settling k.future o) := by
  have hLinked := h.links k hk
  have hCall := hLinked.called
  rcases h.lines.next hHead rfl (Reaction.among_of_mem hCall) with
    ⟨hGuards, _, hOutcome, hNew⟩
  have hPlain := h.lines.plain _ hGuards o hOutcome
  have hPending : s.outcome? k.future = none := by
    cases hSome : s.outcome? k.future with
    | none => rfl
    | some o' =>
        exact (hNew o' ((hLinked.outcome o').mp hSome)).elim
  have hExists : k.future < (behind s jobs).futures.size :=
    (h.sources.tends k.future hLinked.future.1).exists_
  refine ⟨(h.lines.take hHead).settle hExists o _,
    (h.sources.take _ jobs).settle hLinked.future.1 hPending
      hPlain, fun p d hEcho o' => ?_, fun k' hk' => ?_,
    h.distinct⟩
  · change s.promised? d = some o' ↔ (Reaction.echo d, o') ∈
      (L.took (.react k.reaction o)).taken p
    refine (h.echoes p d hEcho o').trans
      ⟨mem_took_of_mem, fun hTook => ?_⟩
    exact (mem_took hTook).resolve_right nofun
  · have hLinked' := h.links k' hk'
    have hBorn : k'.born < L.turns + 1 :=
      Nat.lt_succ_of_le hLinked'.born.1
    refine ⟨hLinked'.source, hLinked'.called, hLinked'.future,
      fun o' => ?_, Nat.le_of_lt hBorn, fun _ _ => hBorn⟩
    change _ ↔ (k'.reaction, o') ∈
      (L.took (.react k.reaction o)).taken k'.source
    rw [outcome?_settling hExists]
    by_cases hSame : k'.future = k.future
    · cases h.distinct k' hk' k hk hSame
      rw [if_pos rfl]
      constructor
      · rintro ⟨⟩
        exact mem_took_self hCall
      · intro hTook
        rcases mem_took hTook with hMem | ⟨hTurn, _⟩
        · exact (hNew o' hMem).elim
        · cases hTurn
          rfl
    · rw [if_neg hSame]
      refine (hLinked'.outcome o').trans
        ⟨mem_took_of_mem, fun hTook => ?_⟩
      refine (mem_took hTook).resolve_right fun hTurn => ?_
      injection hTurn.1 with hReaction
      injection hReaction with hFulfil
      injection hFulfil with hFulfil
      injection hFulfil with hFuture
      exact hSame hFuture.symm

end Docket

end Resumption

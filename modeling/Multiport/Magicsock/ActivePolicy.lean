import Multiport.Magicsock.ProbeManager

/-!
# The active paths of an endpoint

Fixed dual-send uses two paths of a peer at a time.  The pair is carried from
call to call of `sourcePathApplyActivePathPolicyLocked`: it is refilled when one
of its paths has left the ranking, and at most one of its paths is promoted
otherwise.

`policyResult` lists once what a call can do.  The results about runs, on the
pair here and on the timers in `PolicyTiming`, follow from it.
-/

namespace Multiport.Magicsock

open Lib Net List

/-! ## Paths -/

/-- `sourcePathSendPath`. -/
structure SendPath where
  dst : EpAddr := {}
  source : SourceRxMeta := {}
  latency : Duration := 0
  hasLatency : Bool := false
  lastAt : MonoTime := 0
deriving DecidableEq, Repr

/-- What identifies a path. -/
def SendPath.key (p : SendPath) : EpAddr × SourceRxMeta := (p.dst, p.source)

/-- Negative when `a` is the better path. -/
def compareSourcePathSendPath (a b : SendPath) : Int :=
  if a.hasLatency ≠ b.hasLatency then
    if a.hasLatency then -1 else 1
  else if a.hasLatency ∧ a.latency ≠ b.latency then
    if a.latency < b.latency then -1 else 1
  else if a.lastAt ≠ b.lastAt then
    if a.lastAt - b.lastAt > 0 then -1 else 1
  else if a.source.isPrimary ≠ b.source.isPrimary then
    if a.source.isPrimary then -1 else 1
  else if a.source.socketID < b.source.socketID then -1
  else if a.source.socketID > b.source.socketID then 1
  else if a.dst.ap.string < b.dst.ap.string then -1
  else if a.dst.ap.string > b.dst.ap.string then 1
  else 0

def sameSourcePathSendPath (a b : SendPath) : Bool := a.dst = b.dst ∧ a.source = b.source

def sourcePathSendPathIndex (paths : List SendPath) (want : SendPath) : Option Nat :=
  paths.findIdx? fun path => sameSourcePathSendPath path want

/-- A step of the loop of `sourcePathDistinctDstCount`. -/
def noteDst (seen : List EpAddr) (path : SendPath) : List EpAddr :=
  if path.dst ∈ seen then seen else seen ++ [path.dst]

def sourcePathDistinctDstCount (paths : List SendPath) : Nat := (paths.foldl noteDst []).length

/-! ## Refill and promotion -/

/-- The first path that is not active yet and, if required, goes to a destination
that is not active yet. -/
def sourcePathFirstEligibleActivePath (current ranked : List SendPath)
    (requireDistinctDst : Bool) : Option Nat :=
  ranked.findIdx? fun candidate =>
    (sourcePathSendPathIndex current candidate).isNone &&
      !(requireDistinctDst && decide (current.length > 0) &&
        current.any fun active => active.dst = candidate.dst)

/-- The path that a round of `sourcePathFillActivePaths` adds. -/
def nextActivePath (current ranked : List SendPath) (preferDistinctDst : Bool) : Option Nat :=
  match sourcePathFirstEligibleActivePath current ranked preferDistinctDst with
  | some idx => some idx
  | none =>
    if preferDistinctDst then sourcePathFirstEligibleActivePath current ranked false else none

/-- A round of the loop of `sourcePathFillActivePaths`. -/
def fillRound (ranked : List SendPath) (preferDistinctDst : Bool) (current : List SendPath) :
    List SendPath :=
  if current.length < 2 then
    match nextActivePath current ranked preferDistinctDst with
    | some idx => current ++ [ranked.getD idx {}]
    | none => current
  else current

/-- The loop ends after two rounds: each adds a path, or it is the last. -/
def sourcePathFillActivePaths (current ranked : List SendPath) : List SendPath :=
  let preferDistinctDst := decide (sourcePathDistinctDstCount ranked ≥ 2)
  fillRound ranked preferDistinctDst (fillRound ranked preferDistinctDst current)

/-- The active path that the candidate would replace. -/
def sourcePathPromotionSlot (current : List SendPath) (candidate : SendPath)
    (distinctDstAvailable : Bool) : Option Nat :=
  if current.length < 2 then none
  else
    let sameDst := if distinctDstAvailable then
        current.findIdx? fun active => active.dst = candidate.dst
      else none
    match sameDst with
    | some i => some i
    | none =>
      if compareSourcePathSendPath (current.getD 0 {}) (current.getD 1 {}) ≥ 0 then some 0
      else some 1

/-- The best candidate that is better than the path it would replace, with the
slot of that path. -/
def sourcePathBestPromotion (current ranked : List SendPath) : Option (Nat × Nat) :=
  let distinctDstAvailable := decide (sourcePathDistinctDstCount ranked ≥ 2)
  ranked.zipIdx.findSome? fun (candidate, i) =>
    if (sourcePathSendPathIndex current candidate).isSome then none
    else match sourcePathPromotionSlot current candidate distinctDstAvailable with
      | none => none
      | some slot =>
        if compareSourcePathSendPath candidate (current.getD slot {}) ≥ 0 then none
        else some (i, slot)

/-! ## The policy -/

def sourcePathActiveReplaceCooldown : Duration := 60 * second

def sourcePathStandbyRefreshEvery : Duration := 3600 * second

/-- The fields of an endpoint that the policy uses.  `sourcePathActiveCount` is two
with a pair and zero without. -/
structure ActivePolicy where
  activePaths : Option (SendPath × SendPath) := none
  lastRefresh : MonoTime := 0
  lastReplace : MonoTime := 0
  promoteBudget : Int := 0
deriving DecidableEq, Repr

/-- `sourcePathActivePolicyEvent`. -/
structure ActivePolicyEvent where
  refreshed : Bool := false
  replaced : Bool := false
  oldPath : SendPath := {}
  newPath : SendPath := {}
  standbyCandidates : Int := 0
deriving DecidableEq, Repr

namespace ActivePolicy

variable (de : ActivePolicy)

/-- The first `sourcePathActiveCount` entries of `sourcePathActivePaths`. -/
def active : List SendPath :=
  match de.activePaths with
  | some (p, q) => [p, q]
  | none => []

variable (now : MonoTime)

/-- Once in a while the promotions are allowed again. -/
def refreshLocked (ranked : List SendPath) : ActivePolicy × ActivePolicyEvent :=
  if ranked.length > 2 ∧
      (de.lastRefresh = 0 ∨ now - de.lastRefresh ≥ sourcePathStandbyRefreshEvery) then
    ({ de with lastRefresh := now, promoteBudget := 2 },
      { refreshed := true, standbyCandidates := ranked.length - 2 })
  else (de, {})

/-- A step of the loop over the active paths: the current value of the path, or a
note that it is missing. -/
def carryPath (ranked : List SendPath) (st : List SendPath × Bool) (path : SendPath) :
    List SendPath × Bool :=
  match sourcePathSendPathIndex ranked path with
  | none => (st.1, true)
  | some idx =>
    let path := ranked.getD idx {}
    if (sourcePathSendPathIndex st.1 path).isNone then (st.1 ++ [path], st.2) else st

/-- The active paths that are still ranked, and whether some path is missing. -/
def carryPaths (ranked : List SendPath) : List SendPath × Bool :=
  de.active.foldl (carryPath ranked) ([], decide (de.active.length < 2))

/-- `slices.SortFunc` on two paths. -/
def sortPair (p q : SendPath) : SendPath × SendPath :=
  if compareSourcePathSendPath q p < 0 then (q, p) else (p, q)

/-- This is called with two paths only. -/
def setSourcePathActivePathsLocked (paths : List SendPath) : ActivePolicy × List SendPath :=
  match paths with
  | [p, q] =>
    let (p, q) := sortPair p q
    ({ de with activePaths := some (p, q) }, [p, q])
  | _ => (de, [])

def canPromote : Bool :=
  de.promoteBudget > 0 ∧
    (de.lastReplace = 0 ∨ now - de.lastReplace ≥ sourcePathActiveReplaceCooldown)

/-- A missing path is filled in.  This takes the promotions away, and counts as a
replacement if there was a pair. -/
def refillLocked (current ranked : List SendPath)
    (ev : ActivePolicyEvent) : ActivePolicy × List SendPath × ActivePolicyEvent :=
  let current := sourcePathFillActivePaths current ranked
  if current.length < 2 then
    ({ de with activePaths := none, promoteBudget := 0 }, [], ev)
  else
    let de := if de.active.length = 2 then { de with lastReplace := now } else de
    let (de, paths) := { de with promoteBudget := 0 }.setSourcePathActivePathsLocked current
    (de, paths, ev)

def promoteLocked (current ranked : List SendPath)
    (ev : ActivePolicyEvent) : ActivePolicy × List SendPath × ActivePolicyEvent :=
  let promotion := if de.canPromote now then sourcePathBestPromotion current ranked else none
  match promotion with
  | some (idx, slot) =>
    let ev := { ev with
      replaced := true, oldPath := current.getD slot {}, newPath := ranked.getD idx {} }
    let de := { de with lastReplace := now, promoteBudget := de.promoteBudget - 1 }
    let (de, paths) := de.setSourcePathActivePathsLocked (current.set slot (ranked.getD idx {}))
    (de, paths, ev)
  | none =>
    let (de, paths) := de.setSourcePathActivePathsLocked current
    (de, paths, ev)

/-- The two paths that dual-send uses for this peer, or none. -/
def sourcePathApplyActivePathPolicyLocked
    (ranked : List SendPath) : ActivePolicy × List SendPath × ActivePolicyEvent :=
  if ranked.length < 2 then ({ de with activePaths := none }, [], {})
  else
    let (de, ev) := de.refreshLocked now ranked
    let (current, missingActive) := de.carryPaths ranked
    if missingActive ∨ current.length < 2 then de.refillLocked now current ranked ev
    else de.promoteLocked now current ranked ev

end ActivePolicy

/-- A call of the policy: the active paths it finds, its arguments and what it returns. -/
structure PolicyCall where
  before : List SendPath
  now : MonoTime
  ranked : List SendPath
  paths : List SendPath
  ev : ActivePolicyEvent
deriving DecidableEq, Repr

/-- The call takes one state of the endpoint to the other. -/
def PolicyStep (de : ActivePolicy) (c : PolicyCall) (de' : ActivePolicy) : Prop :=
  c.before = de.active ∧
    de.sourcePathApplyActivePathPolicyLocked c.now c.ranked = (de', c.paths, c.ev)

/-- A call with the given arguments, after the calls so far. -/
def policyExec (st : List PolicyCall × ActivePolicy) (args : MonoTime × List SendPath) :
    List PolicyCall × ActivePolicy :=
  let (de, paths, ev) := st.2.sourcePathApplyActivePathPolicyLocked args.1 args.2
  (st.1 ++ [⟨st.2.active, args.1, args.2, paths, ev⟩], de)

theorem run_policyExec (args : List (MonoTime × List SendPath))
    {st : List PolicyCall × ActivePolicy} (h : Run PolicyStep {} st.1 st.2) :
    Run PolicyStep {} (args.foldl policyExec st).1 (args.foldl policyExec st).2 := by
  induction args generalizing st with
  | nil => exact h
  | cons a args ih => exact ih (h.snoc ⟨rfl, rfl⟩)

/-! ## Paths by key -/

variable {current ranked paths : List SendPath} {p q : SendPath}

theorem sameSourcePathSendPath_iff : sameSourcePathSendPath p q = true ↔ p.key = q.key := by
  simp [sameSourcePathSendPath, SendPath.key]

theorem sourcePathSendPathIndex_eq_none_iff :
    sourcePathSendPathIndex paths q = none ↔ ∀ p ∈ paths, p.key ≠ q.key := by
  simp [sourcePathSendPathIndex, ← Bool.not_eq_true, sameSourcePathSendPath_iff]

variable {i : Nat}

theorem getD_of_sourcePathSendPathIndex (h : sourcePathSendPathIndex paths q = some i) :
    paths.getD i {} ∈ paths ∧ (paths.getD i {}).key = q.key := by
  obtain ⟨hmem, hsame⟩ := getD_of_findIdx? h {}
  exact ⟨hmem, sameSourcePathSendPath_iff.1 hsame⟩

/-- The paths are of the ranking, and no two are the same. -/
structure Chosen (ranked current : List SendPath) : Prop where
  mem : ∀ p ∈ current, p ∈ ranked
  nodup : (current.map SendPath.key).Nodup

theorem Chosen.append (h : Chosen ranked current) (hp : p ∈ ranked)
    (hnew : ∀ c ∈ current, c.key ≠ p.key) : Chosen ranked (current ++ [p]) where
  mem := by
    rw [forall_mem_append]
    exact ⟨h.mem, forall_mem_singleton.2 hp⟩
  nodup := nodup_map_concat h.nodup hnew

/-- The destinations are different. -/
def Spread (current : List SendPath) : Prop := (current.map SendPath.dst).Nodup

theorem Spread.append (h : Spread current) (hnew : ∀ c ∈ current, c.dst ≠ p.dst) :
    Spread (current ++ [p]) :=
  nodup_map_concat h hnew

/-- The ranking has two destinations. -/
def TwoDsts (ranked : List SendPath) : Prop := ∃ p ∈ ranked, ∃ q ∈ ranked, p.dst ≠ q.dst

theorem TwoDsts.exists_other (h : TwoDsts ranked) (hlen : current.length < 2) :
    ∃ p ∈ ranked, ∀ c ∈ current, c.dst ≠ p.dst := by
  obtain ⟨p, hp, q, hq, hne⟩ := h
  rcases current with _ | ⟨c, _ | ⟨c', l⟩⟩
  · exact ⟨p, hp, by simp⟩
  · by_cases hc : c.dst = p.dst
    · refine ⟨q, hq, forall_mem_singleton.2 ?_⟩
      rwa [hc]
    · exact ⟨p, hp, forall_mem_singleton.2 hc⟩
  · simp only [length_cons] at hlen
    omega

theorem mem_noteDst {seen} {d : EpAddr} : d ∈ noteDst seen p ↔ d ∈ seen ∨ p.dst = d := by
  unfold noteDst
  split
  next h => exact ⟨.inl, fun hd => hd.elim id fun e => e ▸ h⟩
  · rw [mem_append, mem_singleton, eq_comm]

theorem mem_foldl_noteDst (paths : List SendPath) (seen : List EpAddr) {d : EpAddr} :
    d ∈ paths.foldl noteDst seen ↔ d ∈ seen ∨ ∃ p ∈ paths, p.dst = d := by
  induction paths generalizing seen with
  | nil => simp
  | cons p paths ih => rw [foldl_cons, ih, mem_noteDst, or_assoc, exists_mem_cons_iff]

theorem TwoDsts.count (h : TwoDsts ranked) : sourcePathDistinctDstCount ranked ≥ 2 := by
  obtain ⟨p, hp, q, hq, hne⟩ := h
  have hp' := (mem_foldl_noteDst ranked []).2 (.inr ⟨p, hp, rfl⟩)
  have hq' := (mem_foldl_noteDst ranked []).2 (.inr ⟨q, hq, rfl⟩)
  exact two_le_length hp' hq' hne

/-! ## Refill -/

theorem sourcePathFirstEligibleActivePath_spec {requireDistinctDst : Bool}
    (h : sourcePathFirstEligibleActivePath current ranked requireDistinctDst = some i) :
    ranked.getD i {} ∈ ranked ∧ (∀ c ∈ current, c.key ≠ (ranked.getD i {}).key) ∧
      (requireDistinctDst = true → ∀ c ∈ current, c.dst ≠ (ranked.getD i {}).dst) := by
  obtain ⟨hmem, hok⟩ := getD_of_findIdx? h {}
  rw [Bool.and_eq_true, Option.isNone_iff_eq_none, sourcePathSendPathIndex_eq_none_iff] at hok
  refine ⟨hmem, hok.1, ?_⟩
  rintro rfl c hc heq
  have hpos : decide (current.length > 0) = true := decide_eq_true (length_pos_of_mem hc)
  have hany : (current.any fun active => active.dst = (ranked.getD i {}).dst) = true :=
    any_eq_true.2 ⟨c, hc, decide_eq_true heq⟩
  rw [hpos, hany] at hok
  exact Bool.noConfusion hok.2

theorem exists_sourcePathFirstEligibleActivePath (hp : p ∈ ranked)
    (hkey : ∀ c ∈ current, c.key ≠ p.key) (hdst : ∀ c ∈ current, c.dst ≠ p.dst)
    (requireDistinctDst : Bool) :
    ∃ i, sourcePathFirstEligibleActivePath current ranked requireDistinctDst = some i := by
  rw [← Option.ne_none_iff_exists']
  intro hnone
  have hnot := List.findIdx?_eq_none_iff.1 hnone p hp
  rw [Bool.and_eq_false_imp, Option.isNone_iff_eq_none, sourcePathSendPathIndex_eq_none_iff] at hnot
  have hany : (current.any fun active => active.dst = p.dst) = false := by
    simpa using hdst
  simpa [hany] using hnot hkey

theorem nextActivePath_spec {prefer : Bool} (h : nextActivePath current ranked prefer = some i) :
    ranked.getD i {} ∈ ranked ∧ ∀ c ∈ current, c.key ≠ (ranked.getD i {}).key := by
  unfold nextActivePath at h
  cases hfirst : sourcePathFirstEligibleActivePath current ranked prefer with
  | some j =>
    rw [hfirst] at h
    obtain ⟨hmem, hkey, -⟩ := sourcePathFirstEligibleActivePath_spec (hfirst.trans h)
    exact ⟨hmem, hkey⟩
  | none =>
    simp only [hfirst, Option.ite_none_right_eq_some] at h
    obtain ⟨hmem, hkey, -⟩ := sourcePathFirstEligibleActivePath_spec h.2
    exact ⟨hmem, hkey⟩

theorem Chosen.fillRound (h : Chosen ranked current) (prefer : Bool) :
    Chosen ranked (fillRound ranked prefer current) := by
  unfold Magicsock.fillRound
  split
  · cases hnext : nextActivePath current ranked prefer with
    | some i =>
      obtain ⟨hmem, hkey⟩ := nextActivePath_spec hnext
      exact h.append hmem hkey
    | none => exact h
  · exact h

theorem length_fillRound_le (prefer : Bool) (h : current.length ≤ 2) :
    (fillRound ranked prefer current).length ≤ 2 := by
  unfold fillRound
  split
  · cases nextActivePath current ranked prefer with
    | some i =>
      rw [length_append, length_singleton]
      omega
    | none => exact h
  · exact h

/-- With two destinations to choose from, a round adds a path to another destination. -/
theorem fillRound_of_twoDsts (hr : TwoDsts ranked) (hs : Spread current)
    (hlen : current.length ≤ 2) :
    Spread (fillRound ranked true current) ∧
      (fillRound ranked true current).length = min 2 (current.length + 1) := by
  unfold fillRound
  split
  next hlt =>
    obtain ⟨p, hp, hdst⟩ := hr.exists_other hlt
    have hkey : ∀ c ∈ current, c.key ≠ p.key := fun c hc e => hdst c hc (Prod.ext_iff.1 e).1
    obtain ⟨i, hi⟩ := exists_sourcePathFirstEligibleActivePath hp hkey hdst true
    obtain ⟨-, -, hnew⟩ := sourcePathFirstEligibleActivePath_spec hi
    simp only [nextActivePath, hi]
    refine ⟨hs.append (hnew rfl), ?_⟩
    rw [length_append, length_singleton]
    omega
  · exact ⟨hs, by omega⟩

theorem Chosen.fill (h : Chosen ranked current) :
    Chosen ranked (sourcePathFillActivePaths current ranked) :=
  (h.fillRound _).fillRound _

theorem sourcePathFillActivePaths_of_twoDsts (hr : TwoDsts ranked) (hs : Spread current)
    (hlen : current.length ≤ 2) :
    Spread (sourcePathFillActivePaths current ranked) ∧
      (sourcePathFillActivePaths current ranked).length = 2 := by
  simp only [sourcePathFillActivePaths, decide_eq_true hr.count]
  obtain ⟨hs₁, hlen₁⟩ := fillRound_of_twoDsts hr hs hlen
  obtain ⟨hs₂, hlen₂⟩ := fillRound_of_twoDsts hr hs₁ (by omega)
  exact ⟨hs₂, by omega⟩

/-! ## Promotion -/

variable {slot : Nat}

theorem sourcePathPromotionSlot_spec {a b candidate : SendPath} {distinctDstAvailable : Bool}
    (h : sourcePathPromotionSlot [a, b] candidate distinctDstAvailable = some slot) :
    (slot = 0 ∧ (distinctDstAvailable = true → a.dst ≠ b.dst → b.dst ≠ candidate.dst)) ∨
      (slot = 1 ∧ (distinctDstAvailable = true → a.dst ≠ candidate.dst)) := by
  have hworse : ∀ {s : Nat}, (if compareSourcePathSendPath a b ≥ 0 then some 0 else some 1) =
      some s → s = 0 ∨ s = 1 := by
    intro s hs
    split at hs <;> cases hs <;> simp
  cases distinctDstAvailable with
  | false => exact (hworse h).imp (⟨·, nofun⟩) (⟨·, nofun⟩)
  | true =>
    by_cases ha : a.dst = candidate.dst
    · have hslot : some 0 = some slot := by
        simpa [sourcePathPromotionSlot, List.findIdx?_cons, ha] using h
      cases hslot
      exact .inl ⟨rfl, fun _ hne hb => hne (ha.trans hb.symm)⟩
    · by_cases hb : b.dst = candidate.dst
      · have hslot : some 1 = some slot := by
          simpa [sourcePathPromotionSlot, List.findIdx?_cons, ha, hb] using h
        cases hslot
        exact .inr ⟨rfl, fun _ => ha⟩
      · have hslot : (if compareSourcePathSendPath a b ≥ 0 then some 0 else some 1) =
            some slot := by
          simpa [sourcePathPromotionSlot, List.findIdx?_cons, ha, hb] using h
        exact (hworse hslot).imp (⟨·, fun _ _ => hb⟩) (⟨·, fun _ => ha⟩)

theorem sourcePathBestPromotion_spec (h : sourcePathBestPromotion current ranked = some (i, slot)) :
    ranked.getD i {} ∈ ranked ∧ (∀ c ∈ current, c.key ≠ (ranked.getD i {}).key) ∧
      compareSourcePathSendPath (ranked.getD i {}) (current.getD slot {}) < 0 ∧
      sourcePathPromotionSlot current (ranked.getD i {})
        (decide (sourcePathDistinctDstCount ranked ≥ 2)) = some slot := by
  obtain ⟨⟨candidate, j⟩, hmem, hf⟩ := exists_of_findSome?_eq_some h
  rw [mem_zipIdx_iff_getElem?] at hmem
  dsimp only at hf hmem
  split at hf
  · cases hf
  next hnew =>
    split at hf
    · cases hf
    next slot' hslot =>
      split at hf
      · cases hf
      next hbetter =>
        cases hf
        have hcand : ranked.getD i {} = candidate := by
          rw [getD_eq_getElem?_getD, hmem, Option.getD_some]
        rw [hcand]
        rw [Option.not_isSome_iff_eq_none, sourcePathSendPathIndex_eq_none_iff] at hnew
        exact ⟨mem_of_getElem? hmem, hnew, not_le.1 hbetter, hslot⟩

/-- A promotion replaces one path of the pair.  If the ranking has two destinations,
the pair keeps two. -/
theorem promote_cases {a b : SendPath} (hab : Chosen ranked [a, b])
    (h : sourcePathBestPromotion [a, b] ranked = some (i, slot)) :
    ∃ a' b', [a, b].set slot (ranked.getD i {}) = [a', b'] ∧ Chosen ranked [a', b'] ∧
      (TwoDsts ranked → Spread [a, b] → Spread [a', b']) := by
  obtain ⟨hmem, hkey, -, hslot⟩ := sourcePathBestPromotion_spec h
  generalize ranked.getD i {} = candidate at hmem hkey hslot
  obtain ⟨ha, hb⟩ := forall_mem_cons.1 hab.mem
  obtain ⟨hka, hkb⟩ := forall_mem_cons.1 hkey
  have hkb := hkb b mem_cons_self
  rcases sourcePathPromotionSlot_spec hslot with ⟨rfl, hdst⟩ | ⟨rfl, hdst⟩
  · refine ⟨candidate, b, rfl, ⟨?_, ?_⟩, fun hr hs => ?_⟩
    · simp [hmem, hb]
    · simpa using hkb.symm
    · have hne : a.dst ≠ b.dst := by simpa [Spread] using hs
      simpa [Spread] using (hdst (decide_eq_true hr.count) hne).symm
  · refine ⟨a, candidate, rfl, ⟨?_, ?_⟩, fun hr hs => ?_⟩
    · simp [hmem, ha]
    · simpa using hka
    · simpa [Spread] using hdst (decide_eq_true hr.count)

/-! ## What a call does -/

namespace ActivePolicy

variable {de de' : ActivePolicy} {now : MonoTime} {ev : ActivePolicyEvent}

theorem refreshLocked_active : (de.refreshLocked now ranked).1.active = de.active := by
  unfold refreshLocked
  split <;> rfl

variable {st : List SendPath × Bool}

theorem chosen_carryPath (h : Chosen ranked st.1) (path : SendPath) :
    Chosen ranked (carryPath ranked st path).1 ∧
      ((carryPath ranked st path).1.map SendPath.key).Sublist
        (st.1.map SendPath.key ++ [path.key]) := by
  unfold carryPath
  cases hidx : sourcePathSendPathIndex ranked path with
  | none => exact ⟨h, sublist_append_left _ _⟩
  | some idx =>
    obtain ⟨hmem, hkey⟩ := getD_of_sourcePathSendPathIndex hidx
    dsimp only
    split
    next hnew =>
      rw [Option.isNone_iff_eq_none, sourcePathSendPathIndex_eq_none_iff] at hnew
      refine ⟨h.append hmem hnew, ?_⟩
      rw [map_append, map_singleton, hkey]
    · exact ⟨h, sublist_append_left _ _⟩

/-- The loop over the active paths keeps some of them, in order and with their
values in the ranking. -/
theorem chosen_foldl_carryPath (l : List SendPath) (h : Chosen ranked st.1) :
    Chosen ranked (l.foldl (carryPath ranked) st).1 ∧
      ((l.foldl (carryPath ranked) st).1.map SendPath.key).Sublist
        (st.1.map SendPath.key ++ l.map SendPath.key) := by
  induction l generalizing st with
  | nil => exact ⟨h, by simp⟩
  | cons path l ih =>
    obtain ⟨hpath, hsub⟩ := chosen_carryPath h path
    obtain ⟨hl, hsub'⟩ := ih hpath
    refine ⟨hl, hsub'.trans ?_⟩
    rw [map_cons, append_cons]
    exact hsub.append_right _

variable (de ranked)

theorem chosen_carryPaths : Chosen ranked (de.carryPaths ranked).1 :=
  (chosen_foldl_carryPath de.active ⟨by simp, by simp⟩).1

theorem carryPaths_sublist :
    ((de.carryPaths ranked).1.map SendPath.key).Sublist (de.active.map SendPath.key) :=
  (chosen_foldl_carryPath de.active ⟨by simp, by simp⟩).2

theorem length_active_le : de.active.length ≤ 2 := by
  unfold active
  split <;> simp

theorem length_carryPaths_le : (de.carryPaths ranked).1.length ≤ 2 := by
  have hle := (de.carryPaths_sublist ranked).length_le
  rw [length_map, length_map] at hle
  exact hle.trans de.length_active_le

variable {de} in
theorem spread_carryPaths (h : Spread de.active) : Spread (de.carryPaths ranked).1 := by
  have hsub := (de.carryPaths_sublist ranked).map Prod.fst
  rw [map_map, map_map] at hsub
  exact h.sublist hsub

variable {de ranked}

/-- What a call of the policy can do, after the refresh. -/
inductive PolicyResult (de : ActivePolicy) (now : MonoTime) (ranked : List SendPath) :
    ActivePolicy → List SendPath → ActivePolicyEvent → Prop
  | short (h : ranked.length < 2) : PolicyResult de now ranked { de with activePaths := none } [] {}
  | failed (h : (sourcePathFillActivePaths (de.carryPaths ranked).1 ranked).length < 2) :
      PolicyResult de now ranked
        { (de.refreshLocked now ranked).1 with activePaths := none, promoteBudget := 0 } []
        (de.refreshLocked now ranked).2
  | refilled (p q : SendPath)
      (h : sourcePathFillActivePaths (de.carryPaths ranked).1 ranked = [p, q]) :
      PolicyResult de now ranked
        { (de.refreshLocked now ranked).1 with
          activePaths := some (sortPair p q), promoteBudget := 0,
          lastReplace := if de.active.length = 2 then now
            else (de.refreshLocked now ranked).1.lastReplace }
        [(sortPair p q).1, (sortPair p q).2] (de.refreshLocked now ranked).2
  | kept (p q : SendPath) (h : de.carryPaths ranked = ([p, q], false)) :
      PolicyResult de now ranked
        { (de.refreshLocked now ranked).1 with activePaths := some (sortPair p q) }
        [(sortPair p q).1, (sortPair p q).2] (de.refreshLocked now ranked).2
  | promoted (a b p q : SendPath) (idx slot : Nat) (h : de.carryPaths ranked = ([a, b], false))
      (hcan : (de.refreshLocked now ranked).1.canPromote now = true)
      (hbest : sourcePathBestPromotion [a, b] ranked = some (idx, slot))
      (hset : [a, b].set slot (ranked.getD idx {}) = [p, q]) :
      PolicyResult de now ranked
        { (de.refreshLocked now ranked).1 with
          activePaths := some (sortPair p q), lastReplace := now,
          promoteBudget := (de.refreshLocked now ranked).1.promoteBudget - 1 }
        [(sortPair p q).1, (sortPair p q).2]
        { (de.refreshLocked now ranked).2 with
          replaced := true, oldPath := [a, b].getD slot {}, newPath := ranked.getD idx {} }

theorem eq_pair_of_length {l : List SendPath} (h : ¬l.length < 2) (hle : l.length ≤ 2) :
    ∃ p q, l = [p, q] :=
  length_eq_two.1 (by omega)

/-- **What a call does**, in one of five ways. -/
theorem policyResult (h : de.sourcePathApplyActivePathPolicyLocked now ranked = (de', paths, ev)) :
    PolicyResult de now ranked de' paths ev := by
  have hcarry : (de.refreshLocked now ranked).1.carryPaths ranked = de.carryPaths ranked := by
    rw [carryPaths, carryPaths, refreshLocked_active]
  unfold sourcePathApplyActivePathPolicyLocked at h
  split at h
  next hshort =>
    cases h
    exact .short hshort
  · dsimp only at h
    rw [hcarry] at h
    split at h
    · unfold refillLocked at h
      dsimp only at h
      split at h
      next hfail =>
        cases h
        exact .failed hfail
      next hok =>
        obtain ⟨p, q, hpq⟩ := eq_pair_of_length hok
          (length_fillRound_le _ (length_fillRound_le _ (de.length_carryPaths_le ranked)))
        rw [hpq, refreshLocked_active] at h
        have hr : PolicyResult de now ranked _ _ _ := .refilled p q hpq
        split at h <;> next hlen => simp only [hlen] at hr; cases h; exact hr
    next hkeep =>
      obtain ⟨hmiss, hlen⟩ := not_or.1 hkeep
      obtain ⟨a, b, hab⟩ := eq_pair_of_length hlen (de.length_carryPaths_le ranked)
      have hcarried : de.carryPaths ranked = ([a, b], false) :=
        Prod.ext hab (Bool.eq_false_iff.2 hmiss)
      unfold promoteLocked at h
      rw [hab] at h
      dsimp only at h
      split at h
      next idx slot hpromote =>
        rw [Option.ite_none_right_eq_some] at hpromote
        obtain ⟨p, q, hset, -⟩ :=
          promote_cases (hab ▸ de.chosen_carryPaths ranked) hpromote.2
        rw [hset] at h
        cases h
        exact .promoted a b p q idx slot hcarried hpromote.1 hpromote.2 hset
      · cases h
        exact .kept a b hcarried

end ActivePolicy

/-! ## The active pair -/

open ActivePolicy

theorem sortPair_perm (p q : SendPath) : [(sortPair p q).1, (sortPair p q).2].Perm [p, q] := by
  unfold sortPair
  split
  · exact .swap p q []
  · exact .refl _

theorem Chosen.sortPair (h : Chosen ranked [p, q]) :
    Chosen ranked [(sortPair p q).1, (sortPair p q).2] where
  mem := fun x hx => h.mem x ((sortPair_perm p q).mem_iff.1 hx)
  nodup := ((sortPair_perm p q).map SendPath.key).nodup_iff.2 h.nodup

theorem Spread.sortPair (h : Spread [p, q]) : Spread [(sortPair p q).1, (sortPair p q).2] :=
  ((sortPair_perm p q).map SendPath.dst).nodup_iff.2 h

variable {de de' : ActivePolicy} {c : PolicyCall}

/-- The call returns the pair it remembers.  With two destinations to choose from there
is one, and its destinations stay different. -/
theorem PolicyStep.chosen (h : PolicyStep de c de') :
    c.paths = de'.active ∧ Chosen c.ranked c.paths ∧
      (TwoDsts c.ranked → Spread de.active → Spread c.paths ∧ c.paths.length = 2) := by
  rcases c with ⟨before, now, ranked, paths, ev⟩
  have hres : PolicyResult de now ranked de' paths ev := policyResult h.2
  have hcarry := de.chosen_carryPaths ranked
  have hspread := fun hs : Spread de.active => spread_carryPaths ranked hs
  have hfilled := fun (hr : TwoDsts ranked) hs =>
    sourcePathFillActivePaths_of_twoDsts hr (hspread hs) (de.length_carryPaths_le ranked)
  cases hres with
  | short hshort =>
    refine ⟨rfl, ⟨nofun, .nil⟩, fun hr => ?_⟩
    obtain ⟨p, hp, q, hq, hne⟩ := hr
    exact absurd (two_le_length hp hq fun e => hne (congrArg SendPath.dst e)) (not_le.2 hshort)
  | failed hfail => exact ⟨rfl, ⟨nofun, .nil⟩, fun hr hs => absurd (hfilled hr hs).2 hfail.ne⟩
  | refilled p q hfill =>
    rw [hfill] at hfilled
    exact ⟨rfl, (hfill ▸ hcarry.fill).sortPair, fun hr hs => ⟨(hfilled hr hs).1.sortPair, rfl⟩⟩
  | kept p q hkept =>
    rw [hkept] at hcarry hspread
    exact ⟨rfl, hcarry.sortPair, fun _ hs => ⟨(hspread hs).sortPair, rfl⟩⟩
  | promoted a b p q idx slot hkept _ hbest hset =>
    rw [hkept] at hcarry hspread
    obtain ⟨p', q', hset', hpq, hdst⟩ := promote_cases hcarry hbest
    cases hset.symm.trans hset'
    exact ⟨rfl, hpq.sortPair, fun hr hs => ⟨(hdst hr (hspread hs)).sortPair, rfl⟩⟩

/-- Nothing, or two different paths of the ranking. -/
def NoneOrPair (ranked paths : List SendPath) : Prop :=
  paths = [] ∨ ∃ p ∈ ranked, ∃ q ∈ ranked, paths = [p, q] ∧ (p.dst, p.source) ≠ (q.dst, q.source)

theorem PolicyStep.noneOrPair (h : PolicyStep de c de') : NoneOrPair c.ranked c.paths := by
  obtain ⟨hactive, hchosen, -⟩ := h.chosen
  unfold active at hactive
  split at hactive
  next p q _ =>
    right
    rw [hactive] at hchosen ⊢
    exact ⟨p, hchosen.mem p (by simp), q, hchosen.mem q (by simp), rfl,
      by simpa [SendPath.key] using hchosen.nodup⟩
  · exact .inl hactive

theorem PolicyStep.two_dsts (h : PolicyStep de c de') (hr : TwoDsts c.ranked)
    (hs : Spread de.active) :
    Spread de'.active ∧ ∃ p q, c.paths = [p, q] ∧ p.dst ≠ q.dst := by
  obtain ⟨hactive, -, hpair⟩ := h.chosen
  obtain ⟨hspread, hlen⟩ := hpair hr hs
  obtain ⟨p, q, hpq⟩ := length_eq_two.1 hlen
  refine ⟨hactive ▸ hspread, p, q, hpq, ?_⟩
  rw [hpq] at hspread
  simpa [Spread] using hspread

/-- **Every call returns nothing or two different paths of its ranking.  If all
rankings have two destinations, every call returns two paths to different
destinations**, and so does the endpoint remember them.  The times and repeated
entries of the rankings do not matter. -/
theorem activePaths_of_run (calls : List PolicyCall) (s : ActivePolicy)
    (hrun : Run PolicyStep {} calls s) :
    (∀ c ∈ calls, NoneOrPair c.ranked c.paths) ∧
      ((∀ c ∈ calls, TwoDsts c.ranked) →
        (s.active.map SendPath.dst).Nodup ∧
          ∀ c ∈ calls, ∃ p q, c.paths = [p, q] ∧ p.dst ≠ q.dst) := by
  constructor
  · exact (Run.forall_labels (P := fun _ => True) (I := fun _ => True) trivial
      (fun _ _ _ _ _ hs => ⟨trivial, hs.noneOrPair⟩) hrun fun _ _ => trivial).2
  · intro htwo
    have hnil : Spread ({} : ActivePolicy).active := nodup_nil
    exact Run.forall_labels (P := fun c => TwoDsts c.ranked) (I := fun s => Spread s.active)
      hnil (fun _ _ _ hr hs hstep => hstep.two_dsts hr hs) hrun htwo

/-- Two destinations, and a second source for one of them that turns out better. -/
def duoArgs : List (MonoTime × List SendPath) :=
  let near : EpAddr := { ap := ⟨.v4 0x0a000001#32, 1⟩ }
  let far : EpAddr := { ap := ⟨.v4 0x0a000002#32, 1⟩ }
  [(1, [⟨near, {}, 10, true, 0⟩, ⟨far, {}, 20, true, 0⟩, ⟨far, ⟨100, 1⟩, 30, true, 1⟩]),
    (1 + sourcePathStandbyRefreshEvery,
      [⟨far, ⟨100, 1⟩, 5, true, 2⟩, ⟨near, {}, 10, true, 0⟩, ⟨far, {}, 20, true, 0⟩])]

/-- The calls with these arguments. -/
def duoCalls : List PolicyCall × ActivePolicy := duoArgs.foldl policyExec ([], {})

theorem activePaths_duoCalls :
    duoCalls.1.map (fun c => c.ev.replaced) = [false, true] ∧
      (duoCalls.2.active.map SendPath.dst).Nodup :=
  ⟨by decide +kernel,
    ((activePaths_of_run duoCalls.1 duoCalls.2 (run_policyExec duoArgs .nil)).2
      (by unfold TwoDsts; decide +kernel)).1⟩

end Multiport.Magicsock

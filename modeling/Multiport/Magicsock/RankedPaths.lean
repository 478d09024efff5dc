import Mathlib.Data.String.Basic
import Mathlib.Tactic.Ring
import Multiport.Lib.Compare
import Multiport.Magicsock.DualSend

/-!
# The ranking for fixed dual-send

`sourcePathRankedDualSendPaths` (`wgengine/magicsock/sourcepath.go`) ranks the paths to a peer:
for each destination the sources that may be used, the best two or three of them, and then all
destinations together.  Asking whether a source is demoted, and scoring it, change the manager,
but nothing a later question depends on (`Alike`), so that the result is that of a ranking of
the first state (`eligiblePaths`).
-/

namespace Multiport.Magicsock

open Lib Net List ProbeManager SendPath

/-! ## The comparator -/

/-- What `compareSourcePathSendPath` orders by. -/
def SendPath.rank (a : SendPath) : Bool ×ₗ Int ×ₗ Int ×ₗ Bool ×ₗ Nat ×ₗ String :=
  toLex (!a.hasLatency, toLex (if a.hasLatency then a.latency else 0, toLex (-a.lastAt,
    toLex (!a.source.isPrimary, toLex (a.source.socketID, a.dst.ap.string)))))

theorem ranksBy_compareSourcePathSendPath : RanksBy compareSourcePathSendPath rank := by
  have heq (a b) : compareSourcePathSendPath a b = level a.rank b.rank 0 := by
    simp only [rank, level_pair]
    rw [level_flag, level_not, level_eq_ite]
    simp only [compareSourcePathSendPath, sub_pos, neg_lt_neg_iff, ne_eq, neg_inj]
    rfl
  rw [funext₂ heq]
  exact .level_zero _

/-! ## What ranking reads of the manager -/

def freshSamples (cfg : Config) (pm : ProbeManager) (now : MonoTime) (dst : EpAddr)
    (source : SourceRxMeta) : Nat :=
  pm.samples.countP fun s => s.dst = dst ∧ s.source = source ∧ now - s.time ≤ cfg.sampleTTL

/-- The source is demoted for the destination at `now`. -/
def Demoted (pm : ProbeManager) (now : MonoTime) (key : DualSendKey) : Prop :=
  ∃ till, pm.dualSendDemotedAuxTill.lookup key = some till ∧ now < till

/-- Two managers that rank alike at `now`. -/
structure Alike (cfg : Config) (now : MonoTime) (pm pm' : ProbeManager) : Prop where
  samples : pm'.samples = pm.samples
  outcomes : pm'.pruneExpiredOutcomesLocked cfg now = { pm' with
    outcomes := (pm.pruneExpiredOutcomesLocked cfg now).outcomes }
  demoted : ∀ key, Demoted pm' now key ↔ Demoted pm now key

namespace Alike

variable {cfg : Config} {now : MonoTime} {pm pm₁ pm₂ : ProbeManager}

theorem refl (cfg : Config) (now : MonoTime) (pm : ProbeManager) : Alike cfg now pm pm :=
  ⟨rfl, rfl, fun _ => Iff.rfl⟩

theorem outcomes_eq (h : Alike cfg now pm pm₁) :
    (pm₁.pruneExpiredOutcomesLocked cfg now).outcomes =
      (pm.pruneExpiredOutcomesLocked cfg now).outcomes := by
  rw [h.outcomes]

theorem trans (h : Alike cfg now pm pm₁) (h' : Alike cfg now pm₁ pm₂) : Alike cfg now pm pm₂ where
  samples := h'.samples.trans h.samples
  outcomes := by rw [h'.outcomes, h.outcomes_eq]
  demoted key := (h'.demoted key).trans (h.demoted key)

end Alike

section Steps

variable (cfg : Config) (k : Knobs) (pm : ProbeManager) (now : MonoTime)

theorem dualSendDemotedLocked_snd (key : DualSendKey) :
    (pm.dualSendDemotedLocked key now).2 = true ↔ Demoted pm now key := by
  unfold dualSendDemotedLocked Demoted
  cases hlookup : pm.dualSendDemotedAuxTill.lookup key with
  | none => simp
  | some till =>
    by_cases hlt : now < till
    · simp [hlt]
    · simp [hlt]

theorem alike_dualSendDemotedLocked (key : DualSendKey) :
    Alike cfg now pm (pm.dualSendDemotedLocked key now).1 := by
  unfold dualSendDemotedLocked
  cases hlookup : pm.dualSendDemotedAuxTill.lookup key with
  | none => exact .refl cfg now pm
  | some till =>
    dsimp only
    split_ifs with hlt
    · exact .refl cfg now pm
    refine ⟨rfl, rfl, fun key' => ?_⟩
    simp only [Demoted]
    by_cases hkey : key' = key
    · -- the entry that is deleted did not count any more
      subst hkey
      simp [hlookup, hlt]
    · simp [hkey]

theorem alike_candidateScoreLocked (dst : EpAddr) (source : SourceRxMeta) (rtt : Duration) :
    Alike cfg now pm (pm.candidateScoreLocked cfg k dst source now rtt).1 := by
  rcases candidateScoreLocked_fst cfg k pm dst source now rtt with h | h <;> rw [h]
  · exact .refl cfg now pm
  · refine ⟨rfl, ?_, fun _ => Iff.rfl⟩
    simp [pruneExpiredOutcomesLocked, pruneOutcomes]

variable {cfg k pm now} {pm' : ProbeManager}

theorem Alike.candidateScoreLocked_snd (h : Alike cfg now pm pm') (dst : EpAddr)
    (source : SourceRxMeta) (rtt : Duration) :
    (pm'.candidateScoreLocked cfg k dst source now rtt).2 =
      (pm.candidateScoreLocked cfg k dst source now rtt).2 := by
  have hloss : (pm'.lossRatioLocked cfg dst source now).2 =
      (pm.lossRatioLocked cfg dst source now).2 := by
    simp only [lossRatioLocked, h.outcomes_eq]
  unfold candidateScoreLocked
  rw [h.samples]
  dsimp only
  rw [hloss]
  split_ifs <;> rfl

/-- The loop of `candidateScoreLocked` counts the fresh samples. -/
theorem samples_foldl_addSample (cfg : Config) (now : MonoTime) (dst : EpAddr)
    (source : SourceRxMeta) (samples : List ProbeSample) (sums : ProbeManager.SampleSums) :
    (samples.foldl (addSample cfg dst source now) sums).samples =
      sums.samples + samples.countP fun s =>
        s.dst = dst ∧ s.source = source ∧ now - s.time ≤ cfg.sampleTTL := by
  induction samples generalizing sums with
  | nil => simp
  | cons s samples ih =>
    rw [foldl_cons, ih, countP_cons, addSample]
    by_cases hother : s.dst ≠ dst ∨ s.source ≠ source
    · have hnot : ¬(s.dst = dst ∧ s.source = source ∧ now - s.time ≤ cfg.sampleTTL) :=
        fun h => hother.elim (absurd h.1) (absurd h.2.1)
      rw [if_pos hother, decide_eq_false hnot]
      simp
    rw [if_neg hother]
    rw [not_or, not_not, not_not] at hother
    by_cases hold : now - s.time > cfg.sampleTTL
    · have hnot : ¬(s.dst = dst ∧ s.source = source ∧ now - s.time ≤ cfg.sampleTTL) :=
        fun h => absurd h.2.2 (not_le.2 hold)
      rw [if_pos hold, decide_eq_false hnot]
      simp
    · rw [if_neg hold, decide_eq_true ⟨hother.1, hother.2, not_lt.1 hold⟩]
      simp only [if_true]
      push_cast
      ring

/-- A source with a score is auxiliary and has enough fresh samples. -/
theorem of_candidateScoreLocked_eq_some {dst : EpAddr} {source} {rtt : Duration}
    {score} (h : (pm.candidateScoreLocked cfg k dst source now rtt).2 = some score) :
    source.isPrimary = false ∧
      sourcePathMinSamplesForUse ≤ freshSamples cfg pm now dst source := by
  have hcount := samples_foldl_addSample cfg now dst source pm.samples {}
  rw [Int.zero_add] at hcount
  unfold candidateScoreLocked at h
  by_cases hdirect : dst.isDirect
  · by_cases hprimary : source.isPrimary
    · simp [hprimary] at h
    · refine ⟨Bool.eq_false_iff.2 hprimary, not_lt.1 fun hfew => ?_⟩
      rw [freshSamples, ← hcount] at hfew
      simp [hdirect, hfew] at h
  · simp [hdirect] at h

end Steps

/-! ## One destination -/

namespace Conn

variable (env : Env) (now : MonoTime)

/-- The path of an auxiliary source, unless it is demoted, has no score or is too far from the
primary one. -/
def auxPath (pm : ProbeManager) (candidate : DstCandidate) (source : SourceRxMeta) :
    Option SendPath :=
  if (pm.dualSendDemotedLocked ⟨candidate.dst, source⟩ now).2 then none
  else match (pm.candidateScoreLocked env.cfg env.knobs candidate.dst source now 0).2 with
    | none => none
    | some score =>
      if env.knobs.sourcePathDualSendMaxSkewValue > 0 ∧ candidate.primaryRTT > 0 ∧
          absDuration (score.latency - candidate.primaryRTT) ≥
            env.knobs.sourcePathDualSendMaxSkewValue then none
      else some ⟨candidate.dst, source, score.latency, true, score.lastAt⟩

/-- The path of the primary source, if it may be used. -/
def primaryPath (candidate : DstCandidate) : List SendPath :=
  if candidate.allowPrimarySource || candidate.hasPrimaryRTT then
    [⟨candidate.dst, primarySourceRxMeta, candidate.primaryRTT, candidate.hasPrimaryRTT, 0⟩]
  else []

/-- The paths to a destination that may be used. -/
def eligiblePaths (c : Conn) (candidate : DstCandidate) : List SendPath :=
  if candidate.dst.isDirect then
    primaryPath candidate ++
      (c.sourcesFor env candidate.dst).filterMap (auxPath env now c.sourceProbes candidate)
  else []

variable {env now} {pm pm' : ProbeManager} (candidate : DstCandidate) {c c' : Conn}

theorem auxPath_eq_of_alike (h : Alike env.cfg now pm pm') (source : SourceRxMeta) :
    auxPath env now pm' candidate source = auxPath env now pm candidate source := by
  have hdemoted : (pm'.dualSendDemotedLocked ⟨candidate.dst, source⟩ now).2 =
      (pm.dualSendDemotedLocked ⟨candidate.dst, source⟩ now).2 :=
    Bool.eq_iff_iff.2 (by rw [dualSendDemotedLocked_snd, dualSendDemotedLocked_snd, h.demoted])
  unfold auxPath
  rw [hdemoted, h.candidateScoreLocked_snd]

/-- A round of the loop adds the path of its source. -/
theorem rankSource_spec (st : ProbeManager × List SendPath) (source : SourceRxMeta) :
    Alike env.cfg now st.1 (rankSource env candidate now st source).1 ∧
      (rankSource env candidate now st source).2 =
        st.2 ++ (auxPath env now st.1 candidate source).toList := by
  have hdem := alike_dualSendDemotedLocked env.cfg st.1 now ⟨candidate.dst, source⟩
  unfold rankSource auxPath
  dsimp only
  cases hd : (st.1.dualSendDemotedLocked ⟨candidate.dst, source⟩ now).2 with
  | true => exact ⟨by simpa [hd] using hdem, by simp⟩
  | false =>
    have hscore := alike_candidateScoreLocked env.cfg env.knobs
      (st.1.dualSendDemotedLocked ⟨candidate.dst, source⟩ now).1 now candidate.dst source 0
    rw [← hdem.candidateScoreLocked_snd]
    simp only [Bool.false_eq_true, if_false]
    cases hs : candidateScoreLocked env.cfg env.knobs
        (st.1.dualSendDemotedLocked ⟨candidate.dst, source⟩ now).1 candidate.dst source now 0 with
    | mk pm score =>
      rw [hs] at hscore
      cases score with
      | none => exact ⟨hdem.trans hscore, by simp⟩
      | some score =>
        dsimp only
        split_ifs
        · exact ⟨hdem.trans hscore, by simp⟩
        · exact ⟨hdem.trans hscore, by simp⟩

theorem foldl_rankSource (sources : List SourceRxMeta) (st : ProbeManager × List SendPath)
    (h : Alike env.cfg now pm st.1) :
    Alike env.cfg now pm (sources.foldl (rankSource env candidate now) st).1 ∧
      (sources.foldl (rankSource env candidate now) st).2 =
        st.2 ++ sources.filterMap (auxPath env now pm candidate) := by
  induction sources generalizing st with
  | nil => exact ⟨h, by simp⟩
  | cons source sources ih =>
    obtain ⟨halike, hpaths⟩ := rankSource_spec candidate st source
    obtain ⟨hend, hrest⟩ := ih _ (h.trans halike)
    rw [foldl_cons]
    refine ⟨hend, ?_⟩
    rw [hrest, hpaths, auxPath_eq_of_alike candidate h]
    cases hsource : auxPath env now pm candidate source with
    | none | some path => simp [hsource]

/-! ## All destinations -/

/-- Two connections that rank alike. -/
structure RanksAlike (env : Env) (now : MonoTime) (c c' : Conn) : Prop where
  sourcePath : c'.sourcePath = c.sourcePath
  probes : Alike env.cfg now c.sourceProbes c'.sourceProbes

theorem RanksAlike.eligiblePaths_eq (h : RanksAlike env now c c') :
    c'.eligiblePaths env now candidate = c.eligiblePaths env now candidate := by
  unfold eligiblePaths sourcesFor
  rw [h.sourcePath, funext fun source => auxPath_eq_of_alike candidate h.probes source]

variable {sort : List SendPath → List SendPath} (hsort : SortsWith compareSourcePathSendPath sort)

include hsort in
theorem sourcePathRankedSendPathsForDst_spec (limit : Nat) (hlimit : 0 < limit)
    (h : RanksAlike env now c c') :
    RanksAlike env now c (c'.sourcePathRankedSendPathsForDst env sort candidate now limit).1 ∧
      (c'.sourcePathRankedSendPathsForDst env sort candidate now limit).2 =
        (sort (c.eligiblePaths env now candidate)).take limit := by
  rw [← h.eligiblePaths_eq]
  unfold sourcePathRankedSendPathsForDst eligiblePaths
  by_cases hd : candidate.dst.isDirect
  · obtain ⟨halike, hpaths⟩ := foldl_rankSource candidate (c'.sourcesFor env candidate.dst)
      (c'.sourceProbes, primaryPath candidate) (.refl env.cfg now c'.sourceProbes)
    rw [if_neg (by simp [hd]), if_pos hd]
    refine ⟨⟨h.sourcePath, h.probes.trans halike⟩, ?_⟩
    have hcut : ∀ l : List SendPath,
        (if limit > 0 ∧ l.length > limit then l.take limit else l) = l.take limit := by
      intro l
      split_ifs with hlong
      · rfl
      · exact (take_of_length_le (not_lt.1 fun hlt => hlong ⟨hlimit, hlt⟩)).symm
    rw [← hpaths]
    exact hcut _
  · rw [if_pos (by simp [hd]), if_neg hd, perm_nil.1 (hsort.perm [])]
    exact ⟨h, by simp⟩

include hsort in
theorem foldl_rankDst (candidates : List DstCandidate) (st : Conn × List SendPath)
    (h : RanksAlike env now c st.1) :
    (candidates.foldl (rankDst env sort now) st).2 =
      st.2 ++ candidates.flatMap fun candidate =>
        (sort (c.eligiblePaths env now candidate)).take 2 := by
  induction candidates generalizing st with
  | nil => simp
  | cons candidate candidates ih =>
    obtain ⟨halike, hpaths⟩ := sourcePathRankedSendPathsForDst_spec candidate hsort 2 (by decide) h
    rw [foldl_cons, ih (rankDst env sort now st candidate) halike, flatMap_cons,
      ← append_assoc, ← hpaths]
    rfl

variable {candidates : List DstCandidate} {p q : SendPath} {paths : List SendPath}

theorem key_auxPath {source} (h : auxPath env now pm candidate source = some p) :
    p.key = (candidate.dst, source) := by
  unfold auxPath at h
  split_ifs at h
  split at h
  · cases h
  · split_ifs at h
    cases h
    rfl

/-- What an auxiliary path has to have.  A candidate has a primary RTT if that is positive;
`hasPrimaryRTT` is set just then. -/
structure Usable (env : Env) (now : MonoTime) (pm : ProbeManager) (candidate : DstCandidate)
    (p : SendPath) : Prop where
  samples : sourcePathMinSamplesForUse ≤ freshSamples env.cfg pm now p.dst p.source
  not_demoted : ¬ Demoted pm now ⟨p.dst, p.source⟩
  skew : 0 < candidate.primaryRTT → 0 < env.knobs.sourcePathDualSendMaxSkewValue →
    absDuration (p.latency - candidate.primaryRTT) < env.knobs.sourcePathDualSendMaxSkewValue

theorem usable_auxPath {source} (h : auxPath env now pm candidate source = some p) :
    source.isPrimary = false ∧ Usable env now pm candidate p := by
  unfold auxPath at h
  split_ifs at h with hdemoted
  split at h
  · cases h
  next score hscore =>
    split_ifs at h with hskew
    cases h
    obtain ⟨haux, hfresh⟩ := of_candidateScoreLocked_eq_some hscore
    refine ⟨haux, hfresh, fun hd => hdemoted ((dualSendDemotedLocked_snd _ _ _).2 hd), ?_⟩
    exact fun hrtt hmax => not_le.1 fun hle => hskew ⟨hmax, hrtt, hle⟩

theorem mem_eligiblePaths (h : p ∈ c.eligiblePaths env now candidate) :
    p.dst = candidate.dst ∧ (p.source.isPrimary = false →
      Usable env now c.sourceProbes candidate p) := by
  unfold eligiblePaths at h
  split_ifs at h
  · rcases mem_append.1 h with h | h
    · unfold primaryPath at h
      split_ifs at h
      · rw [mem_singleton.1 h]
        exact ⟨rfl, fun hp => by simp [primarySourceRxMeta, SourceRxMeta.isPrimary] at hp⟩
      · cases h
    · obtain ⟨source, -, hp⟩ := mem_filterMap.1 h
      exact ⟨congrArg Prod.fst (key_auxPath candidate hp), fun _ => (usable_auxPath candidate hp).2⟩
  · cases h

theorem nodup_eligiblePaths (h : (c.sourcesFor env candidate.dst).Nodup) :
    ((c.eligiblePaths env now candidate).map key).Nodup := by
  unfold eligiblePaths
  split_ifs
  · rw [map_append, nodup_append]
    refine ⟨?_, ?_, ?_⟩
    · unfold primaryPath
      split_ifs
      · exact nodup_singleton _
      · exact nodup_nil
    · rw [map_filterMap]
      refine h.filterMap fun s s' key hs hs' => ?_
      obtain ⟨p, hp, rfl⟩ := Option.map_eq_some_iff.1 hs
      obtain ⟨p', hp', hkey⟩ := Option.map_eq_some_iff.1 hs'
      rw [key_auxPath candidate hp, key_auxPath candidate hp'] at hkey
      exact (congrArg Prod.snd hkey).symm
    · rintro key hkey _ hkey' rfl
      obtain ⟨p, hp, rfl⟩ := mem_map.1 hkey
      obtain ⟨q, hq, hpq⟩ := mem_map.1 hkey'
      obtain ⟨source, -, hq⟩ := mem_filterMap.1 hq
      have hsource : p.source.isPrimary = true := by
        unfold primaryPath at hp
        split_ifs at hp
        · rw [mem_singleton.1 hp]
          rfl
        · cases hp
      rw [key_auxPath candidate hq] at hpq
      rw [← (Prod.mk.inj hpq).2, (usable_auxPath candidate hq).1] at hsource
      cases hsource
  · exact nodup_nil

/-- What is promised about the result. -/
structure Ranked (env : Env) (c : Conn) (candidates : List DstCandidate) (now : MonoTime)
    (paths : List SendPath) : Prop where
  nodup : (paths.map key).Nodup
  sorted : paths.Pairwise fun a b => compareSourcePathSendPath a b ≤ 0
  length_le : paths.length ≤ sourcePathMaxRankedPaths
  usable : ∀ p ∈ paths, ∃ candidate ∈ candidates, candidate.dst = p.dst ∧
    (p.source.isPrimary = false → Usable env now c.sourceProbes candidate p)
  first : ∀ candidate ∈ candidates, ∀ q ∈ c.eligiblePaths env now candidate, q ∉ paths →
    ∀ p ∈ paths, p.dst = candidate.dst → ¬ compareSourcePathSendPath q p < 0

include hsort in
/-- Cutting off a sorted pool keeps what is promised about the pool. -/
theorem ranked_take
    (hpool : ∀ p ∈ paths, ∃ candidate ∈ candidates, p ∈ c.eligiblePaths env now candidate)
    (hnodup : (paths.map key).Nodup)
    (hfirst : ∀ candidate ∈ candidates, ∀ q ∈ c.eligiblePaths env now candidate, q ∉ paths →
      ∀ p ∈ paths, p.dst = candidate.dst → ¬ compareSourcePathSendPath q p < 0)
    (n : Nat) (hn : n ≤ sourcePathMaxRankedPaths) :
    Ranked env c candidates now ((sort paths).take n) := by
  have hsorted := hsort.sorted ranksBy_compareSourcePathSendPath.weakOrder paths
  have hmem : ∀ {p}, p ∈ sort paths ↔ p ∈ paths := (hsort.perm paths).mem_iff
  refine ⟨?_, hsorted.sublist (take_sublist n _), (length_take_le n _).trans hn, ?_, ?_⟩
  · exact (((hsort.perm paths).map key).nodup_iff.2 hnodup).sublist
      ((take_sublist n _).map _)
  · intro p hp
    obtain ⟨candidate, hc, hp⟩ := hpool p (hmem.1 (mem_of_mem_take hp))
    obtain ⟨hdst, haux⟩ := mem_eligiblePaths candidate hp
    exact ⟨candidate, hc, hdst.symm, haux⟩
  · intro candidate hc q hq hcut p hp hdst
    by_cases hin : q ∈ paths
    · exact ranksBy_compareSourcePathSendPath.not_neg_of_take hsorted hp (hmem.2 hin) hcut
    · exact hfirst candidate hc q hq hin p (hmem.1 (mem_of_mem_take hp)) hdst

theorem ranked_nil : Ranked env c candidates now [] :=
  ⟨nodup_nil, List.Pairwise.nil, Nat.zero_le _, by simp, by simp⟩

include hsort in
/-- The pool of several destinations: the best two paths of each. -/
theorem ranked_pool (hdsts : (candidates.map DstCandidate.dst).Nodup)
    (hsources : ∀ candidate ∈ candidates, (c.sourcesFor env candidate.dst).Nodup) :
    Ranked env c candidates now ((sort (candidates.flatMap fun candidate =>
      (sort (c.eligiblePaths env now candidate)).take 2)).take sourcePathMaxRankedPaths) := by
  have hmem : ∀ {candidate p}, p ∈ (sort (c.eligiblePaths env now candidate)).take 2 →
      p ∈ c.eligiblePaths env now candidate := fun hp =>
    (hsort.perm _).mem_iff.1 (mem_of_mem_take hp)
  refine ranked_take hsort ?_ ?_ ?_ _ le_rfl
  · intro p hp
    obtain ⟨candidate, hc, hp⟩ := mem_flatMap.1 hp
    exact ⟨candidate, hc, hmem hp⟩
  · rw [map_flatMap, nodup_flatMap]
    refine ⟨fun candidate hc => ?_, ?_⟩
    · exact (((hsort.perm _).map key).nodup_iff.2
        (nodup_eligiblePaths candidate (hsources candidate hc))).sublist
        ((take_sublist 2 _).map _)
    · refine (pairwise_map.1 hdsts).imp fun {a b} hab key hka hkb => hab ?_
      obtain ⟨p, hp, rfl⟩ := mem_map.1 hka
      obtain ⟨q, hq, hkey⟩ := mem_map.1 hkb
      rw [← (mem_eligiblePaths a (hmem hp)).1, ← (mem_eligiblePaths b (hmem hq)).1]
      exact (congrArg Prod.fst hkey).symm
  · -- an omitted path was cut off the paths of its own destination
    intro candidate hc q hq hcut p hp hdst
    obtain ⟨candidate', hc', hp'⟩ := mem_flatMap.1 hp
    have heq : candidate' = candidate := inj_on_of_nodup_map hdsts hc' hc
      ((mem_eligiblePaths candidate' (hmem hp')).1.symm.trans hdst)
    subst heq
    exact ranksBy_compareSourcePathSendPath.not_neg_of_take
      (hsort.sorted ranksBy_compareSourcePathSendPath.weakOrder _) hp'
      ((hsort.perm _).mem_iff.2 hq) fun h => hcut (mem_flatMap.2 ⟨_, hc, h⟩)

/-- **The ranking.**  The paths are distinct, sorted and not too many, those of auxiliary sources
are usable, and no path that was left out comes before one to the same destination. -/
theorem sourcePathRankedDualSendPaths_ranked (env : Env) (c : Conn) (now : MonoTime)
    (sort : List SendPath → List SendPath) (hsort : SortsWith compareSourcePathSendPath sort)
    (candidates : List DstCandidate) (hdsts : (candidates.map DstCandidate.dst).Nodup)
    (hsources : ∀ candidate ∈ candidates, (c.sourcesFor env candidate.dst).Nodup) :
    Ranked env c candidates now (c.sourcePathRankedDualSendPaths env sort candidates now).2 := by
  have hsame : RanksAlike env now c c := ⟨rfl, .refl env.cfg now c.sourceProbes⟩
  unfold sourcePathRankedDualSendPaths
  split_ifs
  · exact ranked_nil
  rcases candidates with _ | ⟨a, _ | ⟨b, rest⟩⟩
  · exact ranked_nil
  · dsimp only
    rw [(sourcePathRankedSendPathsForDst_spec a hsort 3 (by decide) hsame).2]
    refine ranked_take hsort (fun p hp => ⟨a, mem_cons_self, hp⟩)
      (nodup_eligiblePaths a (hsources a mem_cons_self)) ?_ 3 (by decide)
    intro candidate hc q hq hcut
    rw [mem_singleton.1 hc] at hq
    exact absurd hq hcut
  · have hcut : ∀ l : List SendPath, (if l.length > sourcePathMaxRankedPaths then
        l.take sourcePathMaxRankedPaths else l) = l.take sourcePathMaxRankedPaths := by
      intro l
      split_ifs with hlong
      · rfl
      · exact (take_of_length_le (not_lt.1 hlong)).symm
    dsimp only
    rw [foldl_rankDst hsort _ _ hsame, hcut]
    split_ifs
    · exact ranked_nil
    · exact ranked_pool hsort hdsts hsources

/-- A connection whose extra socket has answered three probes. -/
def probedConn : Conn :=
  { boundConn with sourceProbes.samples := replicate 3 ⟨1, directDst, {}, {}, ⟨100, 1⟩, 5, 7⟩ }

/-- Two destinations, to one of which there is a path from the socket. -/
theorem sourcePathRankedDualSendPaths_ranked_two :
    Ranked { knobs := { dataStrategy := "dual-send" } } probedConn
      [⟨directDst, 20, true, true⟩, ⟨{ ap := ⟨.v4 0x0a000002#32, 1⟩ }, 0, false, true⟩] 9
      (probedConn.sourcePathRankedDualSendPaths { knobs := { dataStrategy := "dual-send" } }
        (fun l => l.insertionSort fun a b => compareSourcePathSendPath a b ≤ 0)
        [⟨directDst, 20, true, true⟩, ⟨{ ap := ⟨.v4 0x0a000002#32, 1⟩ }, 0, false, true⟩] 9).2 :=
  sourcePathRankedDualSendPaths_ranked _ _ _ _
    ranksBy_compareSourcePathSendPath.sortsWith_insertionSort _ (by decide) (by decide)

end Conn

end Multiport.Magicsock

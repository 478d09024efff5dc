import Multiport.Magicsock.Knobs

/-!
# Scoring a source

How good a source is for a destination, by the samples and outcomes of its
probes.  The arithmetic is that of the source, in binary64.
-/

namespace Multiport.Magicsock

open Lib Net

/-- `sourcePathCandidateScore`. -/
structure CandidateScore where
  source : SourceRxMeta := {}
  latency : Duration := 0
  jitter : Duration := 0
  loss : Float := 0
  score : Float := 0
  samples : Int := 0
  lastAt : MonoTime := 0
deriving Repr

def sourcePathMinSamplesForUse : Int := 3

/-- `time.Duration(x)`. -/
def durationOfFloat (x : Float) : Duration := x.toInt64.toInt

def sourcePathExpNorm (v maxV : Float) : Float :=
  if maxV ≤ 0 then 1
  else
    let x := v / maxV
    let x := if x < 0 then 0 else x
    let x := if x > 1 then 1 else x
    1 / Float.exp (4 * x)

def sourcePathQualityScore (k : Knobs) (latency jitter : Duration) (loss : Float)
    (weights : ScoreWeights) : Float :=
  let latNorm := sourcePathExpNorm (.ofInt latency) (.ofInt k.sourcePathLatencyMaxValue)
  let jitterNorm := sourcePathExpNorm (.ofInt jitter) (.ofInt k.sourcePathJitterMaxValue)
  let lossNorm := sourcePathExpNorm loss k.sourcePathLossMaxValue
  latNorm * weights.latency + jitterNorm * weights.jitter + lossNorm * weights.loss

namespace CandidateScore

/-- The candidate with its score, if it is good enough. -/
def applyMultiMetricScore (k : Knobs) (c : CandidateScore) (primaryRTT : Duration) :
    Option CandidateScore :=
  if c.latency > k.sourcePathLatencyMaxValue then none
  else if c.jitter > k.sourcePathJitterMaxValue then none
  else if c.loss > k.sourcePathLossMaxValue then none
  else
    let weights := k.scoreWeights
    let c := { c with score := sourcePathQualityScore k c.latency c.jitter c.loss weights }
    if primaryRTT ≤ 0 then some c
    else
      let primaryScore := sourcePathQualityScore k primaryRTT 0 0 weights
      let needed := primaryScore * (1 + .ofInt k.sourcePathScoreImprovePctValue / 100)
      if c.score > needed then some c else none

def betterThan (c best : CandidateScore) (multiMetric : Bool) : Bool :=
  if multiMetric then c.score > best.score || (c.score == best.score && c.lastAt - best.lastAt > 0)
  else c.latency < best.latency || (c.latency = best.latency && c.lastAt - best.lastAt > 0)

end CandidateScore

namespace ProbeManager

variable (cfg : Config) (k : Knobs)

variable (pm : ProbeManager)

/-- The share of lost probes, after old outcomes were dropped. -/
def lossRatioLocked (dst : EpAddr) (source : SourceRxMeta) (now : MonoTime) :
    ProbeManager × Float :=
  let pm := pm.pruneExpiredOutcomesLocked cfg now
  let of := pm.outcomes.filter fun o => o.dst = dst ∧ o.source = source
  let total := of.length
  let lost := (of.filter ProbeOutcome.lost).length
  (pm, if total = 0 then 0 else .ofNat lost / .ofNat total)

structure SampleSums where
  sumLatencyNs : Float := 0
  sumSqNs : Float := 0
  samples : Int := 0
  lastAt : MonoTime := 0

/-- The loop body of `candidateScoreLocked`. -/
def addSample (dst : EpAddr) (source : SourceRxMeta) (now : MonoTime) (sums : SampleSums)
    (sample : ProbeSample) : SampleSums :=
  if sample.dst ≠ dst ∨ sample.source ≠ source then sums
  else if now - sample.time > cfg.sampleTTL then sums
  else
    let latencyNs := Float.ofInt sample.latency
    { sumLatencyNs := sums.sumLatencyNs + latencyNs
      sumSqNs := sums.sumSqNs + latencyNs * latencyNs
      samples := sums.samples + 1
      lastAt := if sums.samples = 0 then sample.time
        else if sample.time - sums.lastAt > 0 then sample.time else sums.lastAt }

/-- The score of a source, if it has enough samples and is good enough. -/
def candidateScoreLocked (dst : EpAddr) (source : SourceRxMeta)
    (now : MonoTime) (primaryRTT : Duration) : ProbeManager × Option CandidateScore :=
  if !dst.isDirect then (pm, none)
  else if source.isPrimary then (pm, none)
  else
    let sums := pm.samples.foldl (addSample cfg dst source now) {}
    if sums.samples < sourcePathMinSamplesForUse then (pm, none)
    else
      let meanNs := sums.sumLatencyNs / .ofInt sums.samples
      let varianceNs := sums.sumSqNs / .ofInt sums.samples - meanNs * meanNs
      let varianceNs := if varianceNs < 0 then 0 else varianceNs
      let (pm, loss) := pm.lossRatioLocked cfg dst source now
      let candidate : CandidateScore :=
        { source, latency := durationOfFloat meanNs, jitter := durationOfFloat varianceNs.sqrt,
          loss, samples := sums.samples, lastAt := sums.lastAt }
      if k.sourcePathMultiMetricEnabled then (pm, candidate.applyMultiMetricScore k primaryRTT)
      else
        let thresholdPct := k.sourcePathAuxBeatThresholdPercentValue
        let cutoff := primaryRTT - (primaryRTT * thresholdPct).tdiv 100
        if (primaryRTT > 0 ∧ thresholdPct > 0) ∧ candidate.latency ≥ cutoff then (pm, none)
        else (pm, some candidate)

/-- The loop body of `bestCandidateLocked`. -/
def considerCandidate (dst : EpAddr) (now : MonoTime) (primaryRTT : Duration)
    (st : ProbeManager × Option CandidateScore) (source : SourceRxMeta) :
    ProbeManager × Option CandidateScore :=
  match st.1.candidateScoreLocked cfg k dst source now primaryRTT with
  | (pm, none) => (pm, st.2)
  | (pm, some candidate) =>
    match st.2 with
    | none => (pm, some candidate)
    | some best =>
      if candidate.betterThan best k.sourcePathMultiMetricEnabled then (pm, some candidate)
      else (pm, some best)

def bestCandidateLocked (dst : EpAddr) (sources : List SourceRxMeta)
    (now : MonoTime) (primaryRTT : Duration) : ProbeManager × Option CandidateScore :=
  sources.foldl (considerCandidate cfg k dst now primaryRTT) (pm, none)

/-! ## What scoring changes

Scoring drops old outcomes and nothing else. -/

theorem candidateScoreLocked_fst (dst : EpAddr)
    (source : SourceRxMeta) (now : MonoTime) (primaryRTT : Duration) :
    (pm.candidateScoreLocked cfg k dst source now primaryRTT).1 = pm ∨
      (pm.candidateScoreLocked cfg k dst source now primaryRTT).1 =
        pm.pruneExpiredOutcomesLocked cfg now := by
  unfold candidateScoreLocked
  split
  · exact .inl rfl
  split
  · exact .inl rfl
  dsimp only
  split
  · exact .inl rfl
  · right
    split
    · rfl
    · split <;> rfl

end ProbeManager

end Multiport.Magicsock

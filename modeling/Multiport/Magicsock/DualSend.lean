import Multiport.Magicsock.ActiveBackup
import Multiport.Magicsock.ActivePolicy

/-!
# Dual-send: ranking

The function behind the fixed dual-send strategy: the ranking of all paths to a peer.
-/

namespace Multiport.Magicsock

open Lib Net

/-- `sourcePathDstCandidate`. -/
structure DstCandidate where
  dst : EpAddr
  primaryRTT : Duration := 0
  hasPrimaryRTT : Bool := false
  allowPrimarySource : Bool := false
deriving DecidableEq, Repr

def sourcePathMaxRankedPaths : Nat := 32

def absDuration (d : Duration) : Duration := if d < 0 then -d else d

namespace Conn

variable (env : Env)

/-- The loop body of `sourcePathRankedSendPathsForDst`: the path of a source, unless
it is demoted, has no score or is too far from the primary one. -/
def rankSource (candidate : DstCandidate) (now : MonoTime) (st : ProbeManager × List SendPath)
    (source : SourceRxMeta) : ProbeManager × List SendPath :=
  let (pm, paths) := st
  let (pm, demoted) := pm.dualSendDemotedLocked ⟨candidate.dst, source⟩ now
  if demoted then (pm, paths)
  else match pm.candidateScoreLocked env.cfg env.knobs candidate.dst source now 0 with
    | (pm, none) => (pm, paths)
    | (pm, some score) =>
      let maxSkew := env.knobs.sourcePathDualSendMaxSkewValue
      if maxSkew > 0 ∧ candidate.primaryRTT > 0 ∧
          absDuration (score.latency - candidate.primaryRTT) ≥ maxSkew then (pm, paths)
      else
        (pm, paths ++ [⟨candidate.dst, source, score.latency, true, score.lastAt⟩])

variable (sort : List SendPath → List SendPath)

/-- `sort` is what `slices.SortFunc` makes of the paths. -/
def sourcePathRankedSendPathsForDst (c : Conn)
    (candidate : DstCandidate) (now : MonoTime) (limit : Nat) : Conn × List SendPath :=
  if !candidate.dst.isDirect then (c, [])
  else
    let primary : List SendPath :=
      if candidate.allowPrimarySource || candidate.hasPrimaryRTT then
        [⟨candidate.dst, primarySourceRxMeta, candidate.primaryRTT, candidate.hasPrimaryRTT, 0⟩]
      else []
    let (pm, paths) := (c.sourcesFor env candidate.dst).foldl (rankSource env candidate now)
      (c.sourceProbes, primary)
    let paths := sort paths
    ({ c with sourceProbes := pm },
      if limit > 0 ∧ paths.length > limit then paths.take limit else paths)

/-- The loop body of `sourcePathRankedDualSendPaths`. -/
def rankDst (now : MonoTime) (st : Conn × List SendPath)
    (candidate : DstCandidate) : Conn × List SendPath :=
  let (c, ranked) := st.1.sourcePathRankedSendPathsForDst env sort candidate now 2
  (c, st.2 ++ ranked)

def sourcePathRankedDualSendPaths (c : Conn)
    (candidates : List DstCandidate) (now : MonoTime) : Conn × List SendPath :=
  if !env.knobs.sourcePathDualSendEnabled then (c, [])
  else match candidates with
    | [] => (c, [])
    | [candidate] => c.sourcePathRankedSendPathsForDst env sort candidate now 3
    | candidates =>
      let (c, paths) := candidates.foldl (rankDst env sort now) (c, [])
      let paths := sort paths
      let paths :=
        if paths.length > sourcePathMaxRankedPaths then paths.take sourcePathMaxRankedPaths
        else paths
      (c, if paths.length < 2 then [] else paths)

end Conn

end Multiport.Magicsock

import Multiport.Magicsock.ProbeManager

/-!
# The settings of source selection

The environment variables of the `SRCSEL` family, as they are read, and the
functions of them that the code consults.  They are read anew at every use, so
that two operations may see different settings.
-/

namespace Multiport.Magicsock

/-- The value of `sourcePathDataStrategyMode`. -/
inductive DataStrategy where
  | dualSend | dualEndpoint | singleSource | activeBackup
deriving DecidableEq, Repr

/-- `sourcePathScoreWeights`. -/
structure ScoreWeights where
  latency : Float := 0.30
  jitter : Float := 0.40
  loss : Float := 0.30
deriving Repr

/-- The variables.  A missing number reads as zero, except where the code can tell;
strings are in lower case, and the data strategy is without surrounding space. -/
structure Knobs where
  /-- `TS_EXPERIMENTAL_SRCSEL_ENABLE`. -/
  enable : Option Bool := none
  /-- `TS_EXPERIMENTAL_SRCSEL_AUX_SOCKETS`. -/
  auxSockets : Option Int := none
  /-- `TS_EXPERIMENTAL_SRCSEL_DATA_STRATEGY`. -/
  dataStrategy : String := ""
  /-- `TS_EXPERIMENTAL_SRCSEL_FORCE_DATA_SOURCE`. -/
  forceDataSource : String := ""
  /-- `TS_EXPERIMENTAL_SRCSEL_AUTO_DATA_SOURCE`. -/
  autoDataSource : Bool := false
  /-- `TS_EXPERIMENTAL_SRCSEL_DUAL_SEND`. -/
  dualSend : Option Bool := none
  /-- `TS_EXPERIMENTAL_SRCSEL_DUAL_SEND_AUX_DROP_STREAK`. -/
  dualSendAuxDrop : Int := 0
  /-- `TS_EXPERIMENTAL_SRCSEL_DUAL_SEND_RECOVERY_S`. -/
  dualSendRecoveryS : Int := 0
  /-- `TS_EXPERIMENTAL_SRCSEL_DUAL_SEND_MAX_SKEW_MS`. -/
  dualSendMaxSkewMS : Int := 0
  /-- `TS_EXPERIMENTAL_SRCSEL_ACTIVE_BACKUP`. -/
  activeBackup : Bool := false
  /-- `TS_EXPERIMENTAL_SRCSEL_PRIMARY_FAIL_STREAK`. -/
  primaryFailStreak : Int := 0
  /-- `TS_EXPERIMENTAL_SRCSEL_FAILOVER_HOLD_S`. -/
  failoverHoldS : Int := 0
  /-- `TS_EXPERIMENTAL_SRCSEL_FAILOVER_RECOVERY_PONGS`. -/
  failoverRecovery : Int := 0
  /-- `TS_EXPERIMENTAL_SRCSEL_AUX_BEAT_THRESHOLD_PCT`. -/
  auxBeatThresholdPct : Int := 0
  /-- `TS_EXPERIMENTAL_SRCSEL_FLOW_AWARE`. -/
  flowAware : Bool := false
  /-- `TS_EXPERIMENTAL_SRCSEL_BALANCE_POLICY`. -/
  balancePolicy : String := ""
  /-- `TS_EXPERIMENTAL_SRCSEL_MULTI_METRIC`. -/
  multiMetric : Bool := false
  /-- `TS_EXPERIMENTAL_SRCSEL_PROFILE`. -/
  profile : String := ""
  /-- `TS_EXPERIMENTAL_SRCSEL_LATENCY_MAX_MS`. -/
  latencyMaxMS : Int := 0
  /-- `TS_EXPERIMENTAL_SRCSEL_JITTER_MAX_MS`. -/
  jitterMaxMS : Int := 0
  /-- `TS_EXPERIMENTAL_SRCSEL_LOSS_MAX_PCT`. -/
  lossMaxPct : Int := 0
  /-- `TS_EXPERIMENTAL_SRCSEL_SCORE_IMPROVEMENT_PCT`. -/
  scoreImprovePct : Int := 0
  /-- `sourcePathScoreWeightsValue()`, which parses `TS_EXPERIMENTAL_SRCSEL_SCORE_WEIGHTS`. -/
  scoreWeights : ScoreWeights := {}
deriving Repr

def millisecond : Duration := 1000000

def sourcePathDefaultAuxSockets : Int := 2

def sourcePathMaxAuxSockets : Int := 32

namespace Knobs

variable (k : Knobs)

def sourcePathOptBoolDefaultTrue (v : Option Bool) : Bool := v.getD true

def sourcePathEnabled : Bool := sourcePathOptBoolDefaultTrue k.enable

def sourcePathDataStrategyMode : DataStrategy :=
  if k.dataStrategy ∈ ["", "dual", "dual-send", "dual_send", "redundant"] then .dualSend
  else if k.dataStrategy ∈ ["dual-endpoint", "dual_endpoint", "endpoint", "endpoints",
      "redundant-endpoint", "redundant_endpoint", "multipath"] then .dualEndpoint
  else if k.dataStrategy ∈ ["single", "single-source", "single_source", "auto", "flow",
      "flow-aware", "flow_aware", "rr", "round-robin", "round_robin"] then .singleSource
  else if k.dataStrategy ∈ ["active-backup", "active_backup", "backup", "failover"] then
    .activeBackup
  else .dualSend

def sourcePathAuxSocketCount : Int :=
  if !k.sourcePathEnabled then 0
  else match k.auxSockets with
    | none => sourcePathDefaultAuxSockets
    | some n =>
      if n < 0 then 0 else if n > sourcePathMaxAuxSockets then sourcePathMaxAuxSockets else n

def sourcePathDualSendEnabled : Bool :=
  k.sourcePathDataStrategyMode = .dualSend ∧ sourcePathOptBoolDefaultTrue k.dualSend ∧
    k.sourcePathAuxSocketCount > 0

/-- A number that stands for its default unless it is positive. -/
def positiveOr (n default : Int) : Int := if n ≤ 0 then default else n

def sourcePathDualSendMaxSkewValue : Duration := positiveOr k.dualSendMaxSkewMS 100 * millisecond

def sourcePathActiveBackupEnabled : Bool :=
  k.sourcePathDataStrategyMode = .activeBackup ∧ k.activeBackup ∧ k.sourcePathAuxSocketCount > 0

def sourcePathActiveBackupPrimaryFailStreakValue : Int := positiveOr k.primaryFailStreak 3

def sourcePathActiveBackupFailoverHoldValue : Duration :=
  if k.failoverHoldS < 0 then 0 else if k.failoverHoldS = 0 then 30 * second
  else k.failoverHoldS * second

/-- Zero means that the primary path is not compared with. -/
def sourcePathAuxBeatThresholdPercentValue : Int :=
  if k.auxBeatThresholdPct < 0 then 0 else if k.auxBeatThresholdPct = 0 then 10
  else if k.auxBeatThresholdPct > 100 then 100 else k.auxBeatThresholdPct

def sourcePathMultiMetricEnabled : Bool := k.multiMetric ∨ k.profile = "realtime"

def sourcePathLatencyMaxValue : Duration := positiveOr k.latencyMaxMS 300 * millisecond

def sourcePathJitterMaxValue : Duration := positiveOr k.jitterMaxMS 50 * millisecond

def sourcePathLossMaxValue : Float :=
  if k.lossMaxPct ≤ 0 then 0.05 else Float.ofInt k.lossMaxPct / 100

def sourcePathScoreImprovePctValue : Int := positiveOr k.scoreImprovePct 5

end Knobs

end Multiport.Magicsock

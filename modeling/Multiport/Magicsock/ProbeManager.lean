import Multiport.Lib.Lists
import Multiport.Lib.Runs
import Multiport.Tailcfg.Node

/-!
# The source path probe manager

`sourcePathProbeManager` (`wgengine/magicsock/sourcepath.go`) tracks the probes
that are sent through the auxiliary sockets of a connection: those still pending,
the latency samples and outcomes of those that ended, and the tables that steer
data traffic by them.

A `mono.Time` and a `time.Duration` are integers, in nanoseconds; metrics and log
lines are left out.  Values of environment knobs that the code looks up are in
`Config`.  The iteration order of a map is that of the `GoMap`, and `Step` lets
it change before every operation.
-/

namespace Multiport.Magicsock

open Lib Net Tailcfg List

/-! ## Data -/

/-- `mono.Time`; zero is the unset time. -/
abbrev MonoTime := Int

/-- `time.Duration`. -/
abbrev Duration := Int

/-- A `time.Second`. -/
def second : Duration := 1000000000

/-- `stun.TxID`. -/
abbrev TxID := BitVec 96

/-- `sourceRxMeta`: a socket, and the generation in which it is bound. -/
structure SourceRxMeta where
  socketID : Nat := 0
  generation : Nat := 0
deriving DecidableEq, Repr

def SourceRxMeta.isPrimary (m : SourceRxMeta) : Bool := m.socketID = 0

def primarySourceRxMeta : SourceRxMeta := {}

/-- `sourcePathProbeTx`, with `time` for its `at`. -/
structure ProbeTx where
  txid : TxID
  dst : EpAddr := {}
  dstDisco : PublicKey := 0
  source : SourceRxMeta
  time : MonoTime
  size : Int := 0
deriving DecidableEq, Repr

/-- `sourcePathProbeSample`. -/
structure ProbeSample where
  txid : TxID
  dst : EpAddr
  pongFrom : EpAddr
  pongSrc : AddrPort
  source : SourceRxMeta
  latency : Duration
  time : MonoTime
deriving DecidableEq, Repr

/-- `sourcePathProbeOutcome`. -/
structure ProbeOutcome where
  dst : EpAddr
  source : SourceRxMeta
  time : MonoTime
  lost : Bool
deriving DecidableEq, Repr

/-- `sourcePathActiveBackupState`. -/
structure ActiveBackupState where
  sendFailStreak : Int := 0
  failoverAt : MonoTime := 0
  holdUntil : MonoTime := 0
  source : SourceRxMeta := {}
deriving DecidableEq, Repr

/-- `sourcePathDualSendKey`. -/
structure DualSendKey where
  dst : EpAddr
  source : SourceRxMeta
deriving DecidableEq, Repr

/-- `sourcePathFlowKey`. -/
structure FlowKey where
  dst : EpAddr
  id : UInt64
deriving DecidableEq, Repr

/-- `sourcePathFlowState`. -/
structure FlowState where
  source : SourceRxMeta
  lastActivity : MonoTime
deriving DecidableEq, Repr

/-- `sourcePathProbeManager`. -/
structure ProbeManager where
  pending : GoMap TxID ProbeTx := ∅
  samples : List ProbeSample := []
  outcomes : List ProbeOutcome := []
  activeBackup : GoMap EpAddr ActiveBackupState := ∅
  dualSendAuxFailStreak : GoMap DualSendKey Int := ∅
  dualSendAuxProbeLoss : GoMap DualSendKey Int := ∅
  dualSendDemotedAuxTill : GoMap DualSendKey MonoTime := ∅
  flowMap : GoMap FlowKey FlowState := ∅
  flowRR : GoMap EpAddr UInt64 := ∅

/-- The values the manager's methods look up. -/
structure Config where
  /-- `pingTimeoutDuration`. -/
  pingTimeout : Duration := 5 * second
  /-- `sourcePathSampleTTLValue()`. -/
  sampleTTL : Duration := 60 * second
  /-- `sourcePathLossWindowValue()`. -/
  lossWindow : Duration := 30 * second
  /-- `sourcePathProbeSampleLimitCount()`; not positive means no limit. -/
  sampleLimit : Int := 100000
  /-- `sourcePathProbeOutcomeLimitCount()`; not positive means no limit. -/
  outcomeLimit : Int := 100000
  /-- `sourcePathFlowIdleValue()`. -/
  flowIdle : Duration := 30 * second
  /-- `sourcePathFlowMaxEntriesValue()`. -/
  flowMaxEntries : Int := 100000
  /-- `sourcePathDualSendAuxProbeDropStreakValue()`. -/
  auxProbeDropStreak : Int := 2

def sourcePathProbeMaxBurst : Int := 8

/-- `sourcePathProbeAddResult`. -/
inductive ProbeAddResult where
  | added | peerBudgetExceeded | burstBudgetExceeded | hardCapExceeded
deriving DecidableEq, Repr

/-- The parts of a `disco.Pong` that are looked at. -/
structure Pong where
  txid : TxID
  src : AddrPort
deriving DecidableEq, Repr

/-- `sourcePathAuxRotation`. -/
structure AuxRotation where
  dst : EpAddr
  source : SourceRxMeta
  reason : String
deriving DecidableEq, Repr

variable (cfg : Config)

namespace ProbeManager

/-! ## Samples and outcomes -/

/-- `pruneExpiredOutcomesLocked`, on the outcomes. -/
def pruneOutcomes (now : MonoTime) (outcomes : List ProbeOutcome) : List ProbeOutcome :=
  outcomes.filter fun o => ¬ now - o.time > cfg.lossWindow

/-- `pruneExpiredSamplesLocked`, on the samples. -/
def pruneSamples (now : MonoTime) (samples : List ProbeSample) : List ProbeSample :=
  samples.filter fun s => ¬ now - s.time > cfg.sampleTTL

/-- `noteOutcomeLocked`, on the outcomes. -/
def noteOutcome (outcomes : List ProbeOutcome) (o : ProbeOutcome) : List ProbeOutcome :=
  evictOldest cfg.outcomeLimit (pruneOutcomes cfg o.time (outcomes ++ [o]))

variable (pm : ProbeManager)

variable (dst : EpAddr)

def noteOutcomeLocked (source : SourceRxMeta) (time : MonoTime) (lost : Bool) : ProbeManager :=
  { pm with outcomes := noteOutcome cfg pm.outcomes ⟨dst, source, time, lost⟩ }

variable (now : MonoTime)

/-- `pruneExpiredOutcomesLocked`, which `lossRatioLocked` calls. -/
def pruneExpiredOutcomesLocked : ProbeManager :=
  { pm with outcomes := pruneOutcomes cfg now pm.outcomes }

def pruneExpiredSamplesLocked : ProbeManager :=
  { pm with samples := pruneSamples cfg now pm.samples }

/-! ## Probes -/

def timedOut (tx : ProbeTx) : Bool := now - tx.time ≥ cfg.pingTimeout

/-- `pruneExpiredLocked`: the loop deletes each probe that has timed out and
records it as lost, in the order of the map. -/
def pruneExpiredLocked : ProbeManager × List ProbeTx :=
  let expired := pm.pending.values.filter (timedOut cfg now)
  let kept := { pm with pending := pm.pending.deleteWhere fun _ tx => timedOut cfg now tx }
  (expired.foldl (fun pm tx => noteOutcomeLocked cfg pm tx.dst tx.source now true) kept, expired)

def addWithBudgetLocked (tx : ProbeTx) (maxPeers maxBurst hardCap : Int) :
    ProbeManager × ProbeAddResult :=
  let pm := (pruneExpiredLocked cfg pm tx.time).1
  let maxBurst := if maxBurst ≤ 0 then sourcePathProbeMaxBurst else maxBurst
  if hardCap > 0 ∧ pm.pending.size ≥ hardCap then (pm, .hardCapExceeded)
  else
    let peers := pm.pending.values.map ProbeTx.dstDisco
    let peerPending := peers.count tx.dstDisco
    let peerCount := peers.dedup.length
    if maxPeers > 0 ∧ tx.dstDisco ∉ peers ∧ peerCount ≥ maxPeers then (pm, .peerBudgetExceeded)
    else if peerPending ≥ maxBurst then (pm, .burstBudgetExceeded)
    else ({ pm with pending := pm.pending.insert tx.txid tx }, .added)

def forgetLocked (txid : TxID) : ProbeManager :=
  { pm with pending := pm.pending.erase txid }

def clearLocked (_pm : ProbeManager) : ProbeManager := {}

/-- `handlePongLocked`; `now` is what it reads from the clock. -/
def handlePongLocked (pong : Pong) (sender : PublicKey) (src : EpAddr)
    (rxMeta : SourceRxMeta) (now : MonoTime) : ProbeManager × Bool :=
  if rxMeta.isPrimary then (pm, false)
  else
    match pm.pending.lookup pong.txid with
    | none => (pm, false)
    | some tx =>
      if timedOut cfg now tx then
        let pm := { pm with pending := pm.pending.erase pong.txid }
        (noteOutcomeLocked cfg pm tx.dst tx.source now true, true)
      else if tx.source ≠ rxMeta ∨ tx.dstDisco ≠ sender then (pm, false)
      else
        let pm := { pm with pending := pm.pending.erase pong.txid }
        let pm := noteOutcomeLocked cfg pm tx.dst tx.source now false
        let pm := { pm with
          dualSendAuxProbeLoss := pm.dualSendAuxProbeLoss.erase ⟨tx.dst, tx.source⟩ }
        let pm := pruneExpiredSamplesLocked cfg pm now
        let sample : ProbeSample :=
          { txid := pong.txid, dst := tx.dst, pongFrom := src, pongSrc := pong.src,
            source := rxMeta, latency := now - tx.time, time := now }
        ({ pm with samples := evictOldest cfg.sampleLimit (pm.samples ++ [sample]) }, true)

/-- `invalidateLocked`; the second part counts what was dropped. -/
def invalidateLocked (source : SourceRxMeta) : ProbeManager × Nat :=
  ({ pm with samples := pm.samples.filter fun s => ¬ (s.dst = dst ∧ s.source = source) },
    (pm.samples.filter fun s => s.dst = dst ∧ s.source = source).length)

/-- `dropSourceLocked`; the second part counts the dropped samples, outcomes,
probes and flows. -/
def dropSourceLocked (source : SourceRxMeta) : ProbeManager × (Nat × Nat × Nat × Nat) :=
  if source.isPrimary then (pm, 0, 0, 0, 0)
  else
    let pm' := { pm with
      samples := pm.samples.filter (·.source ≠ source)
      outcomes := pm.outcomes.filter (·.source ≠ source)
      pending := pm.pending.deleteWhere fun _ tx => tx.source = source
      flowMap := pm.flowMap.deleteWhere fun _ st => st.source = source
      dualSendAuxFailStreak := pm.dualSendAuxFailStreak.deleteWhere fun key _ => key.source = source
      dualSendAuxProbeLoss := pm.dualSendAuxProbeLoss.deleteWhere fun key _ => key.source = source
      dualSendDemotedAuxTill :=
        pm.dualSendDemotedAuxTill.deleteWhere fun key _ => key.source = source }
    (pm', pm.samples.length - pm'.samples.length, pm.outcomes.length - pm'.outcomes.length,
      pm.pending.size - pm'.pending.size, pm.flowMap.size - pm'.flowMap.size)

/-! ## Flows -/

def pruneExpiredFlowsLocked : ProbeManager :=
  if cfg.flowIdle ≤ 0 then pm
  else
    { pm with flowMap := pm.flowMap.deleteWhere fun _ st => now - st.lastActivity > cfg.flowIdle }

/-- The flow `evictOldestFlowLocked` picks: the first with the least activity time. -/
def oldestFlow : Option (FlowKey × MonoTime) :=
  pm.flowMap.entries.foldl
    (fun oldest e =>
      match oldest with
      | none => some (e.1, e.2.lastActivity)
      | some (key, time) =>
        if e.2.lastActivity - time < 0 then some (e.1, e.2.lastActivity) else some (key, time))
    none

def evictOldestFlowLocked : ProbeManager :=
  match pm.oldestFlow with
  | none => pm
  | some (key, _) => { pm with flowMap := pm.flowMap.erase key }

/-- `assignFlowLocked`.  The loop evicts until there is room for one more. -/
def assignFlowLocked (key : FlowKey) (source : SourceRxMeta) (now : MonoTime) : ProbeManager :=
  let pm := pruneExpiredFlowsLocked cfg pm now
  let pm :=
    if cfg.flowMaxEntries > 0 then
      evictOldestFlowLocked^[pm.flowMap.size + 1 - cfg.flowMaxEntries.toNat] pm
    else pm
  { pm with flowMap := pm.flowMap.insert key ⟨source, now⟩ }

def lookupFlowLocked (key : FlowKey) (now : MonoTime) : ProbeManager × Option FlowState :=
  let pm := pruneExpiredFlowsLocked cfg pm now
  match pm.flowMap.lookup key with
  | none => (pm, none)
  | some st =>
    let st := { st with lastActivity := now }
    ({ pm with flowMap := pm.flowMap.insert key st }, some st)

def forgetFlowLocked (key : FlowKey) (source : SourceRxMeta) : ProbeManager :=
  match pm.flowMap.lookup key with
  | some st => if st.source = source then { pm with flowMap := pm.flowMap.erase key } else pm
  | none => pm

/-- `dropFlowsLocked`; the second part counts what was dropped. -/
def dropFlowsLocked (source : SourceRxMeta) : ProbeManager × Nat :=
  let pm' := { pm with
    flowMap := pm.flowMap.deleteWhere fun key st => key.dst = dst ∧ st.source = source }
  (pm', pm.flowMap.size - pm'.flowMap.size)

def nextFlowRRLocked : ProbeManager × UInt64 :=
  let v := (pm.flowRR.lookup dst).getD 0
  ({ pm with flowRR := pm.flowRR.insert dst (v + 1) }, v)

/-! ## Dual-send bookkeeping -/

def dualSendDemotedLocked (key : DualSendKey) (now : MonoTime) : ProbeManager × Bool :=
  match pm.dualSendDemotedAuxTill.lookup key with
  | none => (pm, false)
  | some till =>
    if ¬ now < till then
      ({ pm with dualSendDemotedAuxTill := pm.dualSendDemotedAuxTill.erase key }, false)
    else (pm, true)

def hasRecentSampleLocked (source : SourceRxMeta) (now : MonoTime) : Bool :=
  pm.samples.any fun s => s.dst = dst ∧ s.source = source ∧ now - s.time ≤ cfg.sampleTTL

/-- The loop body of `noteProbeExpirationsLocked`. -/
def noteProbeExpiration (st : ProbeManager × List AuxRotation) (tx : ProbeTx) :
    ProbeManager × List AuxRotation :=
  let (pm, rotations) := st
  if tx.source.isPrimary ∨ ¬ hasRecentSampleLocked cfg pm tx.dst tx.source now then st
  else
    let key : DualSendKey := ⟨tx.dst, tx.source⟩
    let streak := (pm.dualSendAuxProbeLoss.lookup key).getD 0 + 1
    let pm' := { pm with dualSendAuxProbeLoss := pm.dualSendAuxProbeLoss.insert key streak }
    if streak < cfg.auxProbeDropStreak then (pm', rotations)
    else
      let pm' := { pm' with dualSendAuxProbeLoss := pm'.dualSendAuxProbeLoss.erase key }
      if tx.source ∈ rotations.map AuxRotation.source then (pm', rotations)
      else (pm', rotations ++ [⟨tx.dst, tx.source, "source-path-probe-timeout"⟩])

def noteProbeExpirationsLocked (expired : List ProbeTx) (now : MonoTime) :
    ProbeManager × List AuxRotation :=
  if cfg.auxProbeDropStreak ≤ 0 then (pm, [])
  else expired.foldl (noteProbeExpiration cfg now) (pm, [])

end ProbeManager

/-! ## Operations and steps -/

/-- The operations on a manager: its methods that change it. -/
inductive Op where
  | addWithBudget (tx : ProbeTx) (maxPeers maxBurst hardCap : Int)
  | pruneExpired (now : MonoTime)
  | handlePong (pong : Pong) (sender : PublicKey) (src : EpAddr) (rxMeta : SourceRxMeta)
      (now : MonoTime)
  | forget (txid : TxID)
  | dropSource (source : SourceRxMeta)
  | invalidate (dst : EpAddr) (source : SourceRxMeta)
  | clear
  | lossRatio (now : MonoTime)
  | noteProbeExpirations (expired : List ProbeTx) (now : MonoTime)
  | dualSendDemoted (key : DualSendKey) (now : MonoTime)
  | assignFlow (key : FlowKey) (source : SourceRxMeta) (now : MonoTime)
  | lookupFlow (key : FlowKey) (now : MonoTime)
  | forgetFlow (key : FlowKey) (source : SourceRxMeta)
  | dropFlows (dst : EpAddr) (source : SourceRxMeta)
  | nextFlowRR (dst : EpAddr)

/-- The effect of an operation on the manager. -/
def Op.run (pm : ProbeManager) : Op → ProbeManager
  | addWithBudget tx maxPeers maxBurst hardCap =>
    (pm.addWithBudgetLocked cfg tx maxPeers maxBurst hardCap).1
  | pruneExpired now => (pm.pruneExpiredLocked cfg now).1
  | handlePong pong sender src rxMeta now => (pm.handlePongLocked cfg pong sender src rxMeta now).1
  | forget txid => pm.forgetLocked txid
  | dropSource source => (pm.dropSourceLocked source).1
  | invalidate dst source => (pm.invalidateLocked dst source).1
  | clear => pm.clearLocked
  | lossRatio now => pm.pruneExpiredOutcomesLocked cfg now
  | noteProbeExpirations expired now => (pm.noteProbeExpirationsLocked cfg expired now).1
  | dualSendDemoted key now => (pm.dualSendDemotedLocked key now).1
  | assignFlow key source now => pm.assignFlowLocked cfg key source now
  | lookupFlow key now => (pm.lookupFlowLocked cfg key now).1
  | forgetFlow key source => pm.forgetFlowLocked key source
  | dropFlows dst source => (pm.dropFlowsLocked dst source).1
  | nextFlowRR dst => (pm.nextFlowRRLocked dst).1

/-- The same manager, with the probes and flows in another iteration order. -/
structure ProbeManager.Reorder (pm pm' : ProbeManager) : Prop where
  pending : pm'.pending.entries.Perm pm.pending.entries
  flowMap : pm'.flowMap.entries.Perm pm.flowMap.entries
  rest : pm' = { pm with pending := pm'.pending, flowMap := pm'.flowMap }

theorem ProbeManager.Reorder.refl (pm : ProbeManager) : pm.Reorder pm :=
  ⟨List.Perm.refl _, List.Perm.refl _, rfl⟩

theorem ProbeManager.Reorder.samples_eq {pm pm' : ProbeManager} (h : pm.Reorder pm') :
    pm'.samples = pm.samples := by
  rw [h.rest]

theorem ProbeManager.Reorder.outcomes_eq {pm pm' : ProbeManager} (h : pm.Reorder pm') :
    pm'.outcomes = pm.outcomes := by
  rw [h.rest]

/-- An operation on a manager whose maps are ranged over in any order. -/
def Step (pm : ProbeManager) (op : Op) (pm' : ProbeManager) : Prop :=
  ∃ pm₁, pm.Reorder pm₁ ∧ pm' = op.run cfg pm₁

/-! ## What the operations do -/

namespace ProbeManager

variable {cfg} {pm : ProbeManager}

/-- Outcomes are only ever recorded at the end. -/
theorem foldl_noteOutcome_sublist (os outcomes : List ProbeOutcome) :
    (os.foldl (noteOutcome cfg) outcomes).Sublist (outcomes ++ os) := by
  induction os generalizing outcomes with
  | nil => simp
  | cons o os ih =>
    have hone : (noteOutcome cfg outcomes o).Sublist (outcomes ++ [o]) :=
      (evictOldest_suffix _ _).sublist.trans filter_sublist
    have happend : outcomes ++ o :: os = (outcomes ++ [o]) ++ os := by simp
    rw [happend]
    exact (ih _).trans (hone.append (.refl _))

/-- The outcome of a probe that is given up at `now`. -/
def lostAt (now : MonoTime) (tx : ProbeTx) : ProbeOutcome := ⟨tx.dst, tx.source, now, true⟩

/-- The probes that have timed out, in the order of the map. -/
def expired (cfg : Config) (pm : ProbeManager) (now : MonoTime) : List ProbeTx :=
  pm.pending.values.filter (timedOut cfg now)

variable (now : MonoTime)

theorem foldl_noteOutcomeLocked (txs : List ProbeTx) (pm : ProbeManager) :
    txs.foldl (fun pm tx => noteOutcomeLocked cfg pm tx.dst tx.source now true) pm =
      { pm with outcomes := (txs.map (lostAt now)).foldl (noteOutcome cfg) pm.outcomes } := by
  induction txs generalizing pm with
  | nil => rfl
  | cons tx txs ih =>
    rw [foldl_cons, ih]
    rfl

/-- `pruneExpiredLocked` moves the timed out probes to the outcomes. -/
theorem pruneExpiredLocked_fst : (pm.pruneExpiredLocked cfg now).1 =
      { pm with
        pending := pm.pending.deleteWhere fun _ tx => timedOut cfg now tx
        outcomes := ((pm.expired cfg now).map (lostAt now)).foldl (noteOutcome cfg) pm.outcomes } :=
  foldl_noteOutcomeLocked now _ _

/-- When a probe is admitted: under the hard cap, to a known peer or under the
peer cap, and under the burst cap. -/
structure Admits (pm : ProbeManager) (tx : ProbeTx) (maxPeers maxBurst hardCap : Int) : Prop where
  hardCap : hardCap > 0 → pm.pending.size < hardCap
  peers : maxPeers > 0 → tx.dstDisco ∈ pm.pending.values.map ProbeTx.dstDisco ∨
    (pm.pending.values.map ProbeTx.dstDisco).dedup.length < maxPeers
  burst : (pm.pending.values.map ProbeTx.dstDisco).count tx.dstDisco <
    if maxBurst ≤ 0 then sourcePathProbeMaxBurst else maxBurst

/-- `addWithBudgetLocked` prunes, and then admits the probe or rejects it and
does nothing else. -/
theorem addWithBudgetLocked_cases (cfg : Config) (pm : ProbeManager) (tx : ProbeTx)
    (maxPeers maxBurst hardCap : Int) :
    ((pm.addWithBudgetLocked cfg tx maxPeers maxBurst hardCap).2 ≠ .added ∧
        (pm.addWithBudgetLocked cfg tx maxPeers maxBurst hardCap).1 =
          (pm.pruneExpiredLocked cfg tx.time).1) ∨
      (Admits (pm.pruneExpiredLocked cfg tx.time).1 tx maxPeers maxBurst hardCap ∧
        (pm.addWithBudgetLocked cfg tx maxPeers maxBurst hardCap) =
          ({ (pm.pruneExpiredLocked cfg tx.time).1 with
              pending := (pm.pruneExpiredLocked cfg tx.time).1.pending.insert tx.txid tx },
            .added)) := by
  unfold addWithBudgetLocked
  dsimp only
  generalize hb : (if maxBurst ≤ 0 then sourcePathProbeMaxBurst else maxBurst) = burst
  split
  · exact .inl ⟨by simp, rfl⟩
  next hcap =>
    split
    · exact .inl ⟨by simp, rfl⟩
    next hpeers =>
      split
      · exact .inl ⟨by simp, rfl⟩
      next hburst =>
        refine .inr ⟨⟨fun h => ?_, fun h => ?_, hb ▸ not_le.1 hburst⟩, rfl⟩
        · exact not_le.1 fun hle => hcap ⟨h, hle⟩
        · by_contra hno
          rw [not_or, not_lt] at hno
          exact hpeers ⟨h, hno.1, hno.2⟩

/-- The sample of an answered probe. -/
def sampleOf (tx : ProbeTx) (pong : Pong) (src : EpAddr) (rxMeta : SourceRxMeta)
    (now : MonoTime) : ProbeSample :=
  { txid := pong.txid, dst := tx.dst, pongFrom := src, pongSrc := pong.src, source := rxMeta,
    latency := now - tx.time, time := now }

/-- What a pong does: nothing, give up a probe that it answers too late, or answer
a probe. -/
inductive PongVerdict where
  | ignored
  | late (tx : ProbeTx)
  | answered (tx : ProbeTx)

/-- The verdict of `handlePongLocked`. -/
def pongVerdict (cfg : Config) (pm : ProbeManager) (pong : Pong) (sender : PublicKey)
    (rxMeta : SourceRxMeta) (now : MonoTime) : PongVerdict :=
  match pm.pending.lookup pong.txid with
  | none => .ignored
  | some tx =>
    if rxMeta.isPrimary then .ignored
    else if timedOut cfg now tx then .late tx
    else if tx.source ≠ rxMeta ∨ tx.dstDisco ≠ sender then .ignored
    else .answered tx

theorem handlePongLocked_eq (pong : Pong) (sender : PublicKey) (src : EpAddr)
    (rxMeta : SourceRxMeta) (now : MonoTime) :
    (pm.handlePongLocked cfg pong sender src rxMeta now).1 =
      match pongVerdict cfg pm pong sender rxMeta now with
      | .ignored => pm
      | .late tx =>
        { pm with
          pending := pm.pending.erase pong.txid
          outcomes := noteOutcome cfg pm.outcomes (lostAt now tx) }
      | .answered tx =>
        { pm with
          pending := pm.pending.erase pong.txid
          outcomes := noteOutcome cfg pm.outcomes ⟨tx.dst, tx.source, now, false⟩
          dualSendAuxProbeLoss := pm.dualSendAuxProbeLoss.erase ⟨tx.dst, tx.source⟩
          samples := evictOldest cfg.sampleLimit
            (pruneSamples cfg now pm.samples ++ [sampleOf tx pong src rxMeta now]) } := by
  unfold handlePongLocked pongVerdict
  cases pm.pending.lookup pong.txid with
  | none => split <;> rfl
  | some tx =>
    dsimp only
    by_cases hprim : rxMeta.isPrimary = true
    · rw [if_pos hprim, if_pos hprim]
    rw [if_neg hprim, if_neg hprim]
    by_cases hlate : timedOut cfg now tx = true
    · rw [if_pos hlate, if_pos hlate]
      rfl
    · rw [if_neg hlate, if_neg hlate]
      by_cases hmatch : tx.source ≠ rxMeta ∨ tx.dstDisco ≠ sender
      · rw [if_pos hmatch, if_pos hmatch]
      · rw [if_neg hmatch, if_neg hmatch]
        rfl

/-- A pong that answers came from the probe's socket and disco key, in time. -/
theorem pongVerdict_spec (cfg : Config) (pm : ProbeManager) (pong : Pong) (sender : PublicKey)
    (rxMeta : SourceRxMeta) (now : MonoTime) :
    match pongVerdict cfg pm pong sender rxMeta now with
    | .ignored => True
    | .late tx => pm.pending.lookup pong.txid = some tx
    | .answered tx => pm.pending.lookup pong.txid = some tx ∧ rxMeta = tx.source ∧
        sender = tx.dstDisco ∧ now - tx.time < cfg.pingTimeout := by
  unfold pongVerdict
  cases pm.pending.lookup pong.txid with
  | none => trivial
  | some tx =>
    dsimp only
    split_ifs with _ hlate hmatch
    · trivial
    · rfl
    · trivial
    · rw [not_or, not_not, not_not] at hmatch
      exact ⟨rfl, hmatch.1.symm, hmatch.2.symm, by simpa [timedOut] using hlate⟩

/-- An operation that ends no probe and records nothing. -/
structure Quiet (pm pm' : ProbeManager) : Prop where
  pending : pm'.pending.entries.Sublist pm.pending.entries
  samples : pm'.samples.Sublist pm.samples
  outcomes : pm'.outcomes.Sublist pm.outcomes

/-- The tables that no operation on flows or on dual-send bookkeeping touches. -/
structure SameProbes (pm pm' : ProbeManager) : Prop where
  pending : pm'.pending = pm.pending
  samples : pm'.samples = pm.samples
  outcomes : pm'.outcomes = pm.outcomes
  activeBackup : pm'.activeBackup = pm.activeBackup

theorem SameProbes.trans {pm₁ pm₂ pm₃} (h : SameProbes pm₁ pm₂)
    (h' : SameProbes pm₂ pm₃) : SameProbes pm₁ pm₃ where
  pending := h'.pending.trans h.pending
  samples := h'.samples.trans h.samples
  outcomes := h'.outcomes.trans h.outcomes
  activeBackup := h'.activeBackup.trans h.activeBackup

theorem sameProbes_evict (pm : ProbeManager) (n : Nat) :
    SameProbes pm (evictOldestFlowLocked^[n] pm) := by
  induction n generalizing pm with
  | zero => exact ⟨rfl, rfl, rfl, rfl⟩
  | succ n ih =>
    have hone : SameProbes pm (evictOldestFlowLocked pm) := by
      unfold evictOldestFlowLocked
      split <;> exact ⟨rfl, rfl, rfl, rfl⟩
    exact hone.trans (ih (evictOldestFlowLocked pm))

theorem sameProbes_pruneFlows : SameProbes pm (pm.pruneExpiredFlowsLocked cfg now) := by
  unfold pruneExpiredFlowsLocked
  split <;> exact ⟨rfl, rfl, rfl, rfl⟩

theorem sameProbes_noteProbeExpiration (st : ProbeManager × List AuxRotation) (tx : ProbeTx) :
    SameProbes st.1 (noteProbeExpiration cfg now st tx).1 := by
  unfold noteProbeExpiration
  dsimp only
  split
  · exact ⟨rfl, rfl, rfl, rfl⟩
  · split
    · exact ⟨rfl, rfl, rfl, rfl⟩
    · split <;> exact ⟨rfl, rfl, rfl, rfl⟩

theorem sameProbes_noteProbeExpirations (txs : List ProbeTx) (now : MonoTime) :
    SameProbes pm (pm.noteProbeExpirationsLocked cfg txs now).1 := by
  have hrun : ∀ st : ProbeManager × List AuxRotation,
      SameProbes st.1 (txs.foldl (noteProbeExpiration cfg now) st).1 := by
    induction txs with
    | nil => exact fun st => ⟨rfl, rfl, rfl, rfl⟩
    | cons tx txs ih => exact fun st => (sameProbes_noteProbeExpiration now st tx).trans (ih _)
  unfold noteProbeExpirationsLocked
  split
  · exact ⟨rfl, rfl, rfl, rfl⟩
  · exact hrun (pm, [])

theorem sameProbes_assignFlow (key : FlowKey) (source : SourceRxMeta) (now : MonoTime) :
    SameProbes pm (pm.assignFlowLocked cfg key source now) := by
  have hp : SameProbes pm (pm.pruneExpiredFlowsLocked cfg now) := sameProbes_pruneFlows now
  unfold assignFlowLocked
  split
  · have he := hp.trans (sameProbes_evict _
      ((pm.pruneExpiredFlowsLocked cfg now).flowMap.size + 1 - cfg.flowMaxEntries.toNat))
    exact { he with }
  · exact { hp with }

theorem sameProbes_lookupFlow (key : FlowKey) (now : MonoTime) :
    SameProbes pm (pm.lookupFlowLocked cfg key now).1 := by
  have hp : SameProbes pm (pm.pruneExpiredFlowsLocked cfg now) := sameProbes_pruneFlows now
  unfold lookupFlowLocked
  dsimp only
  split <;> exact { hp with }

theorem sameProbes_forgetFlow (key : FlowKey) (source : SourceRxMeta) :
    SameProbes pm (pm.forgetFlowLocked key source) := by
  unfold forgetFlowLocked
  split
  · split <;> exact ⟨rfl, rfl, rfl, rfl⟩
  · exact ⟨rfl, rfl, rfl, rfl⟩

theorem sameProbes_dualSendDemoted (key : DualSendKey) (now : MonoTime) :
    SameProbes pm (pm.dualSendDemotedLocked key now).1 := by
  unfold dualSendDemotedLocked
  split
  · exact ⟨rfl, rfl, rfl, rfl⟩
  · split <;> exact ⟨rfl, rfl, rfl, rfl⟩

theorem SameProbes.quiet {pm pm' : ProbeManager} (h : SameProbes pm pm') : Quiet pm pm' :=
  ⟨h.pending ▸ .refl _, h.samples ▸ .refl _,
    h.outcomes ▸ .refl _⟩

end ProbeManager

open ProbeManager

/-- The operations that may end probes or record something. -/
def Op.records : Op → Bool
  | addWithBudget .. | pruneExpired _ | handlePong .. => true
  | _ => false

/-- The operations on flows and on dual-send bookkeeping. -/
def Op.unrelated : Op → Bool
  | noteProbeExpirations .. | dualSendDemoted .. | assignFlow .. | lookupFlow .. | forgetFlow ..
  | dropFlows .. | nextFlowRR _ => true
  | _ => false

theorem Op.sameProbes {op : Op} (h : op.unrelated = true) (pm : ProbeManager) :
    SameProbes pm (op.run cfg pm) := by
  cases op with
  | noteProbeExpirations txs now => exact sameProbes_noteProbeExpirations txs now
  | assignFlow key source now => exact sameProbes_assignFlow key source now
  | lookupFlow key now => exact sameProbes_lookupFlow key now
  | dualSendDemoted key now => exact sameProbes_dualSendDemoted key now
  | forgetFlow key source => exact sameProbes_forgetFlow key source
  | dropFlows dst source | nextFlowRR dst => exact ⟨rfl, rfl, rfl, rfl⟩
  | _ => exact absurd h (by simp [Op.unrelated])

theorem Op.quiet {op : Op} (h : op.records = false) (pm : ProbeManager) :
    Quiet pm (op.run cfg pm) := by
  cases op with
  | addWithBudget | pruneExpired | handlePong => exact absurd h (by simp [Op.records])
  | forget txid =>
    exact ⟨kerase_sublist _ _, .refl _, .refl _⟩
  | dropSource source =>
    simp only [Op.run, dropSourceLocked]
    split
    · exact ⟨.refl _, .refl _, .refl _⟩
    · exact ⟨filter_sublist, filter_sublist, filter_sublist⟩
  | invalidate dst source =>
    exact ⟨.refl _, filter_sublist, .refl _⟩
  | clear => exact ⟨nil_sublist _, nil_sublist _, nil_sublist _⟩
  | lossRatio now => exact ⟨.refl _, .refl _, filter_sublist⟩
  | _ => exact (Op.sameProbes cfg rfl pm).quiet

end Multiport.Magicsock

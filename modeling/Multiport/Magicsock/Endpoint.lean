import Multiport.Magicsock.Knobs

/-!
# The best address of an endpoint

`endpoint` (`wgengine/magicsock/endpoint.go`) is what magicsock knows about one
peer.  This module has the part that picks a path to the peer: `bestAddr` with
its deadlines, the pings that are under way, the history of each candidate
address, and the cycle that probes how long an idle UDP path stays open.  The
endpoint is one that speaks disco, so the branches for WireGuard-only peers are
not here.

A latency or an MTU is a `Measured` value: it says on which path it was measured.
That path is bookkeeping for the theorems.  No function here looks at it, and
erasing it gives the fields of the source.

Everything an operation reads from outside is an argument or in `PathEnv`: the
clocks, the transaction IDs it draws, the settings.  The source looks a setting up
each time; runs are about settings that nobody changes meanwhile.
-/

namespace Multiport.Magicsock

open Lib Net Tailcfg

/-! ## Data -/

/-- A value and the path it was measured on, if it was measured at all. -/
structure Measured (α : Type) where
  val : α
  on : Option EpAddr := none
deriving DecidableEq, Repr

structure AddrQuality where
  epAddr : EpAddr := {}
  relayServerDisco : PublicKey := 0
  latency : Measured Duration := ⟨0, none⟩
  wireMTU : Measured Int := ⟨0, none⟩
deriving DecidableEq, Repr

/-- `discoPingPurpose`. -/
inductive PingPurpose where
  | discovery | heartbeat | cli | heartbeatForUDPLifetime
deriving DecidableEq, Repr

/-- `discoPingResult`. -/
inductive PingResult where
  | unknown | failed | timedOut | pongReceived
deriving DecidableEq, Repr

/-- `sentPing`, without its timer and callback; `sentTo` and `sentAt` are its `to` and `at`. -/
structure SentPing where
  sentTo : EpAddr
  sentAt : MonoTime
  purpose : PingPurpose
  size : Int := 0
deriving DecidableEq, Repr

structure PongReply where
  latency : Measured Duration
  pongAt : MonoTime
  src : AddrPort
  pongSrc : AddrPort
deriving DecidableEq, Repr

/-- `endpointState`: the history of one candidate address. -/
structure EndpointState where
  lastPing : MonoTime := 0
  lastGotPing : Time := 0
  callMeMaybeTime : Time := 0
  recentPongs : List PongReply := []
  recentPong : Nat := 0
  index : Int := 0
deriving DecidableEq, Repr

structure ProbeUDPLifetimeConfig where
  cliffs : List Duration
  cycleCanStartEvery : Duration
deriving DecidableEq, Repr

/-- `probeUDPLifetime`; of the timer only whether it is set. -/
structure ProbeUDPLifetime where
  config : ProbeUDPLifetimeConfig
  timer : Bool := false
  bestAddr : EpAddr := {}
  cycleStartedAt : Time := 0
  cycleActive : Bool := false
  currentCliff : Nat := 0
  lastTxID : TxID := 0
deriving DecidableEq, Repr

/-- An entry of `sourcePathRemoteSlots` with that of `sourcePathRemoteSeen`. -/
structure RemoteSlot where
  addr : EpAddr := {}
  seen : MonoTime := 0
deriving DecidableEq, Repr

/-- `endpoint`, as far as it picks a path. -/
structure Endpoint where
  disco : Option PublicKey := none
  lastRecvUDPAny : MonoTime := 0
  lastSendExt : MonoTime := 0
  lastSendAny : MonoTime := 0
  lastDirectVsRelaySwap : MonoTime := 0
  bestAddr : AddrQuality := {}
  bestAddrAt : MonoTime := 0
  trustBestAddrUntil : MonoTime := 0
  sourcePathRemoteSlots : List RemoteSlot := [{}, {}]
  sentPing : GoMap TxID SentPing := ∅
  endpointState : GoMap AddrPort EndpointState := ∅
  heartbeatDisabled : Bool := false
  probeUDPLifetime : Option ProbeUDPLifetime := none

/-- What an endpoint reads from its surroundings: environment variables and the
connection. -/
structure PathEnv where
  /-- `TS_EXPERIMENTAL_DIRECT_VS_RELAY_COMPARE`. -/
  directVsRelayCompare : Bool := false
  /-- `TS_EXPERIMENTAL_DIRECT_VS_RELAY_HOLD_S`. -/
  directVsRelayHoldS : Int := 0
  /-- `TS_EXPERIMENTAL_DIRECT_VS_RELAY_THRESHOLD_PCT`. -/
  directVsRelayThresholdPct : Int := 0
  /-- The addresses that `omitEndpointAddrPort` reads off its variable. -/
  omitEndpoints : List AddrPort := []
  /-- `Conn.PeerMTUEnabled`. -/
  peerMTUEnabled : Bool := false
  /-- `debugNeverDirectUDP`. -/
  neverDirectUDP : Bool := false
  /-- `Conn.discoAtomic.Public`. -/
  localDisco : PublicKey := 0

/-- The two clocks at an event: the monotonic one, in nanoseconds since the process
started, and the wall clock. -/
structure Moment where
  elapsed : Nat := 0
  wall : Time := 0
deriving DecidableEq, Repr

/-- `mono.Now`: a base offset keeps it from being zero. -/
def Moment.now (m : Moment) : MonoTime := m.elapsed + 2 ^ 55

theorem Moment.now_ne_zero (m : Moment) : m.now ≠ 0 := by
  unfold Moment.now MonoTime
  omega

/-! ## Constants and settings -/

def sessionActiveTimeout : Duration := 45 * second

def trustUDPAddrDuration : Duration := 6500 * millisecond

def wireguardPingInterval : Duration := 5 * second

def heartbeatInterval : Duration := 3 * second

def udpLifetimeProbeCliffSlack : Duration := 2 * second

def udpLifetimeProbeSchedulingTolerance : Duration := udpLifetimeProbeCliffSlack / 8

def pongHistoryCount : Nat := 64

def indexSentinelDeleted : Int := -1

def directVsRelayHoldDuration : Duration := 5 * 60 * second

def directVsRelayThresholdPercent : Int := 10

namespace PathEnv

variable (env : PathEnv)

def directVsRelayHoldDurationValue : Duration :=
  if env.directVsRelayHoldS ≤ 0 then directVsRelayHoldDuration
  else env.directVsRelayHoldS * second

def directVsRelayThresholdValue : Int :=
  if env.directVsRelayThresholdPct < 0 then 0
  else if env.directVsRelayThresholdPct = 0 then directVsRelayThresholdPercent
  else if env.directVsRelayThresholdPct > 100 then 100
  else env.directVsRelayThresholdPct

def omitEndpointAddrPort (ap : AddrPort) : Bool := ap.isValid && env.omitEndpoints.contains ap

end PathEnv

def directBeatsRelayByThreshold (directLat relayLat : Duration) (thresholdPct : Int) : Bool :=
  if directLat ≤ 0 ∨ relayLat ≤ 0 then false
  else if thresholdPct ≤ 0 then false
  else
    let thresholdPct := if thresholdPct > 100 then 100 else thresholdPct
    directLat * 100 < relayLat * (100 - thresholdPct)

def relayBeatsDirectByThreshold (directLat relayLat : Duration) (thresholdPct : Int) : Bool :=
  directBeatsRelayByThreshold relayLat directLat thresholdPct

/-- `tstun.SafeWireMTU`. -/
def safeWireMTU : Int := 1280 + (40 + 8 + 4 + 4 + 8 + 16)

def pingSizeToPktLen (size : Int) (udpAddr : EpAddr) : Int :=
  if size = 0 then safeWireMTU
  else
    let headerLen : Int := if udpAddr.ap.addr.is6 then 40 else 20
    let headerLen := headerLen + 8
    let headerLen := if udpAddr.vni.isSet then headerLen + 8 else headerLen
    size + headerLen

def pktLenToPingSize (mtu : Int) (is6 : Bool) : Int :=
  if mtu = 0 then 0
  else
    let headerLen : Int := (if is6 then 40 else 20) + 8
    if mtu < headerLen then 0 else mtu - headerLen

/-- `tstun.WireMTUsToProbe`. -/
def wireMTUsToProbe : List Int := [1280, safeWireMTU, 1400, 1500, 8000, 9000]

/-! ## Comparing paths -/

/-- The points `betterAddr` gives for the kind of an address. -/
def kindPoints (a : Addr) : Int :=
  (if a.isLoopback then 50 else if a.isLinkLocalUnicast then 30
    else if a.isPrivate then 20 else 0) +
    if a.is6 then 10 else 0

/-- The points `betterAddr` gives for the latencies, to `a` and to `b`. -/
def latencyPoints (a b : Duration) : Int × Int :=
  if a > b ∧ a > 0 then (0, 100 - (b * 100).tdiv a)
  else if b > 0 then (100 - (a * 100).tdiv b, 0)
  else (0, 0)

def betterAddr (env : PathEnv) (a b : AddrQuality) : Bool :=
  if a.epAddr = b.epAddr then a.wireMTU.val > b.wireMTU.val
  else if !b.epAddr.ap.isValid then true
  else if !a.epAddr.ap.isValid then false
  else if !a.epAddr.vni.isSet && b.epAddr.vni.isSet then
    !(env.directVsRelayCompare && relayBeatsDirectByThreshold a.latency.val b.latency.val
      env.directVsRelayThresholdValue)
  else if a.epAddr.vni.isSet && !b.epAddr.vni.isSet then
    env.directVsRelayCompare && relayBeatsDirectByThreshold b.latency.val a.latency.val
      env.directVsRelayThresholdValue
  else
    let points := latencyPoints a.latency.val b.latency.val
    let aPoints := points.1 + kindPoints a.epAddr.ap.addr
    let bPoints := points.2 + kindPoints b.epAddr.ap.addr
    if aPoints ≤ 1 ∧ bPoints = 0 then false else aPoints > bPoints

/-! ## The history of a candidate address -/

namespace EndpointState

variable (st : EndpointState)

def clear : EndpointState :=
  { index := st.index, lastGotPing := st.lastGotPing }

def shouldDeleteLocked (wall : Time) : Bool :=
  if st.callMeMaybeTime ≠ 0 then false
  else if st.lastGotPing = 0 then st.index = indexSentinelDeleted
  else wall - st.lastGotPing > sessionActiveTimeout

/-- The latency of the most recent pong, if there was one. -/
def latencyLocked : Option (Measured Duration) :=
  st.recentPongs[st.recentPong]?.map PongReply.latency

def addPongReplyLocked (r : PongReply) : EndpointState :=
  if st.recentPongs.length < pongHistoryCount then
    { st with recentPong := st.recentPongs.length, recentPongs := st.recentPongs ++ [r] }
  else
    let i := if st.recentPong + 1 = pongHistoryCount then 0 else st.recentPong + 1
    { st with recentPongs := st.recentPongs.set i r, recentPong := i }

end EndpointState

/-! ## The lifetime cycle -/

def ProbeUDPLifetimeConfig.valid (c : ProbeUDPLifetimeConfig) : Bool :=
  c.cliffs.length ≥ 1 && c.cycleCanStartEvery ≥ 1 &&
    c.cliffs.all (· > max (udpLifetimeProbeCliffSlack * 2) heartbeatInterval) &&
    (c.cliffs.zip c.cliffs.tail).all fun p => p.1 < p.2

def defaultProbeUDPLifetimeConfig : ProbeUDPLifetimeConfig where
  cliffs := [10 * second, 30 * second, 60 * second]
  cycleCanStartEvery := 24 * 60 * 60 * second

namespace ProbeUDPLifetime

def currentCliffDuration (p : ProbeUDPLifetime) : Duration := p.config.cliffs.getD p.currentCliff 0

def resetCycle (p : ProbeUDPLifetime) : ProbeUDPLifetime :=
  { p with timer := false, cycleActive := false, currentCliff := 0, bestAddr := {} }

end ProbeUDPLifetime

namespace Endpoint

variable (de : Endpoint)

/-- `de.probeUDPLifetime.resetCycleEndpointLocked()`, which a nil receiver survives. -/
def resetCycleEndpointLocked : Endpoint :=
  { de with probeUDPLifetime := de.probeUDPLifetime.map ProbeUDPLifetime.resetCycle }

def setProbeUDPLifetimeConfigLocked (desired : Option ProbeUDPLifetimeConfig) : Endpoint :=
  match desired with
  | none => { de with probeUDPLifetime := none }
  | some config =>
    if !config.valid then de
    else match de.probeUDPLifetime with
      | none => { de with probeUDPLifetime := some { config } }
      | some p =>
        if p.config = config then de
        else { de with probeUDPLifetime := some { p.resetCycle with config } }

variable (env : PathEnv)

/-- How long the path has to be idle before the current cliff is probed, if it may be
probed at all. -/
def maybeProbeUDPLifetimeLocked (de : Endpoint) (m : Moment) : Option Duration :=
  match de.probeUDPLifetime, de.disco with
  | some p, some disco =>
    if !de.bestAddr.epAddr.ap.isValid then none
    -- The node with the lower disco key probes the other.
    else if env.localDisco ≥ disco then none
    else if !p.cycleActive && m.wall - p.cycleStartedAt < p.config.cycleCanStartEvery then none
    else
      let afterInactivityFor := p.currentCliffDuration - udpLifetimeProbeCliffSlack
      if afterInactivityFor < 0 then none else some afterInactivityFor
  | _, _ => none

def scheduleHeartbeatForLifetimeLocked : Endpoint :=
  { de with
    probeUDPLifetime := de.probeUDPLifetime.map fun p =>
      { p with bestAddr := de.bestAddr.epAddr, timer := true } }

def probeUDPLifetimeCliffDoneLocked (de : Endpoint) (result : PingResult)
    (txid : TxID) (m : Moment) : Endpoint :=
  match de.probeUDPLifetime with
  | none => de
  | some p =>
    if !p.cycleActive || p.timer || txid ≠ p.lastTxID then de
    else if result ≠ .pongReceived ∨ p.currentCliff + 1 ≥ p.config.cliffs.length then
      de.resetCycleEndpointLocked
    else
      let de := { de with probeUDPLifetime := some { p with currentCliff := p.currentCliff + 1 } }
      if (de.maybeProbeUDPLifetimeLocked env m).isSome then de.scheduleHeartbeatForLifetimeLocked
      else de

/-! ## Installing a path -/

def setBestAddrLocked (v : AddrQuality) : Endpoint :=
  { (if v.epAddr ≠ de.bestAddr.epAddr then de.resetCycleEndpointLocked else de) with bestAddr := v }

def clearBestAddrLocked : Endpoint :=
  { de.setBestAddrLocked {} with
    bestAddrAt := 0
    trustBestAddrUntil := 0
    lastDirectVsRelaySwap := 0 }

def deleteEndpointLocked (ep : AddrPort) : Endpoint :=
  let asEpAddr : EpAddr := { ap := ep }
  let de :=
    { de with
      endpointState := de.endpointState.erase ep
      sourcePathRemoteSlots :=
        de.sourcePathRemoteSlots.map fun slot => if slot.addr = asEpAddr then {} else slot }
  if de.bestAddr.epAddr = asEpAddr then de.setBestAddrLocked {} else de

def wouldAllowDirectVsRelaySwapLocked (de : Endpoint) (cur maybe : AddrQuality)
    (now : MonoTime) : Bool :=
  if !env.directVsRelayCompare then true
  else if !cur.epAddr.ap.isValid then true
  else if cur.epAddr.vni.isSet = maybe.epAddr.vni.isSet then true
  else if de.lastDirectVsRelaySwap = 0 then true
  else now - de.lastDirectVsRelaySwap ≥ env.directVsRelayHoldDurationValue

def noteDirectVsRelaySwapLocked (de : Endpoint) (prev nowAddr : AddrQuality)
    (now : MonoTime) : Endpoint :=
  if !env.directVsRelayCompare then de
  else if !prev.epAddr.ap.isValid then de
  else if prev.epAddr.vni.isSet ≠ nowAddr.epAddr.vni.isSet then
    { de with lastDirectVsRelaySwap := now }
  else de

/-- `setBestAddrLocked` and `noteDirectVsRelaySwapLocked`, as both handlers call them. -/
def installLocked (de : Endpoint) (v : AddrQuality) (now : MonoTime) : Endpoint :=
  (de.setBestAddrLocked v).noteDirectVsRelaySwapLocked env de.bestAddr v now

/-- The test of `udpRelayEndpointReady` for a path it must install. -/
def bypassHysteresis (maybeBest : AddrQuality) (now : MonoTime) : Bool :=
  let curBestAddrTrusted := decide (now < de.trustBestAddrUntil)
  let sameRelayServer := de.bestAddr.epAddr.vni.isSet &&
    maybeBest.relayServerDisco = de.bestAddr.relayServerDisco
  !curBestAddrTrusted || sameRelayServer

def udpRelayEndpointReady (de : Endpoint) (maybeBest : AddrQuality) (now : MonoTime) : Endpoint :=
  let bypassHysteresis := de.bypassHysteresis maybeBest now
  if bypassHysteresis || betterAddr env maybeBest de.bestAddr then
    if !bypassHysteresis &&
        !de.wouldAllowDirectVsRelaySwapLocked env de.bestAddr maybeBest now then de
    else
      { de.installLocked env maybeBest now with trustBestAddrUntil := now + trustUDPAddrDuration }
  else de

/-! ## Pings and pongs -/

/-- The sizes of the pings that `startDiscoPingLocked` sends. -/
def pingSizes (ep : EpAddr) (purpose : PingPurpose) (size : Int) : List Int :=
  if env.peerMTUEnabled && ep.ap.addr ≠ derpMagicIPAddr &&
      (purpose = .discovery || (purpose = .cli && size = 0)) then
    wireMTUsToProbe.map (pktLenToPingSize · ep.ap.addr.is6)
  else [size]

/-- Record one ping that is being sent. -/
def recordPing (ep : EpAddr) (purpose : PingPurpose) (now : MonoTime) (txid : TxID)
    (size : Int) : Endpoint :=
  { de with
    sentPing := de.sentPing.insert txid { sentTo := ep, sentAt := now, purpose, size }
    probeUDPLifetime :=
      if purpose = .heartbeatForUDPLifetime then
        de.probeUDPLifetime.map fun p => { p with lastTxID := txid }
      else de.probeUDPLifetime }

/-- `startDiscoPingLocked`, with the transaction IDs it draws. -/
def startDiscoPingLocked (ep : EpAddr) (now : MonoTime)
    (purpose : PingPurpose) (size : Int) (txids : List TxID) : Endpoint :=
  if env.neverDirectUDP && !ep.vni.isSet && ep.ap.addr ≠ derpMagicIPAddr then de
  else if de.disco.isNone then de
  else if purpose ≠ .cli ∧ !ep.vni.isSet ∧ (de.endpointState.lookup ep.ap).isNone then de
  else
    let de :=
      if purpose ≠ .cli ∧ !ep.vni.isSet then
        { de with endpointState := de.endpointState.modify ep.ap ({ · with lastPing := now }) }
      else de
    let de := if purpose = .cli then { de with lastSendExt := now } else de
    let de := { de with lastSendAny := now }
    (txids.zip (pingSizes env ep purpose size)).foldl
      (fun de p => de.recordPing ep purpose now p.1 p.2) de

def removeSentDiscoPingLocked (txid : TxID) (sp : SentPing)
    (result : PingResult) (m : Moment) : Endpoint :=
  let de :=
    if sp.purpose = .heartbeatForUDPLifetime then
      de.probeUDPLifetimeCliffDoneLocked env result txid m
    else de
  { de with sentPing := de.sentPing.erase txid }

def discoPingTimeout (txid : TxID) (m : Moment) : Endpoint :=
  match de.sentPing.lookup txid with
  | none => de
  | some sp =>
    let bestUntrusted := m.now > de.trustBestAddrUntil
    let de := if sp.sentTo = de.bestAddr.epAddr ∧ bestUntrusted then de.clearBestAddrLocked else de
    de.removeSentDiscoPingLocked env txid sp .timedOut m

def forgetDiscoPing (txid : TxID) (m : Moment) : Endpoint :=
  match de.sentPing.lookup txid with
  | none => de
  | some sp => de.removeSentDiscoPingLocked env txid sp .failed m

/-- The quality of a path by the pong to a ping. -/
def pongQuality (sp : SentPing) (now : MonoTime) : AddrQuality where
  epAddr := sp.sentTo
  latency := ⟨now - sp.sentAt, some sp.sentTo⟩
  wireMTU := ⟨pingSizeToPktLen sp.size sp.sentTo, some sp.sentTo⟩

/-- `handlePongConnLocked`, where it makes the path the best one if it is better. -/
def installPongLocked (thisPong : AddrQuality) (now : MonoTime) : Endpoint :=
  let bestUntrusted := decide (now > de.trustBestAddrUntil)
  if betterAddr env thisPong de.bestAddr || bestUntrusted then
    if !bestUntrusted && !de.wouldAllowDirectVsRelaySwapLocked env de.bestAddr thisPong now then de
    else de.installLocked env thisPong now
  else de

/-- The end of `handlePongConnLocked`: the path becomes the best one, or is it already and
proves alive. -/
def promotePongLocked (sp : SentPing) (now : MonoTime) : Endpoint :=
  let thisPong := pongQuality sp now
  let de := de.installPongLocked env thisPong now
  if de.bestAddr.epAddr = thisPong.epAddr then
    { de with
      bestAddr := { de.bestAddr with latency := thisPong.latency }
      bestAddrAt := now
      trustBestAddrUntil := now + trustUDPAddrDuration }
  else de

/-- Record a pong from `src` in the history of the address that was pinged. -/
def recordPong (sp : SentPing) (src pongSrc : AddrPort) (now : MonoTime) : Endpoint :=
  { de with
    endpointState := de.endpointState.modify sp.sentTo.ap fun st =>
      st.addPongReplyLocked
        { latency := ⟨now - sp.sentAt, some sp.sentTo⟩, pongAt := now, src, pongSrc } }

/-- `handlePongConnLocked`, without what it does to the `Conn`. -/
def handlePongConnLocked (de : Endpoint) (txid : TxID) (pongSrc : AddrPort)
    (src : EpAddr) (m : Moment) : Endpoint × Bool :=
  let isDerp := src.ap.addr = derpMagicIPAddr
  match de.sentPing.lookup txid with
  | none => (de, false)
  | some sp =>
    let de := de.removeSentDiscoPingLocked env txid sp .pongReceived m
    if ¬isDerp ∧ sp.sentTo.isDirect ∧ env.omitEndpointAddrPort sp.sentTo.ap then
      (de.deleteEndpointLocked sp.sentTo.ap, true)
    else if isDerp then (de, true)
    else if src.vni.isSet then (de.promotePongLocked env sp m.now, true)
    else if (de.endpointState.lookup sp.sentTo.ap).isNone then (de, true)
    else ((de.recordPong sp src.ap pongSrc m.now).promotePongLocked env sp m.now, true)

/-! ## Two endpoints at once -/

end Endpoint

structure DualEndpointCandidate where
  addr : EpAddr
  latency : Measured Duration := ⟨0, none⟩
  hasLatency : Bool := false
  lastPing : MonoTime := 0
  isBest : Bool := false
deriving DecidableEq, Repr

def compareDualEndpointCandidate (a b : DualEndpointCandidate) : Int :=
  if a.hasLatency ≠ b.hasLatency then if a.hasLatency then -1 else 1
  else if a.hasLatency ∧ a.latency.val ≠ b.latency.val then
    if a.latency.val < b.latency.val then -1 else 1
  else if a.isBest ≠ b.isBest then if a.isBest then -1 else 1
  else if a.addr.ap.addr.is6 ≠ b.addr.ap.addr.is6 then if a.addr.ap.addr.is6 then -1 else 1
  else if a.addr.ap.string < b.addr.ap.string then -1
  else if a.addr.ap.string > b.addr.ap.string then 1
  else 0

namespace Endpoint

/-- The variables of `sourcePathDirectEndpointCandidatesLocked`. -/
structure Gather where
  seen : List AddrPort := []
  candidates : List DualEndpointCandidate := []
  oldestPing : MonoTime := 0

variable (de : Endpoint)

/-- The closure `add` of `sourcePathDirectEndpointCandidatesLocked`. -/
def addCandidate (m : Moment) (g : Gather) (addr : EpAddr)
    (state : Option EndpointState) : Gather :=
  if !addr.isDirect || g.seen.contains addr.ap then g
  else
    let g := { g with seen := addr.ap :: g.seen }
    let isBest := de.bestAddr.epAddr = addr ∧ ¬m.now > de.trustBestAddrUntil
    match state with
    | none => { g with candidates := g.candidates ++ [{ addr, isBest }] }
    | some st =>
      if st.shouldDeleteLocked m.wall then g
      else
        { g with
          oldestPing :=
            if g.oldestPing = 0 ∨ st.lastPing < g.oldestPing then st.lastPing else g.oldestPing
          candidates := g.candidates ++
            [{ addr, isBest, lastPing := st.lastPing
               latency := st.latencyLocked.getD ⟨0, none⟩
               hasLatency := st.latencyLocked.any (·.val > 0) }] }

/-- Candidates in the order of `slices.SortFunc`; two of them never compare equal, as
their addresses have different texts. -/
def sortCandidates (l : List DualEndpointCandidate) : List DualEndpointCandidate :=
  l.insertionSort fun a b => compareDualEndpointCandidate a b ≤ 0

def sourcePathDirectEndpointCandidatesLocked (m : Moment) : List DualEndpointCandidate × MonoTime :=
  let g := de.endpointState.entries.foldl
    (fun g e => de.addCandidate m g { ap := e.1 } (some e.2)) {}
  let g := de.sourcePathRemoteSlots.foldl
    (fun g slot =>
      if slot.seen = 0 ∨ m.now - slot.seen > sessionActiveTimeout then g
      else de.addCandidate m g slot.addr (de.endpointState.lookup slot.addr.ap))
    g
  (sortCandidates g.candidates, g.oldestPing)

/-- The assignments of `dualEndpointAddrsForSendLocked`. -/
def assignBest (best : DualEndpointCandidate) (now : MonoTime) : Endpoint :=
  { de with
    bestAddr :=
      { de.bestAddr with
        epAddr := best.addr
        latency := if best.hasLatency then best.latency else de.bestAddr.latency }
    trustBestAddrUntil :=
      if now > de.trustBestAddrUntil then now + second else de.trustBestAddrUntil }

/-- `dualEndpointAddrsForSendLocked`: the addresses and whether to ping. -/
def dualEndpointAddrsForSendLocked (m : Moment) : Endpoint × List EpAddr × Bool :=
  let (candidates, oldestPing) := de.sourcePathDirectEndpointCandidatesLocked m
  match sortCandidates candidates with
  | [] => (de, [], false)
  | best :: rest =>
    let needPing := candidates.length > 1 ∧
      (oldestPing = 0 ∨ m.now - oldestPing > wireguardPingInterval)
    (de.assignBest best m.now, ((best :: rest).take 2).map DualEndpointCandidate.addr, needPing)

/-! ## Resets and timers -/

def noteBadEndpoint (udpAddr : EpAddr) : Endpoint :=
  let de := de.clearBestAddrLocked
  if udpAddr.vni.isSet then de
  else { de with endpointState := de.endpointState.modify udpAddr.ap EndpointState.clear }

/-- `for _, st := range de.endpointState { f(st) }`. -/
def mapStates (f : EndpointState → EndpointState) : Endpoint :=
  { de with
    endpointState := de.endpointState.keys.foldl (fun m ap => m.modify ap f) de.endpointState }

def noteConnectivityChange : Endpoint :=
  de.clearBestAddrLocked.mapStates EndpointState.clear

def resetLocked (env : PathEnv) (de : Endpoint) (m : Moment) : Endpoint :=
  let de := { de with lastSendExt := 0 }
  let de := de.clearBestAddrLocked
  let de := { de with sourcePathRemoteSlots := [{}, {}] }
  let de := de.mapStates ({ · with lastPing := 0 })
  let de := de.sentPing.entries.foldl
    (fun de e => de.removeSentDiscoPingLocked env e.1 e.2 .unknown m) de
  de.resetCycleEndpointLocked

/-- `classifySourcePathRemoteSlot`, which takes note of the address a packet came from. -/
def classifySourcePathRemoteSlot (src : EpAddr) (m : Moment) : Endpoint :=
  let slots := de.sourcePathRemoteSlots
  let stale (slot : RemoteSlot) : Bool :=
    slot.seen = 0 || m.now - slot.seen > sessionActiveTimeout ||
      (de.endpointState.lookup slot.addr.ap).any (·.shouldDeleteLocked m.wall)
  let found := (slots.findIdx? (·.addr = src)).or
    ((slots.findIdx? (!·.addr.ap.isValid)).or (slots.findIdx? stale))
  match found with
  | some i =>
    if src.isDirect then
      { de with sourcePathRemoteSlots := slots.set i { addr := src, seen := m.now } }
    else de
  | none => de

/-- What the network map, a received ping or a call-me-maybe message does to the
history of an address: it is added, or its bookkeeping is brought up to date.  Only
pongs are recorded elsewhere. -/
def noteCandidate (ap : AddrPort) (st : EndpointState) : Endpoint :=
  let old := (de.endpointState.lookup ap).getD {}
  { de with
    endpointState := de.endpointState.insert ap
      { st with recentPongs := old.recentPongs, recentPong := old.recentPong } }

/-- `noteRecvActivity`, of an endpoint that speaks disco. -/
def noteRecvActivity (src : EpAddr) (now : MonoTime) : Endpoint :=
  if de.heartbeatDisabled ∧ de.bestAddr.epAddr = src then
    { de with trustBestAddrUntil := now + trustUDPAddrDuration }
  else de

/-- `heartbeat`, up to the pings it starts. -/
def heartbeat (env : PathEnv) (de : Endpoint) (m : Moment) : Endpoint :=
  let de :=
    { de with probeUDPLifetime := de.probeUDPLifetime.map ({ · with timer := false }) }
  if de.heartbeatDisabled ∨ de.lastSendExt = 0 then de
  else if m.now - de.lastSendExt > sessionActiveTimeout then
    match de.maybeProbeUDPLifetimeLocked env m with
    | none => de
    | some afterInactivityFor =>
      let inactiveFor := m.now - max de.lastSendAny de.lastRecvUDPAny
      if afterInactivityFor - inactiveFor < 0 then de
      else de.scheduleHeartbeatForLifetimeLocked
  else de

/-- `heartbeatForLifetime`, with the transaction IDs its ping draws. -/
def heartbeatForLifetime (env : PathEnv) (de : Endpoint) (m : Moment) (txids : List TxID) :
    Endpoint :=
  match de.probeUDPLifetime with
  | none => de
  | some p =>
    if !p.timer then de
    else
      let p := { p with timer := false }
      let de := { de with probeUDPLifetime := some p }
      if !p.bestAddr.ap.isValid || de.bestAddr.epAddr ≠ p.bestAddr then
        de.resetCycleEndpointLocked
      else match de.maybeProbeUDPLifetimeLocked env m with
        | none => de.resetCycleEndpointLocked
        | some afterInactivityFor =>
          let inactiveFor := m.now - max de.lastRecvUDPAny de.lastSendAny
          let delta := afterInactivityFor - inactiveFor
          if delta.natAbs > udpLifetimeProbeSchedulingTolerance then
            if delta < 0 then de else de.scheduleHeartbeatForLifetimeLocked
          else
            let de :=
              if p.currentCliff = 0 then
                { de with
                  probeUDPLifetime :=
                    some { p with cycleStartedAt := m.wall, cycleActive := true } }
              else de
            de.startDiscoPingLocked env de.bestAddr.epAddr m.now .heartbeatForUDPLifetime 0 txids

end Endpoint

/-! ## Operations -/

/-- What happens to an endpoint. -/
inductive PathOp where
  | handlePong (txid : TxID) (pongSrc : AddrPort) (src : EpAddr)
  /-- A relay path that answered, as `handleHandshakeWorkDoneRunLoop` reports it. -/
  | udpRelayEndpointReady (ap : AddrPort) (vni : BitVec 32) (serverDisco : PublicKey)
      (latency : Duration)
  | dualEndpointAddrsForSend
  | deleteEndpoint (ep : AddrPort)
  | noteBadEndpoint (udpAddr : EpAddr)
  | noteConnectivityChange
  | clearBestAddr
  | reset
  | startDiscoPing (ep : EpAddr) (purpose : PingPurpose) (size : Int) (txids : List TxID)
  | discoPingTimeout (txid : TxID)
  | forgetDiscoPing (txid : TxID)
  | heartbeat
  | heartbeatForLifetime (txids : List TxID)
  | setProbeUDPLifetimeConfig (desired : Option ProbeUDPLifetimeConfig)
  | setHeartbeatDisabled (v : Bool)
  | updateDiscoKey (key : PublicKey)
  | noteRecvActivity (src : EpAddr)
  | noteRecvUDP
  | noteTxActivity
  | noteCandidate (ap : AddrPort) (st : EndpointState)
  | classifySourcePathRemoteSlot (src : EpAddr)
  /-- The next `range` over `endpointState` runs in another order. -/
  | reorder (m : GoMap AddrPort EndpointState)

/-- An operation and when it happens. -/
structure PathEvent where
  moment : Moment := {}
  op : PathOp

/-- The path of `udpRelayEndpointReady`, as `handleHandshakeWorkDoneRunLoop` puts it together. -/
def relayQuality (ap : AddrPort) (vni : BitVec 32) (serverDisco : PublicKey) (latency : Duration) :
    AddrQuality :=
  let addr : EpAddr := { ap, vni := .set vni }
  { epAddr := addr
    relayServerDisco := serverDisco
    latency := ⟨latency, some addr⟩
    wireMTU := ⟨pingSizeToPktLen 0 addr, some addr⟩ }

/-- The operation, with its effect on the endpoint. -/
def Endpoint.exec (env : PathEnv) (de : Endpoint) (ev : PathEvent) : Endpoint :=
  let m := ev.moment
  match ev.op with
  | .handlePong txid pongSrc src => (de.handlePongConnLocked env txid pongSrc src m).1
  | .udpRelayEndpointReady ap vni serverDisco latency =>
    de.udpRelayEndpointReady env (relayQuality ap vni serverDisco latency) m.now
  | .dualEndpointAddrsForSend => (de.dualEndpointAddrsForSendLocked m).1
  | .deleteEndpoint ep => de.deleteEndpointLocked ep
  | .noteBadEndpoint udpAddr => de.noteBadEndpoint udpAddr
  | .noteConnectivityChange => de.noteConnectivityChange
  | .clearBestAddr => de.clearBestAddrLocked
  | .reset => de.resetLocked env m
  | .startDiscoPing ep purpose size txids =>
    de.startDiscoPingLocked env ep m.now purpose size txids
  | .discoPingTimeout txid => de.discoPingTimeout env txid m
  | .forgetDiscoPing txid => de.forgetDiscoPing env txid m
  | .heartbeat => de.heartbeat env m
  | .heartbeatForLifetime txids => de.heartbeatForLifetime env m txids
  | .setProbeUDPLifetimeConfig desired => de.setProbeUDPLifetimeConfigLocked desired
  | .setHeartbeatDisabled v => { de with heartbeatDisabled := v }
  | .updateDiscoKey key => { de with disco := if key = 0 then none else some key }
  | .noteRecvActivity src => de.noteRecvActivity src m.now
  | .noteRecvUDP => { de with lastRecvUDPAny := m.now }
  | .noteTxActivity => { de with lastSendExt := m.now, lastSendAny := m.now }
  | .noteCandidate ap st => de.noteCandidate ap st
  | .classifySourcePathRemoteSlot src => de.classifySourcePathRemoteSlot src m
  | .reorder states =>
    if states.entries.Perm de.endpointState.entries then { de with endpointState := states }
    else de

end Multiport.Magicsock

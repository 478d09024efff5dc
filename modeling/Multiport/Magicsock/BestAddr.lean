import Multiport.Magicsock.Endpoint

/-!
# Where the data of the best address come from

`bestAddr` is a record: a path, the relay server behind it, a latency and an MTU.
It should be about one path, and a probing cycle should be about that path too.

Every operation but one either leaves `bestAddr` alone or replaces it as a whole
through `setBestAddrLocked`: `exec_effect` says what can happen.  The exception is
`dualEndpointAddrsForSendLocked`, which assigns the path, and the latency if it
has one, and leaves the rest in place.
-/

namespace Multiport.Magicsock

open Lib Net Tailcfg List Endpoint

/-! ## What the record should say -/

/-- A value that is not there, or was measured on the path. -/
def Measured.IsOf {α : Type} (none : α) (x : Measured α) (path : EpAddr) : Prop :=
  x = ⟨none, .none⟩ ∨ x.on = some path

/-- The record is about its own path. -/
structure AddrQuality.Provenance (q : AddrQuality) : Prop where
  latency : q.latency.IsOf 0 q.epAddr
  wireMTU : q.wireMTU.IsOf 0 q.epAddr
  relay : q.relayServerDisco ≠ 0 → q.epAddr.vni.isSet = true

theorem AddrQuality.Provenance.zero : ({} : AddrQuality).Provenance :=
  ⟨.inl rfl, .inl rfl, fun h => absurd rfl h⟩

/-- The endpoint is in the middle of a probing cycle. -/
def Endpoint.CycleActive (de : Endpoint) : Prop := ∃ p ∈ de.probeUDPLifetime, p.cycleActive = true

/-- There is no probing cycle, not even a planned one. -/
def Endpoint.CycleReset (de : Endpoint) : Prop := ∀ p ∈ de.probeUDPLifetime, p.resetCycle = p

theorem Endpoint.CycleReset.not_active {de : Endpoint} (h : de.CycleReset) : ¬de.CycleActive := by
  rintro ⟨p, hp, hactive⟩
  rw [← h p hp] at hactive
  cases hactive

/-- A step that changes the best path resets an active cycle. -/
def ResetsOnChange (τ : Taken Endpoint PathEvent) : Prop :=
  τ.after.bestAddr.epAddr ≠ τ.before.bestAddr.epAddr → τ.before.CycleActive → τ.after.CycleReset

/-! ## Effects -/

namespace Endpoint

/-- When the endpoint last swapped between direct and relay, once `v` is installed. -/
def swapTime (env : PathEnv) (de : Endpoint) (v : AddrQuality) (now : MonoTime) : MonoTime :=
  if env.directVsRelayCompare = true ∧ de.bestAddr.epAddr.ap.isValid = true ∧
      de.bestAddr.epAddr.vni.isSet ≠ v.epAddr.vni.isSet then now
  else de.lastDirectVsRelaySwap

/-- The ways in which an operation may touch the best address: `bypass` is the reason
for which it may ignore the hold window, `clears` that for which it may clear. -/
inductive Effect (env : PathEnv) (now : MonoTime) (bypass clears : Prop) (de de' : Endpoint) : Prop
  | kept (h : de'.bestAddr = de.bestAddr)
      (hswap : de'.lastDirectVsRelaySwap = de.lastDirectVsRelaySwap)
  | refreshed (l : Duration)
      (h : de'.bestAddr = { de.bestAddr with latency := ⟨l, some de.bestAddr.epAddr⟩ })
      (hswap : de'.lastDirectVsRelaySwap = de.lastDirectVsRelaySwap)
  | emptied (h : de'.bestAddr = {})
      (hswap : de'.lastDirectVsRelaySwap = de.lastDirectVsRelaySwap)
      (hreset : de'.bestAddr.epAddr ≠ de.bestAddr.epAddr → de'.CycleReset)
  | cleared (hc : clears) (h : de'.bestAddr = {}) (hswap : de'.lastDirectVsRelaySwap = 0)
      (hreset : de'.bestAddr.epAddr ≠ de.bestAddr.epAddr → de'.CycleReset)
  | installed (v : AddrQuality) (hv : v.Provenance) (h : de'.bestAddr = v)
      (hallowed : bypass ∨ de.wouldAllowDirectVsRelaySwapLocked env de.bestAddr v now = true)
      (hswap : de'.lastDirectVsRelaySwap = de.swapTime env v now)
      (hreset : de'.bestAddr.epAddr ≠ de.bestAddr.epAddr → de'.CycleReset)

section Effects

variable {env : PathEnv} {now : MonoTime} {bypass clears : Prop} {de : Endpoint}

/-- An effect depends on the best address and the time of the last swap only. -/
theorem Effect.of_same {de₁ de' : Endpoint} (h : Effect env now bypass clears de₁ de')
    (hbest : de₁.bestAddr = de.bestAddr)
    (hlast : de₁.lastDirectVsRelaySwap = de.lastDirectVsRelaySwap) :
    Effect env now bypass clears de de' := by
  cases h with
  | kept h hswap => exact .kept (h.trans hbest) (hswap.trans hlast)
  | refreshed l h hswap => exact .refreshed l (by rw [h, hbest]) (hswap.trans hlast)
  | emptied h hswap hreset => exact .emptied h (hswap.trans hlast) (hbest ▸ hreset)
  | cleared hc h hswap hreset => exact .cleared hc h hswap (hbest ▸ hreset)
  | installed v hv h hallowed hswap hreset =>
    refine .installed v hv h (hallowed.imp_right fun ha => ?_) ?_ (hbest ▸ hreset)
    · rwa [wouldAllowDirectVsRelaySwapLocked, hbest, hlast] at ha
    · rwa [swapTime, hbest, hlast] at hswap

/-- Nor does it depend on more of the state that is reached, the cycle included. -/
theorem Effect.of_same_after {de₁ de' : Endpoint} (h : Effect env now bypass clears de de₁)
    (hbest : de'.bestAddr = de₁.bestAddr)
    (hlast : de'.lastDirectVsRelaySwap = de₁.lastDirectVsRelaySwap)
    (hcycle : de₁.CycleReset → de'.CycleReset) : Effect env now bypass clears de de' := by
  cases h with
  | kept h hswap => exact .kept (hbest.trans h) (hlast.trans hswap)
  | refreshed l h hswap => exact .refreshed l (hbest.trans h) (hlast.trans hswap)
  | emptied h hswap hreset =>
    exact .emptied (hbest.trans h) (hlast.trans hswap) fun hne => hcycle (hreset (hbest ▸ hne))
  | cleared hc h hswap hreset =>
    exact .cleared hc (hbest.trans h) (hlast.trans hswap) fun hne => hcycle (hreset (hbest ▸ hne))
  | installed v hv h hallowed hswap hreset =>
    exact .installed v hv (hbest.trans h) hallowed (hlast.trans hswap)
      fun hne => hcycle (hreset (hbest ▸ hne))

variable (de) (txid : TxID) (m : Moment)

theorem cycleReset_resetCycleEndpointLocked : de.resetCycleEndpointLocked.CycleReset := by
  rintro p hp
  obtain ⟨q, -, rfl⟩ := Option.map_eq_some_iff.1 hp
  rfl

/-! ### Frames -/

@[simp] theorem lastDirectVsRelaySwap_setBestAddrLocked (de : Endpoint) (v : AddrQuality) :
    (de.setBestAddrLocked v).lastDirectVsRelaySwap = de.lastDirectVsRelaySwap := by
  unfold setBestAddrLocked
  split <;> rfl

variable {v : AddrQuality}

theorem cycleReset_setBestAddrLocked (h : v.epAddr ≠ de.bestAddr.epAddr) :
    (de.setBestAddrLocked v).CycleReset := by
  rw [setBestAddrLocked, if_pos h]
  exact cycleReset_resetCycleEndpointLocked de

/-- Ending the probe of a cliff touches nothing but the cycle. -/
theorem probeUDPLifetimeCliffDoneLocked_eq (env : PathEnv) (result : PingResult) :
    ∃ p, de.probeUDPLifetimeCliffDoneLocked env result txid m =
      { de with probeUDPLifetime := p } := by
  unfold probeUDPLifetimeCliffDoneLocked
  split
  · exact ⟨_, rfl⟩
  split
  · exact ⟨_, rfl⟩
  · split
    · exact ⟨_, rfl⟩
    · dsimp only
      split <;> exact ⟨_, rfl⟩

/-- Forgetting a ping touches nothing but the pings and the cycle. -/
theorem removeSentDiscoPingLocked_eq (env : PathEnv) (sp : SentPing) (result : PingResult) :
    ∃ p sent, de.removeSentDiscoPingLocked env txid sp result m =
      { de with probeUDPLifetime := p, sentPing := sent } := by
  unfold removeSentDiscoPingLocked
  split
  · obtain ⟨p, hp⟩ := probeUDPLifetimeCliffDoneLocked_eq de txid m env result
    rw [hp]
    exact ⟨_, _, rfl⟩
  · exact ⟨_, _, rfl⟩

/-- Starting a ping touches neither the best address nor the time of the last swap. -/
theorem startDiscoPingLocked_kept (ep : EpAddr) (purpose : PingPurpose) (size : Int)
    (txids : List TxID) :
    Effect env now bypass clears de (de.startDiscoPingLocked env ep now purpose size txids) := by
  have hfold (l : List (TxID × Int)) (de : Endpoint) :
      Effect env now bypass clears de
        (l.foldl (fun de p => de.recordPing ep purpose now p.1 p.2) de) := by
    refine .kept (foldl_keeps bestAddr ?_ l de)
      (foldl_keeps lastDirectVsRelaySwap ?_ l de) <;> exact fun _ _ => rfl
  unfold startDiscoPingLocked
  split
  · exact .kept rfl rfl
  · split
    · exact .kept rfl rfl
    · split
      · exact .kept rfl rfl
      · refine (hfold _ _).of_same ?_ ?_ <;> split <;> split <;> rfl

theorem noteDirectVsRelaySwapLocked_eq (env : PathEnv) (prev v : AddrQuality) (now : MonoTime) :
    de.noteDirectVsRelaySwapLocked env prev v now =
      { de with
        lastDirectVsRelaySwap :=
          if env.directVsRelayCompare = true ∧ prev.epAddr.ap.isValid = true ∧
              prev.epAddr.vni.isSet ≠ v.epAddr.vni.isSet then now
          else de.lastDirectVsRelaySwap } := by
  unfold noteDirectVsRelaySwapLocked
  cases env.directVsRelayCompare with
  | false => simp
  | true =>
    cases prev.epAddr.ap.isValid with
    | false => simp
    | true => by_cases h : prev.epAddr.vni.isSet = v.epAddr.vni.isSet <;> simp [h]

/-- A swap that is not held back ignores the hold window, or may happen. -/
theorem bypass_or_allowed {bypass allowed : Bool} (h : ¬(!bypass && !allowed) = true) :
    bypass = true ∨ allowed = true := by
  rwa [Bool.and_eq_true, not_and_or, Bool.not_eq_true', Bool.not_eq_false, Bool.not_eq_true',
    Bool.not_eq_false] at h

/-! ### One operation after the other -/

theorem installLocked_effect (hv : v.Provenance)
    (hallowed : bypass ∨ de.wouldAllowDirectVsRelaySwapLocked env de.bestAddr v now = true) :
    Effect env now bypass clears de (de.installLocked env v now) := by
  rw [installLocked, noteDirectVsRelaySwapLocked_eq]
  refine .installed v hv rfl hallowed ?_ fun hne => cycleReset_setBestAddrLocked de hne
  simp only [lastDirectVsRelaySwap_setBestAddrLocked]
  rfl

theorem emptied_effect : Effect env now bypass clears de (de.setBestAddrLocked {}) :=
  .emptied rfl (lastDirectVsRelaySwap_setBestAddrLocked de {}) (cycleReset_setBestAddrLocked de)

theorem clearBestAddrLocked_effect (hc : clears) :
    Effect env now bypass clears de de.clearBestAddrLocked :=
  .cleared hc rfl rfl fun hne => cycleReset_setBestAddrLocked de hne

theorem deleteEndpointLocked_effect (ep : AddrPort) :
    Effect env now bypass clears de (de.deleteEndpointLocked ep) := by
  unfold deleteEndpointLocked
  dsimp only
  split
  · exact (emptied_effect _).of_same rfl rfl
  · exact .kept rfl rfl

/-- A better path is installed if it may be, and nothing happens otherwise. -/
theorem installPongLocked_cases (env : PathEnv) (v : AddrQuality) (now : MonoTime) :
    de.installPongLocked env v now = de ∨
      (now > de.trustBestAddrUntil ∨
          de.wouldAllowDirectVsRelaySwapLocked env de.bestAddr v now = true) ∧
        de.installPongLocked env v now = de.installLocked env v now := by
  unfold installPongLocked
  dsimp only
  split
  · split
    · exact .inl rfl
    next hhold => exact .inr ⟨(bypass_or_allowed hhold).imp_left of_decide_eq_true, rfl⟩
  · exact .inl rfl

/-- A pong installs its path, refreshes the latency of the best path, or does neither. -/
theorem promotePongLocked_effect (sp : SentPing) :
    Effect env now (now > de.trustBestAddrUntil) clears de (de.promotePongLocked env sp now) := by
  unfold promotePongLocked
  dsimp only
  rcases installPongLocked_cases de env (pongQuality sp now) now with hde | ⟨hallowed, hde⟩
  · rw [hde]
    split
    next heq =>
      refine .refreshed (now - sp.sentAt) ?_ rfl
      simp only [heq, pongQuality]
    · exact .kept rfl rfl
  · rw [hde]
    have heff : Effect env now (now > de.trustBestAddrUntil) clears de
        (de.installLocked env (pongQuality sp now) now) :=
      installLocked_effect de ⟨.inr rfl, .inr rfl, fun h => absurd rfl h⟩ hallowed
    have hbest : (de.installLocked env (pongQuality sp now) now).bestAddr = pongQuality sp now := by
      rw [installLocked, noteDirectVsRelaySwapLocked_eq]
      rfl
    rw [hbest, if_pos rfl]
    exact heff.of_same_after hbest.symm rfl id

theorem handlePongConnLocked_effect (pongSrc : AddrPort) (src : EpAddr) :
    Effect env m.now (m.now > de.trustBestAddrUntil) clears de
      (de.handlePongConnLocked env txid pongSrc src m).1 := by
  unfold handlePongConnLocked
  dsimp only
  split
  · exact .kept rfl rfl
  next sp hsp =>
    have hpromote (de₁ : Endpoint) (hbest : de₁.bestAddr = de.bestAddr)
        (hlast : de₁.lastDirectVsRelaySwap = de.lastDirectVsRelaySwap)
        (htrust : de₁.trustBestAddrUntil = de.trustBestAddrUntil) :
        Effect env m.now (m.now > de.trustBestAddrUntil) clears de
          (de₁.promotePongLocked env sp m.now) :=
      (htrust ▸ promotePongLocked_effect de₁ sp).of_same hbest hlast
    obtain ⟨p, sent, hde⟩ := removeSentDiscoPingLocked_eq de txid m env sp .pongReceived
    rw [hde]
    split
    · exact (deleteEndpointLocked_effect _ _).of_same rfl rfl
    split
    · exact .kept rfl rfl
    · split
      · exact hpromote _ rfl rfl rfl
      · split
        · exact .kept rfl rfl
        · exact hpromote _ rfl rfl rfl

theorem udpRelayEndpointReady_effect (hv : v.Provenance) :
    Effect env now (de.bypassHysteresis v now = true) clears de
      (de.udpRelayEndpointReady env v now) := by
  unfold udpRelayEndpointReady
  dsimp only
  split
  · split
    · exact .kept rfl rfl
    next hhold =>
      exact (installLocked_effect de hv (bypass_or_allowed hhold)).of_same_after rfl rfl id
  · exact .kept rfl rfl

variable {de} in
theorem CycleReset.removeSentDiscoPingLocked (h : de.CycleReset) (sp : SentPing)
    (result : PingResult) : (de.removeSentDiscoPingLocked env txid sp result m).CycleReset := by
  have hdone : de.probeUDPLifetimeCliffDoneLocked env result txid m = de := by
    unfold probeUDPLifetimeCliffDoneLocked
    split
    · rfl
    next p hp =>
      have hidle : p.cycleActive = false := by
        rw [← h p hp]
        rfl
      rw [hidle]
      rfl
  unfold Endpoint.removeSentDiscoPingLocked
  rw [hdone, ite_self]
  exact h

theorem discoPingTimeout_effect :
    Effect env m.now bypass (∃ sp ∈ de.sentPing.lookup txid, sp.sentTo = de.bestAddr.epAddr ∧
      m.now > de.trustBestAddrUntil) de (de.discoPingTimeout env txid m) := by
  unfold discoPingTimeout
  split
  · exact .kept rfl rfl
  next sp hsp =>
    dsimp only
    split
    next hclear =>
      obtain ⟨p, sent, hde⟩ :=
        removeSentDiscoPingLocked_eq de.clearBestAddrLocked txid m env sp .timedOut
      refine (clearBestAddrLocked_effect de ⟨sp, hsp, hclear⟩).of_same_after ?_ ?_ fun h =>
        h.removeSentDiscoPingLocked txid m sp .timedOut
      · rw [hde]
      · rw [hde]
    · obtain ⟨p, sent, hde⟩ := removeSentDiscoPingLocked_eq de txid m env sp .timedOut
      rw [hde]
      exact .kept rfl rfl

theorem forgetDiscoPing_effect :
    Effect env now bypass clears de (de.forgetDiscoPing env txid m) := by
  unfold forgetDiscoPing
  split
  · exact .kept rfl rfl
  next sp _ =>
    obtain ⟨p, sent, hde⟩ := removeSentDiscoPingLocked_eq de txid m env sp .failed
    rw [hde]
    exact .kept rfl rfl

theorem noteBadEndpoint_effect (hc : clears) (udpAddr : EpAddr) :
    Effect env now bypass clears de (de.noteBadEndpoint udpAddr) := by
  unfold noteBadEndpoint
  split
  · exact clearBestAddrLocked_effect de hc
  · exact (clearBestAddrLocked_effect de hc).of_same_after rfl rfl id

theorem resetLocked_effect (hc : clears) :
    Effect env now bypass clears de (de.resetLocked env m) := by
  have hkeep (de : Endpoint) (e : Sigma fun _ : TxID => SentPing) :
      (de.removeSentDiscoPingLocked env e.1 e.2 .unknown m).bestAddr = de.bestAddr ∧
        (de.removeSentDiscoPingLocked env e.1 e.2 .unknown m).lastDirectVsRelaySwap =
          de.lastDirectVsRelaySwap := by
    obtain ⟨p, sent, hde⟩ := removeSentDiscoPingLocked_eq de e.1 m env e.2 .unknown
    rw [hde]
    exact ⟨rfl, rfl⟩
  exact .cleared hc (foldl_keeps bestAddr (fun de e => (hkeep de e).1) _ _)
    (foldl_keeps lastDirectVsRelaySwap (fun de e => (hkeep de e).2) _ _)
    fun _ => cycleReset_resetCycleEndpointLocked _

theorem heartbeat_effect : Effect env now bypass clears de (de.heartbeat env m) := by
  unfold heartbeat
  dsimp only
  split
  · exact .kept rfl rfl
  · split
    · split
      · exact .kept rfl rfl
      · split <;> exact .kept rfl rfl
    · exact .kept rfl rfl

theorem heartbeatForLifetime_effect (txids : List TxID) :
    Effect env m.now bypass clears de (de.heartbeatForLifetime env m txids) := by
  unfold heartbeatForLifetime
  split
  · exact .kept rfl rfl
  split
  · exact .kept rfl rfl
  dsimp only
  split
  · exact .kept rfl rfl
  · split
    · exact .kept rfl rfl
    · split
      · split <;> exact .kept rfl rfl
      · refine (startDiscoPingLocked_kept _ _ _ _ _).of_same ?_ ?_ <;> split <;> rfl

theorem setProbeUDPLifetimeConfigLocked_effect (desired : Option ProbeUDPLifetimeConfig) :
    Effect env now bypass clears de (de.setProbeUDPLifetimeConfigLocked desired) := by
  unfold setProbeUDPLifetimeConfigLocked
  split
  · exact .kept rfl rfl
  · split
    · exact .kept rfl rfl
    · split
      · exact .kept rfl rfl
      · split <;> exact .kept rfl rfl

end Effects

end Endpoint

/-- The reason for which the operation may ignore the hold window: each of the two
handlers has its own. -/
def PathEvent.Bypasses (ev : PathEvent) (de : Endpoint) : Prop :=
  match ev.op with
  | .handlePong _ _ _ => ev.moment.now > de.trustBestAddrUntil
  | .udpRelayEndpointReady ap vni serverDisco latency =>
    de.bypassHysteresis (relayQuality ap vni serverDisco latency) ev.moment.now = true
  | _ => False

/-- The operation calls `clearBestAddrLocked`. -/
def PathEvent.Clears (ev : PathEvent) (de : Endpoint) : Prop :=
  match ev.op with
  | .noteBadEndpoint _ | .noteConnectivityChange | .clearBestAddr | .reset => True
  | .discoPingTimeout txid => ∃ sp ∈ de.sentPing.lookup txid,
      sp.sentTo = de.bestAddr.epAddr ∧ ev.moment.now > de.trustBestAddrUntil
  | _ => False

/-- **What an operation can do to the best address**, other than sending to two
endpoints. -/
theorem Endpoint.exec_effect (env : PathEnv) (de : Endpoint) (ev : PathEvent)
    (hop : ev.op ≠ .dualEndpointAddrsForSend) :
    Effect env ev.moment.now (ev.Bypasses de) (ev.Clears de) de (de.exec env ev) := by
  obtain ⟨m, op⟩ := ev
  cases op with
  | handlePong txid pongSrc src => exact handlePongConnLocked_effect de txid m pongSrc src
  | udpRelayEndpointReady ap vni serverDisco latency =>
    exact udpRelayEndpointReady_effect de
      ⟨.inr rfl, .inr rfl, fun _ => VirtualNetworkID.isSet_set vni⟩
  | dualEndpointAddrsForSend => exact absurd rfl hop
  | deleteEndpoint ep => exact deleteEndpointLocked_effect de ep
  | noteBadEndpoint udpAddr => exact noteBadEndpoint_effect de trivial udpAddr
  | noteConnectivityChange =>
    exact (clearBestAddrLocked_effect de trivial).of_same_after rfl rfl id
  | clearBestAddr => exact clearBestAddrLocked_effect de trivial
  | reset => exact resetLocked_effect de m trivial
  | startDiscoPing ep purpose size txids => exact startDiscoPingLocked_kept de ep purpose size txids
  | discoPingTimeout txid => exact discoPingTimeout_effect de txid m
  | forgetDiscoPing txid => exact forgetDiscoPing_effect de txid m
  | heartbeat => exact heartbeat_effect de m
  | heartbeatForLifetime txids => exact heartbeatForLifetime_effect de m txids
  | setProbeUDPLifetimeConfig desired => exact setProbeUDPLifetimeConfigLocked_effect de desired
  | noteRecvActivity src =>
    simp only [exec, noteRecvActivity]
    split <;> exact .kept rfl rfl
  | classifySourcePathRemoteSlot src =>
    simp only [exec, classifySourcePathRemoteSlot]
    split
    · split <;> exact .kept rfl rfl
    · exact .kept rfl rfl
  | reorder states =>
    simp only [exec]
    split <;> exact .kept rfl rfl
  | setHeartbeatDisabled | updateDiscoKey | noteRecvUDP | noteTxActivity | noteCandidate =>
    exact .kept rfl rfl

namespace Endpoint

variable {env : PathEnv} {now : MonoTime} {bypass clears : Prop} {de de' : Endpoint}

theorem Effect.provenance (h : Effect env now bypass clears de de')
    (hprov : de.bestAddr.Provenance) : de'.bestAddr.Provenance := by
  cases h with
  | kept h _ => rwa [h]
  | refreshed l h _ =>
    rw [h]
    exact ⟨.inr rfl, hprov.wireMTU, hprov.relay⟩
  | emptied h _ _ | cleared _ h _ _ =>
    rw [h]
    exact .zero
  | installed v hv h _ _ _ => rwa [h]

theorem Effect.cycleReset (h : Effect env now bypass clears de de')
    (hne : de'.bestAddr.epAddr ≠ de.bestAddr.epAddr) : de'.CycleReset := by
  cases h with
  | kept h _ | refreshed l h _ => exact absurd (by rw [h]) hne
  | emptied _ _ hreset | cleared _ _ _ hreset | installed _ _ _ _ _ hreset => exact hreset hne

/-! ## Sending to two endpoints -/

/-- The candidate that `dualEndpointAddrsForSendLocked` takes for the best path. -/
def bestCandidate (de : Endpoint) (m : Moment) : Option DualEndpointCandidate :=
  (sortCandidates (de.sourcePathDirectEndpointCandidatesLocked m).1).head?

theorem dualEndpointAddrsForSendLocked_fst (de : Endpoint) (m : Moment) :
    (de.dualEndpointAddrsForSendLocked m).1 =
      (de.bestCandidate m).elim de fun best => de.assignBest best m.now := by
  unfold dualEndpointAddrsForSendLocked bestCandidate
  dsimp only
  split <;> next h => rw [h]; rfl

/-- What a candidate is like: a direct path, with a positive latency if it has one. -/
def CandidateOK (c : DualEndpointCandidate) : Prop :=
  c.addr.isDirect = true ∧ (c.hasLatency = true → 0 < c.latency.val)

theorem addCandidate_ok {m : Moment} {g : Gather} (h : ∀ c ∈ g.candidates, CandidateOK c)
    (addr : EpAddr) (state : Option EndpointState) :
    ∀ c ∈ (de.addCandidate m g addr state).candidates, CandidateOK c := by
  unfold addCandidate
  split
  · exact h
  next haddr =>
    rw [Bool.or_eq_true, not_or, Bool.not_eq_true', Bool.not_eq_false] at haddr
    dsimp only
    split
    · exact forall_mem_concat.2 ⟨h, haddr.1, nofun⟩
    next st =>
      split
      · exact h
      · refine forall_mem_concat.2 ⟨h, haddr.1, fun hl => ?_⟩
        obtain ⟨l, hl, hpos⟩ := (Option.any_eq_true _ _).1 hl
        simpa [hl] using hpos

variable {best : DualEndpointCandidate}

theorem bestCandidate_ok {m : Moment} (h : de.bestCandidate m = some best) : CandidateOK best := by
  have hall : ∀ c ∈ (de.sourcePathDirectEndpointCandidatesLocked m).1, CandidateOK c := by
    intro c hc
    rw [sourcePathDirectEndpointCandidatesLocked, sortCandidates, mem_insertionSort] at hc
    revert c
    refine List.foldlRecOn (motive := fun g : Gather => ∀ c ∈ g.candidates, CandidateOK c) _ _ ?_ ?_
    · refine List.foldlRecOn (motive := fun g : Gather => ∀ c ∈ g.candidates, CandidateOK c) _ _
        (by simp) fun g hg e _ => addCandidate_ok hg _ _
    · intro g hg slot _
      split
      · exact hg
      · exact addCandidate_ok hg _ _
  refine hall best ?_
  have hmem := mem_of_head? h
  rwa [sortCandidates, mem_insertionSort] at hmem

/-- The assignments of `dualEndpointAddrsForSendLocked` do no harm: they give a latency
of the path, what else is stored is about the path already or is nothing, and
an active cycle is about the path too. -/
structure CleanAssign (de : Endpoint) (best : DualEndpointCandidate) : Prop where
  latency : if best.hasLatency then best.latency.on = some best.addr
    else de.bestAddr.latency = ⟨0, none⟩ ∨ de.bestAddr.epAddr = best.addr
  wireMTU : de.bestAddr.wireMTU = ⟨0, none⟩ ∨ de.bestAddr.epAddr = best.addr
  relay : de.bestAddr.relayServerDisco = 0
  cycle : de.bestAddr.epAddr = best.addr ∨ ¬de.CycleActive

/-- A value that is about one path is about another one only if it is not there or the
paths are the same. -/
theorem isOf_iff {α : Type} {zero : α} {x : Measured α} {path path' : EpAddr}
    (h : x.IsOf zero path) : x.IsOf zero path' ↔ x = ⟨zero, none⟩ ∨ path = path' := by
  constructor
  · rintro (hzero | hon)
    · exact .inl hzero
    · rcases h with hzero | hon'
      · exact .inl hzero
      · exact .inr (Option.mem_unique hon' hon)
  · rintro (hzero | rfl)
    · exact .inl hzero
    · exact h

theorem assignBest_iff {ev : PathEvent} (hprov : de.bestAddr.Provenance) (hok : CandidateOK best) :
    (de.assignBest best now).bestAddr.Provenance ∧ ResetsOnChange ⟨de, ev, de.assignBest best now⟩ ↔
      de.CleanAssign best := by
  have hvni : best.addr.vni.isSet = false := by
    have hdirect := hok.1
    unfold EpAddr.isDirect at hdirect
    simp only [Bool.and_eq_true, Bool.not_eq_true'] at hdirect
    exact hdirect.2
  have hlat : (de.assignBest best now).bestAddr.latency.IsOf 0 best.addr ↔
      if best.hasLatency then best.latency.on = some best.addr
        else de.bestAddr.latency = ⟨0, none⟩ ∨ de.bestAddr.epAddr = best.addr := by
    unfold assignBest
    cases hhas : best.hasLatency with
    | false => exact isOf_iff hprov.latency
    | true =>
      refine ⟨fun h => h.resolve_left fun hzero => ?_, .inr⟩
      have hpos := hok.2 hhas
      rw [show best.latency = ⟨0, none⟩ from hzero] at hpos
      exact absurd hpos (by decide)
  have hcycle : ResetsOnChange ⟨de, ev, de.assignBest best now⟩ ↔
      de.bestAddr.epAddr = best.addr ∨ ¬de.CycleActive := by
    constructor
    · intro h
      by_contra hnot
      rw [not_or, not_not] at hnot
      exact (h (Ne.symm hnot.1) hnot.2).not_active hnot.2
    · rintro (heq | hidle) hne hactive
      · exact absurd heq.symm hne
      · exact absurd hactive hidle
  constructor
  · rintro ⟨hq, hr⟩
    refine ⟨hlat.1 hq.latency, (isOf_iff hprov.wireMTU).1 hq.wireMTU, ?_, hcycle.1 hr⟩
    by_contra hne
    have hset := hq.relay hne
    rw [show (de.assignBest best now).bestAddr.epAddr = best.addr from rfl, hvni] at hset
    cases hset
  · intro h
    refine ⟨⟨hlat.2 h.latency, (isOf_iff hprov.wireMTU).2 h.wireMTU, fun hne => ?_⟩,
      hcycle.2 h.cycle⟩
    exact absurd h.relay hne

end Endpoint

/-- A step that sends to two endpoints takes a best path that the rest of `bestAddr` and
an active cycle are about. -/
def DualEndpointClean (τ : Taken Endpoint PathEvent) : Prop :=
  τ.act.op = .dualEndpointAddrsForSend →
    ∀ best ∈ τ.before.bestCandidate τ.act.moment, τ.before.CleanAssign best

theorem Endpoint.exec_iff (env : PathEnv) (de : Endpoint) (ev : PathEvent)
    (hprov : de.bestAddr.Provenance) :
    (de.exec env ev).bestAddr.Provenance ∧ ResetsOnChange ⟨de, ev, de.exec env ev⟩ ↔
      DualEndpointClean ⟨de, ev, de.exec env ev⟩ := by
  by_cases hop : ev.op = .dualEndpointAddrsForSend
  · have hexec : de.exec env ev = (de.bestCandidate ev.moment).elim de
        fun best => de.assignBest best ev.moment.now := by
      rw [exec, hop]
      exact dualEndpointAddrsForSendLocked_fst de ev.moment
    unfold DualEndpointClean
    rw [hexec]
    cases hbest : de.bestCandidate ev.moment with
    | none =>
      have hreset : ResetsOnChange ⟨de, ev, de⟩ := fun hne => absurd rfl hne
      simp [hprov, hreset]
    | some best =>
      simpa [hop] using assignBest_iff hprov (bestCandidate_ok hbest)
  · have heff := exec_effect env de ev hop
    constructor
    · exact fun _ h => absurd h hop
    · exact fun _ => ⟨heff.provenance hprov, fun hne _ => heff.cycleReset hne⟩

/-- **Latency and MTU of the best path are its own, its relay server too, and a change
of path resets an active probing cycle, in exactly the runs in which no call of
`dualEndpointAddrsForSendLocked` changes the path under data of another.** -/
theorem bestAddr_provenance_iff (env : PathEnv) (evs : List PathEvent) :
    (∀ τ ∈ trace (exec env) {} evs, τ.after.bestAddr.Provenance ∧ ResetsOnChange τ) ↔
      ∀ τ ∈ trace (exec env) {} evs, DualEndpointClean τ :=
  forall_trace_iff (I := fun de => de.bestAddr.Provenance) .zero
    (fun de ev hprov => exec_iff env de ev hprov) evs

def relayPath : EpAddr := { ap := { addr := .v4 0xc6336401#32, port := 7777 }, vni := .set 5 }

def directPath : EpAddr := { ap := { addr := .v4 0xc0000202#32, port := 41641 } }

/-- A probing cycle starts on a relay path, and then a packet goes to two endpoints. -/
def mixedRun : List PathEvent :=
  let wall : Time := 1700000000 * second
  let sec (n : Nat) : Moment := { elapsed := n * 1000000000, wall }
  [{ moment := sec 0, op := .updateDiscoKey 5 },
   { moment := sec 0, op := .setProbeUDPLifetimeConfig (some defaultProbeUDPLifetimeConfig) },
   { moment := sec 0, op := .udpRelayEndpointReady relayPath.ap 5 9 (20 * millisecond) },
   { moment := sec 0, op := .noteTxActivity },
   { moment := sec 46, op := .noteRecvUDP },
   { moment := sec 46, op := .heartbeat },
   { moment := sec 54, op := .heartbeatForLifetime [1] },
   { moment := sec 55, op := .noteCandidate directPath.ap {} },
   { moment := sec 55, op := .dualEndpointAddrsForSend }]

/-- At the end of the run the direct path has the latency, the MTU and the server of the relay
path: the record is not about its own path in every run. -/
theorem bestAddr_provenance_mixed :
    ¬∀ τ ∈ trace (exec {}) {} mixedRun, τ.after.bestAddr.Provenance ∧ ResetsOnChange τ := by
  intro h
  obtain ⟨τ, hτ, hafter⟩ := exists_mem_trace_after (exec {}) {}
    (show mixedRun ≠ [] from cons_ne_nil _ _)
  have hprov := (h τ hτ).1.wireMTU
  rw [hafter, Measured.IsOf] at hprov
  revert hprov
  decide

end Multiport.Magicsock

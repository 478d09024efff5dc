import Multiport.Tailcfg.Node

/-!
# Candidates for relay servers

The nodes that may relay for us, as the relay manager keeps them
(`wgengine/magicsock/relaymanager.go`), and the two ways in which `Conn`
(`magicsock.go`) finds them: `updateRelayServersSet` looks at all nodes, and
`relayCandidateLocked` at a single peer that was upserted.
-/

namespace Multiport.Magicsock

open Lib Net Tailcfg

variable {H : Type}

structure CandidatePeerRelay where
  nodeKey : PublicKey
  discoKey : PublicKey
  derpHomeRegionID : BitVec 16
deriving DecidableEq, Repr

/-- The candidate that a node would be. -/
def candidateOf (n : Node H) : CandidatePeerRelay where
  nodeKey := n.key
  discoKey := n.discoKey
  derpHomeRegionID := BitVec.ofInt 16 n.homeDERP

/-- A packet filter, as far as it plays a part here:
`filt.CapsWithValues(src, dst).HasCapability(tailcfg.PeerCapabilityRelayTarget)`. -/
abbrev RelayFilter := Addr → Addr → Bool

variable (filt : Option RelayFilter)

/-- `nodeHasCap`, for `tailcfg.PeerCapabilityRelayTarget`.  Only the first pair of host
addresses of one family counts. -/
def nodeHasCap (src : Node H) (dst : Option (Node H)) : Bool :=
  match filt, dst with
  | some caps, some dst =>
    let pair := (src.addresses.filter Prefix.isSingleIP).findSome? fun s =>
      (dst.addresses.filter Prefix.isSingleIP).findSome? fun d =>
        if d.addr.bitLen = s.addr.bitLen then some (caps s.addr d.addr) else none
    pair.getD false
  | _, _ => false

def capVerIsRelayCapable (version : Int) : Bool := decide (121 ≤ version)

/-- The test of a node in the loop of `updateRelayServersSet`. -/
def isRelayServer (self maybeCandidate : Node H) : Bool :=
  (maybeCandidate.id == self.id || capVerIsRelayCapable maybeCandidate.cap) &&
    nodeHasCap filt maybeCandidate (some self)

/-- The set that `updateRelayServersSet` hands to the relay manager. -/
def updateRelayServersSet (self : Node H) (peers : List (Node H)) : Finset CandidatePeerRelay :=
  (((peers ++ [self]).filter (isRelayServer filt self)).map candidateOf).toFinset

/-- The part of `relayManager` that has the servers. -/
structure RelayServers where
  serversByNodeKey : GoMap PublicKey CandidatePeerRelay := ∅
  hasPeerRelayServers : Bool := false

namespace RelayServers

/-- `publishHasServersRunLoop`. -/
def publish (servers : GoMap PublicKey CandidatePeerRelay) : RelayServers where
  serversByNodeKey := servers
  hasPeerRelayServers := decide (0 < servers.size)

variable (r : RelayServers)

/-- `handleServersUpdateRunLoop`, with the slice of the update in its order. -/
def handleServersUpdateRunLoop (update : List CandidatePeerRelay) : RelayServers :=
  let kept := r.serversByNodeKey.values.foldl
    (fun servers v => if v ∈ update then servers else servers.erase v.nodeKey) r.serversByNodeKey
  publish (update.foldl (fun servers v => servers.insert v.nodeKey v) kept)

def handleServerUpsertRunLoop (cp : CandidatePeerRelay) : RelayServers :=
  publish (r.serversByNodeKey.insert cp.nodeKey cp)

def handleServerRemoveRunLoop (nk : PublicKey) : RelayServers :=
  if (r.serversByNodeKey.lookup nk).isSome then publish (r.serversByNodeKey.erase nk) else r

/-- The set that `handleGetServersRunLoop` sends. -/
def servers : Finset CandidatePeerRelay := r.serversByNodeKey.values.toFinset

/-- Servers are filed under their own key. -/
def Keyed : Prop :=
  ∀ nk v, r.serversByNodeKey.lookup nk = some v → v.nodeKey = nk

variable {r}

theorem mem_servers (h : r.Keyed) {v} :
    v ∈ r.servers ↔ r.serversByNodeKey.lookup v.nodeKey = some v := by
  rw [servers, List.mem_toFinset, GoMap.mem_values]
  constructor
  · rintro ⟨nk, hnk⟩
    rwa [h nk v hnk]
  · exact fun hv => ⟨_, hv⟩

theorem lookup_handleServerRemoveRunLoop (nk nk' : PublicKey) :
    (r.handleServerRemoveRunLoop nk).serversByNodeKey.lookup nk' =
      if nk' = nk then none else r.serversByNodeKey.lookup nk' := by
  unfold handleServerRemoveRunLoop
  split
  · exact GoMap.lookup_erase_eq nk nk' _
  next hnone =>
    split
    next heq =>
      rw [heq]
      simpa using hnone
    · rfl

theorem lookup_handleServerUpsertRunLoop (cp : CandidatePeerRelay) (nk : PublicKey) :
    (r.handleServerUpsertRunLoop cp).serversByNodeKey.lookup nk =
      if nk = cp.nodeKey then some cp else r.serversByNodeKey.lookup nk :=
  GoMap.lookup_insert_eq _ _ _ _

theorem Keyed.handleServerRemoveRunLoop (h : r.Keyed) (nk : PublicKey) :
    (r.handleServerRemoveRunLoop nk).Keyed := by
  intro nk' v hv
  rw [lookup_handleServerRemoveRunLoop] at hv
  split at hv
  · cases hv
  · exact h nk' v hv

theorem Keyed.handleServerUpsertRunLoop (h : r.Keyed) (cp : CandidatePeerRelay) :
    (r.handleServerUpsertRunLoop cp).Keyed := by
  intro nk v hv
  rw [lookup_handleServerUpsertRunLoop] at hv
  split at hv
  next heq =>
    cases hv
    exact heq.symm
  · exact h nk v hv

end RelayServers

end Multiport.Magicsock

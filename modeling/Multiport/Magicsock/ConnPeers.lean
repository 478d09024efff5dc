import Multiport.Lib.Checks
import Multiport.Magicsock.PeerKeys
import Multiport.Magicsock.RelayServers

/-!
# The peers of a connection

The part of `magicsock.Conn` that follows the network map: the peers, their
endpoints in the peer map, what is known about their disco keys, and the servers
they may be.  Peers come as a whole list (`updateNodes`) or one by one
(`UpsertPeer`, `RemovePeer`), and a peer may advertise a new disco key itself
(`HandleDiscoKeyAdvertisement`).

An endpoint's disco key is a field of `Conn` here, since it changes.  The candidate
addresses that `updateFromNode` leaves an endpoint with are an argument: only those
of WireGuard-only peers are used, for the index of addresses.  In production
`devPanicf` does nothing.
-/

namespace Multiport.Magicsock

open Lib Net Tailcfg Function PeerMap Option

variable {H : Type}

structure DebugFlags where
  heartbeatDisabled : Bool := false
  probeUDPLifetimeOn : Bool := false
deriving DecidableEq, Repr

/-- The fields of `Conn` that the network map determines. -/
structure ConnPeers (H : Type) where
  closed : Bool := false
  peerMap : PeerMap := {}
  /-- `ep.disco` of the endpoint with a pointer; nil if there is none. -/
  disco : GoMap Nat PublicKey := ∅
  nextEndpoint : Nat := 0
  /-- The keys of `discoInfo`. -/
  discoInfo : Finset PublicKey := ∅
  peersByID : GoMap NodeID (Node H) := ∅
  self : Option (Node H) := none
  lastFlags : DebugFlags := {}
  filt : Option RelayFilter := none
  relayClientEnabled : Bool := false
  relay : RelayServers := {}

/-- A node without a disco key that is not WireGuard-only: too old to be a peer. -/
def isUnsupported (n : Node H) : Bool := n.discoKey == 0 && !n.isWireGuardOnly

namespace ConnPeers

variable (c : ConnPeers H)

/-- `ep.disco.Load()`. -/
def discoKey (ep : EndpointRef) : Option PublicKey := c.disco.lookup ep.ptr

/-- The disco key of an endpoint, zero if it has none. -/
def discoKeyOrZero (ep : EndpointRef) : PublicKey := (c.discoKey ep).getD 0

/-- `endpoint.updateDiscoKey`. -/
def updateDiscoKey (ep : EndpointRef) (key : PublicKey) : ConnPeers H :=
  { c with disco := if key = 0 then c.disco.erase ep.ptr else c.disco.insert ep.ptr key }

/-- `endpoint.updateFromNode`. -/
def updateFromNode (ep : EndpointRef) (n : Node H) : ConnPeers H :=
  if c.discoKeyOrZero ep ≠ n.discoKey then c.updateDiscoKey ep n.discoKey else c

/-- `c.peerMap.upsertEndpoint`. -/
def upsertEndpoint (ep : EndpointRef) (addrs : List AddrPort)
    (oldDiscoKey : PublicKey) : Except PeerMapPanic (ConnPeers H) :=
  (c.peerMap.upsertEndpoint ep (c.discoKey ep) addrs oldDiscoKey).map fun m =>
    { c with peerMap := m }

/-- `c.peerMap.deleteEndpoint`. -/
def deleteEndpoint (ep : EndpointRef) : ConnPeers H :=
  { c with peerMap := c.peerMap.deleteEndpoint ep (c.discoKey ep) }

/-! ## One peer -/

/-- The endpoint that is made for a node. -/
def newEndpoint (n : Node H) : EndpointRef where
  ptr := c.nextEndpoint
  nodeID := n.id
  publicKey := n.key
  isWireguardOnly := n.isWireGuardOnly

variable (addrs : List AddrPort)

/-- The last part of `upsertPeerLocked`, for a node that has no endpoint by its ID. -/
def createPeer (n : Node H) : Except PeerMapPanic (ConnPeers H) :=
  if (c.peerMap.endpointForNodeKey n.key).isSome then .ok c
  else if isUnsupported n then .ok c
  else
    let ep := c.newEndpoint n
    let c := { c with nextEndpoint := c.nextEndpoint + 1 }
    ((c.updateDiscoKey ep n.discoKey).updateFromNode ep n).upsertEndpoint ep addrs 0

/-- The part of `upsertPeerLocked` that modifies the endpoint of a node. -/
def updatePeer (n : Node H) (ep : EndpointRef) : Except PeerMapPanic (ConnPeers H) :=
  if isUnsupported n then .ok (c.deleteEndpoint ep)
  else (c.updateFromNode ep n).upsertEndpoint ep addrs (c.discoKeyOrZero ep)

def upsertPeerLocked (n : Node H) : Except PeerMapPanic (ConnPeers H) :=
  if n.id = 0 then .ok c
  else if n.key = 0 then .ok c
  else match c.peerMap.endpointForNodeID n.id with
    | none => c.createPeer addrs n
    | some ep =>
      if ep.publicKey ≠ n.key then (c.deleteEndpoint ep).createPeer addrs n
      else c.updatePeer addrs n ep

def relayCandidateLocked (p : Node H) : Option CandidatePeerRelay :=
  if !capVerIsRelayCapable p.cap then none
  else if !nodeHasCap c.filt p c.self then none
  else some (candidateOf p)

/-- The relay manager hears about an upserted peer. -/
def upsertRelay (n : Node H) : ConnPeers H :=
  if c.relayClientEnabled then
    { c with
      relay := match c.relayCandidateLocked n with
        | some cp => c.relay.handleServerUpsertRunLoop cp
        | none => c.relay.handleServerRemoveRunLoop n.key }
  else c

def upsertPeer (n : Node H) : Except PeerMapPanic (ConnPeers H) :=
  if c.closed then .ok c
  else if n.id = 0 then .ok c
  else
    let c := { c with peersByID := c.peersByID.insert n.id n }
    (c.upsertPeerLocked addrs n).map fun c => c.upsertRelay n

/-- The endpoint of a removed peer is deleted. -/
def deleteEndpointOf (nid : NodeID) : ConnPeers H :=
  match c.peerMap.endpointForNodeID nid with
  | some ep => c.deleteEndpoint ep
  | none => c

/-- `discoInfo` loses the disco key of a removed peer, unless it is still known. -/
def dropDiscoInfo (dk : PublicKey) : ConnPeers H :=
  if dk ≠ 0 ∧ c.peerMap.knownPeerDiscoKey dk = false then
    { c with discoInfo := c.discoInfo.erase dk }
  else c

/-- The relay manager hears about a removed peer. -/
def removeRelay (nk : PublicKey) : ConnPeers H :=
  if c.relayClientEnabled then { c with relay := c.relay.handleServerRemoveRunLoop nk } else c

def removePeer (nid : NodeID) : ConnPeers H :=
  if c.closed then c
  else match c.peersByID.lookup nid with
    | none => c
    | some prev =>
      let c := { c with peersByID := c.peersByID.erase nid }.deleteEndpointOf nid
      (c.dropDiscoInfo prev.discoKey).removeRelay prev.key

/-- `discoInfoForKnownPeerLocked`, which computes a shared secret for a key that is new.  The
connection's own key is not zero. -/
def discoInfoForKnownPeerLocked (k : PublicKey) : Except PeerMapPanic (ConnPeers H) :=
  if k ∈ c.discoInfo then .ok c
  else if k = 0 then .error .zeroKey
  else .ok { c with discoInfo := insert k c.discoInfo }

/-- `HandleDiscoKeyAdvertisement`, of the node with the key. -/
def handleDiscoKeyAdvertisement
    (nodeKey discoKey : PublicKey) : Except PeerMapPanic (ConnPeers H) :=
  match c.peerMap.endpointForNodeKey nodeKey with
  | none => .ok c
  | some ep =>
    let oldDiscoKey := c.discoKeyOrZero ep
    if oldDiscoKey = discoKey then .ok c
    else do
      let c ← c.discoInfoForKnownPeerLocked discoKey
      (c.updateDiscoKey ep discoKey).upsertEndpoint ep addrs oldDiscoKey

/-- A disco message to or from a peer, as the other callers of `discoInfoForKnownPeerLocked` have
it. -/
def discoInfoForPeer (dk : PublicKey) : Except PeerMapPanic (ConnPeers H) :=
  if c.peerMap.knownPeerDiscoKey dk then c.discoInfoForKnownPeerLocked dk else .ok c

/-! ## The whole list -/

/-- The fast path of `updateNodes`; `equal` is `NodeView.Equal`. -/
def unchanged (equal : Node H → Node H → Bool) (flags : DebugFlags)
    (peers : List (Node H)) : Bool :=
  c.lastFlags == flags && peers.length == c.peersByID.size &&
    peers.all fun n => (c.peersByID.lookup n.id).any fun prev => equal prev n

def newPeers (peers : List (Node H)) : GoMap NodeID (Node H) :=
  peers.foldl (fun m n => m.insert n.id n) ∅

/-- Endpoints with a key that is not to be kept are deleted. -/
def deleteStale (keep : List PublicKey) : ConnPeers H :=
  c.peerMap.endpoints.foldl
    (fun c ep => if keep.contains ep.publicKey then c else c.deleteEndpoint ep) c

/-- What `updateNodes` does after the loop. -/
def finishUpdate (newPeers : GoMap NodeID (Node H)) : ConnPeers H :=
  let c := { c with peersByID := newPeers }
  let c :=
    if c.peerMap.nodeCount ≠ newPeers.size then c.deleteStale (newPeers.values.map Node.key) else c
  { c with discoInfo := c.discoInfo.filter fun dk => c.peerMap.knownPeerDiscoKey dk = true }

/-- The loop of `updateNodes`; `addrs` are the candidate addresses of each peer. -/
def upsertPeers (addrs : Node H → List AddrPort) (peers : List (Node H)) :
    Except PeerMapPanic (ConnPeers H) :=
  peers.foldlM (fun c n => c.upsertPeerLocked (addrs n) n) c

def updateNodes (equal : Node H → Node H → Bool)
    (addrs : Node H → List AddrPort) (flags : DebugFlags) (self : Option (Node H))
    (peers : List (Node H)) : Except PeerMapPanic (ConnPeers H × Bool) :=
  if c.closed then .ok (c, false)
  else if c.unchanged equal flags peers then .ok ({ c with self := self }, false)
  else
    let c := { c with self := self, lastFlags := flags }
    (c.upsertPeers addrs peers).map fun c => (c.finishUpdate (newPeers peers), true)

/-! ## What is filed -/

/-- A peer that is not WireGuard-only has the disco key. -/
def InUse (dk : PublicKey) : Prop :=
  ∃ nk ep, c.peerMap.endpointAt nk = some ep ∧ ep.isWireguardOnly = false ∧ c.discoKey ep = some dk

/-- The endpoints in the peer map, in all reachable states. -/
structure WF (c : ConnPeers H) : Prop where
  indexed : c.peerMap.Indexed
  indexes : TwoIndexes EndpointRef.publicKey EndpointRef.nodeID c.peerMap.endpointAt
    c.peerMap.endpointForNodeID
  fresh : ∀ nk ep, c.peerMap.endpointAt nk = some ep → ep.ptr < c.nextEndpoint
  ptr_inj : ∀ nk nk' ep ep', c.peerMap.endpointAt nk = some ep →
    c.peerMap.endpointAt nk' = some ep' → ep.ptr = ep'.ptr → ep = ep'
  nonzero : ∀ p, c.disco.lookup p ≠ some 0
  /-- The nodes of a disco key are those that have it, WireGuard-only peers apart. -/
  nodes : ∀ nk dk, nk ∈ c.peerMap.nodesOf dk ↔
    ∃ ep, c.peerMap.endpointAt nk = some ep ∧ ep.isWireguardOnly = false ∧ c.discoKey ep = some dk

theorem WF.empty : ({} : ConnPeers H).WF where
  indexed := ⟨.empty, fun _ _ h => by simp at h⟩
  indexes := ⟨fun _ _ h => by simp [endpointAt] at h,
    fun _ _ h => by simp [endpointForNodeID] at h,
    fun _ => by simp [endpointAt, endpointForNodeID]⟩
  fresh _ _ h := by simp [endpointAt] at h
  ptr_inj _ _ _ _ h := by simp [endpointAt] at h
  nonzero _ := by simp
  nodes _ _ := by simp [endpointAt, nodesOf]

variable {c} {c' : ConnPeers H} {ep : EndpointRef} {n : Node H} {addrs : List AddrPort}

/-- Only the peer map, the disco keys and the counter matter. -/
theorem WF.of_same (h : c.WF) (hmap : c'.peerMap = c.peerMap) (hdisco : c'.disco = c.disco)
    (hnext : c'.nextEndpoint = c.nextEndpoint) : c'.WF := by
  have hkey (ep : EndpointRef) : c'.discoKey ep = c.discoKey ep := by
    rw [discoKey, discoKey, hdisco]
  constructor
  · rw [hmap]; exact h.indexed
  · rw [hmap]; exact h.indexes
  · rw [hmap, hnext]; exact h.fresh
  · rw [hmap]; exact h.ptr_inj
  · rw [hdisco]; exact h.nonzero
  · simpa only [hmap, hkey] using h.nodes

theorem WF.known_of_inUse (h : c.WF) {dk : PublicKey} (hdk : c.InUse dk) :
    c.peerMap.knownPeerDiscoKey dk = true := by
  obtain ⟨nk, ep, hep⟩ := hdk
  have hmem := (h.nodes nk dk).2 ⟨ep, hep⟩
  unfold nodesOf at hmem
  unfold knownPeerDiscoKey
  cases hlook : c.peerMap.nodesOfDisco.lookup dk with
  | none => simp [hlook] at hmem
  | some nodes => rfl

variable {nk : PublicKey}

theorem WF.endpointAt_publicKey (h : c.WF) (hsome : c.peerMap.endpointForNodeKey nk = some ep) :
    c.peerMap.endpointAt ep.publicKey = some ep := by
  rw [endpointForNodeKey] at hsome
  split at hsome
  · cases hsome
  · rw [h.indexes.key_eq _ ep hsome]
    exact hsome

theorem WF.setNodeKeyForEpAddr (h : c.WF) (addr : EpAddr) (nk : PublicKey) :
    ({ c with peerMap := c.peerMap.setNodeKeyForEpAddr addr nk } : ConnPeers H).WF := by
  have hsame := PeerMap.SamePeers.setNodeKeyForEpAddr c.peerMap addr nk
  have hat := hsame.endpointAt
  refine ⟨?_, ?_, ?_, ?_, h.nonzero, fun nk' dk => ?_⟩
  · exact h.indexed.of_samePeers hsame (h.indexed.toSound.setNodeKeyForEpAddr addr nk)
  · simpa only [hat, hsame.endpointForNodeID] using h.indexes
  · simpa only [hat] using h.fresh
  · simpa only [hat] using h.ptr_inj
  · rw [hat, nodesOf, hsame.nodes]
    exact h.nodes nk' dk

theorem WF.deleteEndpoint (h : c.WF) (hep : c.peerMap.endpointAt ep.publicKey = some ep) :
    (c.deleteEndpoint ep).WF ∧
      c.peerMap.Deleted ep (c.discoKey ep) (c.deleteEndpoint ep).peerMap := by
  obtain ⟨hix, hdel⟩ : (c.deleteEndpoint ep).peerMap.Indexed ∧
      c.peerMap.Deleted ep (c.discoKey ep) (c.deleteEndpoint ep).peerMap :=
    h.indexed.deleteEndpoint (c.discoKey ep) ((h.indexes.same ep).1 hep)
  have hold {nk : PublicKey} {e : EndpointRef}
      (he : (c.deleteEndpoint ep).peerMap.endpointAt nk = some e) :
      nk ≠ ep.publicKey ∧ c.peerMap.endpointAt nk = some e := by
    rw [hdel.key, update_apply] at he
    split at he
    · cases he
    next hne => exact ⟨hne, he⟩
  refine ⟨⟨hix, ?_, ?_, ?_, h.nonzero, fun nk dk => ?_⟩, hdel⟩
  · rw [hdel.key, hdel.id]
    exact h.indexes.erase hep
  · exact fun nk e he => h.fresh nk e (hold he).2
  · exact fun nk nk' e e' he he' => h.ptr_inj nk nk' e e' (hold he).2 (hold he').2
  · rw [hdel.nodes nk dk, h.nodes nk dk]
    constructor
    · rintro ⟨⟨e, he, hwg, hdk⟩, hnot⟩
      refine ⟨e, ?_, hwg, hdk⟩
      rw [hdel.key, update_apply, if_neg, he]
      rintro rfl
      cases hep.symm.trans he
      exact hnot ⟨hdk, rfl⟩
    · rintro ⟨e, he, hwg, hdk⟩
      exact ⟨⟨e, (hold he).2, hwg, hdk⟩, fun heq => (hold he).1 heq.2⟩

/-! ### Disco keys of endpoints -/

/-- The disco key that an endpoint has once it was given `key`. -/
def keyOrNil (key : PublicKey) : Option PublicKey := if key = 0 then none else some key

theorem keyOrNil_ne_zero (key : PublicKey) : keyOrNil key ≠ some 0 := by
  unfold keyOrNil
  simp

variable {key : PublicKey}

theorem keyOrNil_eq_none_iff : keyOrNil key = none ↔ key = 0 := by
  unfold keyOrNil
  split <;> simp_all

theorem keyOrNil_ne_none_iff : keyOrNil key ≠ none ↔ key ≠ 0 :=
  keyOrNil_eq_none_iff.not

theorem lookup_updateDiscoKey (c : ConnPeers H) (ep : EndpointRef) (key : PublicKey) (p : Nat) :
    (c.updateDiscoKey ep key).disco.lookup p =
      if p = ep.ptr then keyOrNil key else c.disco.lookup p := by
  unfold updateDiscoKey keyOrNil
  split
  · exact GoMap.lookup_erase_eq _ _ _
  · exact GoMap.lookup_insert_eq _ _ _ _

/-- Updating an endpoint gives it the disco key of the node, whether it changed or not. -/
theorem lookup_updateFromNode (hzero : c.disco.lookup ep.ptr ≠ some 0) (n : Node H) (p : Nat) :
    (c.updateFromNode ep n).disco.lookup p =
      if p = ep.ptr then keyOrNil n.discoKey else c.disco.lookup p := by
  unfold updateFromNode
  split
  · exact lookup_updateDiscoKey c ep n.discoKey p
  next hsame =>
    split
    next hp =>
      subst hp
      rw [not_not, discoKeyOrZero, discoKey] at hsame
      rw [← hsame]
      unfold keyOrNil
      cases hlook : c.disco.lookup ep.ptr with
      | none => rfl
      | some key => rw [getD_some, if_neg (fun hz => hzero (by rw [hlook, hz]))]
    · rfl

theorem updateFromNode_peerMap (c : ConnPeers H) (ep : EndpointRef) (n : Node H) :
    (c.updateFromNode ep n).peerMap = c.peerMap ∧
      (c.updateFromNode ep n).nextEndpoint = c.nextEndpoint := by
  unfold updateFromNode
  split <;> exact ⟨rfl, rfl⟩

/-! ### Filing an endpoint -/

/-- **What filing an endpoint with a disco key does.** -/
structure Filed (c : ConnPeers H) (ep : EndpointRef) (dk? : Option PublicKey) (c' : ConnPeers H) :
    Prop where
  key : c'.peerMap.endpointAt = update c.peerMap.endpointAt ep.publicKey (some ep)
  id : c'.peerMap.endpointForNodeID =
    update c.peerMap.endpointForNodeID ep.nodeID (some ep)
  disco : c'.discoKey ep = dk?
  known : ∀ dk, c'.peerMap.knownPeerDiscoKey dk = true ↔
    c.peerMap.knownPeerDiscoKey dk = true ∨ (ep.isWireguardOnly = false ∧ dk? = some dk)

variable {old : PublicKey}

/-- `c₁` is `c` with the disco key `key` for the endpoint, which may be a new one.  `old` is the
key that it had. -/
structure Prepared (c : ConnPeers H) (ep : EndpointRef) (old key : PublicKey) (c₁ : ConnPeers H) :
    Prop where
  /-- No other endpoint is filed with its node key, its ID or its pointer. -/
  sameKey : ∀ e, c.peerMap.endpointAt ep.publicKey = some e → e = ep
  sameID : ∀ e, c.peerMap.endpointForNodeID ep.nodeID = some e → e = ep
  samePtr : ∀ nk e, c.peerMap.endpointAt nk = some e → e.ptr = ep.ptr → e = ep
  old : c.peerMap.endpointAt ep.publicKey = some ep → ∀ dk, c.discoKey ep = some dk → dk = old
  peerMap : c₁.peerMap = c.peerMap
  disco : ∀ p, c₁.disco.lookup p = if p = ep.ptr then keyOrNil key else c.disco.lookup p
  next : c.nextEndpoint ≤ c₁.nextEndpoint
  ptr_lt : ep.ptr < c₁.nextEndpoint

section Prepared

variable {c₁ : ConnPeers H} {m : PeerMap}

variable (hp : c.Prepared ep old key c₁)

include hp

theorem Prepared.discoKey : c₁.discoKey ep = keyOrNil key :=
  (hp.disco ep.ptr).trans (if_pos rfl)

theorem Prepared.nonzero (h : c.WF) (p : Nat) : c₁.disco.lookup p ≠ some 0 := by
  rw [hp.disco p]
  split
  · exact keyOrNil_ne_zero key
  · exact h.nonzero p

theorem Prepared.ptr_ne (h : c.WF) {e} (hne : nk ≠ ep.publicKey)
    (he : c.peerMap.endpointAt nk = some e) : e.ptr ≠ ep.ptr := by
  intro hptr
  obtain rfl := hp.samePtr nk e he hptr
  exact hne (h.indexes.key_eq nk e he).symm

/-- What is filed afterwards is the endpoint, or was filed and has another pointer. -/
theorem Prepared.cases (h : c.WF)
    (hkey : m.endpointAt = update c.peerMap.endpointAt ep.publicKey (some ep)) {e}
    (he : m.endpointAt nk = some e) :
    e = ep ∨ c.peerMap.endpointAt nk = some e ∧ e.ptr ≠ ep.ptr := by
  rw [hkey, update_apply] at he
  split at he
  · exact .inl (some.inj he).symm
  next hne => exact .inr ⟨he, hp.ptr_ne h hne he⟩

/-- The nodes of the disco keys are those of the endpoints that are filed afterwards. -/
theorem Prepared.nodes (h : c.WF) (hup : c.peerMap.Upserted ep (c₁.discoKey ep) old m)
    (nk dk : PublicKey) : nk ∈ m.nodesOf dk ↔
      ∃ e, m.endpointAt nk = some e ∧ e.isWireguardOnly = false ∧ c₁.discoKey e = some dk := by
  rw [hup.nodes nk dk]
  rcases eq_or_ne nk ep.publicKey with rfl | hnk
  · rw [hup.key, update_self]
    constructor
    · rintro (⟨hmem, hnot⟩ | ⟨hwg, hdk, -⟩)
      · obtain ⟨e, he, hwg, hdk⟩ := (h.nodes _ dk).1 hmem
        obtain rfl := hp.sameKey e he
        obtain rfl := hp.old he dk hdk
        refine ⟨e, rfl, hwg, ?_⟩
        by_contra hne
        exact hnot ⟨hne, rfl, rfl⟩
      · exact ⟨ep, rfl, hwg, hdk⟩
    · rintro ⟨e, he, hwg, hdk⟩
      cases he
      exact .inr ⟨hwg, hdk, rfl⟩
  · rw [hup.key, update_of_ne hnk]
    simp only [hnk, and_false, or_false, not_false_eq_true, and_true, h.nodes nk dk]
    refine exists_congr fun e => and_congr_right fun he => and_congr_right fun _ => ?_
    rw [ConnPeers.discoKey, ConnPeers.discoKey, hp.disco, if_neg (hp.ptr_ne h hnk he)]

end Prepared

variable {c₁ : ConnPeers H}

/-- An endpoint is filed with the disco key it was just given. -/
theorem WF.upsertEndpoint (h : c.WF) (hp : c.Prepared ep old key c₁)
    (hok : c₁.upsertEndpoint ep addrs old = .ok c') :
    c'.WF ∧ c.Filed ep (keyOrNil key) c' ∧ ep.nodeID ≠ 0 := by
  obtain ⟨m, hm, rfl⟩ := map_eq_ok_iff.1 hok
  rw [hp.peerMap] at hm
  obtain ⟨hix, hup⟩ := h.indexed.upsertEndpoint hp.sameKey hm
  have hid := ((c.peerMap.upsertEndpoint_ok_iff ep (c₁.discoKey ep) addrs old).1 ⟨m, hm⟩).1
  rw [← hp.discoKey]
  refine ⟨⟨hix, ?_, ?_, ?_, hp.nonzero h, hp.nodes h hup⟩, ⟨hup.key, hup.id, rfl, hup.known⟩, hid⟩
  · rw [hup.key, hup.id]
    exact h.indexes.put hp.sameKey hp.sameID
  · intro nk e he
    rcases hp.cases h hup.key he with rfl | ⟨he, -⟩
    · exact hp.ptr_lt
    · exact lt_of_lt_of_le (h.fresh nk e he) hp.next
  · intro nk nk' e e' he he' hptr
    rcases hp.cases h hup.key he with rfl | ⟨he, hne⟩
    · rcases hp.cases h hup.key he' with rfl | ⟨-, hne'⟩
      · rfl
      · exact absurd hptr.symm hne'
    · rcases hp.cases h hup.key he' with rfl | ⟨he', -⟩
      · exact absurd hptr hne
      · exact h.ptr_inj nk nk' e e' he he' hptr

/-! ### One peer -/

/-- Disco keys become known by being used, and stay known. -/
structure Learns (c c' : ConnPeers H) : Prop where
  old : ∀ dk, c.peerMap.knownPeerDiscoKey dk = true → c'.peerMap.knownPeerDiscoKey dk = true
  new : ∀ dk, c'.peerMap.knownPeerDiscoKey dk = true →
    c.peerMap.knownPeerDiscoKey dk = true ∨ c'.InUse dk

/-- What is filed afterwards was filed before, or has an ID. -/
def IDed (c c' : ConnPeers H) : Prop :=
  ∀ nk ep, c'.peerMap.endpointAt nk = some ep → c.peerMap.endpointAt nk = some ep ∨ ep.nodeID ≠ 0

theorem IDed.trans {c₂ c₃} (h : c₁.IDed c₂) (h' : c₂.IDed c₃) : c₁.IDed c₃ :=
  fun nk ep hep => (h' nk ep hep).elim (h nk ep) .inr

/-- What operations do to the disco keys and the IDs. -/
structure Grows (c c' : ConnPeers H) : Prop extends Learns c c' where
  ided : c.IDed c'

theorem Grows.refl (c : ConnPeers H) : c.Grows c := ⟨⟨fun _ => id, fun _ => .inl⟩, fun _ _ => .inl⟩

theorem Grows.of_deleted {dk?} (h : c.peerMap.Deleted ep dk? c'.peerMap) : c.Grows c' where
  old dk hdk := (h.known dk).trans hdk
  new dk hdk := .inl (h.known dk ▸ hdk)
  ided nk e he := by
    rw [h.key, update_apply] at he
    split at he
    · cases he
    · exact .inl he

theorem Filed.grows {dk?} (h : c.Filed ep dk? c') (hid : ep.nodeID ≠ 0) : c.Grows c' where
  old dk hdk := (h.known dk).2 (.inl hdk)
  new dk hdk := by
    rcases (h.known dk).1 hdk with hdk | ⟨hwg, hdk⟩
    · exact .inl hdk
    · refine .inr ⟨ep.publicKey, ep, ?_, hwg, h.disco.trans hdk⟩
      rw [h.key, update_self]
  ided nk e he := by
    rw [h.key, update_apply] at he
    split at he
    · exact .inr (some.inj he ▸ hid)
    · exact .inl he

/-- What the endpoint of a node is once the node was upserted. -/
structure Upserts (c : ConnPeers H) (n : Node H) (c' : ConnPeers H) : Prop where
  /-- The endpoints of other nodes stay. -/
  others : ∀ nodeID ≠ n.id, c'.peerMap.endpointForNodeID nodeID = c.peerMap.endpointForNodeID nodeID
  /-- The node has an endpoint, if it is not too old. -/
  own : (c'.peerMap.endpointForNodeID n.id).map EndpointRef.publicKey =
    if isUnsupported n then none else some n.key

theorem Filed.upserts {dk?} (h : c.Filed ep dk? c') (hid : ep.nodeID = n.id)
    (hkey : ep.publicKey = n.key) (hnew : ¬isUnsupported n = true) : c.Upserts n c' where
  others nodeID hne := by rw [h.id, hid, update_of_ne hne]
  own := by rw [h.id, hid, update_self, if_neg hnew, map_some, hkey]

theorem endpointAt_eq_none (hkey : n.key ≠ 0)
    (hnone : ¬(c.peerMap.endpointForNodeKey n.key).isSome = true) :
    c.peerMap.endpointAt n.key = none := by
  rw [endpointForNodeKey, if_neg hkey] at hnone
  simpa [endpointAt] using hnone

theorem WF.createPeer (h : c.WF) (hkey : n.key ≠ 0)
    (hnone : c.peerMap.endpointForNodeID n.id = none) (hok : c.createPeer addrs n = .ok c') :
    c'.WF ∧ c.Grows c' ∧ (c.peerMap.endpointAt n.key = none → c.Upserts n c') := by
  unfold ConnPeers.createPeer at hok
  split at hok
  next hsome =>
    cases hok
    refine ⟨h, .refl c, fun hat => ?_⟩
    rw [endpointForNodeKey] at hsome
    rw [endpointAt] at hat
    simp [hat] at hsome
  next hfree =>
    split at hok
    next hold =>
      cases hok
      refine ⟨h, .refl c, fun _ => ⟨fun _ _ => rfl, ?_⟩⟩
      rw [hnone, if_pos hold]
      rfl
    next hnew =>
      have hat := endpointAt_eq_none hkey hfree
      let ep := c.newEndpoint n
      let c₀ : ConnPeers H := { c with nextEndpoint := c.nextEndpoint + 1 }
      have hdisco (p : Nat) :
          ((c₀.updateDiscoKey ep n.discoKey).updateFromNode ep n).disco.lookup p =
          if p = ep.ptr then keyOrNil n.discoKey else c.disco.lookup p := by
        rw [lookup_updateFromNode, lookup_updateDiscoKey]
        · split <;> rfl
        · rw [lookup_updateDiscoKey, if_pos rfl]
          exact keyOrNil_ne_zero _
      obtain ⟨hmap, hnext⟩ := updateFromNode_peerMap (c₀.updateDiscoKey ep n.discoKey) ep n
      have hp : c.Prepared ep 0 n.discoKey _ :=
        { sameKey := fun e he => absurd (he.symm.trans hat) (some_ne_none e)
          sameID := fun e he => absurd (he.symm.trans hnone) (some_ne_none e)
          samePtr := fun nk e he hptr => absurd hptr (ne_of_lt (h.fresh nk e he))
          old := fun hep => absurd (hep.symm.trans hat) (some_ne_none ep)
          peerMap := hmap
          disco := hdisco
          next := hnext ▸ Nat.le_succ c.nextEndpoint
          ptr_lt := hnext ▸ Nat.lt_succ_self c.nextEndpoint }
      obtain ⟨hwf, hfiled, hid⟩ := h.upsertEndpoint hp hok
      exact ⟨hwf, hfiled.grows hid, fun _ => hfiled.upserts rfl rfl hnew⟩

/-- An endpoint that is there gets another disco key. -/
theorem WF.refile (h : c.WF) (hep : c.peerMap.endpointAt ep.publicKey = some ep)
    (hdisco : ∀ p, c₁.disco.lookup p = if p = ep.ptr then keyOrNil key else c.disco.lookup p)
    (hmap : c₁.peerMap = c.peerMap) (hnext : c₁.nextEndpoint = c.nextEndpoint)
    (hok : c₁.upsertEndpoint ep addrs (c.discoKeyOrZero ep) = .ok c') :
    c'.WF ∧ c.Filed ep (keyOrNil key) c' ∧ ep.nodeID ≠ 0 := by
  refine h.upsertEndpoint ⟨?_, ?_, ?_, ?_, hmap, hdisco, hnext.ge, ?_⟩ hok
  · exact fun e he => Option.mem_unique he hep
  · exact fun e he => some.inj (he.symm.trans ((h.indexes.same ep).1 hep))
  · exact fun nk e he hp => h.ptr_inj nk _ e ep he hep hp
  · intro _ dk hdk
    rw [discoKeyOrZero, hdk]
    rfl
  · rw [hnext]
    exact h.fresh _ ep hep

theorem WF.updatePeer (h : c.WF) (hep : c.peerMap.endpointAt ep.publicKey = some ep)
    (hid : ep.nodeID = n.id) (hkey : ep.publicKey = n.key)
    (hok : c.updatePeer addrs n ep = .ok c') : c'.WF ∧ c.Grows c' ∧ c.Upserts n c' := by
  unfold ConnPeers.updatePeer at hok
  split at hok
  next hold =>
    cases hok
    obtain ⟨hwf, hdel⟩ := h.deleteEndpoint hep
    refine ⟨hwf, .of_deleted hdel, fun nodeID hne => ?_, ?_⟩
    · rw [hdel.id, hid, update_of_ne hne]
    · rw [hdel.id, hid, update_self, if_pos hold]
      rfl
  next hnew =>
    obtain ⟨hmap, hnext⟩ := updateFromNode_peerMap c ep n
    obtain ⟨hwf, hfiled, hne⟩ :=
      h.refile hep (lookup_updateFromNode (h.nonzero ep.ptr) n) hmap hnext hok
    exact ⟨hwf, hfiled.grows hne, hfiled.upserts hid hkey hnew⟩

/-- A node with another key gets a new endpoint in the place of its old one. -/
theorem WF.replacePeer (h : c.WF) (hep : c.peerMap.endpointAt ep.publicKey = some ep)
    (hid : ep.nodeID = n.id) (hkey : n.key ≠ 0) (hrotated : ep.publicKey ≠ n.key)
    (hok : (c.deleteEndpoint ep).createPeer addrs n = .ok c') :
    c'.WF ∧ c.Grows c' ∧
      ((∀ e, c.peerMap.endpointAt n.key = some e → e.nodeID = n.id) → c.Upserts n c') := by
  obtain ⟨hwf₁, hdel⟩ := h.deleteEndpoint hep
  have hnone : (c.deleteEndpoint ep).peerMap.endpointForNodeID n.id = none := by
    rw [hdel.id, hid, update_self]
  obtain ⟨hwf, hgrows, hup⟩ := hwf₁.createPeer hkey hnone hok
  have hgone := Grows.of_deleted hdel
  refine ⟨hwf, ⟨⟨fun dk hdk => ?_, fun dk hdk => ?_⟩, hgone.ided.trans hgrows.ided⟩,
    fun hmove => ?_⟩
  · exact hgrows.old dk (hgone.old dk hdk)
  · simpa only [hdel.known] using hgrows.new dk hdk
  · have hat : (c.deleteEndpoint ep).peerMap.endpointAt n.key = none := by
      rw [hdel.key, update_of_ne hrotated.symm, eq_none_iff_forall_ne_some]
      intro e he
      have hi := h.indexes.byID_of_byKey he
      rw [hmove e he, ← hid, h.indexes.byID_of_byKey hep] at hi
      cases hi
      exact hrotated (h.indexes.key_eq _ ep he)
    refine ⟨fun nodeID hne => ?_, (hup hat).own⟩
    rw [(hup hat).others nodeID hne, hdel.id, hid, update_of_ne hne]

/-- **Upserting a peer.** -/
theorem WF.upsertPeerLocked (h : c.WF) (hok : c.upsertPeerLocked addrs n = .ok c') :
    c'.WF ∧ c.Grows c' ∧
      (n.id ≠ 0 → n.key ≠ 0 → (∀ e, c.peerMap.endpointAt n.key = some e → e.nodeID = n.id) →
        c.Upserts n c') := by
  unfold ConnPeers.upsertPeerLocked at hok
  split at hok
  next hid =>
    cases hok
    exact ⟨h, .refl c, fun hne => absurd hid hne⟩
  · split at hok
    next hkey =>
      cases hok
      exact ⟨h, .refl c, fun _ hne => absurd hkey hne⟩
    next hkey =>
      split at hok
      next hnone =>
        obtain ⟨hwf, hgrows, hup⟩ := h.createPeer hkey hnone hok
        refine ⟨hwf, hgrows, fun _ _ hmove => hup ?_⟩
        rw [eq_none_iff_forall_ne_some]
        intro e he
        have hi := h.indexes.byID_of_byKey he
        rw [hmove e he, hnone] at hi
        cases hi
      next ep hsome =>
        have hid := h.indexes.id_eq _ ep hsome
        have hep := h.indexes.byKey_of_byID hsome
        split at hok
        next hrotated =>
          obtain ⟨hwf, hgrows, hup⟩ := h.replacePeer hep hid hkey hrotated hok
          exact ⟨hwf, hgrows, fun _ _ => hup⟩
        next hsame =>
          obtain ⟨hwf, hgrows, hup⟩ := h.updatePeer hep hid (not_not.1 hsame) hok
          exact ⟨hwf, hgrows, fun _ _ _ => hup⟩

theorem discoInfoForKnownPeerLocked_eq {k : PublicKey}
    (hok : c.discoInfoForKnownPeerLocked k = .ok c') :
    c' = { c with discoInfo := insert k c.discoInfo } ∧ (k ∈ c.discoInfo ∨ k ≠ 0) := by
  unfold ConnPeers.discoInfoForKnownPeerLocked at hok
  split_ifs at hok with hin hzero
  · cases hok
    rw [Finset.insert_eq_of_mem hin]
    exact ⟨rfl, .inl hin⟩
  · exact ⟨(Except.ok.inj hok).symm, .inr hzero⟩

/-- The endpoint of a peer gets the disco key that the peer advertised. -/
theorem WF.handleDiscoKeyAdvertisement (h : c.WF) {nodeKey dk : PublicKey}
    (hok : c.handleDiscoKeyAdvertisement addrs nodeKey dk = .ok c') : c'.WF ∧ c.Grows c' ∧
      (c' = c ∨ ∃ ep, c.Filed ep (keyOrNil dk) c' ∧ c'.discoInfo = insert dk c.discoInfo ∧
        (dk ∈ c.discoInfo ∨ dk ≠ 0)) := by
  unfold ConnPeers.handleDiscoKeyAdvertisement at hok
  split at hok
  · cases hok
    exact ⟨h, .refl c, .inl rfl⟩
  next ep hsome =>
    dsimp only at hok
    split at hok
    · cases hok
      exact ⟨h, .refl c, .inl rfl⟩
    have hep := h.endpointAt_publicKey hsome
    obtain ⟨c₁, hinfo, hok⟩ := bind_eq_ok_iff.1 hok
    obtain ⟨rfl, hdk⟩ := discoInfoForKnownPeerLocked_eq hinfo
    have hkeys := lookup_updateDiscoKey { c with discoInfo := insert dk c.discoInfo } ep dk
    obtain ⟨hwf, hfiled, hid⟩ := h.refile hep hkeys rfl rfl hok
    obtain ⟨m, -, rfl⟩ := map_eq_ok_iff.1 hok
    exact ⟨hwf, hfiled.grows hid, .inr ⟨ep, hfiled, rfl, hdk⟩⟩

/-! ### The rest of the connection -/

/-- All but the endpoints. -/
def rest (c : ConnPeers H) : ConnPeers H := { c with peerMap := {}, disco := {}, nextEndpoint := 0 }

theorem rest_updateFromNode (c : ConnPeers H) (ep : EndpointRef) (n : Node H) :
    (c.updateFromNode ep n).rest = c.rest := by
  unfold updateFromNode
  split <;> rfl

theorem rest_upsertEndpoint (hok : c.upsertEndpoint ep addrs old = .ok c') : c'.rest = c.rest := by
  obtain ⟨m, -, rfl⟩ := map_eq_ok_iff.1 hok
  rfl

theorem rest_createPeer (hok : c.createPeer addrs n = .ok c') : c'.rest = c.rest := by
  unfold ConnPeers.createPeer at hok
  split_ifs at hok
  · cases hok
    rfl
  · cases hok
    rfl
  · exact (rest_upsertEndpoint hok).trans (rest_updateFromNode _ _ n)

theorem rest_upsertPeerLocked (hok : c.upsertPeerLocked addrs n = .ok c') : c'.rest = c.rest := by
  unfold ConnPeers.upsertPeerLocked at hok
  split_ifs at hok
  · cases hok
    rfl
  · cases hok
    rfl
  split at hok
  · exact rest_createPeer hok
  unfold ConnPeers.updatePeer at hok
  split_ifs at hok
  · exact (rest_createPeer hok).trans rfl
  · cases hok
    rfl
  · exact (rest_upsertEndpoint hok).trans (rest_updateFromNode _ _ n)

end ConnPeers

end Multiport.Magicsock

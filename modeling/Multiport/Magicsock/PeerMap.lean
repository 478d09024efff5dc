import Multiport.Lib.Index
import Multiport.Lib.Runs
import Multiport.Tailcfg.Node

/-!
# The peer map

`peerMap` (`wgengine/magicsock/peermap.go`) finds the endpoint of a peer by its
node key, by its node ID, and by the addresses it was heard from.  The last index
is kept in both directions, by hand: `byEpAddr` leads from an address to a
`peerInfo`, and each `peerInfo` has the set `epAddrs` of its addresses.

Pointers are numbers.  A `*peerInfo` points into `infos`; an `*endpoint` is an
`EndpointRef`, its pointer together with the fields that are set when the endpoint
is made.  Its disco key and its candidate addresses change, so that an operation
that reads them has them as arguments.
-/

namespace Multiport.Magicsock

open Lib Net Tailcfg GoMap Option

/-- An `*endpoint` with the fields that never change. -/
structure EndpointRef where
  ptr : Nat
  nodeID : NodeID
  publicKey : PublicKey
  isWireguardOnly : Bool := false
deriving DecidableEq, Repr

structure PeerInfo where
  ep : EndpointRef
  epAddrs : Finset EpAddr := ∅
deriving DecidableEq

/-- `peerMap`, with the `peerInfo`s made so far. -/
structure PeerMap where
  infos : GoMap Nat PeerInfo := ∅
  nextInfo : Nat := 0
  byNodeKey : GoMap PublicKey Nat := ∅
  byEpAddr : GoMap EpAddr Nat := ∅
  byNodeID : GoMap NodeID Nat := ∅
  relayEpAddrByNodeKey : GoMap PublicKey EpAddr := ∅
  nodesOfDisco : GoMap PublicKey (Finset PublicKey) := ∅

/-- Why an operation panics. -/
inductive PeerMapPanic where
  | zeroNodeID
  /-- `epDisco.key` of a nil `epDisco`. -/
  | nilDisco
  /-- `DiscoPrivate.Shared` with a zero key. -/
  | zeroKey
deriving DecidableEq, Repr

namespace PeerMap

variable (m : PeerMap)

/-- `nodeCount`, in production. -/
def nodeCount : Nat := m.byNodeKey.size

def knownPeerDiscoKey (dk : PublicKey) : Bool := (m.nodesOfDisco.lookup dk).isSome

/-- The endpoint of a `*peerInfo`. -/
def endpointOf (pi : Nat) : Option EndpointRef := (m.infos.lookup pi).map PeerInfo.ep

def endpointForNodeKey (nk : PublicKey) : Option EndpointRef :=
  if nk = 0 then none else (m.byNodeKey.lookup nk).bind m.endpointOf

def endpointForNodeID (nodeID : NodeID) : Option EndpointRef :=
  (m.byNodeID.lookup nodeID).bind m.endpointOf

/-- The endpoints in the order of `forEachEndpoint`. -/
def endpoints : List EndpointRef := m.byNodeKey.values.filterMap m.endpointOf

/-- The map with other addresses for one `*peerInfo`, and other maps for addresses. -/
def withAddrs (pi : Nat) (f : Finset EpAddr → Finset EpAddr)
    (byEpAddr : GoMap EpAddr Nat) (relay : GoMap PublicKey EpAddr) : PeerMap :=
  { m with
    infos := m.infos.modify pi fun info => { info with epAddrs := f info.epAddrs }
    byEpAddr := byEpAddr
    relayEpAddrByNodeKey := relay }

/-- The first half of `setNodeKeyForEpAddr`: whoever has the address loses it. -/
def dropEpAddr (addr : EpAddr) : PeerMap :=
  match m.byEpAddr.lookup addr with
  | none => m
  | some pi =>
    m.withAddrs pi (·.erase addr) (m.byEpAddr.erase addr)
      (match addr.vni.isSet, m.endpointOf pi with
        | true, some ep => m.relayEpAddrByNodeKey.erase ep.publicKey
        | _, _ => m.relayEpAddrByNodeKey)

/-- The relay address of `nk`, if there is one, makes room for another. -/
def dropRelay (pi : Nat) (nk : PublicKey) : PeerMap :=
  match m.relayEpAddrByNodeKey.lookup nk with
  | none => m
  | some relay =>
    m.withAddrs pi (·.erase relay) (m.byEpAddr.erase relay) m.relayEpAddrByNodeKey

/-- The second half of `setNodeKeyForEpAddr`: the peer gets the address, if it is there. -/
def addEpAddr (addr : EpAddr) (nk : PublicKey) : PeerMap :=
  match m.byNodeKey.lookup nk with
  | none => m
  | some pi =>
    let m := if addr.vni.isSet then m.dropRelay pi nk else m
    m.withAddrs pi (insert addr) (m.byEpAddr.insert addr pi)
      (if addr.vni.isSet then m.relayEpAddrByNodeKey.insert nk addr else m.relayEpAddrByNodeKey)

def setNodeKeyForEpAddr (addr : EpAddr) (nk : PublicKey) : PeerMap :=
  (m.dropEpAddr addr).addEpAddr addr nk

variable (ep : EndpointRef)

/-- `pi = newPeerInfo(ep); m.byNodeKey[ep.publicKey] = pi`. -/
def addInfo : PeerMap :=
  { m with
    infos := m.infos.insert m.nextInfo { ep }
    nextInfo := m.nextInfo + 1
    byNodeKey := m.byNodeKey.insert ep.publicKey m.nextInfo }

/-- `m.byNodeKey[ep.publicKey]`, made if it is not there. -/
def ensureInfo : PeerMap × Nat :=
  match m.byNodeKey.lookup ep.publicKey with
  | some pi => (m, pi)
  | none => (m.addInfo ep, m.nextInfo)

/-- `delete(m.nodesOfDisco[dk], nk)`. -/
def forgetDisco (dk nk : PublicKey) : PeerMap :=
  { m with nodesOfDisco := m.nodesOfDisco.modify dk (·.erase nk) }

/-- The endpoint can be found by its key and by its ID. -/
def file : PeerMap :=
  let (m, pi) := m.ensureInfo ep
  { m with byNodeID := m.byNodeID.insert ep.nodeID pi }

/-- The node key is no longer listed under a disco key that the endpoint does not have. -/
def forgetOldDisco (disco : Option PublicKey) (oldDiscoKey nk : PublicKey) : PeerMap :=
  if disco ≠ some oldDiscoKey then m.forgetDisco oldDiscoKey nk else m

/-- The node is one of those with the disco key. -/
def addDisco (dk nk : PublicKey) : PeerMap :=
  let discoSet := (m.nodesOfDisco.lookup dk).getD ∅
  { m with nodesOfDisco := m.nodesOfDisco.insert dk (insert nk discoSet) }

/-- `upsertEndpoint`; `disco` and `addrs` are the disco key and the candidate addresses
of the endpoint. -/
def upsertEndpoint (disco : Option PublicKey)
    (addrs : List AddrPort) (oldDiscoKey : PublicKey) : Except PeerMapPanic PeerMap :=
  if ep.nodeID = 0 then .error .zeroNodeID
  else
    let m := (m.file ep).forgetOldDisco disco oldDiscoKey ep.publicKey
    if ep.isWireguardOnly then
      .ok (addrs.foldl (fun m ipp => m.setNodeKeyForEpAddr { ap := ipp } ep.publicKey) m)
    else match disco with
      | none => .error .nilDisco
      | some dk => .ok (m.addDisco dk ep.publicKey)

/-- The maps of keys, IDs and disco keys without an endpoint. -/
def unfile (disco : Option PublicKey) : PeerMap :=
  { m with
    nodesOfDisco := match disco with
      | some dk => (m.forgetDisco dk ep.publicKey).nodesOfDisco
      | none => m.nodesOfDisco
    byNodeKey := m.byNodeKey.erase ep.publicKey
    byNodeID := if m.endpointForNodeID ep.nodeID = some ep then m.byNodeID.erase ep.nodeID
      else m.byNodeID }

/-- `deleteEndpoint`, of an endpoint that is not nil and has the disco key `disco`. -/
def deleteEndpoint (disco : Option PublicKey) : PeerMap :=
  match (m.byNodeKey.lookup ep.publicKey).bind m.infos.lookup with
  | none => m.unfile ep disco
  | some info =>
    { m.unfile ep disco with
      byEpAddr := m.byEpAddr.deleteWhere fun addr _ => addr ∈ info.epAddrs
      relayEpAddrByNodeKey := m.relayEpAddrByNodeKey.erase ep.publicKey }

/-! ## The index of addresses -/

/-- The addresses of a `*peerInfo`. -/
def epAddrsOf (pi : Nat) : Finset EpAddr :=
  ((m.infos.lookup pi).map PeerInfo.epAddrs).getD ∅

/-- The `*peerInfo` is that of a peer in the map. -/
def Live (pi : Nat) : Prop := ∃ nk, m.byNodeKey.lookup nk = some pi

/-- **The index of addresses is exact.** -/
structure Exact (m : PeerMap) : Prop where
  /-- `byEpAddr` and the sets of the peers are inverse to each other, and lead to peers in
  the map. -/
  inverse : ReverseIndex m.byEpAddr m.Live m.epAddrsOf
  /-- The relay address of a peer is what `relayEpAddrByNodeKey` has for it. -/
  relay : ∀ nk addr, m.relayEpAddrByNodeKey.lookup nk = some addr ↔
    addr.vni.isSet = true ∧
      ∃ pi, m.byNodeKey.lookup nk = some pi ∧ m.byEpAddr.lookup addr = some pi

/-- Peers have a `peerInfo` each, for an endpoint with their key. -/
structure Filed (m : PeerMap) : Prop where
  keyed : ∀ nk pi, m.byNodeKey.lookup nk = some pi →
    ∃ info, m.infos.lookup pi = some info ∧ info.ep.publicKey = nk
  fresh : ∀ pi info, m.infos.lookup pi = some info → pi < m.nextInfo

/-- Both invariants of the index. -/
structure Sound (m : PeerMap) : Prop extends Filed m, Exact m

variable {m} {addr : EpAddr} {nk : PublicKey} {pi : Nat} {ep : EndpointRef}

theorem Filed.key_inj (h : m.Filed) {nk nk' : PublicKey} (hk : m.byNodeKey.lookup nk = some pi)
    (hk' : m.byNodeKey.lookup nk' = some pi) : nk = nk' := by
  obtain ⟨info, hinfo, rfl⟩ := h.keyed nk pi hk
  obtain ⟨info', hinfo', rfl⟩ := h.keyed nk' pi hk'
  rw [hinfo] at hinfo'
  rw [some.inj hinfo']

/-- The owner of an address, by its key. -/
theorem Sound.owner (h : m.Sound) (ha : m.byEpAddr.lookup addr = some pi) :
    ∃ info, m.infos.lookup pi = some info ∧ m.byNodeKey.lookup info.ep.publicKey = some pi := by
  obtain ⟨⟨nk, hnk⟩, -⟩ := (h.inverse addr pi).1 ha
  obtain ⟨info, hinfo, rfl⟩ := h.keyed nk pi hnk
  exact ⟨info, hinfo, hnk⟩

section WithAddrs

variable {f : Finset EpAddr → Finset EpAddr} {byEpAddr : GoMap EpAddr Nat}
  {relay : GoMap PublicKey EpAddr}

theorem epAddrsOf_withAddrs (hpi : (m.infos.lookup pi).isSome) :
    (m.withAddrs pi f byEpAddr relay).epAddrsOf =
      Function.update m.epAddrsOf pi (f (m.epAddrsOf pi)) := by
  funext q
  unfold epAddrsOf withAddrs
  rw [lookup_modify]
  by_cases hq : q = pi
  · subst hq
    obtain ⟨info, hinfo⟩ := isSome_iff_exists.1 hpi
    simp [hinfo]
  · simp [hq]

theorem Filed.withAddrs (h : m.Filed) : (m.withAddrs pi f byEpAddr relay).Filed where
  keyed nk q hk := by
    obtain ⟨info, hinfo, hkey⟩ := h.keyed nk q hk
    unfold PeerMap.withAddrs
    rw [lookup_modify, hinfo]
    by_cases hq : q = pi
    · exact ⟨_, if_pos hq, hkey⟩
    · exact ⟨_, if_neg hq, hkey⟩
  fresh q info hinfo := by
    unfold PeerMap.withAddrs at hinfo
    rw [lookup_modify] at hinfo
    split at hinfo
    · obtain ⟨info', hinfo', -⟩ := map_eq_some_iff.1 hinfo
      exact h.fresh q info' hinfo'
    · exact h.fresh q info hinfo

end WithAddrs

/-! ### Moving an address -/

/-- The relay addresses, as an index of the marked addresses. -/
theorem Exact.marked (h : m.Exact) :
    MarkedIndex (fun a => a.vni.isSet) m.byNodeKey m.byEpAddr m.relayEpAddrByNodeKey :=
  h.relay

theorem lookup_dropEpAddr (m : PeerMap) (addr : EpAddr) :
    (m.dropEpAddr addr).byEpAddr.lookup addr = none := by
  unfold PeerMap.dropEpAddr
  split
  · assumption
  · exact AList.lookup_erase _ _

theorem byNodeKey_dropRelay (m : PeerMap) (pi : Nat) (nk : PublicKey) :
    (m.dropRelay pi nk).byNodeKey = m.byNodeKey := by
  rw [PeerMap.dropRelay]
  split <;> rfl

theorem relayEpAddrByNodeKey_dropRelay (m : PeerMap) (pi : Nat) (nk : PublicKey) :
    (m.dropRelay pi nk).relayEpAddrByNodeKey = m.relayEpAddrByNodeKey := by
  rw [PeerMap.dropRelay]
  split <;> rfl

/-! ### Peers that come and go -/

theorem Filed.lookup_nextInfo (h : m.Filed) : m.infos.lookup m.nextInfo = none := by
  rw [eq_none_iff_forall_ne_some]
  intro info hinfo
  exact absurd (h.fresh _ _ hinfo) (lt_irrefl _)

theorem Filed.addInfo (h : m.Filed) (ep : EndpointRef) : (m.addInfo ep).Filed where
  keyed nk pi hnk := by
    unfold PeerMap.addInfo at hnk ⊢
    rw [lookup_insert_eq] at hnk ⊢
    by_cases heq : nk = ep.publicKey
    · rw [if_pos heq] at hnk
      cases hnk
      exact ⟨_, if_pos rfl, heq.symm⟩
    · rw [if_neg heq] at hnk
      obtain ⟨info, hinfo, hkey⟩ := h.keyed nk pi hnk
      have hne : pi ≠ m.nextInfo := ne_of_lt (h.fresh pi info hinfo)
      exact ⟨info, (if_neg hne).trans hinfo, hkey⟩
  fresh pi info hinfo := by
    unfold PeerMap.addInfo at hinfo ⊢
    dsimp only at hinfo ⊢
    rw [lookup_insert_eq] at hinfo
    split at hinfo
    next heq => omega
    · exact Nat.lt_succ_of_lt (h.fresh pi info hinfo)

theorem epAddrsOf_addInfo (h : m.Filed) (ep : EndpointRef) :
    (m.addInfo ep).epAddrsOf = m.epAddrsOf := by
  funext pi
  unfold epAddrsOf PeerMap.addInfo
  rw [lookup_insert_eq]
  by_cases hpi : pi = m.nextInfo
  · subst hpi
    rw [h.lookup_nextInfo, if_pos rfl]
    rfl
  · rw [if_neg hpi]

section

variable (h : m.Sound)

include h

theorem Sound.dropEpAddr (addr : EpAddr) : (m.dropEpAddr addr).Sound := by
  unfold PeerMap.dropEpAddr
  cases ha : m.byEpAddr.lookup addr with
  | none => exact h
  | some pi =>
    obtain ⟨info, hinfo, hnk⟩ := h.owner ha
    have hep : m.endpointOf pi = some info.ep := by rw [endpointOf, hinfo]; rfl
    simp only [hep]
    refine { h.toFiled.withAddrs with inverse := ?_, relay := ?_ }
    · rw [epAddrsOf_withAddrs (by rw [hinfo]; rfl)]
      exact h.inverse.erase ha
    · cases hset : addr.vni.isSet with
      | false =>
        refine h.marked.congr_marked fun a haset => ?_
        refine AList.lookup_erase_ne ?_
        rintro rfl
        exact Bool.false_ne_true (hset.symm.trans haset)
      | true => exact h.marked.erase hnk (fun _ hnk' => h.key_inj hnk' hnk) hset ha

/-- Making room for a relay address leaves the peer without one, and the others as they were. -/
theorem Sound.dropRelay (hk : m.byNodeKey.lookup nk = some pi) : (m.dropRelay pi nk).Filed ∧
      ReverseIndex (m.dropRelay pi nk).byEpAddr m.Live (m.dropRelay pi nk).epAddrsOf ∧
      MarkedIndex (fun a => a.vni.isSet) m.byNodeKey (m.dropRelay pi nk).byEpAddr
        (m.relayEpAddrByNodeKey.erase nk) ∧
      ∀ a, m.byEpAddr.lookup a = none → (m.dropRelay pi nk).byEpAddr.lookup a = none := by
  unfold PeerMap.dropRelay
  cases hr : m.relayEpAddrByNodeKey.lookup nk with
  | none => exact ⟨h.toFiled, h.inverse, h.marked.erase_key_of_none hr, fun _ => id⟩
  | some relay =>
    obtain ⟨hset, q, hq, ha⟩ := (h.relay nk relay).1 hr
    cases hk.symm.trans hq
    obtain ⟨info, hinfo, -⟩ := h.owner ha
    refine ⟨h.toFiled.withAddrs, ?_,
      h.marked.erase hk (fun _ hk' => h.key_inj hk' hk) hset ha, fun a hnone => ?_⟩
    · rw [epAddrsOf_withAddrs (by rw [hinfo]; rfl)]
      exact h.inverse.erase ha
    · change (m.byEpAddr.erase relay).lookup a = none
      rw [lookup_erase_eq, hnone, ite_self]

/-- The peer gets an address that nobody has, and that is no relay. -/
theorem Sound.withAddr (hk : m.byNodeKey.lookup nk = some pi) (ha : m.byEpAddr.lookup addr = none)
    (hset : addr.vni.isSet = false) :
    (m.withAddrs pi (insert addr) (m.byEpAddr.insert addr pi) m.relayEpAddrByNodeKey).Sound := by
  obtain ⟨info, hinfo, -⟩ := h.keyed nk pi hk
  refine { h.toFiled.withAddrs with inverse := ?_, relay := ?_ }
  · rw [epAddrsOf_withAddrs (by rw [hinfo]; rfl)]
    exact h.inverse.insert ha ⟨nk, hk⟩
  · refine h.marked.congr_marked fun a haset => ?_
    refine AList.lookup_insert_ne ?_
    rintro rfl
    exact Bool.false_ne_true (hset.symm.trans haset)

/-- The peer gets an address that nobody has, and that is its relay address from now on. -/
theorem Sound.withRelay (hk : m.byNodeKey.lookup nk = some pi) (ha : m.byEpAddr.lookup addr = none)
    (hset : addr.vni.isSet = true) :
    ((m.dropRelay pi nk).withAddrs pi (insert addr) ((m.dropRelay pi nk).byEpAddr.insert addr pi)
      ((m.dropRelay pi nk).relayEpAddrByNodeKey.insert nk addr)).Sound := by
  obtain ⟨hf, hinv, hmarked, hnone⟩ := h.dropRelay hk
  have hkeys := byNodeKey_dropRelay m pi nk
  obtain ⟨info, hinfo, -⟩ := hf.keyed nk pi (hkeys ▸ hk)
  refine { hf.withAddrs with inverse := ?_, relay := ?_ }
  · rw [epAddrsOf_withAddrs (by rw [hinfo]; rfl)]
    have hlive : (m.dropRelay pi nk).Live = m.Live := by
      unfold Live
      rw [hkeys]
    change ReverseIndex _ (m.dropRelay pi nk).Live _
    rw [hlive]
    exact hinv.insert (hnone addr ha) ⟨nk, hk⟩
  · change MarkedIndex (fun a : EpAddr => a.vni.isSet) (m.dropRelay pi nk).byNodeKey _ _
    rw [hkeys, relayEpAddrByNodeKey_dropRelay]
    exact hmarked.insert hk (fun _ hk' => h.key_inj hk' hk) hset (hnone addr ha)

theorem Sound.addEpAddr (ha : m.byEpAddr.lookup addr = none) (nk : PublicKey) :
    (m.addEpAddr addr nk).Sound := by
  unfold PeerMap.addEpAddr
  cases hk : m.byNodeKey.lookup nk with
  | none => exact h
  | some pi =>
    cases hset : addr.vni.isSet with
    | false => exact h.withAddr hk ha hset
    | true => exact h.withRelay hk ha hset

theorem Sound.setNodeKeyForEpAddr (addr : EpAddr) (nk : PublicKey) :
    (m.setNodeKeyForEpAddr addr nk).Sound :=
  (h.dropEpAddr addr).addEpAddr (lookup_dropEpAddr m addr) nk

/-- Soundness does not depend on the other two maps. -/
theorem Sound.of_same {m' : PeerMap} (hinfos : m'.infos = m.infos)
    (hnext : m'.nextInfo = m.nextInfo)
    (hkeys : ∀ nk, m'.byNodeKey.lookup nk = m.byNodeKey.lookup nk)
    (haddrs : m'.byEpAddr = m.byEpAddr)
    (hrelay : m'.relayEpAddrByNodeKey = m.relayEpAddrByNodeKey) :
    m'.Sound where
  keyed := by
    rw [hinfos]
    simpa only [hkeys] using h.keyed
  fresh := by
    rw [hinfos, hnext]
    exact h.fresh
  inverse := by
    have hlive : m'.Live = m.Live := by
      funext pi
      simp only [Live, hkeys]
    have hsets : m'.epAddrsOf = m.epAddrsOf := by
      funext pi
      rw [epAddrsOf, epAddrsOf, hinfos]
    rw [haddrs, hlive, hsets]
    exact h.inverse
  relay := by
    rw [hrelay, haddrs]
    simpa only [hkeys] using h.relay

theorem Sound.addInfo (hk : m.byNodeKey.lookup ep.publicKey = none) : (m.addInfo ep).Sound := by
  have hdead (addr : EpAddr) : m.byEpAddr.lookup addr ≠ some m.nextInfo := by
    intro haddr
    obtain ⟨info, hinfo, -⟩ := h.owner haddr
    cases h.lookup_nextInfo.symm.trans hinfo
  refine { h.toFiled.addInfo ep with inverse := ?_, relay := h.marked.enlist hk hdead }
  rw [epAddrsOf_addInfo h.toFiled]
  refine h.inverse.enlist (p := m.nextInfo) ?_ fun q => ?_
  · rw [epAddrsOf, h.lookup_nextInfo]
    rfl
  · have hlook (nk : PublicKey) : (m.addInfo ep).byNodeKey.lookup nk = some q ↔
        m.byNodeKey.lookup nk = some q ∨ nk = ep.publicKey ∧ q = m.nextInfo := by
      change (m.byNodeKey.insert ep.publicKey m.nextInfo).lookup nk = some q ↔ _
      rcases eq_or_ne nk ep.publicKey with rfl | hne
      · simp [hk, eq_comm]
      · simp [hne]
    simp only [Live, hlook, exists_or, exists_eq_left]

theorem Sound.ensureInfo (ep : EndpointRef) : (m.ensureInfo ep).1.Sound := by
  unfold PeerMap.ensureInfo
  cases hk : m.byNodeKey.lookup ep.publicKey with
  | some pi => exact h
  | none => exact h.addInfo hk

theorem Sound.file (ep : EndpointRef) : (m.file ep).Sound :=
  (h.ensureInfo ep).of_same rfl rfl (fun _ => rfl) rfl rfl

theorem Sound.forgetOldDisco (disco : Option PublicKey) (oldDiscoKey nk : PublicKey) :
    (m.forgetOldDisco disco oldDiscoKey nk).Sound := by
  unfold PeerMap.forgetOldDisco
  split
  · exact h.of_same rfl rfl (fun _ => rfl) rfl rfl
  · exact h

theorem Sound.upsertEndpoint {disco} {addrs}
    {oldDiscoKey : PublicKey} {m' : PeerMap}
    (hm : m.upsertEndpoint ep disco addrs oldDiscoKey = .ok m') : m'.Sound := by
  have hfiled := (h.file ep).forgetOldDisco disco oldDiscoKey ep.publicKey
  unfold PeerMap.upsertEndpoint at hm
  split at hm
  · cases hm
  split at hm
  · cases hm
    refine List.foldlRecOn (motive := PeerMap.Sound) addrs _ hfiled ?_
    exact fun m hm addr _ => hm.setNodeKeyForEpAddr _ _
  · split at hm
    · cases hm
    · cases hm
      exact hfiled.of_same rfl rfl (fun _ => rfl) rfl rfl

theorem Sound.deleteEndpoint (ep : EndpointRef) (disco : Option PublicKey) :
    (m.deleteEndpoint ep disco).Sound := by
  unfold PeerMap.deleteEndpoint unfile
  cases hk : m.byNodeKey.lookup ep.publicKey with
  | none =>
    rw [bind_none]
    refine h.of_same rfl rfl (fun nk => ?_) rfl rfl
    rw [lookup_erase_eq]
    split
    next heq => rw [heq, hk]
    · rfl
  | some pi =>
    obtain ⟨info, hinfo, hkey⟩ := h.keyed _ pi hk
    rw [bind_some, hinfo]
    dsimp only
    have hsets : m.epAddrsOf pi = info.epAddrs := by rw [epAddrsOf, hinfo]; rfl
    have hlook (nk : PublicKey) (q : Nat) :
        (m.byNodeKey.erase ep.publicKey).lookup nk = some q ↔
          m.byNodeKey.lookup nk = some q ∧ q ≠ pi := by
      rw [lookup_erase_iff]
      refine and_congr_right fun hq => not_congr ⟨?_, ?_⟩
      · rintro rfl
        exact Option.mem_unique hq hk
      · rintro rfl
        exact h.key_inj hq hk
    constructor
    · constructor
      · exact fun nk q hq => h.keyed nk q ((hlook nk q).1 hq).1
      · exact h.fresh
    · constructor
      · rw [← hsets]
        refine h.inverse.delete ⟨_, hk⟩ fun q => ?_
        simp [Live, hlook]
      · refine h.marked.delete (fun _ hk' => h.key_inj hk' hk) fun a q ha hmem => ?_
        exact (h.inverse.owner_unique ha ⟨_, hk⟩ (hsets ▸ hmem)).symm

end

/-! ## Runs -/

end PeerMap

/-- The operations on a peer map. -/
inductive PeerMapOp where
  | upsertEndpoint (ep : EndpointRef) (disco : Option PublicKey) (addrs : List AddrPort)
      (oldDiscoKey : PublicKey)
  | setNodeKeyForEpAddr (addr : EpAddr) (nk : PublicKey)
  | deleteEndpoint (ep : EndpointRef) (disco : Option PublicKey)

/-- The effect of an operation, unless it panics. -/
def PeerMapOp.exec (m : PeerMap) : PeerMapOp → Except PeerMapPanic PeerMap
  | upsertEndpoint ep disco addrs oldDiscoKey => m.upsertEndpoint ep disco addrs oldDiscoKey
  | setNodeKeyForEpAddr addr nk => .ok (m.setNodeKeyForEpAddr addr nk)
  | deleteEndpoint ep disco => .ok (m.deleteEndpoint ep disco)

/-- The operation takes one map to the other. -/
def PeerMapStep (m : PeerMap) (op : PeerMapOp) (m' : PeerMap) : Prop := op.exec m = .ok m'

theorem PeerMap.Sound.empty : ({} : PeerMap).Sound where
  keyed _ _ h := by simp at h
  fresh _ _ h := by simp at h
  inverse _ _ := by simp [Live]
  relay _ _ := by simp

theorem PeerMapStep.sound {m m' : PeerMap} {op : PeerMapOp} (h : PeerMapStep m op m')
    (hm : m.Sound) : m'.Sound := by
  cases op with
  | upsertEndpoint ep disco addrs oldDiscoKey => exact hm.upsertEndpoint h
  | setNodeKeyForEpAddr addr nk =>
    cases h
    exact hm.setNodeKeyForEpAddr addr nk
  | deleteEndpoint ep disco =>
    cases h
    exact hm.deleteEndpoint ep disco

/-- **The index of addresses is exact after every sequence of operations.** -/
theorem peerMap_exact {ops : List PeerMapOp} {m : PeerMap} (h : Run PeerMapStep {} ops m) :
    m.Exact :=
  (Run.invariant (I := fun _ m => PeerMap.Sound m) .empty
    (fun _ _ _ _ hm hstep => PeerMapStep.sound hstep hm) h).toExact

/-- A peer at `192.0.2.2:41641`, then behind one relay, then behind another. -/
theorem peerMap_exact_moved :
    let ep : EndpointRef := { ptr := 1, nodeID := 7, publicKey := 3 }
    let relay (vni : BitVec 32) : EpAddr := { ap := { addr := .v4 0xc6336401#32 }, vni := .set vni }
    let ops : List PeerMapOp :=
      [.upsertEndpoint ep (some 5) [] 0,
       .setNodeKeyForEpAddr { ap := { addr := .v4 0xc0000202#32, port := 41641 } } 3,
       .setNodeKeyForEpAddr (relay 1) 3, .setNodeKeyForEpAddr (relay 2) 3]
    ∃ m, Run PeerMapStep {} ops m ∧ m.Exact := by
  intro ep relay ops
  have hrun : ∃ m, Run PeerMapStep {} ops m :=
    ⟨_, (((Run.nil.snoc rfl).snoc rfl).snoc rfl).snoc rfl⟩
  obtain ⟨m, hrun⟩ := hrun
  exact ⟨m, hrun, peerMap_exact hrun⟩

end Multiport.Magicsock

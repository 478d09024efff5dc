import Multiport.Magicsock.PeerMap

/-!
# Peers by key, ID and disco key

What the operations of `peerMap` do to the maps that lead to an endpoint by its
node key and by its node ID, and to the sets of nodes that share a disco key.
`Upserted` and `Deleted` say it for an endpoint that is filed, or whose key nobody
has; callers of the map never file another one.
-/

namespace Multiport.Magicsock.PeerMap

open Lib Net Tailcfg List Function GoMap PeerMap

variable {m : PeerMap} {nk : PublicKey} {pi : Nat} {ep : EndpointRef}

/-- The endpoint filed under a node key. -/
def endpointAt (m : PeerMap) (nk : PublicKey) : Option EndpointRef :=
  (m.byNodeKey.lookup nk).bind m.endpointOf

/-- `nodesOfDisco[dk]`. -/
def nodesOf (m : PeerMap) (dk : PublicKey) : Finset PublicKey := (m.nodesOfDisco.lookup dk).getD ∅

/-- The maps differ in addresses only. -/
structure SamePeers (m m' : PeerMap) : Prop where
  endpoint : m'.endpointOf = m.endpointOf
  keys : m'.byNodeKey = m.byNodeKey
  ids : m'.byNodeID = m.byNodeID
  nodes : m'.nodesOfDisco = m.nodesOfDisco

namespace SamePeers

variable {m₁ m₂ m₃ : PeerMap}

theorem refl (m : PeerMap) : SamePeers m m := ⟨rfl, rfl, rfl, rfl⟩

theorem trans (h : SamePeers m₁ m₂) (h' : SamePeers m₂ m₃) : SamePeers m₁ m₃ :=
  ⟨h'.endpoint.trans h.endpoint, h'.keys.trans h.keys, h'.ids.trans h.ids,
    h'.nodes.trans h.nodes⟩

theorem withAddrs (m : PeerMap) (pi : Nat) (f : Finset EpAddr → Finset EpAddr)
    (byEpAddr : GoMap EpAddr Nat) (relay : GoMap PublicKey EpAddr) :
    SamePeers m (m.withAddrs pi f byEpAddr relay) where
  endpoint := by
    funext q
    unfold endpointOf PeerMap.withAddrs
    rw [lookup_modify]
    split
    · rw [Option.map_map]
      rfl
    · rfl
  keys := rfl
  ids := rfl
  nodes := rfl

theorem setNodeKeyForEpAddr (m : PeerMap) (addr : EpAddr) (nk : PublicKey) :
    SamePeers m (m.setNodeKeyForEpAddr addr nk) := by
  have hdrop : SamePeers m (m.dropEpAddr addr) := by
    unfold dropEpAddr
    split
    · exact .refl m
    · exact .withAddrs ..
  have hadd (m : PeerMap) : SamePeers m (m.addEpAddr addr nk) := by
    unfold addEpAddr
    split
    · exact .refl m
    refine .trans ?_ (.withAddrs ..)
    unfold dropRelay
    split
    · split
      · exact .refl m
      · exact .withAddrs ..
    · exact .refl m
  exact hdrop.trans (hadd _)

theorem endpointAt (h : SamePeers m₁ m₂) : m₂.endpointAt = m₁.endpointAt := by
  funext nk
  rw [PeerMap.endpointAt, PeerMap.endpointAt, h.keys, h.endpoint]

theorem endpointForNodeID (h : SamePeers m₁ m₂) : m₂.endpointForNodeID = m₁.endpointForNodeID := by
  funext nodeID
  rw [PeerMap.endpointForNodeID, PeerMap.endpointForNodeID, h.ids, h.endpoint]

end SamePeers

theorem endpointOf_addInfo (h : m.Filed) (ep : EndpointRef) :
    (m.addInfo ep).endpointOf m.nextInfo = some ep ∧
      ∀ pi info, m.infos.lookup pi = some info → (m.addInfo ep).endpointOf pi = some info.ep := by
  unfold endpointOf addInfo
  constructor
  · simp
  · intro pi info hinfo
    rw [lookup_insert_eq, if_neg (ne_of_lt (h.fresh pi info hinfo)), hinfo]
    rfl

/-- IDs lead to `peerInfo`s too. -/
structure Indexed (m : PeerMap) : Prop extends Sound m where
  ided : ∀ nodeID pi, m.byNodeID.lookup nodeID = some pi → ∃ info, m.infos.lookup pi = some info

/-- Peers with other addresses have their `peerInfo`s still. -/
theorem Indexed.of_samePeers {m' : PeerMap} (h : m.Indexed) (hsame : SamePeers m m')
    (hsound : m'.Sound) : m'.Indexed where
  toSound := hsound
  ided nodeID pi hid := by
    rw [hsame.ids] at hid
    obtain ⟨info, hinfo⟩ := h.ided nodeID pi hid
    have hep := congrFun hsame.endpoint pi
    rw [endpointOf, endpointOf, hinfo] at hep
    obtain ⟨info', hinfo', -⟩ := Option.map_eq_some_iff.1 hep
    exact ⟨info', hinfo'⟩

theorem Filed.map_publicKey_endpoints (h : m.Filed) :
    m.endpoints.map EndpointRef.publicKey = m.byNodeKey.keys := by
  have hall : ∀ l : List (Sigma fun _ : PublicKey => Nat), l ⊆ m.byNodeKey.entries →
      ((l.map Sigma.snd).filterMap m.endpointOf).map EndpointRef.publicKey = l.keys := by
    intro l hl
    induction l with
    | nil => rfl
    | cons e l ih =>
      rw [cons_subset] at hl
      obtain ⟨info, hinfo, hkey⟩ := h.keyed e.1 e.2 (lookup_eq_some_iff.2 hl.1)
      have hof : m.endpointOf e.2 = some info.ep := by rw [endpointOf, hinfo]; rfl
      rw [map_cons, filterMap_cons_some hof, map_cons, ih hl.2, hkey,
        keys_cons]
  exact hall _ (List.Subset.refl _)

theorem Filed.key_of_endpointAt (h : m.Filed) (hep : m.endpointAt nk = some ep) :
    ep.publicKey = nk := by
  obtain ⟨pi, hpi, hof⟩ := Option.bind_eq_some_iff.1 hep
  obtain ⟨info, hinfo, hkey⟩ := h.keyed nk pi hpi
  rw [endpointOf, hinfo] at hof
  rw [← Option.some.inj hof, hkey]

theorem Filed.mem_endpoints (h : m.Filed) :
    ep ∈ m.endpoints ↔ m.endpointAt ep.publicKey = some ep := by
  rw [endpoints, mem_filterMap]
  constructor
  · rintro ⟨pi, hpi, hof⟩
    obtain ⟨nk, hnk⟩ := mem_values.1 hpi
    have hep : m.endpointAt nk = some ep := by rw [endpointAt, hnk]; exact hof
    rwa [h.key_of_endpointAt hep]
  · intro hep
    obtain ⟨pi, hpi, hof⟩ := Option.bind_eq_some_iff.1 hep
    exact ⟨pi, mem_values.2 ⟨_, hpi⟩, hof⟩

theorem Filed.mem_keys (h : m.Filed) : nk ∈ m.byNodeKey.keys ↔ ∃ ep, m.endpointAt nk = some ep := by
  rw [← h.map_publicKey_endpoints, mem_map]
  constructor
  · rintro ⟨ep, hep, rfl⟩
    exact ⟨ep, h.mem_endpoints.1 hep⟩
  · rintro ⟨ep, hep⟩
    have hkey := h.key_of_endpointAt hep
    exact ⟨ep, h.mem_endpoints.2 (hkey ▸ hep), hkey⟩

theorem Indexed.ensureInfo (h : m.Indexed) (ep : EndpointRef) : (m.ensureInfo ep).1.Indexed where
  toSound := h.toSound.ensureInfo ep
  ided nodeID pi hid := by
    unfold PeerMap.ensureInfo at hid ⊢
    cases hk : m.byNodeKey.lookup ep.publicKey with
    | some q =>
      rw [hk] at hid
      exact h.ided nodeID pi hid
    | none =>
      rw [hk] at hid
      obtain ⟨info, hinfo⟩ := h.ided nodeID pi hid
      exact ⟨info, (AList.lookup_insert_ne (ne_of_lt (h.fresh pi info hinfo))).trans hinfo⟩

/-- The `peerInfo` of an endpoint that is filed, or that has a key nobody has. -/
theorem Indexed.ensureInfo_spec (h : m.Indexed)
    (hep : ∀ ep', m.endpointAt ep.publicKey = some ep' → ep' = ep) :
    (m.ensureInfo ep).1.endpointAt = update m.endpointAt ep.publicKey (some ep) ∧
      (m.ensureInfo ep).1.endpointForNodeID = m.endpointForNodeID ∧
      (m.ensureInfo ep).1.endpointOf (m.ensureInfo ep).2 = some ep ∧
      (m.ensureInfo ep).1.nodesOfDisco = m.nodesOfDisco := by
  unfold PeerMap.ensureInfo
  cases hk : m.byNodeKey.lookup ep.publicKey with
  | some pi =>
    obtain ⟨info, hinfo, -⟩ := h.keyed _ pi hk
    have hof : m.endpointOf pi = some info.ep := by rw [endpointOf, hinfo]; rfl
    have hat : m.endpointAt ep.publicKey = some info.ep := by rw [endpointAt, hk]; exact hof
    obtain rfl := hep _ hat
    exact ⟨by rw [← hat, update_eq_self], rfl, hof, rfl⟩
  | none =>
    obtain ⟨hnew, hold⟩ := endpointOf_addInfo h.toFiled ep
    refine ⟨?_, ?_, hnew, rfl⟩
    · funext nk
      by_cases hnk : nk = ep.publicKey
      · subst hnk
        rw [update_self, endpointAt]
        unfold addInfo
        rw [AList.lookup_insert]
        exact hnew
      · rw [update_of_ne hnk, endpointAt, endpointAt]
        have hlook : (m.addInfo ep).byNodeKey.lookup nk = m.byNodeKey.lookup nk :=
          AList.lookup_insert_ne hnk
        rw [hlook]
        cases hpi : m.byNodeKey.lookup nk with
        | none => rfl
        | some pi =>
          obtain ⟨info, hinfo, -⟩ := h.keyed _ pi hpi
          rw [Option.bind_some, Option.bind_some, hold pi info hinfo, endpointOf, hinfo]
          rfl
    · funext nodeID
      rw [endpointForNodeID, endpointForNodeID]
      have hlook : (m.addInfo ep).byNodeID.lookup nodeID = m.byNodeID.lookup nodeID := rfl
      rw [hlook]
      cases hpi : m.byNodeID.lookup nodeID with
      | none => rfl
      | some pi =>
        obtain ⟨info, hinfo⟩ := h.ided _ pi hpi
        rw [Option.bind_some, Option.bind_some, hold pi info hinfo, endpointOf, hinfo]
        rfl

/-! ### What becomes of the nodes of a disco key -/

variable {dk old nk' : PublicKey}

theorem mem_nodesOf_forgetDisco :
    nk' ∈ (m.forgetDisco old nk).nodesOf dk ↔ nk' ∈ m.nodesOf dk ∧ ¬(dk = old ∧ nk' = nk) := by
  unfold nodesOf forgetDisco
  rw [lookup_modify]
  by_cases hdk : dk = old
  · subst hdk
    cases m.nodesOfDisco.lookup dk <;> simp [and_comm]
  · simp [hdk]

theorem knownPeerDiscoKey_forgetDisco :
    (m.forgetDisco old nk).knownPeerDiscoKey dk = m.knownPeerDiscoKey dk := by
  unfold knownPeerDiscoKey forgetDisco
  rw [lookup_modify]
  split
  · rw [Option.isSome_map]
  · rfl

variable {disco : Option PublicKey}

theorem mem_nodesOf_forgetOldDisco : nk' ∈ (m.forgetOldDisco disco old nk).nodesOf dk ↔
      nk' ∈ m.nodesOf dk ∧ ¬(disco ≠ some old ∧ dk = old ∧ nk' = nk) := by
  unfold forgetOldDisco
  split
  next hne => simp only [mem_nodesOf_forgetDisco, hne, true_and, ne_eq, not_false_eq_true]
  next heq => simp [heq]

theorem mem_nodesOf_addDisco {dk' : PublicKey} :
    nk' ∈ (m.addDisco dk nk).nodesOf dk' ↔ nk' ∈ m.nodesOf dk' ∨ (dk' = dk ∧ nk' = nk) := by
  unfold nodesOf addDisco
  by_cases hdk : dk' = dk
  · subst hdk
    simp [or_comm]
  · simp [hdk]

theorem knownPeerDiscoKey_addDisco {dk' : PublicKey} :
    (m.addDisco dk nk).knownPeerDiscoKey dk' = true ↔ m.knownPeerDiscoKey dk' = true ∨
      dk' = dk := by
  unfold knownPeerDiscoKey addDisco
  rw [lookup_insert_eq]
  by_cases hdk : dk' = dk
  · simp [hdk]
  · simp [hdk]

/-- Forgetting and adding nodes of disco keys leaves the other maps as they are. -/
theorem forgetOldDisco_eq (m : PeerMap) (disco : Option PublicKey) (old nk : PublicKey) :
    ∃ nodes, m.forgetOldDisco disco old nk = { m with nodesOfDisco := nodes } := by
  unfold forgetOldDisco
  split <;> exact ⟨_, rfl⟩

theorem knownPeerDiscoKey_forgetOldDisco :
    (m.forgetOldDisco disco old nk).knownPeerDiscoKey dk = m.knownPeerDiscoKey dk := by
  unfold forgetOldDisco
  split
  · exact knownPeerDiscoKey_forgetDisco
  · rfl

/-- **What filing an endpoint does**, if it is filed already or has a key nobody has. -/
structure Upserted (m : PeerMap) (ep : EndpointRef) (disco : Option PublicKey)
    (oldDiscoKey : PublicKey) (m' : PeerMap) : Prop where
  key : m'.endpointAt = update m.endpointAt ep.publicKey (some ep)
  id : m'.endpointForNodeID = update m.endpointForNodeID ep.nodeID (some ep)
  nodes : ∀ nk dk, nk ∈ m'.nodesOf dk ↔
    (nk ∈ m.nodesOf dk ∧ ¬(disco ≠ some oldDiscoKey ∧ dk = oldDiscoKey ∧ nk = ep.publicKey)) ∨
      (ep.isWireguardOnly = false ∧ disco = some dk ∧ nk = ep.publicKey)
  known : ∀ dk, m'.knownPeerDiscoKey dk = true ↔
    m.knownPeerDiscoKey dk = true ∨ (ep.isWireguardOnly = false ∧ disco = some dk)

theorem Indexed.file (h : m.Indexed)
    (hep : ∀ ep', m.endpointAt ep.publicKey = some ep' → ep' = ep) :
    (m.file ep).Indexed ∧
      (m.file ep).endpointAt = update m.endpointAt ep.publicKey (some ep) ∧
      (m.file ep).endpointForNodeID = update m.endpointForNodeID ep.nodeID (some ep) ∧
      (m.file ep).nodesOfDisco = m.nodesOfDisco := by
  obtain ⟨hkey, hid, hof, hnodes⟩ := h.ensureInfo_spec hep
  refine ⟨⟨h.toSound.file ep, fun nodeID pi hpi => ?_⟩, hkey, ?_, hnodes⟩
  · unfold PeerMap.file at hpi
    rw [lookup_insert_eq] at hpi
    split at hpi
    · cases hpi
      obtain ⟨info, hinfo, -⟩ := Option.map_eq_some_iff.1 hof
      exact ⟨info, hinfo⟩
    · exact (h.ensureInfo ep).ided nodeID pi hpi
  · funext nodeID
    rw [update_apply, ← hid, endpointForNodeID]
    unfold PeerMap.file
    rw [lookup_insert_eq]
    split
    · exact hof
    · rfl

/-- The addresses of a WireGuard-only peer are no concern of the other maps. -/
theorem SamePeers.setNodeKeys (m : PeerMap) (addrs : List AddrPort) (nk : PublicKey) :
    SamePeers m (addrs.foldl (fun m ipp => m.setNodeKeyForEpAddr { ap := ipp } nk) m) :=
  List.foldlRecOn (motive := SamePeers m) addrs _ (.refl m)
    fun m' hm' _ _ => hm'.trans (.setNodeKeyForEpAddr m' _ _)

theorem Indexed.upsertEndpoint (h : m.Indexed) {addrs} {oldDiscoKey : PublicKey}
    {m' : PeerMap} (hep : ∀ ep', m.endpointAt ep.publicKey = some ep' → ep' = ep)
    (hm : m.upsertEndpoint ep disco addrs oldDiscoKey = .ok m') :
    m'.Indexed ∧ m.Upserted ep disco oldDiscoKey m' := by
  obtain ⟨hix, hkey, hid, hnodes⟩ := h.file hep
  have hsound := h.toSound.upsertEndpoint hm
  -- The nodes of the disco keys, once the old one is forgotten.
  have hnodesOf (nk dk : PublicKey) :
      nk ∈ ((m.file ep).forgetOldDisco disco oldDiscoKey ep.publicKey).nodesOf dk ↔
        nk ∈ m.nodesOf dk ∧ ¬(disco ≠ some oldDiscoKey ∧ dk = oldDiscoKey ∧ nk = ep.publicKey) := by
    rw [mem_nodesOf_forgetOldDisco, nodesOf, nodesOf, hnodes]
  have hknown (dk : PublicKey) :
      ((m.file ep).forgetOldDisco disco oldDiscoKey ep.publicKey).knownPeerDiscoKey dk =
        m.knownPeerDiscoKey dk := by
    rw [knownPeerDiscoKey_forgetOldDisco, knownPeerDiscoKey, knownPeerDiscoKey, hnodes]
  obtain ⟨nodes, hforget⟩ := forgetOldDisco_eq (m.file ep) disco oldDiscoKey ep.publicKey
  unfold PeerMap.upsertEndpoint at hm
  split at hm
  · cases hm
  split at hm
  next hwg =>
    cases hm
    generalize hm₂ : (m.file ep).forgetOldDisco disco oldDiscoKey ep.publicKey = m₂ at *
    have hsame := SamePeers.setNodeKeys m₂ addrs ep.publicKey
    have hix₂ : m₂.Indexed := by
      refine ⟨hm₂ ▸ hix.toSound.forgetOldDisco .., ?_⟩
      rw [hforget]
      exact hix.ided
    refine ⟨hix₂.of_samePeers hsame hsound, ?_, ?_, fun nk dk => ?_, fun dk => ?_⟩
    · rw [hsame.endpointAt, hforget]
      exact hkey
    · rw [hsame.endpointForNodeID, hforget]
      exact hid
    · rw [nodesOf, hsame.nodes, ← nodesOf, hnodesOf]
      simp [hwg]
    · rw [knownPeerDiscoKey, hsame.nodes, ← knownPeerDiscoKey, hknown]
      simp [hwg]
  next hwg =>
    split at hm
    · cases hm
    next dk =>
      cases hm
      refine ⟨⟨hsound, ?_⟩, ?_, ?_, fun nk dk' => ?_, fun dk' => ?_⟩
      · rw [hforget]
        exact hix.ided
      · rw [hforget]
        exact hkey
      · rw [hforget]
        exact hid
      · rw [mem_nodesOf_addDisco, hnodesOf, Option.some_inj, eq_comm (a := dk),
          and_iff_right (Bool.eq_false_of_not_eq_true hwg)]
      · rw [knownPeerDiscoKey_addDisco, hknown, Option.some_inj, eq_comm (a := dk),
          and_iff_right (Bool.eq_false_of_not_eq_true hwg)]

/-- Filing panics without an ID, and for a peer that should have a disco key and has none. -/
theorem upsertEndpoint_ok_iff (m : PeerMap) (ep : EndpointRef) (disco : Option PublicKey)
    (addrs : List AddrPort) (oldDiscoKey : PublicKey) :
    (∃ m', m.upsertEndpoint ep disco addrs oldDiscoKey = .ok m') ↔
      ep.nodeID ≠ 0 ∧ (ep.isWireguardOnly = true ∨ disco ≠ none) := by
  unfold upsertEndpoint
  split
  next hid => simp [hid]
  next hid =>
    split
    next hwg => simp [hid, hwg]
    next hwg => cases disco <;> simp [hid, hwg]

/-- **What deleting an endpoint that is filed does.** -/
structure Deleted (m : PeerMap) (ep : EndpointRef) (disco : Option PublicKey) (m' : PeerMap) :
    Prop where
  key : m'.endpointAt = update m.endpointAt ep.publicKey none
  id : m'.endpointForNodeID = update m.endpointForNodeID ep.nodeID none
  nodes : ∀ nk dk, nk ∈ m'.nodesOf dk ↔
    nk ∈ m.nodesOf dk ∧ ¬(disco = some dk ∧ nk = ep.publicKey)
  known : ∀ dk, m'.knownPeerDiscoKey dk = m.knownPeerDiscoKey dk

theorem Indexed.deleteEndpoint (h : m.Indexed) (disco : Option PublicKey)
    (hid : m.endpointForNodeID ep.nodeID = some ep) :
    (m.deleteEndpoint ep disco).Indexed ∧ m.Deleted ep disco (m.deleteEndpoint ep disco) := by
  have hsound := h.toSound.deleteEndpoint ep disco
  have hinfos : (m.deleteEndpoint ep disco).infos = m.infos := by
    unfold PeerMap.deleteEndpoint
    split <;> rfl
  have hof : (m.deleteEndpoint ep disco).endpointOf = m.endpointOf := by
    funext pi
    rw [endpointOf, endpointOf, hinfos]
  have hkeys : (m.deleteEndpoint ep disco).byNodeKey = m.byNodeKey.erase ep.publicKey := by
    unfold PeerMap.deleteEndpoint
    split <;> rfl
  have hids : (m.deleteEndpoint ep disco).byNodeID = m.byNodeID.erase ep.nodeID := by
    unfold PeerMap.deleteEndpoint
    split <;> exact if_pos hid
  have hnodes : (m.deleteEndpoint ep disco).nodesOfDisco = (m.unfile ep disco).nodesOfDisco := by
    unfold PeerMap.deleteEndpoint
    split <;> rfl
  refine ⟨⟨hsound, fun nodeID pi hpi => ?_⟩, ?_, ?_, fun nk dk => ?_, fun dk => ?_⟩
  · rw [hids, lookup_erase_iff] at hpi
    rw [hinfos]
    exact h.ided nodeID pi hpi.1
  · funext nk
    rw [endpointAt, hof, hkeys, lookup_erase_eq, update_apply]
    split <;> rfl
  · funext nodeID
    rw [endpointForNodeID, hof, hids, lookup_erase_eq, update_apply]
    split <;> rfl
  · rw [nodesOf, hnodes]
    cases disco with
    | none => simp [unfile, nodesOf]
    | some d =>
      rw [Option.some_inj, eq_comm (a := d)]
      exact mem_nodesOf_forgetDisco
  · rw [knownPeerDiscoKey, hnodes]
    cases disco with
    | none => rfl
    | some d => exact knownPeerDiscoKey_forgetDisco

end Multiport.Magicsock.PeerMap

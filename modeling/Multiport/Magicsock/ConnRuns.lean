import Multiport.Lib.Lists
import Multiport.Magicsock.ConnPeers

/-!
# Runs of a connection

The operations that change the peers of a connection, what each does to the peer map
as a whole, and the invariant of their runs.
-/

namespace Multiport.Magicsock

open Lib Net Tailcfg List ConnPeers EndpointRef

variable {H : Type}

namespace ConnPeers

variable {c c' : ConnPeers H}

/-! ## Peers that go -/

/-- **What deleting endpoints does**: those with a key in `gone` go, and nothing else changes. -/
structure Drops (c : ConnPeers H) (gone : PublicKey → Prop) (c' : ConnPeers H) : Prop where
  wf : c'.WF
  key : ∀ nk, gone nk → c'.peerMap.endpointAt nk = none
  others : ∀ nk, ¬gone nk → c'.peerMap.endpointAt nk = c.peerMap.endpointAt nk
  disco : c'.disco = c.disco
  known : ∀ dk, c'.peerMap.knownPeerDiscoKey dk = c.peerMap.knownPeerDiscoKey dk

theorem WF.drops_none (h : c.WF) : c.Drops (fun _ => False) c :=
  ⟨h, fun _ => False.elim, fun _ _ => rfl, rfl, fun _ => rfl⟩

theorem WF.drops (h : c.WF) {ep} (hep : c.peerMap.endpointAt ep.publicKey = some ep) :
    c.Drops (· = ep.publicKey) (c.deleteEndpoint ep) := by
  obtain ⟨hwf, hdel⟩ := h.deleteEndpoint hep
  refine ⟨hwf, ?_, fun nk hne => ?_, rfl, hdel.known⟩
  · rintro nk rfl
    rw [hdel.key, Function.update_self]
  · rw [hdel.key, Function.update_of_ne hne]

theorem WF.deleteEndpointOf (h : c.WF) (nid : NodeID) :
    ∃ gone, c.Drops gone (c.deleteEndpointOf nid) := by
  unfold ConnPeers.deleteEndpointOf
  split
  next ep hid =>
    have hep : c.peerMap.endpointAt ep.publicKey = some ep :=
      (h.indexes.same ep).2 (h.indexes.id_eq _ ep hid ▸ hid)
    exact ⟨_, h.drops hep⟩
  · exact ⟨_, h.drops_none⟩

/-- The loop over the endpoints, each of which is still there when its turn comes. -/
theorem WF.drops_foldl (h : c.WF) (keep : List PublicKey) {l : List EndpointRef}
    (hl : (l.map publicKey).Nodup) (hat : ∀ ep ∈ l, c.peerMap.endpointAt ep.publicKey = some ep) :
    c.Drops (fun nk => nk ∈ l.map publicKey ∧ nk ∉ keep)
      (l.foldl (fun c ep => if keep.contains ep.publicKey then c else c.deleteEndpoint ep) c) := by
  induction l generalizing c with
  | nil => simpa using h.drops_none
  | cons ep l ih =>
    rw [map_cons, nodup_cons] at hl
    rw [forall_mem_cons] at hat
    rw [foldl_cons]
    split
    next hkeep =>
      have hrest := ih h hl.2 hat.2
      refine { hrest with key := ?_, others := ?_ }
      · rintro nk ⟨hmem, hnot⟩
        rw [map_cons, mem_cons] at hmem
        rcases hmem with rfl | hmem
        · exact absurd (contains_iff_mem.1 hkeep) hnot
        · exact hrest.key nk ⟨hmem, hnot⟩
      · intro nk hnot
        exact hrest.others nk fun hmem => hnot ⟨mem_cons_of_mem _ hmem.1, hmem.2⟩
    next hdrop =>
      have hfirst := h.drops hat.1
      have hat' : ∀ e ∈ l, (c.deleteEndpoint ep).peerMap.endpointAt e.publicKey = some e := by
        intro e he
        rw [hfirst.others, hat.2 e he]
        rintro heq
        exact hl.1 (heq ▸ mem_map_of_mem he)
      have hrest := ih hfirst.wf hl.2 hat'
      refine ⟨hrest.wf, ?_, ?_, hrest.disco.trans hfirst.disco, fun dk => ?_⟩
      · rintro nk ⟨hmem, hnot⟩
        by_cases hin : nk ∈ l.map publicKey
        · exact hrest.key nk ⟨hin, hnot⟩
        · rw [map_cons, mem_cons, or_iff_left hin] at hmem
          rw [hrest.others nk fun hmem => hin hmem.1]
          exact hfirst.key nk hmem
      · intro nk hnot
        have hne : nk ≠ ep.publicKey := by
          rintro rfl
          exact hnot ⟨mem_cons_self, mt contains_iff_mem.2 hdrop⟩
        rw [hrest.others nk fun hmem => hnot ⟨mem_cons_of_mem _ hmem.1, hmem.2⟩]
        exact hfirst.others nk hne
      · rw [hrest.known, hfirst.known]

theorem WF.deleteStale (h : c.WF) (keep : List PublicKey) :
    c.Drops (· ∉ keep) (c.deleteStale keep) := by
  have hkeys := h.indexed.map_publicKey_endpoints
  have hdrops := h.drops_foldl keep (hkeys ▸ c.peerMap.byNodeKey.keys_nodup)
    fun ep hep => h.indexed.mem_endpoints.1 hep
  refine { hdrops with key := fun nk hnot => ?_, others := fun nk hkeep => ?_ }
  · by_cases hmem : nk ∈ c.peerMap.endpoints.map publicKey
    · exact hdrops.key nk ⟨hmem, hnot⟩
    · refine (hdrops.others nk fun hgone => hmem hgone.1).trans ?_
      rw [Option.eq_none_iff_forall_ne_some]
      intro ep hep
      have hkey := h.indexes.key_eq nk ep hep
      exact hmem (mem_map.2 ⟨ep, h.indexed.mem_endpoints.2 (hkey ▸ hep), hkey⟩)
  · exact hdrops.others nk fun hgone => hkeep hgone.2

variable {gone : PublicKey → Prop}

theorem Drops.of_same {c''} (h : c.Drops gone c') (hmap : c''.peerMap = c'.peerMap)
    (hdisco : c''.disco = c'.disco) (hnext : c''.nextEndpoint = c'.nextEndpoint) :
    c.Drops gone c'' where
  wf := h.wf.of_same hmap hdisco hnext
  key := hmap ▸ h.key
  others := hmap ▸ h.others
  disco := hdisco.trans h.disco
  known := hmap ▸ h.known

theorem Drops.grows (h : c.Drops gone c') : c.Grows c' where
  old dk hdk := (h.known dk).trans hdk
  new dk hdk := .inl (h.known dk ▸ hdk)
  ided nk ep hep := by
    by_cases hgone : gone nk
    · cases (h.key nk hgone).symm.trans hep
    · exact .inl (h.others nk hgone ▸ hep)

/-- What is forgotten with a peer is no endpoint. -/
theorem exists_forget (c : ConnPeers H) (dk nk : PublicKey) : ∃ info ⊆ c.discoInfo, ∃ relay,
    (c.dropDiscoInfo dk).removeRelay nk = { c with discoInfo := info, relay := relay } := by
  unfold dropDiscoInfo removeRelay
  split_ifs
  · exact ⟨_, Finset.erase_subset _ _, _, rfl⟩
  · exact ⟨_, Finset.erase_subset _ _, _, rfl⟩
  · exact ⟨_, Finset.Subset.refl _, _, rfl⟩
  · exact ⟨_, Finset.Subset.refl _, _, rfl⟩

/-- The relay manager has no part in the endpoints. -/
theorem exists_upsertRelay (c : ConnPeers H) (n : Node H) :
    ∃ relay, c.upsertRelay n = { c with relay := relay } := by
  unfold upsertRelay
  split <;> exact ⟨_, rfl⟩

theorem WF.removePeer (h : c.WF) (nid : NodeID) :
    ∃ gone, c.Drops gone (c.removePeer nid) ∧ (c.removePeer nid).discoInfo ⊆ c.discoInfo := by
  unfold ConnPeers.removePeer
  split
  · exact ⟨_, h.drops_none, Finset.Subset.refl _⟩
  split
  · exact ⟨_, h.drops_none, Finset.Subset.refl _⟩
  next prev _ =>
    let c₀ : ConnPeers H := { c with peersByID := c.peersByID.erase nid }
    have hwf : c₀.WF := h.of_same rfl rfl rfl
    have hinfo : (c₀.deleteEndpointOf nid).discoInfo = c.discoInfo := by
      unfold ConnPeers.deleteEndpointOf
      split <;> rfl
    obtain ⟨gone, hdrops⟩ := hwf.deleteEndpointOf nid
    have hdrops : c.Drops gone (c₀.deleteEndpointOf nid) := { hdrops with }
    obtain ⟨info, hsub, relay, heq⟩ :=
      (c₀.deleteEndpointOf nid).exists_forget prev.discoKey prev.key
    rw [heq]
    exact ⟨gone, hdrops.of_same rfl rfl rfl, hinfo ▸ hsub⟩

/-- What `updateNodes` does after the loop. -/
theorem WF.finishUpdate (h : c.WF) (newPeers : GoMap NodeID (Node H)) :
    c.Drops (fun nk => c.peerMap.nodeCount ≠ newPeers.size ∧ nk ∉ newPeers.values.map Node.key)
        (c.finishUpdate newPeers) ∧
      ∀ dk ∈ (c.finishUpdate newPeers).discoInfo, c.peerMap.knownPeerDiscoKey dk = true := by
  let c₀ : ConnPeers H := { c with peersByID := newPeers }
  have hwf : c₀.WF := h.of_same rfl rfl rfl
  unfold ConnPeers.finishUpdate
  dsimp only
  split
  next hcount =>
    have hdrops := hwf.deleteStale (newPeers.values.map Node.key)
    have hdrops : c.Drops (fun nk => c.peerMap.nodeCount ≠ newPeers.size ∧
        nk ∉ newPeers.values.map Node.key) (c₀.deleteStale (newPeers.values.map Node.key)) :=
      { hdrops with
        key := fun nk hnk => hdrops.key nk hnk.2
        others := fun nk hnk => hdrops.others nk fun hnot => hnk ⟨hcount, hnot⟩ }
    refine ⟨hdrops.of_same rfl rfl rfl, fun dk hdk => ?_⟩
    rw [← hdrops.known]
    exact (Finset.mem_filter.1 hdk).2
  next hcount =>
    refine ⟨⟨hwf.of_same rfl rfl rfl, fun nk hnk => ?_, fun _ _ => rfl, rfl, fun _ => rfl⟩, ?_⟩
    · exact absurd hnk.1 hcount
    · exact fun dk hdk => (Finset.mem_filter.1 hdk).2

/-! ## The loop over the peers -/

variable {addrs : Node H → List AddrPort} {l : List (Node H)}

theorem upsertPeers_cons {n : Node H} : c.upsertPeers addrs (n :: l) = .ok c' ↔
    ∃ mid, c.upsertPeerLocked (addrs n) n = .ok mid ∧ mid.upsertPeers addrs l = .ok c' :=
  foldlM_cons_eq_ok

/-- The loop keeps the invariant; what becomes known in it is known at its end, and was used when
it became known. -/
theorem WF.upsertPeers (h : c.WF) (hok : c.upsertPeers addrs l = .ok c') :
    c'.WF ∧ c.IDed c' ∧
      (∀ pre s, pre <+: l → c.upsertPeers addrs pre = .ok s →
        ∀ dk, s.peerMap.knownPeerDiscoKey dk = true → c'.peerMap.knownPeerDiscoKey dk = true) ∧
      ∀ dk, c'.peerMap.knownPeerDiscoKey dk = true → c.peerMap.knownPeerDiscoKey dk = true ∨
        ∃ pre s, pre <+: l ∧ c.upsertPeers addrs pre = .ok s ∧ s.InUse dk := by
  induction l generalizing c with
  | nil =>
    cases hok
    refine ⟨h, fun _ _ => .inl, fun pre s hpre hs dk hdk => ?_, fun dk => .inl⟩
    rw [prefix_nil] at hpre
    subst hpre
    cases hs
    exact hdk
  | cons n l ih =>
    obtain ⟨mid, hmid, hrest⟩ := upsertPeers_cons.1 hok
    obtain ⟨hwf, hgrows, -⟩ := h.upsertPeerLocked hmid
    obtain ⟨hwf', hided, hold, hnew⟩ := ih hwf hrest
    have hcons (pre : List (Node H)) :
        c.upsertPeers addrs (n :: pre) = mid.upsertPeers addrs pre := by
      rw [upsertPeers, foldlM_cons, hmid]
      rfl
    refine ⟨hwf', hgrows.ided.trans hided, ?_, ?_⟩
    · intro pre s hpre hs dk hdk
      rcases prefix_cons_iff.1 hpre with rfl | ⟨pre, rfl, hpre'⟩
      · cases hs
        exact hold [] mid nil_prefix rfl dk (hgrows.old dk hdk)
      · rw [hcons] at hs
        exact hold pre s hpre' hs dk hdk
    · intro dk hdk
      rcases hnew dk hdk with hdk | ⟨pre, s, hpre, hs, huse⟩
      · refine (hgrows.new dk hdk).imp_right fun huse => ?_
        exact ⟨[n], mid, ⟨l, rfl⟩, (hcons []).trans rfl, huse⟩
      · exact .inr ⟨n :: pre, s, (prefix_cons_inj n).2 hpre, (hcons pre).trans hs, huse⟩

/-- The three ways in which `updateNodes` ends. -/
theorem updateNodes_cases {equal} {flags}
    {self} {peers} {changed : Bool}
    (hok : c.updateNodes equal addrs flags self peers = .ok (c', changed)) :
    (c.closed = true ∧ c' = c) ∨
      (c.closed = false ∧ c.unchanged equal flags peers = true ∧ c' = { c with self := self }) ∨
      (c.closed = false ∧ c.unchanged equal flags peers = false ∧
        ∃ c₁, { c with self := self, lastFlags := flags }.upsertPeers addrs peers = .ok c₁ ∧
          c' = c₁.finishUpdate (newPeers peers)) := by
  unfold updateNodes at hok
  split at hok
  next hclosed =>
    cases hok
    exact .inl ⟨hclosed, rfl⟩
  next hclosed =>
    rw [Bool.not_eq_true] at hclosed
    split at hok
    next hsame =>
      cases hok
      exact .inr (.inl ⟨hclosed, hsame, rfl⟩)
    next hchanged =>
      rw [Bool.not_eq_true] at hchanged
      obtain ⟨c₁, hpeers, hok⟩ := map_eq_ok_iff.1 hok
      cases hok
      exact .inr (.inr ⟨hclosed, hchanged, c₁, hpeers, rfl⟩)

end ConnPeers

/-! ## Operations -/

/-- The operations of `Conn` on its peers.  `upsertPeerLocked` and `deleteEndpoint` are parts
of others; the last five leave the peer map alone. -/
inductive ConnOp (H : Type) where
  | upsertPeerLocked (addrs : List AddrPort) (n : Node H)
  | deleteEndpoint (nodeKey : PublicKey)
  | handleDiscoKeyAdvertisement (addrs : List AddrPort) (nodeKey discoKey : PublicKey)
  | upsertPeer (addrs : List AddrPort) (n : Node H)
  | removePeer (nid : NodeID)
  | updateNodes (equal : Node H → Node H → Bool) (addrs : Node H → List AddrPort)
      (flags : DebugFlags) (self : Option (Node H)) (peers : List (Node H))
  | discoInfoForPeer (dk : PublicKey)
  | setNodeKeyForEpAddr (addr : EpAddr) (nk : PublicKey)
  | rotateDiscoKey
  | close
  | setFilter (filt : Option RelayFilter)
  | setRelayClientEnabled (enabled : Bool)
  | relayServersSet (update : List CandidatePeerRelay)

/-- The effect of an operation, unless it panics. -/
def ConnOp.exec (c : ConnPeers H) : ConnOp H → Except PeerMapPanic (ConnPeers H)
  | upsertPeerLocked addrs n => c.upsertPeerLocked addrs n
  | deleteEndpoint nodeKey =>
    match c.peerMap.endpointForNodeKey nodeKey with
    | some ep => .ok (c.deleteEndpoint ep)
    | none => .ok c
  | handleDiscoKeyAdvertisement addrs nodeKey discoKey =>
    c.handleDiscoKeyAdvertisement addrs nodeKey discoKey
  | upsertPeer addrs n => c.upsertPeer addrs n
  | removePeer nid => .ok (c.removePeer nid)
  | updateNodes equal addrs flags self peers =>
    (c.updateNodes equal addrs flags self peers).map Prod.fst
  | discoInfoForPeer dk => c.discoInfoForPeer dk
  | setNodeKeyForEpAddr addr nk =>
    .ok { c with peerMap := c.peerMap.setNodeKeyForEpAddr addr nk }
  | rotateDiscoKey => .ok { c with discoInfo := ∅ }
  | close => .ok { c with closed := true }
  | setFilter filt => .ok { c with filt := filt }
  | setRelayClientEnabled enabled => .ok { c with relayClientEnabled := enabled }
  | relayServersSet update => .ok { c with relay := c.relay.handleServersUpdateRunLoop update }

/-- A state that the operation goes through: the one it starts in, and those between the
rounds of its loop. -/
def ConnOp.Passes (c : ConnPeers H) : ConnOp H → ConnPeers H → Prop
  | updateNodes equal addrs flags self peers, s =>
    s = c ∨ (c.closed = false ∧ c.unchanged equal flags peers = false ∧
      ∃ pre, pre <+: peers ∧
        { c with self := self, lastFlags := flags }.upsertPeers addrs pre = .ok s)
  | _, s => s = c

/-- **What the operations do to the disco keys that are known.** -/
structure ConnOp.Effect (c : ConnPeers H) (op : ConnOp H) (c' : ConnPeers H) : Prop where
  wf : c'.WF
  /-- What is known stays known. -/
  old : ∀ s, op.Passes c s → ∀ dk, s.peerMap.knownPeerDiscoKey dk = true →
    c'.peerMap.knownPeerDiscoKey dk = true
  /-- What becomes known is used. -/
  new : ∀ dk, c'.peerMap.knownPeerDiscoKey dk = true → c.peerMap.knownPeerDiscoKey dk = true ∨
    (∃ s, op.Passes c s ∧ s.InUse dk) ∨ c'.InUse dk
  /-- `discoInfo` only gets keys that are known, unless a WireGuard-only peer advertises one. -/
  info : ∀ dk ∈ c'.discoInfo, dk ∈ c.discoInfo ∨ c'.peerMap.knownPeerDiscoKey dk = true ∨
    ∃ ep, ep.isWireguardOnly = true ∧ c'.peerMap.endpointAt ep.publicKey = some ep ∧
      c'.discoKey ep = some dk

/-- What the operations do to the disco keys and the IDs. -/
structure ConnOp.Does (c : ConnPeers H) (op : ConnOp H) (c' : ConnPeers H) : Prop
    extends ConnOp.Effect c op c' where
  ided : c.IDed c'

namespace ConnOp.Does

open ConnPeers

variable {c c' : ConnPeers H} {op : ConnOp H}

section OneStep

variable (hpass : ∀ s, op.Passes c s → s = c)

include hpass

theorem of_grows (hwf : c'.WF) (h : c.Grows c') (hinfo : c'.discoInfo ⊆ c.discoInfo) :
    op.Does c c' where
  wf := hwf
  old s hs dk hdk := h.old dk (hpass s hs ▸ hdk)
  new dk hdk := (h.new dk hdk).imp_right .inr
  info _ hdk := .inl (hinfo hdk)
  ided := h.ided

theorem of_drops {gone : PublicKey → Prop} (h : c.Drops gone c')
    (hinfo : c'.discoInfo ⊆ c.discoInfo) : op.Does c c' :=
  of_grows hpass h.wf h.grows hinfo

theorem of_same (h : c.WF) (hmap : c'.peerMap = c.peerMap) (hdisco : c'.disco = c.disco)
    (hnext : c'.nextEndpoint = c.nextEndpoint) (hinfo : c'.discoInfo ⊆ c.discoInfo) :
    op.Does c c' :=
  of_drops hpass (h.drops_none.of_same hmap hdisco hnext) hinfo

theorem nothing (h : c.WF) : op.Does c c :=
  of_same hpass h rfl rfl rfl (Finset.Subset.refl _)

end OneStep

theorem handleDiscoKeyAdvertisement (h : c.WF) {addrs : List AddrPort} {nodeKey dk : PublicKey}
    (hok : c.handleDiscoKeyAdvertisement addrs nodeKey dk = .ok c') :
    (ConnOp.handleDiscoKeyAdvertisement addrs nodeKey dk).Does c c' := by
  obtain ⟨hwf, hgrows, rfl | ⟨ep, hfiled, hinfo, hdk⟩⟩ := h.handleDiscoKeyAdvertisement hok
  · exact nothing (fun _ => id) h
  · refine ⟨⟨hwf, ?_, fun dk hdk => (hgrows.new dk hdk).imp_right .inr, fun dk' hdk' => ?_⟩,
      hgrows.ided⟩
    · rintro s rfl
      exact hgrows.old
    · rw [hinfo, Finset.mem_insert] at hdk'
      rcases hdk' with rfl | hdk'
      · refine hdk.imp_right fun hne => ?_
        have hat : c'.peerMap.endpointAt ep.publicKey = some ep := by
          rw [hfiled.key, Function.update_self]
        have hsome : keyOrNil dk' = some dk' := if_neg hne
        by_cases hwg : ep.isWireguardOnly = true
        · exact .inr ⟨ep, hwg, hat, hfiled.disco.trans hsome⟩
        · exact .inl ((hfiled.known dk').2 (.inr ⟨by simpa using hwg, hsome⟩))
      · exact .inl hdk'

theorem upsertPeer (h : c.WF) {addrs : List AddrPort} {n : Node H}
    (hok : c.upsertPeer addrs n = .ok c') : (ConnOp.upsertPeer addrs n).Does c c' := by
  unfold ConnPeers.upsertPeer at hok
  split at hok
  · cases hok
    exact nothing (fun _ => id) h
  split at hok
  · cases hok
    exact nothing (fun _ => id) h
  have hwf₀ : ({ c with peersByID := c.peersByID.insert n.id n } : ConnPeers H).WF :=
    h.of_same rfl rfl rfl
  obtain ⟨c₁, hc₁, rfl⟩ := map_eq_ok_iff.1 hok
  obtain ⟨hwf₁, hgrows, -⟩ := hwf₀.upsertPeerLocked hc₁
  have hrest := congrArg discoInfo (rest_upsertPeerLocked hc₁)
  obtain ⟨relay, hrelay⟩ := c₁.exists_upsertRelay n
  rw [hrelay]
  exact of_grows (fun _ => id) (hwf₁.of_same rfl rfl rfl)
    ⟨⟨hgrows.old, hgrows.new⟩, hgrows.ided⟩ hrest.subset

theorem updateNodes (h : c.WF) {equal} {addrs : Node H → List AddrPort}
    {flags} {self} {peers} {changed : Bool}
    (hok : c.updateNodes equal addrs flags self peers = .ok (c', changed)) :
    (ConnOp.updateNodes equal addrs flags self peers).Does c c' := by
  rcases updateNodes_cases hok with
    ⟨hclosed, rfl⟩ | ⟨-, hsame, rfl⟩ | ⟨hopen, hchanged, c₁, hc₁, rfl⟩
  · refine nothing (fun s hs => ?_) h
    rcases hs with rfl | ⟨hopen, -⟩
    · rfl
    · cases hclosed.symm.trans hopen
  · refine of_same (fun s hs => ?_) h rfl rfl rfl (Finset.Subset.refl _)
    rcases hs with rfl | ⟨-, hchanged, -⟩
    · rfl
    · cases hsame.symm.trans hchanged
  · have hwf₀ : ({ c with self := self, lastFlags := flags } : ConnPeers H).WF :=
      h.of_same rfl rfl rfl
    obtain ⟨hwf₁, hided, hold, hnew⟩ := hwf₀.upsertPeers hc₁
    obtain ⟨hdrops, hinfo⟩ := hwf₁.finishUpdate (newPeers peers)
    refine ⟨⟨hdrops.wf, ?_, fun dk hdk => ?_, fun dk hdk => .inr (.inl ?_)⟩,
      hided.trans hdrops.grows.ided⟩
    · rintro s (rfl | ⟨-, -, pre, hpre, hs⟩) dk hdk
      · rw [hdrops.known]
        exact hold [] _ nil_prefix rfl dk hdk
      · rw [hdrops.known]
        exact hold pre s hpre hs dk hdk
    · rw [hdrops.known] at hdk
      rcases hnew dk hdk with hdk | ⟨pre, s, hpre, hs, huse⟩
      · exact .inl hdk
      · exact .inr (.inl ⟨s, .inr ⟨hopen, hchanged, pre, hpre, hs⟩, huse⟩)
    · rw [hdrops.known]
      exact hinfo dk hdk

end ConnOp.Does

open ConnPeers ConnOp.Does in
theorem ConnOp.exec_effect {c c' : ConnPeers H} {op : ConnOp H} (h : c.WF)
    (hok : op.exec c = .ok c') : op.Does c c' := by
  cases op with
  | upsertPeerLocked addrs n =>
    obtain ⟨hwf, hgrows, -⟩ := h.upsertPeerLocked hok
    have hrest := congrArg ConnPeers.discoInfo (rest_upsertPeerLocked hok)
    exact of_grows (fun _ => id) hwf hgrows hrest.subset
  | deleteEndpoint nodeKey =>
    simp only [exec] at hok
    split at hok
    next ep hep =>
      cases hok
      exact of_drops (fun _ => id) (h.drops (h.endpointAt_publicKey hep)) (Finset.Subset.refl _)
    · cases hok
      exact nothing (fun _ => id) h
  | handleDiscoKeyAdvertisement addrs nodeKey discoKey =>
    exact ConnOp.Does.handleDiscoKeyAdvertisement h hok
  | upsertPeer addrs n => exact ConnOp.Does.upsertPeer h hok
  | removePeer nid =>
    cases hok
    obtain ⟨gone, hdrops, hinfo⟩ := h.removePeer nid
    exact of_drops (fun _ => id) hdrops hinfo
  | updateNodes equal addrs flags self peers =>
    obtain ⟨res, hres, rfl⟩ := map_eq_ok_iff.1 hok
    exact ConnOp.Does.updateNodes h hres
  | discoInfoForPeer dk =>
    simp only [exec, ConnPeers.discoInfoForPeer] at hok
    split at hok
    next hknown =>
      obtain ⟨rfl, -⟩ := discoInfoForKnownPeerLocked_eq hok
      have hsame : (ConnOp.discoInfoForPeer dk).Does c c := nothing (fun _ => id) h
      refine ⟨⟨h.of_same rfl rfl rfl, hsame.old, hsame.new, fun dk' hdk' => ?_⟩, hsame.ided⟩
      rcases Finset.mem_insert.1 hdk' with rfl | hdk'
      · exact .inr (.inl hknown)
      · exact .inl hdk'
    · cases hok
      exact nothing (fun _ => id) h
  | setNodeKeyForEpAddr addr nk =>
    cases hok
    have hsame := PeerMap.SamePeers.setNodeKeyForEpAddr c.peerMap addr nk
    have hdrops : c.Drops (fun _ => False)
        { c with peerMap := c.peerMap.setNodeKeyForEpAddr addr nk } :=
      ⟨h.setNodeKeyForEpAddr addr nk, fun _ => False.elim,
        fun nk _ => by rw [hsame.endpointAt], rfl,
        fun dk => by rw [PeerMap.knownPeerDiscoKey, PeerMap.knownPeerDiscoKey, hsame.nodes]⟩
    exact of_drops (fun _ => id) hdrops (Finset.Subset.refl _)
  | rotateDiscoKey =>
    cases hok
    exact of_same (fun _ => id) h rfl rfl rfl (Finset.empty_subset _)
  | close | setFilter | setRelayClientEnabled | relayServersSet =>
    cases hok
    exact of_same (fun _ => id) h rfl rfl rfl (Finset.Subset.refl _)

/-- **Endpoints are filed in all reachable states.** -/
theorem ConnPeers.WF.of_run {τs} {c : ConnPeers H}
    (h : Run (Taken.Ok ConnOp.exec) {} τs c) : c.WF := by
  refine Run.invariant (I := fun _ c => c.WF) .empty ?_ h
  rintro _ _ τ _ hwf ⟨rfl, rfl, hok⟩
  exact (ConnOp.exec_effect hwf hok).wf

end Multiport.Magicsock

import Multiport.Magicsock.ConnRuns

/-!
# Peers that are no longer listed

`updateNodes` upserts the peers of a list, one by one, and then deletes the endpoints of
other peers: those are there if the peer map has another number of nodes than the list.
But nodes without a disco key are listed and not in the peer map, so that the numbers
can agree by chance.  `updateNodes_exact_iff` says when the peer map has exactly
the peers of the list.
-/

namespace Multiport.Magicsock

open Lib Net Tailcfg List Node EndpointRef

variable {H : Type}

namespace ConnPeers

variable (c : ConnPeers H)

/-- The peer map has the listed peers that have a disco key or are WireGuard-only, and no
others. -/
def PeersExactly (peers : List (Node H)) : Prop :=
  ∀ nk, nk ∈ c.peerMap.byNodeKey.keys ↔ ∃ n ∈ peers, n.key = nk ∧ isUnsupported n = false

/-- The endpoints of nodes that are not listed. -/
def stale (peers : List (Node H)) : List EndpointRef :=
  c.peerMap.endpoints.filter fun ep => ep.nodeID ∉ peers.map Node.id

/-- The endpoint that is there expects a disco key, and the node has none any more. -/
def CrashesOn (n : Node H) : Prop :=
  n.isWireGuardOnly = true ∧ n.discoKey = 0 ∧
    ∃ ep, c.peerMap.endpointForNodeID n.id = some ep ∧ ep.publicKey = n.key ∧
      ep.isWireguardOnly = false

/-- No key moves to another node. -/
def KeysStay (peers : List (Node H)) : Prop :=
  ∀ n ∈ peers, ∀ ep, c.peerMap.endpointAt n.key = some ep → ep.nodeID = n.id

variable {c c' : ConnPeers H} {n : Node H} {addrs : List AddrPort}

/-! ## Panics -/

theorem upsertEndpoint_ok_iff (c : ConnPeers H) (ep : EndpointRef) (addrs : List AddrPort)
    (old : PublicKey) : (∃ c', c.upsertEndpoint ep addrs old = .ok c') ↔
      ep.nodeID ≠ 0 ∧ (ep.isWireguardOnly = true ∨ c.discoKey ep ≠ none) := by
  rw [← c.peerMap.upsertEndpoint_ok_iff ep (c.discoKey ep) addrs old, upsertEndpoint]
  simp only [map_eq_ok_iff]
  exact ⟨fun ⟨_, m, hm, _⟩ => ⟨m, hm⟩, fun ⟨m, hm⟩ => ⟨_, m, hm, rfl⟩⟩

theorem isUnsupported_eq_false :
    isUnsupported n = false ↔ n.discoKey ≠ 0 ∨ n.isWireGuardOnly = true := by
  rw [isUnsupported, Bool.and_eq_false_iff, beq_eq_false_iff_ne, Bool.not_eq_false']

theorem createPeer_ok (c : ConnPeers H) (hid : n.id ≠ 0) : ∃ c', c.createPeer addrs n = .ok c' := by
  unfold ConnPeers.createPeer
  split
  · exact ⟨_, rfl⟩
  split
  · exact ⟨_, rfl⟩
  next hnew =>
    rw [upsertEndpoint_ok_iff]
    refine ⟨hid, ?_⟩
    rw [Bool.not_eq_true, isUnsupported_eq_false] at hnew
    refine hnew.symm.imp_right fun hdisco => ?_
    rw [discoKey, lookup_updateFromNode, if_pos rfl, keyOrNil_ne_none_iff]
    · exact hdisco
    · rw [lookup_updateDiscoKey, if_pos rfl]
      exact keyOrNil_ne_zero _

theorem WF.upsertPeerLocked_ok_iff (h : c.WF) (addrs : List AddrPort) (hid : n.id ≠ 0)
    (hkey : n.key ≠ 0) :
    (∃ c', c.upsertPeerLocked addrs n = .ok c') ↔ ¬c.CrashesOn n := by
  unfold ConnPeers.upsertPeerLocked
  rw [if_neg hid, if_neg hkey]
  split
  next hnone =>
    refine iff_of_true (c.createPeer_ok hid) ?_
    rintro ⟨-, -, ep, hsome, -⟩
    cases hnone.symm.trans hsome
  next ep hsome =>
    have hnode := h.indexes.id_eq _ ep hsome
    have hcrash : c.CrashesOn n ↔ n.isWireGuardOnly = true ∧ n.discoKey = 0 ∧
        ep.publicKey = n.key ∧ ep.isWireguardOnly = false := by
      simp [CrashesOn, hsome]
    rw [hcrash]
    split
    next hrotated =>
      exact iff_of_true ((c.deleteEndpoint ep).createPeer_ok hid)
        fun hcrash => hrotated hcrash.2.2.1
    next hsame =>
      unfold ConnPeers.updatePeer
      split
      next hold =>
        refine iff_of_true ⟨_, rfl⟩ fun hcrash => ?_
        rw [isUnsupported, hcrash.1] at hold
        simp at hold
      next hnew =>
        rw [Bool.not_eq_true, isUnsupported_eq_false] at hnew
        rw [upsertEndpoint_ok_iff, discoKey, lookup_updateFromNode (h.nonzero ep.ptr), if_pos rfl,
          keyOrNil_ne_none_iff, hnode, and_iff_right hid]
        cases hwg : ep.isWireguardOnly with
        | true => simp
        | false =>
          simp only [Bool.false_eq_true, false_or, hsame, and_true, not_and]
          exact ⟨fun hdisco _ => hdisco, fun hdisco => hnew.elim id hdisco⟩

/-! ## The loop -/

/-- **What the loop does**: listed nodes have their endpoints, if they are not too old, and the
endpoints of other nodes stay. -/
structure Listed (c : ConnPeers H) (peers : List (Node H)) (c' : ConnPeers H) : Prop where
  wf : c'.WF
  others : ∀ nodeID ∉ peers.map Node.id,
    c'.peerMap.endpointForNodeID nodeID = c.peerMap.endpointForNodeID nodeID
  own : ∀ n ∈ peers, (c'.peerMap.endpointForNodeID n.id).map publicKey =
    if isUnsupported n then none else some n.key

variable {l : List (Node H)}

theorem Upserts.keysStay (h : c.WF) (h' : c'.WF) (hup : c.Upserts n c')
    (hkey : n.key ∉ l.map key) (hstay : c.KeysStay l) : c'.KeysStay l := by
  intro m hm ep hep
  have hk := h'.indexes.key_eq _ ep hep
  have hid := (h'.indexes.same ep).1 (hk ▸ hep)
  by_cases hnode : ep.nodeID = n.id
  · have hown := hup.own
    rw [← hnode, hid, Option.map_some, hk] at hown
    split at hown
    · cases hown
    · exact absurd (Option.some.inj hown ▸ mem_map_of_mem hm) hkey
  · rw [hup.others _ hnode] at hid
    have hat := (h.indexes.same ep).2 hid
    rw [hk] at hat
    exact hstay m hm ep hat

/-- The loop goes through unless it panics at a peer, and lists the peers. -/
theorem WF.upsertPeers_spec (h : c.WF) (addrs : Node H → List AddrPort)
    (hids : (l.map Node.id).Nodup) (hkeys : (l.map Node.key).Nodup)
    (hzero : ∀ n ∈ l, n.id ≠ 0 ∧ n.key ≠ 0) (hstay : c.KeysStay l) :
    ((∃ c', c.upsertPeers addrs l = .ok c') ↔ ∀ n ∈ l, ¬c.CrashesOn n) ∧
      ∀ c', c.upsertPeers addrs l = .ok c' → c.Listed l c' := by
  induction l generalizing c with
  | nil =>
    refine ⟨iff_of_true ⟨c, rfl⟩ (by simp), ?_⟩
    rintro _ ⟨⟩
    exact ⟨h, fun _ _ => rfl, by simp⟩
  | cons n l ih =>
    rw [map_cons, nodup_cons] at hids hkeys
    rw [forall_mem_cons] at hzero ⊢
    have hfirst {mid} (hmid : c.upsertPeerLocked (addrs n) n = .ok mid) :
        mid.WF ∧ c.Upserts n mid ∧ mid.KeysStay l := by
      obtain ⟨hwf, -, hup⟩ := h.upsertPeerLocked hmid
      have hup := hup hzero.1.1 hzero.1.2 (hstay n mem_cons_self)
      exact ⟨hwf, hup, hup.keysStay h hwf hkeys.1 fun m hm => hstay m (mem_cons_of_mem n hm)⟩
    simp only [upsertPeers_cons]
    constructor
    · rw [← h.upsertPeerLocked_ok_iff (addrs n) hzero.1.1 hzero.1.2, exists_comm,
        ← exists_and_right]
      refine exists_congr fun mid => ?_
      rw [exists_and_left]
      refine and_congr_right fun hmid => ?_
      obtain ⟨hwf, hup, hstay'⟩ := hfirst hmid
      rw [(ih hwf hids.2 hkeys.2 hzero.2 hstay').1]
      refine forall₂_congr fun m hm => not_congr ?_
      have hne : m.id ≠ n.id := fun heq => hids.1 (heq ▸ mem_map_of_mem hm)
      rw [CrashesOn, CrashesOn, hup.others m.id hne]
    · rintro c' ⟨mid, hmid, hrest⟩
      obtain ⟨hwf, hup, hstay'⟩ := hfirst hmid
      have hlist := (ih hwf hids.2 hkeys.2 hzero.2 hstay').2 c' hrest
      refine ⟨hlist.wf, fun nodeID hnot => ?_, fun m hm => ?_⟩
      · rw [map_cons, mem_cons, not_or] at hnot
        rw [hlist.others nodeID hnot.2, hup.others nodeID hnot.1]
      · rcases mem_cons.1 hm with rfl | hm
        · rw [hlist.others m.id hids.1]
          exact hup.own
        · exact hlist.own m hm

/-! ## The count -/

section

variable {peers : List (Node H)} (h : c.WF)

include h

theorem WF.mem_stale {ep} : ep ∈ c.stale peers ↔
      c.peerMap.endpointAt ep.publicKey = some ep ∧ ep.nodeID ∉ peers.map Node.id := by
  rw [stale, mem_filter, h.indexed.mem_endpoints, decide_eq_true_eq]

theorem WF.key_notMem_of_stale (hstay : c.KeysStay peers) {ep}
    (hep : ep ∈ c.stale peers) : ep.publicKey ∉ peers.map key := by
  obtain ⟨hat, hnot⟩ := h.mem_stale.1 hep
  intro hmem
  obtain ⟨n, hn, hkey⟩ := mem_map.1 hmem
  rw [← hkey] at hat
  exact hnot (hstay n hn ep hat ▸ mem_map_of_mem hn)

variable (hids : (peers.map Node.id).Nodup) (hkeys : (peers.map Node.key).Nodup)
  (hstay : c.KeysStay peers) (hlist : c.Listed peers c')

include hkeys hstay hlist

/-- After the loop, the peer map has the endpoints of unlisted nodes and those of listed ones
that are not too old. -/
theorem Listed.keys_perm :
    c'.peerMap.byNodeKey.keys.Perm ((c.stale peers).map publicKey ++
      (peers.filter fun n => !isUnsupported n).map key) := by
  have hstale : ((c.stale peers).map publicKey).Nodup := by
    have hall := h.indexed.map_publicKey_endpoints ▸ c.peerMap.byNodeKey.keys_nodup
    exact (filter_sublist.map _).nodup hall
  have hwanted : ((peers.filter fun n => !isUnsupported n).map key).Nodup :=
    (filter_sublist.map _).nodup hkeys
  have hdisj : ((c.stale peers).map publicKey).Disjoint
      ((peers.filter fun n => !isUnsupported n).map key) := by
    intro nk hnk hnk'
    obtain ⟨ep, hep, rfl⟩ := mem_map.1 hnk
    exact h.key_notMem_of_stale hstay hep ((filter_sublist.map _).subset hnk')
  refine (perm_ext_iff_of_nodup (AList.keys_nodup _)
    (List.Nodup.append hstale hwanted hdisj)).2 fun nk => ?_
  rw [hlist.wf.indexed.mem_keys, mem_append, mem_map, mem_map]
  constructor
  · rintro ⟨ep, hep⟩
    have hk := hlist.wf.indexes.key_eq nk ep hep
    have hid := (hlist.wf.indexes.same ep).1 (hk ▸ hep)
    by_cases hmem : ep.nodeID ∈ peers.map Node.id
    · obtain ⟨n, hn, hnode⟩ := mem_map.1 hmem
      have hown := hlist.own n hn
      rw [hnode, hid, Option.map_some, hk] at hown
      split at hown
      · cases hown
      next hnew =>
        refine .inr ⟨n, mem_filter.2 ⟨hn, ?_⟩, (Option.some.inj hown).symm⟩
        simpa using hnew
    · rw [hlist.others _ hmem] at hid
      exact .inl ⟨ep, h.mem_stale.2 ⟨(h.indexes.same ep).2 hid, hmem⟩, hk⟩
  · rintro (⟨ep, hep, rfl⟩ | ⟨n, hn, rfl⟩)
    · obtain ⟨hat, hnot⟩ := h.mem_stale.1 hep
      have hid := (h.indexes.same ep).1 hat
      rw [← hlist.others _ hnot] at hid
      exact ⟨ep, (hlist.wf.indexes.same ep).2 hid⟩
    · obtain ⟨hn, hnew⟩ := mem_filter.1 hn
      have hown := hlist.own n hn
      rw [if_neg (by simpa using hnew)] at hown
      obtain ⟨ep, hid, hk⟩ := Option.map_eq_some_iff.1 hown
      have hnode := hlist.wf.indexes.id_eq _ ep hid
      exact ⟨ep, hk ▸ (hlist.wf.indexes.same ep).2 (hnode ▸ hid)⟩

include hids

/-- The peers are counted to find out whether there are stale ones. -/
theorem Listed.nodeCount_eq_iff : c'.peerMap.nodeCount = (newPeers peers).size ↔
      (c.stale peers).length = (peers.filter isUnsupported).length := by
  have hperm := (hlist.keys_perm h hkeys hstay).length_eq
  have hsize : (newPeers peers).size = peers.length := GoMap.size_foldl_insert hids
  have hcount : c'.peerMap.nodeCount = c'.peerMap.byNodeKey.keys.length :=
    (length_map _).symm
  have hsplit := length_eq_length_filter_add (l := peers) isUnsupported
  rw [length_append, length_map, length_map] at hperm
  omega

/-- What is left after the count. -/
theorem Listed.finishUpdate_exact_iff :
    (c'.finishUpdate (newPeers peers)).PeersExactly peers ↔
      c.stale peers = [] ∨ (c.stale peers).length ≠ (peers.filter isUnsupported).length := by
  have hperm := hlist.keys_perm h hkeys hstay
  have hcount := hlist.nodeCount_eq_iff h hids hkeys hstay
  obtain ⟨hdrops, -⟩ := hlist.wf.finishUpdate (newPeers peers)
  have hwanted (nk : PublicKey) : nk ∈ (peers.filter fun n => !isUnsupported n).map key ↔
      ∃ n ∈ peers, n.key = nk ∧ isUnsupported n = false := by
    simp only [mem_map, mem_filter, Bool.not_eq_true', and_assoc, and_comm]
  have hlisted (nk : PublicKey) : nk ∈ (newPeers peers).values.map key ↔ nk ∈ peers.map key := by
    have hvalues (n : Node H) : n ∈ (newPeers peers).values ↔ n ∈ peers := by
      simp [GoMap.mem_values, newPeers, GoMap.lookup_foldl_insert hids]
    simp [hvalues]
  unfold PeersExactly
  simp only [hdrops.wf.indexed.mem_keys, ← hwanted]
  by_cases heq : (c.stale peers).length = (peers.filter isUnsupported).length
  · -- Nothing is deleted.
    have hkeep (nk : PublicKey) : (∃ ep, (c'.finishUpdate (newPeers peers)).peerMap.endpointAt nk =
        some ep) ↔ nk ∈ (c.stale peers).map publicKey ∨
          nk ∈ (peers.filter fun n => !isUnsupported n).map key := by
      rw [hdrops.others nk fun hgone => hgone.1 (hcount.2 heq), ← hlist.wf.indexed.mem_keys,
        hperm.mem_iff, mem_append]
    simp only [hkeep, or_iff_right_iff_imp, heq, ne_eq, not_true_eq_false, or_false]
    constructor
    · intro hall
      rw [eq_nil_iff_forall_not_mem]
      intro ep hep
      have hmem := hall _ (mem_map_of_mem hep)
      exact h.key_notMem_of_stale hstay hep ((filter_sublist.map _).subset hmem)
    · intro hnil nk hnk
      rw [hnil] at hnk
      simp at hnk
  · refine iff_of_true (fun nk => ?_) (.inr heq)
    by_cases hnk : nk ∈ peers.map key
    · rw [hdrops.others nk fun hgone => hgone.2 ((hlisted nk).2 hnk), ← hlist.wf.indexed.mem_keys,
        hperm.mem_iff, mem_append, or_iff_right]
      intro hstale
      obtain ⟨ep, hep, rfl⟩ := mem_map.1 hstale
      exact h.key_notMem_of_stale hstay hep hnk
    · rw [hdrops.key nk ⟨fun hsame => heq (hcount.1 hsame), fun hmem => hnk ((hlisted nk).1 hmem)⟩]
      refine iff_of_false (by simp) fun hmem => hnk ((filter_sublist.map _).subset hmem)

end

end ConnPeers

open ConnPeers

/-- Two peers, and an old node. -/
def peerA : Node Unit := { id := 1, key := 11, discoKey := 21 }

def peerB : Node Unit := { id := 2, key := 12, discoKey := 22 }

def oldNode : Node Unit := { id := 3, key := 13 }

/-- The list of nodes, to a connection that takes no node for equal to another. -/
def listNodes (peers : List (Node Unit)) : ConnOp Unit :=
  .updateNodes (fun _ _ => false) (fun _ => []) {} none peers

/-- **After `updateNodes`, the peer map has exactly the listed peers** that have a disco key or
are WireGuard-only, unless there are as many stale endpoints as there are listed nodes without
one, or the loop panics. -/
theorem updateNodes_exact_iff {τs : List (Taken (ConnPeers H) (ConnOp H))} {c : ConnPeers H}
    (hrun : Run (Taken.Ok ConnOp.exec) {} τs c) (equal : Node H → Node H → Bool)
    (addrs : Node H → List AddrPort) (flags : DebugFlags) (self : Option (Node H))
    {peers : List (Node H)} (hids : (peers.map Node.id).Nodup)
    (hkeys : (peers.map key).Nodup) (hzero : ∀ n ∈ peers, n.id ≠ 0 ∧ n.key ≠ 0)
    (hstay : c.KeysStay peers) :
    (∃ c' changed, c.updateNodes equal addrs flags self peers = .ok (c', changed) ∧
        c'.PeersExactly peers) ↔
      if c.closed = true ∨ c.unchanged equal flags peers = true then c.PeersExactly peers
      else (∀ n ∈ peers, ¬c.CrashesOn n) ∧
        (c.stale peers = [] ∨ (c.stale peers).length ≠ (peers.filter isUnsupported).length) := by
  let c₀ : ConnPeers H := { c with self := self, lastFlags := flags }
  have hwf : c₀.WF := (WF.of_run hrun).of_same rfl rfl rfl
  have hstay₀ : c₀.KeysStay peers := hstay
  unfold ConnPeers.updateNodes
  split
  next hclosed =>
    rw [if_pos (.inl hclosed)]
    simp
  next hopen =>
    split
    next hsame =>
      rw [if_pos (.inr hsame)]
      simp [PeersExactly]
    next hchanged =>
      rw [if_neg (not_or.2 ⟨hopen, hchanged⟩)]
      dsimp only
      obtain ⟨hok, hlist⟩ := hwf.upsertPeers_spec addrs hids hkeys hzero hstay₀
      cases hpeers : c₀.upsertPeers addrs peers with
      | error e =>
        refine iff_of_false ?_ fun hgood => ?_
        · rintro ⟨c', changed, hc', -⟩
          cases hc'
        · obtain ⟨c₁, hc₁⟩ := hok.2 hgood.1
          cases hpeers.symm.trans hc₁
      | ok c₁ =>
        have hgood : ∀ n ∈ peers, ¬c.CrashesOn n := hok.1 ⟨c₁, hpeers⟩
        rw [and_iff_right hgood]
        have hexact := (hlist c₁ hpeers).finishUpdate_exact_iff hwf hids hkeys hstay₀
        refine Iff.trans ?_ hexact
        simp [Except.map]

/-- The two peers are listed, and then one of them. -/
theorem updateNodes_exact_iff_leaves : ∃ c : ConnPeers Unit, ∃ τs,
    Run (Taken.Ok ConnOp.exec) {} τs c ∧ τs.map Taken.act = [listNodes [peerA, peerB]] ∧
      ∃ c' changed, c.updateNodes (fun _ _ => false) (fun _ => []) {} none [peerA] =
        .ok (c', changed) ∧
        c'.PeersExactly [peerA] := by
  have hend : ∃ c : ConnPeers Unit, [listNodes [peerA, peerB]].foldlM ConnOp.exec {} = .ok c ∧
      c.closed = false ∧ c.unchanged (fun _ _ => false) {} [peerA] = false ∧
      (c.stale [peerA]).length = 1 ∧
      c.peerMap.endpointAt 11 = some { ptr := 0, nodeID := 1, publicKey := 11 } :=
    ⟨_, rfl, rfl, rfl, rfl, rfl⟩
  obtain ⟨c, hok, hopen, hchanged, hstale, hat⟩ := hend
  obtain ⟨τs, hrun, hacts⟩ := exists_run_of_foldlM hok
  refine ⟨c, τs, hrun, hacts, ?_⟩
  have hstay : c.KeysStay [peerA] := by
    intro n hn ep hep
    obtain rfl := mem_singleton.1 hn
    rw [show peerA.key = 11 from rfl, hat] at hep
    rw [← Option.some.inj hep]
    rfl
  have hiff := updateNodes_exact_iff hrun (fun _ _ => false) (fun _ => []) {} none
    (by simp) (by simp) (by simp [peerA]) hstay
  rw [hiff, if_neg (by simp [hopen, hchanged])]
  refine ⟨fun n hn hcrash => ?_, .inr ?_⟩
  · obtain rfl := mem_singleton.1 hn
    exact absurd hcrash.1 (by simp [peerA])
  · rw [hstale]
    decide

/-- The second peer is replaced by an old node, and stays. -/
theorem updateNodes_keeps_stale : ∃ c : ConnPeers Unit, ∃ τs,
    Run (Taken.Ok ConnOp.exec) {} τs c ∧
      τs.map Taken.act = [listNodes [peerA, peerB], listNodes [peerA, oldNode]] ∧
      c.peerMap.byNodeKey.keys = [12, 11] ∧ ¬c.PeersExactly [peerA, oldNode] := by
  have hend : ∃ c : ConnPeers Unit,
      [listNodes [peerA, peerB], listNodes [peerA, oldNode]].foldlM ConnOp.exec {} = .ok c ∧
        c.peerMap.byNodeKey.keys = [12, 11] := ⟨_, rfl, rfl⟩
  obtain ⟨c, hok, hkeys⟩ := hend
  obtain ⟨τs, hrun, hacts⟩ := exists_run_of_foldlM hok
  refine ⟨c, τs, hrun, hacts, hkeys, fun hexact => ?_⟩
  have hmem : (12 : PublicKey) ∈ c.peerMap.byNodeKey.keys := by rw [hkeys]; exact mem_cons_self
  obtain ⟨n, hn, hkey, -⟩ := (hexact 12).1 hmem
  rcases mem_cons.1 hn with rfl | hn
  · exact absurd hkey (by decide)
  · obtain rfl := mem_singleton.1 hn
    exact absurd hkey (by decide)

end Multiport.Magicsock

import Multiport.Magicsock.ConnRuns

/-!
# Relay servers, peer by peer

`UpsertPeer` and `RemovePeer` tell the relay manager about the one peer that changed,
while `updateRelayServersSet` computes the set of servers from all peers.  The
manager files servers under their node key, and an update only mentions the key
that the peer has now.  `relayServers_inSync_iff` says which updates keep the manager's
set equal to the computed one.
-/

namespace Multiport.Magicsock

open Lib Net Tailcfg List Taken RelayServers

variable {H : Type}

/-- Some peer other than `nid` is the server. -/
def ServerBut (filt : Option RelayFilter) (me : Node H) (peers : GoMap NodeID (Node H))
    (nid : NodeID) (v : CandidatePeerRelay) : Prop :=
  ∃ id p, id ≠ nid ∧ peers.lookup id = some p ∧ isRelayServer filt me p = true ∧ candidateOf p = v

section

variable {filt : Option RelayFilter} {me n : Node H} {peers : GoMap NodeID (Node H)} {nid : NodeID}
  {v : CandidatePeerRelay}

theorem mem_updateRelayServersSet (hv : v.nodeKey ≠ me.key) :
    v ∈ updateRelayServersSet filt me peers.values ↔
      ∃ id p, peers.lookup id = some p ∧ isRelayServer filt me p = true ∧ candidateOf p = v := by
  rw [updateRelayServersSet, mem_toFinset, mem_map]
  constructor
  · rintro ⟨p, hp, rfl⟩
    rw [mem_filter, mem_append, mem_singleton, GoMap.mem_values] at hp
    obtain ⟨⟨id, hid⟩ | rfl, hserver⟩ := hp
    · exact ⟨id, p, hid, hserver, rfl⟩
    · exact absurd rfl hv
  · rintro ⟨id, p, hid, hserver, rfl⟩
    refine ⟨p, mem_filter.2 ⟨mem_append_left _ ?_, hserver⟩, rfl⟩
    exact GoMap.mem_values.2 ⟨id, hid⟩

/-- The servers are one peer's and those of the others. -/
theorem mem_updateRelayServersSet_split (nid : NodeID) (hv : v.nodeKey ≠ me.key) :
    v ∈ updateRelayServersSet filt me peers.values ↔
      (∃ prev, peers.lookup nid = some prev ∧ isRelayServer filt me prev = true ∧
        candidateOf prev = v) ∨ ServerBut filt me peers nid v := by
  rw [mem_updateRelayServersSet hv]
  constructor
  · rintro ⟨id, p, hid, hserver, hp⟩
    by_cases heq : id = nid
    · exact .inl ⟨p, heq ▸ hid, hserver, hp⟩
    · exact .inr ⟨id, p, heq, hid, hserver, hp⟩
  · rintro (⟨prev, hprev, hserver, hp⟩ | ⟨id, p, -, hid, hserver, hp⟩)
    · exact ⟨nid, prev, hprev, hserver, hp⟩
    · exact ⟨id, p, hid, hserver, hp⟩

theorem mem_updateRelayServersSet_insert (hv : v.nodeKey ≠ me.key) :
    v ∈ updateRelayServersSet filt me (GoMap.values (peers.insert nid n)) ↔
      (isRelayServer filt me n = true ∧ candidateOf n = v) ∨ ServerBut filt me peers nid v := by
  rw [mem_updateRelayServersSet_split nid hv]
  refine or_congr (by simp) (exists_congr fun id => exists_congr fun p =>
    and_congr_right fun hne => ?_)
  rw [AList.lookup_insert_ne hne]

theorem mem_updateRelayServersSet_erase (hv : v.nodeKey ≠ me.key) :
    v ∈ updateRelayServersSet filt me (GoMap.values (peers.erase nid)) ↔
      ServerBut filt me peers nid v := by
  rw [mem_updateRelayServersSet_split nid hv]
  refine (or_iff_right (by simp)).trans ?_
  refine exists_congr fun id => exists_congr fun p => and_congr_right fun hne => ?_
  rw [AList.lookup_erase_ne hne]

end

namespace ConnPeers

/-- **The relay manager has the servers that `updateRelayServersSet` would compute**, apart from
the node itself. -/
def RelayInSync (me : Node H) (c : ConnPeers H) : Prop :=
  c.relay.servers.filter (·.nodeKey ≠ me.key) =
    (updateRelayServersSet c.filt me c.peersByID.values).filter (·.nodeKey ≠ me.key)

/-- A relay client with the node `me` as itself. -/
structure RelayClient (me : Node H) (c : ConnPeers H) : Prop where
  isOpen : c.closed = false
  enabled : c.relayClientEnabled = true
  self : c.self = some me
  keyed : c.relay.Keyed

instance (me : Node H) (c : ConnPeers H) : Decidable (c.RelayInSync me) :=
  inferInstanceAs (Decidable (_ = _))

variable {me : Node H} {c c' : ConnPeers H}

theorem RelayClient.inSync_iff (h : c.RelayClient me) : c.RelayInSync me ↔
    ∀ v, v.nodeKey ≠ me.key → (c.relay.serversByNodeKey.lookup v.nodeKey = some v ↔
      v ∈ updateRelayServersSet c.filt me c.peersByID.values) := by
  rw [RelayInSync, Finset.ext_iff]
  refine forall_congr' fun v => ?_
  rw [Finset.mem_filter, Finset.mem_filter, mem_servers h.keyed, and_congr_left_iff]

/-- What an update of one peer does to a relay client: with the new peers, the server with the
key of the peer is another one. -/
structure RelayUpdate (me : Node H) (c : ConnPeers H) (byID : GoMap NodeID (Node H))
    (key : PublicKey) (server : Option CandidatePeerRelay) (c' : ConnPeers H) : Prop where
  client : c'.RelayClient me
  filt : c'.filt = c.filt
  peers : c'.peersByID = byID
  servers : ∀ nk, c'.relay.serversByNodeKey.lookup nk =
    if nk = key then server else c.relay.serversByNodeKey.lookup nk

/-- The server that `UpsertPeer` takes a peer for. -/
theorem RelayClient.relayCandidateLocked_eq (h : c.RelayClient me) (n : Node H) :
    c.relayCandidateLocked n =
      if capVerIsRelayCapable n.cap ∧ nodeHasCap c.filt n (some me) then some (candidateOf n)
      else none := by
  unfold relayCandidateLocked
  rw [h.self]
  cases capVerIsRelayCapable n.cap <;> cases nodeHasCap c.filt n (some me) <;> simp

end ConnPeers

open ConnPeers

/-- The upserted peer leaves the servers in sync. -/
structure UpsertInSync (me : Node H) (c : ConnPeers H) (n : Node H) : Prop where
  /-- If it was a server under another key, then another peer is that server. -/
  moved : ∀ prev, c.peersByID.lookup n.id = some prev → isRelayServer c.filt me prev = true →
    prev.key ≠ n.key → prev.key ≠ me.key → ServerBut c.filt me c.peersByID n.id (candidateOf prev)
  /-- If another peer is a server with its key, then it is that server too. -/
  shared : ∀ v, ServerBut c.filt me c.peersByID n.id v → v.nodeKey = n.key → n.key ≠ me.key →
    c.relayCandidateLocked n = some v
  /-- If it is a server, then its capability version says so. -/
  capable : isRelayServer c.filt me n = true → n.key ≠ me.key → (c.relayCandidateLocked n).isSome

/-- The removed peer leaves the servers in sync: no other server has its key. -/
def RemoveInSync (me : Node H) (c : ConnPeers H) (nid : NodeID) : Prop :=
  ∀ prev, c.peersByID.lookup nid = some prev → prev.key ≠ me.key →
    ∀ v, ServerBut c.filt me c.peersByID nid v → v.nodeKey ≠ prev.key

/-- The update of a peer leaves the servers in sync. -/
def KeepsRelay (me : Node H) (τ : Taken (ConnPeers H) (ConnOp H)) : Prop :=
  match τ.act with
  | .upsertPeer _ n => n.id ≠ 0 → UpsertInSync me τ.before n
  | .removePeer nid => RemoveInSync me τ.before nid
  | _ => True

/-- `UpsertPeer` and `RemovePeer`. -/
def ConnOp.OnePeer : ConnOp H → Prop
  | upsertPeer .. | removePeer _ => True
  | _ => False

namespace ConnPeers

variable {me : Node H} {c c' : ConnPeers H}

variable (h : c.RelayClient me)

include h

theorem RelayClient.upsertRelay (n : Node H) :
    RelayUpdate me c c.peersByID n.key (c.relayCandidateLocked n) (c.upsertRelay n) := by
  have hkey (v : CandidatePeerRelay) (hv : c.relayCandidateLocked n = some v) :
      v.nodeKey = n.key := by
    rw [h.relayCandidateLocked_eq] at hv
    split at hv
    · rw [← Option.some.inj hv]
      rfl
    · cases hv
  unfold ConnPeers.upsertRelay
  rw [if_pos h.enabled]
  cases hn : c.relayCandidateLocked n with
  | none =>
    refine ⟨{ h with keyed := h.keyed.handleServerRemoveRunLoop _ }, rfl, rfl, ?_⟩
    exact fun nk => lookup_handleServerRemoveRunLoop _ _
  | some cp =>
    refine ⟨{ h with keyed := h.keyed.handleServerUpsertRunLoop _ }, rfl, rfl, ?_⟩
    intro nk
    rw [← hkey cp hn]
    exact lookup_handleServerUpsertRunLoop _ _

theorem upsertPeer_eq {addrs} {n : Node H} (hid : n.id ≠ 0) (hok : c.upsertPeer addrs n = .ok c') :
    RelayUpdate me c (c.peersByID.insert n.id n) n.key (c.relayCandidateLocked n) c' := by
  unfold upsertPeer at hok
  rw [if_neg (by simp [h.isOpen]), if_neg hid] at hok
  obtain ⟨c₁, hc₁, rfl⟩ := map_eq_ok_iff.1 hok
  have hrest := rest_upsertPeerLocked hc₁
  have hclient : c₁.rest.RelayClient me := hrest ▸ { h with }
  have hup := RelayClient.upsertRelay (c := c₁) { hclient with } n
  replace hup : RelayUpdate me c₁.rest c₁.rest.peersByID n.key (c₁.rest.relayCandidateLocked n)
    (c₁.upsertRelay n) := { hup with }
  rw [hrest] at hup
  exact { hup with }

theorem removePeer_eq {nid : NodeID} {prev : Node H} (hprev : c.peersByID.lookup nid = some prev) :
    RelayUpdate me c (c.peersByID.erase nid) prev.key none (c.removePeer nid) := by
  have hgone : ∃ m disco next info,
      ({ c with peersByID := c.peersByID.erase nid }.deleteEndpointOf nid).dropDiscoInfo
        prev.discoKey = { c with
          peersByID := c.peersByID.erase nid, peerMap := m, disco := disco, nextEndpoint := next,
          discoInfo := info } := by
    unfold dropDiscoInfo deleteEndpointOf
    split <;> split <;> exact ⟨_, _, _, _, rfl⟩
  obtain ⟨m, disco, next, info, hgone⟩ := hgone
  unfold removePeer
  rw [if_neg (by simp [h.isOpen]), hprev]
  dsimp only
  rw [hgone, removeRelay, if_pos h.enabled]
  refine ⟨{ h with keyed := h.keyed.handleServerRemoveRunLoop _ }, rfl, rfl, ?_⟩
  exact fun nk => lookup_handleServerRemoveRunLoop _ _

/-! ## One update -/

theorem RelayClient.upsert_inSync_iff {n : Node H}
    (h' : RelayUpdate me c (c.peersByID.insert n.id n) n.key (c.relayCandidateLocked n) c')
    (hsync : c.RelayInSync me) : c'.RelayInSync me ↔ UpsertInSync me c n := by
  have hcand := h.relayCandidateLocked_eq n
  rw [h.inSync_iff] at hsync
  rw [h'.client.inSync_iff]
  simp only [h'.filt, h'.peers, h'.servers]
  constructor
  · intro hall
    constructor
    · intro prev hprev hserver hkey hself
      have hkey : (candidateOf prev).nodeKey ≠ n.key := hkey
      have hnew := hall (candidateOf prev) hself
      have hold := hsync (candidateOf prev) hself
      rw [mem_updateRelayServersSet_insert hself, if_neg hkey] at hnew
      rw [mem_updateRelayServersSet_split n.id hself] at hold
      rcases hnew.1 (hold.2 (.inl ⟨prev, hprev, hserver, rfl⟩)) with ⟨-, heq⟩ | hbut
      · exact absurd (congrArg CandidatePeerRelay.nodeKey heq).symm hkey
      · exact hbut
    · intro v hv hkey hself
      have hnew := hall v (hkey ▸ hself)
      rw [mem_updateRelayServersSet_insert (hkey ▸ hself), if_pos hkey] at hnew
      exact hnew.2 (.inr hv)
    · intro hserver hself
      have hnew := hall (candidateOf n) hself
      have hkey : (candidateOf n).nodeKey = n.key := rfl
      rw [mem_updateRelayServersSet_insert hself, if_pos hkey] at hnew
      rw [hnew.2 (.inl ⟨hserver, rfl⟩)]
      rfl
  · rintro ⟨hmoved, hshared, hcapable⟩ v hself
    have hold := hsync v hself
    rw [mem_updateRelayServersSet_split n.id hself] at hold
    rw [mem_updateRelayServersSet_insert hself]
    by_cases hkey : v.nodeKey = n.key
    · rw [if_pos hkey]
      constructor
      · intro hv
        rw [hv] at hcand
        split at hcand
        next hgood =>
          refine .inl ⟨?_, (Option.some.inj hcand).symm⟩
          rw [isRelayServer, hgood.1, hgood.2]
          simp
        · cases hcand
      · rintro (⟨hserver, rfl⟩ | hbut)
        · have hsome := hcapable hserver hself
          rw [hcand] at hsome ⊢
          split at hsome
          next hgood => rw [if_pos hgood]
          · cases hsome
        · exact hshared v hbut hkey (hkey ▸ hself)
    · rw [if_neg hkey, hold]
      constructor
      · rintro (⟨prev, hprev, hserver, rfl⟩ | hbut)
        · exact .inr (hmoved prev hprev hserver hkey hself)
        · exact .inr hbut
      · rintro (⟨-, rfl⟩ | hbut)
        · exact absurd rfl hkey
        · exact .inr hbut

theorem RelayClient.remove_inSync_iff {nid : NodeID} {prev : Node H}
    (h' : RelayUpdate me c (c.peersByID.erase nid) prev.key none c') (hsync : c.RelayInSync me)
    (hprev : c.peersByID.lookup nid = some prev) : c'.RelayInSync me ↔ RemoveInSync me c nid := by
  rw [h.inSync_iff] at hsync
  rw [h'.client.inSync_iff]
  simp only [h'.filt, h'.peers, h'.servers]
  constructor
  · intro hall prev' hprev' hself v hbut hkey
    cases hprev.symm.trans hprev'
    have hnew := hall v (hkey ▸ hself)
    rw [mem_updateRelayServersSet_erase (hkey ▸ hself), if_pos hkey] at hnew
    exact absurd (hnew.2 hbut) (by simp)
  · intro hremove v hself
    have hold := hsync v hself
    rw [mem_updateRelayServersSet_split nid hself] at hold
    rw [mem_updateRelayServersSet_erase hself]
    by_cases hkey : v.nodeKey = prev.key
    · rw [if_pos hkey]
      refine iff_of_false (by simp) fun hbut => ?_
      exact hremove prev hprev (hkey ▸ hself) v hbut hkey
    rw [if_neg hkey, hold]
    refine or_iff_right ?_
    rintro ⟨prev', hprev', -, rfl⟩
    cases hprev.symm.trans hprev'
    exact hkey rfl

end ConnPeers

/-- A relay client that has no peers yet, and lets all nodes be its relay servers. -/
def relayNode : Node Unit := { id := 1, key := 11, addresses := [⟨.v4 0x64400001#32, 32⟩] }

def relayConn : ConnPeers Unit where
  self := some relayNode
  filt := some fun _ _ => true
  relayClientEnabled := true

/-- A relay server, and the same one with another key. -/
def relayPeer : Node Unit :=
  { id := 2, key := 12, discoKey := 22, cap := 121, addresses := [⟨.v4 0x64400002#32, 32⟩] }

def rotatedPeer : Node Unit := { relayPeer with key := 13 }

theorem relayConn_client : relayConn.RelayClient relayNode where
  isOpen := rfl
  enabled := rfl
  self := rfl
  keyed _ _ h := by simp [relayConn] at h

theorem relayConn_inSync : relayConn.RelayInSync relayNode := by
  decide

/-- **Updating peers one by one keeps the relay servers in sync with all peers**, as long as every
update does. -/
theorem relayServers_inSync_iff {me : Node H} {c₀ c : ConnPeers H}
    {τs : List (Taken (ConnPeers H) (ConnOp H))} (h₀ : c₀.RelayClient me)
    (hsync : c₀.RelayInSync me) (h : Run (Ok ConnOp.exec) c₀ τs c)
    (hops : ∀ τ ∈ τs, τ.act.OnePeer) :
    (∀ τ ∈ τs, τ.after.RelayInSync me) ↔ ∀ τ ∈ τs, KeepsRelay me τ := by
  have h' : Run (fun s τ t => τ.act.OnePeer ∧ Ok ConnOp.exec s τ t) c₀ τs c :=
    h.mono fun s τ t hτ hstep => ⟨hops τ hτ, hstep⟩
  refine Run.forall_labels_iff (I := fun c => c.RelayClient me ∧ c.RelayInSync me) ⟨h₀, hsync⟩ ?_ h'
  rintro _ ⟨c, op, c'⟩ _ ⟨hclient, hsync⟩ ⟨hone, rfl, rfl, hok⟩
  dsimp only at hclient hsync hok hone ⊢
  cases op with
  | upsertPeer addrs n =>
    by_cases hid : n.id = 0
    · have hsame : c' = c := by
        simp only [ConnOp.exec, upsertPeer, hid, if_true, ite_self] at hok
        exact (Except.ok.inj hok).symm
      subst hsame
      exact ⟨iff_of_true hsync fun hne => absurd hid hne, fun _ => ⟨hclient, hsync⟩⟩
    · have hup := upsertPeer_eq hclient hid hok
      have hiff := hclient.upsert_inSync_iff hup hsync
      have hkeeps : KeepsRelay me ⟨c, .upsertPeer addrs n, c'⟩ ↔ UpsertInSync me c n :=
        ⟨fun hkeeps => hkeeps hid, fun hkeeps _ => hkeeps⟩
      rw [hkeeps, hiff]
      exact ⟨Iff.rfl, fun hkeeps => ⟨hup.client, hkeeps⟩⟩
  | removePeer nid =>
    cases hok
    cases hprev : c.peersByID.lookup nid with
    | none =>
      have hsame : c.removePeer nid = c := by
        rw [removePeer, hprev, ite_self]
      rw [hsame]
      refine ⟨iff_of_true hsync fun prev hprev' => ?_, fun _ => ⟨hclient, hsync⟩⟩
      rw [show c.peersByID.lookup nid = _ from hprev] at hprev'
      cases hprev'
    | some prev =>
      have hgone := removePeer_eq hclient hprev
      have hiff := hclient.remove_inSync_iff hgone hsync hprev
      exact ⟨hiff, fun hrm => ⟨hgone.client, hiff.2 hrm⟩⟩
  | _ => exact absurd hone id

/-- A server comes and goes. -/
theorem relayServers_inSync_iff_goes : ∃ c, ∃ τs, Run (Ok ConnOp.exec) relayConn τs c ∧
    τs.map act = [.upsertPeer [] relayPeer, .removePeer 2] ∧
      ((∀ τ ∈ τs, τ.after.RelayInSync relayNode) ↔ ∀ τ ∈ τs, KeepsRelay relayNode τ) := by
  have hend : ∃ c, [.upsertPeer [] relayPeer, .removePeer 2].foldlM ConnOp.exec relayConn = .ok c :=
    ⟨_, rfl⟩
  obtain ⟨c, hok⟩ := hend
  obtain ⟨τs, hrun, hacts⟩ := exists_run_of_foldlM hok
  refine ⟨c, τs, hrun, hacts, relayServers_inSync_iff relayConn_client relayConn_inSync hrun ?_⟩
  intro τ hτ
  have hmem := hacts ▸ mem_map_of_mem (f := act) hτ
  rcases mem_cons.1 hmem with hact | hmem
  · rw [hact]
    trivial
  · rw [mem_singleton.1 hmem]
    trivial

/-- A server gets another key, and is there under both. -/
theorem relayServers_rotated : ∃ c, ∃ τs, Run (Ok ConnOp.exec) relayConn τs c ∧
    τs.map act = [.upsertPeer [] relayPeer, .upsertPeer [] rotatedPeer] ∧
      candidateOf relayPeer ∈ c.relay.servers ∧ ¬c.RelayInSync relayNode := by
  have hend : ∃ c, [.upsertPeer [] relayPeer, .upsertPeer [] rotatedPeer].foldlM ConnOp.exec
      relayConn = .ok c ∧ candidateOf relayPeer ∈ c.relay.servers ∧ ¬c.RelayInSync relayNode :=
    ⟨_, rfl, by decide, by decide⟩
  obtain ⟨c, hok, hserver, hsync⟩ := hend
  obtain ⟨τs, hrun, hacts⟩ := exists_run_of_foldlM hok
  exact ⟨c, τs, hrun, hacts, hserver, hsync⟩

end Multiport.Magicsock

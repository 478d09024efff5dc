import Multiport.Control.Patchify

/-!
# Screening disco keys

A session may have learned the disco key of a peer from the peer itself, over TSMP, and
then hear of an older key from the control server.  `handleNonKeepAliveMapResponse`
screens every response before it applies it (`control/controlclient/map.go`).

* In a delta, `removeUnwantedDiscoUpdates` drops the patches with a stale key.  A patch
  goes as a whole, with whatever else it changes: `handleMapResponse_applies_iff` says
  that the other fields are still applied exactly if no stale patch has any.
* In a full update, `removeUnwantedDiscoUpdatesFromFullNetmapUpdate` writes the session's
  key and last-seen time into the peer of the response.  It writes the time through the
  peer's own pointer: `fullNetmapUpdate_screened_iff` says that it returns, and keeps the
  session's keys, exactly if no such peer comes without a last-seen time.
-/

namespace Multiport.Control

open Lib Tailcfg List MapResponse Option

variable {H : Type}

/-! ## The code -/

namespace MapSession

variable (ms : MapSession H)

/-- The loop body of `removeUnwantedDiscoUpdates`: is the change accepted? -/
def acceptsDisco (viaTSMP : Bool) (change : PeerChange) : Bool :=
  match change.discoKey, change.online, change.lastSeen with
  | some discoKey, some online, some lastSeen =>
    match ms.peers.lookup change.nodeID with
    | none => true
    | some existing =>
      if viaTSMP && existing.online.getD false && discoKey == existing.discoKey then false
      else if online then true
      else existing.lastSeen.all fun existingLastSeen => existingLastSeen < lastSeen
  | _, _, _ => true

def removeUnwantedDiscoUpdates (resp : MapResponse H) (viaTSMP : Bool) : MapResponse H :=
  { resp with peersChangedPatch := resp.peersChangedPatch.filter (ms.acceptsDisco viaTSMP) }

/-- The loop body of `removeUnwantedDiscoUpdatesFromFullNetmapUpdate`; an error is a
panic. -/
def screenPeer (peer : Node H) : Except String (Node H) :=
  if peer.discoKey = 0 then .ok peer
  else
    match ms.peers.lookup peer.id with
    | none => .ok peer
    | some existing =>
      if existing.discoKey = peer.discoKey then .ok peer
      else if peer.online = some true then .ok peer
      else
        match existing.lastSeen with
        | none => .ok peer
        | some existingLastSeen =>
          match peer.lastSeen with
          | some lastSeen =>
            if existingLastSeen < lastSeen then .ok peer
            else
              .ok { peer with
                discoKey := existing.discoKey
                lastSeen := some existingLastSeen }
          -- `*peer.LastSeen = ...` with a nil `LastSeen`
          | none => .error "invalid memory address or nil pointer dereference"

def removeUnwantedDiscoUpdatesFromFullNetmapUpdate (resp : MapResponse H) :
    Except String (MapResponse H) :=
  if resp.peers.elems.length = 0 then .ok resp
  else do
    let peers ← resp.peers.elems.mapM ms.screenPeer
    return { resp with peers := some peers }

/-- `mapSession.handleNonKeepAliveMapResponse`, from patchifying to the update of the
session's peers, on a response whose nodes are upgraded. -/
def handleMapResponse [DecidableEq H] (ms : MapSession H) (now : Time) (viaTSMP : Bool)
    (resp : MapResponse H) : Except String (MapSession H) := do
  let resp ← ms.patchifyPeersChanged resp
  let resp := ms.removeUnwantedDiscoUpdates resp viaTSMP
  if viaTSMP && resp.peersChangedPatch.length = 0 then return ms
  let resp ← ms.removeUnwantedDiscoUpdatesFromFullNetmapUpdate resp
  return (ms.updatePeersStateFromResponse now resp).1

end MapSession

/-! ## Full updates -/

/-- The control server's key of the peer is older than that of the session: the peer is
not online, so that the server's record dates from when it was last seen, and the session
has seen it no earlier than that. -/
structure OlderKey (ms : MapSession H) (peer existing : Node H) : Prop where
  known : ms.peers.lookup peer.id = some existing
  supplied : peer.discoKey ≠ 0
  offline : peer.online ≠ some true
  older : ∃ t, existing.lastSeen = some t ∧ ∀ u, peer.lastSeen = some u → u ≤ t

/-- What screening makes of a peer: nothing but its disco key and last-seen time changes,
and an older key gives way to the session's. -/
structure ScreenedPeer (ms : MapSession H) (peer peer' : Node H) : Prop where
  frame : peer' = { peer with discoKey := peer'.discoKey, lastSeen := peer'.lastSeen }
  keeps : ∀ existing, OlderKey ms peer existing → peer'.discoKey = existing.discoKey

/-- What screening makes of a response: its peers are screened one by one, and the rest is
as it was. -/
structure Screened (ms : MapSession H) (resp resp' : MapResponse H) : Prop where
  frame : resp' = { resp with peers := resp'.peers }
  peers : List.Forall₂ (ScreenedPeer ms) resp.peers.elems resp'.peers.elems

/-- An offline peer that comes with another key than the session has, and without a
last-seen time, where the session has one. -/
def Unstamped (ms : MapSession H) (peer : Node H) : Prop :=
  ∃ existing t, ms.peers.lookup peer.id = some existing ∧ existing.lastSeen = some t ∧
    peer.discoKey ≠ 0 ∧ existing.discoKey ≠ peer.discoKey ∧ peer.online ≠ some true ∧
    peer.lastSeen = none

namespace MapSession

variable {ms : MapSession H}

theorem screenPeer_spec {peer peer' : Node H} (h : ms.screenPeer peer = .ok peer') :
    ScreenedPeer ms peer peer' := by
  unfold screenPeer at h
  split at h
  next hzero =>
    cases h
    exact ⟨rfl, fun _ hold => absurd hzero hold.supplied⟩
  split at h
  next hnew =>
    cases h
    exact ⟨rfl, fun _ hold => by simp [hold.known] at hnew⟩
  next existing hknown =>
  have hsame {e : Node H} (hold : OlderKey ms peer e) : e = existing :=
    Option.mem_unique hold.known hknown
  split at h
  next heq =>
    cases h
    exact ⟨rfl, fun e hold => by rw [hsame hold, heq]⟩
  split at h
  next honline =>
    cases h
    exact ⟨rfl, fun _ hold => absurd honline hold.offline⟩
  split at h
  next hnone =>
    cases h
    refine ⟨rfl, fun e hold => ?_⟩
    obtain ⟨t, ht, -⟩ := hsame hold ▸ hold.older
    simp [ht] at hnone
  next t ht =>
  split at h
  next u hu =>
    split at h
    next hlt =>
      cases h
      refine ⟨rfl, fun e hold => ?_⟩
      obtain ⟨t', ht', hle⟩ := hsame hold ▸ hold.older
      cases ht'.symm.trans ht
      exact absurd hlt (not_lt.2 (hle u hu))
    · cases h
      exact ⟨rfl, fun e hold => by rw [hsame hold]⟩
  · cases h

/-- The loop panics on exactly one kind of peer. -/
theorem exists_screenPeer_iff (peer : Node H) :
    (∃ peer', ms.screenPeer peer = .ok peer') ↔ ¬ Unstamped ms peer := by
  constructor
  · rintro ⟨peer', h⟩ ⟨existing, t, hknown, ht, hsupplied, hne, hoffline, hnone⟩
    rw [screenPeer, if_neg hsupplied, hknown] at h
    simp [hne, hoffline, ht, hnone] at h
  · intro h
    unfold screenPeer
    split
    · exact ⟨_, rfl⟩
    next hsupplied =>
    split
    · exact ⟨_, rfl⟩
    next existing hknown =>
    split
    · exact ⟨_, rfl⟩
    next hne =>
    split
    · exact ⟨_, rfl⟩
    next hoffline =>
    split
    · exact ⟨_, rfl⟩
    next t ht =>
    split
    · split <;> exact ⟨_, rfl⟩
    next hnone =>
      exact absurd ⟨existing, t, hknown, ht, hsupplied, hne, hoffline, hnone⟩ h

/-- **Screening a full update** returns, changes only disco keys and last-seen times of its
peers, and keeps the session's keys where they are newer, exactly if no offline peer with a
changed key comes without the last-seen time that the session has. -/
theorem fullNetmapUpdate_screened_iff (ms : MapSession H) (resp : MapResponse H) :
    (∃ resp', ms.removeUnwantedDiscoUpdatesFromFullNetmapUpdate resp = .ok resp' ∧
      Screened ms resp resp') ↔ ∀ peer ∈ resp.peers.elems, ¬ Unstamped ms peer := by
  simp only [← exists_screenPeer_iff, ← exists_mapM_eq_ok_iff]
  unfold removeUnwantedDiscoUpdatesFromFullNetmapUpdate
  split
  next hnil =>
    have hpeers : resp.peers.elems = [] := eq_nil_of_length_eq_zero hnil
    refine iff_of_true ⟨resp, rfl, rfl, ?_⟩ ⟨[], by rw [hpeers]; rfl⟩
    rw [hpeers]
    exact .nil
  · simp only [bind_eq_ok_iff]
    constructor
    · rintro ⟨resp', ⟨peers, hpeers, -⟩, -⟩
      exact ⟨peers, hpeers⟩
    · rintro ⟨peers, hpeers⟩
      refine ⟨_, ⟨peers, hpeers, rfl⟩, rfl, ?_⟩
      exact (mapM_eq_ok_iff.1 hpeers).imp fun _ _ h => screenPeer_spec h

end MapSession

/-- A session that has seen the peer 1, at time 100 and with the disco key 5. -/
def sessionWithDisco : MapSession Unit :=
  (newMapSession.updatePeersStateFromResponse 0
    { peers := some [{ id := 1, key := 1, discoKey := 5, online := some true,
                       lastSeen := some 100 }] }).1

/-- The control server sends the peer offline, with another key and no last-seen time: the
session panics. -/
theorem fullNetmapUpdate_nil_lastSeen :
    ∃ msg, sessionWithDisco.removeUnwantedDiscoUpdatesFromFullNetmapUpdate
      { peers := some [{ id := 1, key := 1, discoKey := 6, online := some false }] } =
        .error msg :=
  ⟨_, rfl⟩

/-! ## Deltas -/

/-- A change with a stale disco key: the control server reports the peer offline and last
seen no later than the session has it. -/
def MapSession.Stale (ms : MapSession H) (change : PeerChange) : Prop :=
  change.discoKey.isSome ∧ change.online = some false ∧
    ∃ existing t u, ms.peers.lookup change.nodeID = some existing ∧ existing.lastSeen = some t ∧
      change.lastSeen = some u ∧ u ≤ t

variable (ms : MapSession H)

/-- From the control server exactly the stale changes are rejected. -/
theorem MapSession.acceptsDisco_eq_false_iff (change : PeerChange) :
    ms.acceptsDisco false change = false ↔ ms.Stale change := by
  unfold acceptsDisco Stale
  cases hdisco : change.discoKey with
  | none => simp
  | some discoKey =>
  cases honline : change.online with
  | none => simp
  | some online =>
  cases hseen : change.lastSeen with
  | none => simp
  | some u =>
  cases hknown : ms.peers.lookup change.nodeID with
  | none => simp
  | some existing => cases online <;> cases hexisting : existing.lastSeen <;> simp [hexisting]

/-- The fields of a patch that say nothing about the disco key or its age. -/
def isOther : PatchField → Bool
  | .discoKey | .online | .lastSeen => false
  | .homeDERP | .cap | .capMap | .endpoints | .key | .keySignature | .keyExpiry => true

/-- The values that a response writes to a field of the peer `k` by patches, in order. -/
def MapResponse.writes (resp : MapResponse H) (k : NodeID) (f : PatchField) : List f.Val :=
  (patchesFor resp k).filterMap fun pc => pc.toOverwrite f

theorem filterMap_filter_eq_iff {α β : Type*} (p : α → Bool) (f : α → Option β) (l : List α) :
    (l.filter p).filterMap f = l.filterMap f ↔ ∀ a ∈ l, p a = false → f a = none := by
  induction l with
  | nil => simp
  | cons a l ih =>
    rw [forall_mem_cons, ← ih]
    cases hp : p a with
    | true =>
      rw [filter_cons_of_pos hp]
      cases hf : f a <;> simp [hf]
    | false =>
      rw [filter_cons_of_neg (by simp [hp])]
      cases hf : f a with
      | none => simp [hf]
      | some b =>
        have hlen := ((filter_sublist (p := p) (l := l)).filterMap f).length_le
        refine iff_of_false (fun heq => ?_) (by simp)
        rw [heq, filterMap_cons_some hf] at hlen
        exact Nat.not_succ_le_self _ hlen

/-- The screened response makes the writes of the others exactly if no stale change for the
peer writes the field. -/
theorem writes_removeUnwantedDiscoUpdates_iff (resp : MapResponse H) (k : NodeID) (f : PatchField) :
    writes (ms.removeUnwantedDiscoUpdates resp false) k f =
        writes resp k f ↔
      ∀ pc ∈ patchesFor resp k, ms.Stale pc → pc.toOverwrite f = none := by
  have hcomm : patchesFor (ms.removeUnwantedDiscoUpdates resp false) k =
      (patchesFor resp k).filter (ms.acceptsDisco false) := by
    simp [patchesFor, MapSession.removeUnwantedDiscoUpdates, Bool.and_comm]
  rw [writes, hcomm, writes, filterMap_filter_eq_iff]
  simp only [MapSession.acceptsDisco_eq_false_iff]

/-- A response that makes the same writes to a field leaves the same value there. -/
theorem get_updatePeers_congr (now : Time) {resp} (hp : resp.peers.elems = [])
    (viaTSMP : Bool) (k : NodeID) (f : PatchField)
    (h : writes (ms.removeUnwantedDiscoUpdates resp viaTSMP) k f = writes resp k f) :
    ((ms.updatePeersStateFromResponse now
        (ms.removeUnwantedDiscoUpdates resp viaTSMP)).1.peers.lookup k).map (·.get f) =
      ((ms.updatePeersStateFromResponse now resp).1.peers.lookup k).map (·.get f) := by
  have hoverrides : overrides now (ms.removeUnwantedDiscoUpdates resp viaTSMP) k f =
      overrides now resp k f := by
    simp only [overrides, Overwrite.andThen_apply, Overwrite.all_eq_getLast?,
      filterMap_map]
    exact congrArg₂ Option.or (congrArg List.getLast? h) rfl
  rw [ms.lookup_updatePeers now (ms.removeUnwantedDiscoUpdates resp viaTSMP) hp,
    ms.lookup_updatePeers now resp hp, Option.map_map, Option.map_map]
  refine congrArg₂ Option.map (funext fun n => ?_) rfl
  simp [hoverrides]

variable [DecidableEq H]

/-- A delta from the control server goes through both screenings and is applied. -/
theorem MapSession.handleMapResponse_delta (now : Time) {resp resp'}
    (hdelta : resp.peers.elems = []) (hpatch : ms.patchifyPeersChanged resp = .ok resp') :
    ms.handleMapResponse now false resp =
      .ok (ms.updatePeersStateFromResponse now (ms.removeUnwantedDiscoUpdates resp' false)).1 := by
  have hpeers : (ms.removeUnwantedDiscoUpdates resp' false).peers.elems.length = 0 := by
    change resp'.peers.elems.length = 0
    rw [(patchifyPeersChanged_ok hpatch).peers, hdelta]
    rfl
  rw [handleMapResponse, hpatch]
  change (ms.removeUnwantedDiscoUpdatesFromFullNetmapUpdate
    (ms.removeUnwantedDiscoUpdates resp' false) >>= fun resp =>
      pure (ms.updatePeersStateFromResponse now resp).1) = _
  rw [removeUnwantedDiscoUpdatesFromFullNetmapUpdate, if_pos hpeers]
  rfl

/-- **Screening a delta** leaves the other fields alone, exactly if no change with a stale
disco key, sent as a patch or made one, has any of them: then the handled response makes the
same writes to each of these fields as it would without screening, and leaves the same
values there. -/
theorem MapSession.handleMapResponse_applies_iff (ms : MapSession H) (now : Time)
    {resp resp' : MapResponse H} (hdelta : resp.peers.elems = [])
    (hpatch : ms.patchifyPeersChanged resp = .ok resp') :
    (∃ ms', ms.handleMapResponse now false resp = .ok ms' ∧ ∀ k f, isOther f = true →
      writes (ms.removeUnwantedDiscoUpdates resp' false) k f =
        writes resp' k f ∧
      (ms'.peers.lookup k).map (·.get f) =
        ((ms.updatePeersStateFromResponse now resp').1.peers.lookup k).map (·.get f)) ↔
    ∀ pc ∈ resp.peersChangedPatch ++ resp.peersChanged.elems.filterMap ms.patchOf,
      ms.Stale pc → ∀ f, isOther f = true → pc.toOverwrite f = none := by
  have hok := patchifyPeersChanged_ok hpatch
  rw [← hok.peersChangedPatch]
  constructor
  · rintro ⟨ms', -, h⟩ pc hpc hstale f hf
    have hmem : pc ∈ patchesFor resp' pc.nodeID := mem_filter.2 ⟨hpc, by simp⟩
    exact (writes_removeUnwantedDiscoUpdates_iff ms resp' _ f).1 (h pc.nodeID f hf).1 pc hmem hstale
  · intro h
    refine ⟨_, ms.handleMapResponse_delta now hdelta hpatch, fun k f hf => ?_⟩
    have hwrites := (writes_removeUnwantedDiscoUpdates_iff ms resp' k f).2 fun pc hpc hstale =>
      h pc (mem_of_mem_filter hpc) hstale f hf
    exact ⟨hwrites, get_updatePeers_congr ms now (hok.peers ▸ hdelta) false k f hwrites⟩

/-- A stale change that has nothing but the disco key, and another one with a new key: the
first is dropped and the second applied. -/
theorem MapSession.handleMapResponse_applies_fresh :
    ∃ ms', sessionWithDisco.handleMapResponse 0 false
      { peersChangedPatch :=
          [{ nodeID := 1, discoKey := some 6, online := some false, lastSeen := some 50 },
            { nodeID := 1, key := some 2 }] } = .ok ms' ∧
      (ms'.peers.lookup 1).map Node.key = some 2 := by
  let resp : MapResponse Unit :=
    { peersChangedPatch :=
        [{ nodeID := 1, discoKey := some 6, online := some false, lastSeen := some 50 },
          { nodeID := 1, key := some 2 }] }
  have hpatch : sessionWithDisco.patchifyPeersChanged resp = .ok resp := rfl
  have hcond : ∀ pc ∈ resp.peersChangedPatch ++
      resp.peersChanged.elems.filterMap sessionWithDisco.patchOf,
      sessionWithDisco.Stale pc → ∀ f, isOther f = true → pc.toOverwrite f = none := by
    simp only [resp, Slice.elems, getD_none, filterMap_nil, append_nil,
      forall_mem_cons]
    refine ⟨fun _ f hf => ?_, fun hstale => ?_, by simp⟩
    · cases f <;> first | rfl | cases hf
    · exact absurd hstale.1 (by simp)
  obtain ⟨ms', hok, happlies⟩ :=
    (sessionWithDisco.handleMapResponse_applies_iff 0 rfl hpatch).2 hcond
  exact ⟨ms', hok, (happlies 1 .key rfl).2⟩

/-- A full node with a new key, which is patchified, and with a stale disco key: the patch is
dropped, and the session keeps the old node key. -/
theorem MapSession.handleMapResponse_drops_key :
    ∃ resp' ms',
      sessionWithDisco.patchifyPeersChanged
        { peersChanged := some [{ id := 1, key := 2, discoKey := 6, online := some false,
                                  lastSeen := some 50 }] } = .ok resp' ∧
      writes resp' 1 .key = [(2 : PublicKey)] ∧
      sessionWithDisco.handleMapResponse 0 false
        { peersChanged := some [{ id := 1, key := 2, discoKey := 6, online := some false,
                                  lastSeen := some 50 }] } = .ok ms' ∧
      (ms'.peers.lookup 1).map Node.key = some 1 :=
  ⟨_, _, rfl, rfl, rfl, rfl⟩

end Multiport.Control

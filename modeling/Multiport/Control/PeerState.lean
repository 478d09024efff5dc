import Multiport.Tailcfg.Node

/-!
# The peers of a map session

`mapSession.updatePeersStateFromResponse` (`control/controlclient/map.go`)
applies one map response to the session's peers: a full list of peers replaces
them all, and a delta removes peers, sets whole nodes, changes `LastSeen` and
`Online`, and applies patches, in that order.

The specification is pointwise.  `lookup_applyDelta` says what a delta leaves at
one node ID: the node that removals and whole-node changes leave there
(`MapResponse.base`), overwritten by everything the response says about single
fields of that node (`MapResponse.overrides`).
-/

namespace Multiport.Control

open Lib Tailcfg List MapResponse Option PatchField

variable {H : Type}

/-- The peers of a session, by node ID. -/
abbrev Peers (H : Type) := GoMap NodeID (Node H)

structure UpdateStats where
  allNew : Bool := false
  added : Nat := 0
  removed : Nat := 0
  changed : Nat := 0
deriving DecidableEq, Repr

/-! ## The steps of an update -/

/-- The body of the `PeersRemoved` loop. -/
def removePeer (st : Peers H × UpdateStats) (id : NodeID) : Peers H × UpdateStats :=
  match st.1.lookup id with
  | some _ => (st.1.erase id, { st.2 with removed := st.2.removed + 1 })
  | none => st

/-- The body of the `Peers` and `PeersChanged` loops. -/
def setPeer (st : Peers H × UpdateStats) (n : Node H) : Peers H × UpdateStats :=
  let peers : Peers H := st.1.insert n.id n
  (peers,
    if peers.size = st.1.size then { st.2 with changed := st.2.changed + 1 }
    else { st.2 with added := st.2.added + 1 })

/-- Change a known peer; what the loops over `PeerSeenChange`, `OnlineChange` and
`PeersChangedPatch` have in common. -/
def changePeer (id : NodeID) (f : Node H → Node H) (st : Peers H × UpdateStats) :
    Peers H × UpdateStats :=
  match st.1.lookup id with
  | some n => (st.1.insert id (f n), { st.2 with changed := st.2.changed + 1 })
  | none => st

variable (now : Time)

/-- A node with its `LastSeen` set to now, or cleared. -/
def setSeen (seen : Bool) (n : Node H) : Node H :=
  { n with lastSeen := if seen then some now else none }

/-- A node with its `Online` set. -/
def setOnline (online : Bool) (n : Node H) : Node H := { n with online := some online }

/-- A patch applied to a node: the body of the `PeersChangedPatch` loop. -/
def applyPeerChange (pc : PeerChange) (n : Node H) : Node H :=
  { n with
    homeDERP := if pc.derpRegion ≠ 0 then pc.derpRegion else n.homeDERP
    cap := if pc.cap ≠ 0 then pc.cap else n.cap
    endpoints := if pc.endpoints.isSome then pc.endpoints else n.endpoints
    key := pc.key.getD n.key
    discoKey := pc.discoKey.getD n.discoKey
    online := if pc.online.isSome then pc.online else n.online
    lastSeen := if pc.lastSeen.isSome then pc.lastSeen else n.lastSeen
    keyExpiry := pc.keyExpiry.getD n.keyExpiry
    keySignature := if pc.keySignature.isSome then pc.keySignature else n.keySignature
    capMap := if pc.capMap.isSome then pc.capMap else n.capMap }

/-- A response with a full list of peers: set them all, then delete the others. -/
def replacePeers (peers : Peers H) (ns : List (Node H)) : Peers H × UpdateStats :=
  let st := ns.foldl setPeer (peers, { allNew := true })
  let kept := st.1.deleteWhere fun id _ => id ∉ ns.map Node.id
  (kept, { st.2 with removed := st.1.size - kept.size })

def applyDelta (peers : Peers H) (resp : MapResponse H) : Peers H × UpdateStats :=
  let st := resp.peersRemoved.elems.foldl removePeer (peers, {})
  let st := resp.peersChanged.elems.foldl setPeer st
  let st := resp.peerSeenChange.entries.foldl (fun st e => changePeer e.1 (setSeen now e.2) st) st
  let st := resp.onlineChange.entries.foldl (fun st e => changePeer e.1 (setOnline e.2) st) st
  resp.peersChangedPatch.foldl (fun st pc => changePeer pc.nodeID (applyPeerChange pc) st) st

/-- `updatePeersStateFromResponse`, on the peers it is run on. -/
def updatePeers (peers : Peers H) (resp : MapResponse H) : Peers H × UpdateStats :=
  if resp.peers.elems.length > 0 then replacePeers peers resp.peers.elems
  else applyDelta now peers resp

/-! ## Single-field changes as overwrites -/

/-- `setSeen` as an overwrite. -/
def seenOverwrite (seen : Bool) : Overwrite Val
  | .lastSeen => some (if seen then some now else none)
  | _ => none

/-- `setOnline` as an overwrite. -/
def onlineOverwrite (online : Bool) : Overwrite Val
  | .online => some (some online)
  | _ => none

/-- Applying a patch is overwriting the fields it sets. -/
theorem applyPeerChange_eq (pc : PeerChange) (n : Node H) :
    applyPeerChange pc n = n.overwrite pc.toOverwrite := by
  refine Node.ext_get rfl ?_
  rw [Node.get_overwrite]
  funext f
  cases f <;> simp only [Node.get, applyPeerChange, Overwrite.apply, PeerChange.toOverwrite]
  case homeDERP => split <;> rfl
  case cap => split <;> rfl
  case capMap => cases pc.capMap <;> rfl
  case endpoints => cases pc.endpoints <;> rfl
  case keySignature => cases pc.keySignature <;> rfl
  case online => cases pc.online <;> rfl
  case lastSeen => cases pc.lastSeen <;> rfl
  case key | discoKey | keyExpiry => rfl

namespace MapResponse

/-- What removals and whole-node changes leave at `k`: the last node of
`PeersChanged` with that ID, or else the old peer unless it is removed. -/
def base (resp : MapResponse H) (peers : Peers H) (k : NodeID) : Option (Node H) :=
  (resp.peersChanged.elems.filter (·.id = k)).getLast?.or
    (if k ∈ resp.peersRemoved.elems then none else peers.lookup k)

/-- The patches of a response for one node, in order. -/
def patchesFor (resp : MapResponse H) (k : NodeID) : List PeerChange :=
  resp.peersChangedPatch.filter (·.nodeID = k)

/-- What `PeerSeenChange` and `OnlineChange` say about `k`. -/
def seenOnline (now : Time) (resp : MapResponse H) (k : NodeID) : Overwrite Val :=
  .all (((resp.peerSeenChange.lookup k).map (seenOverwrite now)).toList ++
    ((resp.onlineChange.lookup k).map onlineOverwrite).toList)

/-- Everything a response says about single fields of `k`: `PeerSeenChange`, then
`OnlineChange`, then the patches. -/
def overrides (now : Time) (resp : MapResponse H) (k : NodeID) : Overwrite Val :=
  (seenOnline now resp k).andThen (.all ((patchesFor resp k).map PeerChange.toOverwrite))

variable (now : Time) (resp : MapResponse H) (k : NodeID)

theorem seenOnline_online :
    seenOnline now resp k .online = (resp.onlineChange.lookup k).map some := by
  unfold seenOnline
  cases resp.peerSeenChange.lookup k <;> cases resp.onlineChange.lookup k <;> rfl

theorem seenOnline_lastSeen :
    seenOnline now resp k .lastSeen =
      (resp.peerSeenChange.lookup k).map fun b => if b then some now else none := by
  unfold seenOnline
  cases resp.peerSeenChange.lookup k <;> cases resp.onlineChange.lookup k <;> rfl

theorem seenOnline_other {f} (ho : f ≠ .online) (hl : f ≠ .lastSeen) :
    seenOnline now resp k f = none := by
  unfold seenOnline
  cases resp.peerSeenChange.lookup k <;> cases resp.onlineChange.lookup k <;> cases f <;>
    first | rfl | contradiction

end MapResponse

/-! ## What an update leaves at one node ID -/

variable (st : Peers H × UpdateStats)

theorem lookup_removePeer (id k : NodeID) :
    (removePeer st id).1.lookup k = if k = id then none else st.1.lookup k := by
  unfold removePeer
  cases h : st.1.lookup id with
  | some n => exact GoMap.lookup_erase_eq id k st.1
  | none =>
    by_cases hk : k = id
    · rw [if_pos hk, hk, h]
    · rw [if_neg hk]

theorem lookup_changePeer (id k : NodeID) (f : Node H → Node H) :
    (changePeer id f st).1.lookup k = if k = id then (st.1.lookup k).map f else st.1.lookup k := by
  rw [← GoMap.lookup_modify]
  unfold changePeer GoMap.modify
  cases st.1.lookup id <;> rfl

variable (k : NodeID)

theorem lookup_foldl_removePeer (ids : List NodeID) :
    (ids.foldl removePeer st).1.lookup k = if k ∈ ids then none else st.1.lookup k := by
  induction ids generalizing st with
  | nil => simp
  | cons id ids ih =>
    rw [foldl_cons, ih, lookup_removePeer]
    by_cases h : k = id <;> simp [h]

theorem lookup_foldl_setPeer (ns : List (Node H)) :
    (ns.foldl setPeer st).1.lookup k = (ns.filter (·.id = k)).getLast?.or (st.1.lookup k) := by
  induction ns generalizing st with
  | nil => simp
  | cons n ns ih =>
    rw [foldl_cons, ih, setPeer, GoMap.lookup_insert_eq]
    by_cases h : n.id = k
    · rw [filter_cons_of_pos (by simpa using h), List.getLast?_cons, if_pos h.symm]
      cases (ns.filter (·.id = k)).getLast? <;> rfl
    · rw [filter_cons_of_neg (by simpa using h), if_neg (Ne.symm h)]

/-- A loop that changes each listed peer by an overwrite leaves at `k` what the
overwrites listed for `k` make of the node there. -/
theorem lookup_foldl_changePeer {X : Type} (id : X → NodeID) (f : X → Node H → Node H)
    (o : X → Overwrite Val) (hf : ∀ x n, f x n = n.overwrite (o x)) (xs : List X) :
    (xs.foldl (fun st x => changePeer (id x) (f x) st) st).1.lookup k =
      (st.1.lookup k).map fun n => n.overwrite (.all ((xs.filter fun x => id x = k).map o)) := by
  induction xs generalizing st with
  | nil => simp
  | cons x xs ih =>
    rw [foldl_cons, ih, lookup_changePeer]
    by_cases h : id x = k
    · rw [if_pos h.symm, filter_cons_of_pos (by simpa using h), map_cons,
        Overwrite.all_cons, Option.map_map]
      congr 1
      funext n
      rw [Function.comp_apply, hf, Node.overwrite_andThen]
    · rw [if_neg (Ne.symm h), filter_cons_of_neg (by simpa using h)]

/-- The same for a loop over a map, which mentions `k` at most once. -/
theorem lookup_foldl_entries (f : Bool → Node H → Node H) (o : Bool → Overwrite Val)
    (hf : ∀ b n, f b n = n.overwrite (o b)) (m : GoMap NodeID Bool) :
    (m.entries.foldl (fun st e => changePeer e.1 (f e.2) st) st).1.lookup k =
      (st.1.lookup k).map fun n => n.overwrite (.all ((m.lookup k).map o).toList) := by
  rw [lookup_foldl_changePeer st k Sigma.fst
    (fun e : Sigma fun _ : NodeID => Bool => f e.2) _ fun e => hf e.2, GoMap.map_filter_entries]

/-- **What a delta response leaves at one node ID.** -/
theorem lookup_applyDelta (now : Time) (peers : Peers H) (resp : MapResponse H) :
    (applyDelta now peers resp).1.lookup k =
      (MapResponse.base resp peers k).map
        fun n => n.overwrite (MapResponse.overrides now resp k) := by
  unfold applyDelta
  rw [lookup_foldl_changePeer _ k PeerChange.nodeID applyPeerChange _ applyPeerChange_eq,
    lookup_foldl_entries _ k setOnline onlineOverwrite fun _ _ => rfl,
    lookup_foldl_entries _ k (setSeen now) (seenOverwrite now) fun _ _ => rfl, lookup_foldl_setPeer,
    lookup_foldl_removePeer, Option.map_map, Option.map_map]
  congr 1
  funext n
  simp [MapResponse.overrides, MapResponse.seenOnline, Overwrite.all_append, Node.overwrite_andThen,
    MapResponse.patchesFor]

/-! ## Sessions -/

/-- Every peer is filed under its own ID. -/
def Keyed (peers : Peers H) : Prop := ∀ k n, peers.lookup k = some n → n.id = k

/-- The part of a `mapSession` that holds its peers. -/
structure MapSession (H : Type) where
  peers : Peers H
  keyed : Keyed peers

theorem keyed_empty : Keyed (∅ : Peers H) := fun k n h => by simp at h

/-- `newMapSession`: a session that knows no peers. -/
def newMapSession : MapSession H := ⟨∅, keyed_empty⟩

theorem keyed_foldl_setPeer (ns : List (Node H)) (h : Keyed st.1) :
    Keyed (ns.foldl setPeer st).1 := by
  intro k n hn
  rw [lookup_foldl_setPeer, or_eq_some_iff] at hn
  rcases hn with hn | ⟨-, hn⟩
  · simpa using (mem_filter.1 (mem_of_getLast? hn)).2
  · exact h k n hn

theorem keyed_replacePeers (peers : Peers H) (h : Keyed peers) (ns : List (Node H)) :
    Keyed (replacePeers peers ns).1 := by
  intro k n hn
  refine keyed_foldl_setPeer (peers, { allNew := true }) ns h k n ?_
  unfold replacePeers at hn
  rw [GoMap.lookup_deleteWhere] at hn
  exact eq_some_of_filter_eq_some hn

theorem MapResponse.base_id {resp : MapResponse H} {peers : Peers H} (h : Keyed peers) {k : NodeID}
    {n : Node H} (hn : base resp peers k = some n) : n.id = k := by
  rw [base, or_eq_some_iff] at hn
  rcases hn with hn | ⟨-, hn⟩
  · simpa using (mem_filter.1 (mem_of_getLast? hn)).2
  · split at hn
    · exact absurd hn (by simp)
    · exact h k n hn

theorem keyed_applyDelta (now : Time) (peers : Peers H) (h : Keyed peers) (resp : MapResponse H) :
    Keyed (applyDelta now peers resp).1 := by
  intro k n hn
  rw [lookup_applyDelta, map_eq_some_iff] at hn
  obtain ⟨b, hb, rfl⟩ := hn
  rw [Node.id_overwrite]
  exact MapResponse.base_id h hb

theorem keyed_updatePeers (now : Time) (peers : Peers H) (h : Keyed peers) (resp : MapResponse H) :
    Keyed (updatePeers now peers resp).1 := by
  unfold updatePeers
  split
  · exact keyed_replacePeers peers h _
  · exact keyed_applyDelta now peers h resp

def MapSession.updatePeersStateFromResponse (ms : MapSession H) (now : Time)
    (resp : MapResponse H) : MapSession H × UpdateStats :=
  (⟨(updatePeers now ms.peers resp).1, keyed_updatePeers now ms.peers ms.keyed resp⟩,
    (updatePeers now ms.peers resp).2)

theorem MapSession.lookup_updatePeers (ms : MapSession H) (now : Time) (resp : MapResponse H)
    (hp : resp.peers.elems = []) (k : NodeID) :
    (ms.updatePeersStateFromResponse now resp).1.peers.lookup k =
      (MapResponse.base resp ms.peers k).map
        fun n => n.overwrite (MapResponse.overrides now resp k) := by
  rw [← lookup_applyDelta]
  change (updatePeers now ms.peers resp).1.lookup k = _
  rw [updatePeers, if_neg (by simp [hp])]

end Multiport.Control

import Multiport.Control.PeerState
import Multiport.Netmap.Mutation

/-!
# The incremental path

A map response that holds nothing but patches is applied twice: the session
applies it to its own peers (`updatePeersStateFromResponse`), and
`tryHandleIncrementally` turns it into mutations, which
`nodeBackend.UpdateNetmapDelta` (`ipn/ipnlocal/node_backend.go`) applies to the
backend's copy of the peers.

The two readings differ in order: the session lets patches win over
`OnlineChange` and `PeerSeenChange`, the mutations the other way round, and the
mutations ignore a `PeerSeenChange` that says "gone".  `Consistent` says when
this makes no difference for one peer, and the two copies stay the same in exactly
that case.
-/

namespace Multiport.Control

open Lib Tailcfg Netmap List MapResponse Option GoMap PeerChange

variable {H : Type}

/-! ## The backend -/

/-- The part of a `nodeBackend` that holds its peers.  `updatePeersLocked` fills
them from the network map: there are none without one, and each is filed under
its own ID. -/
structure NodeBackend (H : Type) where
  hasNetMap : Bool
  peers : Peers H
  keyed : Keyed peers
  netMap_of_peers : peers.size ≠ 0 → hasNetMap = true

/-- `nodeBackend.SetNetMap`, as far as its peers go: `updatePeersLocked` keeps
those of the network map, and none without one. -/
def NodeBackend.setNetMap (nb : NodeBackend H) (nm : Option (List (Node H))) : NodeBackend H :=
  match nm with
  | none => ⟨false, ∅, keyed_empty, fun h => absurd rfl h⟩
  | some ns =>
    ⟨true, (replacePeers nb.peers ns).1, keyed_replacePeers nb.peers nb.keyed ns, fun _ => rfl⟩

/-- A new `nodeBackend`, without a network map. -/
def newNodeBackend : NodeBackend H := ⟨false, ∅, keyed_empty, fun h => absurd rfl h⟩

/-- The loop body of `UpdateNetmapDelta`: mutate the local copy of a node, which
is made when it is first mutated.  `none` is an unknown node. -/
def mutateNode (peers mutableNodes : Peers H) (m : NodeMutation) : Option (Peers H) :=
  match mutableNodes.lookup m.nodeID with
  | some n => some (mutableNodes.insert m.nodeID (m.apply n))
  | none =>
    match peers.lookup m.nodeID with
    | some nv => some (mutableNodes.insert nv.id (m.apply nv))
    | none => none

@[simp] theorem NodeMutation_apply_id (m : NodeMutation) (n : Node H) : (m.apply n).id = n.id := by
  rw [NodeMutation.apply_eq, Node.id_overwrite]

variable {peers : Peers H}

theorem Keyed.insert (h : Keyed peers) (n : Node H) : Keyed (peers.insert n.id n : Peers H) := by
  intro k m hm
  rw [lookup_insert_eq] at hm
  split at hm
  next hk =>
    cases hm
    exact hk.symm
  · exact h k m hm

variable {mutableNodes mutableNodes' : Peers H}

theorem keyed_mutateNode (hm : Keyed mutableNodes) {m}
    (h : mutateNode peers mutableNodes m = some mutableNodes') : Keyed mutableNodes' := by
  unfold mutateNode at h
  split at h
  next n hn =>
    cases h
    have hins := hm.insert (m.apply n)
    rwa [NodeMutation_apply_id, hm _ _ hn] at hins
  · split at h
    next nv hnv =>
      cases h
      have hins := hm.insert (m.apply nv)
      rwa [NodeMutation_apply_id] at hins
    · cases h

theorem keyed_foldlM_mutateNode (muts : List NodeMutation) (hm : Keyed mutableNodes)
    (h : muts.foldlM (mutateNode peers) mutableNodes = some mutableNodes') :
    Keyed mutableNodes' := by
  induction muts generalizing mutableNodes with
  | nil =>
    cases h
    exact hm
  | cons m muts ih =>
    obtain ⟨mid, hstep, hrun⟩ := foldlM_cons_eq_some.1 h
    exact ih (keyed_mutateNode hm hstep) hrun

theorem keyed_insertAll {m n : Peers H} (hm : Keyed m) (hn : Keyed n) : Keyed (insertAll m n) := by
  intro k v hv
  rw [lookup_insertAll, or_eq_some_iff] at hv
  rcases hv with hv | ⟨-, hv⟩
  · exact hn k v hv
  · exact hm k v hv

def NodeBackend.updateNetmapDelta (nb : NodeBackend H) (muts : List NodeMutation) :
    NodeBackend H × Bool :=
  if hnm : nb.hasNetMap = true ∧ nb.peers.size ≠ 0 then
    match h : muts.foldlM (mutateNode nb.peers) ∅ with
    | some mutableNodes =>
      ({ nb with
          peers := nb.peers.insertAll mutableNodes
          keyed := keyed_insertAll nb.keyed (keyed_foldlM_mutateNode muts keyed_empty h)
          netMap_of_peers := fun _ => hnm.1 }, true)
    | none => (nb, false)
  else (nb, false)

/-! ## What a delta does to the backend -/

/-- The nodes as `UpdateNetmapDelta` sees them: the local copies over the peers. -/
def current (peers mutableNodes : Peers H) (k : NodeID) : Option (Node H) :=
  (mutableNodes.lookup k).or (peers.lookup k)

theorem current_mutateNode (hp : Keyed peers) {m}
    (hk : (current peers mutableNodes m.nodeID).isSome) :
    ∃ mutableNodes', mutateNode peers mutableNodes m = some mutableNodes' ∧
      ∀ k, current peers mutableNodes' k =
        if m.nodeID = k then (current peers mutableNodes k).map m.apply
        else current peers mutableNodes k := by
  unfold mutateNode
  unfold current at hk ⊢
  cases hn : mutableNodes.lookup m.nodeID with
  | some n =>
    refine ⟨_, rfl, fun k => ?_⟩
    rw [lookup_insert_eq]
    by_cases h : m.nodeID = k
    · subst h
      simp [hn]
    · rw [if_neg (Ne.symm h), if_neg h]
  | none =>
    rw [hn, none_or] at hk
    obtain ⟨nv, hnv⟩ := isSome_iff_exists.1 hk
    simp only [hnv]
    refine ⟨_, rfl, fun k => ?_⟩
    rw [lookup_insert_eq, hp _ _ hnv]
    by_cases h : m.nodeID = k
    · subst h
      simp [hn, hnv]
    · rw [if_neg (Ne.symm h), if_neg h]

theorem current_foldlM_mutateNode (hp : Keyed peers) (muts : List NodeMutation)
    (mutableNodes : Peers H) (hk : ∀ m ∈ muts, (current peers mutableNodes m.nodeID).isSome) :
    ∃ mutableNodes', muts.foldlM (mutateNode peers) mutableNodes = some mutableNodes' ∧
      ∀ k, current peers mutableNodes' k =
        (current peers mutableNodes k).map fun n => n.overwrite (effectOn muts k) := by
  induction muts generalizing mutableNodes with
  | nil => exact ⟨mutableNodes, rfl, fun k => by simp⟩
  | cons m muts ih =>
    obtain ⟨mid, hstep, hmid⟩ := current_mutateNode hp (hk m mem_cons_self)
    have hk' : ∀ m' ∈ muts, (current peers mid m'.nodeID).isSome := by
      intro m' hm'
      rw [hmid]
      have := hk m' (mem_cons_of_mem m hm')
      split
      · rwa [isSome_map]
      · exact this
    obtain ⟨last, hrun, hlast⟩ := ih mid hk'
    refine ⟨last, by rw [foldlM_cons, hstep]; exact hrun, fun k => ?_⟩
    rw [hlast, hmid, effectOn_cons]
    by_cases h : m.nodeID = k
    · rw [if_pos h, if_pos h, Option.map_map]
      congr 1
      funext n
      rw [Function.comp_apply, NodeMutation.apply_eq, Node.overwrite_andThen]
    · rw [if_neg h, if_neg h]

/-- **What `UpdateNetmapDelta` leaves at one node ID**, when it knows every node. -/
theorem NodeBackend.lookup_updateNetmapDelta (nb : NodeBackend H) (muts : List NodeMutation)
    (hk : ∀ m ∈ muts, (nb.peers.lookup m.nodeID).isSome) (k : NodeID) :
    (nb.updateNetmapDelta muts).1.peers.lookup k =
      (nb.peers.lookup k).map fun n => n.overwrite (effectOn muts k) := by
  obtain ⟨mutableNodes, hrun, hcur⟩ := current_foldlM_mutateNode nb.keyed muts ∅ hk
  unfold updateNetmapDelta
  split
  · split
    next m hm =>
      cases hrun.symm.trans hm
      rw [lookup_insertAll]
      exact hcur k
    next hm =>
      cases hrun.symm.trans hm
  next hnm =>
    have hsize : nb.peers.size = 0 :=
      by_contra fun h => hnm ⟨nb.netMap_of_peers h, h⟩
    have hnone : nb.peers.lookup k = none := by
      rw [eq_none_iff_forall_ne_some]
      intro n hn
      rw [GoMap.lookup_eq_some_iff, eq_nil_of_length_eq_zero hsize] at hn
      cases hn
    rw [hnone, map_none]

/-- The loop comes to its end only if it knows every node. -/
theorem isSome_of_foldlM_mutateNode (hp : Keyed peers) {muts : List NodeMutation}
    (h : muts.foldlM (mutateNode peers) mutableNodes = some mutableNodes') :
    ∀ m ∈ muts, (current peers mutableNodes m.nodeID).isSome := by
  induction muts generalizing mutableNodes with
  | nil => exact fun m hm => absurd hm not_mem_nil
  | cons m muts ih =>
    obtain ⟨mid, hstep, hrun⟩ := foldlM_cons_eq_some.1 h
    have hm : (current peers mutableNodes m.nodeID).isSome := by
      by_contra hnone
      rw [not_isSome_iff_eq_none, current, or_eq_none_iff] at hnone
      simp [mutateNode, hnone] at hstep
    obtain ⟨mid', hstep', hcur⟩ := current_mutateNode hp hm
    cases hstep.symm.trans hstep'
    refine forall_mem_cons.2 ⟨hm, fun m' hm' => ?_⟩
    have := ih hrun m' hm'
    rw [hcur] at this
    split at this
    · rwa [isSome_map] at this
    · exact this

/-- **A delta is applied as a whole or not at all.**  If each of its mutations is of a known
peer, every peer is overwritten by all that is said of it; otherwise none is touched. -/
theorem NodeBackend.updateNetmapDelta_atomic (nb : NodeBackend H) (muts : List NodeMutation) :
    (∀ m ∈ muts, (nb.peers.lookup m.nodeID).isSome) ∧
        (∀ k, (nb.updateNetmapDelta muts).1.peers.lookup k =
          (nb.peers.lookup k).map fun n => n.overwrite (effectOn muts k)) ∨
      (∃ m ∈ muts, nb.peers.lookup m.nodeID = none) ∧ nb.updateNetmapDelta muts = (nb, false) := by
  by_cases hk : ∀ m ∈ muts, (nb.peers.lookup m.nodeID).isSome
  · exact .inl ⟨hk, nb.lookup_updateNetmapDelta muts hk⟩
  refine .inr ⟨by simpa using hk, ?_⟩
  unfold updateNetmapDelta
  split
  · split
    next h => exact absurd (isSome_of_foldlM_mutateNode nb.keyed h) hk
    · rfl
  · rfl

variable {res : MapResponse H} {now : Time} {muts : List NodeMutation}

/-! ## When the two readings agree -/

/-- One response read twice: its maps may be ranged over in another order. -/
structure Reordered (res res' : MapResponse H) : Prop where
  peersChangedPatch : res'.peersChangedPatch = res.peersChangedPatch
  onlineChange : res'.onlineChange.Same res.onlineChange
  peerSeenChange : res'.peerSeenChange.Same res.peerSeenChange
  present : res'.present = res.present
  peers : res'.peers = res.peers
  peersChanged : res'.peersChanged = res.peersChanged
  peersRemoved : res'.peersRemoved = res.peersRemoved

/-- Every node a response mentions is a known peer. -/
structure AllKnown (peers : Peers H) (res : MapResponse H) : Prop where
  patch : ∀ p ∈ res.peersChangedPatch, (peers.lookup p.nodeID).isSome
  online : ∀ k v, res.onlineChange.lookup k = some v → (peers.lookup k).isSome
  seen : ∀ k v, res.peerSeenChange.lookup k = some v → (peers.lookup k).isSome

/-- The last `Online` among the patches of `k`. -/
def patchedOnline (res : MapResponse H) (k : NodeID) : Option Bool :=
  ((patchesFor res k).filterMap online).getLast?

/-- The last `LastSeen` among the patches of `k`. -/
def patchedLastSeen (res : MapResponse H) (k : NodeID) : Option Time :=
  ((patchesFor res k).filterMap lastSeen).getLast?

/-- The changes a response makes to the peer `was` at `k` do not depend on their
order, and `PeerSeenChange` does not have to clear a `LastSeen`. -/
structure Consistent (now : Time) (res : MapResponse H) (k : NodeID) (was : Node H) : Prop where
  online : ∀ v w, res.onlineChange.lookup k = some v → patchedOnline res k = some w → v = w
  seen : res.peerSeenChange.lookup k = some true → ∀ t, patchedLastSeen res k = some t → t = now
  gone : res.peerSeenChange.lookup k = some false → patchedLastSeen res k = none →
    was.lastSeen = none

theorem all_patches_online (ps : List PeerChange) :
    Overwrite.all (ps.map toOverwrite) .online =
      ((ps.filterMap online).getLast?).map some := by
  rw [Overwrite.all_eq_getLast?, filterMap_map, ← List.getLast?_map, map_filterMap]
  rfl

theorem all_patches_lastSeen (ps : List PeerChange) :
    Overwrite.all (ps.map toOverwrite) .lastSeen =
      ((ps.filterMap lastSeen).getLast?).map some := by
  rw [Overwrite.all_eq_getLast?, filterMap_map, ← List.getLast?_map, map_filterMap]
  rfl

/-- The mutations of a response at `k`, for the full path to be compared with. -/
def incrementalOverrides (now : Time) (res : MapResponse H) (k : NodeID) :
    Overwrite PatchField.Val :=
  ((Overwrite.all ((patchesFor res k).map toOverwrite)).andThen
    (.all ((res.onlineChange.lookup k).map onlineOverwrite).toList)).andThen
    (if res.peerSeenChange.lookup k = some true then seenOverwrite now true else .nop)

theorem effectOn_eq_incrementalOverrides {res'} (hr : Reordered res res')
    (hm : mutationsFromMapResponse res' now now = some muts) (k : NodeID) :
    effectOn muts k = incrementalOverrides now res k := by
  rw [effectOn_mutationsFromMapResponse hm, hr.peersChangedPatch, hr.onlineChange,
    hr.peerSeenChange, ite_self]
  rfl

/-- Two writes to a pointer commute exactly when they write the same. -/
theorem getD_or_comm_iff {α : Type} (a b : Option α) (x : Option α) :
    ((a.map some).or (b.map some)).getD x = ((b.map some).or (a.map some)).getD x ↔
      ∀ v w, a = some v → b = some w → v = w := by
  cases a <;> cases b <;> simp

/-- The two treatments of `LastSeen`: a "seen" that wins over the patch and a
"gone" that is ignored, against a patch that wins over both. -/
theorem getD_lastSeen_iff (seen : Option Bool) (t : Option Time) (now : Time) (x : Option Time) :
    ((if seen = some true then some (some now) else none).or (t.map some)).getD x =
        ((t.map some).or (seen.map fun b => if b then some now else none)).getD x ↔
      (seen = some true → ∀ s, t = some s → s = now) ∧
      (seen = some false → t = none → x = none) := by
  rcases seen with - | - | - <;> cases t <;> simp [eq_comm]

section Fields

variable (now : Time) (res : MapResponse H) (k : NodeID)

theorem incrementalOverrides_online : incrementalOverrides now res k .online =
    ((res.onlineChange.lookup k).map some).or ((patchedOnline res k).map some) := by
  rw [incrementalOverrides, Overwrite.andThen_apply, Overwrite.andThen_apply, all_patches_online]
  split <;> cases res.onlineChange.lookup k <;> rfl

theorem incrementalOverrides_lastSeen : incrementalOverrides now res k .lastSeen =
    (if res.peerSeenChange.lookup k = some true then some (some now) else none).or
      ((patchedLastSeen res k).map some) := by
  rw [incrementalOverrides, Overwrite.andThen_apply, Overwrite.andThen_apply, all_patches_lastSeen]
  split <;> cases res.onlineChange.lookup k <;> rfl

theorem incrementalOverrides_other {f} (ho : f ≠ .online) (hl : f ≠ .lastSeen) :
    incrementalOverrides now res k f = overrides now res k f := by
  rw [overrides, Overwrite.andThen_apply, seenOnline_other now res k ho hl,
    incrementalOverrides, or_none]
  split <;> cases res.onlineChange.lookup k <;> cases f <;> first | rfl | contradiction

/-- The two readings do the same to a peer exactly when they are consistent. -/
theorem overrides_agree_iff (was : Node H) :
    was.overwrite (incrementalOverrides now res k) =
        was.overwrite (overrides now res k) ↔ Consistent now res k was := by
  have honline : ((incrementalOverrides now res k) .online).getD (was.get .online) =
      ((overrides now res k) .online).getD (was.get .online) ↔
      ∀ v w, res.onlineChange.lookup k = some v → patchedOnline res k = some w → v = w := by
    rw [incrementalOverrides_online, overrides, Overwrite.andThen_apply, all_patches_online,
      seenOnline_online]
    exact getD_or_comm_iff (res.onlineChange.lookup k) (patchedOnline res k) was.online
  have hseen : ((incrementalOverrides now res k) .lastSeen).getD (was.get .lastSeen) =
      ((overrides now res k) .lastSeen).getD (was.get .lastSeen) ↔
      (res.peerSeenChange.lookup k = some true → ∀ t, patchedLastSeen res k = some t → t = now) ∧
        (res.peerSeenChange.lookup k = some false → patchedLastSeen res k = none →
          was.lastSeen = none) := by
    rw [incrementalOverrides_lastSeen, overrides, Overwrite.andThen_apply, all_patches_lastSeen,
      seenOnline_lastSeen]
    exact getD_lastSeen_iff (res.peerSeenChange.lookup k) (patchedLastSeen res k) now was.lastSeen
  rw [Node.overwrite_eq_iff, and_iff_right rfl]
  constructor
  · intro h
    have hs := hseen.1 (h .lastSeen)
    exact ⟨honline.1 (h .online), hs.1, hs.2⟩
  · intro h f
    by_cases ho : f = .online
    · subst ho
      exact honline.2 h.online
    · by_cases hl : f = .lastSeen
      · subst hl
        exact hseen.2 ⟨h.seen, h.gone⟩
      · rw [incrementalOverrides_other now res k ho hl]

end Fields

theorem known_of_mem {res'} (hr : Reordered res res') (hk : AllKnown peers res)
    {clock : Time} (hm : mutationsFromMapResponse res' now clock = some muts) :
    ∀ m ∈ muts, (peers.lookup m.nodeID).isSome := by
  intro m hmem
  rcases mem_mutationsFromMapResponse hm hmem with ⟨p, hp, hid⟩ | ⟨v, hv⟩ | ⟨v, hv⟩
  · rw [← hid]
    exact hk.patch p (hr.peersChangedPatch ▸ hp)
  · exact hk.online _ v ((hr.onlineChange _).symm.trans hv)
  · exact hk.seen _ v ((hr.peerSeenChange _).symm.trans hv)

/-- **Incremental and full path.**  For a session and a backend with the same
peers, and a response of patches of known peers, the mutations of the response
leave the backend with the session's peers exactly when the response is
consistent for each of them. -/
theorem updateNetmapDelta_same_iff (ms : MapSession H) (nb : NodeBackend H) (now : Time)
    (res res' : MapResponse H) (muts : List NodeMutation) (hsame : nb.peers.Same ms.peers)
    (hread : Reordered res res') (hknown : AllKnown ms.peers res)
    (hm : mutationsFromMapResponse res' now now = some muts) :
    (nb.updateNetmapDelta muts).1.peers.Same (ms.updatePeersStateFromResponse now res).1.peers ↔
      ∀ k was, ms.peers.lookup k = some was → Consistent now res k was := by
  obtain ⟨hp, hr, hc⟩ := peers_of_mutationsFromMapResponse hm
  rw [hread.peers] at hp
  rw [hread.peersRemoved] at hr
  rw [hread.peersChanged] at hc
  have hfull : ∀ k, (ms.updatePeersStateFromResponse now res).1.peers.lookup k =
      (ms.peers.lookup k).map fun n => n.overwrite (overrides now res k) := by
    intro k
    rw [MapSession.lookup_updatePeers ms now res (by rw [hp]; rfl)]
    simp [base, hr, hc, Slice.elems]
  have hinc : ∀ k, (nb.updateNetmapDelta muts).1.peers.lookup k =
      (ms.peers.lookup k).map fun n => n.overwrite (incrementalOverrides now res k) := by
    intro k
    have hk : ∀ m ∈ muts, (nb.peers.lookup m.nodeID).isSome := fun m hmem =>
      (hsame m.nodeID).symm ▸ known_of_mem hread hknown hm m hmem
    rw [NodeBackend.lookup_updateNetmapDelta nb muts hk, hsame,
      effectOn_eq_incrementalOverrides hread hm]
  constructor
  · intro h k was hw
    have hk := h k
    rw [hfull, hinc, hw, map_some, map_some, some_inj] at hk
    exact (overrides_agree_iff now res k was).1 hk
  · intro h k
    rw [hfull, hinc]
    cases hw : ms.peers.lookup k with
    | none => rfl
    | some was => exact congrArg some ((overrides_agree_iff now res k was).2 (h k was hw))

def seenPeer : Node Unit := { id := 1, lastSeen := some 5 }

/-- A session that holds that peer. -/
def seenSession : MapSession Unit :=
  (newMapSession.updatePeersStateFromResponse 0 { peers := some [seenPeer] }).1

/-- A backend that holds that peer. -/
def seenBackend : NodeBackend Unit := newNodeBackend.setNetMap (some [seenPeer])

/-- A response that says whether the peer was seen. -/
def seenResponse (seen : Bool) : MapResponse Unit :=
  { peerSeenChange := (∅ : GoMap NodeID Bool).insert 1 seen }

theorem allKnown_seenResponse (seen : Bool) : AllKnown seenSession.peers (seenResponse seen) where
  patch := fun p hp => absurd hp not_mem_nil
  online := fun k v h => by simp [seenResponse] at h
  seen := by
    intro k v h
    rw [seenResponse, lookup_insert_eq] at h
    split at h
    next hk =>
      subst hk
      rfl
    · simp at h

theorem reordered_refl (res : MapResponse H) : Reordered res res :=
  ⟨rfl, fun _ => rfl, fun _ => rfl, rfl, rfl, rfl, rfl⟩

/-- A peer that is seen again: both copies get the current time. -/
theorem updateNetmapDelta_same_seen :
    (seenBackend.updateNetmapDelta [⟨1, .lastSeen 7⟩]).1.peers.Same
      (seenSession.updatePeersStateFromResponse 7 (seenResponse true)).1.peers := by
  refine (updateNetmapDelta_same_iff seenSession seenBackend 7 (seenResponse true)
    (seenResponse true) [⟨1, .lastSeen 7⟩] (fun k => rfl) (reordered_refl _)
    (allKnown_seenResponse true) (by decide)).2 fun k was hw => ⟨?_, ?_, ?_⟩
  · intro v w h
    simp [seenResponse] at h
  · intro _ t h
    simp [patchedLastSeen, patchesFor, seenResponse] at h
  · intro h
    rw [seenResponse, lookup_insert_eq] at h
    split at h <;> simp at h

/-- A peer that is gone: the session clears its `LastSeen`, the backend keeps it. -/
theorem updateNetmapDelta_ignores_gone :
    seenBackend.peers.Same seenSession.peers ∧ AllKnown seenSession.peers (seenResponse false) ∧
      mutationsFromMapResponse (seenResponse false) 7 7 = some [] ∧
      ((seenBackend.updateNetmapDelta []).1.peers.lookup 1).map Node.lastSeen = some (some 5) ∧
      ((seenSession.updatePeersStateFromResponse 7
        (seenResponse false)).1.peers.lookup 1).map Node.lastSeen = some none ∧
      ¬ (seenBackend.updateNetmapDelta []).1.peers.Same
        (seenSession.updatePeersStateFromResponse 7 (seenResponse false)).1.peers := by
  have hb : ((seenBackend.updateNetmapDelta []).1.peers.lookup 1).map Node.lastSeen =
      some (some 5) := by decide
  have hs : ((seenSession.updatePeersStateFromResponse 7
      (seenResponse false)).1.peers.lookup 1).map Node.lastSeen = some none := by decide
  refine ⟨fun k => rfl, allKnown_seenResponse false, by decide, hb, hs, fun h => ?_⟩
  rw [h 1] at hb
  cases hb

end Multiport.Control

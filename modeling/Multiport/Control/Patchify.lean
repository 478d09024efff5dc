import Multiport.Control.PeerDiff

/-!
# Promoting full changes to patches

Before a response is applied, `patchifyPeersChanged` replaces the entries of
`PeersChanged` that `peerChangeDiff` can express by patches.  It diffs against
the peers before the response and appends the patches at the end, so an entry
that came first in the order of application comes last.

This keeps the meaning of the response, given that each single diff is exact, if
and only if `PatchifySafe` holds for every known peer.  A promoted change must not
be for a peer the response removes, must not come after a change that stays, and
what it writes must be what the original response leaves in that field.
-/

namespace Multiport.Control

open Lib Tailcfg List MapResponse MapSession PeerChange

variable {H : Type} [DecidableEq H]

/-! ## The code -/

variable (ms : MapSession H)

def MapSession.patchifyPeer (n : Node H) : Except DiffError (Option PeerChange) :=
  match ms.peers.lookup n.id with
  | none => .error .peerNotFound
  | some was => peerChangeDiff was n

/-- The loop body of `patchifyPeersChanged`, on the entries that stay and the
patches; an error is a panic. -/
def MapSession.patchifyStep (st : List (Node H) × List PeerChange)
    (n : Node H) : Except String (List (Node H) × List PeerChange) :=
  match ms.patchifyPeer n with
  | .ok (some p) => .ok (st.1, st.2 ++ [p])
  | .ok none => .ok st
  | .error (.panicked msg) => .error msg
  | .error _ => .ok (st.1 ++ [n], st.2)

def MapSession.patchifyPeersChanged (resp : MapResponse H) : Except String (MapResponse H) := do
  let (filtered, patches) ←
    resp.peersChanged.elems.foldlM ms.patchifyStep ([], resp.peersChangedPatch)
  return { resp with
    peersChanged := if filtered.length = 0 then none else some filtered
    peersChangedPatch := patches }

/-! ## What it does -/

/-- The change `n` is promoted to a patch, or dropped as no change at all. -/
def MapSession.promoted (n : Node H) : Bool := (ms.patchifyPeer n).isOk

/-- The patch a change is promoted to. -/
def MapSession.patchOf (n : Node H) : Option PeerChange :=
  match ms.patchifyPeer n with
  | .ok pc => pc
  | .error _ => none

section Spec

variable {ms} {st st' : List (Node H) × List PeerChange}

theorem patchifyStep_ok {n : Node H} (h : ms.patchifyStep st n = .ok st') :
    st' = (st.1 ++ [n].filter (!ms.promoted ·), st.2 ++ (ms.patchOf n).toList) ∧
      ∀ msg, ms.patchifyPeer n ≠ .error (.panicked msg) := by
  unfold patchifyStep at h
  unfold patchOf promoted
  split at h <;> cases h
  case h_1 hp => simp [hp, Except.toBool]
  case h_2 hp => simp [hp, Except.toBool]
  case h_4 e hne hp =>
    refine ⟨by simp [hp, Except.toBool], fun msg he => ?_⟩
    cases hp.symm.trans he
    exact hne msg rfl

theorem foldlM_patchifyStep (ns : List (Node H)) (h : ns.foldlM ms.patchifyStep st = .ok st') :
    st' = (st.1 ++ ns.filter (!ms.promoted ·), st.2 ++ ns.filterMap ms.patchOf) ∧
      ∀ n ∈ ns, ∀ msg, ms.patchifyPeer n ≠ .error (.panicked msg) := by
  induction ns generalizing st with
  | nil =>
    cases h
    simp
  | cons n ns ih =>
    obtain ⟨mid, hstep, hrun⟩ := foldlM_cons_eq_ok.1 h
    obtain ⟨rfl, hn⟩ := patchifyStep_ok hstep
    obtain ⟨rfl, hns⟩ := ih hrun
    refine ⟨?_, forall_mem_cons.2 ⟨hn, hns⟩⟩
    have hf : (n :: ns).filter (!ms.promoted ·) =
        [n].filter (!ms.promoted ·) ++ ns.filter (!ms.promoted ·) := filter_append [n] ns
    rw [hf, filterMap_cons_toList, append_assoc, append_assoc]

/-- `resp'` is `resp` with the promotable changes of its peers promoted. -/
structure Patchified (ms : MapSession H) (resp resp' : MapResponse H) : Prop where
  peersChanged : resp'.peersChanged.elems = resp.peersChanged.elems.filter (!ms.promoted ·)
  peersChangedPatch :
    resp'.peersChangedPatch = resp.peersChangedPatch ++ resp.peersChanged.elems.filterMap ms.patchOf
  peers : resp'.peers = resp.peers
  peersRemoved : resp'.peersRemoved = resp.peersRemoved
  peerSeenChange : resp'.peerSeenChange = resp.peerSeenChange
  onlineChange : resp'.onlineChange = resp.onlineChange
  no_panic : ∀ n ∈ resp.peersChanged.elems, ∀ msg, ms.patchifyPeer n ≠ .error (.panicked msg)

theorem patchifyPeersChanged_ok {resp resp' : MapResponse H}
    (h : ms.patchifyPeersChanged resp = .ok resp') : Patchified ms resp resp' := by
  obtain ⟨st, hrun, h⟩ := bind_eq_ok_iff.1 h
  cases h
  obtain ⟨rfl, hn⟩ := foldlM_patchifyStep _ hrun
  refine ⟨?_, rfl, rfl, rfl, rfl, rfl, hn⟩
  split
  next hz => exact (eq_nil_of_length_eq_zero hz).symm
  · rfl

/-- Patchifying does not panic on upgraded nodes. -/
theorem patchifyPeersChanged_total (hms : ∀ k was, ms.peers.lookup k = some was →
    was.legacyDERPString = "") {resp : MapResponse H}
    (hresp : ∀ n ∈ resp.peersChanged.elems, n.legacyDERPString = "") :
    ∃ resp', ms.patchifyPeersChanged resp = .ok resp' := by
  unfold patchifyPeersChanged
  cases hrun : resp.peersChanged.elems.foldlM ms.patchifyStep ([], resp.peersChangedPatch) with
  | ok st => exact ⟨_, rfl⟩
  | error msg =>
    obtain ⟨n, hn, st, hfail⟩ := exists_of_foldlM_eq_error hrun
    unfold patchifyStep at hfail
    split at hfail <;> cases hfail
    next hp =>
      unfold patchifyPeer at hp
      split at hp
      · cases hp
      next was hw =>
        exact absurd (peerChangeDiff_error hp) (by simp [Unpatchable, hms _ _ hw, hresp n hn])

end Spec

/-! ## Patchified and original response at one peer -/

/-- The changes of a response for one node, in order. -/
def MapResponse.changesFor (resp : MapResponse H) (k : NodeID) : List (Node H) :=
  resp.peersChanged.elems.filter (·.id = k)

/-- What the promoted changes of a response write to the peer `was` at `k`. -/
def MapSession.promotedWrites (ms : MapSession H) (resp : MapResponse H) (k : NodeID)
    (was : Node H) : Overwrite PatchField.Val :=
  .all (((changesFor resp k).filter ms.promoted).map (diffOverwrite was))

variable {n : Node H} {ms}

theorem nodeID_of_patchOf {p} (h : ms.patchOf n = some p) : p.nodeID = n.id := by
  unfold patchOf at h
  split at h
  next pc hpc =>
    subst h
    unfold patchifyPeer at hpc
    split at hpc
    · cases hpc
    · exact (peerChangeDiff_ok hpc).2.2 p rfl
  · cases h

variable {was : Node H}

theorem patchifyPeer_of_lookup (h : ms.peers.lookup n.id = some was) :
    ms.patchifyPeer n = peerChangeDiff was n := by
  rw [patchifyPeer, h]

theorem effect_patchOf (h : ms.peers.lookup n.id = some was) :
    effect (ms.patchOf n) = if ms.promoted n then diffOverwrite was n else .nop := by
  unfold patchOf promoted
  rw [patchifyPeer_of_lookup h]
  cases hd : peerChangeDiff was n with
  | ok pc => exact (peerChangeDiff_ok hd).2.1
  | error e => exact effect_none

variable {k : NodeID}

theorem all_patchOf (hk : ms.peers.lookup k = some was) (ns : List (Node H)) :
    Overwrite.all (((ns.filterMap ms.patchOf).filter (·.nodeID = k)).map toOverwrite) =
      .all (((ns.filter (·.id = k)).filter ms.promoted).map (diffOverwrite was)) := by
  induction ns with
  | nil => rfl
  | cons n ns ih =>
    rw [filterMap_cons_toList, filter_append, map_append, Overwrite.all_append, ih]
    by_cases hn : n.id = k
    · have hhead : .all
          (((ms.patchOf n).toList.filter (·.nodeID = k)).map toOverwrite) =
            effect (ms.patchOf n) := by
        cases hp : ms.patchOf n with
        | none => exact effect_none.symm
        | some p => simp [(nodeID_of_patchOf hp).trans hn, effect]
      rw [hhead, effect_patchOf (hn ▸ hk : ms.peers.lookup n.id = some was),
        filter_cons_of_pos (by simpa using hn), filter_cons]
      split <;> simp
    · have hhead : (ms.patchOf n).toList.filter (·.nodeID = k) = [] := by
        rw [filter_eq_nil_iff]
        intro p hp
        rw [nodeID_of_patchOf (Option.mem_toList.1 hp)]
        simpa using hn
      rw [hhead, filter_cons_of_neg (by simpa using hn)]
      simp

variable {resp resp' : MapResponse H}

/-- What a patchified response says about single fields of a known peer: what the
original says, and then what the promoted changes write. -/
theorem overrides_patchified (h : Patchified ms resp resp') (now : Time)
    (hk : ms.peers.lookup k = some was) : overrides now resp' k =
      (overrides now resp k).andThen (ms.promotedWrites resp k was) := by
  have hseen : seenOnline now resp' k = seenOnline now resp k := by
    rw [seenOnline, h.peerSeenChange, h.onlineChange, ← seenOnline]
  have hpatch : Overwrite.all ((patchesFor resp' k).map toOverwrite) =
      (Overwrite.all ((patchesFor resp k).map toOverwrite)).andThen
        (ms.promotedWrites resp k was) := by
    rw [patchesFor, h.peersChangedPatch, filter_append, map_append,
      Overwrite.all_append, all_patchOf hk]
    rfl
  rw [overrides, hseen, hpatch, ← Overwrite.andThen_assoc, ← overrides]

theorem changesFor_patchified (h : Patchified ms resp resp') (k : NodeID) :
    changesFor resp' k =
      (changesFor resp k).filter (!ms.promoted ·) := by
  rw [changesFor, h.peersChanged, changesFor, filter_filter,
    filter_filter]
  simp only [Bool.and_comm]

theorem promoted_of_unknown (h : ms.peers.lookup n.id = none) : ms.promoted n = false := by
  rw [promoted, patchifyPeer, h]
  rfl

/-- About an unknown peer a patchified response says what the original one says. -/
theorem overrides_patchified_unknown (h : Patchified ms resp resp') (now : Time)
    (hk : ms.peers.lookup k = none) :
    overrides now resp' k = overrides now resp k := by
  have hnone : (resp.peersChanged.elems.filterMap ms.patchOf).filter (·.nodeID = k) = [] := by
    rw [filter_eq_nil_iff]
    intro p hp
    obtain ⟨n, -, hn⟩ := mem_filterMap.1 hp
    intro hid
    have hnk : n.id = k := (nodeID_of_patchOf hn).symm.trans (by simpa using hid)
    rw [patchOf, patchifyPeer, hnk, hk] at hn
    cases hn
  unfold overrides seenOnline patchesFor
  rw [h.peerSeenChange, h.onlineChange, h.peersChangedPatch, filter_append, hnone,
    append_nil]

/-! ## When patchifying keeps the meaning of a response -/

/-- The diff of a peer and a new full node is exact: applying it arrives at the
new node. -/
def ExactDiff (was n : Node H) : Prop :=
  ∀ pc, peerChangeDiff was n = .ok pc → (pc.elim was fun p => applyPeerChange p was) = n

/-- The condition on a response for the peer `was` at `k`, whose last change is
`n`, to keep its meaning when it is patchified. -/
structure PatchifySafe (ms : MapSession H) (now : Time) (resp : MapResponse H) (k : NodeID)
    (was n : Node H) : Prop where
  /-- The peer is not removed by the same response, as its patch would be lost. -/
  not_removed : ms.promoted n → k ∉ resp.peersRemoved.elems
  /-- No earlier change stays, as it would come to be the last one. -/
  all_promoted : ms.promoted n → ∀ m ∈ changesFor resp k, ms.promoted m
  /-- What the promoted changes write is what the response leaves in the field. -/
  written : ∀ f v, ms.promotedWrites resp k was f = some v →
    v = (overrides now resp k f).getD (n.get f)

omit [DecidableEq H] in
theorem fieldEq_refl (n : Node H) (f : NodeField) : FieldEq n n f := by
  cases f <;> first | rfl | trivial

omit [DecidableEq H] in
/-- The fields no patch can write are those of `Node.rest`. -/
theorem fieldEq_of_rest_eq (h : was.rest = n.rest) {f : NodeField} (hf : f.patch? = none) :
    FieldEq was n f := by
  have hrest : FieldEq was.rest n.rest f := h ▸ fieldEq_refl _ f
  cases f <;> first | exact absurd hf (by decide) | exact hrest

section Peer

variable (hk : ms.peers.lookup n.id = some was)

include hk

theorem rest_ne_of_not_promoted (hpanic : ∀ msg, ms.patchifyPeer n ≠ .error (.panicked msg))
    (hp : ¬ ms.promoted n) : n.rest ≠ was.rest := by
  intro hrest
  rw [promoted, patchifyPeer_of_lookup hk] at hp
  cases hd : peerChangeDiff was n with
  | ok pc =>
    rw [hd] at hp
    exact hp rfl
  | error e =>
    have he := peerChangeDiff_error hd
    cases e with
    | peerNotFound => exact he
    | miss f => exact he.2 (fieldEq_of_rest_eq hrest.symm he.1)
    | panicked msg => exact hpanic msg ((patchifyPeer_of_lookup hk).trans hd)

/-- A promoted change is what its patch makes of the peer. -/
theorem overwrite_of_promoted (hexact : ExactDiff was n) (hp : ms.promoted n) :
    was.overwrite (diffOverwrite was n) = n := by
  rw [promoted, patchifyPeer_of_lookup hk] at hp
  cases hd : peerChangeDiff was n with
  | error e =>
    rw [hd] at hp
    cases hp
  | ok pc =>
    rw [← (peerChangeDiff_ok hd).2.1]
    refine Eq.trans ?_ (hexact pc hd)
    cases pc with
    | none => rw [effect_none]; rfl
    | some p => exact (applyPeerChange_eq p was).symm

end Peer

omit [DecidableEq H] in
/-- Writes that come last do not matter exactly when they write what is there,
where the others agree. -/
theorem overwrite_andThen_eq_iff {base : Node H} {o w}
    (hnone : ∀ f, w f = none → base.get f = n.get f) :
    base.overwrite (o.andThen w) = n.overwrite o ↔
      base.rest = n.rest ∧ ∀ f v, w f = some v → v = (o f).getD (n.get f) := by
  rw [Node.overwrite_eq_iff]
  refine and_congr_right fun _ => forall_congr' fun f => ?_
  cases hw : w f with
  | none => simp [hw, hnone f hw]
  | some v => simp [hw]

section Session

variable (ms : MapSession H) (now : Time) (resp : MapResponse H) (k : NodeID) (was : Node H)

/-- What the patchified response leaves at the known peer `was`. -/
def MapSession.patchifiedAt : Option (Node H) :=
  (((changesFor resp k).filter (!ms.promoted ·)).getLast?.or
    (if k ∈ resp.peersRemoved.elems then none else some was)).map fun n =>
      n.overwrite ((overrides now resp k).andThen (ms.promotedWrites resp k was))

variable {ms now resp k was} (hlast : (changesFor resp k).getLast? = some n)

include hlast

theorem patchifiedAt_eq_iff_of_kept (hp : ¬ ms.promoted n) :
    ms.patchifiedAt now resp k was = some (n.overwrite (overrides now resp k)) ↔
      PatchifySafe ms now resp k was n := by
  have hkept := getLast?_filter_of_last (p := (!ms.promoted ·)) hlast (by simpa using hp)
  rw [patchifiedAt, hkept, Option.some_or, Option.map_some, Option.some_inj,
    overwrite_andThen_eq_iff fun f _ => rfl]
  constructor
  · rintro ⟨-, hw⟩
    exact ⟨fun h => absurd h hp, fun h => absurd h hp, hw⟩
  · intro h
    exact ⟨rfl, h.written⟩

variable (hk : ms.peers.lookup k = some was) (hexact : ∀ m ∈ changesFor resp k, ExactDiff was m)
  (hpanic : ∀ m ∈ changesFor resp k, ∀ msg,
    ms.patchifyPeer m ≠ .error (.panicked msg))

include hk hexact hpanic

theorem patchifiedAt_eq_iff_of_promoted (hp : ms.promoted n) :
    ms.patchifiedAt now resp k was = some (n.overwrite (overrides now resp k)) ↔
      PatchifySafe ms now resp k was n := by
  have hid : ∀ m ∈ changesFor resp k, ms.peers.lookup m.id = some was := by
    intro m hm
    rw [show m.id = k by simpa using (mem_filter.1 hm).2]
    exact hk
  have hn : n ∈ changesFor resp k := mem_of_getLast? hlast
  have hdiff := overwrite_of_promoted (hid n hn) (hexact n hn) hp
  have hrest : was.rest = n.rest := by rw [← hdiff, Node.rest_overwrite]
  have hnone : ∀ f, ms.promotedWrites resp k was f = none → was.get f = n.get f := by
    intro f hf
    have hnf : diffOverwrite was n f = none :=
      Overwrite.all_eq_none_iff.1 hf _ (mem_map_of_mem (mem_filter.2 ⟨hn, hp⟩))
    rw [← hdiff, Node.get_overwrite, Overwrite.apply_apply, hnf, Option.getD_none]
  cases hkept : ((changesFor resp k).filter (!ms.promoted ·)).getLast? with
  | some u =>
    -- an earlier change stays: it differs from the last one in a field no patch writes
    have hu := mem_filter.1 (mem_of_getLast? hkept)
    have hup : ¬ ms.promoted u := by simpa using hu.2
    have hne := rest_ne_of_not_promoted (hid u hu.1) (hpanic u hu.1) hup
    rw [patchifiedAt, hkept, Option.some_or, Option.map_some, Option.some_inj]
    constructor
    · intro h
      exact absurd (((Node.overwrite_eq_iff _ _ _ _).1 h).1.trans hrest.symm) hne
    · intro h
      exact absurd (h.all_promoted hp u hu.1) hup
  | none =>
    have hall : ∀ m ∈ changesFor resp k, ms.promoted m := by
      simpa using hkept
    rw [patchifiedAt, hkept, Option.none_or]
    by_cases hr : k ∈ resp.peersRemoved.elems
    · rw [if_pos hr]
      exact ⟨fun h => by simp at h, fun h => absurd hr (h.not_removed hp)⟩
    rw [if_neg hr, Option.map_some, Option.some_inj, overwrite_andThen_eq_iff hnone]
    constructor
    · rintro ⟨-, hw⟩
      exact ⟨fun _ => hr, fun _ => hall, hw⟩
    · intro h
      exact ⟨hrest, h.written⟩

theorem patchifiedAt_eq_iff :
    ms.patchifiedAt now resp k was = some (n.overwrite (overrides now resp k)) ↔
      PatchifySafe ms now resp k was n := by
  by_cases hp : ms.promoted n
  · exact patchifiedAt_eq_iff_of_promoted hlast hk hexact hpanic hp
  · exact patchifiedAt_eq_iff_of_kept hlast hp

end Session

section Lookup

variable (h : Patchified ms resp resp') (hdelta : resp.peers.elems = []) (now : Time)

omit [DecidableEq H] in
theorem MapResponse.base_eq (resp : MapResponse H) (peers : Peers H) (k : NodeID) :
    base resp peers k = (changesFor resp k).getLast?.or
      (if k ∈ resp.peersRemoved.elems then none else peers.lookup k) := rfl

include h in
theorem base_patchified (k : NodeID) :
    base resp' ms.peers k =
      ((changesFor resp k).filter (!ms.promoted ·)).getLast?.or
        (if k ∈ resp.peersRemoved.elems then none else ms.peers.lookup k) := by
  rw [base_eq, changesFor_patchified h, h.peersRemoved]

include h hdelta

theorem lookup_patchified (hk : ms.peers.lookup k = some was) :
    (ms.updatePeersStateFromResponse now resp').1.peers.lookup k =
      ms.patchifiedAt now resp k was := by
  rw [ms.lookup_updatePeers now resp' (by rw [h.peers]; exact hdelta), base_patchified h, hk,
    overrides_patchified h now hk]
  rfl

theorem lookup_patchified_unknown (hk : ms.peers.lookup k = none) :
    (ms.updatePeersStateFromResponse now resp').1.peers.lookup k =
      (ms.updatePeersStateFromResponse now resp).1.peers.lookup k := by
  have hkept : (changesFor resp k).filter (!ms.promoted ·) =
      changesFor resp k := by
    rw [filter_eq_self]
    intro m hm
    have hmk : m.id = k := by simpa using (mem_filter.1 hm).2
    rw [promoted_of_unknown (hmk ▸ hk)]
    rfl
  rw [ms.lookup_updatePeers now resp' (by rw [h.peers]; exact hdelta),
    ms.lookup_updatePeers now resp hdelta, base_patchified h, hkept,
    overrides_patchified_unknown h now hk, base_eq]

theorem lookup_patchified_unchanged (hk : ms.peers.lookup k = some was)
    (hnil : changesFor resp k = []) :
    (ms.updatePeersStateFromResponse now resp').1.peers.lookup k =
      (ms.updatePeersStateFromResponse now resp).1.peers.lookup k := by
  have hw : ms.promotedWrites resp k was = .nop := by
    rw [promotedWrites, hnil]
    rfl
  rw [lookup_patchified h hdelta now hk, ms.lookup_updatePeers now resp hdelta,
    patchifiedAt, hw, base_eq, hnil, hk]
  rfl

end Lookup

/-- **Patchifying.**  For a delta response whose single diffs are exact, the
patchified response leaves the same peers as the original one exactly when it is
safe for the last change of every known peer. -/
theorem patchifyPeersChanged_same_iff (ms : MapSession H) (now : Time) (resp resp' : MapResponse H)
    (hdelta : resp.peers.elems = [])
    (hexact : ∀ m ∈ resp.peersChanged.elems, ∀ was, ms.peers.lookup m.id = some was →
      ExactDiff was m)
    (hp : ms.patchifyPeersChanged resp = .ok resp') :
    (ms.updatePeersStateFromResponse now resp').1.peers.Same
        (ms.updatePeersStateFromResponse now resp).1.peers ↔
      ∀ k was n, ms.peers.lookup k = some was →
        (changesFor resp k).getLast? = some n → PatchifySafe ms now resp k was n := by
  have h := patchifyPeersChanged_ok hp
  have hpeer : ∀ k was n, ms.peers.lookup k = some was → (changesFor resp k).getLast? = some n →
      ((ms.updatePeersStateFromResponse now resp').1.peers.lookup k =
        (ms.updatePeersStateFromResponse now resp).1.peers.lookup k ↔
          PatchifySafe ms now resp k was n) := by
    intro k was n hk hlast
    have hmem : ∀ m ∈ changesFor resp k,
        m ∈ resp.peersChanged.elems ∧ ms.peers.lookup m.id = some was := by
      intro m hm
      have hm' := mem_filter.1 hm
      rw [show m.id = k by simpa using hm'.2]
      exact ⟨hm'.1, hk⟩
    rw [lookup_patchified h hdelta now hk, ms.lookup_updatePeers now resp hdelta,
      base_eq, hlast]
    exact patchifiedAt_eq_iff hlast hk (fun m hm => hexact m (hmem m hm).1 was (hmem m hm).2)
      (fun m hm => h.no_panic m (hmem m hm).1)
  constructor
  · intro hsame k was n hk hlast
    exact (hpeer k was n hk hlast).1 (hsame k)
  · intro hall k
    cases hk : ms.peers.lookup k with
    | none => exact lookup_patchified_unknown h hdelta now hk
    | some was =>
      cases hlast : (changesFor resp k).getLast? with
      | none =>
        exact lookup_patchified_unchanged h hdelta now hk (List.getLast?_eq_none_iff.1 hlast)
      | some n => exact (hpeer k was n hk hlast).2 (hall k was n hk hlast)

/-- A session with one peer, at home in region 1. -/
def homeSession : MapSession Unit :=
  (newMapSession.updatePeersStateFromResponse 0 { peers := some [{ id := 1, homeDERP := 1 }] }).1

/-- A response that moves the peer to region 2, and then applies patches. -/
def moveResponse (patches : List PeerChange) : MapResponse Unit :=
  { peersChanged := some [{ id := 1, homeDERP := 2 }], peersChangedPatch := patches }

theorem lookup_homeSession {was : Node Unit} (h : homeSession.peers.lookup k = some was) :
    k = 1 ∧ was = { id := 1, homeDERP := 1 } := by
  rw [GoMap.lookup_eq_some_iff] at h
  cases mem_singleton.1 h
  exact ⟨rfl, rfl⟩

theorem exactDiff_move (patches : List PeerChange) :
    ∀ m ∈ (moveResponse patches).peersChanged.elems,
    ∀ was, homeSession.peers.lookup m.id = some was → ExactDiff was m := by
  intro m hm was hw pc hpc
  rw [mem_singleton.1 hm] at hpc ⊢
  rw [(lookup_homeSession hw).2] at hpc ⊢
  cases hpc
  rfl

/-- A move on its own keeps its meaning as a patch. -/
theorem patchifyPeersChanged_move :
    (homeSession.updatePeersStateFromResponse 0
        { peersChangedPatch := [{ nodeID := 1, derpRegion := 2 }] }).1.peers.Same
      (homeSession.updatePeersStateFromResponse 0 (moveResponse [])).1.peers := by
  refine (patchifyPeersChanged_same_iff homeSession 0 (moveResponse []) _ rfl (exactDiff_move [])
    rfl).2 fun k was n hk hlast => ?_
  obtain ⟨rfl, rfl⟩ := lookup_homeSession hk
  cases hlast
  refine ⟨fun _ h => absurd h not_mem_nil, fun _ m hm => ?_, fun f v hv => ?_⟩
  · rw [mem_singleton.1 hm]
    rfl
  · cases f <;> cases hv
    rfl

/-- With a patch to region 3 in the same response, the promoted change to region 2
is applied last and wins. -/
theorem patchifyPeersChanged_reorders :
    (∀ m ∈ (moveResponse [{ nodeID := 1, derpRegion := 3 }]).peersChanged.elems, ∀ was,
        homeSession.peers.lookup m.id = some was → ExactDiff was m) ∧
      ∃ resp', homeSession.patchifyPeersChanged
          (moveResponse [{ nodeID := 1, derpRegion := 3 }]) = .ok resp' ∧
        ((homeSession.updatePeersStateFromResponse 0 resp').1.peers.lookup 1).map Node.homeDERP =
          some 2 ∧
        ((homeSession.updatePeersStateFromResponse 0
          (moveResponse [{ nodeID := 1, derpRegion := 3 }])).1.peers.lookup 1).map Node.homeDERP =
          some 3 ∧
        ¬ (homeSession.updatePeersStateFromResponse 0 resp').1.peers.Same
          (homeSession.updatePeersStateFromResponse 0
            (moveResponse [{ nodeID := 1, derpRegion := 3 }])).1.peers := by
  refine ⟨exactDiff_move _, _, rfl, rfl, rfl, fun h => ?_⟩
  exact absurd (congrArg (Option.map Node.homeDERP) (h 1)) (by decide)

end Multiport.Control

import Multiport.Magicsock.DiscoKeys
import Multiport.Magicsock.StalePeers

/-!
# Advertised disco keys

A peer advertises its disco key with 32 bytes of its choice.  `HandleDiscoKeyAdvertisement`
(`wgengine/magicsock/magicsock.go`) looks for the `discoInfo` of a key that is not the old one,
and for the zero key, which no reachable state has one for, `Shared` panics.
`handleDiscoKeyAdvertisement_completes_iff` says when that goes well.  The panics of
`upsertEndpoint` do not happen: the key that it finds is the one that was advertised, and nothing
is ever filed under the zero ID (`zeroFree_of_run`).
-/

namespace Multiport.Magicsock

open Lib Net Tailcfg ConnOp

variable {H : Type}

namespace ConnPeers

/-- No peer is filed under the zero ID or the zero disco key, and there is no `discoInfo` for
that key. -/
structure ZeroFree (c : ConnPeers H) : Prop where
  byNodeID : c.peerMap.byNodeID.lookup 0 = none
  known : c.peerMap.knownPeerDiscoKey 0 = false
  discoInfo : 0 ∉ c.discoInfo

variable {c c' : ConnPeers H}

theorem WF.byNodeID_zero_iff (h : c.WF) : c.peerMap.byNodeID.lookup 0 = none ↔
    ∀ nk ep, c.peerMap.endpointAt nk = some ep → ep.nodeID ≠ 0 := by
  constructor
  · intro hzero nk ep hep hid
    have hfound := h.indexes.byID_of_byKey hep
    rw [hid, PeerMap.endpointForNodeID, hzero] at hfound
    cases hfound
  · intro hids
    rw [Option.eq_none_iff_forall_ne_some]
    intro pi hpi
    obtain ⟨info, hinfo⟩ := h.indexed.ided 0 pi hpi
    have hfound : c.peerMap.endpointForNodeID 0 = some info.ep := by
      rw [PeerMap.endpointForNodeID, hpi, Option.bind_some, PeerMap.endpointOf, hinfo]
      rfl
    exact hids _ _ (h.indexes.byKey_of_byID hfound) (h.indexes.id_eq _ _ hfound)

theorem WF.not_inUse_zero (h : c.WF) : ¬c.InUse 0 := by
  rintro ⟨nk, ep, -, -, hkey⟩
  exact h.nonzero _ hkey

/-- No operation files anything under zero. -/
theorem ZeroFree.exec {op : ConnOp H} (hzero : c.ZeroFree) (h : c.WF) (hok : op.exec c = .ok c') :
    c'.ZeroFree := by
  have heff := exec_effect h hok
  have hknown : c'.peerMap.knownPeerDiscoKey 0 = false := by
    by_contra hknown
    rcases heff.new 0 (by simpa using hknown) with hold | ⟨s, hs, huse⟩ | huse
    · cases hzero.known.symm.trans hold
    · exact (hs.wf h).not_inUse_zero huse
    · exact heff.wf.not_inUse_zero huse
  refine ⟨heff.wf.byNodeID_zero_iff.2 fun nk ep hep => ?_, hknown, fun hinfo => ?_⟩
  · exact (heff.ided nk ep hep).elim (h.byNodeID_zero_iff.1 hzero.byNodeID nk ep) id
  · rcases heff.info 0 hinfo with hold | hold | ⟨ep, -, -, hkey⟩
    · exact hzero.discoInfo hold
    · cases hknown.symm.trans hold
    · exact heff.wf.nonzero _ hkey

/-- **Nothing is filed under zero in any reachable state.** -/
theorem zeroFree_of_run {τs} (h : Run (Taken.Ok exec) {} τs c) : c.ZeroFree := by
  refine (Run.invariant (I := fun _ c => c.WF ∧ c.ZeroFree)
    ⟨.empty, rfl, rfl, Finset.notMem_empty 0⟩ ?_ h).2
  rintro _ _ τ _ ⟨hwf, hzero⟩ ⟨rfl, rfl, hok⟩
  exact ⟨(exec_effect hwf hok).wf, hzero.exec hwf hok⟩

/-- The peer with the node key has a disco key. -/
def SpeaksDisco (c : ConnPeers H) (nodeKey : PublicKey) : Prop :=
  ∃ ep, c.peerMap.endpointForNodeKey nodeKey = some ep ∧ c.discoKey ep ≠ none

theorem WF.discoKeyOrZero_eq_zero_iff (h : c.WF) {ep} :
    c.discoKeyOrZero ep = 0 ↔ c.discoKey ep = none := by
  unfold discoKeyOrZero
  cases hkey : c.discoKey ep with
  | none => simp
  | some k =>
    simp only [Option.getD_some, reduceCtorEq, iff_false]
    rintro rfl
    exact h.nonzero _ hkey

/-- **An advertisement is handled**, and leaves the indexes right, exactly if it does not offer
the zero key for a peer that has a disco key. -/
theorem handleDiscoKeyAdvertisement_completes_iff {τs : List (Taken (ConnPeers H) (ConnOp H))}
    {c : ConnPeers H} (h : Run (Taken.Ok exec) {} τs c) (addrs : List AddrPort)
    (nodeKey dk : PublicKey) :
    (∃ c', c.handleDiscoKeyAdvertisement addrs nodeKey dk = .ok c' ∧ c'.WF) ↔
      ¬(dk = 0 ∧ c.SpeaksDisco nodeKey) := by
  have hwf := WF.of_run h
  have hzero := zeroFree_of_run h
  have hok : (∃ c', c.handleDiscoKeyAdvertisement addrs nodeKey dk = .ok c' ∧ c'.WF) ↔
      ∃ c', c.handleDiscoKeyAdvertisement addrs nodeKey dk = .ok c' :=
    exists_congr fun c' => and_iff_left_of_imp fun hc' => (hwf.handleDiscoKeyAdvertisement hc').1
  rw [hok]
  unfold ConnPeers.handleDiscoKeyAdvertisement SpeaksDisco
  cases hep : c.peerMap.endpointForNodeKey nodeKey with
  | none => simp
  | some ep =>
    have hid : ep.nodeID ≠ 0 :=
      hwf.byNodeID_zero_iff.1 hzero.byNodeID _ ep (hwf.endpointAt_publicKey hep)
    simp only [Option.some.injEq, exists_eq_left']
    split_ifs with hsame
    · refine iff_of_true ⟨c, rfl⟩ ?_
      rintro ⟨rfl, hkey⟩
      exact hkey (hwf.discoKeyOrZero_eq_zero_iff.1 hsame)
    simp only [bind_eq_ok_iff]
    by_cases hdk : dk = 0
    · subst hdk
      have hlost : c.discoKey ep ≠ none := mt hwf.discoKeyOrZero_eq_zero_iff.2 hsame
      refine iff_of_false ?_ (not_not.2 ⟨rfl, hlost⟩)
      rintro ⟨_, c₁, hinfo, -⟩
      exact (discoInfoForKnownPeerLocked_eq hinfo).2.elim hzero.discoInfo fun hne => hne rfl
    · refine iff_of_true ?_ fun hno => hdk hno.1
      have hinfo : ∃ c₁, c.discoInfoForKnownPeerLocked dk = .ok c₁ := by
        unfold discoInfoForKnownPeerLocked
        split_ifs <;> exact ⟨_, rfl⟩
      obtain ⟨c₁, hinfo⟩ := hinfo
      have hfiled := (upsertEndpoint_ok_iff (c₁.updateDiscoKey ep dk) ep addrs
        (c.discoKeyOrZero ep)).2 ⟨hid, .inr ?_⟩
      · obtain ⟨c', hc'⟩ := hfiled
        exact ⟨c', c₁, hinfo, hc'⟩
      · rw [discoKey, lookup_updateDiscoKey, if_pos rfl]
        exact keyOrNil_ne_none_iff.2 hdk

/-- A peer that is there changes its disco key. -/
theorem handleDiscoKeyAdvertisement_completes_iff_going : ∃ c : ConnPeers Unit, ∃ τs,
    Run (Taken.Ok exec) {} τs c ∧ τs.map Taken.act = [.upsertPeer [] goingPeer] ∧
      ((∃ c', c.handleDiscoKeyAdvertisement [] 3 7 = .ok c' ∧ c'.WF) ↔
        ¬((7 : PublicKey) = 0 ∧ c.SpeaksDisco 3)) := by
  have hend : ∃ c : ConnPeers Unit,
      [.upsertPeer [] goingPeer].foldlM exec {} = .ok c := ⟨_, rfl⟩
  obtain ⟨c, hok⟩ := hend
  obtain ⟨τs, hrun, hacts⟩ := exists_run_of_foldlM hok
  exact ⟨c, τs, hrun, hacts, handleDiscoKeyAdvertisement_completes_iff hrun [] 3 7⟩

/-- The peer is there, and it advertises the zero key. -/
theorem handleDiscoKeyAdvertisement_zero_panics : ∃ c : ConnPeers Unit, ∃ τs,
    Run (Taken.Ok exec) {} τs c ∧ τs.map Taken.act = [.upsertPeer [] goingPeer] ∧
      c.handleDiscoKeyAdvertisement [] 3 0 = .error .zeroKey := by
  have hend : ∃ c : ConnPeers Unit, [.upsertPeer [] goingPeer].foldlM exec {} = .ok c ∧
      c.handleDiscoKeyAdvertisement [] 3 0 = .error .zeroKey := ⟨_, rfl, rfl⟩
  obtain ⟨c, hok, hpanic⟩ := hend
  obtain ⟨τs, hrun, hacts⟩ := exists_run_of_foldlM hok
  exact ⟨c, τs, hrun, hacts, hpanic⟩

end ConnPeers

end Multiport.Magicsock

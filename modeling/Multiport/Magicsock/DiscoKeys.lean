import Multiport.Magicsock.ConnRuns

/-!
# Disco keys in use

`knownPeerDiscoKey` is meant to say whether some peer has a disco key.  It asks
whether `nodesOfDisco` has an entry for the key, and such an entry is made with the
first peer that has the key and never deleted; only its set becomes empty.  So it says
whether some peer ever had the key.  This decides what happens to `discoInfo`, which
both `RemovePeer` and `updateNodes` rid of the keys that are not known.

`discoKeys_exact_iff` states when this makes no difference.
-/

namespace Multiport.Magicsock

open Lib Net Tailcfg ConnOp

variable {H : Type}

namespace ConnPeers

variable (c : ConnPeers H)

/-- The peer with the node key has the disco key. -/
def HasDisco (nk dk : PublicKey) : Prop :=
  ∃ ep, c.peerMap.endpointAt nk = some ep ∧ c.discoKey ep = some dk

/-- **The peer map knows the disco keys that peers have**, and the peers that have them. -/
def DiscoExact : Prop :=
  ∀ dk, (c.peerMap.knownPeerDiscoKey dk = true ↔ ∃ nk, c.HasDisco nk dk) ∧
    ∀ nk, nk ∈ c.peerMap.nodesOf dk ↔ c.HasDisco nk dk

/-- `discoInfo` has only disco keys that peers have. -/
def DiscoInfoUsed : Prop := ∀ dk ∈ c.discoInfo, ∃ nk, c.HasDisco nk dk

/-- No WireGuard-only peer has a disco key. -/
def PlainWireGuard : Prop :=
  ∀ nk ep, c.peerMap.endpointAt nk = some ep → ep.isWireguardOnly = true → c.discoKey ep = none

variable {c c' : ConnPeers H}

theorem HasDisco.inUse (hplain : c.PlainWireGuard) {nk dk : PublicKey} (h : c.HasDisco nk dk) :
    c.InUse dk := by
  obtain ⟨ep, hep, hdk⟩ := h
  refine ⟨nk, ep, hep, ?_, hdk⟩
  by_contra hwg
  rw [hplain nk ep hep (by simpa using hwg)] at hdk
  cases hdk

/-- What the peer map has wrong is keys nobody uses any more, and WireGuard-only peers. -/
theorem WF.discoExact_iff (h : c.WF) : c.DiscoExact ↔
    c.PlainWireGuard ∧ ∀ dk, c.peerMap.knownPeerDiscoKey dk = true → c.InUse dk := by
  constructor
  · intro hexact
    have hplain : c.PlainWireGuard := by
      intro nk ep hep hwg
      rw [Option.eq_none_iff_forall_ne_some]
      intro dk hdk
      obtain ⟨ep', hep', hwg', -⟩ := (h.nodes nk dk).1 (((hexact dk).2 nk).2 ⟨ep, hep, hdk⟩)
      rw [hep] at hep'
      rw [Option.some.inj hep', hwg'] at hwg
      cases hwg
    refine ⟨hplain, fun dk hdk => ?_⟩
    obtain ⟨nk, hnk⟩ := (hexact dk).1.1 hdk
    exact hnk.inUse hplain
  · rintro ⟨hplain, hused⟩ dk
    refine ⟨⟨fun hdk => ?_, fun ⟨nk, hnk⟩ => h.known_of_inUse (hnk.inUse hplain)⟩, fun nk => ?_⟩
    · obtain ⟨nk, ep, hep, -, hkey⟩ := hused dk hdk
      exact ⟨nk, ep, hep, hkey⟩
    · rw [h.nodes nk dk]
      constructor
      · rintro ⟨ep, hep, -, hdk⟩
        exact ⟨ep, hep, hdk⟩
      · rintro ⟨ep, hep, hdk⟩
        refine ⟨ep, hep, ?_, hdk⟩
        by_contra hwg
        rw [hplain nk ep hep (by simpa using hwg)] at hdk
        cases hdk

end ConnPeers

open ConnPeers

/-- The operations that rid `discoInfo` of unknown keys. -/
def ConnOp.Cleans : ConnOp H → Prop
  | removePeer _ | updateNodes .. => True
  | _ => False

/-- No disco key goes out of use, and no WireGuard-only peer gets one. -/
def KeepsDisco (τ : Taken (ConnPeers H) (ConnOp H)) : Prop :=
  (∀ s, τ.act.Passes τ.before s → ∀ dk, s.InUse dk → τ.after.InUse dk) ∧ τ.after.PlainWireGuard

theorem ConnOp.passes_self (c : ConnPeers H) (op : ConnOp H) : op.Passes c c := by
  cases op
  case updateNodes => exact .inl rfl
  all_goals rfl

theorem ConnOp.Passes.wf {c s : ConnPeers H} {op : ConnOp H} (hs : op.Passes c s) (h : c.WF) :
    s.WF := by
  cases op
  case updateNodes equal addrs flags self peers =>
    rcases hs with rfl | ⟨-, -, pre, -, hpre⟩
    · exact h
    · have hwf : ({ c with self := self, lastFlags := flags } : ConnPeers H).WF :=
        h.of_same rfl rfl rfl
      exact (hwf.upsertPeers hpre).1
  all_goals exact hs ▸ h

/-- The peer map after an operation knows what was used until then. -/
theorem ConnOp.Effect.discoExact_iff {c c' : ConnPeers H} {op : ConnOp H} (h : c.WF)
    (hexact : c.DiscoExact) (heff : op.Effect c c') :
    c'.DiscoExact ↔ KeepsDisco ⟨c, op, c'⟩ := by
  rw [heff.wf.discoExact_iff, and_comm]
  refine and_congr_left fun _ => ⟨fun hused s hs dk hdk => ?_, fun hkeeps dk hdk => ?_⟩
  · exact hused dk (heff.old s hs dk ((hs.wf h).known_of_inUse hdk))
  · rcases heff.new dk hdk with hdk | ⟨s, hs, hdk⟩ | hdk
    · exact hkeeps c (op.passes_self c) dk ((h.discoExact_iff.1 hexact).2 dk hdk)
    · exact hkeeps s hs dk hdk
    · exact hdk

/-- A peer with disco key 5. -/
def goingPeer : Node Unit := { id := 1, key := 3, discoKey := 5 }

/-- **The peer map knows the disco keys in use**, and `RemovePeer` and `updateNodes` leave
`discoInfo` with these only, **exactly if no disco key ever goes out of use** (and no
WireGuard-only peer has one). -/
theorem discoKeys_exact_iff {τs : List (Taken (ConnPeers H) (ConnOp H))} {c : ConnPeers H}
    (h : Run (Taken.Ok exec) {} τs c) :
    (∀ τ ∈ τs, τ.after.DiscoExact ∧ (τ.act.Cleans → τ.after.DiscoInfoUsed)) ↔
      ∀ τ ∈ τs, KeepsDisco τ := by
  refine Run.forall_labels_iff (I := fun c => c.WF ∧ c.DiscoExact ∧ c.DiscoInfoUsed) ?_ ?_ h
  · refine ⟨.empty, fun dk => ?_, fun dk hdk => absurd hdk (Finset.notMem_empty dk)⟩
    simp [HasDisco, PeerMap.knownPeerDiscoKey, PeerMap.nodesOf, PeerMap.endpointAt]
  · rintro _ ⟨c, op, c'⟩ _ ⟨hwf, hexact, hinfo⟩ ⟨rfl, rfl, hok⟩
    have heff := (exec_effect hwf hok).toEffect
    -- Keys that are known are in use, so that `discoInfo` cannot have others.
    have hused (hexact' : c'.DiscoExact) : c'.DiscoInfoUsed := by
      intro dk hdk
      rw [← (hexact' dk).1]
      rcases heff.info dk hdk with hdk | hdk | ⟨ep, hwg, hep, hkey⟩
      · exact heff.old _ (op.passes_self _) dk ((hexact dk).1.2 (hinfo dk hdk))
      · exact hdk
      · cases ((heff.wf.discoExact_iff.1 hexact').1 _ ep hep hwg).symm.trans hkey
    rw [← heff.discoExact_iff hwf hexact]
    exact ⟨and_iff_left_of_imp fun hexact' _ => hused hexact',
      fun hexact' => ⟨heff.wf, hexact', hused hexact'⟩⟩

/-- A peer that comes and goes. -/
theorem discoKeys_exact_iff_going : ∃ c : ConnPeers Unit, ∃ τs,
    Run (Taken.Ok exec) {} τs c ∧
      τs.map Taken.act = [.upsertPeer [] goingPeer, .removePeer 1] ∧
      ((∀ τ ∈ τs, τ.after.DiscoExact ∧ (τ.act.Cleans → τ.after.DiscoInfoUsed)) ↔
        ∀ τ ∈ τs, KeepsDisco τ) := by
  have hend : ∃ c : ConnPeers Unit,
      [.upsertPeer [] goingPeer, .removePeer 1].foldlM exec {} = .ok c := ⟨_, rfl⟩
  obtain ⟨c, hok⟩ := hend
  obtain ⟨τs, hrun, hacts⟩ := exists_run_of_foldlM hok
  exact ⟨c, τs, hrun, hacts, discoKeys_exact_iff hrun⟩

/-- Once the peer was here, was heard from and is gone, its disco key is known still, and
`discoInfo` has it. -/
theorem discoKeys_gone : ∃ c : ConnPeers Unit, ∃ τs,
    Run (Taken.Ok exec) {} τs c ∧
      τs.map Taken.act = [.upsertPeer [] goingPeer, .discoInfoForPeer 5, .removePeer 1] ∧
      c.peerMap.knownPeerDiscoKey 5 = true ∧ 5 ∈ c.discoInfo ∧ ¬∃ nk, c.HasDisco nk 5 := by
  have hend : ∃ c : ConnPeers Unit,
      [.upsertPeer [] goingPeer, .discoInfoForPeer 5, .removePeer 1].foldlM exec {} = .ok c ∧
        c.peerMap.knownPeerDiscoKey 5 = true ∧ c.discoInfo = {5} ∧ c.peerMap.byNodeKey = ∅ :=
    ⟨_, rfl, rfl, rfl, rfl⟩
  obtain ⟨c, hok, hknown, hinfo, hkeys⟩ := hend
  obtain ⟨τs, hrun, hacts⟩ := exists_run_of_foldlM hok
  refine ⟨c, τs, hrun, hacts, hknown, by rw [hinfo]; exact Finset.mem_singleton_self 5, ?_⟩
  rintro ⟨nk, ep, hep, -⟩
  rw [PeerMap.endpointAt, hkeys] at hep
  simp at hep

end Multiport.Magicsock

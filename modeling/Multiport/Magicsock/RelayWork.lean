import Multiport.Magicsock.RelayManager

/-!
# The maps of the relay manager

The relay manager keeps six maps of the work under way.  Here they are looked at
in two groups, `HandshakeMaps` and `AllocMaps`.  Every function of the run loop
changes a group by a few operations: a work is added under keys that are free, a
work under way is forgotten, or it starts to wait for a pong.  Each operation
keeps the group `Consistent`, and so does the run loop, whatever events it takes.
-/

namespace Multiport.Magicsock

open Disco Lib Net Tailcfg List Nested Option GoMap HandshakeWork

/-! ## Handshakes -/

@[ext]
structure HandshakeMaps where
  byServerDiscoByEndpoint : Nested EndpointRef PublicKey HandshakeWork
  byServerDiscoVNI : GoMap ServerDiscoVNI HandshakeWork
  awaitingPong : GoMap HandshakeWork AddrPortVNI
  ofAddrPortVNI : GoMap AddrPortVNI HandshakeWork

namespace HandshakeMaps

/-- Two maps hold the same works under the keys of each work, and the other two, which
are inverse to each other, have only works that are in these. -/
structure Consistent (m : HandshakeMaps) : Prop where
  same : TwoIndexes epServer sdv m.byServerDiscoByEndpoint.find fun k => m.byServerDiscoVNI.lookup k
  noEmpty : m.byServerDiscoByEndpoint.NoEmpty
  inverse : Inverse m.awaitingPong m.ofAddrPortVNI
  active : ∀ w apv, m.awaitingPong.lookup w = some apv → m.byServerDiscoVNI.lookup w.sdv = some w

variable (m : HandshakeMaps)

/-- The work is under way. -/
def Active (w : HandshakeWork) : Prop := m.byServerDiscoVNI.lookup w.sdv = some w

/-- A new work. -/
def add (w : HandshakeWork) : HandshakeMaps :=
  { m with
    byServerDiscoByEndpoint := m.byServerDiscoByEndpoint.put w.epServer w
    byServerDiscoVNI := m.byServerDiscoVNI.insert w.sdv w }

/-- A work that waits for a pong from an address. -/
def await (w : HandshakeWork) (apv : AddrPortVNI) : HandshakeMaps :=
  { m with
    awaitingPong := m.awaitingPong.insert w apv
    ofAddrPortVNI := m.ofAddrPortVNI.insert apv w }

/-- A work that is over. -/
def forget (w : HandshakeWork) : HandshakeMaps where
  byServerDiscoByEndpoint := m.byServerDiscoByEndpoint.delete w.epServer
  byServerDiscoVNI := m.byServerDiscoVNI.erase w.sdv
  awaitingPong := if (m.awaitingPong.lookup w).isSome then m.awaitingPong.erase w
    else m.awaitingPong
  ofAddrPortVNI := match m.awaitingPong.lookup w with
    | some apv => m.ofAddrPortVNI.erase apv
    | none => m.ofAddrPortVNI

/-- No map has a work of the endpoint. -/
structure Clear (m : HandshakeMaps) (ep : EndpointRef) : Prop where
  byEndpoint : m.byServerDiscoByEndpoint.maps.lookup ep = none
  byServerDisco : ∀ k w, m.byServerDiscoByEndpoint.find k = some w → w.wlb.ep ≠ ep
  byServerDiscoVNI : ∀ k w, m.byServerDiscoVNI.lookup k = some w → w.wlb.ep ≠ ep
  awaitingPong : ∀ w apv, m.awaitingPong.lookup w = some apv → w.wlb.ep ≠ ep
  ofAddrPortVNI : ∀ apv w, m.ofAddrPortVNI.lookup apv = some w → w.wlb.ep ≠ ep

variable {m : HandshakeMaps} {w w' : HandshakeWork}

theorem Active.eq_of_sdv (hw : m.Active w) (hw' : m.Active w') (h : w'.sdv = w.sdv) : w' = w := by
  rw [Active, h] at hw'
  exact Option.mem_unique hw' hw

theorem Consistent.find_iff (h : m.Consistent) {k} :
    m.byServerDiscoByEndpoint.find k = some w ↔ m.Active w ∧ w.epServer = k := by
  constructor
  · exact fun hk => ⟨h.same.byID_of_byKey hk, h.same.key_eq k w hk⟩
  · rintro ⟨hw, rfl⟩
    exact (h.same.same w).2 hw

theorem Consistent.lookup_iff (h : m.Consistent) {k} :
    m.byServerDiscoVNI.lookup k = some w ↔ m.Active w ∧ w.sdv = k := by
  constructor
  · intro hk
    have hkey := h.same.id_eq k w hk
    subst hkey
    exact ⟨hk, rfl⟩
  · rintro ⟨hw, rfl⟩
    exact hw

theorem active_forget (hw : m.Active w) : (m.forget w).Active w' ↔ m.Active w' ∧ w' ≠ w := by
  change (m.byServerDiscoVNI.erase w.sdv).lookup w'.sdv = some w' ↔ _
  rw [lookup_erase_iff]
  exact and_congr_right fun hw' => not_congr ⟨hw.eq_of_sdv hw', congrArg sdv⟩

theorem lookup_awaitingPong_forget :
    (m.forget w).awaitingPong.lookup w' = if w' = w then none else m.awaitingPong.lookup w' := by
  simp only [forget]
  split
  · exact lookup_erase_eq ..
  next hpong =>
    split
    next heq => rw [heq, not_isSome_iff_eq_none.1 hpong]
    · rfl

theorem Consistent.forget (h : m.Consistent) (hw : m.Active w) : (m.forget w).Consistent where
  same := by
    change TwoIndexes _ _ (m.byServerDiscoByEndpoint.delete w.epServer).find
      fun k => (m.byServerDiscoVNI.erase w.sdv).lookup k
    rw [find_delete, lookup_erase_update]
    exact h.same.erase ((h.same.same w).2 hw)
  noEmpty := h.noEmpty.delete _
  inverse := by
    unfold HandshakeMaps.forget
    cases hpong : m.awaitingPong.lookup w with
    | none => exact h.inverse
    | some apv => exact h.inverse.erase hpong
  active w' apv hapv := by
    rw [lookup_awaitingPong_forget] at hapv
    split at hapv
    · cases hapv
    next hne => exact (active_forget hw).2 ⟨h.active w' apv hapv, hne⟩

theorem Consistent.add (h : m.Consistent) (hkey : m.byServerDiscoByEndpoint.find w.epServer = none)
    (hid : m.byServerDiscoVNI.lookup w.sdv = none) : (m.add w).Consistent where
  same := by
    change TwoIndexes _ _ (m.byServerDiscoByEndpoint.put w.epServer w).find
      fun k => (m.byServerDiscoVNI.insert w.sdv w).lookup k
    rw [find_put, lookup_insert_update]
    exact h.same.insert hkey hid
  noEmpty := h.noEmpty.put _ _
  inverse := h.inverse
  active w' apv hapv := by
    have hold := h.active w' apv hapv
    change (m.byServerDiscoVNI.insert w.sdv w).lookup w'.sdv = some w'
    rw [lookup_insert_eq, if_neg, hold]
    intro heq
    rw [heq, hid] at hold
    cases hold

theorem Consistent.await (h : m.Consistent) {apv} (hw : m.Active w)
    (hpong : m.awaitingPong.lookup w = none) (hapv : m.ofAddrPortVNI.lookup apv = none) :
    (m.await w apv).Consistent where
  same := h.same
  noEmpty := h.noEmpty
  inverse := h.inverse.insert hpong hapv
  active w' apv' hapv' := by
    change (m.awaitingPong.insert w apv).lookup w' = _ at hapv'
    rw [lookup_insert_eq] at hapv'
    split at hapv'
    next heq =>
      subst heq
      exact hw
    · exact h.active w' apv' hapv'

theorem Consistent.clear (h : m.Consistent) {ep}
    (hep : ∀ w, m.Active w → w.wlb.ep ≠ ep) : m.Clear ep where
  byEndpoint := by
    apply h.noEmpty.lookup_eq_none_iff.2
    intro sd
    rw [eq_none_iff_forall_ne_some]
    intro w hw
    obtain ⟨hactive, hkey⟩ := h.find_iff.1 hw
    exact hep w hactive (congrArg Prod.fst hkey)
  byServerDisco k w hw := hep w (h.find_iff.1 hw).1
  byServerDiscoVNI k w hw := hep w (h.lookup_iff.1 hw).1
  awaitingPong w apv hw := hep w (h.active w apv hw)
  ofAddrPortVNI apv w hw := hep w (h.active w apv ((h.inverse w apv).2 hw))

end HandshakeMaps

/-! ## Allocations -/

@[ext]
structure AllocMaps where
  byCandidatePeerRelayByEndpoint : Nested EndpointRef CandidatePeerRelay AllocWork
  byDiscoKeysByServerNodeKey : Nested PublicKey SortedPairOfDiscoPublic AllocWork

namespace AllocMaps

/-- The two maps hold the same works under the keys of each work. -/
structure Consistent (m : AllocMaps) : Prop where
  same : TwoIndexes AllocWork.epCandidate AllocWork.serverKeys m.byCandidatePeerRelayByEndpoint.find
    m.byDiscoKeysByServerNodeKey.find
  noEmptyByEndpoint : m.byCandidatePeerRelayByEndpoint.NoEmpty
  noEmptyByServer : m.byDiscoKeysByServerNodeKey.NoEmpty

/-- A new work. -/
def add (m : AllocMaps) (w : AllocWork) : AllocMaps where
  byCandidatePeerRelayByEndpoint := m.byCandidatePeerRelayByEndpoint.put w.epCandidate w
  byDiscoKeysByServerNodeKey := m.byDiscoKeysByServerNodeKey.put w.serverKeys w

/-- A work that is over. -/
def forget (m : AllocMaps) (w : AllocWork) : AllocMaps where
  byCandidatePeerRelayByEndpoint := m.byCandidatePeerRelayByEndpoint.delete w.epCandidate
  byDiscoKeysByServerNodeKey := m.byDiscoKeysByServerNodeKey.delete w.serverKeys

/-- No map has a work of the endpoint. -/
structure Clear (m : AllocMaps) (ep : EndpointRef) : Prop where
  byEndpoint : m.byCandidatePeerRelayByEndpoint.maps.lookup ep = none
  byCandidatePeerRelay : ∀ k w, m.byCandidatePeerRelayByEndpoint.find k = some w → w.wlb.ep ≠ ep
  byDiscoKeys : ∀ k w, m.byDiscoKeysByServerNodeKey.find k = some w → w.wlb.ep ≠ ep

variable {m : AllocMaps} {w : AllocWork}

theorem Consistent.forget (h : m.Consistent)
    (hw : m.byCandidatePeerRelayByEndpoint.find w.epCandidate = some w) :
    (m.forget w).Consistent where
  same := by
    change TwoIndexes _ _ (m.byCandidatePeerRelayByEndpoint.delete w.epCandidate).find
      (m.byDiscoKeysByServerNodeKey.delete w.serverKeys).find
    rw [find_delete, find_delete]
    exact h.same.erase hw
  noEmptyByEndpoint := h.noEmptyByEndpoint.delete _
  noEmptyByServer := h.noEmptyByServer.delete _

theorem Consistent.add (h : m.Consistent)
    (hkey : m.byCandidatePeerRelayByEndpoint.find w.epCandidate = none)
    (hid : m.byDiscoKeysByServerNodeKey.find w.serverKeys = none) : (m.add w).Consistent where
  same := by
    change TwoIndexes _ _ (m.byCandidatePeerRelayByEndpoint.put w.epCandidate w).find
      (m.byDiscoKeysByServerNodeKey.put w.serverKeys w).find
    rw [find_put, find_put]
    exact h.same.insert hkey hid
  noEmptyByEndpoint := h.noEmptyByEndpoint.put _ _
  noEmptyByServer := h.noEmptyByServer.put _ _

theorem Consistent.clear (h : m.Consistent) {ep}
    (hep : ∀ c, m.byCandidatePeerRelayByEndpoint.find (ep, c) = none) : m.Clear ep := by
  have hkey (k : EndpointRef × CandidatePeerRelay) (w : AllocWork)
      (hw : m.byCandidatePeerRelayByEndpoint.find k = some w) : w.wlb.ep ≠ ep := by
    rintro rfl
    have hk := h.same.key_eq k w hw
    subst hk
    exact some_ne_none w (hw.symm.trans (hep w.candidatePeerRelay))
  exact {
    byEndpoint := h.noEmptyByEndpoint.lookup_eq_none_iff.2 hep
    byCandidatePeerRelay := hkey
    byDiscoKeys := fun k w hw => hkey _ w (h.same.byKey_of_byID hw) }

end AllocMaps

/-! ## What the functions do to the maps -/

namespace RelayManager

/-- The maps of the handshakes. -/
def handshakes (r : RelayManager) : HandshakeMaps where
  byServerDiscoByEndpoint := r.handshakeWorkByServerDiscoByEndpoint
  byServerDiscoVNI := r.handshakeWorkByServerDiscoVNI
  awaitingPong := r.handshakeWorkAwaitingPong
  ofAddrPortVNI := r.addrPortVNIToHandshakeWork

/-- The maps of the allocations. -/
def allocs (r : RelayManager) : AllocMaps where
  byCandidatePeerRelayByEndpoint := r.allocWorkByCandidatePeerRelayByEndpoint
  byDiscoKeysByServerNodeKey := r.allocWorkByDiscoKeysByServerNodeKey

/-- All maps of work are consistent. -/
structure Consistent (r : RelayManager) : Prop where
  handshakes : r.handshakes.Consistent
  allocs : r.allocs.Consistent

variable {r : RelayManager}

theorem handshakes_forgetHandshake (w : HandshakeWork) :
    (r.forgetHandshake w).handshakes = r.handshakes.forget w := by
  rw [forgetHandshake, forgetPong]
  change _ = HandshakeMaps.mk _ _ (if (r.handshakeWorkAwaitingPong.lookup w).isSome then _ else _)
    (match r.handshakeWorkAwaitingPong.lookup w with | some _ => _ | none => _)
  cases r.handshakeWorkAwaitingPong.lookup w <;> rfl

theorem allocs_forgetHandshake (w : HandshakeWork) : (r.forgetHandshake w).allocs = r.allocs := by
  rw [forgetHandshake, forgetPong]
  split <;> rfl

theorem handleHandshakeWorkDoneRunLoop_maps (done : HandshakeWorkDoneEvent) :
    (r.handleHandshakeWorkDoneRunLoop done).handshakes =
        (if r.handshakeWorkByServerDiscoByEndpoint.find done.work.epServer = some done.work then
          r.handshakes.forget done.work
        else r.handshakes) ∧
      (r.handleHandshakeWorkDoneRunLoop done).allocs = r.allocs := by
  have hallocs := allocs_forgetHandshake (r := r) done.work
  rw [handleHandshakeWorkDoneRunLoop, ← handshakes_forgetHandshake]
  split
  · split <;> exact ⟨rfl, hallocs⟩
  · exact ⟨rfl, rfl⟩

variable {w : HandshakeWork}

/-- A work that is under way is over once its result was taken. -/
theorem handshakes_handshakeDone (h : r.handshakes.Consistent) (res : Results)
    (hw : r.handshakes.Active w) :
    (r.handleHandshakeWorkDoneRunLoop (res.handshakeDone w)).handshakes =
      r.handshakes.forget w := by
  rw [(handleHandshakeWorkDoneRunLoop_maps _).1]
  exact if_pos ((h.same.same w).2 hw)

/-- Unless the server is the one of a best address that is trusted, a work for the event is
added. -/
theorem startHandshake_maps (e : NewRelayServerEndpointEvent) :
    (r.startHandshake e).allocs = r.allocs ∧ ((r.startHandshake e).handshakes = r.handshakes ∨
      ∃ w, w.wlb = e.wlb ∧ w.se = e.se ∧
        (r.startHandshake e).handshakes = r.handshakes.add w) := by
  rw [startHandshake]
  generalize hr : (if e.server.isValid then r.run _ else r) = r₁
  have hrun : r₁.handshakes = r.handshakes ∧ r₁.allocs = r.allocs := by
    rw [← hr]
    split <;> exact ⟨rfl, rfl⟩
  rw [← hrun.1, ← hrun.2]
  split
  · exact ⟨rfl, .inl rfl⟩
  · exact ⟨rfl, .inr ⟨r₁.newHandshakeWork e, rfl, rfl, rfl⟩⟩

theorem allocs_supersedeByEndpoint (res : Results) (e : NewRelayServerEndpointEvent) :
    (r.supersedeByEndpoint res e).allocs = r.allocs := by
  rw [supersedeByEndpoint]
  split
  · split
    · rfl
    · rw [(startHandshake_maps e).1, (handleHandshakeWorkDoneRunLoop_maps _).2]
  · exact (startHandshake_maps e).1

theorem allocs_handleNewServerEndpointRunLoop (res : Results) (e : NewRelayServerEndpointEvent) :
    (r.handleNewServerEndpointRunLoop res e).allocs = r.allocs := by
  rw [handleNewServerEndpointRunLoop]
  split
  · split
    · rfl
    · rw [allocs_supersedeByEndpoint, (handleHandshakeWorkDoneRunLoop_maps _).2]
  · exact allocs_supersedeByEndpoint res e

/-- A work that is done leaves the maps; then a handshake with what was allocated may start. -/
theorem handleAllocWorkDoneRunLoop_cases (h : r.allocs.Consistent) (res : Results)
    (done : AllocWorkDoneEvent) :
    (r.allocWorkByCandidatePeerRelayByEndpoint.find done.work.epCandidate ≠ some done.work ∧
        r.handleAllocWorkDoneRunLoop res done = r) ∨
      r.allocWorkByCandidatePeerRelayByEndpoint.find done.work.epCandidate = some done.work ∧
        ∃ r₁ : RelayManager, r₁.handshakes = r.handshakes ∧ r₁.allocs = r.allocs.forget done.work ∧
          (r.handleAllocWorkDoneRunLoop res done = r₁ ∨
            ∃ e, r.handleAllocWorkDoneRunLoop res done =
              r₁.handleNewServerEndpointRunLoop res e) := by
  rw [handleAllocWorkDoneRunLoop]
  split
  next hwork =>
    refine .inr ⟨hwork, ?_⟩
    have hserver := h.same.byID_of_byKey hwork
    dsimp only
    split
    next hnone =>
      -- The work is in the other map too, so the branch that the source calls
      -- unexpected is never taken.
      have := h.noEmptyByServer.lookup_eq_none_iff.1 hnone done.work.discoKeys
      exact absurd (hserver.symm.trans this) (some_ne_none _)
    · refine ⟨{ r with
        allocWorkByCandidatePeerRelayByEndpoint :=
          r.allocWorkByCandidatePeerRelayByEndpoint.delete done.work.epCandidate
        allocWorkByDiscoKeysByServerNodeKey :=
          r.allocWorkByDiscoKeysByServerNodeKey.delete done.work.serverKeys }, rfl, rfl, ?_⟩
      split
      · exact .inl rfl
      · exact .inr ⟨_, rfl⟩
  next hwork => exact .inl ⟨hwork, rfl⟩

theorem allocs_handleAllocWorkDoneRunLoop (h : r.allocs.Consistent) (res : Results)
    (done : AllocWorkDoneEvent) :
    (r.handleAllocWorkDoneRunLoop res done).allocs =
      if r.allocWorkByCandidatePeerRelayByEndpoint.find done.work.epCandidate = some done.work then
        r.allocs.forget done.work
      else r.allocs := by
  rcases handleAllocWorkDoneRunLoop_cases h res done with ⟨hne, heq⟩ | ⟨hwork, r₁, -, hr₁, heq⟩
  · rw [if_neg hne, heq]
  · rw [if_pos hwork, ← hr₁]
    rcases heq with heq | ⟨e, heq⟩
    · rw [heq]
    · rw [heq, allocs_handleNewServerEndpointRunLoop]

/-! ## Every function keeps the maps consistent -/

namespace Consistent

variable (h : r.Consistent)

include h

theorem of_eq {r' : RelayManager} (hh : r'.handshakes = r.handshakes) (ha : r'.allocs = r.allocs) :
    r'.Consistent :=
  ⟨hh ▸ h.handshakes, ha ▸ h.allocs⟩

theorem handleHandshakeWorkDoneRunLoop (done : HandshakeWorkDoneEvent) :
    (r.handleHandshakeWorkDoneRunLoop done).Consistent := by
  obtain ⟨hhandshakes, hallocs⟩ := handleHandshakeWorkDoneRunLoop_maps (r := r) done
  refine ⟨?_, hallocs ▸ h.allocs⟩
  rw [hhandshakes]
  split
  next hwork => exact h.handshakes.forget (h.handshakes.find_iff.1 hwork).1
  · exact h.handshakes

variable {e : NewRelayServerEndpointEvent}

theorem startHandshake (hkey : r.handshakeWorkByServerDiscoByEndpoint.find e.epServer = none)
    (hid : r.handshakeWorkByServerDiscoVNI.lookup e.sdv = none) :
    (r.startHandshake e).Consistent := by
  obtain ⟨hallocs, heq | ⟨w, hwlb, hse, heq⟩⟩ := startHandshake_maps (r := r) e
  · exact h.of_eq heq hallocs
  · refine ⟨?_, hallocs ▸ h.allocs⟩
    rw [heq]
    apply h.handshakes.add
    · rw [epServer, hwlb, hse]
      exact hkey
    · rw [sdv, hse]
      exact hid

variable (res : Results)

theorem find_eq_none_of_handshakeDone (hw : r.handshakes.Active w) :
    (r.handleHandshakeWorkDoneRunLoop
      (res.handshakeDone w)).handshakeWorkByServerDiscoByEndpoint.find w.epServer = none := by
  have heq := congrArg HandshakeMaps.byServerDiscoByEndpoint
    (handshakes_handshakeDone h.handshakes res hw)
  change _ = r.handshakeWorkByServerDiscoByEndpoint.delete w.epServer at heq
  change find (HandshakeMaps.byServerDiscoByEndpoint (RelayManager.handshakes _)) _ = _
  rw [heq, find_delete, Function.update_self]

theorem lookup_eq_none_of_handshakeDone (hw : r.handshakes.Active w) {k}
    (hk : w.sdv = k ∨ r.handshakeWorkByServerDiscoVNI.lookup k = none) :
    (r.handleHandshakeWorkDoneRunLoop
      (res.handshakeDone w)).handshakeWorkByServerDiscoVNI.lookup k = none := by
  have heq := congrArg HandshakeMaps.byServerDiscoVNI (handshakes_handshakeDone h.handshakes res hw)
  change _ = r.handshakeWorkByServerDiscoVNI.erase w.sdv at heq
  change (HandshakeMaps.byServerDiscoVNI (RelayManager.handshakes _)).lookup k = none
  rw [heq, lookup_erase_eq]
  split
  · rfl
  next hne => exact hk.resolve_left fun hw => hne hw.symm

theorem supersedeByEndpoint (hid : r.handshakeWorkByServerDiscoVNI.lookup e.sdv = none) :
    (r.supersedeByEndpoint res e).Consistent := by
  rw [RelayManager.supersedeByEndpoint]
  cases hkey : r.handshakeWorkByServerDiscoByEndpoint.find e.epServer with
  | none => exact h.startHandshake hkey hid
  | some existing =>
    dsimp only
    split
    · exact h
    · obtain ⟨hactive, hexisting⟩ := h.handshakes.find_iff.1 hkey
      apply (h.handleHandshakeWorkDoneRunLoop _).startHandshake
      · rw [← hexisting]
        exact h.find_eq_none_of_handshakeDone res hactive
      · exact h.lookup_eq_none_of_handshakeDone res hactive (.inr hid)

theorem handleNewServerEndpointRunLoop (e : NewRelayServerEndpointEvent) :
    (r.handleNewServerEndpointRunLoop res e).Consistent := by
  rw [RelayManager.handleNewServerEndpointRunLoop]
  cases hid : r.handshakeWorkByServerDiscoVNI.lookup e.sdv with
  | none => exact h.supersedeByEndpoint res hid
  | some existing =>
    dsimp only
    split
    · exact h
    · obtain ⟨hactive, hexisting⟩ := h.handshakes.lookup_iff.1 hid
      apply (h.handleHandshakeWorkDoneRunLoop _).supersedeByEndpoint
      exact h.lookup_eq_none_of_handshakeDone res hactive (.inl hexisting)

theorem handleAllocWorkDoneRunLoop (done : AllocWorkDoneEvent) :
    (r.handleAllocWorkDoneRunLoop res done).Consistent := by
  rcases handleAllocWorkDoneRunLoop_cases h.allocs res done with
    ⟨-, heq⟩ | ⟨hwork, r₁, hhandshakes, hallocs, heq⟩
  · rw [heq]
    exact h
  have hr₁ : r₁.Consistent := ⟨hhandshakes ▸ h.handshakes, hallocs ▸ h.allocs.forget hwork⟩
  rcases heq with heq | ⟨e, heq⟩
  · rw [heq]
    exact hr₁
  · rw [heq]
    exact hr₁.handleNewServerEndpointRunLoop res e

/-! ### Allocations for a new discovery -/

variable {wlb : EndpointWithLastBest} {dk : SortedPairOfDiscoPublic}

/-- A round of the loop, as long as all works of the endpoint are for the same disco keys. -/
theorem allocateServer
    (hdk : ∀ c w, r.allocs.byCandidatePeerRelayByEndpoint.find (wlb.ep, c) = some w →
      w.discoKeys = dk) (v : CandidatePeerRelay) : (r.allocateServer wlb dk v).Consistent ∧
      ∀ c w, (r.allocateServer wlb dk v).allocs.byCandidatePeerRelayByEndpoint.find (wlb.ep, c) =
        some w → w.discoKeys = dk := by
  have hfree : ¬(r.allocWorkByDiscoKeysByServerNodeKey.find (v.nodeKey, dk)).isSome →
      r.allocs.byCandidatePeerRelayByEndpoint.find (wlb.ep, v) = none := by
    intro hnone
    rw [eq_none_iff_forall_ne_some]
    intro w hw
    have hkey := congrArg Prod.snd (h.allocs.same.key_eq _ w hw)
    have hid := h.allocs.same.byID_of_byKey hw
    rw [AllocWork.serverKeys, show w.candidatePeerRelay = v from hkey, hdk v w hw] at hid
    exact hnone (isSome_iff_exists.2 ⟨w, hid⟩)
  unfold RelayManager.allocateServer
  split
  · exact ⟨h, hdk⟩
  next hnone =>
    refine ⟨⟨h.handshakes, h.allocs.add (w := r.newAllocWork wlb dk v) (hfree hnone)
      (not_isSome_iff_eq_none.1 hnone)⟩, ?_⟩
    intro c w hw
    change find (put _ _ _) _ = _ at hw
    rw [find_put, Function.update_apply] at hw
    split at hw
    · rw [← some.inj hw]
      rfl
    · exact hdk c w hw

theorem foldl_allocateServer
    (hdk : ∀ c w, r.allocs.byCandidatePeerRelayByEndpoint.find (wlb.ep, c) = some w →
      w.discoKeys = dk) (l : List CandidatePeerRelay) :
    (l.foldl (.allocateServer wlb dk) r).Consistent := by
  induction l generalizing r with
  | nil => exact h
  | cons v l ih =>
    obtain ⟨hstep, hdk'⟩ := h.allocateServer hdk v
    exact ih hstep hdk'

theorem allocateAllServersRunLoop
    (hfree : r.allocWorkByCandidatePeerRelayByEndpoint.maps.lookup wlb.ep = none)
    (localDisco : PublicKey) (remoteDisco : Option PublicKey) (rank : PublicKey → Nat) :
    (r.allocateAllServersRunLoop wlb localDisco remoteDisco rank).Consistent := by
  unfold RelayManager.allocateAllServersRunLoop
  split
  · exact h
  split
  · exact h
  · -- The endpoint has no work at first.
    refine h.foldl_allocateServer (fun c w hw => ?_) _
    have hnone := h.allocs.noEmptyByEndpoint.lookup_eq_none_iff.1 hfree c
    exact absurd (hw.symm.trans hnone) (some_ne_none w)

/-! ### The end of the work of an endpoint -/

theorem foldl_allocDone (ep : EndpointRef) {l : List AllocWork}
    (hl : ∀ c w, r.allocs.byCandidatePeerRelayByEndpoint.find (ep, c) = some w → w ∈ l) :
    (l.foldl (fun r w => r.handleAllocWorkDoneRunLoop res (res.allocDone w)) r).Consistent ∧
      (l.foldl (fun r w => r.handleAllocWorkDoneRunLoop res (res.allocDone w))
        r).allocs.Clear ep := by
  induction l generalizing r with
  | nil =>
    refine ⟨h, h.allocs.clear fun c => ?_⟩
    rw [eq_none_iff_forall_ne_some]
    exact fun w hw => not_mem_nil (hl c w hw)
  | cons w l ih =>
    refine ih (h.handleAllocWorkDoneRunLoop res (res.allocDone w)) ?_
    intro c w' hw'
    rw [allocs_handleAllocWorkDoneRunLoop h.allocs] at hw'
    split at hw'
    · change find (delete _ w.epCandidate) (ep, c) = _ at hw'
      rw [find_delete, Function.update_apply] at hw'
      split at hw'
      · cases hw'
      next hne =>
        refine (mem_cons.1 (hl c w' hw')).resolve_left ?_
        rintro rfl
        exact hne (h.allocs.same.key_eq _ w' hw').symm
    next hdone =>
      refine (mem_cons.1 (hl c w' hw')).resolve_left ?_
      rintro rfl
      apply hdone
      change r.allocs.byCandidatePeerRelayByEndpoint.find w'.epCandidate = some w'
      rw [h.allocs.same.key_eq _ w' hw', hw']

theorem foldl_handshakeDone (ep : EndpointRef) {l : List HandshakeWork}
    (hl : ∀ w, r.handshakes.Active w → w.wlb.ep = ep → w ∈ l) :
    (l.foldl (fun r w => r.handleHandshakeWorkDoneRunLoop (res.handshakeDone w)) r).Consistent ∧
      (l.foldl (fun r w => r.handleHandshakeWorkDoneRunLoop (res.handshakeDone w))
        r).handshakes.Clear ep ∧
      (l.foldl (fun r w => r.handleHandshakeWorkDoneRunLoop (res.handshakeDone w)) r).allocs =
        r.allocs := by
  induction l generalizing r with
  | nil =>
    refine ⟨h, h.handshakes.clear fun w hw hep => ?_, rfl⟩
    exact not_mem_nil (hl w hw hep)
  | cons w l ih =>
    have hstep := h.handleHandshakeWorkDoneRunLoop (res.handshakeDone w)
    obtain ⟨hhandshakes, hallocs⟩ :=
      handleHandshakeWorkDoneRunLoop_maps (r := r) (res.handshakeDone w)
    rw [← hallocs]
    refine ih hstep ?_
    intro w' hw' hep
    by_cases hw : r.handshakes.Active w
    · rw [handshakes_handshakeDone h.handshakes res hw, HandshakeMaps.active_forget hw] at hw'
      exact (mem_cons.1 (hl w' hw'.1 hep)).resolve_left hw'.2
    · rw [hhandshakes, if_neg] at hw'
      · refine (mem_cons.1 (hl w' hw' hep)).resolve_left ?_
        rintro rfl
        exact hw hw'
      · exact fun hfind => hw (h.handshakes.find_iff.1 hfind).1

theorem stopWorkRunLoop (ep : EndpointRef) (rankAllocs : CandidatePeerRelay → Nat)
    (rankHandshakes : PublicKey → Nat) :
    (r.stopWorkRunLoop res ep rankAllocs rankHandshakes).Consistent ∧
      (r.stopWorkRunLoop res ep rankAllocs rankHandshakes).allocs.Clear ep ∧
      (r.stopWorkRunLoop res ep rankAllocs rankHandshakes).handshakes.Clear ep := by
  rw [RelayManager.stopWorkRunLoop]
  have hfirst := h.foldl_allocDone res ep
    (l := valuesBy rankAllocs ((r.allocWorkByCandidatePeerRelayByEndpoint.maps.lookup ep).getD ∅))
    fun c w hw => mem_valuesBy_of_find rankAllocs hw
  generalize List.foldl _ r (valuesBy rankAllocs _) = r₁ at hfirst ⊢
  obtain ⟨hr₁, hclear⟩ := hfirst
  have hsecond : ∀ w, r₁.handshakes.Active w → w.wlb.ep = ep → w ∈ valuesBy rankHandshakes
      ((r₁.handshakeWorkByServerDiscoByEndpoint.maps.lookup ep).getD ∅) := by
    rintro w hw rfl
    exact mem_valuesBy_of_find (b := w.se.serverDisco) _ ((hr₁.handshakes.same.same w).2 hw)
  obtain ⟨hr₂, hhandshakes, hallocs⟩ := hr₁.foldl_handshakeDone res ep hsecond
  refine ⟨hr₂, ?_, hhandshakes⟩
  rw [hallocs]
  exact hclear

/-! ### Received messages -/

theorem rxHandshake (w : HandshakeWork) (event : RelayDiscoMsgEvent) (doneFirst : Bool) :
    (r.rxHandshake res w event doneFirst).Consistent := by
  rw [RelayManager.rxHandshake]
  split
  · exact h.handleHandshakeWorkDoneRunLoop _
  · exact h.of_eq rfl rfl

theorem handleRxDiscoMsgRunLoop (event : RelayDiscoMsgEvent) (doneFirst : Bool) :
    (r.handleRxDiscoMsgRunLoop res event doneFirst).Consistent := by
  unfold RelayManager.handleRxDiscoMsgRunLoop
  dsimp only
  split
  -- An allocation response, for which there may be a work.
  · split
    · exact h
    · split
      · exact h.handleAllocWorkDoneRunLoop res _
      · exact h.of_eq rfl rfl
  -- A challenge: the work starts to wait for a pong, unless it does so already.
  · split
    · exact h
    next w hw =>
      split
      · exact h
      next hpong =>
        split
        · exact h
        next hapv =>
          apply rxHandshake
          refine ⟨?_, h.allocs⟩
          exact h.handshakes.await (h.handshakes.lookup_iff.1 hw).1
            (not_isSome_iff_eq_none.1 hpong) (not_isSome_iff_eq_none.1 hapv)
  · have hrun (effect : RelayEffect) : (r.run effect).Consistent := h.of_eq rfl rfl
    split
    · exact hrun _
    · exact (hrun _).rxHandshake res _ event doneFirst
  · split
    · exact h
    · exact h.rxHandshake res _ event doneFirst
  · exact h

/-- **A round of the run loop keeps the maps consistent.** -/
theorem runLoop (input : RelayInput) : (r.runLoop input).Consistent := by
  unfold RelayManager.runLoop
  split
  · split
    · exact h
    next hidle =>
      apply h.allocateAllServersRunLoop
      rw [hasActiveWorkForEndpointRunLoop, Bool.not_eq_true, Bool.or_eq_false_iff] at hidle
      simpa using hidle.2
  · exact h.handleAllocWorkDoneRunLoop _ _
  · exact (h.stopWorkRunLoop _ _ _ _).1
  · exact h.handleNewServerEndpointRunLoop _ _
  · exact h.handleHandshakeWorkDoneRunLoop _
  · exact h.handleRxDiscoMsgRunLoop _ _ _
  all_goals exact h.of_eq rfl rfl

end Consistent

theorem consistent_init : Consistent {} where
  handshakes := {
    same := .empty
    noEmpty := .empty
    inverse := .empty
    active := fun _ _ h => absurd h.symm (some_ne_none _) }
  allocs := {
    same := .empty
    noEmptyByEndpoint := .empty
    noEmptyByServer := .empty }

/-- **The maps of the relay manager agree after every event**, in any order of events and
whatever the work comes to: the handshakes are the same in both of their maps, under keys
that match each work, and so are the allocations; works that wait for a pong are under way
and found by its address; and no inner map is empty.  An endpoint whose work was cancelled
has none left. -/
theorem relayManager_consistent (inputs : List RelayInput) :
    ∀ τ ∈ trace runLoop {} inputs, τ.after.Consistent ∧
      ∀ ep rankAllocs rankHandshakes, τ.act.event = .cancelWork ep rankAllocs rankHandshakes →
        τ.after.allocs.Clear ep ∧ τ.after.handshakes.Clear ep := by
  intro τ hτ
  obtain ⟨hbefore, hafter⟩ := invariant_of_mem_trace consistent_init (fun _ a h => h.runLoop a) hτ
  rw [hafter]
  refine ⟨hbefore.runLoop τ.act, fun ep rankAllocs rankHandshakes hact => ?_⟩
  have hstop := hbefore.stopWorkRunLoop τ.act.results ep rankAllocs rankHandshakes
  rw [runLoop, hact]
  exact hstop.2

/-- A peer for which a server is asked to relay. -/
def relayedPeer : EndpointWithLastBest := { ep := { ptr := 0, nodeID := 1, publicKey := 1 } }

/-- An allocation for the peer is done, the handshake gets to the point where it waits for a
pong, and the work is cancelled. -/
def cancelledInputs : List RelayInput :=
  let server : CandidatePeerRelay := ⟨2, 3, 1⟩
  let allocation : AllocWork := ⟨0, relayedPeer, newSortedPairOfDiscoPublic 5 4, server, 1⟩
  [.serverUpsert server,
    .startDiscovery relayedPeer 5 (some 4) fun _ => 0,
    .allocateWorkDone ⟨allocation, { serverDisco := 6, vni := 7, lamportID := 1 }⟩,
    .rxDiscoMsg { msg := .bindUDPRelayEndpointChallenge ⟨7, 1, 4, 0⟩, disco := 6,
                  source := ⟨.v4 1, 2⟩, vni := 7 } false,
    .cancelWork relayedPeer.ep (fun _ => 0) fun _ => 0].map fun event => { event }

theorem relayManager_consistent_cancelled :
    ∃ τ ∈ trace runLoop {} cancelledInputs,
      τ.before.handshakeWorkAwaitingPong.size = 1 ∧ τ.before.Consistent ∧
      τ.after.handshakes.Clear relayedPeer.ep := by
  have hlast : ∃ τ τ' as, trace runLoop {} cancelledInputs = as ++ [τ, τ'] ∧
      τ.after = τ'.before ∧ τ'.before.handshakeWorkAwaitingPong.size = 1 ∧
      τ'.act.event = .cancelWork relayedPeer.ep (fun _ => 0) fun _ => 0 :=
    ⟨_, _, [_, _, _], rfl, rfl, by decide, rfl⟩
  obtain ⟨τ, τ', as, htrace, hbetween, hsize, hcancel⟩ := hlast
  have hmem : ∀ x ∈ [τ, τ'], x ∈ trace runLoop {} cancelledInputs := by
    rw [htrace]
    exact fun x hx => mem_append_right _ hx
  have hτ' := hmem τ' (by simp)
  refine ⟨τ', hτ', hsize, ?_, ((relayManager_consistent _ τ' hτ').2 _ _ _ hcancel).2⟩
  rw [← hbetween]
  exact (relayManager_consistent _ τ (hmem τ (by simp))).1

end RelayManager

end Multiport.Magicsock

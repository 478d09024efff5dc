import Multiport.Magicsock.RelayWork

/-!
# Newer server endpoints

A server counts its allocations with a Lamport clock.  When the relay manager
learns of a server endpoint it looks for handshakes in the way, first for the
same server disco and VNI and then for the same endpoint and server disco, and
cancels those with a smaller `LamportID`.

Work is only ever replaced by newer work (`Newer`).  An event that is older than
the second work does not always leave everything alone (`Fresh`): an older work
under the first key is over by then, because the event shows that the server has
allocated its VNI again.  `Ordered` is what happens to such events.
-/

namespace Multiport.Magicsock

open Disco Lib Net Tailcfg List Option

namespace HandshakeMaps

variable {m m' : HandshakeMaps} {w w' : HandshakeWork} {e : NewRelayServerEndpointEvent}

/-- Work is only replaced by newer work. -/
structure Newer (m m' : HandshakeMaps) : Prop where
  replacedVNI : ∀ k w w', m.byServerDiscoVNI.lookup k = some w →
    m'.byServerDiscoVNI.lookup k = some w' → w' ≠ w → w.se.lamportID < w'.se.lamportID
  replacedEndpoint : ∀ k w w', m.byServerDiscoByEndpoint.find k = some w →
    m'.byServerDiscoByEndpoint.find k = some w' → w' ≠ w → w.se.lamportID < w'.se.lamportID

/-- An event that is not newer than the work under one of its keys changes nothing. -/
structure Fresh (m : HandshakeMaps) (e : NewRelayServerEndpointEvent) (m' : HandshakeMaps) : Prop
    extends Newer m m' where
  stale : ∀ w, m.byServerDiscoVNI.lookup e.sdv = some w ∨
      m.byServerDiscoByEndpoint.find e.epServer = some w →
    e.se.lamportID ≤ w.se.lamportID → m' = m

/-- An event that is not newer than the work for its server disco and VNI changes nothing.
One that is not newer than the work for its endpoint and server disco only ends an older
work for its server disco and VNI. -/
structure Ordered (m : HandshakeMaps) (e : NewRelayServerEndpointEvent) (m' : HandshakeMaps) : Prop
    extends Newer m m' where
  staleVNI : ∀ w₁, m.byServerDiscoVNI.lookup e.sdv = some w₁ →
    e.se.lamportID ≤ w₁.se.lamportID → m' = m
  staleEndpoint : ∀ w₂, m.byServerDiscoByEndpoint.find e.epServer = some w₂ →
    e.se.lamportID ≤ w₂.se.lamportID → (m.byServerDiscoVNI.lookup e.sdv = none → m' = m) ∧
      ∀ w₁, m.byServerDiscoVNI.lookup e.sdv = some w₁ → w₁.se.lamportID < e.se.lamportID →
        m' = m.forget w₁

theorem Consistent.eq_of_epServer (h : m.Consistent) (hw : m.Active w) (hw' : m.Active w')
    (heq : w'.epServer = w.epServer) : w' = w := by
  have hfind := h.find_iff.2 ⟨hw', heq⟩
  exact Option.mem_unique hfind (h.find_iff.2 ⟨hw, rfl⟩)

theorem active_add (hid : m.byServerDiscoVNI.lookup w.sdv = none) :
    (m.add w).Active w' ↔ m.Active w' ∨ w' = w := by
  change (m.byServerDiscoVNI.insert w.sdv w).lookup w'.sdv = some w' ↔ _
  rw [GoMap.lookup_insert_eq]
  split
  next heq =>
    have hnot : ¬m.Active w' := by
      intro hw'
      rw [Active, heq, hid] at hw'
      cases hw'
    rw [or_iff_right hnot, some_inj]
    exact eq_comm
  next hne =>
    refine (or_iff_left ?_).symm
    rintro rfl
    exact hne rfl

theorem Newer.refl (m : HandshakeMaps) : m.Newer m where
  replacedVNI _ _ _ hw hw' hne := absurd (Option.mem_unique hw' hw) hne
  replacedEndpoint _ _ _ hw hw' hne := absurd (Option.mem_unique hw' hw) hne

/-- Works may go at any time.  A work for the event may come when all works under its keys
are older. -/
theorem Consistent.newer (h : m.Consistent) (h' : m'.Consistent)
    (hnew : ∀ w, m'.Active w → m.Active w ∨ (w.wlb = e.wlb ∧ w.se = e.se) ∧
      ∀ w₀, m.Active w₀ → w₀.sdv = e.sdv ∨ w₀.epServer = e.epServer →
        w₀.se.lamportID < e.se.lamportID) : m.Newer m' where
  replacedVNI k w w' hw hw' hne := by
    obtain ⟨hactive, hk⟩ := h.lookup_iff.1 hw
    obtain ⟨hactive', hk'⟩ := h'.lookup_iff.1 hw'
    rcases hnew w' hactive' with hkept | ⟨⟨hwlb, hse⟩, hold⟩
    · exact absurd (hactive.eq_of_sdv hkept (hk'.trans hk.symm)) hne
    · rw [hse]
      apply hold w hactive
      left
      rw [hk, ← hk', HandshakeWork.sdv, hse]
      rfl
  replacedEndpoint k w w' hw hw' hne := by
    obtain ⟨hactive, hk⟩ := h.find_iff.1 hw
    obtain ⟨hactive', hk'⟩ := h'.find_iff.1 hw'
    rcases hnew w' hactive' with hkept | ⟨⟨hwlb, hse⟩, hold⟩
    · exact absurd (h.eq_of_epServer hactive hkept (hk'.trans hk.symm)) hne
    · rw [hse]
      apply hold w hactive
      right
      rw [hk, ← hk', HandshakeWork.epServer, hwlb, hse]
      rfl

end HandshakeMaps

namespace RelayManager

variable {r : RelayManager} {e : NewRelayServerEndpointEvent}

theorem active_startHandshake (hid : r.handshakeWorkByServerDiscoVNI.lookup e.sdv = none)
    {w : HandshakeWork} (hw : (r.startHandshake e).handshakes.Active w) :
    r.handshakes.Active w ∨ w.wlb = e.wlb ∧ w.se = e.se := by
  rcases (startHandshake_maps e).2 with heq | ⟨new, hwlb, hse, heq⟩
  · rw [heq] at hw
    exact .inl hw
  have hsdv : new.sdv = e.sdv := by
    rw [HandshakeWork.sdv, hse]
    rfl
  rw [heq, HandshakeMaps.active_add (by rw [hsdv]; exact hid)] at hw
  rcases hw with hw | rfl
  · exact .inl hw
  · exact .inr ⟨hwlb, hse⟩

section

variable (h : r.Consistent) (res : Results)

include h

/-- The second check: either the work in the way is not older, and nothing happens, or it is
and goes. -/
theorem supersedeByEndpoint_cases (hid : r.handshakeWorkByServerDiscoVNI.lookup e.sdv = none) :
    (∃ w, r.handshakes.Active w ∧ w.epServer = e.epServer ∧
        e.se.lamportID ≤ w.se.lamportID ∧ r.supersedeByEndpoint res e = r) ∨
      (∀ w, r.handshakes.Active w → w.epServer = e.epServer → w.se.lamportID < e.se.lamportID) ∧
        ∀ w, (r.supersedeByEndpoint res e).handshakes.Active w →
          r.handshakes.Active w ∨ w.wlb = e.wlb ∧ w.se = e.se := by
  rw [supersedeByEndpoint]
  cases hkey : r.handshakeWorkByServerDiscoByEndpoint.find e.epServer with
  | none =>
    refine .inr ⟨fun w hw hw' => ?_, fun w hw => active_startHandshake hid hw⟩
    exact absurd ((h.handshakes.find_iff.2 ⟨hw, hw'⟩).symm.trans hkey) (some_ne_none w)
  | some existing =>
    obtain ⟨hactive, hexisting⟩ := h.handshakes.find_iff.1 hkey
    dsimp only
    split
    next hle => exact .inl ⟨existing, hactive, hexisting, hle, rfl⟩
    next hlt =>
      right
      refine ⟨fun w hw hw' => ?_, fun w hw => ?_⟩
      · obtain rfl := h.handshakes.eq_of_epServer hactive hw (hw'.trans hexisting.symm)
        exact BitVec.not_le.1 hlt
      · have hfree := h.lookup_eq_none_of_handshakeDone res hactive (.inr hid)
        refine (active_startHandshake hfree hw).imp_left ?_
        rw [handshakes_handshakeDone h.handshakes res hactive,
          HandshakeMaps.active_forget hactive]
        exact And.left

/-- A server endpoint when no work has its server disco and VNI. -/
theorem Consistent.ordered_of_lookup_none
    (hid : r.handshakeWorkByServerDiscoVNI.lookup e.sdv = none) :
    r.handshakes.Ordered e (r.supersedeByEndpoint res e).handshakes := by
  have hnone (w : HandshakeWork) : r.handshakes.byServerDiscoVNI.lookup e.sdv ≠ some w :=
    fun hw => some_ne_none w (hw.symm.trans hid)
  rcases supersedeByEndpoint_cases h res hid with ⟨w₂, -, -, -, heq⟩ | ⟨hold, hnew⟩
  · rw [heq]
    exact {
      HandshakeMaps.Newer.refl r.handshakes with
      staleVNI := fun _ _ _ => rfl
      staleEndpoint := fun _ _ _ => ⟨fun _ => rfl, fun w₁ hw₁ => absurd hw₁ (hnone w₁)⟩ }
  · have hnewer : r.handshakes.Newer (r.supersedeByEndpoint res e).handshakes := by
      apply h.handshakes.newer (h.supersedeByEndpoint res hid).handshakes
      refine fun w hw => (hnew w hw).imp_right fun hwork => ⟨hwork, fun w₀ hw₀ hkeys => ?_⟩
      refine hold w₀ hw₀ (hkeys.resolve_left fun hsdv => ?_)
      exact hnone w₀ (h.handshakes.lookup_iff.2 ⟨hw₀, hsdv⟩)
    refine { hnewer with staleVNI := fun w₁ hw₁ => absurd hw₁ (hnone w₁), staleEndpoint := ?_ }
    intro w₂ hw₂ hle
    obtain ⟨hactive, hkey⟩ := h.handshakes.find_iff.1 hw₂
    exact absurd (hold w₂ hactive hkey) (BitVec.not_lt.2 hle)

/-- A server endpoint when an older work has its server disco and VNI. -/
theorem Consistent.ordered_of_older {w₁}
    (hid : r.handshakeWorkByServerDiscoVNI.lookup e.sdv = some w₁)
    (hlt : w₁.se.lamportID < e.se.lamportID) :
    r.handshakes.Ordered e ((r.handleHandshakeWorkDoneRunLoop
      (res.handshakeDone w₁)).supersedeByEndpoint res e).handshakes := by
  obtain ⟨hactive, hsdv⟩ := h.handshakes.lookup_iff.1 hid
  have hr₁ := h.handleHandshakeWorkDoneRunLoop (res.handshakeDone w₁)
  have hfree := h.lookup_eq_none_of_handshakeDone res hactive (.inl hsdv)
  have hforget := handshakes_handshakeDone h.handshakes res hactive
  generalize r.handleHandshakeWorkDoneRunLoop (res.handshakeDone w₁) = r₁ at hr₁ hfree hforget ⊢
  have hactive₁ (w : HandshakeWork) : r₁.handshakes.Active w ↔
      r.handshakes.Active w ∧ w ≠ w₁ := by
    rw [hforget, HandshakeMaps.active_forget hactive]
  have hnew₁ (w : HandshakeWork) (hw : (r₁.supersedeByEndpoint res e).handshakes.Active w) :
      r.handshakes.Active w ∨ (w.wlb = e.wlb ∧ w.se = e.se) ∧
        ∀ w₀, r.handshakes.Active w₀ → w₀.sdv = e.sdv ∨ w₀.epServer = e.epServer →
          w₀.se.lamportID < e.se.lamportID := by
    rcases supersedeByEndpoint_cases hr₁ res hfree with ⟨-, -, -, -, heq⟩ | ⟨hold, hnew⟩
    · rw [heq, hactive₁] at hw
      exact .inl hw.1
    refine (hnew w hw).imp (fun hw => ((hactive₁ w).1 hw).1)
      fun hwork => ⟨hwork, fun w₀ hw₀ hkeys => ?_⟩
    by_cases heq : w₀ = w₁
    · rw [heq]
      exact hlt
    · refine hold w₀ ((hactive₁ w₀).2 ⟨hw₀, heq⟩) (hkeys.resolve_left fun hsdv₀ => ?_)
      exact heq (hactive.eq_of_sdv hw₀ (hsdv₀.trans hsdv.symm))
  refine {
    h.handshakes.newer (hr₁.supersedeByEndpoint res hfree).handshakes hnew₁ with
    staleVNI := ?_, staleEndpoint := ?_ }
  · intro w hw hle
    rw [← Option.mem_unique hid hw] at hle
    exact absurd hlt (BitVec.not_lt.2 hle)
  · intro w₂ hw₂ hle
    refine ⟨fun hnone => absurd (hid.symm.trans hnone) (some_ne_none w₁), ?_⟩
    intro w hw _
    rw [← Option.mem_unique hid hw, ← hforget]
    rcases supersedeByEndpoint_cases hr₁ res hfree with ⟨-, -, -, -, heq⟩ | ⟨hold, -⟩
    · rw [heq]
    -- The second work is not the first one, so that it is still there.
    obtain ⟨hactive₂, hkey⟩ := h.handshakes.find_iff.1 hw₂
    have hne : w₂ ≠ w₁ := by
      rintro rfl
      exact BitVec.not_lt.2 hle hlt
    exact absurd (hold w₂ ((hactive₁ w₂).2 ⟨hactive₂, hne⟩) hkey) (BitVec.not_lt.2 hle)

theorem Consistent.ordered (e : NewRelayServerEndpointEvent) :
    r.handshakes.Ordered e (r.handleNewServerEndpointRunLoop res e).handshakes := by
  rw [RelayManager.handleNewServerEndpointRunLoop]
  cases hid : r.handshakeWorkByServerDiscoVNI.lookup e.sdv with
  | none => exact h.ordered_of_lookup_none res hid
  | some w₁ =>
    dsimp only
    split
    next hle =>
      refine {
        HandshakeMaps.Newer.refl r.handshakes with
        staleVNI := fun _ _ _ => rfl
        staleEndpoint := fun _ _ _ => ⟨fun _ => rfl, fun w hw hlt => ?_⟩ }
      rw [← Option.mem_unique hid hw] at hlt
      exact absurd hlt (BitVec.not_lt.2 hle)
    next hlt => exact h.ordered_of_older res hid (BitVec.not_le.1 hlt)

end

/-- **The Lamport clock along a run**: after any events, an event for a server endpoint
replaces work only by newer work.  It changes nothing if it is not newer than the work for
its server disco and VNI, and if it is not newer than the work for its endpoint and server
disco it only ends an older work for its server disco and VNI. -/
theorem newServerEndpoint_ordered (inputs : List RelayInput) :
    ∀ τ ∈ trace runLoop {} inputs, ∀ e, τ.act.event = .newServerEndpoint e →
      τ.before.handshakes.Ordered e τ.after.handshakes := by
  intro τ hτ e he
  obtain ⟨hbefore, hafter⟩ := invariant_of_mem_trace consistent_init (fun _ a h => h.runLoop a) hτ
  rw [hafter, runLoop, he]
  exact hbefore.ordered τ.act.results e

/-- A server endpoint of the server 9 for one of two peers. -/
def serverEndpointFor (ptr : Nat) (vni : BitVec 32) (lamportID : BitVec 64) :
    NewRelayServerEndpointEvent where
  wlb := { ep := { ptr, nodeID := ptr, publicKey := BitVec.ofNat 256 ptr } }
  se := { serverDisco := 9, vni, lamportID }

/-- The server has an endpoint for the first peer, a newer one with another VNI for the second
peer, and one for the second peer that has the VNI of the first and is between them. -/
def crossedInputs : List RelayInput :=
  [serverEndpointFor 1 1 1, serverEndpointFor 2 2 10, serverEndpointFor 2 1 5].map fun e =>
    { event := .newServerEndpoint e }

theorem newServerEndpoint_ordered_crossed :
    ∃ τ ∈ trace runLoop {} crossedInputs,
      τ.act.event = .newServerEndpoint (serverEndpointFor 2 1 5) ∧
      τ.before.handshakes.Ordered (serverEndpointFor 2 1 5) τ.after.handshakes := by
  have hlast : ∃ τ ∈ trace runLoop {} crossedInputs,
      τ.act.event = .newServerEndpoint (serverEndpointFor 2 1 5) :=
    ⟨_, mem_cons_of_mem _ (mem_cons_of_mem _ mem_cons_self), rfl⟩
  obtain ⟨τ, hτ, hact⟩ := hlast
  exact ⟨τ, hτ, hact, newServerEndpoint_ordered crossedInputs τ hτ _ hact⟩

/-- **The third event ends the handshake of the first peer and starts none**, although the
second peer has a newer one. -/
theorem newServerEndpoint_not_fresh :
    ∃ τ ∈ trace runLoop {} crossedInputs,
      τ.act.event = .newServerEndpoint (serverEndpointFor 2 1 5) ∧
      ¬τ.before.handshakes.Fresh (serverEndpointFor 2 1 5) τ.after.handshakes ∧
      τ.before.handshakeWorkByServerDiscoVNI.size = 2 ∧
      τ.after.handshakeWorkByServerDiscoVNI.size = 1 ∧
      τ.after.handshakeWorkByServerDiscoVNI.lookup ⟨9, 1⟩ = none := by
  refine ⟨_, mem_cons_of_mem _ (mem_cons_of_mem _ mem_cons_self), rfl,
    fun hfresh => ?_, by decide, by decide, by decide⟩
  have hsame := hfresh.stale ⟨1, (serverEndpointFor 2 2 10).wlb, (serverEndpointFor 2 2 10).se,
    ⟨0, 0, 0⟩, 2⟩ (.inr (by decide)) (by decide)
  have hsize := congrArg (fun m => m.byServerDiscoVNI.size) hsame
  revert hsize
  decide

end RelayManager

end Multiport.Magicsock

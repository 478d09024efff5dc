import Multiport.Control.DiscoScreen

/-!
# Runs of a map session

Handling a response can panic at a node that is not upgraded, and at a peer without a last-seen
time.  In a session only the second happens: every node goes through `upgradeNode` first.
-/

namespace Multiport.Control

open Lib Tailcfg List MapResponse MapSession

variable {H : Type}

/-! ## Upgraded nodes -/

/-- `net.SplitHostPort`; `none` is any of its errors. -/
def splitHostPort (s : List Char) : Option (List Char × List Char) :=
  if ':' ∉ s then none
  else
    -- The port starts after the last colon.
    let port := (s.reverse.takeWhile (· ≠ ':')).reverse
    let host := ((s.reverse.dropWhile (· ≠ ':')).drop 1).reverse
    if s.head? = some '[' then
      if host.getLast? = some ']' ∧ ']' ∉ host.dropLast ∧ '[' ∉ s.tail ∧ ']' ∉ port then
        some (host.tail.dropLast, port)
      else none
    else if ':' ∈ host ∨ '[' ∈ s ∨ ']' ∈ s then none
    else some (host, port)

/-- `strconv.Atoi` on a machine with 64 bits. -/
def atoi (s : List Char) : Option Int :=
  let negative := s.head? = some '-'
  let digits := if negative ∨ s.head? = some '+' then s.tail else s
  let n : Int := digits.foldl (fun n c => 10 * n + (c.toNat - 48)) 0
  let n := if negative then -n else n
  if digits ≠ [] ∧ digits.all Char.isDigit ∧ -2 ^ 63 ≤ n ∧ n < 2 ^ 63 then some n else none

/-- `tailcfg.DerpMagicIP`. -/
def derpMagicIP : List Char := "127.3.3.40".toList

/-- The home region that the old form of a node says. -/
def legacyHomeDERP (n : Node H) : Option Int := do
  let (ip, portStr) ← splitHostPort n.legacyDERPString.toList
  if ip = derpMagicIP then atoi portStr else none

example : legacyHomeDERP ({ legacyDERPString := "127.3.3.40:2" } : Node Unit) = some 2 := by decide

/-- A response that a session is sent, with two switches of the developer.  For the nodes in
`nilAllowedIPs` the list of allowed addresses is nil and not only empty. -/
structure Received (H : Type) where
  now : Time
  viaTSMP : Bool := false
  resp : MapResponse H
  nilAllowedIPs : Node H → Bool := fun _ => false
  stripEndpoints : Bool := false
  stripHomeDERP : Bool := false

namespace Received

def upgradeNode (r : Received H) (n : Node H) : Node H :=
  let home :=
    if n.legacyDERPString ≠ "" ∧ n.homeDERP = 0 then (legacyHomeDERP n).getD 0 else n.homeDERP
  { n with
    legacyDERPString := ""
    homeDERP := if r.stripHomeDERP then 0 else home
    allowedIPs := if r.nilAllowedIPs n then n.addresses else n.allowedIPs }

/-- What happens to the nodes of a response before it is patchified, but for their display
names. -/
def upgrade (r : Received H) (nodes : Slice (Node H)) : Slice (Node H) :=
  nodes.map fun ns => ns.map fun n =>
    { r.upgradeNode n with endpoints := if r.stripEndpoints then none else n.endpoints }

def upgraded (r : Received H) : MapResponse H :=
  { r.resp with
    peers := r.upgrade r.resp.peers
    peersChanged := r.upgrade r.resp.peersChanged }

theorem exists_of_mem_upgrade {r : Received H} {nodes} {n : Node H}
    (h : n ∈ (r.upgrade nodes).elems) : ∃ n₀ ∈ nodes.elems, n =
      { r.upgradeNode n₀ with endpoints := if r.stripEndpoints then none else n₀.endpoints } := by
  cases nodes with
  | none => cases h
  | some ns =>
    obtain ⟨n₀, hn₀, rfl⟩ := mem_map.1 h
    exact ⟨n₀, hn₀, rfl⟩

end Received

/-- The nodes of a response have been upgraded. -/
def NodesUpgraded (resp : MapResponse H) : Prop :=
  ∀ n ∈ resp.peers.elems ++ resp.peersChanged.elems, n.legacyDERPString = ""

theorem Received.nodesUpgraded (r : Received H) : NodesUpgraded r.upgraded := by
  refine forall_mem_append.2 ⟨fun n hn => ?_, fun n hn => ?_⟩
  all_goals
    obtain ⟨_, _, rfl⟩ := exists_of_mem_upgrade hn
    rfl

/-! ## Runs -/

namespace MapSession

/-- The peers of a session have been upgraded. -/
def Upgraded (ms : MapSession H) : Prop :=
  ∀ k n, ms.peers.lookup k = some n → n.legacyDERPString = ""

variable {ms : MapSession H} {resp : MapResponse H}

theorem Upgraded.update (h : ms.Upgraded) (now : Time) (hresp : NodesUpgraded resp) :
    (ms.updatePeersStateFromResponse now resp).1.Upgraded := by
  intro k n hn
  change (updatePeers now ms.peers resp).1.lookup k = some n at hn
  unfold updatePeers at hn
  split at hn
  · rw [replacePeers, GoMap.lookup_deleteWhere] at hn
    have hset := Option.eq_some_of_filter_eq_some hn
    rw [lookup_foldl_setPeer, Option.or_eq_some_iff] at hset
    rcases hset with hnew | ⟨-, hold⟩
    · exact hresp n (mem_append_left _ (mem_of_mem_filter (mem_of_getLast? hnew)))
    · exact h k n hold
  · rw [lookup_applyDelta, Option.map_eq_some_iff] at hn
    obtain ⟨b, hb, rfl⟩ := hn
    rw [base, Option.or_eq_some_iff] at hb
    rcases hb with hnew | ⟨-, hold⟩
    · exact hresp b (mem_append_right _ (mem_of_mem_filter (mem_of_getLast? hnew)))
    · split at hold
      · cases hold
      · exact h k b hold

theorem exists_screened (hresp : NodesUpgraded resp)
    (hr : ∀ peer ∈ resp.peers.elems, ¬ Unstamped ms peer) :
    ∃ resp', ms.removeUnwantedDiscoUpdatesFromFullNetmapUpdate resp = .ok resp' ∧
      NodesUpgraded resp' := by
  unfold removeUnwantedDiscoUpdatesFromFullNetmapUpdate
  split
  · exact ⟨resp, rfl, hresp⟩
  obtain ⟨hpeers, hchanged⟩ := forall_mem_append.1 hresp
  obtain ⟨peers, hscreen⟩ :=
    exists_mapM_eq_ok_iff.2 fun peer hpeer => (exists_screenPeer_iff peer).2 (hr peer hpeer)
  have hkept := mapM_eq_ok_iff.1 hscreen
  rw [hscreen]
  clear hscreen
  refine ⟨_, rfl, forall_mem_append.2 ⟨?_, hchanged⟩⟩
  generalize resp.peers.elems = old at hpeers hkept
  induction hkept with
  | nil => exact hpeers
  | cons hpeer _ ih =>
    obtain ⟨hlegacy, hpeers⟩ := forall_mem_cons.1 hpeers
    rw [(screenPeer_spec hpeer).frame]
    exact forall_mem_cons.2 ⟨hlegacy, ih hpeers⟩

variable [DecidableEq H]

/-- The session after a response. -/
def receive (ms : MapSession H) (r : Received H) : Except String (MapSession H) :=
  ms.handleMapResponse r.now r.viaTSMP r.upgraded

theorem Upgraded.receive (h : ms.Upgraded) (r : Received H)
    (hr : ∀ peer ∈ r.resp.peers.elems, ¬ Unstamped ms peer) :
    ∃ ms', ms.receive r = .ok ms' ∧ ms'.Upgraded := by
  obtain ⟨hpeers, hchanged⟩ := forall_mem_append.1 r.nodesUpgraded
  have hstamped : ∀ peer ∈ r.upgraded.peers.elems, ¬ Unstamped ms peer := by
    intro peer hpeer
    obtain ⟨n, hn, rfl⟩ := Received.exists_of_mem_upgrade hpeer
    exact hr n hn
  obtain ⟨resp, hpatch⟩ := patchifyPeersChanged_total h hchanged
  have hok := patchifyPeersChanged_ok hpatch
  have hresp : NodesUpgraded (ms.removeUnwantedDiscoUpdates resp r.viaTSMP) := by
    refine forall_mem_append.2 ⟨hok.peers ▸ hpeers, fun n hn => hchanged n ?_⟩
    exact mem_of_mem_filter (hok.peersChanged ▸ hn)
  obtain ⟨resp', hscreen, hresp'⟩ := exists_screened hresp (hok.peers ▸ hstamped)
  simp only [MapSession.receive, handleMapResponse, hpatch, hscreen, bind, Except.bind]
  split
  · exact ⟨ms, rfl, h⟩
  · exact ⟨_, rfl, h.update r.now hresp'⟩

end MapSession

end Multiport.Control

import Multiport.Lib.Maps
import Multiport.Net.Packet

/-!
# Masquerading and jailing by peer

`net/tstun` rewrites the addresses of packets to and from peers that know this node by another
address, and asks whether a packet is to or from a jailed peer.  The peer of a packet is found by
its remote address in a table that holds only the peers with a configuration of their own.

WireGuard finds the peer of an address among all peers (`owner`).  The two agree on an address
unless WireGuard gives it to a peer that is not in the table, while a shorter prefix of a peer in
the table contains it too.
-/

namespace Multiport.Tstun

open Lib Net List

/-- `wgcfg.Peer`, as far as it is read here. -/
structure Peer where
  allowedIPs : List Prefix := []
  v4MasqAddr : Option Addr := none
  v6MasqAddr : Option Addr := none
  isJailed : Bool := false
  deriving DecidableEq, Repr

/-- `wgcfg.Config`, as far as it is read here. -/
structure Config where
  addresses : List Prefix := []
  peers : List Peer := []
  deriving DecidableEq, Repr

structure PeerConfig where
  dstMasqAddr4 : Addr := .zero
  dstMasqAddr6 : Addr := .zero
  jailed : Bool := false
  deriving DecidableEq, Repr

/-- `peerConfigTable`, with the calls of `Insert` on its `byIP`. -/
structure PeerConfigTable where
  nativeAddr4 : Addr := .zero
  nativeAddr6 : Addr := .zero
  byIP : List (Prefix × PeerConfig) := []
  masqAddrCounts : GoMap Addr Nat := ∅

/-! ## Building the table -/

def findV4 (addrs : List Prefix) : Addr :=
  ((addrs.map (·.addr)).find? fun a => a.is4 && Tsaddr.isTailscaleIP a).getD .zero

def findV6 (addrs : List Prefix) : Addr :=
  ((addrs.map (·.addr)).find? fun a => a.is6 && Tsaddr.isTailscaleIP a).getD .zero

/-- What a masquerade address of a peer points to, if it is valid. -/
def validMasq (masq : Option Addr) : Option Addr := masq.filter (·.isValid)

def Peer.isExitNode (p : Peer) : Bool :=
  p.allowedIPs.contains Tsaddr.allIPv4 || p.allowedIPs.contains Tsaddr.allIPv6

/-- `exitNodeRequiresMasq`: the first exit node has a masquerade address. -/
def exitNodeRequiresMasq (peers : List Peer) : Bool :=
  match peers.find? (·.isExitNode) with
  | none => false
  | some p => (validMasq p.v4MasqAddr).isSome || (validMasq p.v6MasqAddr).isSome

/-- The address to use for a peer in one address family. -/
def addrToUse (exitNodeRequiresMasq : Bool) (native : Addr) (masq : Option Addr) : Addr :=
  let addr := (validMasq masq).getD .zero
  if exitNodeRequiresMasq ∧ ¬ addr.isValid ∧ native.isValid then native else addr

/-- `masqAddrCounts[addr]++`. -/
def countMasq (counts : GoMap Addr Nat) (masq : Option Addr) : GoMap Addr Nat :=
  match validMasq masq with
  | none => counts
  | some addr => counts.insert addr ((counts.lookup addr).getD 0 + 1)

def Peer.config (exitNodeRequiresMasq : Bool) (native4 native6 : Addr) (p : Peer) : PeerConfig where
  dstMasqAddr4 := addrToUse exitNodeRequiresMasq native4 p.v4MasqAddr
  dstMasqAddr6 := addrToUse exitNodeRequiresMasq native6 p.v6MasqAddr
  jailed := p.isJailed

/-- Whether a configuration is put in the table. -/
def PeerConfig.required (c : PeerConfig) : Bool :=
  c.dstMasqAddr4.isValid || c.dstMasqAddr6.isValid || c.jailed

/-- One round of the loop over the peers, with `byIPSize`. -/
def addPeer (exitNodeRequiresMasq : Bool) (x : PeerConfigTable × Nat) (p : Peer) :
    PeerConfigTable × Nat :=
  let ret := { x.1 with
    masqAddrCounts := countMasq (countMasq x.1.masqAddrCounts p.v4MasqAddr) p.v6MasqAddr }
  let pc := p.config exitNodeRequiresMasq ret.nativeAddr4 ret.nativeAddr6
  if !pc.required then (ret, x.2)
  else
    ({ ret with byIP := ret.byIP ++ p.allowedIPs.map fun ip => (ip, pc) },
      x.2 + p.allowedIPs.length)

def peerConfigTableFromWGConfig (wcfg : Option Config) : Option PeerConfigTable :=
  match wcfg with
  | none => none
  | some wcfg =>
    let nativeAddr4 := findV4 wcfg.addresses
    let nativeAddr6 := findV6 wcfg.addresses
    if ¬ nativeAddr4.isValid ∧ ¬ nativeAddr6.isValid then none
    else
      let (ret, byIPSize) := wcfg.peers.foldl (addPeer (exitNodeRequiresMasq wcfg.peers))
        ({ nativeAddr4, nativeAddr6 }, 0)
      if byIPSize = 0 ∧ ret.masqAddrCounts.size = 0 then none else some ret

/-! ## Reading the table -/

section Reading

variable (t : BartTable PeerConfig) (pc : Option PeerConfigTable)

def mapDstIP (src oldDst : Addr) : Addr :=
  match pc with
  | none => oldDst
  | some pc =>
    match t.lookup pc.byIP src with
    | none => oldDst
    | some c =>
      if oldDst.is4 ∧ pc.nativeAddr4.isValid ∧ c.dstMasqAddr4 = oldDst then pc.nativeAddr4
      else if oldDst.is6 ∧ pc.nativeAddr6.isValid ∧ c.dstMasqAddr6 = oldDst then pc.nativeAddr6
      else oldDst

def selectSrcIP (oldSrc dst : Addr) : Addr :=
  match pc with
  | none => oldSrc
  | some pc =>
    if oldSrc.is4 ∧ oldSrc ≠ pc.nativeAddr4 then oldSrc
    else if oldSrc.is6 ∧ oldSrc ≠ pc.nativeAddr6 then oldSrc
    else
      match t.lookup pc.byIP dst with
      | none => oldSrc
      | some c =>
        if oldSrc.is4 ∧ c.dstMasqAddr4.isValid then c.dstMasqAddr4
        else if oldSrc.is6 ∧ c.dstMasqAddr6.isValid then c.dstMasqAddr6
        else oldSrc

/-- Whether the configuration for an address is that of a jailed peer. -/
def isJailed (addr : Addr) : Bool :=
  match pc with
  | none => false
  | some pc =>
    match t.lookup pc.byIP addr with
    | none => false
    | some c => c.jailed

def inboundPacketIsJailed (p : Parsed) : Bool := isJailed t pc p.src.addr

def outboundPacketIsJailed (p : Parsed) : Bool := isJailed t pc p.dst.addr

end Reading

/-! ## What WireGuard does -/

/-- The address families. -/
inductive Family
  | v4
  | v6
  deriving DecidableEq, Repr

/-- The family of a valid address. -/
def family : Addr → Option Family
  | .zero => none
  | .v4 _ => some .v4
  | .v6 _ _ => some .v6

def Peer.masqAddr (p : Peer) : Family → Option Addr
  | .v4 => p.v4MasqAddr
  | .v6 => p.v6MasqAddr

def PeerConfig.dstMasqAddr (c : PeerConfig) : Family → Addr
  | .v4 => c.dstMasqAddr4
  | .v6 => c.dstMasqAddr6

namespace Config

variable (cfg : Config)

/-- The native address of a family. -/
def native : Family → Addr
  | .v4 => findV4 cfg.addresses
  | .v6 => findV6 cfg.addresses

/-- The prefixes of all peers. -/
def routes : List (Prefix × Peer) := cfg.peers.flatMap fun p => p.allowedIPs.map fun ip => (ip, p)

/-- The peer WireGuard routes an address to. -/
def owner (addr : Addr) : Option Peer := (longestMatch cfg.routes addr).map Prod.snd

/-- The source of a packet to an address: a native source becomes the masquerade address of the
peer that owns the destination. -/
def masqueradedSrc (oldSrc dst : Addr) : Addr :=
  match family oldSrc, cfg.owner dst with
  | some fam, some p =>
    if oldSrc = cfg.native fam then (validMasq (p.masqAddr fam)).getD oldSrc else oldSrc
  | _, _ => oldSrc

/-- The destination of a packet from an address: the masquerade address of the peer that owns the
source becomes the native address. -/
def unmasqueradedDst (src oldDst : Addr) : Addr :=
  match family oldDst, cfg.owner src with
  | some fam, some p =>
    if (cfg.native fam).isValid ∧ p.masqAddr fam = some oldDst then cfg.native fam else oldDst
  | _, _ => oldDst

/-- Whether the peer that owns an address is jailed. -/
def ownerJailed (addr : Addr) : Bool := (cfg.owner addr).any (·.isJailed)

/-- The table treats every packet as the peer that owns its remote address asks for, and what was
masqueraded is mapped back. -/
structure Faithful (t : BartTable PeerConfig) : Prop where
  src : ∀ oldSrc dst, selectSrcIP t (peerConfigTableFromWGConfig (some cfg)) oldSrc dst =
    cfg.masqueradedSrc oldSrc dst
  dst : ∀ src oldDst, mapDstIP t (peerConfigTableFromWGConfig (some cfg)) src oldDst =
    cfg.unmasqueradedDst src oldDst
  inbound : ∀ p : Parsed, inboundPacketIsJailed t (peerConfigTableFromWGConfig (some cfg)) p =
    cfg.ownerJailed p.src.addr
  outbound : ∀ p : Parsed, outboundPacketIsJailed t (peerConfigTableFromWGConfig (some cfg)) p =
    cfg.ownerJailed p.dst.addr
  reply : ∀ fam remote, (cfg.native fam).isValid →
    mapDstIP t (peerConfigTableFromWGConfig (some cfg)) remote
      (selectSrcIP t (peerConfigTableFromWGConfig (some cfg)) (cfg.native fam) remote) =
        cfg.native fam

/-! ## When they agree -/

/-- The configuration of a peer, in this table. -/
def configOf (p : Peer) : PeerConfig :=
  p.config (exitNodeRequiresMasq cfg.peers) (cfg.native .v4) (cfg.native .v6)

/-- The peer with the longest prefix among those in the table. -/
def tableOwner (addr : Addr) : Option Peer :=
  (longestMatch (cfg.routes.filter fun e => (cfg.configOf e.2).required) addr).map Prod.snd

/-- A configuration that makes a difference: it jails, or it replaces a native address. -/
def Effective (c : PeerConfig) : Prop :=
  c.jailed ∨ ∃ fam, (cfg.native fam).isValid ∧ (c.dstMasqAddr fam).isValid ∧
    c.dstMasqAddr fam ≠ cfg.native fam

/-- No address of a peer that is not in the table gets a configuration that makes a difference. -/
def NoCapture : Prop :=
  ∀ addr p k, cfg.owner addr = some p → (cfg.configOf p).required = false →
    cfg.tableOwner addr = some k → ¬ cfg.Effective (cfg.configOf k)

/-- The masquerade addresses in use are of the family of the native address they replace. -/
def FamiliesMatch : Prop :=
  ∀ addr k fam, cfg.tableOwner addr = some k → (cfg.native fam).isValid →
    ((cfg.configOf k).dstMasqAddr fam).isValid →
      family ((cfg.configOf k).dstMasqAddr fam) = some fam

variable {cfg} {t : BartTable PeerConfig} {addr : Addr} {fam : Family}

/-- The entries of some peers in a table. -/
def entriesOf (exit : Bool) (native4 native6 : Addr) (routes : List (Prefix × Peer)) :
    List (Prefix × PeerConfig) :=
  (routes.filter fun e => (e.2.config exit native4 native6).required).map
    (Prod.map id (·.config exit native4 native6))

section Entries

variable (exit : Bool) (native4 native6 : Addr)

theorem entriesOf_append (l l' : List (Prefix × Peer)) : entriesOf exit native4 native6 (l ++ l') =
    entriesOf exit native4 native6 l ++ entriesOf exit native4 native6 l' := by
  simp [entriesOf]

theorem entriesOf_peer (p : Peer) (ips : List Prefix) :
    entriesOf exit native4 native6 (ips.map fun ip => (ip, p)) =
      if (p.config exit native4 native6).required then
        ips.map fun ip => (ip, p.config exit native4 native6)
      else [] := by
  cases hreq : (p.config exit native4 native6).required <;>
    simp [entriesOf, filter_map, Function.comp_def, hreq]

end Entries

/-- What one round of the loop adds to the table. -/
theorem addPeer_spec (exit : Bool) (x : PeerConfigTable × Nat) (p : Peer) :
    let added := entriesOf exit x.1.nativeAddr4 x.1.nativeAddr6 (p.allowedIPs.map fun ip => (ip, p))
    (addPeer exit x p).1.nativeAddr4 = x.1.nativeAddr4 ∧
      (addPeer exit x p).1.nativeAddr6 = x.1.nativeAddr6 ∧
      (addPeer exit x p).1.byIP = x.1.byIP ++ added ∧
      (addPeer exit x p).2 = x.2 + added.length := by
  rw [entriesOf_peer]
  cases hreq : (p.config exit x.1.nativeAddr4 x.1.nativeAddr6).required <;> simp [addPeer, hreq]

/-- What the loop over the peers leaves in the table. -/
theorem foldl_addPeer (exit : Bool) (peers : List Peer) (x : PeerConfigTable × Nat) :
    let added := entriesOf exit x.1.nativeAddr4 x.1.nativeAddr6
      (peers.flatMap fun p => p.allowedIPs.map fun ip => (ip, p))
    let y := peers.foldl (addPeer exit) x
    y.1.nativeAddr4 = x.1.nativeAddr4 ∧ y.1.nativeAddr6 = x.1.nativeAddr6 ∧
      y.1.byIP = x.1.byIP ++ added ∧ y.2 = x.2 + added.length := by
  induction peers generalizing x with
  | nil => simp [entriesOf]
  | cons p peers ih =>
    obtain ⟨h4, h6, hby, hsize⟩ := addPeer_spec exit x p
    obtain ⟨h4', h6', hby', hsize'⟩ := ih (addPeer exit x p)
    rw [h4, h6, hby] at hby'
    rw [h4, h6, hsize] at hsize'
    dsimp only
    rw [foldl_cons, flatMap_cons, entriesOf_append, length_append]
    refine ⟨h4'.trans h4, h6'.trans h6, ?_, ?_⟩
    · rw [hby', append_assoc]
    · rw [hsize', add_assoc]

/-- **The table of a configuration** holds the routes of the peers with a configuration of their
own; a table that is not there is like an empty one. -/
theorem exists_table (t : BartTable PeerConfig) (hnative : ∃ fam, (cfg.native fam).isValid) :
    ∃ r : PeerConfigTable, r.nativeAddr4 = cfg.native .v4 ∧ r.nativeAddr6 = cfg.native .v6 ∧
      (∀ addr, t.lookup r.byIP addr = (cfg.tableOwner addr).map cfg.configOf) ∧
      selectSrcIP t (peerConfigTableFromWGConfig (some cfg)) = selectSrcIP t (some r) ∧
      mapDstIP t (peerConfigTableFromWGConfig (some cfg)) = mapDstIP t (some r) ∧
      isJailed t (peerConfigTableFromWGConfig (some cfg)) = isJailed t (some r) := by
  have hvalid : ¬ (¬ (findV4 cfg.addresses).isValid = true ∧
      ¬ (findV6 cfg.addresses).isValid = true) := by
    rintro ⟨h4, h6⟩
    obtain ⟨fam, h⟩ := hnative
    cases fam with
    | v4 => exact h4 h
    | v6 => exact h6 h
  obtain ⟨h4, h6, hby, hsize⟩ := foldl_addPeer (exitNodeRequiresMasq cfg.peers) cfg.peers
    ({ nativeAddr4 := findV4 cfg.addresses, nativeAddr6 := findV6 cfg.addresses }, 0)
  simp only [peerConfigTableFromWGConfig]
  rw [if_neg hvalid]
  generalize cfg.peers.foldl (addPeer (exitNodeRequiresMasq cfg.peers))
    ({ nativeAddr4 := findV4 cfg.addresses, nativeAddr6 := findV6 cfg.addresses }, 0) =
      y at h4 h6 hby hsize
  have hlookup : ∀ addr, t.lookup y.1.byIP addr = (cfg.tableOwner addr).map cfg.configOf := by
    intro addr
    rw [hby, t.lookup_eq]
    change Option.map Prod.snd (longestMatch (List.map (Prod.map id _) _) addr) = _
    rw [longestMatch_map, tableOwner, Option.map_map, Option.map_map]
    rfl
  refine ⟨y.1, h4, h6, hlookup, ?_⟩
  by_cases hnil : y.2 = 0 ∧ y.1.masqAddrCounts.size = 0
  · have hempty : y.1.byIP = [] := by
      rw [hnil.1, zero_add] at hsize
      rw [hby]
      exact length_eq_zero_iff.1 hsize.symm
    have hnone : ∀ addr, t.lookup y.1.byIP addr = none := by
      intro addr
      rw [hempty, t.lookup_eq]
      rfl
    rw [if_pos hnil]
    refine ⟨?_, ?_, ?_⟩
    · funext oldSrc dst
      simp [selectSrcIP, hnone]
    · funext src oldDst
      simp [mapDstIP, hnone]
    · funext addr
      simp [isJailed, hnone]
  · rw [if_neg hnil]
    exact ⟨rfl, rfl, rfl⟩

/-! ## Configurations and peers -/

variable {a : Addr}

theorem family_eq_v4 (h : a.is4 = true) : family a = some .v4 := by
  cases a with
  | v4 a => rfl
  | zero | v6 a zone => cases h

theorem family_eq_v6 (h : a.is6 = true) : family a = some .v6 := by
  cases a with
  | v6 a zone => rfl
  | zero | v4 a => cases h

theorem isValid_of_family (h : family a = some fam) : a.isValid = true := by
  cases a with
  | zero => cases h
  | v4 a => rfl
  | v6 a zone => rfl

/-- An address that was searched for passes the test of the search. -/
theorem of_isValid_find {p : Addr → Bool} {l : List Addr}
    (h : ((l.find? p).getD .zero).isValid = true) : p ((l.find? p).getD .zero) = true := by
  cases hf : l.find? p with
  | none =>
    rw [hf] at h
    cases h
  | some a => exact List.find?_some hf

theorem family_native (h : (cfg.native fam).isValid = true) :
    family (cfg.native fam) = some fam := by
  cases fam with
  | v4 => exact family_eq_v4 ((Bool.and_eq_true _ _).mp (of_isValid_find h)).1
  | v6 => exact family_eq_v6 ((Bool.and_eq_true _ _).mp (of_isValid_find h)).1

/-- An address to use has the effect of the masquerade address of a peer: it is that address, or
there is none and nothing is replaced. -/
def Acts (native addr : Addr) (masq : Option Addr) : Prop :=
  validMasq masq = some addr ∨ validMasq masq = none ∧ (addr.isValid = false ∨ addr = native)

variable {masq : Option Addr}

theorem validMasq_eq_some :
    validMasq masq = some a ↔ masq = some a ∧ a.isValid = true := Option.filter_eq_some_iff

theorem acts_addrToUse (exit : Bool) (native : Addr) (masq : Option Addr) :
    Acts native (addrToUse exit native masq) masq := by
  unfold addrToUse
  cases hm : validMasq masq with
  | none =>
    refine .inr ⟨hm, ?_⟩
    dsimp only
    split
    · exact .inr rfl
    · exact .inl rfl
  | some a =>
    have ha := (validMasq_eq_some.1 hm).2
    refine .inl (hm.trans ?_)
    dsimp only [Option.getD_some]
    rw [if_neg (fun h => h.2.1 ha)]

variable {native : Addr}

theorem validMasq_eq_none_of_addrToUse {exit : Bool}
    (h : (addrToUse exit native masq).isValid = false) : validMasq masq = none := by
  rcases acts_addrToUse exit native masq with hm | ⟨hm, -⟩
  · exact absurd (validMasq_eq_some.1 hm).2 (by simp [h])
  · exact hm

theorem Acts.src (h : Acts native addr masq) :
    (if addr.isValid = true then addr else native) = (validMasq masq).getD native := by
  rcases h with hm | ⟨hm, hi | rfl⟩
  · rw [hm, if_pos (validMasq_eq_some.1 hm).2, Option.getD_some]
  · rw [hm, if_neg (by simp [hi]), Option.getD_none]
  · rw [hm, Option.getD_none, ite_self]

theorem Acts.dst {oldDst : Addr} (h : Acts native addr masq) (hvalid : oldDst.isValid = true) :
    (if addr = oldDst then native else oldDst) = if masq = some oldDst then native else oldDst := by
  rcases h with hm | ⟨hm, hi⟩
  · rw [(validMasq_eq_some.1 hm).1]
    simp
  have hmasq : masq ≠ some oldDst := fun h => by
    rw [validMasq_eq_some.2 ⟨h, hvalid⟩] at hm
    cases hm
  rw [if_neg hmasq]
  rcases hi with hi | rfl
  · rw [if_neg fun h => by simp [h, hvalid] at hi]
  · simp

/-- What the table has for an address, or a configuration that asks for nothing. -/
def configAt (cfg : Config) (addr : Addr) : PeerConfig :=
  ((cfg.tableOwner addr).map cfg.configOf).getD {}

/-- The peer that owns an address, or one that asks for nothing. -/
def ownerAt (cfg : Config) (addr : Addr) : Peer := (cfg.owner addr).getD {}

theorem configAt_of_some {k : Peer} (h : cfg.tableOwner addr = some k) :
    cfg.configAt addr = cfg.configOf k := by
  rw [configAt, h, Option.map_some, Option.getD_some]

theorem configAt_of_none (h : cfg.tableOwner addr = none) : cfg.configAt addr = {} := by
  rw [configAt, h, Option.map_none, Option.getD_none]

variable {p : Peer}

theorem ownerAt_of_some (h : cfg.owner addr = some p) : cfg.ownerAt addr = p := by
  rw [ownerAt, h, Option.getD_some]

theorem ownerAt_of_none (h : cfg.owner addr = none) : cfg.ownerAt addr = {} := by
  rw [ownerAt, h, Option.getD_none]

theorem tableOwner_of_owner (h : cfg.owner addr = some p) (hreq : (cfg.configOf p).required = true)
    : cfg.tableOwner addr = some p := by
  obtain ⟨e, he, rfl⟩ := Option.map_eq_some_iff.1 h
  rw [tableOwner, longestMatch, filter_comm, Lib.lastArgmax_filter he hreq]
  rfl

theorem tableOwner_eq_none (h : cfg.owner addr = none) : cfg.tableOwner addr = none := by
  have hnil := Lib.lastArgmax_eq_none.1 (Option.map_eq_none_iff.1 h)
  rw [tableOwner, longestMatch, filter_comm, hnil]
  rfl

theorem mem_peers_of_route {e} (h : e ∈ cfg.routes) : e.2 ∈ cfg.peers := by
  obtain ⟨p, hp, he⟩ := mem_flatMap.1 h
  obtain ⟨ip, -, rfl⟩ := mem_map.1 he
  exact hp

theorem mem_peers_of_owner (h : cfg.owner addr = some p) : p ∈ cfg.peers := by
  obtain ⟨e, he, rfl⟩ := Option.map_eq_some_iff.1 h
  exact mem_peers_of_route (mem_of_longestMatch he)

theorem mem_peers_of_tableOwner (h : cfg.tableOwner addr = some p) : p ∈ cfg.peers := by
  obtain ⟨e, he, rfl⟩ := Option.map_eq_some_iff.1 h
  exact mem_peers_of_route (mem_filter.1 (mem_of_longestMatch he)).1

theorem not_required (h : (cfg.configOf p).required = false) :
    (∀ fam, validMasq (p.masqAddr fam) = none) ∧ p.isJailed = false := by
  rw [PeerConfig.required, Bool.or_eq_false_iff, Bool.or_eq_false_iff] at h
  refine ⟨fun fam => ?_, h.2⟩
  cases fam with
  | v4 => exact validMasq_eq_none_of_addrToUse h.1.1
  | v6 => exact validMasq_eq_none_of_addrToUse h.1.2

/-- The table and WireGuard agree on an address. -/
structure Agrees (cfg : Config) (addr : Addr) : Prop where
  masq : ∀ fam, (cfg.native fam).isValid →
    Acts (cfg.native fam) ((cfg.configAt addr).dstMasqAddr fam) ((cfg.ownerAt addr).masqAddr fam)
  jailed : (cfg.configAt addr).jailed = (cfg.ownerAt addr).isJailed

/-- **Without a capture the table agrees with WireGuard.** -/
theorem agrees_of_noCapture (h : cfg.NoCapture) (addr : Addr) : cfg.Agrees addr := by
  cases howner : cfg.owner addr with
  | none =>
    constructor
    all_goals rw [ownerAt_of_none howner, configAt_of_none (tableOwner_eq_none howner)]
    rintro (_ | _) - <;> exact .inr ⟨rfl, .inl rfl⟩
  | some p =>
    cases hreq : (cfg.configOf p).required with
    | true =>
      constructor
      all_goals rw [ownerAt_of_some howner, configAt_of_some (tableOwner_of_owner howner hreq)]
      · rintro (_ | _) - <;> exact acts_addrToUse _ _ _
      · rfl
    | false =>
      obtain ⟨hnone, hjailed⟩ := not_required hreq
      cases htable : cfg.tableOwner addr with
      | none =>
        constructor
        all_goals rw [ownerAt_of_some howner, configAt_of_none htable]
        · refine fun fam _ => .inr ⟨hnone fam, .inl ?_⟩
          cases fam <;> rfl
        · exact hjailed.symm
      | some k =>
        have heff := h addr p k howner hreq htable
        rw [Effective, not_or, not_exists] at heff
        constructor
        all_goals rw [ownerAt_of_some howner, configAt_of_some htable]
        · intro fam hn
          refine .inr ⟨hnone fam, ?_⟩
          by_contra hne
          rw [not_or, Bool.not_eq_false] at hne
          exact heff.2 fam ⟨hn, hne⟩
        · rw [hjailed]
          exact Bool.not_eq_true _ ▸ heff.1

/-! ## The functions of the table -/

/-- What the functions of the table compute, for the configuration it has for the remote address. -/
structure Reads (cfg : Config) (t : BartTable PeerConfig) (pc : Option PeerConfigTable) : Prop where
  src : ∀ oldSrc dst, selectSrcIP t pc oldSrc dst =
    match family oldSrc with
    | none => oldSrc
    | some fam =>
      if oldSrc = cfg.native fam then
        if ((cfg.configAt dst).dstMasqAddr fam).isValid then (cfg.configAt dst).dstMasqAddr fam
          else oldSrc
      else oldSrc
  dst : ∀ src oldDst, mapDstIP t pc src oldDst =
    match family oldDst with
    | none => oldDst
    | some fam =>
      if (cfg.native fam).isValid ∧ (cfg.configAt src).dstMasqAddr fam = oldDst then cfg.native fam
      else oldDst
  jailed : ∀ addr, isJailed t pc addr = (cfg.configAt addr).jailed

theorem reads_table (t : BartTable PeerConfig) (hnative : ∃ fam, (cfg.native fam).isValid) :
    Reads cfg t (peerConfigTableFromWGConfig (some cfg)) := by
  obtain ⟨r, h4, h6, hlookup, hsrc, hdst, hjail⟩ := exists_table t hnative
  have hcases : ∀ addr, t.lookup r.byIP addr = none ∧ cfg.configAt addr = {} ∨
      t.lookup r.byIP addr = some (cfg.configAt addr) := by
    intro addr
    rw [hlookup]
    cases htable : cfg.tableOwner addr with
    | none => exact .inl ⟨rfl, configAt_of_none htable⟩
    | some k => exact .inr (by rw [configAt_of_some htable]; rfl)
  refine ⟨fun oldSrc dst => ?_, fun src oldDst => ?_, fun addr => ?_⟩
  · rw [hsrc]
    simp only [selectSrcIP]
    rcases hcases dst with ⟨hl, hc⟩ | hl
    · rw [hl, hc]
      cases oldSrc with
      | zero => rfl
      | v4 a | v6 a zone => simp [family, PeerConfig.dstMasqAddr, Addr.isValid]
    · rw [hl]
      cases oldSrc with
      | zero => rfl
      | v4 a | v6 a zone =>
        simp only [family, Addr.is4, Addr.is6, Bool.false_eq_true, true_and, false_and, if_false]
        rw [ite_not]
        congr
  · rw [hdst]
    simp only [mapDstIP]
    rcases hcases src with ⟨hl, hc⟩ | hl
    · rw [hl, hc]
      cases oldDst with
      | zero => rfl
      | v4 a | v6 a zone => simp [family, PeerConfig.dstMasqAddr]
    · rw [hl]
      cases oldDst with
      | zero => rfl
      | v4 a | v6 a zone =>
        simp only [family, Addr.is4, Addr.is6, Bool.false_eq_true, true_and, false_and, if_false]
        congr
  · rw [hjail]
    simp only [isJailed]
    rcases hcases addr with ⟨hl, hc⟩ | hl
    · rw [hl, hc]
    · rw [hl]

theorem masqueradedSrc_eq (oldSrc dst : Addr) : cfg.masqueradedSrc oldSrc dst =
    match family oldSrc with
    | none => oldSrc
    | some fam =>
      if oldSrc = cfg.native fam then (validMasq ((cfg.ownerAt dst).masqAddr fam)).getD oldSrc
      else oldSrc := by
  unfold masqueradedSrc ownerAt
  cases family oldSrc with
  | none => rfl
  | some fam =>
    cases cfg.owner dst with
    | none => cases fam <;> simp [Peer.masqAddr, validMasq]
    | some p => rfl

theorem unmasqueradedDst_eq (src oldDst : Addr) : cfg.unmasqueradedDst src oldDst =
    match family oldDst with
    | none => oldDst
    | some fam =>
      if (cfg.native fam).isValid ∧ (cfg.ownerAt src).masqAddr fam = some oldDst then cfg.native fam
      else oldDst := by
  unfold unmasqueradedDst ownerAt
  cases family oldDst with
  | none => rfl
  | some fam =>
    cases cfg.owner src with
    | none => cases fam <;> simp [Peer.masqAddr]
    | some p => rfl

theorem ownerJailed_eq (addr : Addr) : cfg.ownerJailed addr = (cfg.ownerAt addr).isJailed := by
  unfold ownerJailed ownerAt
  cases cfg.owner addr <;> rfl

variable {pc : Option PeerConfigTable}

section

variable (hread : Reads cfg t pc)

include hread

/-- Both functions on a native address, for the configuration of the remote address. -/
theorem reply_eq (remote : Addr) (hn : (cfg.native fam).isValid = true) :
    selectSrcIP t pc (cfg.native fam) remote =
      (if ((cfg.configAt remote).dstMasqAddr fam).isValid then (cfg.configAt remote).dstMasqAddr fam
        else cfg.native fam) := by
  rw [hread.src, family_native hn]
  exact if_pos rfl

/-- What was masqueraded is mapped back exactly when it is of the family of the native address. -/
theorem reply_iff (remote : Addr) (hn : (cfg.native fam).isValid = true) :
    mapDstIP t pc remote (selectSrcIP t pc (cfg.native fam) remote) = cfg.native fam ↔
      (((cfg.configAt remote).dstMasqAddr fam).isValid = true →
        family ((cfg.configAt remote).dstMasqAddr fam) = some fam) := by
  rw [reply_eq hread remote hn]
  generalize hm : (cfg.configAt remote).dstMasqAddr fam = m
  by_cases hv : m.isValid = true
  · rw [if_pos hv, hread.dst, imp_iff_right hv]
    constructor
    · intro h
      cases hf : family m with
      | none =>
        rw [hf] at h
        rw [← family_native hn, ← h, hf]
      | some fam' =>
        rw [hf] at h
        dsimp only at h
        split at h
        next hcond => rw [← family_native hcond.1, h, family_native hn]
        · rw [← family_native hn, ← h, hf]
    · intro hf
      rw [hf]
      exact if_pos ⟨hn, hm⟩
  · rw [if_neg hv, hread.dst, family_native hn]
    refine iff_of_true ?_ fun h => absurd h hv
    simp

theorem Agrees.src (oldSrc : Addr) {dst : Addr} (h : cfg.Agrees dst) :
    selectSrcIP t pc oldSrc dst = cfg.masqueradedSrc oldSrc dst := by
  rw [hread.src, masqueradedSrc_eq]
  cases hf : family oldSrc with
  | none => rfl
  | some fam =>
    dsimp only
    split
    next hn =>
      subst hn
      exact (h.masq fam (isValid_of_family hf)).src
    · rfl

theorem Agrees.dst {src : Addr} (oldDst : Addr) (h : cfg.Agrees src) :
    mapDstIP t pc src oldDst = cfg.unmasqueradedDst src oldDst := by
  rw [hread.dst, unmasqueradedDst_eq]
  cases hf : family oldDst with
  | none => rfl
  | some fam =>
    dsimp only
    by_cases hn : (cfg.native fam).isValid = true
    · have hd := (h.masq fam hn).dst (isValid_of_family hf)
      simpa [hn] using hd
    · rw [if_neg fun h => hn h.1, if_neg fun h => hn h.1]

end

/-- A jailed peer with a subnet that masquerades, and a peer with an address of that subnet. -/
def captured : Config where
  addresses := [⟨.v4 0x64400001, 32⟩]
  peers := [
    { allowedIPs := [⟨.v4 0x64400002, 32⟩, ⟨.v4 0x0a000000, 8⟩]
      v4MasqAddr := some (.v4 0x64400009)
      isJailed := true },
    { allowedIPs := [⟨.v4 0x64400003, 32⟩, ⟨.v4 0x0a010203, 32⟩] }]

/-- **A peer can be captured**: WireGuard routes 10.1.2.3 to the second peer, which is not jailed
and does not masquerade, but its packets are treated as those of the first one. -/
theorem captured_not_faithful :
    captured.owner (.v4 0x0a010203) = captured.peers[1]? ∧
      inboundPacketIsJailed (.linear _) (peerConfigTableFromWGConfig (some captured))
        { src := ⟨.v4 0x0a010203, 0⟩ } = true ∧
      selectSrcIP (.linear _) (peerConfigTableFromWGConfig (some captured)) (.v4 0x64400001)
        (.v4 0x0a010203) = .v4 0x64400009 ∧
      ¬ captured.Faithful (.linear _) := by
  have hjailed : inboundPacketIsJailed (.linear _) (peerConfigTableFromWGConfig (some captured))
      { src := ⟨.v4 0x0a010203, 0⟩ } = true := by decide +kernel
  refine ⟨by decide +kernel, hjailed, by decide +kernel, fun h => ?_⟩
  have hin := h.inbound { src := ⟨.v4 0x0a010203, 0⟩ }
  exact absurd hin (by decide +kernel)

/-- **When the table treats packets as WireGuard routes them**: no address of a peer that is not in
the table is captured by a peer in the table, and the masquerade addresses are of the right
family. -/
theorem faithful_iff (cfg : Config) (t : BartTable PeerConfig)
    (hnative : ∃ fam, (cfg.native fam).isValid) :
    cfg.Faithful t ↔ cfg.NoCapture ∧ cfg.FamiliesMatch := by
  have hread := reads_table t hnative
  constructor
  · intro h
    refine ⟨fun addr p k howner hreq htable => ?_, fun addr k fam htable hn hv => ?_⟩
    · obtain ⟨hnone, hjailed⟩ := not_required hreq
      rintro (hkj | ⟨fam, hn, hv, hne⟩)
      · have hin := h.inbound { src := ⟨addr, 0⟩ }
        rw [inboundPacketIsJailed, hread.jailed, configAt_of_some htable, hkj, ownerJailed_eq,
          ownerAt_of_some howner, hjailed] at hin
        cases hin
      · have hsrc := h.src (cfg.native fam) addr
        rw [reply_eq hread addr hn, masqueradedSrc_eq, family_native hn, configAt_of_some htable,
          if_pos hv, ownerAt_of_some howner] at hsrc
        simp only [hnone fam] at hsrc
        exact hne hsrc
    · have hreply := (reply_iff hread addr hn).1 (h.reply fam addr hn)
      rw [configAt_of_some htable] at hreply
      exact hreply hv
  · rintro ⟨hcap, hfam⟩
    have hagree := agrees_of_noCapture hcap
    refine ⟨fun oldSrc dst => (hagree dst).src hread oldSrc,
      fun src oldDst => (hagree src).dst hread oldDst,
      fun p => ?_, fun p => ?_, fun fam remote hn => (reply_iff hread remote hn).2 fun hv => ?_⟩
    · rw [inboundPacketIsJailed, hread.jailed, ownerJailed_eq, (hagree _).jailed]
    · rw [outboundPacketIsJailed, hread.jailed, ownerJailed_eq, (hagree _).jailed]
    · cases htable : cfg.tableOwner remote with
      | none =>
        rw [configAt_of_none htable] at hv
        cases fam <;> cases hv
      | some k =>
        rw [configAt_of_some htable] at hv ⊢
        exact hfam remote k fam htable hn hv

/-- An exit node that masquerades, and a peer that does not. -/
def exitNode : Config where
  addresses := [⟨.v4 0x64400001, 32⟩]
  peers := [
    { allowedIPs := [⟨.v4 0x64400002, 32⟩, Tsaddr.allIPv4], v4MasqAddr := some (.v4 0x64400009) },
    { allowedIPs := [⟨.v4 0x64400003, 32⟩] }]

theorem faithful_iff_exitNode : exitNode.Faithful (.linear _) := by
  have hpeers : ∀ p ∈ exitNode.peers, (exitNode.configOf p).required = true ∧
      (exitNode.configOf p).dstMasqAddr4.is4 = true := by decide +kernel
  have h6 : ¬ (exitNode.native .v6).isValid = true := by decide +kernel
  refine (faithful_iff exitNode (.linear _) ⟨.v4, by decide +kernel⟩).2
    ⟨fun addr p k howner hreq => ?_, fun addr k fam htable hn _ => ?_⟩
  · rw [(hpeers p (mem_peers_of_owner howner)).1] at hreq
    cases hreq
  · cases fam with
    | v4 => exact family_eq_v4 (hpeers k (mem_peers_of_tableOwner htable)).2
    | v6 => exact absurd hn h6

end Config

end Multiport.Tstun

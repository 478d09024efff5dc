import Multiport.PacketFilter.Match
import Multiport.Net.Flowtrack

/-!
# The packet filter

`wgengine/filter/filter.go`: the construction of a filter from a list of rules,
and what `RunIn` and `RunOut` do with a packet.  The rules are split by address
family when a filter is built, and each part of a rule gets a look-up function
for its own sources.

The flows that a filter remembers are behind a pointer that several filters may
share.  A filter holds a reference to them (`StateRef`), and the operations take
and return the cache itself.  Logging and its rate limits are left out; the texts
that the log would show for a verdict are kept, because the code returns them.
-/

namespace Multiport.PacketFilter

open Net Net.Flowtrack

/-- `filter.Response`. -/
inductive Response
  | drop
  | dropSilently
  | accept
  | noVerdict
deriving DecidableEq, Repr

/-- `usermetric.DropReason`, as far as the filter gives one. -/
inductive DropReason
  | none
  | tooShort
  | unknownProtocol
  | multicast
  | linkLocalUnicast
deriving DecidableEq, Repr

/-- `PacketMatch`: whether a hook matches a packet, and why. -/
abbrev PacketMatch := Parsed → Bool × String

/-- A pointer to a `filterState`. -/
abbrev StateRef := Nat

/-- `tailcfg.PeerCapMap`. -/
abbrev PeerCapMap := Lib.GoMap PeerCapability (List RawMessage)

/-- `filterState`'s cache. -/
abbrev Flows := Cache Unit

def lruMax : Nat := 512

/-- The flows of a new filter state. -/
def Flows.new : Flows := { maxEntries := lruMax }

/-- `filter.Filter`. -/
structure Filter where
  local4 : Addr → Bool
  local6 : Addr → Bool
  srcIPHasCap : CapTestFunc
  matches4 : List Match
  matches6 : List Match
  cap4 : List Match
  cap6 : List Match
  state : StateRef
  shieldsUp : Bool := false
  ingressAllowHooks : List PacketMatch := []
  linkLocalAllowHooks : List PacketMatch := []

/-! ## Building a filter -/

section Build

variable (t : BartLite)

/-- The part of a rule for one address family. -/
def familyPart (m : Match) (keep : Addr → Bool) : Match :=
  let srcs := m.srcs.filter fun src => keep src.addr
  { ipProto := m.ipProto,
    srcCaps := m.srcCaps,
    srcs := srcs,
    dsts := m.dsts.filter fun dst => keep dst.net.addr,
    srcsContains := Ipset.newContainsIPFunc t srcs }

/-- `matchesFamily`: a part without sources or without destinations is dropped. -/
def matchesFamily (ms : List Match) (keep : Addr → Bool) : List Match :=
  (ms.map fun m => familyPart t m keep).filter fun m =>
    (!m.srcs.isEmpty || !m.srcCaps.isEmpty) && !m.dsts.isEmpty

def capMatchesFunc (ms : List Match) (keep : Addr → Bool) : List Match :=
  ((ms.filter fun m => !m.caps.isEmpty).map fun m =>
      let srcs := m.srcs.filter fun src => keep src.addr
      { caps := m.caps, srcs := srcs, srcsContains := Ipset.newContainsIPFunc t srcs }).filter
    fun m => !m.srcs.isEmpty

/-- The look-up function for the prefixes of a possibly nil set, by family. -/
def localFunc (nets : Option IPSet) (keep : Addr → Bool) : Addr → Bool :=
  match nets with
  | some nets => Ipset.newContainsIPFunc t (nets.prefixes.filter fun p => keep p.addr)
  | none => Ipset.emptySet

/-- `New`, with `fresh` for a newly allocated state. -/
def new (ms : List Match) (capTest : CapTestFunc) (localNets : Option IPSet)
    (shareStateWith : Option Filter) (fresh : StateRef) : Filter where
  matches4 := matchesFamily t ms Addr.is4
  matches6 := matchesFamily t ms Addr.is6
  cap4 := capMatchesFunc t ms Addr.is4
  cap6 := capMatchesFunc t ms Addr.is6
  local4 := localFunc t localNets Addr.is4
  local6 := localFunc t localNets fun a => !a.is4
  srcIPHasCap := capTest
  state :=
    match shareStateWith with
    | some f => f.state
    | none => fresh

end Build

/-! ## Verdicts -/

namespace Filter

/-- `gcpDNSAddr`, 169.254.169.254. -/
def gcpDNSAddr : Addr := .v4 0xa9fea9fe#32

variable (f : Filter)

def isAllowedLinkLocal (q : Parsed) : Bool :=
  q.dst.addr == gcpDNSAddr || f.linkLocalAllowHooks.any fun pm => (pm q).1

/-- `pre`, the direction-agnostic checks. -/
def pre (q : Parsed) : Response × DropReason :=
  if q.b.length = 0 then (.accept, .none)
  else if q.b.length < 20 then (.drop, .tooShort)
  else if q.ipProto = .unknown then (.drop, .unknownProtocol)
  else if q.dst.addr.isMulticast then (.drop, .multicast)
  else if q.dst.addr.isLinkLocalUnicast && !f.isAllowedLinkLocal q then (.drop, .linkLocalUnicast)
  else if q.ipProto = .fragment then (.accept, .none)
  else (.noVerdict, .none)

theorem pre_eq_of_ne {f : Filter} {q : Parsed} (hpre : (f.pre q).1 ≠ .noVerdict) :
    (f.pre q).1 = .accept ∨ (f.pre q).1 = .drop := by
  revert hpre
  unfold pre
  split_ifs <;> simp

def unknownProtoString (proto : Proto) : String :=
  "unknown-protocol-" ++ toString proto.toNat

/-- The body of `runIn4`, by the values in which `runIn6` differs. -/
def runInFamily (isLocal : Addr → Bool) (icmp : Proto) (ms : List Match)
    (lru : Flows) (q : Parsed) : (Response × String) × Flows :=
  if !isLocal q.dst.addr then ((.noVerdict, "destination not allowed"), lru)
  else if q.ipProto = icmp then
    if q.isEchoResponse || q.isError then ((.accept, "icmp response ok"), lru)
    else if matchIPsOnly ms q f.srcIPHasCap then ((.accept, "icmp ok"), lru)
    else ((.noVerdict, "no rules matched"), lru)
  else if q.ipProto = .tcp then
    if !q.isTCPSyn then ((.accept, "tcp non-syn"), lru)
    else if matchRules ms q f.srcIPHasCap then ((.accept, "tcp ok"), lru)
    else ((.noVerdict, "no rules matched"), lru)
  else if q.ipProto = .udp ∨ q.ipProto = .sctp then
    match lru.get (makeTuple q.ipProto q.src q.dst) with
    | (some _, lru) => ((.accept, "cached"), lru)
    | (none, lru) =>
      if matchRules ms q f.srcIPHasCap then ((.accept, "ok"), lru)
      else ((.noVerdict, "no rules matched"), lru)
  else if q.ipProto = .tsmp then ((.accept, "tsmp ok"), lru)
  else if matchProtoAndIPsOnlyIfAllPorts ms q then ((.accept, "other-portless ok"), lru)
  else ((.noVerdict, unknownProtoString q.ipProto), lru)

def runIn4 : Flows → Parsed → (Response × String) × Flows :=
  f.runInFamily f.local4 .icmpv4 f.matches4

variable (lru : Flows)

/-- `runIn6`, which tests the protocol of a TCP packet once more. -/
def runIn6 (q : Parsed) : (Response × String) × Flows :=
  if !f.local6 q.dst.addr then ((.noVerdict, "destination not allowed"), lru)
  else if q.ipProto = .icmpv6 then
    if q.isEchoResponse || q.isError then ((.accept, "icmp response ok"), lru)
    else if matchIPsOnly f.matches6 q f.srcIPHasCap then ((.accept, "icmp ok"), lru)
    else ((.noVerdict, "no rules matched"), lru)
  else if q.ipProto = .tcp then
    if q.ipProto = .tcp ∧ !q.isTCPSyn then ((.accept, "tcp non-syn"), lru)
    else if matchRules f.matches6 q f.srcIPHasCap then ((.accept, "tcp ok"), lru)
    else ((.noVerdict, "no rules matched"), lru)
  else if q.ipProto = .udp ∨ q.ipProto = .sctp then
    match lru.get (makeTuple q.ipProto q.src q.dst) with
    | (some _, lru) => ((.accept, "cached"), lru)
    | (none, lru) =>
      if matchRules f.matches6 q f.srcIPHasCap then ((.accept, "ok"), lru)
      else ((.noVerdict, "no rules matched"), lru)
  else if q.ipProto = .tsmp then ((.accept, "tsmp ok"), lru)
  else if matchProtoAndIPsOnlyIfAllPorts f.matches6 q then ((.accept, "other-portless ok"), lru)
  else ((.noVerdict, unknownProtoString q.ipProto), lru)

/-- The second test changes nothing: the families are treated alike. -/
theorem runIn6_eq (q : Parsed) :
    f.runIn6 lru q = f.runInFamily f.local6 .icmpv6 f.matches6 lru q := by
  refine ite_congr rfl (fun _ => rfl) fun _ => ite_congr rfl (fun _ => rfl) fun _ =>
    ite_congr rfl (fun htcp => ?_) fun _ => rfl
  simp only [htcp, true_and]

/-- What a family's rules say of a packet that passed the checks. -/
def runInVersion (q : Parsed) : (Response × String) × Flows :=
  if q.ipVersion = 4 then f.runIn4 lru q
  else if q.ipVersion = 6 then f.runIn6 lru q
  else ((.drop, "not-ip"), lru)

def runIn (q : Parsed) : Response × Flows :=
  let r := (f.pre q).1
  if r = .accept ∨ r = .drop then (r, lru)
  else
    match f.runInVersion lru q with
    | ((.noVerdict, _), lru) =>
      if f.ingressAllowHooks.any fun pm => (pm q).1 then (.accept, lru) else (.drop, lru)
    | ((r, _), lru) => (r, lru)

/-- `runOut`; the flow is remembered in the direction of its replies. -/
def runOutInner (q : Parsed) : (Response × String) × Flows :=
  if q.ipProto = .udp ∨ q.ipProto = .sctp then
    ((.accept, "ok out"), lru.add (makeTuple q.ipProto q.dst q.src) ())
  else ((.accept, "ok out"), lru)

def runOut (q : Parsed) : (Response × DropReason) × Flows :=
  let r := f.pre q
  if r.1 = .accept ∨ r.1 = .drop then (r, lru)
  else
    let out := runOutInner lru q
    ((out.1.1, .none), out.2)

/-- The inner round of `CapsWithValues`. -/
def addCap (dstIP : Addr) (out : PeerCapMap) (cm : CapMatch) : PeerCapMap :=
  if cm.cap ≠ "" ∧ cm.dst.contains dstIP = true then
    match out.lookup cm.cap with
    | none => out.insert cm.cap cm.values
    | some prev => out.insert cm.cap (prev ++ cm.values)
  else out

def capsWithValues (srcIP dstIP : Addr) : PeerCapMap :=
  let mm := if srcIP.is4 then f.cap4 else if srcIP.is6 then f.cap6 else []
  mm.foldl (fun out m => if m.srcsContains srcIP then m.caps.foldl (addCap dstIP) out else out) ∅

end Filter

end Multiport.PacketFilter

import Multiport.Net.Packet

/-!
# Filter rules

`filtertype.Match` and the three ways in which `wgengine/filter` matches a packet
against a list of rules: with ports, by addresses only (ICMP), and by protocol
and addresses for rules that allow all ports.  The source of a packet is matched
by a look-up function that the filter attaches to each rule, or by a capability
that the source holds.

`Match.Admits` is what a rule is for, stated over the prefixes of the rule
itself.
-/

namespace Multiport.PacketFilter

open Net

/-- `tailcfg.NodeCapability`. -/
abbrev NodeCapability := String

/-- `tailcfg.PeerCapability`. -/
abbrev PeerCapability := String

/-- `tailcfg.RawMessage`. -/
abbrev RawMessage := String

/-- `filtertype.PortRange`, inclusive. -/
structure PortRange where
  first : UInt16
  last : UInt16
deriving DecidableEq, Repr

/-- `filtertype.AllPorts`. -/
def allPorts : PortRange := ⟨0, 0xffff⟩

def PortRange.contains (pr : PortRange) (port : UInt16) : Bool :=
  decide (pr.first ≤ port) && decide (port ≤ pr.last)

/-- `filtertype.NetPortRange`. -/
structure NetPortRange where
  net : Prefix
  ports : PortRange
deriving DecidableEq, Repr

/-- `filtertype.CapMatch`. -/
structure CapMatch where
  dst : Prefix
  cap : PeerCapability
  values : List RawMessage := []
deriving DecidableEq, Repr

/-- `filtertype.Match`. -/
structure Match where
  ipProto : List Proto := []
  srcs : List Prefix := []
  /-- Reports whether an address is in `srcs`. -/
  srcsContains : Addr → Bool := Ipset.emptySet
  srcCaps : List NodeCapability := []
  dsts : List NetPortRange := []
  caps : List CapMatch := []

/-- `CapTestFunc`, which may be nil. -/
abbrev CapTestFunc := Option (Addr → NodeCapability → Bool)

/-- `hasCap != nil` and one of the capabilities is held. -/
def holdsOne (hasCap : CapTestFunc) (srcAddr : Addr) (caps : List NodeCapability) : Bool :=
  match hasCap with
  | some hasCap => caps.any (hasCap srcAddr)
  | none => false

def srcMatches (m : Match) (srcAddr : Addr) (hasCap : CapTestFunc) : Bool :=
  m.srcsContains srcAddr || holdsOne hasCap srcAddr m.srcCaps

/-- `matches.match`. -/
def matchRules (ms : List Match) (q : Parsed) (hasCap : CapTestFunc) : Bool :=
  ms.any fun m =>
    m.ipProto.contains q.ipProto && srcMatches m q.src.addr hasCap &&
      m.dsts.any fun dst => dst.net.contains q.dst.addr && dst.ports.contains q.dst.port

/-- `matches.matchIPsOnly`: after the rules whose source prefixes match, the
capabilities of all rules. -/
def matchIPsOnly (ms : List Match) (q : Parsed) (hasCap : CapTestFunc) : Bool :=
  (ms.any fun m =>
    m.srcsContains q.src.addr && m.dsts.any fun dst => dst.net.contains q.dst.addr) ||
  ms.any fun m => holdsOne hasCap q.src.addr m.srcCaps

/-- `matches.matchProtoAndIPsOnlyIfAllPorts`. -/
def matchProtoAndIPsOnlyIfAllPorts (ms : List Match) (q : Parsed) : Bool :=
  ms.any fun m =>
    m.ipProto.contains q.ipProto && m.srcsContains q.src.addr &&
      m.dsts.any fun dst => dst.ports == allPorts && dst.net.contains q.dst.addr

/-! ## What a rule admits -/

namespace Match

variable (m : Match)

/-- A source prefix of the rule contains the address. -/
def SrcListed (src : Addr) : Prop := ∃ p ∈ m.srcs, p.contains src = true

/-- The address holds a source capability of the rule. -/
def SrcHolds (hasCap : CapTestFunc) (src : Addr) : Prop :=
  ∃ test, hasCap = some test ∧ ∃ c ∈ m.srcCaps, test src c = true

/-- The rule admits the source. -/
def AdmitsSrc (hasCap : CapTestFunc) (src : Addr) : Prop :=
  m.SrcListed src ∨ m.SrcHolds hasCap src

/-- The rule has a destination entry for the address, with ports that satisfy `P`. -/
def HasDst (dst : Addr) (P : PortRange → Prop) : Prop :=
  ∃ d ∈ m.dsts, d.net.contains dst = true ∧ P d.ports

/-- The rule admits traffic of a protocol from `src` to a port of `dst`. -/
def Admits (hasCap : CapTestFunc) (proto : Proto) (src dst : Addr) (port : UInt16) : Prop :=
  proto ∈ m.ipProto ∧ m.AdmitsSrc hasCap src ∧ m.HasDst dst fun ports => ports.contains port = true

/-- The rule admits both addresses, for some protocol and port or other. -/
def AdmitsAddrs (hasCap : CapTestFunc) (src dst : Addr) : Prop :=
  m.AdmitsSrc hasCap src ∧ m.HasDst dst fun _ => True

end Match

theorem holdsOne_iff {m : Match} {hasCap} {src : Addr} :
    holdsOne hasCap src m.srcCaps = true ↔ m.SrcHolds hasCap src := by
  unfold holdsOne Match.SrcHolds
  cases hasCap with
  | none => simp
  | some test => simp

end Multiport.PacketFilter

import Multiport.Net.Packet
import Multiport.Tailcfg.Node

/-!
# Slices of a decoded packet

The methods of `Parsed` that cut the buffer of a packet at the offsets that `Decode` left:
`Payload`, `Transport` and the ICMP headers (`net/packet/packet.go`), and the readers of
Tailscale's own messages (`net/packet/tsmp.go`).  Go panics where a slice or an index is out
of range, so these are functions to `Except PacketPanic`.

`Decode` leaves the offsets of an earlier packet where it does not get to set them, and it takes
the transport header from the buffer, which may be longer than the packet says.
`decode_inBounds_iff` says when the offsets fit.
-/

namespace Multiport.Net.Parsed

open Lib Tailcfg Proto

/-- The panics of the methods: the runtime's, and those that the code asks for. -/
inductive PacketPanic
  | bounds
  | notIPv4
  | notIPv6
deriving DecidableEq, Repr

/-- `b[lo:hi]`, for `hi` within the length. -/
def slice (b : Bytes) (lo hi : Nat) : Except PacketPanic Bytes :=
  if lo ≤ hi ∧ hi ≤ b.length then .ok ((b.take hi).drop lo) else .error .bounds

/-- `b[i]`. -/
def index (b : Bytes) (i : Nat) : Except PacketPanic Byte :=
  if i < b.length then .ok (byteAt b i) else .error .bounds

/-! ## The methods -/

variable (q : Parsed)

/-- `Payload`.  The check is against truncated packets. -/
def payload : Except PacketPanic Bytes :=
  if q.length > q.b.length ∨ q.dataofs > q.b.length then .ok [] else slice q.b q.dataofs q.length

def transport : Except PacketPanic Bytes := slice q.b q.subofs q.b.length

/-- `IP4Header` and `IP6Header`. -/
structure IPHeader where
  ipid : BitVec 32
  ipProto : Proto
  src : Addr
  dst : Addr
deriving DecidableEq, Repr

/-- `ICMP4Header` and `ICMP6Header`. -/
structure ICMPHeader where
  ip : IPHeader
  type : Byte
  code : Byte
deriving DecidableEq, Repr

def ip4Header : Except PacketPanic IPHeader :=
  if q.ipVersion ≠ 4 then .error .notIPv4
  else do
    let id ← slice q.b 4 6
    return ⟨getBE 32 id, q.ipProto, q.src.addr, q.dst.addr⟩

def ip6Header : Except PacketPanic IPHeader :=
  if q.ipVersion ≠ 6 then .error .notIPv6
  else do
    let id ← slice q.b 0 4
    return ⟨getBE 32 id <<< 12 >>> 12, q.ipProto, q.src.addr, q.dst.addr⟩

/-- What `ICMP4Header` and `ICMP6Header` add to the IP header. -/
def icmpHeader (ip : Except PacketPanic IPHeader) : Except PacketPanic ICMPHeader := do
  let ip ← ip
  let type ← index q.b (q.subofs + 0)
  let code ← index q.b (q.subofs + 1)
  return ⟨ip, type, code⟩

def icmp4Header : Except PacketPanic ICMPHeader := q.icmpHeader q.ip4Header

def icmp6Header : Except PacketPanic ICMPHeader := q.icmpHeader q.ip6Header

structure TailscaleRejectedHeader where
  ipSrc : Addr
  ipDst : Addr
  src : AddrPort
  dst : AddrPort
  proto : Proto
  reason : Byte
  maybeBroken : Bool
deriving DecidableEq, Repr

/-- `TSMPPongReply`; the header is not populated. -/
structure TSMPPongReply where
  data : Bytes
  peerAPIPort : UInt16
deriving DecidableEq, Repr

structure TSMPDiscoKeyAdvertisement where
  src : Addr
  dst : Addr
  key : PublicKey
deriving DecidableEq, Repr

/-- A message of at least `n` bytes with the type in the first one is read by `f`. -/
def readTSMP {α : Type} (p : Bytes) (n : Nat) (type : Byte) (f : Except PacketPanic α) :
    Except PacketPanic (Option α) :=
  if p.length < n then .ok none
  else do
    let t ← index p 0
    if t ≠ type then return none
    else
      let a ← f
      return some a

/-- A big-endian port at `p[i:i+2]`. -/
def portAt (p : Bytes) (i : Nat) : Except PacketPanic UInt16 := do
  let s ← slice p i (i + 2)
  return UInt16.ofNat (beNat s)

/-- The flags of a rejection, which older clients do not send. -/
def rejectFlags (p : Bytes) : Except PacketPanic Byte :=
  if p.length > 7 then index p 7 else .ok 0

/-- The port in a pong, zero if there is none. -/
def peerAPIPort (p : Bytes) : Except PacketPanic UInt16 :=
  if p.length ≥ 11 then portAt p 9 else .ok 0

/-- `AsTailscaleRejectedHeader`, of a packet of any protocol. -/
def asTailscaleRejectedHeader : Except PacketPanic (Option TailscaleRejectedHeader) := do
  let p ← q.payload
  readTSMP p 7 0x21 do
    let proto ← index p 1
    let reason ← index p 2
    let src ← portAt p 3
    let dst ← portAt p 5
    let flags ← rejectFlags p
    return ⟨q.src.addr, q.dst.addr, ⟨q.dst.addr, src⟩, ⟨q.src.addr, dst⟩, proto, reason,
      flags &&& 1 != 0⟩

/-- `AsTSMPPing`: the eight bytes to copy back. -/
def asTSMPPing : Except PacketPanic (Option Bytes) :=
  if q.ipProto ≠ tsmp then .ok none
  else do
    let p ← q.payload
    readTSMP p 9 0x70 do
      let data ← slice p 1 p.length
      return data.take 8

def asTSMPPong : Except PacketPanic (Option TSMPPongReply) :=
  if q.ipProto ≠ tsmp then .ok none
  else do
    let p ← q.payload
    readTSMP p 9 0x6f do
      let data ← slice p 1 p.length
      let port ← peerAPIPort p
      return ⟨data.take 8, port⟩

def asTSMPDiscoAdvertisement : Except PacketPanic (Option TSMPDiscoKeyAdvertisement) :=
  if q.ipProto ≠ tsmp then .ok none
  else do
    let p ← q.payload
    readTSMP p 33 0x61 do
      let key ← slice p 1 33
      return ⟨q.src.addr, q.dst.addr, getBE 256 key⟩

/-! ## Staying in range -/

section InRange

variable {α β : Type} {x : Except PacketPanic α} {f : α → Except PacketPanic β} {b : Bytes}

/-- No slice and no index is out of range. -/
def InRange (x : Except PacketPanic α) : Prop := x ≠ .error .bounds

theorem InRange.ok (a : α) : InRange (.ok a) := nofun

theorem InRange.bind (hx : InRange x) (hf : ∀ a, x = .ok a → InRange (f a)) :
    InRange (x >>= f) := by
  cases hres : x with
  | ok a => exact hf a hres
  | error e =>
    intro h
    rw [hres] at hx
    cases h
    exact hx rfl

theorem inRange_slice_iff {lo hi : Nat} : InRange (slice b lo hi) ↔ lo ≤ hi ∧ hi ≤ b.length := by
  unfold slice InRange
  split_ifs with h <;> simp [h]

theorem inRange_index_iff {i : Nat} : InRange (index b i) ↔ i < b.length := by
  unfold index InRange
  split_ifs with h <;> simp [h]

theorem InRange.portAt {i : Nat} (h : i + 2 ≤ b.length) : InRange (portAt b i) :=
  .bind (inRange_slice_iff.2 ⟨by omega, h⟩) fun _ _ => .ok _

/-- Where a message is read, it is long enough. -/
theorem InRange.readTSMP {n : Nat} {type : Byte} (hn : 0 < n) (h : n ≤ b.length → InRange x) :
    InRange (readTSMP b n type x) := by
  unfold Parsed.readTSMP
  split_ifs with hlen
  · exact .ok none
  · refine .bind (inRange_index_iff.2 (by omega)) fun t _ => ?_
    split_ifs
    · exact .ok none
    · exact .bind (h (by omega)) fun _ _ => .ok _

end InRange

variable {q}

theorem inRange_payload_iff : InRange q.payload ↔
    q.length > q.b.length ∨ q.dataofs > q.b.length ∨ q.dataofs ≤ q.length := by
  unfold payload
  split_ifs with h
  · exact iff_of_true (.ok _) (by tauto)
  · rw [inRange_slice_iff]
    omega

/-- The payload is empty if the packet is truncated, or if it starts where it ends. -/
theorem payload_eq_nil (h : q.payload = .ok []) :
    q.length > q.b.length ∨ q.dataofs > q.b.length ∨ q.dataofs = q.length := by
  unfold payload slice at h
  split_ifs at h with hnone hle
  · tauto
  · have hnil := List.drop_eq_nil_iff.1 (Except.ok.inj h)
    rw [List.length_take] at hnil
    omega

theorem InRange.icmpHeader {ip} (hip : InRange ip)
    (hroom : q.subofs + 2 ≤ q.b.length) : InRange (q.icmpHeader ip) := by
  refine .bind hip fun _ _ => .bind (inRange_index_iff.2 (by omega)) fun _ _ => ?_
  exact .bind (inRange_index_iff.2 (by omega)) fun _ _ => .ok _

theorem InRange.icmp4Header (h : q.ipVersion = 4 → 6 ≤ q.b.length ∧ q.subofs + 2 ≤ q.b.length) :
    InRange q.icmp4Header := by
  unfold Parsed.icmp4Header ip4Header
  split_ifs with hv
  · exact nofun
  · obtain ⟨hlen, hroom⟩ := h (not_not.1 hv)
    exact .icmpHeader (.bind (inRange_slice_iff.2 ⟨by decide, hlen⟩) fun _ _ => .ok _) hroom

theorem InRange.icmp6Header (h : q.ipVersion = 6 → 6 ≤ q.b.length ∧ q.subofs + 2 ≤ q.b.length) :
    InRange q.icmp6Header := by
  unfold Parsed.icmp6Header ip6Header
  split_ifs with hv
  · exact nofun
  · obtain ⟨hlen, hroom⟩ := h (not_not.1 hv)
    exact .icmpHeader (.bind (inRange_slice_iff.2 ⟨by decide, by omega⟩) fun _ _ => .ok _) hroom

section

variable (h : InRange q.payload)

include h

theorem InRange.asTailscaleRejectedHeader : InRange q.asTailscaleRejectedHeader := by
  refine .bind h fun p _ => .readTSMP (by decide) fun hlen => ?_
  refine .bind (inRange_index_iff.2 (by omega)) fun _ _ => ?_
  refine .bind (inRange_index_iff.2 (by omega)) fun _ _ => ?_
  refine .bind (.portAt (by omega)) fun _ _ => .bind (.portAt (by omega)) fun _ _ => ?_
  refine .bind ?_ fun _ _ => .ok _
  unfold rejectFlags
  split_ifs with hflags
  · exact inRange_index_iff.2 hflags
  · exact .ok _

theorem InRange.asTSMPPing : InRange q.asTSMPPing := by
  unfold Parsed.asTSMPPing
  split_ifs
  · exact .ok _
  · refine .bind h fun p _ => .readTSMP (by decide) fun hlen => ?_
    exact .bind (inRange_slice_iff.2 ⟨by omega, le_rfl⟩) fun _ _ => .ok _

theorem InRange.asTSMPPong : InRange q.asTSMPPong := by
  unfold Parsed.asTSMPPong
  split_ifs
  · exact .ok _
  refine .bind h fun p _ => .readTSMP (by decide) fun hlen => ?_
  refine .bind (inRange_slice_iff.2 ⟨by omega, le_rfl⟩) fun _ _ => .bind ?_ fun _ _ => .ok _
  unfold peerAPIPort
  split_ifs with hport
  · exact .portAt hport
  · exact .ok _

theorem InRange.asTSMPDiscoAdvertisement : InRange q.asTSMPDiscoAdvertisement := by
  unfold Parsed.asTSMPDiscoAdvertisement
  split_ifs
  · exact .ok _
  · refine .bind h fun p _ => .readTSMP (by decide) fun hlen => ?_
    exact .bind (inRange_slice_iff.2 ⟨by omega, hlen⟩) fun _ _ => .ok _

end

/-! ## Where the bytes say things are -/

/-- What the bytes of a packet say about its parts. -/
structure Layout where
  /-- The length in the IP header, if there is a whole header. -/
  length : Option Nat := none
  /-- The start of the transport header, if the buffer has the whole packet. -/
  subofs : Option Nat := none
  /-- The end of the transport header, if the buffer has it. -/
  dataofs : Option Nat := none
  /-- An ICMP message of the other IP version. -/
  foreignICMP : Bool := false
deriving DecidableEq, Repr

/-- The length of the transport header if it is in the buffer. -/
def transportHeaderLen (icmp proto : Proto) (moreFrags : Bool) (sub : Bytes) : Option Nat :=
  if proto = icmp then if sub.length < 4 then none else some 4
  else if proto = tcp then
    if sub.length < tcpHeaderLength then none else some ((byteAt sub 12 &&& 0xf0) >>> 2).toNat
  else if proto = udp then if sub.length < udpHeaderLength then none else some udpHeaderLength
  else if proto = tsmp then
    if moreFrags then none else if sub.length < minTSMPSize then none else some 0
  else none

/-- The parts of an IPv4 packet. -/
def layout4 (b : Bytes) : Layout :=
  let length := uint16 b 2
  let subofs := ((byteAt b 0 &&& 0x0f) <<< 2).toNat
  let fragFlags := BitVec.ofNat 16 (uint16 b 6)
  if b.length < length then { length := some length }
  else if length < subofs ∨ (fragFlags &&& 0x1fff).toNat ≠ 0 then
    { length := some length, subofs := some subofs }
  else
    { length := some length
      subofs := some subofs
      dataofs := (transportHeaderLen icmpv4 (byteAt b 9) (fragFlags &&& 0x2000 != 0)
        (b.drop subofs)).map (subofs + ·)
      foreignICMP := byteAt b 9 == icmpv6 }

/-- The parts of an IPv6 packet. -/
def layout6 (b : Bytes) : Layout :=
  let length := uint16 b 4 + ip6HeaderLength
  if b.length < length then { length := some length }
  else
    { length := some length
      subofs := some 40
      dataofs := (transportHeaderLen icmpv6 (byteAt b 6) false (b.drop 40)).map (40 + ·)
      foreignICMP := byteAt b 6 == icmpv4 }

/-- The parts of a packet. -/
def layout (b : Bytes) : Layout :=
  let version := (byteAt b 0 >>> 4).toNat
  if version = 4 ∧ ip4HeaderLength ≤ b.length then layout4 b
  else if version = 6 ∧ ip6HeaderLength ≤ b.length then layout6 b
  else {}

/-- `Payload` and `Transport` are for these protocols. -/
def Sized (proto : Proto) : Prop :=
  proto = tcp ∨ proto = udp ∨ proto = icmpv4 ∨ proto = icmpv6 ∨
    proto = tsmp

instance : DecidablePred Sized := fun _ => inferInstanceAs (Decidable (_ ∨ _))

theorem not_sized_unknown : ¬Sized Proto.unknown := by decide

theorem not_sized_fragment : ¬Sized fragment := by decide

/-- The protocols with a header that `Decode` looks into. -/
def HasHeader (icmp proto : Proto) : Prop :=
  proto = icmp ∨ proto = tcp ∨ proto = udp ∨ proto = tsmp

/-- The transport header was decoded: the offset of the payload is set where there is such a
header, and otherwise the protocol has none or is unknown. -/
structure Placed (q q' : Parsed) (icmp : Proto) (hdr : Option Nat) : Prop where
  b : q'.b = q.b
  length : q'.length = q.length
  subofs : q'.subofs = q.subofs
  ipVersion : q'.ipVersion = q.ipVersion
  dataofs : q'.dataofs = (hdr.map (q.subofs + ·)).getD q.dataofs
  ipProto : q'.ipProto = Proto.unknown ∨
    q'.ipProto = q.ipProto ∧ (hdr.isSome = true ∨ ¬HasHeader icmp q.ipProto)

namespace Placed

variable {icmp : Proto} (q) (sub : Bytes)

theorem unknown : Placed q q.asUnknown icmp none := ⟨rfl, rfl, rfl, rfl, rfl, .inl rfl⟩

theorem refl (h : ¬HasHeader icmp q.ipProto) : Placed q q icmp none :=
  ⟨rfl, rfl, rfl, rfl, rfl, .inr ⟨rfl, .inr h⟩⟩

theorem decodeICMP :
    Placed q (q.decodeICMP 4 sub) icmp (if sub.length < 4 then none else some 4) := by
  unfold Parsed.decodeICMP
  split_ifs
  · exact unknown q
  · exact ⟨rfl, rfl, rfl, rfl, rfl, .inr ⟨rfl, .inl rfl⟩⟩

theorem decodeTCP : Placed q (q.decodeTCP sub) icmp (if sub.length < tcpHeaderLength then none
    else some ((byteAt sub 12 &&& 0xf0) >>> 2).toNat) := by
  unfold Parsed.decodeTCP
  split_ifs
  · exact unknown q
  · exact ⟨rfl, rfl, rfl, rfl, rfl, .inr ⟨rfl, .inl rfl⟩⟩

theorem decodeUDP : Placed q (q.decodeUDP sub) icmp
    (if sub.length < udpHeaderLength then none else some udpHeaderLength) := by
  unfold Parsed.decodeUDP
  split_ifs
  · exact unknown q
  · exact ⟨rfl, rfl, rfl, rfl, rfl, .inr ⟨rfl, .inl rfl⟩⟩

theorem decodeSCTP (h : ¬HasHeader icmp q.ipProto) : Placed q (q.decodeSCTP sub) icmp none := by
  unfold Parsed.decodeSCTP
  split_ifs
  · exact unknown q
  · exact ⟨rfl, rfl, rfl, rfl, rfl, .inr ⟨rfl, .inr h⟩⟩

theorem decodeTSMP : Placed q (q.decodeTSMP sub) icmp
    (if sub.length < minTSMPSize then none else some 0) := by
  unfold Parsed.decodeTSMP
  split_ifs
  · exact unknown q
  · exact ⟨rfl, rfl, rfl, rfl, rfl, .inr ⟨rfl, .inl rfl⟩⟩

theorem decodeNext : Placed q (q.decodeNext icmp sub) icmp
    (transportHeaderLen icmp q.ipProto false sub) := by
  unfold Parsed.decodeNext transportHeaderLen
  by_cases hicmp : q.ipProto = icmp
  · rw [if_pos hicmp, if_pos hicmp]
    exact decodeICMP q sub
  rw [if_neg hicmp, if_neg hicmp]
  by_cases htcp : q.ipProto = tcp
  · rw [htcp]
    exact decodeTCP q sub
  by_cases hudp : q.ipProto = udp
  · rw [hudp]
    exact decodeUDP q sub
  by_cases htsmp : q.ipProto = tsmp
  · rw [htsmp]
    exact decodeTSMP q sub
  have hno : ¬HasHeader icmp q.ipProto := by
    rintro (h | h | h | h) <;> contradiction
  split_ifs
  · exact decodeSCTP q sub hno
  · exact unknown q
  · exact refl q hno

theorem decodeFirst4 (moreFrags : Bool) : Placed q (q.decodeFirst4 moreFrags sub) icmpv4
    (transportHeaderLen icmpv4 q.ipProto moreFrags sub) := by
  rw [decodeFirst4_eq]
  split_ifs with h
  · obtain ⟨h, -⟩ | ⟨h, rfl⟩ := h <;> rw [h] <;> exact unknown q
  have hfrags : transportHeaderLen icmpv4 q.ipProto moreFrags sub =
      transportHeaderLen icmpv4 q.ipProto false sub := by
    unfold transportHeaderLen
    cases moreFrags with
    | false => rfl
    | true => rw [if_neg fun htsmp => h (.inr ⟨htsmp, rfl⟩),
        if_neg fun htsmp => h (.inr ⟨htsmp, rfl⟩)]
  rw [hfrags]
  exact decodeNext q sub

end Placed

/-- The offsets are those of the bytes, and where these have none, those from before. -/
structure Decoded (q : Parsed) (b : Bytes) (l : Layout) (q' : Parsed) : Prop where
  buffer : q'.b = b
  length : q'.length = l.length.getD q.length
  subofs : q'.subofs = l.subofs.getD q.subofs
  dataofs : q'.dataofs = l.dataofs.getD q.dataofs
  sized : Sized q'.ipProto → l.foreignICMP = true ∨ q'.subofs ≤ q'.dataofs
  foreign : l.foreignICMP = true → Sized q'.ipProto ∧ q'.subofs ≤ q'.length ∧ q'.length ≤ b.length
  icmp : q'.ipVersion = 4 ∧ q'.ipProto = icmpv4 ∨
    q'.ipVersion = 6 ∧ q'.ipProto = icmpv6 → q'.subofs + 2 ≤ b.length
  room : q'.ipVersion = 4 ∨ q'.ipVersion = 6 → 6 ≤ b.length

/-- A packet of no protocol with offsets. -/
theorem Decoded.of_not_sized {q q' : Parsed} {b : Bytes} {l : Layout} (hb : q'.b = b)
    (hlen : q'.length = l.length.getD q.length) (hsub : q'.subofs = l.subofs.getD q.subofs)
    (hdata : q'.dataofs = l.dataofs.getD q.dataofs) (hl : l.foreignICMP = false)
    (hproto : ¬Sized q'.ipProto) (hroom : q'.ipVersion = 4 ∨ q'.ipVersion = 6 → 6 ≤ b.length) :
    Decoded q b l q' where
  buffer := hb
  length := hlen
  subofs := hsub
  dataofs := hdata
  sized h := absurd h hproto
  foreign h := by
    cases hl.symm.trans h
  icmp h := by
    refine absurd ?_ hproto
    rcases h with ⟨-, h⟩ | ⟨-, h⟩ <;> rw [h] <;> decide
  room := hroom

theorem transportHeaderLen_icmp {icmp : Proto} {moreFrags : Bool} {sub : Bytes}
    (h : (transportHeaderLen icmp icmp moreFrags sub).isSome = true) : 4 ≤ sub.length := by
  unfold transportHeaderLen at h
  rw [if_pos rfl] at h
  split_ifs at h with hlen
  · cases h
  · exact not_lt.1 hlen

/-- The ICMP protocols of a version and of the other one. -/
def ICMPOf (version : Nat) (icmp icmp' : Proto) : Prop :=
  version = 4 ∧ icmp = icmpv4 ∧ icmp' = icmpv6 ∨
    version = 6 ∧ icmp = icmpv6 ∧ icmp' = icmpv4

section Whole

variable {q₀ q' : Parsed} {icmp icmp' : Proto} {version : Nat} {moreFrags : Bool}
  {hdr : Option Nat}

/-- A protocol with offsets has a header, unless it is the ICMP of the other version. -/
theorem Sized.hasHeader {proto : Proto} (h : Sized proto) (hv : ICMPOf version icmp icmp') :
    HasHeader icmp proto ∨ proto = icmp' := by
  unfold Sized at h
  unfold HasHeader
  rcases hv with ⟨-, rfl, rfl⟩ | ⟨-, rfl, rfl⟩ <;> tauto

theorem Placed.subofs_le_dataofs (h : Placed q q' icmp hdr) (hv : ICMPOf version icmp icmp')
    (hsized : Sized q'.ipProto) : q.ipProto = icmp' ∨ q'.subofs ≤ q'.dataofs := by
  rcases h.ipProto with hunknown | ⟨hproto, hsome | hno⟩
  · rw [hunknown] at hsized
    exact absurd hsized not_sized_unknown
  · right
    obtain ⟨k, hk⟩ := Option.isSome_iff_exists.1 hsome
    rw [h.dataofs, h.subofs, hk]
    exact Nat.le_add_right _ _
  · rw [hproto] at hsized
    exact .inl ((hsized.hasHeader hv).resolve_left hno)

theorem Placed.icmp_room
    (h : Placed q q' icmp (transportHeaderLen icmp q.ipProto moreFrags (q.b.drop q.subofs)))
    (hv : ICMPOf version icmp icmp') (hicmp : q'.ipProto = icmp) :
    q'.subofs + 2 ≤ q.b.length := by
  have hne : icmp ≠ Proto.unknown := by
    rcases hv with ⟨-, rfl, -⟩ | ⟨-, rfl, -⟩ <;> decide
  rcases h.ipProto with hunknown | ⟨hproto, hsome | hno⟩
  · exact absurd (hicmp.symm.trans hunknown) hne
  · rw [← hproto, hicmp] at hsome
    have hroom := transportHeaderLen_icmp hsome
    rw [List.length_drop] at hroom
    rw [h.subofs]
    omega
  · exact absurd (.inl (hproto.symm.trans hicmp)) hno

theorem Placed.decoded {b : Bytes} {n s : Nat} {proto : Proto}
    (h : Placed q q' icmp (transportHeaderLen icmp proto moreFrags (b.drop s)))
    (hparts : q.b = b ∧ q.ipProto = proto ∧ q.length = n ∧ q.subofs = s)
    (hdata : q.dataofs = q₀.dataofs) (hsub : s ≤ n) (hlen : n ≤ b.length)
    (hv : ICMPOf q.ipVersion icmp icmp') (hroom : 6 ≤ b.length)
    (hforeign : proto = icmp' → q'.ipProto = q.ipProto) :
    Decoded q₀ b
      { length := some n
        subofs := some s
        dataofs := (transportHeaderLen icmp proto moreFrags (b.drop s)).map (s + ·)
        foreignICMP := proto == icmp' } q' := by
  obtain ⟨rfl, rfl, rfl, rfl⟩ := hparts
  refine ⟨h.b, h.length, h.subofs, ?_, fun hsized => ?_, fun hf => ?_, fun hicmp => ?_,
    fun _ => hroom⟩
  · rw [h.dataofs, hdata]
  · rw [beq_iff_eq]
    exact h.subofs_le_dataofs hv hsized
  · rw [beq_iff_eq] at hf
    rw [hforeign hf, h.subofs, h.length, hf]
    refine ⟨?_, hsub, hlen⟩
    rcases hv with ⟨-, -, rfl⟩ | ⟨-, -, rfl⟩ <;> decide
  · refine h.icmp_room hv ?_
    rw [h.ipVersion] at hicmp
    rcases hv with ⟨hv, rfl, -⟩ | ⟨hv, rfl, -⟩ <;> rw [hv] at hicmp <;> simpa using hicmp

end Whole

theorem decoded_decode4 {q₀ q : Parsed} (hsub : q.subofs = q₀.subofs)
    (hdata : q.dataofs = q₀.dataofs) (hv : q.ipVersion = 4) (hlen : ip4HeaderLength ≤ q.b.length) :
    Decoded q₀ q.b (layout4 q.b) (q.decode4 q.b) := by
  have hroom : 6 ≤ q.b.length := le_trans (by decide) hlen
  simp only [decode4, layout4]
  rw [if_neg (not_lt.2 hlen)]
  by_cases hcut : q.b.length < uint16 q.b 2
  · rw [if_pos hcut, if_pos hcut]
    exact .of_not_sized rfl rfl hsub hdata rfl not_sized_unknown fun _ => hroom
  rw [if_neg hcut, if_neg hcut]
  by_cases hbeyond : uint16 q.b 2 < ((byteAt q.b 0 &&& 0x0f) <<< 2).toNat
  · rw [if_pos hbeyond, if_pos (.inl hbeyond)]
    exact .of_not_sized rfl rfl rfl hdata rfl not_sized_unknown fun _ => hroom
  rw [if_neg hbeyond]
  by_cases hfirst : (BitVec.ofNat 16 (uint16 q.b 6) &&& 0x1fff).toNat = 0
  · rw [if_pos hfirst, if_neg (by rintro (h | h) <;> contradiction)]
    refine Placed.decoded (Placed.decodeFirst4 _ _ _) ⟨rfl, rfl, rfl, rfl⟩ hdata
      (not_lt.1 hbeyond) (not_lt.1 hcut) (.inl ⟨hv, rfl, rfl⟩) hroom fun hproto => ?_
    rw [hproto]
    rfl
  · rw [if_pos (.inr hfirst)]
    split_ifs
    · exact .of_not_sized rfl rfl rfl hdata rfl not_sized_unknown fun _ => hroom
    · exact .of_not_sized rfl rfl rfl hdata rfl not_sized_fragment fun _ => hroom

theorem decoded_decode6 {q₀ q : Parsed} (hsub : q.subofs = q₀.subofs)
    (hdata : q.dataofs = q₀.dataofs) (hv : q.ipVersion = 6) (hlen : ip6HeaderLength ≤ q.b.length) :
    Decoded q₀ q.b (layout6 q.b) (q.decode6 q.b) := by
  have hroom : 6 ≤ q.b.length := le_trans (by decide) hlen
  simp only [decode6_eq, layout6]
  rw [if_neg (not_lt.2 hlen)]
  by_cases hcut : q.b.length < uint16 q.b 4 + ip6HeaderLength
  · rw [if_pos hcut, if_pos hcut]
    exact .of_not_sized rfl rfl hsub hdata rfl not_sized_unknown fun _ => hroom
  rw [if_neg hcut, if_neg hcut]
  refine Placed.decoded (Placed.decodeNext _ _) ⟨rfl, rfl, rfl, rfl⟩ hdata (Nat.le_add_left 40 _)
    (not_lt.1 hcut) (.inr ⟨hv, rfl, rfl⟩) hroom fun hproto => ?_
  rw [hproto]
  rfl

/-- **Decoding sets the offsets that the bytes have.** -/
theorem decoded_decode (q : Parsed) (b : Bytes) : Decoded q b (layout b) (q.decode b) := by
  have hnot : Decoded q b {} { q with b := b, ipVersion := 0, ipProto := Proto.unknown } := by
    refine .of_not_sized rfl rfl rfl rfl rfl not_sized_unknown ?_
    rintro (h | h) <;> cases h
  simp only [decode, layout]
  by_cases hempty : b.length < 1
  · have hshort : ∀ n, 0 < n → ¬n ≤ b.length := by omega
    rw [if_pos hempty, if_neg fun h => hshort _ (by decide) h.2,
      if_neg fun h => hshort _ (by decide) h.2]
    exact hnot
  rw [if_neg hempty]
  by_cases h4 : (byteAt b 0 >>> 4).toNat = 4
  · rw [if_pos h4]
    by_cases hlen : ip4HeaderLength ≤ b.length
    · rw [if_pos ⟨h4, hlen⟩]
      exact decoded_decode4 (q := { q with b := b, ipVersion := _ }) rfl rfl h4 hlen
    · have h6 : ¬(byteAt b 0 >>> 4).toNat = 6 := by
        omega
      rw [if_neg fun h => hlen h.2, if_neg fun h => h6 h.1, decode4, if_pos (not_le.1 hlen)]
      exact hnot
  rw [if_neg h4, if_neg fun h => h4 h.1]
  by_cases h6 : (byteAt b 0 >>> 4).toNat = 6
  · rw [if_pos h6]
    by_cases hlen : ip6HeaderLength ≤ b.length
    · rw [if_pos ⟨h6, hlen⟩]
      exact decoded_decode6 (q := { q with b := b, ipVersion := _ }) rfl rfl h6 hlen
    · rw [if_neg fun h => hlen h.2, decode6, if_pos (not_le.1 hlen)]
      exact hnot
  · rw [if_neg h6, if_neg fun h => h6 h.1]
    exact hnot

/-! ## When the offsets fit -/

/-- No method is out of range, and the offsets of a packet with a payload are in order. -/
structure InBounds (q : Parsed) : Prop where
  payload : InRange q.payload
  transport : InRange q.transport
  icmp4Header : q.ipProto = icmpv4 → InRange q.icmp4Header
  icmp6Header : q.ipProto = icmpv6 → InRange q.icmp6Header
  asTailscaleRejectedHeader : InRange q.asTailscaleRejectedHeader
  asTSMPPing : InRange q.asTSMPPing
  asTSMPPong : InRange q.asTSMPPong
  asTSMPDiscoAdvertisement : InRange q.asTSMPDiscoAdvertisement
  ordered : Sized q.ipProto →
    q.subofs ≤ q.dataofs ∧ q.dataofs ≤ q.length ∧ q.length ≤ q.b.length ∨ q.payload = .ok []

/-- The bytes, with the offsets from before where they have none, are laid out in order. -/
structure Fits (q : Parsed) (b : Bytes) : Prop where
  transport : (layout b).subofs.getD q.subofs ≤ b.length
  payload : (layout b).length.getD q.length > b.length ∨
    (layout b).dataofs.getD q.dataofs > b.length ∨
    (layout b).dataofs.getD q.dataofs ≤ (layout b).length.getD q.length
  foreignICMP : (layout b).foreignICMP = true → (layout b).dataofs.getD q.dataofs > b.length ∨
    (layout b).subofs.getD q.subofs ≤ (layout b).dataofs.getD q.dataofs

section Fit

variable {q' : Parsed} {b : Bytes} {l : Layout}

/-- The payload of an ICMP message of the other version is after the start of its header, or it
is not there. -/
theorem Decoded.foreign_fits (h : Decoded q b l q') (hforeign : l.foreignICMP = true)
    (hin : q'.InBounds) : q'.dataofs > b.length ∨ q'.subofs ≤ q'.dataofs := by
  obtain ⟨hsized, hsub, hlen⟩ := h.foreign hforeign
  rcases hin.ordered hsized with ⟨horder, -, -⟩ | hnone
  · exact .inr horder
  · have hend := payload_eq_nil hnone
    rw [h.buffer] at hend
    omega

theorem Decoded.ordered (h : Decoded q b l q') (hin : InRange q'.payload)
    (hforeign : l.foreignICMP = true → q'.dataofs > b.length ∨ q'.subofs ≤ q'.dataofs)
    (hsized : Sized q'.ipProto) :
    q'.subofs ≤ q'.dataofs ∧ q'.dataofs ≤ q'.length ∧ q'.length ≤ q'.b.length ∨
      q'.payload = .ok [] := by
  by_cases hnone : q'.length > q'.b.length ∨ q'.dataofs > q'.b.length
  · exact .inr (if_pos hnone)
  have hle := inRange_payload_iff.1 hin
  have hsub : q'.subofs ≤ q'.dataofs := by
    rcases h.sized hsized with hf | hsub
    · rw [h.buffer] at hnone
      exact (hforeign hf).resolve_left fun hd => hnone (.inr hd)
    · exact hsub
  omega

end Fit

/-- **No method is out of range exactly if the offsets fit**: the length of the packet is not below
the end of its transport header, and the offsets that are left from before do no harm. -/
theorem decode_inBounds_iff (q : Parsed) (b : Bytes) : (q.decode b).InBounds ↔ q.Fits b := by
  have h := decoded_decode q b
  have hpayload : InRange (q.decode b).payload ↔ (layout b).length.getD q.length > b.length ∨
      (layout b).dataofs.getD q.dataofs > b.length ∨
      (layout b).dataofs.getD q.dataofs ≤ (layout b).length.getD q.length := by
    rw [inRange_payload_iff, h.buffer, h.length, h.dataofs]
  have htransport : InRange (q.decode b).transport ↔
      (layout b).subofs.getD q.subofs ≤ b.length := by
    rw [transport, inRange_slice_iff, h.buffer, h.subofs]
    exact and_iff_left le_rfl
  constructor
  · intro hin
    refine ⟨htransport.1 hin.transport, hpayload.1 hin.payload, fun hforeign => ?_⟩
    rw [← h.dataofs, ← h.subofs]
    exact h.foreign_fits hforeign hin
  · intro hfits
    have hin := hpayload.2 hfits.payload
    have hforeign := hfits.foreignICMP
    rw [← h.dataofs, ← h.subofs] at hforeign
    refine ⟨hin, htransport.2 hfits.transport, fun hproto => .icmp4Header fun hv => ?_,
      fun hproto => .icmp6Header fun hv => ?_, hin.asTailscaleRejectedHeader,
      hin.asTSMPPing, hin.asTSMPPong, hin.asTSMPDiscoAdvertisement, h.ordered hin hforeign⟩
    · rw [h.buffer]
      exact ⟨h.room (.inl hv), h.icmp (.inl ⟨hv, hproto⟩)⟩
    · rw [h.buffer]
      exact ⟨h.room (.inr hv), h.icmp (.inr ⟨hv, hproto⟩)⟩

/-- A TCP packet that gives its length as that of the IP header, in a longer buffer. -/
def shortLength : Bytes :=
  [0x45, 0, 0, 20, 0, 0, 0, 0, 64, tcp] ++ List.replicate 22 0 ++ [0x50] ++ List.replicate 7 0

/-- The payload of the packet starts after its end, and `Payload` slices so. -/
theorem payload_shortLength : (decode {} shortLength).payload = .error .bounds := by decide

/-- After a packet with an offset, `Transport` of an empty packet is out of range. -/
example : (decode { subofs := 20 } []).transport = .error .bounds := by decide

end Multiport.Net.Parsed

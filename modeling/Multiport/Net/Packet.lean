import Multiport.Lib.Bytes
import Multiport.Net.Prefix

/-!
# Parsed packets

`net/packet`'s `Parsed` and its `Decode`, which fills a record that may still
hold the fields of an earlier packet: what a branch of the decoder does not
assign keeps its old value.  The one result is what the packet filter relies
on: a decoded packet of a known protocol has both addresses of the family of its
version, and without a zone.
-/

namespace Multiport.Net

open Lib

/-- `ipproto.Proto`. -/
abbrev Proto := BitVec 8

namespace Proto

def unknown : Proto := 0x00
def icmpv4 : Proto := 0x01
def igmp : Proto := 0x02
def icmpv6 : Proto := 0x3a
def tcp : Proto := 0x06
def udp : Proto := 0x11
def sctp : Proto := 0x84
def tsmp : Proto := 99

/-- A fragment after the first one; reserved in the registry and used internally. -/
def fragment : Proto := 0xff

end Proto

/-- `packet.Parsed`. -/
structure Parsed where
  /-- The buffer that is decoded. -/
  b : Bytes := []
  /-- The offset of the IP subprotocol. -/
  subofs : Nat := 0
  /-- The offset of its payload. -/
  dataofs : Nat := 0
  /-- The length of the packet; the buffer may be longer. -/
  length : Nat := 0
  /-- 4, 6, or 0 for what does not look like IP. -/
  ipVersion : Nat := 0
  ipProto : Proto := .unknown
  src : AddrPort := {}
  dst : AddrPort := {}
  tcpFlags : BitVec 8 := 0
deriving DecidableEq, Repr

namespace Parsed

/-! ## Decoding -/

def ip4HeaderLength : Nat := 20
def ip6HeaderLength : Nat := 40
def icmp4HeaderLength : Nat := 4
def icmp6HeaderLength : Nat := 4
def igmpHeaderLength : Nat := 8
def tcpHeaderLength : Nat := 20
def udpHeaderLength : Nat := 8
def sctpHeaderLength : Nat := 12
def minTSMPSize : Nat := 7

/-- `minFragBlks`, in blocks of eight bytes. -/
def minFragBlks : Nat := (60 + 20) / 8

/-- `b[i]`; the decoder has checked the length. -/
def byteAt (b : Bytes) (i : Nat) : Byte := b.getD i 0

/-- `binary.BigEndian.Uint16(b[i:i+2])`. -/
def uint16 (b : Bytes) (i : Nat) : Nat := beNat ((b.drop i).take 2)

def withIP (ap : AddrPort) (ip : Addr) : AddrPort := ⟨ip, ap.port⟩

def withPort (ap : AddrPort) (port : UInt16) : AddrPort := ⟨ap.addr, port⟩

variable (q : Parsed)

/-- The packet with an unknown protocol. -/
def asUnknown : Parsed := { q with ipProto := .unknown }

/-- Both ports, from the first four bytes of the subprotocol's header. -/
def withPorts (sub : Bytes) : Parsed :=
  { q with src := withPort q.src (UInt16.ofNat (uint16 sub 0)),
           dst := withPort q.dst (UInt16.ofNat (uint16 sub 2)) }

/-- Ports, flags and the offset of the payload of a TCP packet. -/
def decodeTCP (sub : Bytes) : Parsed :=
  if sub.length < tcpHeaderLength then q.asUnknown
  else { q.withPorts sub with
          tcpFlags := byteAt sub 13,
          dataofs := q.subofs + ((byteAt sub 12 &&& 0xf0) >>> 2).toNat }

def decodeUDP (sub : Bytes) : Parsed :=
  if sub.length < udpHeaderLength then q.asUnknown
  else { q.withPorts sub with dataofs := q.subofs + udpHeaderLength }

def decodeSCTP (sub : Bytes) : Parsed :=
  if sub.length < sctpHeaderLength then q.asUnknown else q.withPorts sub

def decodeTSMP (sub : Bytes) : Parsed :=
  if sub.length < minTSMPSize then q.asUnknown else { q with dataofs := q.subofs }

/-- An ICMP packet has the port 0 on both sides. -/
def decodeICMP (headerLength : Nat) (sub : Bytes) : Parsed :=
  if sub.length < headerLength then q.asUnknown
  else { q with src := withPort q.src 0, dst := withPort q.dst 0,
                dataofs := q.subofs + headerLength }

/-- The switch of `decode4` over the subprotocol of a first fragment. -/
def decodeFirst4 (moreFrags : Bool) (sub : Bytes) : Parsed :=
  if q.ipProto = .icmpv4 then q.decodeICMP icmp4HeaderLength sub
  else if q.ipProto = .igmp then
    if sub.length < igmpHeaderLength then q.asUnknown else q
  else if q.ipProto = .tcp then q.decodeTCP sub
  else if q.ipProto = .udp then q.decodeUDP sub
  else if q.ipProto = .sctp then q.decodeSCTP sub
  else if q.ipProto = .tsmp then
    -- A fragmented message of this protocol is never allowed.
    if moreFrags then q.asUnknown else q.decodeTSMP sub
  else if q.ipProto = .fragment then q.asUnknown
  else q

variable (b : Bytes)

def decode4 : Parsed :=
  if b.length < ip4HeaderLength then { q with ipVersion := 0, ipProto := .unknown }
  else
    let q := { q with ipProto := byteAt b 9, length := uint16 b 2 }
    if b.length < q.length then q.asUnknown
    else
      let q := { q with
        src := withIP q.src (.v4 (getBE 32 ((b.drop 12).take 4))),
        dst := withIP q.dst (.v4 (getBE 32 ((b.drop 16).take 4))),
        subofs := ((byteAt b 0 &&& 0x0f) <<< 2).toNat }
      if q.length < q.subofs then q.asUnknown
      else
        let fragFlags := BitVec.ofNat 16 (uint16 b 6)
        let moreFrags := fragFlags &&& 0x2000 != 0
        let fragOfs := (fragFlags &&& 0x1fff).toNat
        if fragOfs = 0 then q.decodeFirst4 moreFrags (b.drop q.subofs)
        else if fragOfs < minFragBlks then q.asUnknown
        else { q with ipProto := .fragment }

/-- `decode6`; there are no extension headers and no fragments. -/
def decode6 : Parsed :=
  if b.length < ip6HeaderLength then { q with ipVersion := 0, ipProto := .unknown }
  else
    let q := { q with ipProto := byteAt b 6, length := uint16 b 4 + ip6HeaderLength }
    if b.length < q.length then q.asUnknown
    else
      let q := { q with
        src := withIP q.src (.v6 (getBE 128 ((b.drop 8).take 16)) ""),
        dst := withIP q.dst (.v6 (getBE 128 ((b.drop 24).take 16)) ""),
        subofs := 40 }
      let sub := b.drop q.subofs
      if q.ipProto = .icmpv6 then q.decodeICMP icmp6HeaderLength sub
      else if q.ipProto = .tcp then q.decodeTCP sub
      else if q.ipProto = .udp then q.decodeUDP sub
      else if q.ipProto = .sctp then q.decodeSCTP sub
      else if q.ipProto = .tsmp then q.decodeTSMP sub
      else if q.ipProto = .fragment then q.asUnknown
      else q

/-- `Decode`, into a record with the contents `q`. -/
def decode : Parsed :=
  let q := { q with b := b }
  if b.length < 1 then { q with ipVersion := 0, ipProto := .unknown }
  else
    let q := { q with ipVersion := (byteAt b 0 >>> 4).toNat }
    if q.ipVersion = 4 then q.decode4 b
    else if q.ipVersion = 6 then q.decode6 b
    else { q with ipVersion := 0, ipProto := .unknown }

/-! ## The switch of both versions -/

/-- What `decode4` and `decode6` do by the subprotocol; `icmp` is that of the version. -/
def decodeNext (icmp : Proto) (q : Parsed) (sub : Bytes) : Parsed :=
  if q.ipProto = icmp then q.decodeICMP 4 sub
  else if q.ipProto = .tcp then q.decodeTCP sub
  else if q.ipProto = .udp then q.decodeUDP sub
  else if q.ipProto = .sctp then q.decodeSCTP sub
  else if q.ipProto = .tsmp then q.decodeTSMP sub
  else if q.ipProto = .fragment then q.asUnknown
  else q

/-- IPv4 has two more reasons not to know a protocol. -/
theorem decodeFirst4_eq (moreFrags : Bool) (sub : Bytes) :
    q.decodeFirst4 moreFrags sub =
      if q.ipProto = .igmp ∧ sub.length < igmpHeaderLength ∨
        q.ipProto = .tsmp ∧ moreFrags = true then q.asUnknown
      else q.decodeNext .icmpv4 sub := by
  unfold decodeFirst4 decodeNext
  by_cases higmp : q.ipProto = .igmp
  · simp [higmp, Proto.icmpv4, Proto.igmp, Proto.tcp, Proto.udp, Proto.sctp, Proto.tsmp,
      Proto.fragment]
  by_cases htsmp : q.ipProto = .tsmp
  · simp [htsmp, Proto.icmpv4, Proto.igmp, Proto.tcp, Proto.udp, Proto.sctp, Proto.tsmp]
  · simp [higmp, htsmp, icmp4HeaderLength]

theorem decode6_eq : q.decode6 b =
    if b.length < ip6HeaderLength then { q with ipVersion := 0, ipProto := .unknown }
    else if b.length < uint16 b 4 + ip6HeaderLength then
      { q with ipProto := .unknown, length := uint16 b 4 + ip6HeaderLength }
    else
      decodeNext .icmpv6 { q with
        ipProto := byteAt b 6
        length := uint16 b 4 + ip6HeaderLength
        src := withIP q.src (.v6 (getBE 128 ((b.drop 8).take 16)) "")
        dst := withIP q.dst (.v6 (getBE 128 ((b.drop 24).take 16)) "")
        subofs := 40 } (b.drop 40) := rfl

/-- Both addresses are of the family of the version and have no zone. -/
structure InFamily (q : Parsed) : Prop where
  version : q.ipVersion = 4 ∧ q.src.addr.is4 = true ∧ q.dst.addr.is4 = true ∨
    q.ipVersion = 6 ∧ q.src.addr.is6 = true ∧ q.dst.addr.is6 = true
  src_zone : q.src.addr.zone = ""
  dst_zone : q.dst.addr.zone = ""

/-- The version and the addresses of two packets are the same. -/
def SameAddrs (q q' : Parsed) : Prop :=
  q'.ipVersion = q.ipVersion ∧ q'.src.addr = q.src.addr ∧ q'.dst.addr = q.dst.addr

theorem SameAddrs.inFamily {q q' : Parsed} (h : SameAddrs q q') (hq : q.InFamily) :
    q'.InFamily := by
  obtain ⟨hv, hs, hd⟩ := h
  exact ⟨by rw [hv, hs, hd]; exact hq.version, by rw [hs]; exact hq.src_zone,
    by rw [hd]; exact hq.dst_zone⟩

theorem sameAddrs_decodeNext (icmp : Proto) (q : Parsed) (sub : Bytes) :
    SameAddrs q (q.decodeNext icmp sub) := by
  unfold decodeNext decodeICMP decodeTCP decodeUDP decodeSCTP decodeTSMP
  split_ifs <;> exact ⟨rfl, rfl, rfl⟩

theorem inFamily_decode4 (hv : q.ipVersion = 4)
    (h : (q.decode4 b).ipProto ≠ .unknown) : (q.decode4 b).InFamily := by
  revert h
  simp only [decode4, decodeFirst4_eq]
  split_ifs
  · exact fun h => absurd rfl h
  · exact fun h => absurd rfl h
  · exact fun h => absurd rfl h
  · exact fun h => absurd rfl h
  · exact fun _ => (sameAddrs_decodeNext ..).inFamily ⟨.inl ⟨hv, rfl, rfl⟩, rfl, rfl⟩
  · exact fun h => absurd rfl h
  · exact fun _ => ⟨.inl ⟨hv, rfl, rfl⟩, rfl, rfl⟩

theorem inFamily_decode6 (hv : q.ipVersion = 6)
    (h : (q.decode6 b).ipProto ≠ .unknown) : (q.decode6 b).InFamily := by
  revert h
  rw [decode6_eq]
  split_ifs
  · exact fun h => absurd rfl h
  · exact fun h => absurd rfl h
  · exact fun _ => (sameAddrs_decodeNext ..).inFamily ⟨.inr ⟨hv, rfl, rfl⟩, rfl, rfl⟩

/-- **A decoded packet of a known protocol has the addresses of its version**,
whatever the record held before. -/
theorem inFamily_decode {q : Parsed} {b : Bytes} (h : (q.decode b).ipProto ≠ .unknown) :
    (q.decode b).InFamily := by
  revert h
  simp only [decode]
  split_ifs with _ h4 h6
  · exact fun h => absurd rfl h
  · exact inFamily_decode4 _ b h4
  · exact inFamily_decode6 _ b h6
  · exact fun h => absurd rfl h

/-! ## What a filter asks of a packet -/

/-- `IsTCPSyn`: SYN without ACK. -/
def isTCPSyn : Bool := q.tcpFlags &&& 0x12 == 0x02

/-- The ICMP header is within the buffer. -/
def hasICMPHeader : Bool := decide (q.subofs + 8 ≤ q.b.length)

/-- `IsError`: an ICMP error. -/
def isError : Bool :=
  if q.ipProto = .icmpv4 then
    q.hasICMPHeader && ([0x03, 0x0b, 0x12] : List Byte).contains (byteAt q.b q.subofs)
  else if q.ipProto = .icmpv6 then
    q.hasICMPHeader && ([1, 2, 3, 4] : List Byte).contains (byteAt q.b q.subofs)
  else false

/-- An ICMP echo message of the type that its version has for it. -/
def isEcho (type4 type6 : Byte) : Bool :=
  if q.ipProto = .icmpv4 then
    q.hasICMPHeader && byteAt q.b q.subofs == type4 && byteAt q.b (q.subofs + 1) == 0
  else if q.ipProto = .icmpv6 then
    q.hasICMPHeader && byteAt q.b q.subofs == type6 && byteAt q.b (q.subofs + 1) == 0
  else false

def isEchoRequest : Bool := q.isEcho 0x08 128

def isEchoResponse : Bool := q.isEcho 0x00 129

end Parsed

end Multiport.Net

import Mathlib.Tactic.IntervalCases
import Multiport.Udprelay.Server

/-!
# What a packet looks like

Disco and WireGuard packets come to one socket, naked or behind a Geneve header
(`net/packet/geneve.go`), next to STUN bindings.  `packetLooksLike`
(`wgengine/magicsock/magicsock.go`) tells them apart by their first bytes.
`Sent.classified` is about the two ends together: whatever a node sends is taken by its
peer for what it is.
-/

namespace Multiport.Magicsock

open Lib Net List VirtualNetworkID
open Multiport.Udprelay (isSTUNBinding magic geneveProtocolDisco)

/-- `VirtualNetworkID.Get`. -/
def vniGet (v : VirtualNetworkID) : BitVec 32 := v.vni &&& 0x00ffffff

def geneveProtocolWireGuard : BitVec 16 := 0x7a12

def geneveFixedHeaderLength : Nat := 8

/-- `packet.GeneveHeader`. -/
structure GeneveHeader where
  version : Byte := 0
  protocol : BitVec 16 := 0
  vni : VirtualNetworkID := {}
  control : Bool := false
deriving DecidableEq, Repr

/-- The errors of `Encode` and `Decode`. -/
inductive GeneveError
  | shortBuffer
  | vniUnset
  | version
deriving DecidableEq, Repr

namespace GeneveHeader

/-- The eight bytes that `Encode` writes. -/
def bytes (h : GeneveHeader) : Bytes :=
  [h.version <<< 6, if h.control then 0x80 else 0] ++ putBE 2 h.protocol ++
    putBE 4 (vniGet h.vni <<< 8)

/-- `GeneveHeader.Encode`: the buffer with the header in it. -/
def encode (h : GeneveHeader) (b : Bytes) : Except GeneveError Bytes :=
  if b.length < geneveFixedHeaderLength then .error .shortBuffer
  else if !h.vni.isSet then .error .vniUnset
  else if 3 < h.version then .error .version
  else .ok (h.bytes ++ b.drop geneveFixedHeaderLength)

/-- `GeneveHeader.Decode`.  The control flag of `h` is set, and never cleared. -/
def decode (h : GeneveHeader) (b : Bytes) : Except GeneveError GeneveHeader :=
  if b.length < geneveFixedHeaderLength then .error .shortBuffer
  else .ok
    { version := b.getD 0 0 >>> 6
      control := if b.getD 1 0 &&& 0x80 ≠ 0 then true else h.control
      protocol := getBE 16 ((b.drop 2).take 2)
      vni := .set (getBE 32 ((b.drop 4).take 4) >>> 8) }

end GeneveHeader

/-- `discoHeaderLen`: the magic and a disco key. -/
def discoHeaderLen : Nat := magic.length + 32

inductive PacketLooksLikeType
  | wireGuard
  | stunBinding
  | disco
deriving DecidableEq, Repr

/-- The local `looksLikeDisco` of `packetLooksLike`. -/
def looksLikeDisco (msg : Bytes) : Bool :=
  discoHeaderLen ≤ msg.length && msg.take magic.length == magic

/-- There is a Geneve header such as we write. -/
def hasGeneveHeader (msg : Bytes) : Bool :=
  geneveFixedHeaderLength ≤ msg.length && msg.getD 0 0 &&& 0xc0 == 0 &&
    msg.getD 1 0 &&& 0x3f == 0 && msg.getD 7 0 == 0

/-- The end of `packetLooksLike`, for packets that are not encapsulated. -/
def nakedLooksLike (msg : Bytes) : PacketLooksLikeType × Bool :=
  if looksLikeDisco msg then (.disco, false) else (.wireGuard, false)

/-- `packetLooksLike`: the type, and whether the packet has a Geneve header. -/
def packetLooksLike (msg : Bytes) : PacketLooksLikeType × Bool :=
  if isSTUNBinding msg then (.stunBinding, false)
  else if hasGeneveHeader msg then
    let protocol := getBE 16 ((msg.drop 2).take 2)
    if protocol = geneveProtocolDisco then
      if looksLikeDisco (msg.drop geneveFixedHeaderLength) then (.disco, true)
      else (.wireGuard, false)
    else if protocol = geneveProtocolWireGuard then (.wireGuard, true)
    else nakedLooksLike msg
  else nakedLooksLike msg

/-! ## The header -/

/-- A network ID survives the eight bits it is shifted by. -/
theorem set_vniGet (v : BitVec 32) : set (vniGet (.set v) <<< 8 >>> 8) = .set v := by
  unfold vniGet VirtualNetworkID.set
  congr 1
  ext i hi
  interval_cases i <;> simp

namespace GeneveHeader

variable (h : GeneveHeader) (p : Bytes)

@[simp] theorem length_bytes : h.bytes.length = geneveFixedHeaderLength := by
  simp [bytes, geneveFixedHeaderLength]

theorem bytes_append : h.bytes ++ p = [h.version <<< 6, if h.control then 0x80 else 0] ++
    (putBE 2 h.protocol ++ (putBE 4 (vniGet h.vni <<< 8) ++ p)) := by
  simp [bytes]

theorem bytes_protocol : getBE 16 (((h.bytes ++ p).drop 2).take 2) = h.protocol := by
  rw [bytes_append, drop_left' (by simp), take_left' (length_putBE 2 _),
    getBE_putBE (by decide)]

theorem bytes_vni : getBE 32 (((h.bytes ++ p).drop 4).take 4) = vniGet h.vni <<< 8 := by
  rw [bytes_append, ← append_assoc, drop_left' (by simp),
    take_left' (length_putBE 4 _), getBE_putBE (by decide)]

theorem bytes_reserved : (h.bytes ++ p).getD 7 0 = 0 := by
  have hlow : BitVec.ofNat 8 (vniGet h.vni <<< 8).toNat = 0 := by
    apply BitVec.eq_of_toNat_eq
    simp [Nat.shiftLeft_eq]
  rw [bytes_append]
  unfold putBE
  simpa [beBytes] using hlow

/-- **What was written is read**, but for a control flag that was set before. -/
theorem decode_bytes (h₀ : GeneveHeader) (hver : h.version = 0) {v : BitVec 32}
    (hvni : h.vni = .set v) :
    h₀.decode (h.bytes ++ p) = .ok { h with control := h.control || h₀.control } := by
  obtain ⟨version, protocol, vni, control⟩ := h
  obtain rfl : version = 0 := hver
  obtain rfl : vni = .set v := hvni
  unfold decode
  rw [if_neg (by simp), bytes_protocol, bytes_vni, set_vniGet]
  cases control <;> simp [bytes]

end GeneveHeader

/-- The first bytes of a header are those that `packetLooksLike` looks for. -/
theorem packetLooksLike_bytes (h : GeneveHeader) (hver : h.version = 0) (p : Bytes) :
    packetLooksLike (h.bytes ++ p) =
      if h.protocol = geneveProtocolDisco then
        if looksLikeDisco p then (.disco, true) else (.wireGuard, false)
      else if h.protocol = geneveProtocolWireGuard then (.wireGuard, true)
      else nakedLooksLike (h.bytes ++ p) := by
  have hfirst : (h.bytes ++ p).getD 0 0 = 0 := by simp [GeneveHeader.bytes, hver]
  have hsecond : (h.bytes ++ p).getD 1 0 = if h.control then 0x80 else 0 := by rfl
  have hstun : isSTUNBinding (h.bytes ++ p) = false := by
    unfold isSTUNBinding
    rw [hsecond]
    cases h.control <;> simp
  have hgeneve : hasGeneveHeader (h.bytes ++ p) = true := by
    unfold hasGeneveHeader
    rw [hfirst, hsecond, h.bytes_reserved]
    cases h.control <;> simp
  unfold packetLooksLike
  rw [hstun, hgeneve, h.bytes_protocol]
  simp

/-! ## Both ends -/

/-- A disco frame: the magic, the sender's key and the box. -/
structure DiscoFrame where
  bytes : Bytes
  len : discoHeaderLen ≤ bytes.length
  starts : bytes.take magic.length = magic

theorem DiscoFrame.looksLikeDisco (f : DiscoFrame) : looksLikeDisco f.bytes = true := by
  simp [Magicsock.looksLikeDisco, f.len, f.starts]

/-- A disco frame has no bytes of a STUN binding or a Geneve header where those have theirs. -/
theorem DiscoFrame.packetLooksLike_naked (f : DiscoFrame) :
    packetLooksLike f.bytes = (.disco, false) := by
  obtain ⟨rest, hrest⟩ : ∃ rest, f.bytes = magic ++ rest := by
    refine ⟨f.bytes.drop magic.length, ?_⟩
    conv_lhs => rw [← take_append_drop magic.length f.bytes, f.starts]
  have hstun : isSTUNBinding f.bytes = false := by
    rw [hrest]
    simp [isSTUNBinding, magic]
  have hgeneve : hasGeneveHeader f.bytes = false := by
    rw [hrest]
    simp [hasGeneveHeader, magic]
  unfold packetLooksLike nakedLooksLike
  rw [hstun, hgeneve, f.looksLikeDisco]
  simp

/-- A WireGuard message: its type in one byte, and three bytes that are zero. -/
structure WireGuardMessage where
  type : Byte
  one_le : 1 ≤ type
  le_four : type ≤ 4
  rest : Bytes

def WireGuardMessage.bytes (m : WireGuardMessage) : Bytes := m.type :: 0 :: 0 :: 0 :: m.rest

/-- A WireGuard message may have a Geneve header's reserved bits, but then the protocol is zero. -/
theorem WireGuardMessage.packetLooksLike_naked (m : WireGuardMessage) :
    packetLooksLike m.bytes = (.wireGuard, false) := by
  have hstun : isSTUNBinding m.bytes = false := by simp [isSTUNBinding, bytes]
  have hprotocol : getBE 16 ((m.bytes.drop 2).take 2) = 0 := by simp [bytes, getBE, beNat]
  have hdisco : looksLikeDisco m.bytes = false := by simp [looksLikeDisco, bytes, magic]
  have hnaked : nakedLooksLike m.bytes = (.wireGuard, false) := by
    rw [nakedLooksLike, hdisco]
    rfl
  unfold packetLooksLike
  rw [hstun, hprotocol, hnaked]
  simp [geneveProtocolDisco, geneveProtocolWireGuard]

/-- What a node sends to a peer: naked, or for a relay with the network ID and the control
flag of a Geneve header. -/
inductive Sent
  | disco (frame : DiscoFrame)
  | wireGuard (msg : WireGuardMessage)
  | geneveDisco (vni : BitVec 32) (control : Bool) (frame : DiscoFrame)
  | geneveWireGuard (vni : BitVec 32) (control : Bool) (payload : Bytes)

namespace Sent

/-- The Geneve header of what is sent. -/
def header : Sent → Option GeneveHeader
  | .disco _ | .wireGuard _ => none
  | .geneveDisco vni control _ => some { protocol := geneveProtocolDisco, vni := .set vni, control }
  | .geneveWireGuard vni control _ =>
    some { protocol := geneveProtocolWireGuard, vni := .set vni, control }

/-- What comes after the header. -/
def payload : Sent → Bytes
  | .disco frame | .geneveDisco _ _ frame => frame.bytes
  | .wireGuard msg => msg.bytes
  | .geneveWireGuard _ _ payload => payload

/-- The packet: `Encode` writes to a buffer with room for the header. -/
def packet (s : Sent) : Except GeneveError Bytes :=
  match s.header with
  | none => .ok s.payload
  | some h => h.encode (List.replicate geneveFixedHeaderLength 0 ++ s.payload)

/-- What is sent. -/
def kind : Sent → PacketLooksLikeType
  | .disco _ | .geneveDisco _ _ _ => .disco
  | .wireGuard _ | .geneveWireGuard _ _ _ => .wireGuard

/-- A header is written with any network ID that was set. -/
theorem encode_eq {h : GeneveHeader} (hver : h.version = 0) {v : BitVec 32} (hvni : h.vni = .set v)
    (p : Bytes) :
    h.encode (List.replicate geneveFixedHeaderLength 0 ++ p) = .ok (h.bytes ++ p) := by
  unfold GeneveHeader.encode
  rw [hvni, isSet_set, hver]
  rfl

/-- **What a node sends is taken for what it is**, and the header that its peer reads is the one
it has. -/
theorem classified (s : Sent) : ∃ b, s.packet = .ok b ∧
    packetLooksLike b = (s.kind, s.header.isSome) ∧
      ∀ h ∈ s.header, GeneveHeader.decode {} b = .ok h := by
  cases s with
  | disco frame => exact ⟨_, rfl, frame.packetLooksLike_naked, fun h hh => by cases hh⟩
  | wireGuard msg => exact ⟨_, rfl, msg.packetLooksLike_naked, fun h hh => by cases hh⟩
  | geneveDisco vni control frame =>
    refine ⟨_, encode_eq rfl rfl _, ?_, ?_⟩
    · rw [packetLooksLike_bytes _ rfl, payload, if_pos frame.looksLikeDisco]
      rfl
    · rintro _ ⟨⟩
      rw [GeneveHeader.decode_bytes _ _ _ rfl rfl, Bool.or_false]
  | geneveWireGuard vni control p =>
    refine ⟨_, encode_eq rfl rfl _, ?_, ?_⟩
    · rw [packetLooksLike_bytes _ rfl]
      rfl
    · rintro _ ⟨⟩
      rw [GeneveHeader.decode_bytes _ _ _ rfl rfl, Bool.or_false]

/-- A frame with a key and an empty box. -/
def bareFrame : DiscoFrame := ⟨magic ++ List.replicate 32 7, by decide, by decide⟩

/-- A message of the transport, which is of the type 4. -/
def transportMessage : WireGuardMessage := ⟨4, by decide, by decide, List.replicate 28 7⟩

/-- A frame for a relay and a naked message. -/
theorem classified_bareFrame :
    (∃ b, (Sent.geneveDisco 9 true bareFrame).packet = .ok b ∧
      packetLooksLike b = (.disco, true)) ∧
    ∃ b, (Sent.wireGuard transportMessage).packet = .ok b ∧
      packetLooksLike b = (.wireGuard, false) := by
  obtain ⟨b, hb, hlooks, -⟩ := classified (.geneveDisco 9 true bareFrame)
  obtain ⟨b', hb', hlooks', -⟩ := classified (.wireGuard transportMessage)
  exact ⟨⟨b, hb, hlooks⟩, b', hb', hlooks'⟩

end Sent

end Multiport.Magicsock

import Mathlib.Data.List.Basic

/-!
# Addresses

The address types the rest of the development is about: `netip.Addr`,
`netip.AddrPort` and `netip.Prefix` of Go's standard library, the Geneve
`VirtualNetworkID` of `net/packet/geneve.go`, and magicsock's `epAddr`, a
destination that is either a UDP address or a UDP address behind a relay.

`AddrPort.string` is `AddrPort.String`.  It matters because path rankings break
their last tie by comparing these texts.
-/

namespace Multiport.Net

/-- `netip.Addr`: the zero value, an IPv4 address, or an IPv6 address with a
possibly empty zone. -/
inductive Addr where
  | zero
  | v4 (a : BitVec 32)
  | v6 (a : BitVec 128) (zone : String)
deriving DecidableEq, Repr

namespace Addr

def isValid : Addr → Bool
  | zero => false
  | _ => true

/-- `Addr.Is4`; IPv4-mapped IPv6 addresses are not IPv4. -/
def is4 : Addr → Bool
  | v4 _ => true
  | _ => false

/-- `Addr.Is6`, true of IPv4-mapped addresses too. -/
def is6 : Addr → Bool
  | v6 _ _ => true
  | _ => false

/-- Dotted decimal notation. -/
def string4 (a : BitVec 32) : String :=
  ".".intercalate ([24, 16, 8, 0].map fun s => toString (a.extractLsb' s 8).toNat)

variable (a : BitVec 128)

/-- The eight 16-bit groups of an IPv6 address, in order. -/
def groups : List Nat :=
  (List.range 8).map fun i => (a.extractLsb' (112 - 16 * i) 16).toNat

/-- The groups `[start, stop)` written as `::`: the first longest run of at
least two zero groups, or `(255, 255)`. -/
def zeroRun (gs : List Nat) : Nat × Nat :=
  (List.range 8).foldl
    (fun best i =>
      let l := ((gs.drop i).takeWhile (· == 0)).length
      if 2 ≤ l ∧ best.2 - best.1 < l then (i, i + l) else best)
    (255, 255)

/-- Lower case hexadecimal groups joined by colons. -/
def hexGroups (gs : List Nat) : String :=
  ":".intercalate (gs.map fun g => String.ofList (Nat.toDigits 16 g))

/-- Compressed colon notation. -/
def string6 : String :=
  let gs := groups a
  let (start, stop) := zeroRun gs
  if start = 255 then hexGroups gs
  else hexGroups (gs.take start) ++ "::" ++ hexGroups (gs.drop stop)

/-- `Addr.Is4In6` on the bits of an IPv6 address. -/
def is4In6 : Bool := a.extractLsb' 32 96 == 0xffff#96

/-- `Addr.Unmap`: the IPv4 address of an IPv4-mapped one. -/
def unmap : Addr → Addr
  | v6 a zone => if is4In6 a then v4 (a.extractLsb' 0 32) else v6 a zone
  | a => a

/-- `Addr.As16`; an IPv4 address is IPv4-mapped, and a zone is lost. -/
def as16 : Addr → BitVec 128
  | zero => 0
  | v4 a => 0xffff#96 ++ a
  | v6 a _ => a

def addrFrom16 : Addr := v6 a ""

def zone : Addr → String
  | v6 _ zone => zone
  | _ => ""

theorem unmap_unmap (a : Addr) : a.unmap.unmap = a.unmap := by
  cases a with
  | zero => rfl
  | v4 a => rfl
  | v6 a zone =>
    cases h : is4In6 a
    · simp [unmap, h]
    · simp [unmap, h]

theorem unmap_addrFrom16 : (addrFrom16 a).unmap.isValid ∧ (addrFrom16 a).unmap.zone = "" := by
  cases h : is4In6 a
  · simp [addrFrom16, unmap, h, isValid, zone]
  · simp [addrFrom16, unmap, h, isValid, zone]

/-- The bytes of a valid address without a zone lead back to it, once unmapped. -/
theorem unmap_addrFrom16_as16 {a : Addr} (hvalid : a.isValid) (hzone : a.zone = "") :
    (addrFrom16 a.as16).unmap = a.unmap := by
  cases a with
  | zero => cases hvalid
  | v4 a =>
    have hmapped : is4In6 (0xffff#96 ++ a) = true := by
      rw [is4In6, BitVec.extractLsb'_append_eq_left, beq_self_eq_true]
    have hlow : (0xffff#96 ++ a).extractLsb' 0 32 = a := BitVec.extractLsb'_append_eq_right
    change (if is4In6 (0xffff#96 ++ a) then _ else _) = v4 a
    rw [if_pos hmapped]
    exact congrArg v4 hlow
  | v6 a zone =>
    change zone = "" at hzone
    rw [hzone]
    rfl

def isLoopback (a : Addr) : Bool :=
  match a.unmap with
  | zero => false
  | v4 a => a.extractLsb' 24 8 == 127#8
  | v6 a _ => a == 1#128

def isLinkLocalUnicast (a : Addr) : Bool :=
  match a.unmap with
  | zero => false
  | v4 a => a.extractLsb' 16 16 == 0xa9fe#16
  | v6 a _ => a.extractLsb' 112 16 &&& 0xffc0#16 == 0xfe80#16

def isPrivate (a : Addr) : Bool :=
  match a.unmap with
  | zero => false
  | v4 a =>
    a.extractLsb' 24 8 == 10#8 || a.extractLsb' 16 16 &&& 0xfff0#16 == 0xac10#16 ||
      a.extractLsb' 16 16 == 0xc0a8#16
  | v6 a _ => a.extractLsb' 120 8 &&& 0xfe#8 == 0xfc#8

/-- The notation of an IPv6 address with its zone. -/
def stringZone (zone : String) : String :=
  (if is4In6 a then "::ffff:" ++ string4 (a.extractLsb' 0 32) else string6 a) ++
    (if zone = "" then "" else "%" ++ zone)

end Addr

/-- `netip.AddrPort`. -/
structure AddrPort where
  addr : Addr := .zero
  port : UInt16 := 0
deriving DecidableEq, Repr

namespace AddrPort

def isValid (p : AddrPort) : Bool := p.addr.isValid

def string (p : AddrPort) : String :=
  match p.addr with
  | .zero => "invalid AddrPort"
  | .v4 a => Addr.string4 a ++ ":" ++ toString p.port.toNat
  | .v6 a zone => "[" ++ Addr.stringZone a zone ++ "]:" ++ toString p.port.toNat

end AddrPort

/-- `netip.Prefix`. -/
structure Prefix where
  addr : Addr
  bits : Nat
deriving DecidableEq, Repr

def Addr.bitLen : Addr → Nat
  | zero => 0
  | v4 _ => 32
  | v6 _ _ => 128

def Prefix.isSingleIP (p : Prefix) : Bool := p.addr.isValid && p.bits == p.addr.bitLen

/-- `packet.VirtualNetworkID`: a 24-bit identifier whose top byte marks it set. -/
structure VirtualNetworkID where
  vni : BitVec 32 := 0
deriving DecidableEq, Repr

def VirtualNetworkID.isSet (v : VirtualNetworkID) : Bool := v.vni &&& 0xff000000#32 != 0

def VirtualNetworkID.set (v : BitVec 32) : VirtualNetworkID := ⟨v ||| 0xff000000#32⟩

theorem VirtualNetworkID.isSet_set (v : BitVec 32) : (VirtualNetworkID.set v).isSet = true := by
  have h : (v ||| 0xff000000#32) &&& 0xff000000#32 = 0xff000000#32 := by
    ext i hi
    simp +contextual
  rw [VirtualNetworkID.set, VirtualNetworkID.isSet, h]
  decide

/-- `tailcfg.DerpMagicIPAddr`, 127.3.3.40. -/
def derpMagicIPAddr : Addr := .v4 0x7f030328#32

/-- magicsock's `epAddr`: a UDP address, behind the relay network `vni` when
that is set. -/
structure EpAddr where
  ap : AddrPort := {}
  vni : VirtualNetworkID := {}
deriving DecidableEq, Repr

/-- `epAddr.isDirect`: a valid UDP address that is neither DERP nor behind a relay. -/
def EpAddr.isDirect (e : EpAddr) : Bool :=
  e.ap.isValid && e.ap.addr != derpMagicIPAddr && !e.vni.isSet

end Multiport.Net

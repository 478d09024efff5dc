import Multiport.Lib.LastMax
import Multiport.Net.Addr

/-!
# Prefixes and sets of addresses

What `netip.Prefix` says of an address, and `net/ipset`'s choice of a look-up
function for a list of prefixes.

`bart.Lite`, `bart.Table` and `netipx.IPSet` are libraries outside the repository.
Each is a structure with the one fact that the repository relies on as its last
field: `Lite` finds what its prefixes contain, a set has the members that its prefixes
have, and `Table` finds the longest prefix.  The first two are about addresses without a
zone, as packets carry them.
-/

namespace Multiport.Net

open List

/-- `Addr.WithZone("")`. -/
def Addr.withoutZone : Addr → Addr
  | .v6 a _ => .v6 a ""
  | a => a

theorem Addr.withoutZone_eq_self {a : Addr} (h : a.zone = "") : a.withoutZone = a := by
  cases a with
  | zero => rfl
  | v4 a => rfl
  | v6 a zone =>
    change zone = "" at h
    rw [h]
    rfl

def Addr.isMulticast (a : Addr) : Bool :=
  match a.unmap with
  | zero => false
  | v4 a => a.extractLsb' 28 4 == 0xe#4
  | v6 a _ => a.extractLsb' 120 8 == 0xff#8

namespace Prefix

/-- `netip.PrefixFrom`; the zone of the address is dropped. -/
def prefixFrom (ip : Addr) (bits : Nat) : Prefix := ⟨ip.withoutZone, bits⟩

/-- `Prefix.IsValid`.  No prefix of Go's has a zone. -/
def isValid (p : Prefix) : Bool :=
  p.addr.isValid && p.addr.zone == "" && decide (p.bits ≤ p.addr.bitLen)

/-- Whether two bit strings begin with the same `bits` bits. -/
def agree {w : Nat} (bits : Nat) (a b : BitVec w) : Bool := (a ^^^ b) >>> (w - bits) == 0

/-- `Prefix.Contains`.  Address families are kept apart, IPv4-mapped addresses
are IPv6 ones, and an address with a zone is in no prefix. -/
def contains (p : Prefix) (ip : Addr) : Bool :=
  p.isValid &&
    match p.addr, ip with
    | .v4 n, .v4 a => agree p.bits n a
    | .v6 n _, .v6 a zone => zone == "" && agree p.bits n a
    | _, _ => false

/-- `Prefix.Masked`: the host bits are cleared. -/
def masked (p : Prefix) : Prefix :=
  match p.addr with
  | .zero => p
  | .v4 n => ⟨.v4 (n >>> (32 - p.bits) <<< (32 - p.bits)), p.bits⟩
  | .v6 n zone => ⟨.v6 (n >>> (128 - p.bits) <<< (128 - p.bits)) zone, p.bits⟩

theorem agree_all {w : Nat} (a b : BitVec w) : agree w a b = decide (a = b) := by
  rw [agree, Nat.sub_self, Bool.eq_iff_iff, beq_iff_eq, decide_eq_true_eq]
  exact BitVec.xor_eq_zero_iff

theorem agree_zero {w : Nat} (a b : BitVec w) : agree 0 a b = true := by
  rw [agree, beq_iff_eq]
  exact BitVec.ushiftRight_eq_zero (le_refl _)

theorem family_eq_of_contains {p : Prefix} {ip : Addr} (h : p.contains ip = true) :
    p.addr.is4 = ip.is4 ∧ p.addr.is6 = ip.is6 := by
  obtain ⟨addr, bits⟩ := p
  cases addr <;> cases ip <;> simp [contains, Addr.is4, Addr.is6] at h ⊢

theorem contains_of_isSingleIP {p : Prefix} (h : p.isSingleIP = true) {ip : Addr}
    (hip : ip.zone = "") : p.contains ip = decide (ip = p.addr) := by
  obtain ⟨addr, bits⟩ := p
  simp only [isSingleIP, Bool.and_eq_true, beq_iff_eq] at h
  obtain ⟨hvalid, rfl⟩ := h
  cases addr with
  | zero => cases hvalid
  | v4 n =>
    cases ip with
    | zero => rfl
    | v4 a => simp [contains, isValid, Addr.isValid, Addr.zone, Addr.bitLen, agree_all, eq_comm]
    | v6 a zone => simp [contains]
  | v6 n zone =>
    cases ip with
    | zero | v4 a => simp [contains]
    | v6 a zone' =>
      subst hip
      rw [Bool.eq_iff_iff]
      simp only [contains, isValid, Addr.isValid, Addr.bitLen, agree_all, Bool.and_eq_true,
        beq_iff_eq, decide_eq_true_eq, le_refl, true_and, and_true, Addr.v6.injEq]
      constructor
      · rintro ⟨hz, ha⟩
        exact ⟨ha.symm, hz.symm⟩
      · rintro ⟨ha, hz⟩
        exact ⟨hz.symm, ha.symm⟩

theorem contains_prefixFrom_bitLen {ip a : Addr} (hip : ip.isValid = true) (ha : a.zone = "") :
    (prefixFrom ip ip.bitLen).contains a = decide (a = ip.withoutZone) := by
  have hsingle : (prefixFrom ip ip.bitLen).isSingleIP = true := by
    cases ip with
    | zero => cases hip
    | v4 n => rfl
    | v6 n zone => rfl
  exact contains_of_isSingleIP hsingle ha

end Prefix

/-! ## Look-up functions for lists of prefixes -/

/-- `bart.Lite`: a table of prefixes, and what its `Contains` is documented to
find. -/
structure BartLite where
  contains : List Prefix → Addr → Bool
  contains_eq : ∀ (ps : List Prefix) (ip : Addr), ip.zone = "" →
    contains ps ip = ps.any (·.contains ip)

/-- A table that looks through its prefixes one by one. -/
def BartLite.linear : BartLite := ⟨fun ps ip => ps.any (·.contains ip), fun _ _ _ => rfl⟩

namespace Ipset

def emptySet (_ : Addr) : Bool := false

def prefixContainsLoop (addrs : List Prefix) (ip : Addr) : Bool := addrs.any (·.contains ip)

def oneIP (ip1 ip : Addr) : Bool := ip == ip1

def twoIP (ip1 ip2 ip : Addr) : Bool := ip == ip1 || ip == ip2

/-- `ipInMap`, for the set of the addresses of a list. -/
def ipInMap (m : List Addr) (ip : Addr) : Bool := m.contains ip

/-- `NewContainsIPFunc`: a look-up function chosen by the length and the shape
of the list. -/
def newContainsIPFunc (t : BartLite) (addrs : List Prefix) : Addr → Bool :=
  match addrs with
  | [] => emptySet
  | p :: rest =>
    if addrs.any fun p => !p.isSingleIP then
      if addrs.length = 1 then p.contains
      else if addrs.length ≤ 6 then prefixContainsLoop addrs
      else t.contains addrs
    else
      match rest with
      | [] => oneIP p.addr
      | [q] => twoIP p.addr q.addr
      | _ => ipInMap (addrs.map (·.addr))

theorem any_contains_of_isSingleIP {addrs : List Prefix} (h : ∀ p ∈ addrs, p.isSingleIP = true)
    {ip : Addr} (hip : ip.zone = "") :
    addrs.any (·.contains ip) = (addrs.map (·.addr)).contains ip := by
  induction addrs with
  | nil => rfl
  | cons p addrs ih =>
    rw [forall_mem_cons] at h
    rw [any_cons, ih h.2, Prefix.contains_of_isSingleIP h.1 hip]
    rfl

/-- **Whatever function is chosen, it finds the addresses that some prefix of
the list contains.** -/
theorem newContainsIPFunc_eq (t : BartLite) (addrs : List Prefix) {ip : Addr} (hip : ip.zone = "") :
    newContainsIPFunc t addrs ip = addrs.any (·.contains ip) := by
  cases addrs with
  | nil => rfl
  | cons p rest =>
    simp only [newContainsIPFunc]
    by_cases hmany : ((p :: rest).any fun p => !p.isSingleIP) = true
    · rw [if_pos hmany]
      split
      · rename_i hlen
        obtain rfl : rest = [] := by simpa using hlen
        simp
      · split
        · rfl
        · exact t.contains_eq _ ip hip
    · rw [if_neg hmany]
      have hsingle : ∀ q ∈ p :: rest, q.isSingleIP = true := by simpa using hmany
      rw [any_contains_of_isSingleIP hsingle hip]
      rw [Bool.eq_iff_iff]
      match rest with
      | [] => simp [oneIP]
      | [q] => simp [twoIP]
      | _ :: _ :: _ => rfl

end Ipset

/-- `netipx.IPSet`: its prefixes, its members, and that they are the same. -/
structure IPSet where
  prefixes : List Prefix
  contains : Addr → Bool
  contains_eq : ∀ ip : Addr, ip.zone = "" → contains ip = prefixes.any (·.contains ip)

/-- The set of the addresses in some prefix of a list. -/
def IPSet.ofPrefixes (ps : List Prefix) : IPSet :=
  ⟨ps, fun ip => ps.any (·.contains ip), fun _ _ => rfl⟩

/-! ## Longest prefixes -/

/-- The entry with the longest prefix that contains an address; of equal prefixes, the last. -/
def longestMatch {α : Type*} (entries : List (Prefix × α)) (ip : Addr) : Option (Prefix × α) :=
  Lib.lastArgmax (·.1.bits) (entries.filter fun e => e.1.contains ip)

/-- `bart.Table`: what `Lookup` finds after some calls of `Insert`. -/
structure BartTable (α : Type*) where
  lookup : List (Prefix × α) → Addr → Option α
  lookup_eq : ∀ (inserts : List (Prefix × α)) (ip : Addr),
    lookup inserts ip = (longestMatch inserts ip).map Prod.snd

/-- A table that looks through its entries one by one. -/
def BartTable.linear (α : Type*) : BartTable α :=
  ⟨fun inserts ip => (longestMatch inserts ip).map Prod.snd, fun _ _ => rfl⟩

section LongestMatch

variable {α β : Type*} {entries : List (Prefix × α)} {ip : Addr}

theorem longestMatch_map (g : α → β) (entries : List (Prefix × α)) (ip : Addr) :
    longestMatch (entries.map (Prod.map id g)) ip =
      (longestMatch entries ip).map (Prod.map id g) := by
  rw [longestMatch, filter_map, Lib.lastArgmax_map]
  rfl

theorem mem_of_longestMatch {e} (h : longestMatch entries ip = some e) : e ∈ entries :=
  (mem_filter.1 (Lib.mem_of_lastArgmax h)).1

end LongestMatch

/-! ## Tailscale's ranges -/

namespace Tsaddr

/-- `CGNATRange`: 100.64.0.0/10. -/
def cgnatRange : Prefix := ⟨.v4 0x64400000, 10⟩

/-- `ChromeOSVMRange`: 100.115.92.0/23. -/
def chromeOSVMRange : Prefix := ⟨.v4 0x64735c00, 23⟩

/-- `TailscaleULARange`: fd7a:115c:a1e0::/48. -/
def tailscaleULARange : Prefix := ⟨.v6 (0xfd7a115ca1e0#48 ++ 0#80) "", 48⟩

def isTailscaleIPv4 (ip : Addr) : Bool := cgnatRange.contains ip && !chromeOSVMRange.contains ip

def isTailscaleIP (ip : Addr) : Bool :=
  if ip.is4 then isTailscaleIPv4 ip else tailscaleULARange.contains ip

/-- `AllIPv4`: 0.0.0.0/0. -/
def allIPv4 : Prefix := ⟨.v4 0, 0⟩

/-- `AllIPv6`: ::/0. -/
def allIPv6 : Prefix := ⟨.v6 0 "", 0⟩

end Tsaddr

end Multiport.Net

import Mathlib.Data.Set.Finite.List
import Multiport.Lib.Lists
import Multiport.Lib.Maps
import Multiport.PacketFilter.Match

/-!
# Rules from the control plane

`wgengine/filter/tailcfg.go`: the conversion of `tailcfg.FilterRule`s, whose
sources and destinations are texts, into rules of the filter.  The conversion goes
on after an entry that it cannot parse, and remembers an error.

`Denotes` is the grammar of the entries and `Entry.Admits` their meaning; neither
mentions the conversion.  The result is that malformed entries contribute nothing:
the converted rules admit what the well-formed entries denote, or nothing at all
when the conversion gives up.

`netip`'s parsers and the decomposition of an address range into prefixes are
libraries.  `Netip` has the parsers as parameters, with the facts that are used of
them as fields.
-/

namespace Multiport.PacketFilter

open Net Lib List Prefix

/-! ## Texts of addresses -/

/-- The bits of an address as a number. -/
def addrNat : Addr → Nat
  | .zero => 0
  | .v4 a => a.toNat
  | .v6 a _ => a.toNat

/-- `netipx.IPRange.IsValid`, for the range from `lo` to `hi`. -/
def validRange (lo hi : Addr) : Bool :=
  lo.isValid && lo.bitLen == hi.bitLen && lo.zone == hi.zone && decide (addrNat lo ≤ addrNat hi)

/-- An address of a packet is in the range from `lo` to `hi`, both included. -/
def inRange (lo hi ip : Addr) : Bool :=
  ip.isValid && ip.bitLen == lo.bitLen && decide (addrNat lo ≤ addrNat ip) &&
    decide (addrNat ip ≤ addrNat hi)

/-- `netip.ParseAddr`, `netip.ParsePrefix` and `netipx.IPRange.Prefixes`. -/
structure Netip where
  parseAddr : String → Except String Addr
  parsePrefix : String → Except String Prefix
  prefixes : Addr → Addr → List Prefix
  /-- An address that was parsed is not the zero one. -/
  isValid_of_parseAddr : ∀ s ip, parseAddr s = .ok ip → ip.isValid = true
  /-- The prefixes of a range cover it and nothing else. -/
  any_prefixes : ∀ lo hi ip, validRange lo hi = true → ip.zone = "" →
    (prefixes lo hi).any (·.contains ip) = inRange lo hi ip

/-- The errors of the conversion. -/
inductive ParseError
  | netip (text : String)
  | nonNetworkBits (pfx : Prefix)
  | invalidRange (arg : String)
  | invalidAddress (arg : String)
  | unexpectedSrcBits
  | unexpectedDstBits
  | unexpectedCapability (cap : NodeCapability)
deriving DecidableEq, Repr

/-- `strings.CutPrefix`. -/
def cutPrefix (s start : String) : Option String :=
  if start.toList.isPrefixOf s.toList then some (.ofList (s.toList.drop start.toList.length))
  else none

/-- `strings.Cut(s, "-")` for a text with a hyphen. -/
def cutHyphen (s : String) : String × String :=
  (.ofList (s.toList.takeWhile (· != '-')),
    .ofList ((s.toList.dropWhile (· != '-')).drop 1))

def zeroIP4 : Addr := .v4 0
def zeroIP6 : Addr := .v6 0 ""

variable (N : Netip)

def parseIPSet (arg : String) : List Prefix × NodeCapability × Option ParseError :=
  if arg = "*" then ([prefixFrom zeroIP4 0, prefixFrom zeroIP6 0], "", none)
  else
    match cutPrefix arg "cap:" with
    | some cap => ([], cap, none)
    | none =>
      if arg.toList.contains '/' then
        match N.parsePrefix arg with
        | .error e => ([], "", some (.netip e))
        | .ok pfx =>
          if pfx ≠ pfx.masked then ([], "", some (.nonNetworkBits pfx)) else ([pfx], "", none)
      else if arg.toList.count '-' = 1 then
        match N.parseAddr (cutHyphen arg).1 with
        | .error e => ([], "", some (.netip e))
        | .ok ip1 =>
          match N.parseAddr (cutHyphen arg).2 with
          | .error e => ([], "", some (.netip e))
          | .ok ip2 =>
            if validRange ip1 ip2 then (N.prefixes ip1 ip2, "", none)
            else ([], "", some (.invalidRange arg))
      else
        match N.parseAddr arg with
        | .error _ => ([], "", some (.invalidAddress arg))
        | .ok ip => ([prefixFrom ip ip.bitLen], "", none)

/-! ## What texts denote -/

/-- A source or destination: all addresses, the holders of a capability, a network,
a range, or one address. -/
inductive Entry
  | any
  | cap (c : NodeCapability)
  | cidr (p : Prefix)
  | range (lo hi : Addr)
  | addr (ip : Addr)

/-- The text is neither the wildcard nor a capability. -/
def Plain (s : String) : Prop := s ≠ "*" ∧ ∀ c, s ≠ "cap:" ++ c

/-- The grammar of the entries. -/
inductive Denotes : String → Entry → Prop
  | any : Denotes "*" .any
  | cap (c : NodeCapability) : Denotes ("cap:" ++ c) (.cap c)
  | cidr {s p} : Plain s → '/' ∈ s.toList → N.parsePrefix s = .ok p →
      p = p.masked → Denotes s (.cidr p)
  | range {s₁ s₂ lo hi} : Plain (s₁ ++ "-" ++ s₂) →
      '/' ∉ (s₁ ++ "-" ++ s₂).toList → '-' ∉ s₁.toList → '-' ∉ s₂.toList →
      N.parseAddr s₁ = .ok lo → N.parseAddr s₂ = .ok hi → validRange lo hi = true →
      Denotes (s₁ ++ "-" ++ s₂) (.range lo hi)
  | addr {s ip} : Plain s → '/' ∉ s.toList → s.toList.count '-' ≠ 1 →
      N.parseAddr s = .ok ip → Denotes s (.addr ip)

namespace Entry

/-- The addresses of packets that an entry admits.  An address is written with or
without a zone; packets carry none. -/
def Admits (a : Addr) : Entry → Prop
  | any => a.isValid = true
  | cap _ => False
  | cidr p => p.contains a = true
  | range lo hi => inRange lo hi a = true
  | addr ip => a = ip.withoutZone

def capability : Entry → NodeCapability
  | cap c => c
  | _ => ""

def prefixes : Entry → List Prefix
  | any => [prefixFrom zeroIP4 0, prefixFrom zeroIP6 0]
  | cap _ => []
  | cidr p => [p]
  | range lo hi => N.prefixes lo hi
  | addr ip => [prefixFrom ip ip.bitLen]

end Entry

variable {N}

theorem cutPrefix_append (start c : String) : cutPrefix (start ++ c) start = some c := by
  have h : start.toList.isPrefixOf (start ++ c).toList = true := by simp
  rw [cutPrefix, if_pos h, String.toList_append, drop_left, String.ofList_toList]

variable {s : String}

theorem eq_append_of_cutPrefix {start c : String} (h : cutPrefix s start = some c) :
    s = start ++ c := by
  unfold cutPrefix at h
  split_ifs at h with hstart
  obtain ⟨rest, hrest⟩ := isPrefixOf_iff_prefix.1 hstart
  cases h
  rw [← hrest, drop_left, ← String.toList_inj, String.toList_append, String.toList_ofList, hrest]

theorem cutPrefix_of_plain (h : Plain s) : cutPrefix s "cap:" = none := by
  cases hc : cutPrefix s "cap:" with
  | none => rfl
  | some c => exact absurd (eq_append_of_cutPrefix hc) (h.2 c)

theorem cutHyphen_append {s₁ : String} (h : '-' ∉ s₁.toList) (s₂ : String) :
    cutHyphen (s₁ ++ "-" ++ s₂) = (s₁, s₂) := by
  have hlist : (s₁ ++ "-" ++ s₂).toList = s₁.toList ++ '-' :: s₂.toList := by simp
  have hall : ∀ c ∈ s₁.toList, (c != '-') = true := by
    intro c hc
    rw [bne_iff_ne]
    rintro rfl
    exact h hc
  rw [cutHyphen, hlist, takeWhile_append_of_pos hall, dropWhile_append_of_pos hall]
  simp

theorem count_hyphen {s₁ s₂ : String} (h₁ : '-' ∉ s₁.toList) (h₂ : '-' ∉ s₂.toList) :
    (s₁ ++ "-" ++ s₂).toList.count '-' = 1 := by
  rw [String.toList_append, String.toList_append, count_append, count_append,
    count_eq_zero.2 h₁, count_eq_zero.2 h₂]
  rfl

theorem exists_cutHyphen (h : s.toList.count '-' = 1) :
    ∃ s₁ s₂, s = s₁ ++ "-" ++ s₂ ∧ '-' ∉ s₁.toList ∧ '-' ∉ s₂.toList := by
  have hmem : '-' ∈ s.toList := count_pos_iff.1 (by omega)
  obtain ⟨l₁, l₂, hl, hnot⟩ := eq_append_cons_of_mem hmem
  have hcount : l₂.count '-' = 0 := by
    rw [hl, count_append, count_cons_self] at h
    omega
  refine ⟨.ofList l₁, .ofList l₂, ?_, ?_, ?_⟩
  · rw [← String.toList_inj]
    simp [hl]
  · rwa [String.toList_ofList]
  · rw [String.toList_ofList]
    exact count_eq_zero.1 hcount

/-- **A well-formed text parses to its entry.** -/
theorem parseIPSet_of_denotes {e : Entry} (h : Denotes N s e) :
    parseIPSet N s = (e.prefixes N, e.capability, none) := by
  cases h with
  | any => rfl
  | cap c => rw [parseIPSet, cutPrefix_append]; rfl
  | cidr hplain hslash hparse hmasked =>
    rw [parseIPSet, if_neg hplain.1, cutPrefix_of_plain hplain]
    simp only [contains_iff_mem, hslash, hparse]
    rw [if_neg (not_not.2 hmasked)]
    rfl
  | range hplain hslash h₁ h₂ hlo hhi hvalid =>
    rw [parseIPSet, if_neg hplain.1, cutPrefix_of_plain hplain]
    simp only [contains_iff_mem, hslash, count_hyphen h₁ h₂, cutHyphen_append h₁, hlo, hhi,
      hvalid]
    rfl
  | addr hplain hslash hcount hparse =>
    rw [parseIPSet, if_neg hplain.1, cutPrefix_of_plain hplain]
    simp only [contains_iff_mem, hslash, hcount, hparse]
    rfl

/-- **A text that is not well-formed parses to an error and nothing else.** -/
theorem denotes_or_error (N : Netip) (s : String) :
    (∃ e, Denotes N s e) ∨ ∃ err, parseIPSet N s = ([], "", some err) := by
  unfold parseIPSet
  by_cases hstar : s = "*"
  · exact .inl ⟨.any, hstar ▸ .any⟩
  rw [if_neg hstar]
  cases hcap : cutPrefix s "cap:" with
  | some c => exact .inl ⟨.cap c, eq_append_of_cutPrefix hcap ▸ .cap c⟩
  | none =>
    have hplain : Plain s := by
      refine ⟨hstar, ?_⟩
      rintro c rfl
      rw [cutPrefix_append] at hcap
      cases hcap
    simp only [contains_iff_mem]
    by_cases hslash : '/' ∈ s.toList
    · rw [if_pos hslash]
      cases hparse : N.parsePrefix s with
      | error e => exact .inr ⟨_, rfl⟩
      | ok p =>
        by_cases hmasked : p = p.masked
        · exact .inl ⟨_, .cidr hplain hslash hparse hmasked⟩
        · simp only [if_pos hmasked]
          exact .inr ⟨_, rfl⟩
    rw [if_neg hslash]
    by_cases hcount : s.toList.count '-' = 1
    · rw [if_pos hcount]
      obtain ⟨s₁, s₂, rfl, h₁, h₂⟩ := exists_cutHyphen hcount
      rw [cutHyphen_append h₁]
      cases hlo : N.parseAddr s₁ with
      | error e => exact .inr ⟨_, rfl⟩
      | ok lo =>
        cases hhi : N.parseAddr s₂ with
        | error e => exact .inr ⟨_, rfl⟩
        | ok hi =>
          by_cases hvalid : validRange lo hi = true
          · exact .inl ⟨_, .range hplain hslash h₁ h₂ hlo hhi hvalid⟩
          · simp only [if_neg hvalid]
            exact .inr ⟨_, rfl⟩
    · rw [if_neg hcount]
      cases hparse : N.parseAddr s with
      | error e => exact .inr ⟨_, rfl⟩
      | ok ip => exact .inl ⟨_, .addr hplain hslash hcount hparse⟩

variable {a : Addr}

/-- An entry that denotes something has one meaning: its prefixes contain the
addresses that it admits. -/
theorem any_prefixes_iff {e : Entry} (h : Denotes N s e) (ha : a.zone = "") :
    (∃ p ∈ e.prefixes N, p.contains a = true) ↔ e.Admits a := by
  cases h with
  | any =>
    cases a with
    | zero => simp [Entry.Admits, Prefix.contains, Addr.isValid]
    | v4 a =>
      refine iff_of_true ⟨_, mem_cons_self, ?_⟩ rfl
      simp [Prefix.contains, Prefix.prefixFrom, Prefix.isValid, zeroIP4, Addr.withoutZone,
        Addr.isValid, Addr.zone, agree_zero]
    | v6 a zone =>
      subst ha
      refine iff_of_true ⟨_, mem_cons_of_mem _ mem_cons_self, ?_⟩ rfl
      simp [Prefix.contains, Prefix.prefixFrom, Prefix.isValid, zeroIP6, Addr.withoutZone,
        Addr.isValid, Addr.zone, agree_zero]
  | cap c | cidr _ _ _ _ => simp [Entry.prefixes, Entry.Admits]
  | range _ _ _ _ _ _ hvalid =>
    rw [← any_eq_true]
    change (N.prefixes _ _).any (·.contains a) = true ↔ _
    rw [N.any_prefixes _ _ a hvalid ha]
    rfl
  | addr _ _ _ hparse =>
    simp only [Entry.prefixes, mem_singleton, exists_eq_left, Entry.Admits]
    rw [contains_prefixFrom_bitLen (N.isValid_of_parseAddr _ _ hparse) ha, decide_eq_true_eq]

/-- A text parses to prefixes for an address iff it denotes an entry that admits
the address. -/
theorem mem_parseIPSet_iff (ha : a.zone = "") :
    (∃ p ∈ (parseIPSet N s).1, p.contains a = true) ↔ ∃ e, Denotes N s e ∧ e.Admits a := by
  constructor
  · rintro ⟨p, hp, hcontains⟩
    rcases denotes_or_error N s with ⟨e, he⟩ | ⟨err, herr⟩
    · rw [parseIPSet_of_denotes he] at hp
      exact ⟨e, he, (any_prefixes_iff he ha).1 ⟨p, hp, hcontains⟩⟩
    · rw [herr] at hp
      cases hp
  · rintro ⟨e, he, hadmits⟩
    rw [parseIPSet_of_denotes he]
    exact (any_prefixes_iff he ha).2 hadmits

theorem parseIPSet_cap_iff {c} (hc : c ≠ "") : (parseIPSet N s).2.1 = c ↔ Denotes N s (.cap c) := by
  constructor
  · intro h
    rcases denotes_or_error N s with ⟨e, he⟩ | ⟨err, herr⟩
    · rw [parseIPSet_of_denotes he] at h
      cases e with
      | cap c' =>
        obtain rfl : c' = c := h
        exact he
      | any | cidr p | range lo hi | addr ip => exact absurd h.symm hc
    · rw [herr] at h
      exact absurd h.symm hc
  · intro h
    rw [parseIPSet_of_denotes h]
    rfl

theorem parseIPSet_prefixes_eq_nil (h : (parseIPSet N s).2.1 ≠ "" ∨ (parseIPSet N s).2.2 ≠ none) :
    (parseIPSet N s).1 = [] := by
  rcases denotes_or_error N s with ⟨e, he⟩ | ⟨err, herr⟩
  · rw [parseIPSet_of_denotes he] at h ⊢
    cases e with
    | cap c => rfl
    | any | cidr p | range lo hi | addr ip => simp [Entry.capability] at h
  · rw [herr]

/-! ## The conversion -/

/-- `tailcfg.NetPortRange`. -/
structure TextPortRange where
  ip : String
  bits : Option Int := none
  ports : PortRange

/-- `tailcfg.CapGrant`. -/
structure CapGrant where
  dsts : List Prefix := []
  caps : List PeerCapability := []
  capMap : GoMap PeerCapability (List RawMessage) := ∅

/-- `tailcfg.FilterRule`. -/
structure FilterRule where
  srcIPs : List String := []
  srcBits : List Int := []
  dstPorts : List TextPortRange := []
  ipProto : List Int := []
  capGrant : List CapGrant := []

def defaultProtos : List Proto := [Proto.tcp, Proto.udp, Proto.icmpv4, Proto.icmpv6]

/-- The protocols of a rule; numbers that are not protocols are ignored. -/
def convertProtos (ns : List Int) : List Proto :=
  if ns.isEmpty then defaultProtos
  else (ns.filter fun n => decide (0 ≤ n) && decide (n ≤ 0xff)).map fun n => BitVec.ofInt 8 n

variable (N)

/-- One round of the loop over the sources, on the prefixes, the capabilities and
the error so far.  The first error skips its entry; after that the entry is used
as far as it was parsed. -/
def addSrc (st : List Prefix × List NodeCapability × Option ParseError) (s : String) :
    List Prefix × List NodeCapability × Option ParseError :=
  let (nets, cap, err) := parseIPSet N s
  if err.isSome && st.2.2.isNone then (st.1, st.2.1, err)
  else (st.1 ++ nets, if cap ≠ "" then st.2.1 ++ [cap] else st.2.1, st.2.2)

/-- One round of the loop over the destinations. -/
def addDst (st : List NetPortRange × Option ParseError) (d : TextPortRange) :
    Except ParseError (List NetPortRange × Option ParseError) :=
  if d.bits.isSome then .error .unexpectedDstBits
  else
    let (nets, cap, err) := parseIPSet N d.ip
    if err.isSome && st.2.isNone then .ok (st.1, err)
    else if cap ≠ "" then .ok (st.1, some (.unexpectedCapability cap))
    else .ok (st.1 ++ nets.map fun net => ⟨net, d.ports⟩, st.2)

/-- The capability grants of a rule. -/
def convertCaps (grants : List CapGrant) : List CapMatch :=
  grants.flatMap fun cm => cm.dsts.flatMap fun dstNet =>
    (cm.caps.map fun cap => { dst := dstNet, cap := cap }) ++
      cm.capMap.entries.map fun e => ⟨dstNet, e.1, e.2⟩

variable (t : BartLite)

/-- One round of the loop over the rules. -/
def addRule (st : List Match × Option ParseError) (r : FilterRule) :
    Except ParseError (List Match × Option ParseError) :=
  if r.srcBits.length > 0 then .error .unexpectedSrcBits
  else
    let (srcs, srcCaps, erracc) := r.srcIPs.foldl (addSrc N) ([], [], st.2)
    match r.dstPorts.foldlM (addDst N) ([], erracc) with
    | .error e => .error e
    | .ok (dsts, erracc) =>
      .ok (st.1 ++
        [{ ipProto := convertProtos r.ipProto, srcs := srcs,
           srcsContains := Ipset.newContainsIPFunc t srcs, srcCaps := srcCaps, dsts := dsts,
           caps := convertCaps r.capGrant }], erracc)

def matchesFromFilterRules (pf : List FilterRule) : List Match × Option ParseError :=
  match pf.foldlM (addRule N t) ([], none) with
  | .error e => ([], some e)
  | .ok (mm, erracc) => (mm, erracc)

/-! ## What the loops compute -/

/-- The match that a rule becomes when the conversion goes through. -/
def toMatch (r : FilterRule) : Match :=
  let srcs := r.srcIPs.flatMap fun s => (parseIPSet N s).1
  { ipProto := convertProtos r.ipProto,
    srcs := srcs,
    srcsContains := Ipset.newContainsIPFunc t srcs,
    srcCaps := (r.srcIPs.map fun s => (parseIPSet N s).2.1).filter (· ≠ ""),
    dsts := r.dstPorts.flatMap fun d => (parseIPSet N d.ip).1.map fun net => ⟨net, d.ports⟩,
    caps := convertCaps r.capGrant }

variable {N t}

theorem addSrc_eq (st : List Prefix × List NodeCapability × Option ParseError) (s : String) :
    addSrc N st s = (st.1 ++ (parseIPSet N s).1,
      st.2.1 ++ [(parseIPSet N s).2.1].filter (· ≠ ""), st.2.2.or (parseIPSet N s).2.2) := by
  obtain ⟨srcs, caps, erracc⟩ := st
  unfold addSrc
  rcases denotes_or_error N s with ⟨e, he⟩ | ⟨err, herr⟩
  · rw [parseIPSet_of_denotes he]
    by_cases hcap : e.capability = "" <;> simp [hcap]
  · rw [herr]
    cases erracc <;> simp

theorem foldl_addSrc (ss : List String)
    (st : List Prefix × List NodeCapability × Option ParseError) :
    ss.foldl (addSrc N) st = (st.1 ++ ss.flatMap fun s => (parseIPSet N s).1,
      st.2.1 ++ (ss.map fun s => (parseIPSet N s).2.1).filter (· ≠ ""),
      ss.foldl (fun e s => e.or (parseIPSet N s).2.2) st.2.2) := by
  induction ss generalizing st with
  | nil => simp
  | cons s ss ih =>
    rw [foldl_cons, ih, addSrc_eq, append_assoc, append_assoc, ← filter_append]
    rfl

/-- An error that is remembered stays. -/
theorem foldl_or_eq_none {α ε : Type} {f : α → Option ε} {l : List α} {e : Option ε}
    (h : l.foldl (fun e a => e.or (f a)) e = none) : e = none ∧ ∀ a ∈ l, f a = none := by
  induction l generalizing e with
  | nil => exact ⟨h, by simp⟩
  | cons a l ih =>
    obtain ⟨he, hl⟩ := ih h
    rw [Option.or_eq_none_iff] at he
    exact ⟨he.1, forall_mem_cons.2 ⟨he.2, hl⟩⟩

variable {st st' : List NetPortRange × Option ParseError}

/-- A loop that appends to a list, and leaves no error only if its rounds leave none. -/
theorem foldlM_append {α β ε : Type} {step : List β × Option ε → α → Except ε (List β × Option ε)}
    {l : List α} {st st' : List β × Option ε} (h : l.foldlM step st = .ok st')
    {f : α → List β} {P : α → Prop} (hstep : ∀ st a st', step st a = .ok st' →
      st'.1 = st.1 ++ f a ∧ (st'.2 = none → st.2 = none ∧ P a)) :
    st'.1 = st.1 ++ l.flatMap f ∧ (st'.2 = none → st.2 = none ∧ ∀ a ∈ l, P a) := by
  induction l generalizing st with
  | nil =>
    cases h
    simp
  | cons a l ih =>
    obtain ⟨mid, ha, hl⟩ := foldlM_cons_eq_ok.1 h
    obtain ⟨hmid, hnone⟩ := hstep _ _ _ ha
    obtain ⟨hst', hnone'⟩ := ih hl
    refine ⟨by rw [hst', hmid, flatMap_cons, append_assoc], fun herr => ?_⟩
    obtain ⟨hmiderr, hrest⟩ := hnone' herr
    obtain ⟨hst, hPa⟩ := hnone hmiderr
    exact ⟨hst, forall_mem_cons.2 ⟨hPa, hrest⟩⟩

/-- A destination that is used contributes its prefixes, and it leaves no error only
if it is well-formed and not a capability. -/
theorem addDst_eq {d} (h : addDst N st d = .ok st') :
    st'.1 = st.1 ++ (parseIPSet N d.ip).1.map (fun net => ⟨net, d.ports⟩) ∧
      (st'.2 = none → st.2 = none ∧ d.bits = none ∧ (parseIPSet N d.ip).2.2 = none ∧
        (parseIPSet N d.ip).2.1 = "") := by
  obtain ⟨dsts, erracc⟩ := st
  unfold addDst at h
  cases hbits : d.bits with
  | some n =>
    rw [hbits] at h
    cases h
  | none =>
    rw [hbits] at h
    rcases denotes_or_error N d.ip with ⟨e, he⟩ | ⟨err, herr⟩
    · have hnil := parseIPSet_prefixes_eq_nil (N := N) (s := d.ip)
      rw [parseIPSet_of_denotes he] at h hnil ⊢
      by_cases hcap : e.capability = ""
      · simp only [Option.isSome_none, hcap] at h
        cases h
        exact ⟨rfl, fun hnone => ⟨hnone, rfl, rfl, hcap⟩⟩
      · have hnil' : e.prefixes N = [] := hnil (.inl hcap)
        simp only [Option.isSome_none, ne_eq, hcap] at h
        cases h
        exact ⟨by simp [hnil'], nofun⟩
    · rw [herr] at h ⊢
      cases erracc with
      | none | some e =>
        cases h
        exact ⟨by simp, nofun⟩

/-- All entries of a rule are well-formed, and it has none of the old bit lengths. -/
structure FilterRule.WellFormed (N : Netip) (r : FilterRule) : Prop where
  srcBits : r.srcBits = []
  srcs : ∀ s ∈ r.srcIPs, ∃ e, Denotes N s e
  bits : ∀ d ∈ r.dstPorts, d.bits = none
  dsts : ∀ d ∈ r.dstPorts, ∃ e, Denotes N d.ip e ∧ e.capability = ""

theorem exists_denotes_of_none (h : (parseIPSet N s).2.2 = none) :
    ∃ e, Denotes N s e ∧ e.capability = (parseIPSet N s).2.1 := by
  rcases denotes_or_error N s with ⟨e, he⟩ | ⟨err, herr⟩
  · exact ⟨e, he, by rw [parseIPSet_of_denotes he]⟩
  · rw [herr] at h
    cases h

variable {r : FilterRule}

/-- **A rule becomes its match**, and leaves no error only if it is well-formed. -/
theorem addRule_eq {st st' : List Match × Option ParseError} (h : addRule N t st r = .ok st') :
    st'.1 = st.1 ++ [toMatch N t r] ∧ (st'.2 = none → st.2 = none ∧ r.WellFormed N) := by
  unfold addRule at h
  split_ifs at h with hbits
  rw [foldl_addSrc] at h
  simp only [nil_append] at h
  cases hdsts : r.dstPorts.foldlM (addDst N)
      ([], r.srcIPs.foldl (fun e s => e.or (parseIPSet N s).2.2) st.2) with
  | error e =>
    rw [hdsts] at h
    cases h
  | ok res =>
    obtain ⟨dsts, erracc⟩ := res
    rw [hdsts] at h
    cases h
    obtain ⟨heq, hnone⟩ := foldlM_append hdsts fun _ _ _ => addDst_eq
    refine ⟨?_, fun herr => ?_⟩
    · change dsts = _ at heq
      rw [heq]
      rfl
    · obtain ⟨hsrcerr, hdsterr⟩ := hnone herr
      obtain ⟨hst, hsrcs⟩ := foldl_or_eq_none hsrcerr
      refine ⟨hst, eq_nil_of_length_eq_zero (by omega), ?_, fun d hd => (hdsterr d hd).1, ?_⟩
      · intro s hs
        obtain ⟨e, he, -⟩ := exists_denotes_of_none (hsrcs s hs)
        exact ⟨e, he⟩
      · intro d hd
        obtain ⟨e, he, hcap⟩ := exists_denotes_of_none (hdsterr d hd).2.1
        exact ⟨e, he, hcap.trans (hdsterr d hd).2.2⟩

variable {rs : List FilterRule}

/-- The conversion gives up with nothing, or converts every rule. -/
theorem matchesFromFilterRules_cases (N : Netip) (t : BartLite) (rs : List FilterRule) :
    (matchesFromFilterRules N t rs).1 = [] ∧ (matchesFromFilterRules N t rs).2 ≠ none ∨
    (matchesFromFilterRules N t rs).1 = rs.map (toMatch N t) ∧
      ((matchesFromFilterRules N t rs).2 = none → ∀ r ∈ rs, r.WellFormed N) := by
  unfold matchesFromFilterRules
  cases h : rs.foldlM (addRule N t) ([], none) with
  | error e => exact .inl ⟨rfl, by simp⟩
  | ok res =>
    obtain ⟨hms, hnone⟩ := foldlM_append h fun _ _ _ => addRule_eq
    exact .inr ⟨by simpa [map_eq_flatMap] using hms, fun herr => (hnone herr).2⟩

/-! ## What the rules denote -/

namespace FilterRule

variable (N)

/-- The rule is for a protocol: one of its numbers, or one of the default ones. -/
def ListsProto (r : FilterRule) (proto : Proto) : Prop :=
  r.ipProto = [] ∧ proto ∈ defaultProtos ∨ (proto.toNat : Int) ∈ r.ipProto

/-- A well-formed source of the rule admits the address. -/
def ListsSrc (r : FilterRule) (src : Addr) : Prop :=
  ∃ s ∈ r.srcIPs, ∃ e, Denotes N s e ∧ e.Admits src

/-- A source of the rule names a capability that the address holds. -/
def HoldsSrc (r : FilterRule) (hasCap : CapTestFunc) (src : Addr) : Prop :=
  ∃ s ∈ r.srcIPs, ∃ c, c ≠ "" ∧ Denotes N s (.cap c) ∧
    ∃ test, hasCap = some test ∧ test src c = true

/-- A well-formed source of the rule is for the address, by itself or by a capability. -/
def AdmitsSrc (r : FilterRule) (hasCap : CapTestFunc) (src : Addr) : Prop :=
  r.ListsSrc N src ∨ r.HoldsSrc N hasCap src

/-- The well-formed entries of the rule admit traffic of a protocol from `src` to a
port of `dst`. -/
def Admits (r : FilterRule) (hasCap : CapTestFunc) (proto : Proto) (src dst : Addr)
    (port : UInt16) : Prop :=
  r.ListsProto proto ∧ r.AdmitsSrc N hasCap src ∧
    ∃ d ∈ r.dstPorts, (∃ e, Denotes N d.ip e ∧ e.Admits dst) ∧ d.ports.contains port = true

/-- The grants of the rule give a capability at `dst`, and the value if one is asked for.  The
empty name is no capability. -/
def GrantsAt (r : FilterRule) (dst : Addr) (cap : PeerCapability) (value : Option RawMessage) :
    Prop :=
  cap ≠ "" ∧ ∃ g ∈ r.capGrant, ∃ p ∈ g.dsts, p.contains dst = true ∧
    (cap ∈ g.caps ∧ value = none ∨
      ∃ values, g.capMap.lookup cap = some values ∧ ∀ v ∈ value, v ∈ values)

/-- The rule grants `src` a capability at `dst`: its sources include `src`, and its grants give
the capability there. -/
def Grants (r : FilterRule) (hasCap : CapTestFunc) (src dst : Addr) (cap : PeerCapability)
    (value : Option RawMessage) : Prop :=
  r.AdmitsSrc N hasCap src ∧ r.GrantsAt dst cap value

end FilterRule

theorem mem_convertProtos {proto : Proto} :
    proto ∈ convertProtos r.ipProto ↔ r.ListsProto proto := by
  unfold convertProtos FilterRule.ListsProto
  by_cases hnil : r.ipProto = []
  · simp [hnil]
  have hempty : r.ipProto.isEmpty = false := by simpa using hnil
  rw [hempty]
  simp only [Bool.false_eq_true, if_false, mem_map, mem_filter, Bool.and_eq_true,
    decide_eq_true_eq, hnil, false_and, false_or]
  constructor
  · rintro ⟨n, ⟨hn, h0, h255⟩, rfl⟩
    have heq : ((BitVec.ofInt 8 n).toNat : Int) = n := by
      rw [BitVec.toNat_ofInt]
      omega
    rw [heq]
    exact hn
  · intro h
    refine ⟨_, ⟨h, by omega, by omega⟩, ?_⟩
    rw [BitVec.ofInt_natCast, BitVec.ofNat_toNat, BitVec.setWidth_eq]

variable {hasCap : CapTestFunc}

theorem srcListed_toMatch {src : Addr} (hsrc : src.zone = "") :
    (toMatch N t r).SrcListed src ↔ r.ListsSrc N src := by
  constructor
  · rintro ⟨p, hp, hcontains⟩
    obtain ⟨s, hs, hp⟩ := mem_flatMap.1 hp
    exact ⟨s, hs, (mem_parseIPSet_iff hsrc).1 ⟨p, hp, hcontains⟩⟩
  · rintro ⟨s, hs, hadmits⟩
    obtain ⟨p, hp, hcontains⟩ := (mem_parseIPSet_iff hsrc).2 hadmits
    exact ⟨p, mem_flatMap.2 ⟨s, hs, hp⟩, hcontains⟩

theorem srcHolds_toMatch {src : Addr} :
    (toMatch N t r).SrcHolds hasCap src ↔ r.HoldsSrc N hasCap src := by
  have hcaps : ∀ c, c ∈ (toMatch N t r).srcCaps ↔
      c ≠ "" ∧ ∃ s ∈ r.srcIPs, Denotes N s (.cap c) := by
    intro c
    change c ∈ List.filter _ _ ↔ _
    rw [mem_filter, mem_map, decide_eq_true_eq, and_comm]
    refine and_congr_right fun hc => exists_congr fun s => and_congr_right fun _ => ?_
    exact parseIPSet_cap_iff hc
  constructor
  · rintro ⟨test, htest, c, hc, hholds⟩
    obtain ⟨hne, s, hs, hden⟩ := (hcaps c).1 hc
    exact ⟨s, hs, c, hne, hden, test, htest, hholds⟩
  · rintro ⟨s, hs, c, hne, hden, test, htest, hholds⟩
    exact ⟨test, htest, c, (hcaps c).2 ⟨hne, s, hs, hden⟩, hholds⟩

theorem srcMatches_toMatch {src : Addr} (hsrc : src.zone = "") :
    srcMatches (toMatch N t r) src hasCap = true ↔ r.AdmitsSrc N hasCap src := by
  have hlisted : (toMatch N t r).srcsContains src = true ↔ (toMatch N t r).SrcListed src := by
    change Ipset.newContainsIPFunc t _ src = true ↔ _
    rw [Ipset.newContainsIPFunc_eq t _ hsrc, any_eq_true]
    rfl
  rw [srcMatches, Bool.or_eq_true, hlisted, holdsOne_iff, srcListed_toMatch hsrc, srcHolds_toMatch]
  rfl

/-- Traffic as a filter is asked about it; addresses of packets have no zone. -/
structure Traffic where
  proto : Proto
  src : Addr
  dst : Addr
  port : UInt16
  src_zone : src.zone = ""
  dst_zone : dst.zone = ""

def Traffic.packet (tr : Traffic) : Parsed :=
  { ipProto := tr.proto, src := ⟨tr.src, 0⟩, dst := ⟨tr.dst, tr.port⟩ }

theorem matchRules_toMatch (tr : Traffic) :
    matchRules (rs.map (toMatch N t)) tr.packet hasCap = true ↔
      ∃ r ∈ rs, r.Admits N hasCap tr.proto tr.src tr.dst tr.port := by
  simp only [matchRules, any_map, any_eq_true, Function.comp_apply, Bool.and_eq_true]
  refine exists_congr fun r => and_congr_right fun _ => ?_
  have hdst : (∃ d ∈ (toMatch N t r).dsts,
      d.net.contains tr.dst = true ∧ d.ports.contains tr.port = true) ↔
      ∃ d ∈ r.dstPorts, (∃ e, Denotes N d.ip e ∧ e.Admits tr.dst) ∧
        d.ports.contains tr.port = true := by
    constructor
    · rintro ⟨d, hd, hcontains, hport⟩
      obtain ⟨d', hd', hmem⟩ := mem_flatMap.1 hd
      obtain ⟨p, hp, rfl⟩ := mem_map.1 hmem
      exact ⟨d', hd', (mem_parseIPSet_iff tr.dst_zone).1 ⟨p, hp, hcontains⟩, hport⟩
    · rintro ⟨d, hd, hadmits, hport⟩
      obtain ⟨p, hp, hcontains⟩ := (mem_parseIPSet_iff tr.dst_zone).2 hadmits
      exact ⟨⟨p, d.ports⟩, mem_flatMap.2 ⟨d, hd, mem_map.2 ⟨p, hp, rfl⟩⟩, hcontains, hport⟩
  have hproto : (toMatch N t r).ipProto.contains tr.proto = true ↔ r.ListsProto tr.proto := by
    rw [contains_iff_mem]
    exact mem_convertProtos
  rw [and_assoc]
  exact and_congr hproto (and_congr (srcMatches_toMatch tr.src_zone) hdst)

end Multiport.PacketFilter

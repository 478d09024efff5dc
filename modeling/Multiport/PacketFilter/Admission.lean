import Multiport.PacketFilter.Filter

/-!
# What a filter admits

The filter works on rules that were split by address family and on look-up
functions.  Here its verdicts are compared with the rules it was built from.

A packet that was decoded is in one family, and a prefix contains addresses of
its own family only.  So the parts of a rule for that family say of its addresses
what the rule says (`Matching`), and each of the three ways to match a packet is a
statement about the original list.  The verdict for the packets of a new
connection follows, and so does the exact difference between a source that is
admitted by a capability and one that is admitted by its address.
-/

namespace Multiport.PacketFilter

open Net Net.Flowtrack Lib List Proto PacketFilter.Filter Addr Parsed Prefix

/-! ## The family of an address -/

/-- The prefixes that `keep` drops do not contain the address. -/
def Kept (keep : Addr → Bool) (ip : Addr) : Prop :=
  ∀ p : Prefix, p.contains ip = true → keep p.addr = true

variable {ip : Addr}

theorem kept_is4 (h : ip.is4 = true) : Kept is4 ip := by
  intro p hp
  rw [(family_eq_of_contains hp).1, h]

theorem kept_is6 (h : ip.is6 = true) : Kept is6 ip := by
  intro p hp
  rw [(family_eq_of_contains hp).2, h]

theorem kept_not_is4 (h : ip.is6 = true) : Kept (fun a => !a.is4) ip := by
  intro p hp
  change (!p.addr.is4) = true
  rw [(family_eq_of_contains hp).1]
  cases ip with
  | zero | v4 a => cases h
  | v6 a zone => rfl

/-- The look-up function of the prefixes that `keep` keeps. -/
theorem newContainsIPFunc_filter (t : BartLite) (ps : List Prefix) {keep : Addr → Bool}
    (hzone : ip.zone = "") (hkept : Kept keep ip) :
    Ipset.newContainsIPFunc t (ps.filter fun p => keep p.addr) ip = ps.any (·.contains ip) := by
  rw [Ipset.newContainsIPFunc_eq t _ hzone, any_filter]
  congr 1
  funext p
  cases hp : p.contains ip with
  | false => exact Bool.and_false _
  | true => rw [hkept p hp]; rfl

/-- Membership in a possibly nil set. -/
def inNets (nets : Option IPSet) (ip : Addr) : Bool :=
  match nets with
  | some nets => nets.contains ip
  | none => false

theorem localFunc_eq (t : BartLite) (nets : Option IPSet) {keep : Addr → Bool}
    (hzone : ip.zone = "") (hkept : Kept keep ip) : localFunc t nets keep ip = inNets nets ip := by
  cases nets with
  | none => rfl
  | some nets =>
    change Ipset.newContainsIPFunc t _ ip = nets.contains ip
    rw [newContainsIPFunc_filter t _ hzone hkept, nets.contains_eq ip hzone]

/-! ## The parts of the rules -/

section Parts

variable {t : BartLite} {ms : List Match} {keep : Addr → Bool} {hasCap : CapTestFunc}
  {m : Match} {src dst : Addr}

theorem srcsContains_familyPart (hzone : src.zone = "") (hkept : Kept keep src) :
    (familyPart t m keep).srcsContains src = true ↔ m.SrcListed src := by
  change Ipset.newContainsIPFunc t _ src = true ↔ _
  rw [newContainsIPFunc_filter t _ hzone hkept, any_eq_true]
  rfl

theorem srcMatches_familyPart (hzone : src.zone = "") (hkept : Kept keep src) :
    srcMatches (familyPart t m keep) src hasCap = true ↔ m.AdmitsSrc hasCap src := by
  have hholds : holdsOne hasCap src (familyPart t m keep).srcCaps = true ↔ _ :=
    holdsOne_iff (m := m)
  rw [srcMatches, Bool.or_eq_true, srcsContains_familyPart hzone hkept, hholds]
  rfl

theorem hasDst_familyPart (hkept : Kept keep dst) {P : PortRange → Prop} :
    (familyPart t m keep).HasDst dst P ↔ m.HasDst dst P := by
  constructor
  · rintro ⟨d, hd, hP⟩
    exact ⟨d, mem_of_mem_filter hd, hP⟩
  · rintro ⟨d, hd, hcontains, hP⟩
    exact ⟨d, mem_filter.2 ⟨hd, hkept d.net hcontains⟩, hcontains, hP⟩

/-- A rule that is about the addresses of a family has a part for it. -/
theorem exists_mem_matchesFamily (t : BartLite) (ms : List Match) (keep : Addr → Bool)
    {P R : Match → Prop} (hR : ∀ m, P (familyPart t m keep) ↔ R m)
    (hP : ∀ m, P (familyPart t m keep) →
      ((familyPart t m keep).srcs ≠ [] ∨ m.srcCaps ≠ []) ∧ (familyPart t m keep).dsts ≠ []) :
    (∃ m ∈ matchesFamily t ms keep, P m) ↔ ∃ m ∈ ms, R m := by
  simp only [← hR]
  constructor
  · rintro ⟨m', hm', hPm⟩
    obtain ⟨m, hm, rfl⟩ := mem_map.1 (mem_of_mem_filter hm')
    exact ⟨m, hm, hPm⟩
  · rintro ⟨m, hm, hPm⟩
    refine ⟨_, mem_filter.2 ⟨mem_map.2 ⟨m, hm, rfl⟩, ?_⟩, hPm⟩
    obtain ⟨hsrc, hdst⟩ := hP m hPm
    simp only [Bool.and_eq_true, Bool.or_eq_true, Bool.not_eq_true', isEmpty_eq_false_iff]
    exact ⟨hsrc, hdst⟩

theorem srcs_familyPart_ne_nil (h : (familyPart t m keep).srcsContains src = true) :
    (familyPart t m keep).srcs ≠ [] := by
  intro hnil
  change m.srcs.filter _ = [] at hnil
  change Ipset.newContainsIPFunc t (m.srcs.filter _) src = true at h
  rw [hnil] at h
  cases h

theorem srcCaps_ne_nil (h : m.SrcHolds hasCap src) : m.srcCaps ≠ [] := by
  obtain ⟨_, _, c, hc, _⟩ := h
  exact ne_nil_of_mem hc

theorem srcs_or_srcCaps_ne_nil (h : srcMatches (familyPart t m keep) src hasCap = true) :
    (familyPart t m keep).srcs ≠ [] ∨ m.srcCaps ≠ [] := by
  rw [srcMatches, Bool.or_eq_true] at h
  rcases h with h | h
  · exact .inl (srcs_familyPart_ne_nil h)
  · exact .inr (srcCaps_ne_nil (holdsOne_iff.1 h))

theorem dsts_ne_nil {P : PortRange → Prop} (h : m.HasDst dst P) : m.dsts ≠ [] := by
  obtain ⟨d, hd, _⟩ := h
  exact ne_nil_of_mem hd

end Parts

/-! ## The three ways to match a packet -/

/-- The packet is in the family that `keep` keeps. -/
structure Matching (keep : Addr → Bool) (q : Parsed) : Prop where
  src_zone : q.src.addr.zone = ""
  dst_zone : q.dst.addr.zone = ""
  src_kept : Kept keep q.src.addr
  dst_kept : Kept keep q.dst.addr

section Ways

variable {t : BartLite} {ms : List Match} {keep : Addr → Bool} {hasCap : CapTestFunc} {q : Parsed}

theorem matchRules_matchesFamily (hq : Matching keep q) :
    matchRules (matchesFamily t ms keep) q hasCap = true ↔
      ∃ m ∈ ms, m.Admits hasCap q.ipProto q.src.addr q.dst.addr q.dst.port := by
  refine Iff.trans ?_ (exists_mem_matchesFamily t ms keep (P := fun m => q.ipProto ∈ m.ipProto ∧
    srcMatches m q.src.addr hasCap = true ∧
    m.HasDst q.dst.addr fun ports => ports.contains q.dst.port = true) (fun m => ?_) ?_)
  · simp [matchRules, Match.HasDst, and_assoc]
  · rw [srcMatches_familyPart hq.src_zone hq.src_kept, hasDst_familyPart hq.dst_kept]
    rfl
  · rintro m ⟨-, hsrc, hdst⟩
    exact ⟨srcs_or_srcCaps_ne_nil hsrc, dsts_ne_nil hdst⟩

/-- Matching by addresses only is admission of both addresses by the prefixes of a
rule, or **a capability of any rule with a destination in the family**. -/
theorem matchIPsOnly_matchesFamily (hq : Matching keep q) :
    matchIPsOnly (matchesFamily t ms keep) q hasCap = true ↔
      (∃ m ∈ ms, m.SrcListed q.src.addr ∧ m.HasDst q.dst.addr fun _ => True) ∨
      ∃ m ∈ ms, m.SrcHolds hasCap q.src.addr ∧ ∃ d ∈ m.dsts, keep d.net.addr = true := by
  rw [matchIPsOnly, Bool.or_eq_true]
  refine or_congr ?_ ?_
  · refine Iff.trans ?_ (exists_mem_matchesFamily t ms keep (P := fun m =>
      m.srcsContains q.src.addr = true ∧ m.HasDst q.dst.addr fun _ => True) (fun m => ?_) ?_)
    · simp [Match.HasDst]
    · rw [srcsContains_familyPart hq.src_zone hq.src_kept, hasDst_familyPart hq.dst_kept]
    · rintro m ⟨hsrc, hdst⟩
      exact ⟨.inl (srcs_familyPart_ne_nil hsrc), dsts_ne_nil hdst⟩
  · rw [any_eq_true]
    constructor
    · rintro ⟨m', hm', hholds⟩
      obtain ⟨hmap, hne⟩ := mem_filter.1 hm'
      obtain ⟨m, hm, rfl⟩ := mem_map.1 hmap
      refine ⟨m, hm, holdsOne_iff.1 hholds, ?_⟩
      simp only [Bool.and_eq_true, Bool.not_eq_true', isEmpty_eq_false_iff] at hne
      obtain ⟨d, hd⟩ := exists_mem_of_ne_nil _ hne.2
      exact ⟨d, mem_filter.1 hd⟩
    · rintro ⟨m, hm, hholds, d, hd, hkeep⟩
      refine ⟨familyPart t m keep, mem_filter.2 ⟨mem_map.2 ⟨m, hm, rfl⟩, ?_⟩,
        holdsOne_iff.2 hholds⟩
      simp only [Bool.and_eq_true, Bool.or_eq_true, Bool.not_eq_true', isEmpty_eq_false_iff]
      exact ⟨.inr (srcCaps_ne_nil hholds), ne_nil_of_mem (mem_filter.2 ⟨hd, hkeep⟩)⟩

/-- Matching without ports is admission by the prefixes of a rule **and not by its
capabilities**. -/
theorem matchProtoAndIPsOnlyIfAllPorts_matchesFamily (hq : Matching keep q) :
    matchProtoAndIPsOnlyIfAllPorts (matchesFamily t ms keep) q = true ↔
      ∃ m ∈ ms, q.ipProto ∈ m.ipProto ∧ m.SrcListed q.src.addr ∧
        m.HasDst q.dst.addr (· = allPorts) := by
  refine Iff.trans ?_ (exists_mem_matchesFamily t ms keep (P := fun m => q.ipProto ∈ m.ipProto ∧
    m.srcsContains q.src.addr = true ∧ m.HasDst q.dst.addr (· = allPorts)) (fun m => ?_) ?_)
  · simp [matchProtoAndIPsOnlyIfAllPorts, Match.HasDst, and_assoc, and_comm]
  · rw [srcsContains_familyPart hq.src_zone hq.src_kept, hasDst_familyPart hq.dst_kept]
    rfl
  · rintro m ⟨-, hsrc, hdst⟩
    exact ⟨.inl (srcs_familyPart_ne_nil hsrc), dsts_ne_nil hdst⟩

end Ways

/-! ## Verdicts -/

def familyOf (q : Parsed) : Addr → Bool := if q.ipVersion = 4 then is4 else is6

/-- The ICMP protocol of the family of a packet. -/
def icmpOf (q : Parsed) : Proto := if q.ipVersion = 4 then icmpv4 else icmpv6

variable {q : Parsed}

theorem matching_familyOf (hq : q.InFamily) : Matching (familyOf q) q := by
  rcases hq.version with ⟨hv, hsrc, hdst⟩ | ⟨hv, hsrc, hdst⟩
  · rw [familyOf, if_pos hv]
    exact ⟨hq.src_zone, hq.dst_zone, kept_is4 hsrc, kept_is4 hdst⟩
  · rw [familyOf, if_neg (by rw [hv]; decide)]
    exact ⟨hq.src_zone, hq.dst_zone, kept_is6 hsrc, kept_is6 hdst⟩

/-- The parts of a filter that `New` makes from its arguments; hooks, state and
the shields-up mark do not matter. -/
structure Built (t : BartLite) (ms : List Match) (capTest : CapTestFunc)
    (localNets : Option IPSet) (f : Filter) : Prop where
  matches4 : f.matches4 = matchesFamily t ms is4
  matches6 : f.matches6 = matchesFamily t ms is6
  local4 : f.local4 = localFunc t localNets is4
  local6 : f.local6 = localFunc t localNets fun a => !a.is4
  hasCap : f.srcIPHasCap = capTest

/-- The rules of a filter accept a packet to a local address: what they say by
protocol, given whether the flow is remembered. -/
def RulesAccept (ms : List Match) (capTest : CapTestFunc) (cached : Bool) (q : Parsed) : Prop :=
  if q.ipProto = icmpOf q then
    (q.isEchoResponse || q.isError) = true ∨
    (∃ m ∈ ms, m.SrcListed q.src.addr ∧ m.HasDst q.dst.addr fun _ => True) ∨
    ∃ m ∈ ms, m.SrcHolds capTest q.src.addr ∧ ∃ d ∈ m.dsts, familyOf q d.net.addr = true
  else if q.ipProto = tcp then
    q.isTCPSyn = false ∨ ∃ m ∈ ms, m.Admits capTest q.ipProto q.src.addr q.dst.addr q.dst.port
  else if q.ipProto = udp ∨ q.ipProto = sctp then
    cached = true ∨ ∃ m ∈ ms, m.Admits capTest q.ipProto q.src.addr q.dst.addr q.dst.port
  else if q.ipProto = tsmp then True
  else
    ∃ m ∈ ms, q.ipProto ∈ m.ipProto ∧ m.SrcListed q.src.addr ∧ m.HasDst q.dst.addr (· = allPorts)

namespace Filter

/-- Whether the flow of a packet is remembered. -/
def cached (lru : Flows) (q : Parsed) : Bool := (lru.get (makeTuple q.ipProto q.src q.dst)).1.isSome

open Classical in
/-- The verdict of one family, for any way to match that agrees with the rules. -/
theorem runInFamily_eq (f : Filter) (t : BartLite) (ms : List Match) (isLocal : Addr → Bool)
    (hq : Matching (familyOf q) q) (lru : Flows) :
    (f.runInFamily isLocal (icmpOf q) (matchesFamily t ms (familyOf q)) lru q).1.1 =
      if isLocal q.dst.addr = true ∧ RulesAccept ms f.srcIPHasCap (cached lru q) q then .accept
      else .noVerdict := by
  unfold runInFamily RulesAccept cached
  rw [← matchRules_matchesFamily (t := t) hq, ← matchIPsOnly_matchesFamily (t := t) hq,
    ← matchProtoAndIPsOnlyIfAllPorts_matchesFamily (t := t) hq]
  cases hlocal : isLocal q.dst.addr with
  | false => simp
  | true =>
    simp only [Bool.not_true, Bool.false_eq_true, if_false, true_and]
    by_cases hicmp : q.ipProto = icmpOf q
    · simp only [if_pos hicmp]
      cases (q.isEchoResponse || q.isError) <;> cases matchIPsOnly _ q f.srcIPHasCap <;> rfl
    simp only [if_neg hicmp]
    by_cases htcp : q.ipProto = tcp
    · simp only [if_pos htcp]
      cases q.isTCPSyn <;> cases matchRules _ q f.srcIPHasCap <;> simp
    simp only [if_neg htcp]
    by_cases hudp : q.ipProto = udp ∨ q.ipProto = sctp
    · simp only [if_pos hudp]
      obtain ⟨found, lru'⟩ := lru.get (makeTuple q.ipProto q.src q.dst)
      cases found <;> cases matchRules _ q f.srcIPHasCap <;> simp
    simp only [if_neg hudp]
    by_cases htsmp : q.ipProto = tsmp
    · simp [if_pos htsmp]
    · simp only [if_neg htsmp]
      split_ifs <;> rfl

variable {t : BartLite} {ms : List Match} {capTest : CapTestFunc} {localNets : Option IPSet}
  {f : Filter}

theorem ipProto_ne_unknown_of_pre (h : (f.pre q).1 = .noVerdict) : q.ipProto ≠ unknown := by
  intro hproto
  unfold pre at h
  split_ifs at h

/-- The hooks accept what the rules do not. -/
theorem runIn_eq_of_pre (hpre : (f.pre q).1 = .noVerdict) {P : Prop} [Decidable P] {lru : Flows}
    (h : (f.runInVersion lru q).1.1 = if P then .accept else .noVerdict) :
    (f.runIn lru q).1 =
      if P ∨ (f.ingressAllowHooks.any fun pm => (pm q).1) = true then .accept else .drop := by
  unfold runIn
  rw [hpre, if_neg (by decide)]
  rcases hr : f.runInVersion lru q with ⟨⟨r, why⟩, lru'⟩
  rw [hr] at h
  subst h
  by_cases hP : P
  · simp [hP]
  · simp only [hP, if_false, false_or]
    split_ifs <;> rfl

section

variable (hf : Built t ms capTest localNets f) (hq : q.InFamily)

include hf hq

open Classical in
/-- **The verdict of the rules**, for either family. -/
theorem runInVersion_eq (lru : Flows) : (f.runInVersion lru q).1.1 =
      if inNets localNets q.dst.addr = true ∧ RulesAccept ms capTest (cached lru q) q then .accept
      else .noVerdict := by
  have hmatch := matching_familyOf hq
  have hkept := hmatch.dst_kept
  have hfam := fun isLocal => f.runInFamily_eq t ms isLocal hmatch lru
  rw [hf.hasCap] at hfam
  unfold runInVersion
  rcases hq.version with ⟨hv, -, -⟩ | ⟨hv, -, hdst⟩
  · rw [if_pos hv, runIn4, hf.local4, hf.matches4]
    rw [familyOf, if_pos hv] at hfam hkept
    rw [icmpOf, if_pos hv] at hfam
    rw [hfam, localFunc_eq t _ hq.dst_zone hkept]
  · have hv4 : ¬ q.ipVersion = 4 := by
      rw [hv]
      decide
    rw [if_neg hv4, if_pos hv, runIn6_eq, hf.local6, hf.matches6]
    rw [familyOf, if_neg hv4] at hfam
    rw [icmpOf, if_neg hv4] at hfam
    rw [hfam, localFunc_eq t _ hq.dst_zone (kept_not_is4 hdst)]

theorem runInVersion_accept_iff (lru : Flows) :
    (f.runInVersion lru q).1.1 = .accept ↔
      inNets localNets q.dst.addr = true ∧ RulesAccept ms capTest (cached lru q) q := by
  classical
  rw [runInVersion_eq hf hq, Ne.ite_eq_left_iff (by decide)]

variable (hpre : (f.pre q).1 = .noVerdict)

include hpre

theorem runIn_accept_iff_of_pre (lru : Flows) :
    (f.runIn lru q).1 = .accept ↔
      inNets localNets q.dst.addr = true ∧ RulesAccept ms capTest (cached lru q) q ∨
        (f.ingressAllowHooks.any fun pm => (pm q).1) = true := by
  classical
  rw [runIn_eq_of_pre hpre (runInVersion_eq hf hq lru), Ne.ite_eq_left_iff (by decide)]

/-- A packet that was not decided before the rules is accepted or dropped. -/
theorem runIn_eq_drop_of_ne_accept {lru : Flows} (h : (f.runIn lru q).1 ≠ .accept) :
    (f.runIn lru q).1 = .drop := by
  classical
  rw [runIn_eq_of_pre hpre (runInVersion_eq hf hq lru)] at h ⊢
  exact if_neg fun hP => h (if_pos hP)

end

theorem runIn_eq_of_pre_ne (hpre : (f.pre q).1 ≠ .noVerdict) (lru : Flows) :
    (f.runIn lru q).1 = (f.pre q).1 := by
  unfold runIn
  rw [if_pos (pre_eq_of_ne hpre)]

end Filter

/-- Two filters with the same hooks and local addresses agree on a packet exactly
if a hook accepts it, it is not for a local address, or their rules agree. -/
theorem Built.runIn_eq_iff {t : BartLite} {ms ms' : List Match} {capTest : CapTestFunc}
    {localNets : Option IPSet} {f g : Filter} {lru : Flows} (hf : Built t ms capTest localNets f)
    (hg : Built t ms' capTest localNets g) (hpre : (f.pre q).1 = .noVerdict)
    (hpre' : (g.pre q).1 = .noVerdict) (hhooks : g.ingressAllowHooks = f.ingressAllowHooks)
    (hq : q.InFamily) : (g.runIn lru q).1 = (f.runIn lru q).1 ↔
      (inNets localNets q.dst.addr = false ∨
        (f.ingressAllowHooks.any fun pm => (pm q).1) = true) ∨
      (RulesAccept ms' capTest (cached lru q) q ↔
        RulesAccept ms capTest (cached lru q) q) := by
  have hf' := runIn_accept_iff_of_pre hf hq hpre lru
  have hg' := runIn_accept_iff_of_pre hg hq hpre' lru
  have hacc : (g.runIn lru q).1 = (f.runIn lru q).1 ↔
      ((g.runIn lru q).1 = .accept ↔ (f.runIn lru q).1 = .accept) := by
    constructor
    · exact fun h => by rw [h]
    · intro h
      by_cases ha : (f.runIn lru q).1 = .accept
      · rw [ha, h.2 ha]
      · rw [runIn_eq_drop_of_ne_accept hf hq hpre ha,
          runIn_eq_drop_of_ne_accept hg hq hpre' (mt h.1 ha)]
  rw [hacc, hf', hg', hhooks]
  cases inNets localNets q.dst.addr <;>
    cases (f.ingressAllowHooks.any fun pm => (pm q).1) <;> simp

theorem built_new (t : BartLite) (ms : List Match) (capTest : CapTestFunc)
    (localNets : Option IPSet) (share : Option Filter) (fresh : StateRef) (b : Bool)
    (ingress linkLocal : List PacketMatch) :
    Built t ms capTest localNets
      { new t ms capTest localNets share fresh with
        shieldsUp := b, ingressAllowHooks := ingress, linkLocalAllowHooks := linkLocal } :=
  ⟨rfl, rfl, rfl, rfl, rfl⟩

/-! ## The law of admission -/

/-- The packets for which the rules are asked with a port: TCP without an
established connection, UDP and SCTP. -/
def AsksPort (q : Parsed) : Prop :=
  q.ipProto = tcp ∧ q.isTCPSyn = true ∨ q.ipProto = udp ∨ q.ipProto = sctp

theorem rulesAccept_iff_of_asksPort {ms : List Match} {capTest : CapTestFunc} (hq : AsksPort q) :
    RulesAccept ms capTest false q ↔
      ∃ m ∈ ms, m.Admits capTest q.ipProto q.src.addr q.dst.addr q.dst.port := by
  have hicmp : q.ipProto ≠ icmpOf q := by
    unfold icmpOf
    rcases hq with ⟨h, -⟩ | h | h <;> rw [h] <;> split_ifs <;> decide
  rw [RulesAccept, if_neg hicmp]
  rcases hq with ⟨h, hsyn⟩ | h | h
  · rw [if_pos h, hsyn]
    simp
  · rw [if_neg (by rw [h]; decide), if_pos (.inl h)]
    simp
  · rw [if_neg (by rw [h]; decide), if_pos (.inr h)]
    simp

/-- **A packet that opens a connection is accepted iff its destination is local
and some rule admits it**, where the rule is one of the list that the filter was
built from. -/
theorem runIn_accept_iff (t : BartLite) (ms : List Match) (capTest : CapTestFunc)
    (localNets : Option IPSet) (share : Option Filter) (fresh : StateRef)
    (linkLocal : List PacketMatch) (lru : Flows) (old : Parsed) (b : Bytes) :
    let f := { new t ms capTest localNets share fresh with linkLocalAllowHooks := linkLocal }
    let q := old.decode b
    (f.pre q).1 = .noVerdict → AsksPort q → cached lru q = false →
      ((f.runIn lru q).1 = .accept ↔
        inNets localNets q.dst.addr = true ∧
          ∃ m ∈ ms, m.Admits capTest q.ipProto q.src.addr q.dst.addr q.dst.port) := by
  intro f q hpre hport hcached
  have hfam : q.InFamily := inFamily_decode (ipProto_ne_unknown_of_pre hpre)
  have hf : Built t ms capTest localNets f := built_new t ms capTest localNets share fresh _ _ _
  have hhooks : f.ingressAllowHooks = [] := rfl
  rw [runIn_accept_iff_of_pre hf hfam hpre, hcached, rulesAccept_iff_of_asksPort hport, hhooks]
  simp

/-- An IPv4 packet of 28 bytes from 100.64.0.1 to 10.0.0.2, with the eight bytes
of its subprotocol. -/
def packet4 (proto : Byte) (sub : Bytes) : Bytes :=
  [0x45, 0, 0, 28, 0, 0, 0, 0, 64, proto, 0, 0, 100, 64, 0, 1, 10, 0, 0, 2] ++ sub

/-- A rule for one capability, one prefix of destinations and all ports. -/
def capRule (protos : List Proto) (net : Prefix) : Match :=
  { ipProto := protos, srcCaps := ["ssh"], dsts := [⟨net, allPorts⟩] }

/-- The addresses 10.0.0.0/24. -/
def net24 : Prefix := ⟨.v4 0x0a000000#32, 24⟩

/-- A UDP packet from a source that holds the capability of a rule. -/
theorem runIn_accept_capRule :
    let f := { new .linear [capRule [udp] net24] (some fun _ _ => true)
      (some (.ofPrefixes [net24])) none 0 with linkLocalAllowHooks := [] }
    let q := ({} : Parsed).decode (packet4 17 [3, 232, 0, 53, 0, 8, 0, 0])
    (f.runIn Flows.new q).1 = .accept :=
  (runIn_accept_iff .linear [capRule [udp] net24] (some fun _ _ => true)
    (some (.ofPrefixes [net24])) none 0 [] Flows.new {} _ (by decide) (.inr (.inl (by decide)))
    (by decide)).2
    ⟨by decide, _, mem_cons_self, by decide,
      .inr ⟨_, rfl, "ssh", mem_cons_self, rfl⟩, _, mem_cons_self, by decide, by decide⟩

/-! ## Capabilities as sources -/

/-- The rule with its capabilities replaced by the address `src`, once for each
capability that `src` holds. -/
def withCapsListed (capTest : CapTestFunc) (src : Addr) (m : Match) : Match :=
  { m with
    srcCaps := [],
    srcs := m.srcs ++ (m.srcCaps.filter fun c => holdsOne capTest src [c]).map fun _ =>
      prefixFrom src src.bitLen }

section CapsListed

variable {ms : List Match} {m : Match} {capTest : CapTestFunc} {src dst : Addr}

theorem not_srcHolds_withCapsListed (src' : Addr) :
    ¬ (withCapsListed capTest src m).SrcHolds capTest src' := by
  rintro ⟨_, _, c, hc, _⟩
  cases hc

theorem srcListed_withCapsListed (hvalid : src.isValid = true) (hzone : src.zone = "") :
    (withCapsListed capTest src m).SrcListed src ↔ m.AdmitsSrc capTest src := by
  have hself : (prefixFrom src src.bitLen).contains src = true := by
    rw [contains_prefixFrom_bitLen hvalid hzone, withoutZone_eq_self hzone]
    exact decide_eq_true rfl
  constructor
  · rintro ⟨p, hp, hcontains⟩
    rcases mem_append.1 hp with hp | hp
    · exact .inl ⟨p, hp, hcontains⟩
    · obtain ⟨c, hc, -⟩ := mem_map.1 hp
      obtain ⟨hmem, hholds⟩ := mem_filter.1 hc
      cases capTest with
      | none => cases hholds
      | some test => exact .inr ⟨test, rfl, c, hmem, by simpa [holdsOne] using hholds⟩
  · rintro (⟨p, hp, hcontains⟩ | ⟨test, rfl, c, hc, hholds⟩)
    · exact ⟨p, mem_append_left _ hp, hcontains⟩
    · refine ⟨_, mem_append_right _ (mem_map.2 ⟨c, mem_filter.2 ⟨hc, ?_⟩, rfl⟩), hself⟩
      simpa [holdsOne] using hholds

theorem admitsSrc_withCapsListed (hvalid : src.isValid = true) (hzone : src.zone = "") :
    (withCapsListed capTest src m).AdmitsSrc capTest src ↔ m.AdmitsSrc capTest src := by
  rw [Match.AdmitsSrc, srcListed_withCapsListed hvalid hzone]
  exact or_iff_left (not_srcHolds_withCapsListed src)

end CapsListed

/-- An ICMP packet that is asked about by a capability is admitted by one rule
with both its addresses. -/
def IcmpCapsAgree (ms : List Match) (capTest : CapTestFunc) (q : Parsed) : Prop :=
  q.ipProto = icmpOf q → (q.isEchoResponse || q.isError) = false →
    (∃ m ∈ ms, m.SrcHolds capTest q.src.addr ∧ ∃ d ∈ m.dsts, familyOf q d.net.addr = true) →
    ∃ m ∈ ms, m.AdmitsAddrs capTest q.src.addr q.dst.addr

/-- The protocols that have neither ports nor rules of their own. -/
def Portless (q : Parsed) : Prop :=
  q.ipProto ∉ [icmpOf q, tcp, udp, sctp, tsmp]

/-- A packet without ports that a rule for all ports admits by a capability is
also admitted by the prefixes of such a rule. -/
def PortlessCapsAgree (ms : List Match) (capTest : CapTestFunc) (q : Parsed) : Prop :=
  Portless q →
    (∃ m ∈ ms, q.ipProto ∈ m.ipProto ∧ m.SrcHolds capTest q.src.addr ∧
      m.HasDst q.dst.addr (· = allPorts)) →
    ∃ m ∈ ms, q.ipProto ∈ m.ipProto ∧ m.SrcListed q.src.addr ∧ m.HasDst q.dst.addr (· = allPorts)

section Replaced

variable {ms : List Match} {capTest : CapTestFunc} {cached : Bool}

section

variable (hq : q.InFamily)

include hq

theorem isValid_of_inFamily : q.src.addr.isValid = true := by
  rcases hq.version with ⟨-, hsrc, -⟩ | ⟨-, hsrc, -⟩
  all_goals
    cases haddr : q.src.addr with
    | zero => rw [haddr] at hsrc; cases hsrc
    | v4 a | v6 a zone => rfl

/-- Listing the holders changes nothing for the protocols with ports. -/
theorem exists_admits_withCapsListed : (∃ m ∈ ms.map (withCapsListed capTest q.src.addr),
      m.Admits capTest q.ipProto q.src.addr q.dst.addr q.dst.port) ↔
    ∃ m ∈ ms, m.Admits capTest q.ipProto q.src.addr q.dst.addr q.dst.port := by
  simp only [mem_map, exists_exists_and_eq_and, Match.Admits,
    admitsSrc_withCapsListed (isValid_of_inFamily hq) hq.src_zone]
  rfl

/-- For ICMP, the rules with the holders listed accept what one rule admits with
both addresses. -/
theorem icmp_withCapsListed : ((∃ m ∈ ms.map (withCapsListed capTest q.src.addr),
        m.SrcListed q.src.addr ∧ m.HasDst q.dst.addr fun _ => True) ∨
      ∃ m ∈ ms.map (withCapsListed capTest q.src.addr),
        m.SrcHolds capTest q.src.addr ∧ ∃ d ∈ m.dsts, familyOf q d.net.addr = true) ↔
    ∃ m ∈ ms, m.AdmitsAddrs capTest q.src.addr q.dst.addr := by
  simp only [mem_map, exists_exists_and_eq_and, not_srcHolds_withCapsListed, false_and,
    and_false, exists_false, or_false,
      srcListed_withCapsListed (isValid_of_inFamily hq) hq.src_zone]
  rfl

/-- A packet that one rule admits with both addresses is accepted for ICMP. -/
theorem icmp_of_admitsAddrs (h : ∃ m ∈ ms, m.AdmitsAddrs capTest q.src.addr q.dst.addr) :
    (∃ m ∈ ms, m.SrcListed q.src.addr ∧ m.HasDst q.dst.addr fun _ => True) ∨
      ∃ m ∈ ms, m.SrcHolds capTest q.src.addr ∧ ∃ d ∈ m.dsts, familyOf q d.net.addr = true := by
  obtain ⟨m, hm, hsrc | hsrc, hdst⟩ := h
  · exact .inl ⟨m, hm, hsrc, hdst⟩
  · obtain ⟨d, hd, hcontains, -⟩ := hdst
    exact .inr ⟨m, hm, hsrc, d, hd, (matching_familyOf hq).dst_kept d.net hcontains⟩

/-- The rules with the holders listed and the rules themselves accept the same
packets exactly if capabilities agree with addresses. -/
theorem rulesAccept_withCapsListed_iff :
    (RulesAccept (ms.map (withCapsListed capTest q.src.addr)) capTest cached q ↔
      RulesAccept ms capTest cached q) ↔
    IcmpCapsAgree ms capTest q ∧ PortlessCapsAgree ms capTest q := by
  unfold RulesAccept
  by_cases hicmp : q.ipProto = icmpOf q
  · have hports : PortlessCapsAgree ms capTest q := fun h =>
      absurd (mem_cons.2 (.inl hicmp)) h
    simp only [if_pos hicmp, icmp_withCapsListed hq]
    rw [and_iff_left hports]
    cases hresp : (q.isEchoResponse || q.isError) with
    | true => simp [IcmpCapsAgree, hresp]
    | false =>
      simp only [Bool.false_eq_true, false_or]
      constructor
      · exact fun h _ _ hcap => h.2 (.inr hcap)
      · refine fun h => ⟨icmp_of_admitsAddrs hq, ?_⟩
        rintro (⟨m, hm, hsrc, hdst⟩ | hcap)
        · exact ⟨m, hm, .inl hsrc, hdst⟩
        · exact h hicmp hresp hcap
  have hnoicmp : IcmpCapsAgree ms capTest q := fun h => absurd h hicmp
  rw [and_iff_right hnoicmp]
  simp only [if_neg hicmp, exists_admits_withCapsListed hq]
  by_cases hother : Portless q
  · have h := hother
    simp only [Portless, mem_cons, not_mem_nil, or_false, not_or] at h
    simp only [if_neg h.2.1, if_neg (not_or.2 ⟨h.2.2.1, h.2.2.2.1⟩), if_neg h.2.2.2.2, mem_map,
      exists_exists_and_eq_and, srcListed_withCapsListed (isValid_of_inFamily hq) hq.src_zone]
    constructor
    · rintro hiff - ⟨m, hm, hproto, hsrc, hdst⟩
      exact hiff.1 ⟨m, hm, hproto, .inr hsrc, hdst⟩
    · refine fun hcaps => ⟨?_, ?_⟩
      · rintro ⟨m, hm, hproto, hsrc | hsrc, hdst⟩
        · exact ⟨m, hm, hproto, hsrc, hdst⟩
        · exact hcaps hother ⟨m, hm, hproto, hsrc, hdst⟩
      · rintro ⟨m, hm, hproto, hsrc, hdst⟩
        exact ⟨m, hm, hproto, .inl hsrc, hdst⟩
  · have hports : PortlessCapsAgree ms capTest q := fun h => absurd h hother
    rw [iff_true_right hports]
    split_ifs with htcp hudp htsmp
    · rfl
    · rfl
    · rfl
    · exact absurd (by simp_all [Portless]) hother

end

theorem not_response_of_isEchoRequest (h : q.isEchoRequest = true) :
    (q.isEchoResponse || q.isError) = false := by
  unfold isEchoRequest isEchoResponse isError isEcho at *
  split_ifs at h ⊢
  all_goals
    simp only [Bool.and_eq_true, beq_iff_eq] at h
    rw [h.1.2]
    cases q.hasICMPHeader <;> simp

/-- The rules accept an echo request only if one of them admits both addresses:
exactly if the capabilities agree with addresses. -/
theorem rulesAccept_echo_iff (hecho : q.isEchoRequest = true) :
    (RulesAccept ms capTest cached q → ∃ m ∈ ms, m.AdmitsAddrs capTest q.src.addr q.dst.addr) ↔
      IcmpCapsAgree ms capTest q := by
  have hresp := not_response_of_isEchoRequest hecho
  unfold RulesAccept
  by_cases hicmp : q.ipProto = icmpOf q
  · simp only [if_pos hicmp, hresp, Bool.false_eq_true, false_or]
    constructor
    · exact fun h _ _ hcap => h (.inr hcap)
    · rintro h (⟨m, hm, hsrc, hdst⟩ | hcap)
      · exact ⟨m, hm, .inl hsrc, hdst⟩
      · exact h hicmp hresp hcap
  · have hnoicmp : IcmpCapsAgree ms capTest q := fun h => absurd h hicmp
    have hproto : q.ipProto = icmpv4 ∨ q.ipProto = icmpv6 := by
      unfold isEchoRequest isEcho at hecho
      split_ifs at hecho with h4 h6
      · exact .inl h4
      · exact .inr h6
    have hports : q.ipProto ∉ [tcp, udp, sctp, tsmp] := by
      rcases hproto with h | h <;> rw [h] <;> decide
    simp only [mem_cons, not_mem_nil, or_false, not_or] at hports
    simp only [if_neg hicmp, if_neg hports.1, if_neg (not_or.2 ⟨hports.2.1, hports.2.2.1⟩),
      if_neg hports.2.2.2, iff_true_right hnoicmp]
    rintro ⟨m, hm, -, hsrc, d, hd, hcontains, -⟩
    exact ⟨m, hm, .inl hsrc, d, hd, hcontains, trivial⟩

end Replaced

/-- The rules are not asked: the packet is decided before them, is not for a local
address, or is accepted by a hook anyway. -/
def NotAsked (f : Filter) (localNets : Option IPSet) (q : Parsed) : Prop :=
  (f.pre q).1 ≠ .noVerdict ∨ inNets localNets q.dst.addr = false ∨
    (f.ingressAllowHooks.any fun pm => (pm q).1) = true

/-- **Listing the holders of a capability leaves the verdict unchanged exactly if
the rules are not asked or capabilities agree with addresses**, and the rules
accept an echo request only by a rule that admits both its addresses under the
same condition for ICMP. -/
theorem runIn_withCapsListed_iff (t : BartLite) (ms : List Match) (capTest : CapTestFunc)
    (localNets : Option IPSet) (share : Option Filter) (fresh : StateRef)
    (ingress linkLocal : List PacketMatch) (lru : Flows) (old : Parsed) (b : Bytes) :
    let q := old.decode b
    let build ms := { new t ms capTest localNets share fresh with
      ingressAllowHooks := ingress, linkLocalAllowHooks := linkLocal }
    let f := build ms
    let listed := build (ms.map (withCapsListed capTest q.src.addr))
    ((listed.runIn lru q).1 = (f.runIn lru q).1 ↔
      NotAsked f localNets q ∨ IcmpCapsAgree ms capTest q ∧ PortlessCapsAgree ms capTest q) ∧
    (q.isEchoRequest = true →
      (((f.pre q).1 = .noVerdict → (f.runInVersion lru q).1.1 = .accept →
          ∃ m ∈ ms, m.AdmitsAddrs capTest q.src.addr q.dst.addr) ↔
        (f.pre q).1 ≠ .noVerdict ∨ inNets localNets q.dst.addr = false ∨
          IcmpCapsAgree ms capTest q)) := by
  intro q build f listed
  by_cases hpre : (f.pre q).1 = .noVerdict
  · have hfam : q.InFamily := inFamily_decode (ipProto_ne_unknown_of_pre hpre)
    have hf : Built t ms capTest localNets f := built_new t ms capTest localNets share fresh _ _ _
    have hl : Built t (ms.map (withCapsListed capTest q.src.addr)) capTest localNets listed :=
      built_new t _ capTest localNets share fresh _ _ _
    refine ⟨?_, fun hecho => ?_⟩
    · rw [hf.runIn_eq_iff hl hpre hpre rfl hfam, rulesAccept_withCapsListed_iff hfam, NotAsked,
        or_iff_right (not_not.2 hpre)]
    · have hiff : (RulesAccept ms capTest (cached lru q) q → _) ↔ _ :=
        rulesAccept_echo_iff hecho
      rw [← hiff, or_iff_right (not_not.2 hpre), imp_iff_right hpre,
        runInVersion_accept_iff hf hfam lru]
      cases inNets localNets q.dst.addr <;> simp
  · have hpre' : (listed.pre q).1 ≠ .noVerdict := hpre
    have hl : (listed.runIn lru q).1 = (f.pre q).1 := runIn_eq_of_pre_ne hpre' lru
    have hf : (f.runIn lru q).1 = (f.pre q).1 := runIn_eq_of_pre_ne hpre lru
    refine ⟨iff_of_true (hl.trans hf.symm) (.inl (.inl hpre)), fun _ => ?_⟩
    exact iff_of_true (fun h => absurd h hpre) (.inl hpre)

/-- 10.0.0.9, an address that is not the destination of the packet. -/
def elsewhere : Prefix := ⟨.v4 0x0a000009#32, 32⟩

/-- An echo request is accepted because its source holds a capability, although
the only rule with that capability is for another destination; with the source
listed in its place the request is dropped.  A GRE packet is dropped although a
rule for its protocol, its destination and all ports names a capability of its
source; with the source listed it is accepted. -/
theorem echo_accepted_for_other_destination :
    let echo := ({} : Parsed).decode (packet4 1 [8, 0, 0, 0, 0, 0, 0, 0])
    let gre := ({} : Parsed).decode (packet4 47 [0, 0, 8, 0, 0, 0, 0, 0])
    let build ms := new .linear ms (some fun _ _ => true) (some (.ofPrefixes [net24])) none 0
    let listed ms q := build (List.map (withCapsListed (some fun _ _ => true) q.src.addr) ms)
    let ssh := [capRule [tcp] elsewhere]
    let tunnel := [capRule [47] net24]
    echo.isEchoRequest = true ∧
    ((build ssh).runIn Flows.new echo).1 = .accept ∧
    (∀ m ∈ ssh, ∀ d ∈ m.dsts, d.net.contains echo.dst.addr = false) ∧
    ((listed ssh echo).runIn Flows.new echo).1 = .drop ∧
    ((build tunnel).runIn Flows.new gre).1 = .drop ∧
    ((listed tunnel gre).runIn Flows.new gre).1 = .accept := by
  decide

end Multiport.PacketFilter

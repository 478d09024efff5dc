import Multiport.PacketFilter.Admission
import Multiport.PacketFilter.Rules

/-!
# Grants of capabilities

`CapsWithValues` (`wgengine/filter/filter.go`) finds the capabilities that a source has at a
destination.  It looks at the source prefixes of the matches, and not at their source
capabilities as the matching of packets does.  So a rule whose only sources are of the form
`cap:x` grants nothing, though its traffic is admitted.

`matchesFromFilterRules_admits` compares a filter with the rules that it was built from.
-/

namespace Multiport.PacketFilter

open Net Lib List

/-- The capabilities include this one, with the value if one is asked for. -/
def Gives (caps : PeerCapMap) (cap : PeerCapability) (value : Option RawMessage) : Prop :=
  ∃ values, caps.lookup cap = some values ∧ ∀ v ∈ value, v ∈ values

/-- The capability match gives the capability at `dst`. -/
def CapMatch.GrantsAt (cm : CapMatch) (dst : Addr) (cap : PeerCapability)
    (value : Option RawMessage) : Prop :=
  cm.cap = cap ∧ cap ≠ "" ∧ cm.dst.contains dst = true ∧ ∀ v ∈ value, v ∈ cm.values

variable {N : Netip} {t : BartLite} {ms : List Match} {src dst : Addr} {cap : PeerCapability}
  {value : Option RawMessage}

/-! ## What the filter finds -/

theorem gives_addCap (dst : Addr) (out : PeerCapMap) (cm : CapMatch) :
    Gives (Filter.addCap dst out cm) cap value ↔ Gives out cap value ∨
      cm.GrantsAt dst cap value := by
  unfold Filter.addCap CapMatch.GrantsAt
  by_cases hcm : cm.cap ≠ "" ∧ cm.dst.contains dst = true
  · rw [if_pos hcm]
    by_cases hcap : cm.cap = cap
    · subst hcap
      unfold Gives
      cases hlook : out.lookup cm.cap with
      | none => simp [hcm]
      | some prev => cases value <;> simp [hcm]
    · have hsame (values : List RawMessage) :
          (out.insert cm.cap values).lookup cap = out.lookup cap := by
        rw [GoMap.lookup_insert_eq, if_neg (Ne.symm hcap)]
      unfold Gives
      cases out.lookup cm.cap <;> simp [hsame, hcap]
  · rw [if_neg hcm, or_iff_left]
    rintro ⟨rfl, hne, hdst, -⟩
    exact hcm ⟨hne, hdst⟩

/-- A match that is about the sources of a family has a part for it. -/
theorem exists_mem_capMatchesFunc {keep} (hzone : src.zone = "")
    (hkept : Kept keep src) {Q : CapMatch → Prop} :
    (∃ m ∈ capMatchesFunc t ms keep, m.srcsContains src = true ∧ ∃ cm ∈ m.caps, Q cm) ↔
      ∃ m ∈ ms, m.SrcListed src ∧ ∃ cm ∈ m.caps, Q cm := by
  have hlisted (m : Match) :
      Ipset.newContainsIPFunc t (m.srcs.filter fun p => keep p.addr) src = true ↔
      m.SrcListed src := by
    rw [newContainsIPFunc_filter t _ hzone hkept, any_eq_true]
    rfl
  constructor
  · rintro ⟨_, hm, hsrc, hQ⟩
    obtain ⟨m, hmem, rfl⟩ := mem_map.1 (mem_of_mem_filter hm)
    exact ⟨m, mem_of_mem_filter hmem, (hlisted m).1 hsrc, hQ⟩
  · rintro ⟨m, hm, hsrc, cm, hcm, hQ⟩
    have hcaps : (!m.caps.isEmpty) = true := by simpa using ne_nil_of_mem hcm
    refine ⟨_, mem_filter.2 ⟨mem_map.2 ⟨m, mem_filter.2 ⟨hm, hcaps⟩, rfl⟩, ?_⟩, (hlisted m).2 hsrc,
      cm, hcm, hQ⟩
    obtain ⟨p, hp, hcontains⟩ := hsrc
    simpa using ⟨p, hp, hkept p hcontains⟩

/-- **The grants of a filter** are those of the matches that list the source. -/
theorem gives_capsWithValues (hasCap : CapTestFunc) (localNets : Option IPSet)
    (share : Option Filter) (fresh : StateRef) (hzone : src.zone = "") :
    Gives ((new t ms hasCap localNets share fresh).capsWithValues src dst) cap value ↔
      ∃ m ∈ ms, m.SrcListed src ∧ ∃ cm ∈ m.caps, cm.GrantsAt dst cap value := by
  have hround (out : PeerCapMap) (m : Match) :
      Gives (if m.srcsContains src then m.caps.foldl (Filter.addCap dst) out else out) cap value ↔
        Gives out cap value ∨ m.srcsContains src = true ∧ ∃ cm ∈ m.caps,
          cm.GrantsAt dst cap value := by
    split_ifs with hsrc
    · have hcaps := foldl_iff_or_exists (P := (Gives · cap value)) (gives_addCap dst) m.caps out
      rw [hcaps, and_iff_right hsrc]
    · rw [or_iff_left (not_and_of_not_left _ hsrc)]
  have hnone : ¬Gives ∅ cap value := by simp [Gives]
  refine (foldl_iff_or_exists (P := (Gives · cap value)) hround _ ∅).trans ?_
  rw [or_iff_right hnone]
  cases src with
  | zero =>
    refine iff_of_false (by simp [Addr.is4, Addr.is6]) ?_
    rintro ⟨m, -, ⟨p, -, hp⟩, -⟩
    obtain ⟨addr, bits⟩ := p
    cases addr <;> simp [Prefix.contains] at hp
  | v4 a => exact exists_mem_capMatchesFunc hzone (kept_is4 rfl)
  | v6 a zone => exact exists_mem_capMatchesFunc hzone (kept_is6 rfl)

/-! ## What the rules grant -/

theorem exists_convertCaps_iff {r : FilterRule} :
    (∃ cm ∈ convertCaps r.capGrant, cm.GrantsAt dst cap value) ↔ r.GrantsAt dst cap value := by
  constructor
  · rintro ⟨cm, hcm, rfl, hne, hdst, hvalue⟩
    obtain ⟨g, hg, hcm⟩ := mem_flatMap.1 hcm
    obtain ⟨p, hp, hcm⟩ := mem_flatMap.1 hcm
    refine ⟨hne, g, hg, p, hp, ?_⟩
    rcases mem_append.1 hcm with hcm | hcm
    · obtain ⟨c, hc, rfl⟩ := mem_map.1 hcm
      exact ⟨hdst, .inl ⟨hc, by simpa [Option.eq_none_iff_forall_ne_some] using hvalue⟩⟩
    · obtain ⟨⟨c, vs⟩, he, rfl⟩ := mem_map.1 hcm
      exact ⟨hdst, .inr ⟨vs, GoMap.lookup_eq_some_iff.2 he, hvalue⟩⟩
  · rintro ⟨hne, g, hg, p, hp, hdst, h⟩
    have hmem : ∀ cm, cm ∈ (g.caps.map fun c => ({ dst := p, cap := c } : CapMatch)) ++
        g.capMap.entries.map (fun e => ⟨p, e.1, e.2⟩) → cm ∈ convertCaps r.capGrant := fun cm hcm =>
      mem_flatMap.2 ⟨g, hg, mem_flatMap.2 ⟨p, hp, hcm⟩⟩
    rcases h with ⟨hc, rfl⟩ | ⟨values, hlookup, hvalue⟩
    · exact ⟨_, hmem _ (mem_append_left _ (mem_map.2 ⟨cap, hc, rfl⟩)), rfl, hne, hdst, by simp⟩
    · exact ⟨_, hmem _ (mem_append_right _
        (mem_map.2 ⟨_, GoMap.lookup_eq_some_iff.1 hlookup, rfl⟩)), rfl, hne, hdst, hvalue⟩

variable {rs : List FilterRule}

theorem gives_toMatch (hasCap : CapTestFunc) (localNets : Option IPSet) (share : Option Filter)
    (fresh : StateRef) (hzone : src.zone = "") :
    Gives ((new t (rs.map (toMatch N t)) hasCap localNets share fresh).capsWithValues src dst) cap
      value ↔ ∃ r ∈ rs, r.ListsSrc N src ∧ r.GrantsAt dst cap value := by
  rw [gives_capsWithValues hasCap localNets share fresh hzone]
  simp only [mem_map, exists_exists_and_eq_and, srcListed_toMatch hzone]
  refine exists_congr fun r => and_congr_right fun _ => and_congr_right fun _ => ?_
  exact exists_convertCaps_iff

/-- **Parsing fails closed.**  What the matches admit, and what the filter that has them grants,
the well-formed entries of the rules admit and grant.  When no error is reported, all entries are
well-formed and the matches admit exactly what the rules denote; and **the filter grants exactly
what the rules denote unless a source has the grant only by a capability**. -/
theorem matchesFromFilterRules_admits (N : Netip) (t : BartLite) (rs : List FilterRule)
    (hasCap : CapTestFunc) (localNets : Option IPSet) (share : Option Filter) (fresh : StateRef)
    (tr : Traffic) (cap : PeerCapability) (value : Option RawMessage) :
    let (ms, err) := matchesFromFilterRules N t rs
    let granted := (new t ms hasCap localNets share fresh).capsWithValues tr.src tr.dst
    (matchRules ms tr.packet hasCap = true →
      ∃ r ∈ rs, r.Admits N hasCap tr.proto tr.src tr.dst tr.port) ∧
    (Gives granted cap value → ∃ r ∈ rs, r.Grants N hasCap tr.src tr.dst cap value) ∧
    (err = none → (∀ r ∈ rs, r.WellFormed N) ∧
      (matchRules ms tr.packet hasCap = true ↔
        ∃ r ∈ rs, r.Admits N hasCap tr.proto tr.src tr.dst tr.port) ∧
      ((Gives granted cap value ↔ ∃ r ∈ rs, r.Grants N hasCap tr.src tr.dst cap value) ↔
        ∀ r ∈ rs, r.HoldsSrc N hasCap tr.src → r.GrantsAt tr.dst cap value →
          ∃ r' ∈ rs, r'.ListsSrc N tr.src ∧ r'.GrantsAt tr.dst cap value)) := by
  rcases h : matchesFromFilterRules N t rs with ⟨ms, err⟩
  have hcases := matchesFromFilterRules_cases N t rs
  rw [h] at hcases
  rcases hcases with ⟨rfl, herr⟩ | ⟨rfl, hwf⟩
  · refine ⟨fun hm => absurd hm Bool.false_ne_true, fun hgives => ?_,
      fun hnone => absurd hnone herr⟩
    obtain ⟨m, hm, -⟩ := (gives_capsWithValues hasCap localNets share fresh tr.src_zone).1 hgives
    cases hm
  · have hgives : Gives ((new t (rs.map (toMatch N t)) hasCap localNets share fresh).capsWithValues
        tr.src tr.dst) cap value ↔ _ :=
      gives_toMatch hasCap localNets share fresh tr.src_zone
    have hlisted : (∃ r ∈ rs, r.ListsSrc N tr.src ∧ r.GrantsAt tr.dst cap value) →
        ∃ r ∈ rs, r.Grants N hasCap tr.src tr.dst cap value := by
      rintro ⟨r, hr, hsrc, hgrants⟩
      exact ⟨r, hr, .inl hsrc, hgrants⟩
    refine ⟨(matchRules_toMatch tr).1, fun hg => hlisted (hgives.1 hg), fun hnone =>
      ⟨hwf hnone, matchRules_toMatch tr, ?_⟩⟩
    rw [hgives]
    constructor
    · exact fun hexact r hr hholds hgrants => hexact.2 ⟨r, hr, .inr hholds, hgrants⟩
    · refine fun honly => ⟨hlisted, ?_⟩
      rintro ⟨r, hr, hsrc | hholds, hgrants⟩
      · exact ⟨r, hr, hsrc, hgrants⟩
      · exact honly r hr hholds hgrants

/-- The library can have any parsers: the prefixes of a range can be its addresses. -/
theorem Netip.exists_ofParsers (parseAddr : String → Except String Addr)
    (parsePrefix : String → Except String Prefix)
    (h : ∀ s ip, parseAddr s = .ok ip → ip.isValid = true) :
    ∃ N : Netip, N.parseAddr = parseAddr ∧ N.parsePrefix = parsePrefix := by
  have (n : Nat) : Finite (BitVec n) := .of_injective BitVec.toFin fun _ _ => BitVec.eq_of_toFin_eq
  have hfinite : {a : Addr | a.zone = ""}.Finite := by
    refine ((Set.finite_singleton Addr.zero).union ((Set.finite_range Addr.v4).union
      (Set.finite_range (Addr.v6 · "")))).subset fun a ha => ?_
    cases a with
    | zero => exact .inl rfl
    | v4 a => exact .inr (.inl ⟨a, rfl⟩)
    | v6 a zone =>
      obtain rfl : zone = "" := ha
      exact .inr (.inr ⟨a, rfl⟩)
  refine ⟨⟨parseAddr, parsePrefix, fun lo hi => (hfinite.toFinset.toList.filter (inRange lo hi)).map
    fun a => Prefix.prefixFrom a a.bitLen, h, fun lo hi ip _ hzone => ?_⟩, rfl, rfl⟩
  have hcontains (a : Addr) (ha : a.zone = "") (hin : inRange lo hi a = true) :
      (Prefix.prefixFrom a a.bitLen).contains ip = decide (ip = a) := by
    simp only [inRange, Bool.and_eq_true] at hin
    rw [Prefix.contains_prefixFrom_bitLen hin.1.1.1 hzone, Addr.withoutZone_eq_self ha]
  rw [Bool.eq_iff_iff]
  simp only [any_map, any_eq_true, mem_filter, Finset.mem_toList, Set.Finite.mem_toFinset]
  constructor
  · rintro ⟨a, ⟨ha, hin⟩, hip⟩
    obtain rfl := of_decide_eq_true ((hcontains a ha hin).symm.trans hip)
    exact hin
  · intro hin
    exact ⟨ip, ⟨hzone, hin⟩, (hcontains ip hzone hin).trans (decide_eq_true rfl)⟩

/-- All sources in the text are granted the capability `y` at all IPv4 addresses. -/
def grantRule (src : String) : FilterRule where
  srcIPs := [src]
  capGrant := [{ dsts := [.prefixFrom (.v4 0) 0], caps := ["y"] }]

/-- TCP from 100.64.0.1 to port 80 of 100.64.0.2. -/
def webTraffic : Traffic where
  proto := Proto.tcp
  src := .v4 0x64400001#32
  dst := .v4 0x64400002#32
  port := 80
  src_zone := rfl
  dst_zone := rfl

theorem grantsAt_grantRule (src : String) : (grantRule src).GrantsAt webTraffic.dst "y" none :=
  ⟨by decide, _, mem_singleton_self _, _, mem_singleton_self _, by decide,
    .inl ⟨mem_singleton_self _, rfl⟩⟩

/-- One rule admits the traffic of 100.64.0.1, and one grants it the capability. -/
def listedRules : List FilterRule :=
  [{ srcIPs := ["100.64.0.1"], dstPorts := [⟨"*", none, allPorts⟩] }, grantRule "100.64.0.1"]

/-- Rules that list an address are meant and heeded. -/
theorem matchesFromFilterRules_admits_listed : ∃ N : Netip,
    N.parseAddr "100.64.0.1" = .ok webTraffic.src ∧
    let (ms, err) := matchesFromFilterRules N .linear listedRules
    err = none ∧ matchRules ms webTraffic.packet none = true ∧
      Gives ((new .linear ms none none none 0).capsWithValues webTraffic.src webTraffic.dst) "y"
        none := by
  obtain ⟨N, hN, -⟩ := Netip.exists_ofParsers
    (fun s => if s = "100.64.0.1" then .ok webTraffic.src else .error "unable to parse IP")
    (fun _ => .error "no '/'") (by
      intro s ip h
      split_ifs at h
      cases h
      rfl)
  have hparse : N.parseAddr "100.64.0.1" = .ok webTraffic.src := by rw [hN]; rfl
  have hplain : Plain "100.64.0.1" := by
    refine ⟨by decide, fun c hc => ?_⟩
    have hfirst := congrArg (fun s => s.toList.head?) hc
    exact absurd hfirst (by simp)
  have hden : Denotes N "100.64.0.1" (.addr webTraffic.src) :=
    .addr hplain (by decide) (by decide) hparse
  have hlists (r : FilterRule) (hr : r.srcIPs = ["100.64.0.1"]) : r.ListsSrc N webTraffic.src :=
    ⟨_, hr ▸ mem_singleton_self _, _, hden, rfl⟩
  have herr : (matchesFromFilterRules N .linear listedRules).2 = none := by
    simp [matchesFromFilterRules, listedRules, grantRule, addRule, addSrc, addDst,
      parseIPSet_of_denotes hden, parseIPSet_of_denotes Denotes.any, Entry.capability]
    rfl
  obtain ⟨-, -, h⟩ := matchesFromFilterRules_admits N .linear listedRules none none
    none 0 webTraffic
    "y" none
  obtain ⟨-, htraffic, hgrants⟩ := h herr
  refine ⟨N, hparse, herr, htraffic.2 ⟨_, mem_cons_self, ?_, .inl (hlists _ rfl), ?_⟩, ?_⟩
  · exact .inl ⟨rfl, by decide⟩
  · exact ⟨_, mem_singleton_self _, ⟨_, .any, rfl⟩, rfl⟩
  · have hlisted := hlists (grantRule "100.64.0.1") rfl
    have hmem : grantRule "100.64.0.1" ∈ listedRules := mem_cons_of_mem _ (mem_singleton_self _)
    refine (hgrants.2 fun r _ _ _ => ?_).2 ?_
    · exact ⟨_, hmem, hlisted, grantsAt_grantRule _⟩
    · exact ⟨_, hmem, .inl hlisted, grantsAt_grantRule _⟩

/-- A source of the form `cap:x` is denoted, and is granted nothing. -/
theorem capsWithValues_capSource : ∃ N : Netip,
    let test : Addr → NodeCapability → Bool := fun _ c => c == "x"
    let (ms, err) := matchesFromFilterRules N .linear [grantRule "cap:x"]
    err = none ∧ (grantRule "cap:x").Grants N (some test) webTraffic.src webTraffic.dst "y" none ∧
      ¬Gives ((new .linear ms (some test) none none 0).capsWithValues webTraffic.src webTraffic.dst)
        "y" none := by
  obtain ⟨N, -⟩ := Netip.exists_ofParsers (fun _ => .error "unable to parse IP")
    (fun _ => .error "no '/'") (by intro s ip h; cases h)
  refine ⟨N, rfl, ⟨.inr ⟨_, mem_singleton_self _, "x", by decide, .cap "x", _, rfl, rfl⟩,
    grantsAt_grantRule _⟩, ?_⟩
  rw [gives_capsWithValues _ _ _ _ rfl]
  rintro ⟨m, hm, ⟨p, hp, -⟩, -⟩
  obtain rfl := mem_singleton.1 hm
  cases hp

end Multiport.PacketFilter

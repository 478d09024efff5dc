import Multiport.PacketFilter.Filter

/-!
# Records that are used again

`Decode` writes to a record that may hold an earlier packet, and what a branch of it does not
assign stays.  The filter must not see that.  Two records `Agree` on what the filter reads of a
packet, which depends on the protocol; `agree_decode` says that decoding leaves any two
records so, and the verdicts follow.
-/

namespace Multiport.Net.Parsed

open Lib

/-- The records have the same IP header. -/
structure SameHeader (q₁ q₂ : Parsed) : Prop where
  b : q₁.b = q₂.b
  ipProto : q₁.ipProto = q₂.ipProto
  ipVersion : q₁.ipVersion = q₂.ipVersion
  subofs : q₁.subofs = q₂.subofs
  src : q₁.src.addr = q₂.src.addr
  dst : q₁.dst.addr = q₂.dst.addr

def HasPorts (proto : Proto) : Prop := proto = .tcp ∨ proto = .udp ∨ proto = .sctp

instance : DecidablePred HasPorts := fun _ => inferInstanceAs (Decidable (_ ∨ _ ∨ _))

/-- The records have the same header if the protocol is known, and the same ports and flags if
it has these. -/
structure Agree (q₁ q₂ : Parsed) : Prop where
  b : q₁.b = q₂.b
  ipProto : q₁.ipProto = q₂.ipProto
  header : q₂.ipProto ≠ .unknown → SameHeader q₁ q₂
  ports : HasPorts q₂.ipProto → q₁.src = q₂.src ∧ q₁.dst = q₂.dst
  flags : q₂.ipProto = .tcp → q₁.tcpFlags = q₂.tcpFlags

variable {q₁ q₂ : Parsed}

/-- Of a packet of an unknown protocol nothing more is read. -/
theorem Agree.of_unknown (hb : q₁.b = q₂.b) (h₁ : q₁.ipProto = .unknown)
    (h₂ : q₂.ipProto = .unknown) : Agree q₁ q₂ where
  b := hb
  ipProto := h₁.trans h₂.symm
  header h := absurd h₂ h
  ports h := by
    rw [h₂] at h
    rcases h with h | h | h <;> cases h
  flags h := by
    cases h₂.symm.trans h

namespace SameHeader

variable (h : SameHeader q₁ q₂)

include h

theorem unknown : Agree q₁.asUnknown q₂.asUnknown := .of_unknown h.b rfl rfl

/-- The header is all there is to read of a protocol without ports. -/
theorem agree (hports : ¬HasPorts q₂.ipProto) : Agree q₁ q₂ where
  b := h.b
  ipProto := h.ipProto
  header _ := h
  ports hp := absurd hp hports
  flags hp := absurd (.inl hp) hports

theorem withPorts (sub : Bytes) : (q₁.withPorts sub).src = (q₂.withPorts sub).src ∧
      (q₁.withPorts sub).dst = (q₂.withPorts sub).dst := by
  unfold Parsed.withPorts withPort
  exact ⟨by rw [h.src], by rw [h.dst]⟩

theorem decodeTCP (sub : Bytes) : Agree (q₁.decodeTCP sub) (q₂.decodeTCP sub) := by
  unfold Parsed.decodeTCP
  split_ifs
  · exact h.unknown
  · exact ⟨h.b, h.ipProto, fun _ => { h with },
      fun _ => h.withPorts sub, fun _ => rfl⟩

theorem decodeUDP (hproto : q₂.ipProto = .udp) (sub : Bytes) :
    Agree (q₁.decodeUDP sub) (q₂.decodeUDP sub) := by
  unfold Parsed.decodeUDP
  split_ifs
  · exact h.unknown
  · exact ⟨h.b, h.ipProto, fun _ => { h with },
      fun _ => h.withPorts sub, fun htcp => by cases hproto.symm.trans htcp⟩

theorem decodeSCTP (hproto : q₂.ipProto = .sctp) (sub : Bytes) :
    Agree (q₁.decodeSCTP sub) (q₂.decodeSCTP sub) := by
  unfold Parsed.decodeSCTP
  split_ifs
  · exact h.unknown
  · exact ⟨h.b, h.ipProto, fun _ => { h with },
      fun _ => h.withPorts sub, fun htcp => by cases hproto.symm.trans htcp⟩

theorem decodeTSMP (hports : ¬HasPorts q₂.ipProto) (sub : Bytes) :
    Agree (q₁.decodeTSMP sub) (q₂.decodeTSMP sub) := by
  unfold Parsed.decodeTSMP
  split_ifs
  · exact h.unknown
  · exact agree { h with } hports

theorem decodeICMP (hports : ¬HasPorts q₂.ipProto) (n : Nat) (sub : Bytes) :
    Agree (q₁.decodeICMP n sub) (q₂.decodeICMP n sub) := by
  unfold Parsed.decodeICMP
  split_ifs
  · exact h.unknown
  · exact agree { h with } hports

theorem decodeNext {icmp : Proto} (hports : ¬HasPorts icmp) (sub : Bytes) :
    Agree (q₁.decodeNext icmp sub) (q₂.decodeNext icmp sub) := by
  unfold Parsed.decodeNext
  rw [h.ipProto]
  split_ifs with hicmp htcp hudp hsctp htsmp
  · exact h.decodeICMP (hicmp ▸ hports) _ sub
  · exact h.decodeTCP sub
  · exact h.decodeUDP hudp sub
  · exact h.decodeSCTP hsctp sub
  · exact h.decodeTSMP (by rw [htsmp]; decide) sub
  · exact h.unknown
  · exact h.agree (by rintro (hp | hp | hp) <;> contradiction)

end SameHeader

theorem agree_decode4 (hb : q₁.b = q₂.b) (hv : q₁.ipVersion = q₂.ipVersion) (b : Bytes) :
    Agree (q₁.decode4 b) (q₂.decode4 b) := by
  simp only [decode4, decodeFirst4_eq]
  split_ifs
  · exact .of_unknown hb rfl rfl
  · exact .of_unknown hb rfl rfl
  · exact .of_unknown hb rfl rfl
  · exact .of_unknown hb rfl rfl
  · refine SameHeader.decodeNext ?_ (by decide) _
    exact ⟨hb, rfl, hv, rfl, rfl, rfl⟩
  · exact .of_unknown hb rfl rfl
  · refine SameHeader.agree ?_ (show ¬HasPorts .fragment by decide)
    exact ⟨hb, rfl, hv, rfl, rfl, rfl⟩

theorem agree_decode6 (hb : q₁.b = q₂.b) (hv : q₁.ipVersion = q₂.ipVersion) (b : Bytes) :
    Agree (q₁.decode6 b) (q₂.decode6 b) := by
  rw [decode6_eq, decode6_eq]
  split_ifs
  · exact .of_unknown hb rfl rfl
  · exact .of_unknown hb rfl rfl
  · refine SameHeader.decodeNext ?_ (by decide) _
    exact ⟨hb, rfl, hv, rfl, rfl, rfl⟩

/-- **Any two records agree once the same bytes are decoded to them.** -/
theorem agree_decode (q₁ q₂ : Parsed) (b : Bytes) : Agree (q₁.decode b) (q₂.decode b) := by
  simp only [decode]
  split_ifs
  · exact .of_unknown rfl rfl rfl
  · apply agree_decode4 <;> rfl
  · apply agree_decode6 <;> rfl
  · exact .of_unknown rfl rfl rfl

end Multiport.Net.Parsed

namespace Multiport.PacketFilter.Filter

open Lib Net Net.Parsed

variable {q₁ q₂ : Parsed} {f : Filter}

theorem pre_congr (h : Agree q₁ q₂) (hhooks : f.linkLocalAllowHooks = []) :
    f.pre q₁ = f.pre q₂ := by
  unfold pre isAllowedLinkLocal
  rw [h.b, h.ipProto, hhooks]
  refine ite_congr rfl (fun _ => rfl) fun _ => ite_congr rfl (fun _ => rfl) fun _ =>
    ite_congr rfl (fun _ => rfl) fun hknown => ?_
  rw [(h.header hknown).dst]
  rfl

theorem runInFamily_congr (h : Agree q₁ q₂) (hknown : q₂.ipProto ≠ .unknown)
    (isLocal : Addr → Bool) (icmp : Proto) (ms : List Match) (lru : Flows) :
    f.runInFamily isLocal icmp ms lru q₁ = f.runInFamily isLocal icmp ms lru q₂ := by
  have hh := h.header hknown
  have hecho : q₁.isEchoResponse = q₂.isEchoResponse := by
    unfold isEchoResponse isEcho hasICMPHeader
    rw [hh.b, hh.ipProto, hh.subofs]
  have herror : q₁.isError = q₂.isError := by
    unfold isError hasICMPHeader
    rw [hh.b, hh.ipProto, hh.subofs]
  have hips : matchIPsOnly ms q₁ f.srcIPHasCap = matchIPsOnly ms q₂ f.srcIPHasCap := by
    unfold matchIPsOnly
    rw [hh.src, hh.dst]
  have hall : matchProtoAndIPsOnlyIfAllPorts ms q₁ = matchProtoAndIPsOnlyIfAllPorts ms q₂ := by
    unfold matchProtoAndIPsOnlyIfAllPorts
    rw [hh.src, hh.dst, hh.ipProto]
  have hrules : HasPorts q₂.ipProto →
      matchRules ms q₁ f.srcIPHasCap = matchRules ms q₂ f.srcIPHasCap := by
    intro hports
    unfold matchRules
    rw [(h.ports hports).1, (h.ports hports).2, h.ipProto]
  unfold runInFamily
  rw [hh.dst, h.ipProto, hecho, herror, hips, hall]
  refine ite_congr rfl (fun _ => rfl) fun _ => ite_congr rfl (fun _ => rfl) fun _ =>
    ite_congr rfl (fun htcp => ?_) fun _ => ite_congr rfl (fun hudp => ?_) fun _ => rfl
  · have hsyn : q₁.isTCPSyn = q₂.isTCPSyn := by rw [isTCPSyn, isTCPSyn, h.flags htcp]
    rw [hsyn, hrules (.inl htcp)]
  · rw [(h.ports (.inr hudp)).1, (h.ports (.inr hudp)).2, hrules (.inr hudp)]

/-- **Nothing leaks from one packet to the next**: without hooks, the filter gives the same
verdict, and does the same to the flows, whatever the record held before. -/
theorem run_decode_eq {f : Filter} (hingress : f.ingressAllowHooks = [])
    (hlinkLocal : f.linkLocalAllowHooks = []) (q₁ q₂ : Parsed) (b : Bytes) (lru : Flows) :
    f.runIn lru (q₁.decode b) = f.runIn lru (q₂.decode b) ∧
      f.runOut lru (q₁.decode b) = f.runOut lru (q₂.decode b) := by
  have h := agree_decode q₁ q₂ b
  have hpre := pre_congr h hlinkLocal
  -- What goes on after `pre` has a known protocol.
  have hknown : ¬((f.pre (q₂.decode b)).1 = .accept ∨ (f.pre (q₂.decode b)).1 = .drop) →
      (q₂.decode b).ipProto ≠ .unknown := by
    intro hgo hunknown
    unfold pre at hgo
    split_ifs at hgo <;> simp_all
  constructor
  · unfold runIn
    rw [hpre, hingress]
    refine ite_congr rfl (fun _ => rfl) fun hgo => ?_
    have hversion : f.runInVersion lru (q₁.decode b) = f.runInVersion lru (q₂.decode b) := by
      unfold runInVersion runIn4
      rw [runIn6_eq, runIn6_eq, ((h.header (hknown hgo)).ipVersion),
        runInFamily_congr h (hknown hgo),
        runInFamily_congr h (hknown hgo)]
    rw [hversion]
    rfl
  · unfold runOut
    rw [hpre]
    have hout : runOutInner lru (q₁.decode b) = runOutInner lru (q₂.decode b) := by
      unfold runOutInner
      rw [h.ipProto]
      refine ite_congr rfl (fun hudp => ?_) fun _ => rfl
      rw [(h.ports (.inr hudp)).1, (h.ports (.inr hudp)).2]
    rw [hout]

/-- A filter of a node that has every address, with a rule that admits IGMP. -/
def igmpFilter : Filter where
  local4 _ := true
  local6 _ := true
  srcIPHasCap := none
  matches4 :=
    [{ ipProto := [.igmp], srcsContains := fun _ => true, dsts := [⟨⟨.v4 0, 0⟩, allPorts⟩] }]
  matches6 := []
  cap4 := []
  cap6 := []
  state := 0

/-- An IGMP query from 100.64.0.1 to 100.64.0.2. -/
def igmpQuery : Bytes :=
  [0x46, 0, 0, 32, 0, 0, 0, 0, 1, Proto.igmp, 0, 0, 100, 64, 0, 1, 100, 64, 0, 2,
    0x94, 4, 0, 0, 0x11, 0, 0xee, 0xff, 0, 0, 0, 0]

/-- An IGMP packet in a record that held the ports and offsets of another packet. -/
theorem run_decode_eq_igmp :
    igmpFilter.runIn .new (decode { dataofs := 60, src := ⟨.zero, 7⟩ } igmpQuery) =
      igmpFilter.runIn .new (decode {} igmpQuery) :=
  (run_decode_eq (f := igmpFilter) rfl rfl _ _ _ _).1

end Multiport.PacketFilter.Filter

import Multiport.Disco.RoundTrip
import Multiport.Udprelay.Allocation

/-!
# Binding and forwarding

Which address a leg is bound to, and which generation of a handshake it waits for an
answer to, can be read off the events of a run: `boundAddr` and `unanswered`.  The
endpoints hold exactly this, so a packet is forwarded between the two addresses that were
bound last.  That a leg is bound only to an address that got a challenge rests on the MAC:
a valid tag over some bytes is one that the server has computed over these bytes, and the
bytes determine the address, the VNI, the generation and the remote key.
-/

namespace Multiport.Udprelay

open Lib Net Disco Tailcfg List Function GeneveHeader

variable {C : Crypto} {s t : Sys} {srv srv' : Server} {tr : List Event} {ev : Event} {p q : Ptr}
  {e e' : ServerEndpoint} {leg : Leg} {now : MonoTime}

/-! ## What a MAC covers -/

theorem addrBinary_injective : Function.Injective addrBinary := by
  intro a a' h
  have hlen := congrArg length h
  cases a with
  | zero =>
    cases a' with
    | zero => rfl
    | v4 b => simp [addrBinary] at hlen
    | v6 b zone => simp [addrBinary] at hlen; omega
  | v4 a =>
    cases a' with
    | zero => simp [addrBinary] at hlen
    | v4 b => rw [putBE_injective (by decide) h]
    | v6 b zone => simp [addrBinary] at hlen; omega
  | v6 a zone =>
    cases a' with
    | zero => simp [addrBinary] at hlen
    | v4 b => simp [addrBinary] at hlen; omega
    | v6 b zone' =>
      obtain ⟨ha, hz⟩ := append_inj h (by simp)
      rw [putBE_injective (by decide) ha]
      have hz' := map_injective_iff.2 (fun x y => UInt8.toBitVec_inj.1) hz
      rw [String.toByteArray_inj.1 (ByteArray.ext (Array.toList_inj.1 hz'))]

theorem addrPortBinary_injective : Function.Injective addrPortBinary := by
  rintro ⟨a, port⟩ ⟨a', port'⟩ h
  obtain ⟨ha, hp⟩ := append_inj' h (by simp)
  obtain rfl : a = a' := addrBinary_injective ha
  have hp' := putBE_injective (by decide) (reverse_injective hp)
  obtain rfl : port = port' := UInt16.toBitVec_inj.1 hp'
  rfl

variable {src : AddrPort} {m : BindUDPRelayEndpointCommon}

/-- The bytes under the MAC determine the address and all of the message but the challenge. -/
theorem eq_of_macInput_eq {src' : AddrPort} {m'}
    (h : macInput src' m' = macInput src m) (hc : m'.challenge = m.challenge) :
    src' = src ∧ m' = m := by
  obtain ⟨h₁, hsrc⟩ := append_inj h (by simp [length_putKey])
  obtain ⟨h₂, hkey⟩ := append_inj h₁ (by simp)
  obtain ⟨hvni, hgen⟩ := append_inj h₂ (by simp)
  refine ⟨addrPortBinary_injective hsrc, ?_⟩
  obtain ⟨vni, generation, remoteKey, challenge⟩ := m
  obtain ⟨vni', generation', remoteKey', challenge'⟩ := m'
  obtain rfl : vni' = vni := putBE_injective (by decide) hvni
  obtain rfl : generation' = generation := putBE_injective (by decide) hgen
  obtain rfl : remoteKey' = remoteKey := putBE_injective (by decide) hkey
  obtain rfl : challenge' = challenge := hc
  rfl

/-! ## What a run says about a leg -/

/-- The address of a leg after an event. -/
def Event.boundAddr (p : Ptr) (leg : Leg) (addr : AddrPort) : Event → AddrPort
  | .control q sender src _ _ .bound => if q = p ∧ sender = leg then src else addr
  | _ => addr

variable (tr)

/-- The address that was bound to a leg last. -/
def boundAddr (p : Ptr) (leg : Leg) : AddrPort :=
  tr.foldl (Event.boundAddr p leg) {}

/-- The generation that a leg waits for an answer to after an event. -/
def Event.unanswered (p : Ptr) (leg : Leg) (generation : BitVec 32) : Event → BitVec 32
  | .control q sender _ _ _ (.challenged m) =>
    if q = p ∧ sender = leg then m.generation else generation
  | .control q sender _ _ _ .bound => if q = p ∧ sender = leg then 0 else generation
  | _ => generation

/-- The latest generation of a leg that got a challenge and no answer yet, or zero. -/
def unanswered (p : Ptr) (leg : Leg) : BitVec 32 :=
  tr.foldl (Event.unanswered p leg) 0

/-- The event neither binds the leg nor challenges it. -/
def Event.Silent (ev : Event) (p : Ptr) (leg : Leg) : Prop :=
  (∀ addr, ev.boundAddr p leg addr = addr) ∧ ∀ g, ev.unanswered p leg g = g

/-- The server has sent the challenge to the address. -/
def Challenged (src : AddrPort) (m : BindUDPRelayEndpointCommon) : Prop :=
  ∃ p leg msg secrets, .control p leg src msg secrets (.challenged m) ∈ tr

/-- A tag that the server has computed and sent, and the bytes it is over. -/
def Tagged (bytes : Bytes) (tag : BitVec 256) : Prop :=
  ∃ src m, Challenged tr src m ∧ macInput src m = bytes ∧ m.challenge = tag

variable {tr}

/-- The MAC is unforgeable in a step after a run: an answer with a tag that is valid under one
of the secrets has a tag that the server computed over the same bytes. -/
def Unforgeable (C : Crypto) (tr : List Event) (ev : Event) : Prop :=
  ∀ p leg src m secrets out,
    ev = .control p leg src (.bindUDPRelayEndpointAnswer m) secrets out →
    ∀ secret ∈ secrets, C.mac secret (macInput src m) = m.challenge →
      Tagged tr (macInput src m) m.challenge

/-- The packets in flight are for endpoints with their VNI. -/
def DataKnown (s : Sys) : Prop :=
  ∀ src p b now, .data src p b now ∈ s.handlers →
    ∃ e gh, s.server.heap[p]? = some e ∧ decode b = some gh ∧ gh.vni = e.vni

/-- What the endpoints and the packets in flight have to do with the events. -/
structure Bound (tr : List Event) (s : Sys) : Prop where
  boundAddr : ∀ p leg,
    boundAddr tr p leg = (s.server.heap[p]?).elim {} (·.boundAddrPorts leg)
  unanswered : ∀ p leg,
    unanswered tr p leg = (s.server.heap[p]?).elim 0 (·.inProgressGeneration leg)
  data : DataKnown s

theorem boundAddr_append (tr : List Event) (ev : Event) (p : Ptr) (leg : Leg) :
    boundAddr (tr ++ [ev]) p leg = ev.boundAddr p leg (boundAddr tr p leg) := by
  simp [boundAddr]

theorem unanswered_append (tr : List Event) (ev : Event) (p : Ptr) (leg : Leg) :
    unanswered (tr ++ [ev]) p leg = ev.unanswered p leg (unanswered tr p leg) := by
  simp [unanswered]

variable {heap : List ServerEndpoint}

theorem elim_getElem?_set {α : Type} {d : α} {f} (g : Ptr → α → α)
    (hload : heap[p]? = some e) (hother : p ≠ q → ∀ x, g q x = x) (hown : g p (f e) = f e') :
    g q ((heap[q]?).elim d f) = ((heap.set p e')[q]?).elim d f := by
  have hlt : p < heap.length := (List.getElem?_eq_some_iff.1 hload).1
  rcases eq_or_ne p q with rfl | hne
  · rw [getElem?_set_self hlt, hload]
    exact hown
  · rw [getElem?_set_ne hne, hother hne]

theorem elim_getElem?_append {α : Type} {d : α} {f} (h : f e = d) :
    ((heap ++ [e])[q]?).elim d f = (heap[q]?).elim d f := by
  rcases lt_or_ge q heap.length with hlt | hge
  · rw [getElem?_append_left hlt]
  · rw [getElem?_append_right hge, getElem?_eq_none hge, getElem?_singleton]
    split
    · exact h
    · rfl

namespace Bound

/-- Packets in flight stay so while the endpoints keep their VNIs. -/
theorem data_of_keeps (h : Bound tr s) (hkeeps : Keeps s.server ev t.server)
    (hsub : ∀ src p b now, .data src p b now ∈ t.handlers → .data src p b now ∈ s.handlers) :
    DataKnown t := by
  intro src p b now hmem
  obtain ⟨e, gh, he, hgh, hvni⟩ := h.data src p b now (hsub _ _ _ _ hmem)
  obtain ⟨e', he', hsame, -⟩ := hkeeps p e he
  exact ⟨e', gh, he', hgh, hvni.trans hsame.vni.symm⟩

theorem quiet (h : Bound tr s) (hsilent : ∀ p leg, ev.Silent p leg)
    (haddrs : ∀ (p : Ptr) leg, (t.server.heap[p]?).elim {} (·.boundAddrPorts leg) =
      (s.server.heap[p]?).elim {} (·.boundAddrPorts leg))
    (hgens : ∀ (p : Ptr) leg, (t.server.heap[p]?).elim 0 (·.inProgressGeneration leg) =
      (s.server.heap[p]?).elim 0 (·.inProgressGeneration leg)) (hdata : DataKnown t) :
    Bound (tr ++ [ev]) t where
  boundAddr p leg := by rw [boundAddr_append, (hsilent p leg).1, h.boundAddr, haddrs]
  unanswered p leg := by rw [unanswered_append, (hsilent p leg).2, h.unanswered, hgens]
  data := hdata

theorem inert (h : Bound tr s) (hsilent : ∀ p leg, ev.Silent p leg)
    (hheap : t.server.heap = s.server.heap)
    (hsub : ∀ src p b now, .data src p b now ∈ t.handlers → .data src p b now ∈ s.handlers) :
    Bound (tr ++ [ev]) t :=
  h.quiet hsilent (by simp [hheap]) (by simp [hheap])
    (h.data_of_keeps (show Keeps s.server ev t.server from .of_heap_eq hheap) hsub)

/-- A step that writes to one endpoint, to which the event says the same happened. -/
theorem write (h : Bound tr s) (hload : s.server.heap[p]? = some e)
    (hheap : t.server.heap = s.server.heap.set p e') (hother : ∀ q leg, p ≠ q → ev.Silent q leg)
    (haddr : ∀ leg, ev.boundAddr p leg (e.boundAddrPorts leg) = e'.boundAddrPorts leg)
    (hgen : ∀ leg, ev.unanswered p leg (e.inProgressGeneration leg) = e'.inProgressGeneration leg)
    (hdata : DataKnown t) :
    Bound (tr ++ [ev]) t where
  boundAddr q leg := by
    rw [boundAddr_append, h.boundAddr, hheap]
    exact elim_getElem?_set (ev.boundAddr · leg) hload (fun hpq => (hother q leg hpq).1) (haddr leg)
  unanswered q leg := by
    rw [unanswered_append, h.unanswered, hheap]
    exact elim_getElem?_set (ev.unanswered · leg) hload (fun hpq => (hother q leg hpq).2) (hgen leg)
  data := hdata

end Bound

theorem dispatch_eq_data {b : Bytes} (h : dispatch srv b = .data p) :
    ∃ gh, decode b = some gh ∧ srv.serverEndpointByVNI.lookup gh.vni = some p := by
  unfold dispatch at h
  split at h
  · cases h
  split at h
  · cases h
  next gh hgh =>
    split at h
    · cases h
    next p' hp =>
      split at h
      · split at h <;> cases h
      · cases h
        exact ⟨gh, hgh, hp⟩

/-- **Every step keeps what the endpoints have to do with the events.** -/
theorem Bound.step (h : Bound tr s) (ha : Allocated tr s) (hstep : Step C s ev t) :
    Bound (tr ++ [ev]) t := by
  have hkeeps := keeps_of_step hstep ha
  cases hstep with
  | @allocate discoA discoB now result server hmu heq =>
    have halloc := allocateStep_of_eq ha.next heq
    generalize allocatePassed s.server discoA discoB = passed at halloc hkeeps ⊢
    cases halloc with
    | fresh _ _ _ he =>
      subst he
      exact h.quiet (fun _ _ => ⟨fun _ => rfl, fun _ => rfl⟩) (fun _ _ => elim_getElem?_append rfl)
        (fun _ _ => elim_getElem?_append rfl) (h.data_of_keeps hkeeps fun _ _ _ _ hm => hm)
    | _ => exact h.inert (fun _ _ => ⟨fun _ => rfl, fun _ => rfl⟩) rfl fun _ _ _ _ hm => hm
  | setAddrPorts _ _ _ | gcStart _ _ | gcEnd _ =>
    exact h.inert (fun _ _ => ⟨fun _ => rfl, fun _ => rfl⟩) rfl fun _ _ _ _ hm => hm
  | receive src b now =>
    refine h.quiet (fun _ _ => ⟨fun _ => rfl, fun _ => rfl⟩) (fun _ _ => rfl) (fun _ _ => rfl) ?_
    intro src' p b' now' hmem
    rcases mem_append.1 hmem with hmem | hmem
    · exact h.data _ _ _ _ hmem
    cases hd : dispatch s.server b with
    | drop | control q msg => simp [hd, Dispatch.handlers] at hmem
    | data q =>
      obtain ⟨-, rfl, rfl, -⟩ : src' = src ∧ p = q ∧ b' = b ∧ now' = now := by
        simpa [hd, Dispatch.handlers] using hmem
      obtain ⟨gh, hgh, hp⟩ := dispatch_eq_data hd
      obtain ⟨e, he, hvni⟩ := (ha.indexed.byVNI _ _).1 hp
      exact ⟨e, gh, he.load, hgh, hvni.symm⟩
  | secrets random hmu hmem =>
    refine h.inert (fun _ _ => ⟨fun _ => rfl, fun _ => rfl⟩) ?_ ?_
    · dsimp only
      unfold maybeRotateMACSecret
      split <;> rfl
    · intro src' p' b' now' hm
      rw [hmem]
      simpa using hm
  | @control before after src p msg now macSecrets e e' sender m metrics out hmem hload
      hopened heq =>
    have hdata := h.data_of_keeps hkeeps fun src' p' b' now' hm => by
      rw [hmem]
      simpa using hm
    have hcontrol := controlStep_of_handle heq
    cases hcontrol with
    | dropped =>
      exact h.write hload rfl (fun _ _ _ => ⟨fun _ => rfl, fun _ => rfl⟩) (fun _ => rfl)
        (fun _ => rfl)
        hdata
    | challenged _ _ _ _ _ _ =>
      refine h.write hload rfl ?_ (fun _ => rfl) ?_ hdata
      · intro q leg hpq
        exact ⟨fun _ => rfl, fun g => by simp [Event.unanswered, hpq]⟩
      · intro leg
        simp [Event.unanswered, update_apply, eq_comm]
    | bound _ _ _ _ _ _ _ _ _ _ he _ =>
      subst he
      refine h.write hload rfl ?_ ?_ ?_ hdata
      · intro q leg hpq
        exact ⟨fun a => by simp [Event.boundAddr, hpq], fun g => by simp [Event.unanswered, hpq]⟩
      · intro leg
        simp [Event.boundAddr, update_apply, eq_comm]
      · intro leg
        simp [Event.unanswered, update_apply, eq_comm]
  | unopened hmem hload hopened =>
    refine h.inert (fun _ _ => ⟨fun _ => rfl, fun _ => rfl⟩) rfl ?_
    intro src' p' b' now' hm
    rw [hmem]
    simpa using hm
  | data hmem hload heq =>
    have hdata := h.data_of_keeps hkeeps fun src' p' b' now' hm => by
      rw [hmem]
      rcases mem_append.1 hm with hm | hm <;> simp [hm]
    have hd := dataStep_of_handle heq
    cases hd with
    | _ =>
      exact h.write hload rfl (fun _ _ _ => ⟨fun _ => rfl, fun _ => rfl⟩) (fun _ => rfl)
        (fun _ => rfl)
        hdata
  | @gcVisit now before after p e e' metrics expired hmu hload heq =>
    have hdata := h.data_of_keeps hkeeps fun src' p' b' now' hm => hm
    obtain ⟨haddr, hgen⟩ : e'.boundAddrPorts = e.boundAddrPorts ∧
        e'.inProgressGeneration = e.inProgressGeneration := by
      unfold maybeExpire at heq
      split at heq <;> cases heq <;> exact ⟨rfl, rfl⟩
    refine h.write hload ?_ (fun _ _ _ => ⟨fun _ => rfl, fun _ => rfl⟩)
      (fun leg => (congrFun haddr leg).symm) (fun leg => (congrFun hgen leg).symm) hdata
    cases expired <;> rfl

/-! ## Whole runs -/

section Runs

variable {d : PublicKey} {bindLifetime steadyStateLifetime : Int}

theorem bound_of_run (h : Run (Step C) (newServer d bindLifetime steadyStateLifetime) tr s) :
    Bound tr s := by
  induction h with
  | nil =>
    refine ⟨fun p leg => ?_, fun p leg => ?_, fun _ _ _ _ hm => ?_⟩
    · simp [boundAddr, newServer]
    · simp [unanswered, newServer]
    · simp [newServer] at hm
  | snoc hrun hstep ih => exact ih.step (allocated_of_run hrun) hstep

/-- A data packet is forwarded between the legs of the live endpoint of its VNI. -/
structure Forwards (tr : List Event) (s : Server) (src : AddrPort) (b : Bytes) (dst : AddrPort)
    (p : Ptr) (leg : Leg) : Prop where
  /-- The endpoint is the live one of the VNI of the packet. -/
  live : ∃ e gh, Live s.heap p e ∧ decode b = some gh ∧ gh.vni = e.vni ∧
    s.serverEndpointByVNI.lookup gh.vni = some p ∧
    e.boundAddrPorts leg = src ∧ e.boundAddrPorts leg.other = dst
  valid : src.isValid = true ∧ dst.isValid = true
  /-- The addresses are the last ones bound to the two legs. -/
  last : boundAddr tr p leg = src ∧ boundAddr tr p leg.other = dst

/-- An answer binds an address to a leg. -/
structure Binds (tr : List Event) (s : Server) (p : Ptr) (leg : Leg) (src : AddrPort)
    (m : BindUDPRelayEndpointCommon) : Prop where
  endpoint : ∃ e, Live s.heap p e ∧ m.vni = e.vni ∧
    m.remoteKey = clientKey e.discoPubKeys leg.other
  /-- The generation is the latest one of the leg without an answer. -/
  generation : m.generation = unanswered tr p leg ∧ m.generation ≠ 0
  /-- The challenge in the answer was sent to the address that the answer comes from, for
  the VNI, the generation and the remote key of the answer. -/
  challenged : Challenged tr src m

theorem isValid_of_isBound (h : e.isBound = true) (leg : Leg) :
    (e.boundAddrPorts leg).isValid = true := by
  rw [ServerEndpoint.isBound, Bool.and_eq_true] at h
  cases leg
  · exact h.1
  · exact h.2

theorem forwards_of_step (ha : Allocated tr s) (hb : Bound tr s) {dst : AddrPort} {b : Bytes}
    (hstep : Step C s (.data p src b (some dst)) t) :
    ∃ leg, Forwards tr s.server src b dst p leg := by
  cases hstep with
  | @data before after _ _ _ now e e' _ hmem hload heq =>
    have hd := dataStep_of_handle heq
    generalize hdst : some dst = dst' at hd
    cases hd with
    | dropped => cases hdst
    | forwarded leg hlive hbound hsrc _ _ _ =>
      cases hdst
      obtain ⟨x, gh, hx, hgh, hvni⟩ := hb.data src p b now (by simp [hmem])
      cases hload.symm.trans hx
      have hp := (ha.indexed.byVNI gh.vni p).2 ⟨e, ⟨hload, hlive⟩, hvni.symm⟩
      subst hsrc
      refine ⟨leg, ⟨e, gh, ⟨hload, hlive⟩, hgh, hvni, hp, rfl, rfl⟩, ?_, ?_⟩
      · exact ⟨isValid_of_isBound hbound leg, isValid_of_isBound hbound leg.other⟩
      · rw [hb.boundAddr, hb.boundAddr, hload]
        exact ⟨rfl, rfl⟩

theorem binds_of_step (hb : Bound tr s) {msg : Message} {secrets}
    (hstep : Step C s (.control p leg src msg secrets .bound) t)
    (hmac : Unforgeable C tr (.control p leg src msg secrets .bound)) :
    ∃ m, msg = .bindUDPRelayEndpointAnswer m ∧ Binds tr s.server p leg src m := by
  cases hstep with
  | @control before after _ _ _ now _ e e' _ _ metrics _ hmem hload hopened heq =>
    have hc := controlStep_of_handle heq
    generalize hout : Outcome.bound = out at hc
    cases hc with
    | dropped | challenged _ _ _ _ _ _ => cases hout
    | @bound m secret hlive hanswer hvni hkey hgen hnonzero hsecret htag _ _ _ _ =>
      subst hanswer
      obtain ⟨src', m', hchallenged, hbytes, htag'⟩ := hmac _ _ _ _ _ _ rfl secret hsecret htag
      obtain ⟨rfl, rfl⟩ := eq_of_macInput_eq hbytes htag'
      refine ⟨m', rfl, ⟨e, ⟨hload, hlive⟩, hvni, hkey⟩, ⟨?_, hnonzero⟩, hchallenged⟩
      rw [hb.unanswered, hload]
      exact hgen.symm

/-- An event that changes the address of a leg. -/
theorem eq_bound_of_boundAddr_ne {addr : AddrPort} (h : ev.boundAddr p leg addr ≠ addr) :
    ∃ msg secrets, ev = .control p leg (ev.boundAddr p leg addr) msg secrets .bound := by
  unfold Event.boundAddr at h ⊢
  split at h
  next q sender src msg secrets =>
    split at h
    next heq =>
      obtain ⟨rfl, rfl⟩ := heq
      exact ⟨msg, secrets, by simp⟩
    · exact absurd rfl h
  · exact absurd rfl h

/-- **Binding and forwarding.**  After every run, whatever the next step is, a data packet
is forwarded only between the addresses bound to the two legs of the live endpoint of its
VNI, and the address of a leg changes only by an answer that comes from the new address and
returns a challenge that was sent there. -/
theorem run_relay_safe
    (h : Run (Step C) (newServer d bindLifetime steadyStateLifetime) tr s) (hstep : Step C s ev t) :
    (∀ p src b dst, ev = .data p src b (some dst) → ∃ leg, Forwards tr s.server src b dst p leg) ∧
    (∀ p leg e', t.server.heap[p]? = some e' →
      e'.boundAddrPorts leg ≠ (s.server.heap[p]?).elim {} (·.boundAddrPorts leg) →
      ∃ msg secrets, ev = .control p leg (e'.boundAddrPorts leg) msg secrets .bound) ∧
    (Unforgeable C tr ev → ∀ p leg src msg secrets, ev = .control p leg src msg secrets .bound →
      ∃ m, msg = .bindUDPRelayEndpointAnswer m ∧ Binds tr s.server p leg src m) := by
  have ha := allocated_of_run h
  have hb := bound_of_run h
  refine ⟨?_, ?_, ?_⟩
  · rintro p src b dst rfl
    exact forwards_of_step ha hb hstep
  · intro p leg e' he' hne
    have ht := (hb.step ha hstep).boundAddr p leg
    rw [he', Option.elim_some, boundAddr_append] at ht
    rw [← hb.boundAddr, ← ht] at hne
    rw [← ht]
    exact eq_bound_of_boundAddr_ne hne
  · rintro hmac p leg src msg secrets rfl
    exact binds_of_step hb hstep hmac

end Runs

section Example

/-- A MAC that is no more than a checksum, and boxes that are not encrypted. -/
def plainCrypto : Crypto :=
  ⟨fun secret bytes => secret ^^^ getBE 256 bytes, fun _ b => some (b.drop nonceLen)⟩

def clientAddr : AddrPort := { addr := .v4 0x0a000001, port := 1 }

/-- The handshake of client `4` with remote client `5`, in its third generation. -/
def handshake (challenge : BitVec 256) : BindUDPRelayEndpointCommon :=
  { vni := 1, generation := 3, remoteKey := 5, challenge }

/-- A control packet of client `4` for VNI `1`. -/
def controlPacket (msg : Message) : Bytes :=
  [0, 0x80, 0x7a, 0x11, 0, 0, 1, 0] ++ magic ++ putKey 4 ++ replicate nonceLen 0 ++
    (msg.appendMarshal []).getD []

def challenge : BitVec 256 := plainCrypto.mac 7 (macInput clientAddr (handshake 0))

def request : Message := .bindUDPRelayEndpoint (handshake 0)

def answer : Message := .bindUDPRelayEndpointAnswer (handshake challenge)

/-- The server after clients `4` and `5` have allocated an endpoint. -/
def served : Server :=
  (allocateEndpoint { (newServer 9 30 300).server with staticAddrPorts := [relayAddr] } 4 5 0).2

def asked : ServerEndpoint :=
  { discoPubKeys := newSortedPairOfDiscoPublic 4 5, lamportID := 1, vni := 1, allocatedAt := 0 }

/-- The endpoint and the server after the challenge was sent. -/
def challenged : ServerEndpoint :=
  { asked with inProgressGeneration := update asked.inProgressGeneration .first 3 }

def waiting : Server := (maybeRotateMACSecret served 1 7).setEndpoint 0 challenged served.metrics

/-- A handshake that completes. -/
theorem run_relay_safe_handshake :
    ∃ tr s ev t, Run (Step plainCrypto) (newServer 9 30 300) tr s ∧ Step plainCrypto s ev t ∧
      Unforgeable plainCrypto tr ev ∧
      Binds tr s.server 0 .first clientAddr (handshake challenge) := by
  have hd₁ : dispatch served (controlPacket request) =
      .control 0 ((controlPacket request).drop 8) := by decide +kernel
  have hd₂ : dispatch waiting (controlPacket answer) =
      .control 0 ((controlPacket answer).drop 8) := by decide +kernel
  have ho₁ : openControl plainCrypto asked.discoPubKeys ((controlPacket request).drop 8) =
      some (.first, request) := by decide +kernel
  have ho₂ : openControl plainCrypto asked.discoPubKeys ((controlPacket answer).drop 8) =
      some (.first, answer) := by decide +kernel
  have h₁ : Run (Step plainCrypto) (newServer 9 30 300) [.setAddrPorts [relayAddr] []] _ :=
    Run.nil.snoc (.setAddrPorts [relayAddr] [] rfl)
  have h₂ : Run (Step plainCrypto) (newServer 9 30 300) _ ⟨served, [], none⟩ :=
    h₁.snoc (@Step.allocate _ _ 4 5 0 _ _ rfl rfl)
  have h₃ := h₂.snoc (.receive clientAddr (controlPacket request) 1)
  rw [hd₁] at h₃
  have h₄ := h₃.snoc (@Step.secrets _ _ [] [] clientAddr 0 _ 1 7 rfl rfl)
  have h₅ : Run (Step plainCrypto) (newServer 9 30 300) _ ⟨waiting, [], none⟩ :=
    h₄.snoc (@Step.control _ _ [] [] clientAddr 0 _ 1 [7] asked _ .first request _
      (.challenged (handshake challenge)) rfl rfl ho₁ rfl)
  have h₆ := h₅.snoc (.receive clientAddr (controlPacket answer) 1)
  rw [hd₂] at h₆
  have h₇ : Run (Step plainCrypto) (newServer 9 30 300) _
      ⟨waiting, [.armed clientAddr 0 _ 1 [7]], none⟩ :=
    h₆.snoc (@Step.secrets _ _ [] [] clientAddr 0 _ 1 7 rfl rfl)
  have hstep := @Step.control plainCrypto ⟨waiting, [.armed clientAddr 0 _ 1 [7]], none⟩ [] []
    clientAddr 0 _ 1 [7] challenged _ .first answer _ _ rfl rfl ho₂ rfl
  obtain ⟨tr, htr, h₇⟩ : ∃ tr, Challenged tr clientAddr (handshake challenge) ∧
      Run (Step plainCrypto) (newServer 9 30 300) tr
        ⟨waiting, [.armed clientAddr 0 _ 1 [7]], none⟩ := by
    refine ⟨_, ⟨0, .first, request, [7], ?_⟩, h₇⟩
    exact mem_append_left _ (mem_append_left _ (mem_append_right _ (.head _)))
  have hforge : Unforgeable plainCrypto tr (.control 0 .first clientAddr answer [7] .bound) := by
    rintro _ _ _ _ _ _ ⟨⟩ _ _ _
    exact ⟨_, _, htr, rfl, rfl⟩
  obtain ⟨-, -, hbinds⟩ := run_relay_safe h₇ hstep
  obtain ⟨m, hm, hbinds⟩ := hbinds hforge _ _ _ _ _ rfl
  cases hm
  exact ⟨_, _, _, _, h₇, hstep, hforge, hbinds⟩

end Example

end Multiport.Udprelay

import Multiport.Magicsock.TrackedEndpoints

/-!
# The endpoints of a discovery cycle

`determineEndpoints` (`wgengine/magicsock/magicsock.go`) collects the addresses that were
discovered, lets the endpoint tracker add those it still remembers, and then adds addresses
that need no discovery.  `addAddr` drops what it has seen, but the tracker tells endpoints
apart by address and type, and `addAddr` does not know what the tracker added.
`determineEndpoints_nodup` says under which condition no address comes twice.
-/

namespace Multiport.Magicsock

open Lib Net Tailcfg List Tailcfg.Endpoint

/-- What `pconn4` is bound to. -/
inductive LocalAddr
  /-- Any address: its port, the addresses of the interfaces, and the loopback addresses. -/
  | unspecified (port : UInt16) (ips loopback : List Addr)
  /-- Any address, and `netmon.LocalAddresses` fails. -/
  | failed
  | bound (addr : AddrPort)

/-- What a cycle finds, up to the call of the tracker and after it. -/
structure Discovery where
  now : Time
  portmapExt : Option AddrPort := none
  v4Addrs : List AddrPort := []
  v6Addrs : List AddrPort := []
  mappingVariesByDestIP : Bool := false
  port : UInt16 := 0
  pretendpoints : List AddrPort := []
  publicIPs : List Addr := []
  port4 : UInt16 := 0
  port6 : UInt16 := 0
  staticEndpoints : List AddrPort := []
  extraEndpoints : List AddrPort := []
  localAddr : LocalAddr := .unspecified 0 [] []
  debugOmitLocalAddresses : Bool := false
  omitAdvertisedEndpoint : AddrPort → Bool := fun _ => false
  /-- The order of the `range` over the tracker's cache. -/
  rank : Addr → Nat := fun _ => 0

/-- `already` and `eps`. -/
structure Found where
  already : GoMap AddrPort EndpointType := ∅
  eps : List Tailcfg.Endpoint := []

namespace Discovery

variable (d : Discovery)

/-- The endpoint at the STUN address and the local port, behind a hard NAT. -/
def localPort : List Tailcfg.Endpoint :=
  match d.v4Addrs with
  | [] => []
  | ap :: _ =>
    if d.mappingVariesByDestIP && d.port != 0 then [⟨⟨ap.addr, d.port⟩, .stun4LocalPort⟩] else []

/-- The endpoint at a public address of a cloud instance. -/
def cloudEndpoint (addr : Addr) : Option Tailcfg.Endpoint :=
  if addr.is4 && decide (0 < d.port4) then some ⟨⟨addr, d.port4⟩, .«local»⟩
  else if addr.is6 && decide (0 < d.port6) then some ⟨⟨addr, d.port6⟩, .«local»⟩
  else none

/-- The addresses that `addAddr` is called with before the tracker. -/
def candidates : List Tailcfg.Endpoint :=
  d.portmapExt.toList.map (⟨·, .portmapped⟩) ++ d.v4Addrs.map (⟨·, .stun⟩) ++
    d.v6Addrs.map (⟨·, .stun⟩) ++ d.localPort ++ d.pretendpoints.map (⟨·, .explicitConf⟩) ++
    d.publicIPs.filterMap d.cloudEndpoint

/-- The first two tests of `addAddr`. -/
def admits (ep : Tailcfg.Endpoint) : Bool :=
  !(!ep.addr.isValid || d.debugOmitLocalAddresses && ep.type == .«local») &&
    !d.omitAdvertisedEndpoint ep.addr

def addAddr (f : Found) (ep : Tailcfg.Endpoint) : Found :=
  if d.admits ep then
    if (f.already.lookup ep.addr).isSome then f
    else { already := f.already.insert ep.addr ep.type, eps := f.eps ++ [ep] }
  else f

/-- What is found before the tracker. -/
def discovered : Found := d.candidates.foldl d.addAddr {}

/-- The call of the tracker. -/
def update : TrackerUpdate := ⟨d.now, d.discovered.eps, d.rank⟩

/-- The static endpoints and those from the file. -/
def explicit : List Tailcfg.Endpoint :=
  (d.staticEndpoints ++ d.extraEndpoints).map (⟨·, .explicitConf⟩)

/-- The local endpoints; loopback addresses only for want of others. -/
def locals (haveEps : Bool) : Option (List Tailcfg.Endpoint) :=
  match d.localAddr with
  | .unspecified port ips loopback =>
    some ((if ips.isEmpty && !haveEps then loopback else ips).map (⟨⟨·, port⟩, .«local»⟩))
  | .failed => none
  | .bound addr => some [⟨addr, .«local»⟩]

/-- What is added after the tracker. -/
def late (haveEps : Bool) : List Tailcfg.Endpoint :=
  d.explicit ++ (d.locals haveEps).getD []

end Discovery

/-- `determineEndpoints`, with the tracker that it leaves; no list if it fails. -/
def determineEndpoints (et : EndpointTracker) (d : Discovery) :
    EndpointTracker × Option (List Tailcfg.Endpoint) :=
  let (et, eps) := et.update d.update
  let f := d.explicit.foldl d.addAddr { d.discovered with eps := eps }
  (et, (d.locals !f.eps.isEmpty).map fun l => (l.foldl d.addAddr f).eps)

/-! ## Adding addresses -/

/-- No address comes twice, and all are known to `addAddr` but those of the tracker. -/
structure Covers (cached : List AddrPort) (f : Found) : Prop where
  nodup : (f.eps.map addr).Nodup
  known : ∀ ap ∈ f.eps.map addr, (f.already.lookup ap).isSome = true ∨ ap ∈ cached

variable {d : Discovery} {f : Found} {cached : List AddrPort} {ep : Tailcfg.Endpoint}

theorem Covers.addAddr (h : Covers cached f) (hep : d.admits ep = true → ep.addr ∉ cached) :
    Covers cached (d.addAddr f ep) := by
  unfold Discovery.addAddr
  split_ifs with hadmits hold
  · exact h
  · have hnew : ep.addr ∉ f.eps.map addr := fun hmem =>
      (h.known _ hmem).elim hold (hep hadmits)
    refine ⟨?_, fun ap hap => ?_⟩
    · rw [map_append]
      exact .append h.nodup (nodup_singleton _) (by simpa using hnew)
    · rw [GoMap.lookup_insert_eq]
      split_ifs with heq
      · exact .inl rfl
      · rw [map_append, map_singleton, mem_append, mem_singleton] at hap
        exact h.known ap (hap.resolve_right heq)
  · exact h

theorem Covers.addAll (h : Covers cached f) {l : List Tailcfg.Endpoint}
    (hl : ∀ ep ∈ l, d.admits ep = true → ep.addr ∉ cached) :
    Covers cached (l.foldl d.addAddr f) :=
  List.foldlRecOn (motive := Covers cached) l _ h fun _ hf ep hep => hf.addAddr (hl ep hep)

theorem covers_discovered (d : Discovery) : Covers [] d.discovered := by
  refine Covers.addAll ?_ fun _ _ _ => not_mem_nil
  exact ⟨nodup_nil, fun _ h => absurd h not_mem_nil⟩

/-! ## The cache -/

namespace EndpointHeap

variable {h : EndpointHeap} {a : Addr}

/-- The heap of an address, with no `AddrPort` under two types. -/
structure Single (a : Addr) (h : EndpointHeap) : Prop where
  ordered : h.Ordered
  distinct : h.Distinct
  filed : ∀ x ∈ h, ipOf x.endpoint = a
  oneType : ∀ x ∈ h, ∀ y ∈ h, x.endpoint.addr = y.endpoint.addr → x.endpoint = y.endpoint

theorem addAll_spec (ho : h.Ordered) (hd : h.Distinct) (t : Time) (eps : List Tailcfg.Endpoint) :
    Ordered (eps.foldl (add t) h) ∧ Distinct (eps.foldl (add t) h) ∧
      ∀ x ∈ eps.foldl (add t) h, x ∈ h ∨ x.endpoint ∈ eps := by
  induction eps generalizing h with
  | nil => exact ⟨ho, hd, fun x hx => .inl hx⟩
  | cons ep eps ih =>
    obtain ⟨h₁, hev, hd₁, -, hnew, -⟩ := add_spec ho hd t ep
    obtain ⟨ho', hd', hmem⟩ := ih hev.ordered (hd₁.subperm hev.subperm)
    refine ⟨ho', hd', fun x hx => ?_⟩
    rcases hmem x hx with hx | hx
    · rcases hnew x (hev.subperm.subset hx) with hx | rfl
      · exact .inl hx
      · exact .inr mem_cons_self
    · exact .inr (mem_cons_of_mem ep hx)

/-- An update leaves entries of its endpoints, and old ones that have not expired. -/
theorem afterUpdate_spec (ho : h.Ordered) (hd : h.Distinct) (a : Addr) (u : TrackerUpdate) :
    (h.afterUpdate a u).Ordered ∧ (h.afterUpdate a u).Distinct ∧
      ∀ x ∈ h.afterUpdate a u,
        (x.endpoint ∈ u.eps ∧ ipOf x.endpoint = a) ∨ x ∈ h ∧ u.now ≤ x.untilTime := by
  obtain ⟨ho₁, hperm₁⟩ := extendAll_spec ho hd (u.now + endpointTrackerLifetime)
    (u.eps.filter fun ep => ipOf ep = a)
  have hd₁ := (hd.map_renew (u.now + endpointTrackerLifetime)
    (u.eps.filter fun ep => ipOf ep = a)).subperm hperm₁.subperm
  obtain ⟨ho₂, hperm₂⟩ := popExpired_spec ho₁ le_rfl u.now
  have hd₂ := hd₁.subperm (hperm₂.subperm.trans filter_sublist.subperm)
  obtain ⟨ho₃, hd₃, hmem⟩ := addAll_spec ho₂ hd₂ (u.now + endpointTrackerLifetime)
    (u.eps.filter fun ep => ipOf ep = a)
  refine ⟨ho₃, hd₃, fun x hx => ?_⟩
  have hinput : ∀ e ∈ u.eps.filter (fun ep => ipOf ep = a), e ∈ u.eps ∧ ipOf e = a := by simp
  rcases hmem x hx with hx | hx
  · obtain ⟨hx, hnow⟩ := mem_filter.1 (hperm₂.mem_iff.1 hx)
    obtain ⟨y, hy, rfl⟩ := mem_map.1 (hperm₁.mem_iff.1 hx)
    unfold renew at hnow ⊢
    split_ifs at hnow ⊢ with hyeps
    · exact .inl (hinput _ hyeps)
    · exact .inr ⟨hy, of_decide_eq_true hnow⟩
  · exact .inl (hinput _ hx)

/-- The entries that may be advertised are not of an `AddrPort` with another type now. -/
theorem Single.afterUpdate (hs : Single a h) {u} (hnodup : (u.eps.map addr).Nodup)
    (htypes : ∀ ep ∈ u.eps, ∀ x ∈ h, u.now ≤ x.untilTime → x.endpoint.addr = ep.addr →
      x.endpoint = ep) : Single a (h.afterUpdate a u) := by
  obtain ⟨ho, hd, hmem⟩ := afterUpdate_spec hs.ordered hs.distinct a u
  refine ⟨ho, hd, fun x hx => ?_, fun x hx y hy heq => ?_⟩
  · rcases hmem x hx with ⟨-, hip⟩ | ⟨hx, -⟩
    · exact hip
    · exact hs.filed x hx
  · rcases hmem x hx with ⟨hx, -⟩ | ⟨hx, hxnow⟩ <;> rcases hmem y hy with ⟨hy, -⟩ | ⟨hy, hynow⟩
    · exact inj_on_of_nodup_map hnodup hx hy heq
    · exact (htypes _ hx y hy hynow heq.symm).symm
    · exact htypes _ hy x hx hxnow heq
    · exact hs.oneType x hx y hy heq

end EndpointHeap

namespace EndpointTracker

/-- Every heap is single. -/
def Single (et : EndpointTracker) : Prop := ∀ a, (heapOf a et).Single a

theorem single_empty : Single {} := fun _ =>
  ⟨Heap.IsHeap.nil, nodup_nil, fun _ hx => absurd hx not_mem_nil,
    fun _ hx => absurd hx not_mem_nil⟩

/-- The endpoints that the tracker adds have different addresses. -/
theorem Single.nodup_cached {et : EndpointTracker} (hs : et.Single) (u : TrackerUpdate) :
    (((et.endpoints.valuesBy u.rank).flatMap (fresh u)).map addr).Nodup := by
  have hperm : (((et.endpoints.valuesBy u.rank).flatMap (fresh u)).map addr).Perm
      (et.endpoints.entries.flatMap fun e => (fresh u e.2).map addr) := by
    refine (((GoMap.perm_valuesBy u.rank et.endpoints).flatMap_right _).map _).trans ?_
    rw [GoMap.values, flatMap_map, map_flatMap]
  rw [hperm.nodup_iff, nodup_flatMap]
  have hheap : ∀ e ∈ et.endpoints.entries, heapOf e.1 et = e.2 := by
    rintro ⟨a, h⟩ he
    rw [heapOf, GoMap.lookup_eq_some_iff.2 he]
    rfl
  refine ⟨fun e he => ?_, ?_⟩
  · have hsingle := hs e.1
    rw [hheap e he] at hsingle
    refine .map_on (fun ep hep ep' hep' heq => ?_)
      (.sublist (filter_sublist.map _) hsingle.distinct)
    obtain ⟨x, hx, rfl⟩ := mem_map.1 hep
    obtain ⟨y, hy, rfl⟩ := mem_map.1 hep'
    exact hsingle.oneType x (mem_of_mem_filter hx) y (mem_of_mem_filter hy) heq
  · refine (nodupKeys_iff_pairwise.1 et.endpoints.nodupKeys).imp_of_mem ?_
    intro e e' he he' hne ap hap hap'
    obtain ⟨ep, hep, rfl⟩ := mem_map.1 hap
    obtain ⟨ep', hep', heq⟩ := mem_map.1 hap'
    obtain ⟨x, hx, rfl, -⟩ := mem_fresh.1 hep
    obtain ⟨y, hy, rfl, -⟩ := mem_fresh.1 hep'
    rw [← hheap e he] at hx
    rw [← hheap e' he'] at hy
    apply hne
    rw [← (hs e.1).filed x hx, ← (hs e'.1).filed y hy, ipOf, ipOf, heq]

end EndpointTracker

/-! ## Cycles -/

open EndpointTracker

/-- What the cycle finds is not at odds with what is cached and has not expired: an address that
is discovered has the type that it is cached with, and an address that needs no discovery is not
cached, unless it is discovered as well. -/
structure Discovery.Consistent (d : Discovery) (et : EndpointTracker) : Prop where
  types : ∀ ep ∈ d.discovered.eps, ∀ a, ∀ x ∈ heapOf a et, d.now ≤ x.untilTime →
    x.endpoint.addr = ep.addr → x.endpoint.type = ep.type
  late : ∀ haveEps, ∀ ep ∈ d.late haveEps, d.admits ep = true →
    ∀ a, ∀ x ∈ heapOf a et, d.now ≤ x.untilTime → x.endpoint.addr = ep.addr →
      ep.addr ∈ d.discovered.eps.map addr

variable {et : EndpointTracker}

/-- The endpoints that the tracker adds in a cycle. -/
def cachedEndpoints (et : EndpointTracker) (d : Discovery) : List Tailcfg.Endpoint :=
  ((et.afterUpdate d.update).endpoints.valuesBy d.rank).flatMap (fresh d.update)

theorem Discovery.Consistent.single (hd : d.Consistent et) (hs : et.Single) :
    (et.afterUpdate d.update).Single := by
  intro a
  rw [heapOf_afterUpdate]
  refine (hs a).afterUpdate (covers_discovered d).nodup fun ep hep x hx hnow haddr => ?_
  have htype := hd.types ep hep a x hx hnow haddr
  cases hx' : x.endpoint
  cases ep
  simp_all

/-- What the tracker adds is not discovered in the cycle. -/
theorem notMem_discovered {ap : AddrPort} (hap : ap ∈ (cachedEndpoints et d).map addr) :
    ap ∉ d.discovered.eps.map addr := by
  obtain ⟨e, he, rfl⟩ := mem_map.1 hap
  obtain ⟨a, he⟩ := mem_cached.1 he
  obtain ⟨x, -, rfl, hnot, -⟩ := mem_fresh.1 he
  exact hnot

/-- What the tracker adds is not added again. -/
theorem Discovery.Consistent.notMem_cached (hd : d.Consistent et) (hs : et.Single) {haveEps : Bool}
    (hep : ep ∈ d.late haveEps) (hadmits : d.admits ep = true) :
    ep.addr ∉ (cachedEndpoints et d).map addr := by
  intro hap
  have hnot := notMem_discovered hap
  obtain ⟨e, he, heq⟩ := mem_map.1 hap
  obtain ⟨a, he⟩ := mem_cached.1 he
  obtain ⟨x, hx, rfl, -, hnow⟩ := mem_fresh.1 he
  rw [heapOf_afterUpdate] at hx
  obtain ⟨-, -, hmem⟩ := EndpointHeap.afterUpdate_spec (hs a).ordered (hs a).distinct a d.update
  rcases hmem x hx with ⟨hx, -⟩ | ⟨hx, hxnow⟩
  · rw [← heq] at hnot
    exact hnot (mem_map_of_mem hx)
  · exact hnot (hd.late haveEps ep hep hadmits a x hx hxnow heq)

/-- What is discovered and what the tracker adds. -/
theorem covers_cached (hs : (et.afterUpdate d.update).Single) :
    Covers ((cachedEndpoints et d).map addr)
      { d.discovered with eps := d.discovered.eps ++ cachedEndpoints et d } := by
  have hdisc := covers_discovered d
  refine ⟨?_, fun ap hap => ?_⟩
  · rw [map_append]
    exact .append hdisc.nodup (hs.nodup_cached d.update)
      fun ap hap hap' => notMem_discovered hap' hap
  · rw [map_append, mem_append] at hap
    exact hap.imp_left fun hap => (hdisc.known ap hap).resolve_right not_mem_nil

/-- One cycle keeps the cache single, and advertises no address twice. -/
theorem determineEndpoints_step (hs : et.Single) (hd : d.Consistent et) :
    (determineEndpoints et d).1.Single ∧ ∀ eps, (determineEndpoints et d).2 = some eps →
      (eps.map addr).Nodup := by
  have hsingle := hd.single hs
  refine ⟨hsingle, fun eps heps => ?_⟩
  obtain ⟨l, hl, rfl⟩ := Option.map_eq_some_iff.1 heps
  refine (((covers_cached hsingle).addAll fun ep hep => ?_).addAll fun ep hep => ?_).nodup
  · exact hd.notMem_cached hs (mem_append_left ((d.locals true).getD []) hep)
  · exact hd.notMem_cached hs (mem_append_right _ (by rw [hl]; exact hep))

/-- **No address is advertised twice in a run of consistent cycles.** -/
theorem determineEndpoints_nodup {τs : List (Taken EndpointTracker Discovery)}
    (h : Run (Taken.Of fun et d => (determineEndpoints et d).1) {} τs et)
    (hτs : ∀ τ ∈ τs, τ.act.Consistent τ.before) :
    ∀ τ ∈ τs, ∀ eps, (determineEndpoints τ.before τ.act).2 = some eps → (eps.map addr).Nodup := by
  refine (Run.forall_labels single_empty ?_ h hτs).2
  rintro _ ⟨et, d, after⟩ _ hd hs ⟨rfl, rfl, hstep⟩
  obtain rfl : (determineEndpoints et d).1 = after := hstep
  exact determineEndpoints_step hs hd

/-- The router maps a port. -/
def portmappedCycle : Discovery := { now := 0, portmapExt := some ⟨.v4 1, 5⟩ }

/-- STUN finds the same address. -/
def stunCycle : Discovery := { now := 1, v4Addrs := [⟨.v4 1, 5⟩] }

/-- Nothing is found. -/
def idleCycle : Discovery := { now := 2 }

/-- The mapped port is advertised from the cache. -/
theorem determineEndpoints_nodup_idle :
    ∃ eps, (determineEndpoints (determineEndpoints {} portmappedCycle).1 idleCycle).2 = some eps ∧
      (eps.map addr).Nodup := by
  have hrun := run_trace (fun et d => (determineEndpoints et d).1) {} [portmappedCycle, idleCycle]
  refine ⟨[⟨⟨.v4 1, 5⟩, .portmapped⟩], by decide, determineEndpoints_nodup hrun ?_ ⟨_, idleCycle, _⟩
    (mem_cons_of_mem _ mem_cons_self) _ (by decide)⟩
  simp only [trace, forall_mem_cons]
  refine ⟨⟨fun _ _ _ x hx => ?_, fun _ _ _ _ _ x hx => ?_⟩,
    ⟨fun ep hep => ?_, fun b ep hep => ?_⟩, ?_⟩
  · cases hx
  · cases hx
  · cases hep
  · cases b <;> cases hep
  · simp

/-- **The same address twice**: under two types from the cache, and from the cache and as a static
endpoint. -/
theorem determineEndpoints_repeats :
    (determineEndpoints ([portmappedCycle, stunCycle].foldl
        (fun et d => (determineEndpoints et d).1) {}) idleCycle).2 =
      some [⟨⟨.v4 1, 5⟩, .portmapped⟩, ⟨⟨.v4 1, 5⟩, .stun⟩] ∧
    (determineEndpoints (determineEndpoints {} portmappedCycle).1
        { now := 1, staticEndpoints := [⟨.v4 1, 5⟩] }).2 =
      some [⟨⟨.v4 1, 5⟩, .portmapped⟩, ⟨⟨.v4 1, 5⟩, .explicitConf⟩] := by
  decide

end Multiport.Magicsock

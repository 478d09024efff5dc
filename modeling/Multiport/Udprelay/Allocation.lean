import Multiport.Udprelay.Indices

/-!
# Allocation and expiry along runs

What `AllocateEndpoint`, `handlePacket` and `endpointGC` guarantee in any interleaving: the
indices agree, identifiers are fresh, a VNI comes back only after a whole round of the
allocator, and an endpoint goes away only when it has expired.
-/

namespace Multiport.Udprelay

open Lib Net Disco Tailcfg List Event

variable {C : Crypto} {s t : Sys} {srv srv' : Server} {tr : List Event} {ev : Event} {p q : Ptr}
  {e e' : ServerEndpoint} {v : VNI} {now : MonoTime} {metrics metrics' : Metrics}
  {discoA discoB : PublicKey} {result : Except AllocateError EndpointInfo} {info : EndpointInfo}

/-! ## One allocation -/

theorem newSortedPairOfDiscoPublic_comm (a b : PublicKey) :
    newSortedPairOfDiscoPublic a b = newSortedPairOfDiscoPublic b a := by
  unfold newSortedPairOfDiscoPublic
  split <;> split
  next h h' => exact absurd h (BitVec.lt_asymm h')
  · rfl
  · rfl
  next h h' =>
    have : a = b := BitVec.le_antisymm (BitVec.not_lt.1 h') (BitVec.not_lt.1 h)
    simp [this]

theorem forall_clientKey_iff {P : PublicKey → Prop} (a b : PublicKey) :
    (∀ leg, P (clientKey (newSortedPairOfDiscoPublic a b) leg)) ↔ P a ∧ P b := by
  have hleg : ∀ pair, (∀ leg, P (clientKey pair leg)) ↔ P pair.lo ∧ P pair.hi := fun pair =>
    ⟨fun h => ⟨h .first, h .second⟩, fun h leg => by
      cases leg
      · exact h.1
      · exact h.2⟩
  rw [hleg]
  unfold newSortedPairOfDiscoPublic
  split
  · rfl
  · exact and_comm

/-- The server has an address to offer. -/
def Server.Ready (s : Server) : Prop := ¬ (s.staticAddrPorts = [] ∧ s.dynamicAddrPorts = [])

/-- The endpoint that is allocated for a pair of keys. -/
def Server.newEndpoint (s : Server) (pair : SortedPairOfDiscoPublic) (vni : VNI) (now : MonoTime) :
    ServerEndpoint :=
  { discoPubKeys := pair, lamportID := s.lamportID + 1, allocatedAt := now, vni }

/-- What `AllocateEndpoint` can come to, when the allocator is in the `i`-th place. -/
inductive AllocateStep (s : Server) (i : Nat) (discoA discoB : PublicKey) (now : MonoTime) :
    Except AllocateError EndpointInfo → Server → List VNI → Prop
  | notReady (unready : ¬ s.Ready) : AllocateStep s i discoA discoB now (.error .notReady) s []
  | serverKey (client : discoA = s.discoPublic ∨ discoB = s.discoPublic) :
      AllocateStep s i discoA discoB now (.error .clientDiscoEqualsServerDisco) s []
  | again {p : Ptr} {e : ServerEndpoint}
      (found : s.serverEndpointByDisco.lookup (newSortedPairOfDiscoPublic discoA discoB) = some p)
      (load : s.heap[p]? = some e) : AllocateStep s i discoA discoB now (.ok (s.info e)) s []
  | exhausted {nextVNI passed}
      (missing : (s.serverEndpointByDisco.lookup
        (newSortedPairOfDiscoPublic discoA discoB)).bind (s.heap[·]?) = none)
      (next : NextVNI s i totalPossibleVNI none nextVNI passed) :
      AllocateStep s i discoA discoB now (.error .vniPoolExhausted) { s with nextVNI } passed
  | fresh {vni nextVNI passed} {e : ServerEndpoint}
      (clients : discoA ≠ s.discoPublic ∧ discoB ≠ s.discoPublic)
      (missing : (s.serverEndpointByDisco.lookup
        (newSortedPairOfDiscoPublic discoA discoB)).bind (s.heap[·]?) = none)
      (next : NextVNI s i totalPossibleVNI (some vni) nextVNI passed)
      (eq : e = s.newEndpoint (newSortedPairOfDiscoPublic discoA discoB) vni now) :
      AllocateStep s i discoA discoB now
        (.ok ({ s with nextVNI, lamportID := s.lamportID + 1 }.info e))
        ({ s with nextVNI, lamportID := s.lamportID + 1 }.addEndpoint e) passed

/-- **`AllocateEndpoint` does one of these five things.** -/
theorem allocateStep_of_eq {i : Nat} (hnext : srv.nextVNI = vniAt i)
    (h : allocateEndpoint srv discoA discoB now = (result, srv')) :
    AllocateStep srv i discoA discoB now result srv' (allocatePassed srv discoA discoB) := by
  unfold allocateEndpoint at h
  unfold allocatePassed
  split at h
  next hunready =>
    cases h
    rw [if_pos hunready]
    exact .notReady (not_not.2 hunready)
  next hready =>
    rw [if_neg hready]
    split at h
    next hkey =>
      cases h
      rw [if_pos hkey]
      exact .serverKey hkey
    next hkey =>
      rw [if_neg hkey]
      rw [not_or] at hkey
      dsimp only at h
      split at h
      next e hfound =>
        cases h
        obtain ⟨p, hp, hload⟩ := Option.bind_eq_some_iff.1 hfound
        exact .again hp hload
      next hmissing =>
        have hspec := nextVNI_spec srv totalPossibleVNI i
        rw [← hnext] at hspec
        unfold allocateNew at h
        split at h
        next nextVNI hget =>
          cases h
          rw [hget] at hspec
          exact .exhausted hmissing hspec
        next vni nextVNI hget =>
          cases h
          rw [hget] at hspec
          exact .fresh hkey hmissing hspec rfl

variable {bindLifetime steadyStateLifetime : Int}

theorem maybeExpire_spec {expired : Bool}
    (h : maybeExpire e now bindLifetime steadyStateLifetime metrics = (e', metrics', expired)) :
    SameEndpoint e e' ∧ e'.closed = (expired || e.closed) ∧
      metrics' = metrics.updateEndpoint e.state e'.state ∧
      (expired = true → e.isExpired now bindLifetime steadyStateLifetime = true) := by
  unfold maybeExpire at h
  split at h
  next hexp =>
    cases h
    exact ⟨⟨rfl, rfl, rfl⟩, rfl, rfl, fun _ => hexp⟩
  · cases h
    exact ⟨.refl e, rfl, by simp [Metrics.updateEndpoint], by simp⟩

/-- Expiry, in the words of the two lifetimes. -/
theorem isExpired_iff : e.isExpired now bindLifetime steadyStateLifetime = true ↔
      e.isBound = false ∧ bindLifetime < now - e.allocatedAt ∨
      e.isBound = true ∧ ∃ leg, steadyStateLifetime < now - e.lastSeen leg := by
  have hleg : (∃ leg, steadyStateLifetime < now - e.lastSeen leg) ↔
      steadyStateLifetime < now - e.lastSeen .first ∨
        steadyStateLifetime < now - e.lastSeen .second := by
    constructor
    · rintro ⟨leg, h⟩
      cases leg
      · exact .inl h
      · exact .inr h
    · rintro (h | h)
      · exact ⟨_, h⟩
      · exact ⟨_, h⟩
  rw [hleg]
  cases h : e.isBound <;> simp [ServerEndpoint.isExpired, h]

/-! ## Whole runs -/

/-- The VNIs the allocator tries in a step. -/
def Event.passed : Event → List VNI
  | .allocate _ _ _ passed => passed
  | _ => []

/-- The endpoint that a step has newly allocated. -/
def Event.fresh : Event → Option EndpointInfo
  | .allocate _ _ (.ok info) (_ :: _) => some info
  | _ => none

theorem Event.fresh_error (discoA discoB : PublicKey) (err : AllocateError) (passed : List VNI) :
    (allocate discoA discoB (.error err) passed).fresh = none := by
  cases passed <;> rfl

/-- The VNIs the allocator has passed, in order. -/
def passedBy (tr : List Event) : List VNI := tr.flatMap passed

/-- The pointers that are left to `endpointGC` are live. -/
def GCLive (s : Sys) : Prop :=
  ∀ now todo, s.gc = some (now, todo) → todo.Nodup ∧ ∀ p ∈ todo, ∃ e, Live s.server.heap p e

/-- The invariant of runs. -/
structure Allocated (tr : List Event) (s : Sys) : Prop where
  indexed : Indexed s.server
  gc : GCLive s
  next : s.server.nextVNI = vniAt (passedBy tr).length
  order : passedBy tr = vnisFrom 0 (passedBy tr).length
  lamport : ∀ info ∈ tr.filterMap fresh, info.lamportID ≤ s.server.lamportID

theorem passedBy_append (tr tr' : List Event) :
    passedBy (tr ++ tr') = passedBy tr ++ passedBy tr' := by
  simp [passedBy]

theorem passedBy_singleton (ev : Event) : passedBy [ev] = ev.passed := by
  simp [passedBy]

/-- The step closes an endpoint that is unbound past the bind lifetime, or bound with a leg
that is silent past the steady-state lifetime. -/
def Expires (s : Server) (ev : Event) (p : Ptr) (e : ServerEndpoint) : Prop :=
  ∃ now, ev = .gcVisit p now true ∧
    (e.isBound = false ∧ s.bindLifetime < now - e.allocatedAt ∨
      e.isBound = true ∧ ∃ leg, s.steadyStateLifetime < now - e.lastSeen leg)

/-- What happens to every endpoint in a step. -/
def Keeps (s : Server) (ev : Event) (t : Server) : Prop :=
  ∀ (p : Ptr) e, s.heap[p]? = some e →
    ∃ e', t.heap[p]? = some e' ∧ SameEndpoint e e' ∧ (e'.closed = e.closed ∨ Expires s ev p e)

theorem Keeps.of_heap_eq (h : srv'.heap = srv.heap) : Keeps srv ev srv' :=
  fun _ e he => ⟨e, by rw [h, he], .refl e, .inl rfl⟩

theorem Keeps.of_set (hload : srv.heap[p]? = some e) (hsame : SameEndpoint e e')
    (hclosed : e'.closed = e.closed ∨ Expires srv ev p e) (h : srv'.heap = srv.heap.set p e') :
    Keeps srv ev srv' := by
  intro q x hx
  rw [h]
  by_cases hqp : q = p
  · subst hqp
    cases hload.symm.trans hx
    have hlt := (List.getElem?_eq_some_iff.1 hload).1
    exact ⟨e', by simp [hlt], hsame, hclosed⟩
  · exact ⟨x, by rw [List.getElem?_set_ne (Ne.symm hqp), hx], .refl x, .inl rfl⟩

theorem Keeps.of_append (h : srv'.heap = srv.heap ++ [e]) : Keeps srv ev srv' := by
  intro p x hx
  have hlt : p < srv.heap.length := (List.getElem?_eq_some_iff.1 hx).1
  exact ⟨x, by rw [h, List.getElem?_append_left hlt, hx], .refl x, .inl rfl⟩

theorem Keeps.live (h : Keeps srv ev srv') (hl : Live srv.heap p e) :
    (∃ e', Live srv'.heap p e') ∨ Expires srv ev p e := by
  obtain ⟨e', he', -, hc⟩ := h p e hl.load
  exact hc.imp_left fun hc => ⟨e', he', hc.trans hl.live⟩

theorem keeps_of_step (hstep : Step C s ev t) (h : Allocated tr s) :
    Keeps s.server ev t.server := by
  cases hstep with
  | @allocate discoA discoB now result server hmu heq =>
    have halloc := allocateStep_of_eq h.next heq
    generalize allocatePassed s.server discoA discoB = passed at halloc ⊢
    cases halloc with
    | fresh _ _ _ _ => exact .of_append rfl
    | _ => exact .of_heap_eq rfl
  | secrets random hmu hmem =>
    refine .of_heap_eq ?_
    unfold maybeRotateMACSecret
    split <;> rfl
  | control hmem hload hopened heq =>
    obtain ⟨hsame, hclosed, -⟩ := (controlStep_of_handle heq).sameEndpoint
    exact .of_set hload hsame (.inl hclosed) rfl
  | data hmem hload heq =>
    obtain ⟨hsame, hclosed, -⟩ := (dataStep_of_handle heq).sameEndpoint
    exact .of_set hload hsame (.inl hclosed) rfl
  | @gcVisit now before after p e e' metrics expired hmu hload heq =>
    obtain ⟨hsame, hclosed, -, hexpired⟩ := maybeExpire_spec heq
    cases expired with
    | false => exact .of_set hload hsame (.inl hclosed) rfl
    | true => exact .of_set hload hsame (.inr ⟨now, rfl, isExpired_iff.1 (hexpired rfl)⟩) rfl
  | _ => exact .of_heap_eq rfl

namespace Allocated

theorem init (d : PublicKey) (bindLifetime steadyStateLifetime : Int) :
    Allocated [] (newServer d bindLifetime steadyStateLifetime) := by
  have hnone : ∀ p e, ¬Live (newServer d bindLifetime steadyStateLifetime).server.heap p e :=
    fun p e hl => absurd hl.load (by simp [newServer])
  have hindexed : Indexed (newServer d bindLifetime steadyStateLifetime).server :=
    { byVNI := fun v p => iff_of_false (by simp [newServer]) fun ⟨e, hl, _⟩ => hnone p e hl
      byDisco := fun v p => iff_of_false (by simp [newServer]) fun ⟨e, hl, _⟩ => hnone p e hl
      inRange := fun p e hl => absurd hl (hnone p e)
      clients := fun p e hl => absurd hl (hnone p e)
      lamportID := rfl
      gauges := rfl }
  exact ⟨hindexed, nofun, rfl, rfl, by simp⟩

/-- A step in which the allocator passes some VNIs. -/
theorem passing {n : Nat} (h : Allocated tr s)
    (hpassed : ev.passed = vnisFrom (passedBy tr).length n) (hindexed : Indexed t.server)
    (hgc : GCLive t) (hnext : t.server.nextVNI = vniAt ((passedBy tr).length + n))
    (hlamport : ∀ info ∈ (tr ++ [ev]).filterMap fresh,
      info.lamportID ≤ t.server.lamportID) : Allocated (tr ++ [ev]) t := by
  have hlength : (passedBy (tr ++ [ev])).length = (passedBy tr).length + n := by
    rw [passedBy_append, passedBy_singleton, length_append, hpassed, length_vnisFrom]
  exact
    { indexed := hindexed
      gc := hgc
      next := by rw [hlength, hnext]
      order := by
        rw [hlength, vnisFrom_add, ← h.order, passedBy_append, passedBy_singleton, hpassed,
          zero_add]
      lamport := hlamport }

theorem quiet (h : Allocated tr s) (hpassed : ev.passed = []) (hfresh : ev.fresh = none)
    (hindexed : Indexed t.server) (hgc : GCLive t) (hnext : t.server.nextVNI = s.server.nextVNI)
    (hlamport : t.server.lamportID = s.server.lamportID) : Allocated (tr ++ [ev]) t := by
  refine h.passing (n := 0) hpassed hindexed hgc (hnext.trans h.next) ?_
  simpa [hfresh, hlamport] using h.lamport

/-- The pointers that are left to `endpointGC` stay live when nothing expires. -/
theorem gc_of_keeps (h : Allocated tr s) (hkeeps : Keeps s.server ev t.server)
    (hev : ∀ p now, ev ≠ .gcVisit p now true) (heq : t.gc = s.gc) : GCLive t := by
  intro now todo htodo
  obtain ⟨hnodup, hlive⟩ := h.gc now todo (heq ▸ htodo)
  refine ⟨hnodup, fun p hp => ?_⟩
  obtain ⟨e, he⟩ := hlive p hp
  refine (hkeeps.live he).resolve_right ?_
  rintro ⟨now, rfl, -⟩
  exact hev p now rfl

end Allocated

theorem lookup_eq_none_of_missing (h : Indexed srv) {pair}
    (hmissing : (srv.serverEndpointByDisco.lookup pair).bind (srv.heap[·]?) = none) :
    srv.serverEndpointByDisco.lookup pair = none := by
  cases hl : srv.serverEndpointByDisco.lookup pair with
  | none => rfl
  | some p =>
    obtain ⟨e, he, -⟩ := (h.byDisco pair p).1 hl
    rw [hl, Option.bind_some, he.load] at hmissing
    cases hmissing

theorem lamportID_of_fresh {passed : List VNI}
    (h : info ∈ [allocate discoA discoB (.ok (srv.info e)) passed].filterMap fresh) :
    info.lamportID = e.lamportID := by
  cases passed with
  | nil => simp [fresh] at h
  | cons v passed =>
    obtain rfl : info = srv.info e := by simpa [fresh] using h
    rfl

/-- **Every step keeps the invariant.** -/
theorem Allocated.step (h : Allocated tr s) (hstep : Step C s ev t) : Allocated (tr ++ [ev]) t := by
  have hkeeps := keeps_of_step hstep h
  cases hstep with
  | @allocate discoA discoB now result server hmu heq =>
    have hgc : GCLive { s with server } := fun now todo htodo => by cases hmu.symm.trans htodo
    have halloc := allocateStep_of_eq h.next heq
    generalize hpassed : allocatePassed s.server discoA discoB = passed at halloc ⊢
    cases halloc with
    | notReady _ | serverKey _ | again _ _ => exact h.quiet rfl rfl h.indexed hgc rfl rfl
    | exhausted _ hnext =>
      obtain ⟨m, rfl, rfl⟩ := hnext.passed_eq
      refine h.passing rfl { h.indexed with } hgc rfl ?_
      simpa [fresh_error] using h.lamport
    | fresh hclients hmissing hnext he =>
      subst he
      obtain ⟨hunused, hrange, -⟩ := hnext.getLast?_passed
      obtain ⟨m, rfl, rfl⟩ := hnext.passed_eq
      refine h.passing rfl ?_ hgc rfl ?_
      · refine h.indexed.addEndpoint rfl hunused
          (lookup_eq_none_of_missing h.indexed hmissing) hrange ?_ _
        exact (forall_clientKey_iff (P := (· ≠ s.server.discoPublic)) discoA discoB).2 hclients
      · intro info hinfo
        rw [filterMap_append, mem_append] at hinfo
        rcases hinfo with hinfo | hinfo
        · exact Nat.le_succ_of_le (h.lamport info hinfo)
        · exact (lamportID_of_fresh hinfo).le
  | setAddrPorts static dynamic hmu =>
    exact h.quiet rfl rfl { h.indexed with } (h.gc_of_keeps hkeeps (by simp) rfl) rfl rfl
  | receive src b now => exact h.quiet rfl rfl h.indexed h.gc rfl rfl
  | secrets random hmu hmem =>
    refine h.quiet rfl rfl ?_ (h.gc_of_keeps hkeeps (by simp) rfl) ?_ ?_
    all_goals dsimp only; unfold maybeRotateMACSecret; split
    · exact h.indexed
    · exact { h.indexed with }
    all_goals rfl
  | control hmem hload hopened heq =>
    obtain ⟨hsame, hclosed, hm⟩ := (controlStep_of_handle heq).sameEndpoint
    exact h.quiet rfl rfl (h.indexed.setEndpoint hload hsame hclosed hm)
      (h.gc_of_keeps hkeeps (by simp) rfl) rfl rfl
  | unopened hmem hload hopened => exact h.quiet rfl rfl h.indexed h.gc rfl rfl
  | @data _ _ _ _ _ _ e e' _ hmem hload heq =>
    obtain ⟨hsame, hclosed, hstate⟩ := (dataStep_of_handle heq).sameEndpoint
    have hm : s.server.metrics = s.server.metrics.updateEndpoint e.state e'.state := by
      rw [hstate, Metrics.updateEndpoint, if_pos rfl]
    exact h.quiet rfl rfl (h.indexed.setEndpoint hload hsame hclosed hm)
      (h.gc_of_keeps hkeeps (by simp) rfl) rfl rfl
  | gcStart now hmu =>
    refine h.quiet rfl rfl h.indexed ?_ rfl rfl
    intro now todo htodo
    cases htodo
    exact ⟨h.indexed.byDisco.nodup_values, fun p hp => h.indexed.byDisco.live_of_mem_values hp⟩
  | @gcVisit now before after p e e' metrics expired hmu hload heq =>
    obtain ⟨hnodup, hlive⟩ := h.gc _ _ hmu
    obtain ⟨hsame, hclosed, hm, -⟩ := maybeExpire_spec heq
    rw [nodup_middle, nodup_cons] at hnodup
    refine h.quiet rfl rfl ?_ ?_ ?_ ?_
    · cases expired with
      | false => exact h.indexed.setEndpoint hload hsame hclosed hm
      | true =>
        obtain ⟨x, hx⟩ := hlive p (by simp)
        cases hload.symm.trans hx.load
        exact h.indexed.close hx hclosed hsame hm
    · rintro _ _ ⟨⟩
      refine ⟨hnodup.2, fun q hq => ?_⟩
      obtain ⟨x, hx⟩ := hlive q (perm_middle.mem_iff.2 (mem_cons_of_mem p hq))
      -- only the endpoint that is visited can expire
      refine (hkeeps.live hx).resolve_right ?_
      rintro ⟨_, ⟨⟩, -⟩
      exact hnodup.1 hq
    all_goals cases expired <;> rfl
  | gcEnd hmu => exact h.quiet rfl rfl h.indexed (by simp [GCLive]) rfl rfl

theorem allocated_of_run {d : PublicKey}
    (h : Run (Step C) (newServer d bindLifetime steadyStateLifetime) tr s) : Allocated tr s :=
  h.invariant (.init d bindLifetime steadyStateLifetime) fun _ _ _ _ hI hstep => hI.step hstep

/-! ## What a run shows -/

/-- What the allocations of a run guarantee. -/
structure AllocationsSound (tr : List Event) : Prop where
  /-- Lamport IDs of successive allocations increase. -/
  lamportID : (tr.filterMap fresh).Pairwise fun info info' => info.lamportID < info'.lamportID
  /-- A VNI is handed out again only after the allocator has passed all VNIs since. -/
  reuse : ∀ pre mid post ev ev' info info', tr = pre ++ ev :: mid ++ ev' :: post →
    ev.fresh = some info → ev'.fresh = some info' → info.vni = info'.vni →
    ∀ v, InRange v → v ∈ passedBy (mid ++ [ev'])

/-- What a step guarantees from any state that a run reaches. -/
structure StepSound (s : Server) (ev : Event) (t : Server) : Prop where
  /-- No endpoint changes its clients, its VNI or its Lamport ID. -/
  kept : ∀ (p : Ptr) e, s.heap[p]? = some e → ∃ e', t.heap[p]? = some e' ∧ SameEndpoint e e'
  /-- A new endpoint is what `AllocateEndpoint` says. -/
  fresh : ∀ discoA discoB info passed, ev = .allocate discoA discoB (.ok info) passed →
    ∃ p e, Live t.heap p e ∧ e.discoPubKeys = newSortedPairOfDiscoPublic discoA discoB ∧
      info.vni = e.vni ∧ info.lamportID = e.lamportID
  /-- For a pair with a live endpoint, in either order, it is this endpoint again. -/
  again : ∀ discoA discoB result passed, ev = .allocate discoA discoB result passed →
    s.Ready → ∀ p e, Live s.heap p e →
    e.discoPubKeys = newSortedPairOfDiscoPublic discoA discoB ∨
      e.discoPubKeys = newSortedPairOfDiscoPublic discoB discoA →
    t = s ∧ ∃ info, result = .ok info ∧ info.vni = e.vni ∧ info.lamportID = e.lamportID
  /-- The pool is exhausted only if all VNIs are in use. -/
  exhausted : ∀ discoA discoB passed,
    ev = .allocate discoA discoB (.error .vniPoolExhausted) passed →
    ∀ v, InRange v → ∃ p e, Live s.heap p e ∧ e.vni = v
  /-- Only an endpoint that has expired is closed. -/
  closed : ∀ p e e', Live s.heap p e → t.heap[p]? = some e' → e'.closed = true → Expires s ev p e

/-- What a step says about an endpoint it has newly allocated. -/
theorem fresh_spec (h : Allocated tr s) (hstep : Step C s ev t) (hfresh : ev.fresh = some info) :
    info.lamportID = s.server.lamportID + 1 ∧ ev.passed.getLast? = some info.vni := by
  cases hstep with
  | @allocate discoA discoB now result server hmu heq =>
    have halloc := allocateStep_of_eq h.next heq
    generalize allocatePassed s.server discoA discoB = passed at halloc hfresh ⊢
    cases halloc with
    | notReady _ | serverKey _ | again _ _ => simp [fresh] at hfresh
    | exhausted _ _ => simp [fresh_error] at hfresh
    | @fresh vni nextVNI passed e hclients hmissing hnext he =>
      subst he
      obtain ⟨-, -, hlast⟩ := hnext.getLast?_passed
      cases passed with
      | nil => simp at hlast
      | cons w passed =>
        cases hfresh
        exact ⟨rfl, hlast⟩
  | _ => cases hfresh

theorem passed_ne_nil_of_fresh (h : ev.fresh = some info) : ev.passed ≠ [] := by
  unfold fresh at h
  split at h
  · simp [passed]
  · cases h

theorem vniAt_of_getLast? {l : List VNI} (horder : l = vnisFrom 0 l.length)
    (hlast : l.getLast? = some v) : ∃ k, l.length = k + 1 ∧ v = vniAt k := by
  cases hn : l.length with
  | zero =>
    rw [length_eq_zero_iff] at hn
    simp [hn] at hlast
  | succ k =>
    rw [horder, hn, vnisFrom_add] at hlast
    simpa [vnisFrom] using hlast.symm

theorem getLast?_passedBy_append (h : ev.passed.getLast? = some v) :
    (passedBy (tr ++ [ev])).getLast? = some v := by
  rw [passedBy_append, passedBy_singleton, List.getLast?_append, h, Option.some_or]

section Runs

variable {d : PublicKey}

theorem lamportIDs_increase (h : Run (Step C) (newServer d bindLifetime steadyStateLifetime) tr s) :
    (tr.filterMap fresh).Pairwise fun info info' => info.lamportID < info'.lamportID := by
  induction h with
  | nil => exact .nil
  | @snoc tr s t ev hrun hstep ih =>
    have hI := allocated_of_run hrun
    rw [filterMap_append, pairwise_append]
    refine ⟨ih, ?_, ?_⟩
    · cases hf : ev.fresh <;> simp [hf]
    · intro info hinfo info' hinfo'
      have hf : ev.fresh = some info' := by simpa using hinfo'
      rw [(fresh_spec hI hstep hf).1]
      exact Nat.lt_succ_of_le (hI.lamport info hinfo)

/-- The end of a run that allocates an endpoint. -/
theorem exists_place_of_fresh
    (h : Run (Step C) (newServer d bindLifetime steadyStateLifetime) (tr ++ [ev]) s)
    (hfresh : ev.fresh = some info) :
    ∃ k, (passedBy (tr ++ [ev])).length = k + 1 ∧ info.vni = vniAt k := by
  refine vniAt_of_getLast? (allocated_of_run h).order ?_
  generalize hl : tr ++ [ev] = l at h
  cases h with
  | nil => simp at hl
  | snoc hrun hstep =>
    obtain ⟨rfl, hev⟩ := append_inj' hl rfl
    obtain rfl := singleton_inj.1 hev
    exact getLast?_passedBy_append (fresh_spec (allocated_of_run hrun) hstep hfresh).2

/-- **The allocations of a run.** -/
theorem allocationsSound (h : Run (Step C) (newServer d bindLifetime steadyStateLifetime) tr s) :
    AllocationsSound tr where
  lamportID := lamportIDs_increase h
  reuse := by
    intro pre mid post ev ev' info info' htr hf hf' hvni v hv
    have htr' : tr = (pre ++ [ev]) ++ ((mid ++ [ev']) ++ post) := by simp [htr]
    rw [htr'] at h
    obtain ⟨s₁, h₁, -⟩ := h.of_append_left
    rw [← append_assoc] at h
    obtain ⟨s₂, h₂, -⟩ := h.of_append_left
    obtain ⟨k₁, hk₁, hv₁⟩ := exists_place_of_fresh h₁ hf
    rw [← append_assoc] at h₂
    obtain ⟨k₂, hk₂, hv₂⟩ := exists_place_of_fresh h₂ hf'
    have horder := (allocated_of_run h₂).order
    rw [append_assoc, passedBy_append] at horder hk₂
    rw [length_append] at hk₂
    rw [length_append, vnisFrom_add, ← (allocated_of_run h₁).order, append_cancel_left_eq,
      zero_add, hk₁] at horder
    have hpos : 0 < (passedBy (mid ++ [ev'])).length := by
      rw [passedBy_append, passedBy_singleton, length_append]
      exact Nat.add_pos_right _ (length_pos_iff.2 (passed_ne_nil_of_fresh hf'))
    have hround : k₁ + totalPossibleVNI ≤ k₂ :=
      le_of_vniAt_eq (by omega) (hv₁.symm.trans (hvni.trans hv₂))
    obtain ⟨k, hk, rfl⟩ := exists_vniAt_eq hv (k₁ + 1)
    rw [horder]
    exact mem_vnisFrom.2 ⟨k, by omega, rfl⟩

/-- What `AllocateEndpoint` returns for a pair that has a live endpoint. -/
theorem AllocateStep.again_of_live {i : Nat} {passed : List VNI}
    (h : AllocateStep srv i discoA discoB now result srv' passed) (hI : Indexed srv)
    (hready : srv.Ready) (hl : Live srv.heap p e)
    (hpair : e.discoPubKeys = newSortedPairOfDiscoPublic discoA discoB) :
    srv' = srv ∧ result = .ok (srv.info e) := by
  have hp : srv.serverEndpointByDisco.lookup (newSortedPairOfDiscoPublic discoA discoB) = some p :=
    (hI.byDisco _ _).2 ⟨e, hl, hpair⟩
  cases h with
  | notReady hunready => exact absurd hready hunready
  | serverKey hkey =>
    have hclients := hI.clients p e hl
    rw [hpair] at hclients
    have hne := (forall_clientKey_iff (P := (· ≠ srv.discoPublic)) discoA discoB).1 hclients
    exact absurd hkey (not_or.2 hne)
  | again hfound hload =>
    cases hp.symm.trans hfound
    cases hl.load.symm.trans hload
    exact ⟨rfl, rfl⟩
  | exhausted hmissing _ | fresh _ hmissing _ _ =>
    rw [lookup_eq_none_of_missing hI hmissing] at hp
    cases hp

/-- **What a step guarantees from a state that a run reaches.** -/
theorem stepSound (h : Allocated tr s) (hstep : Step C s ev t) :
    StepSound s.server ev t.server := by
  have hkeeps := keeps_of_step hstep h
  have halloc : ∀ discoA discoB result passed, ev = .allocate discoA discoB result passed →
      ∃ now, AllocateStep s.server (passedBy tr).length discoA discoB now result
        t.server passed := by
    rintro discoA discoB result passed rfl
    cases hstep with
    | allocate hmu heq => exact ⟨_, allocateStep_of_eq h.next heq⟩
  refine ⟨fun p e he => ?_, ?_, ?_, ?_, fun p e e' hl he' hclosed => ?_⟩
  · obtain ⟨e', he', hsame, -⟩ := hkeeps p e he
    exact ⟨e', he', hsame⟩
  · intro discoA discoB info passed hev
    obtain ⟨now, ha⟩ := halloc _ _ _ _ hev
    generalize t.server = srv at ha ⊢
    generalize hr : Except.ok info = result at ha
    cases ha with
    | notReady _ | serverKey _ | exhausted _ _ => cases hr
    | again hfound hload =>
      cases hr
      obtain ⟨x, hx, hxk⟩ := (h.indexed.byDisco _ _).1 hfound
      cases hload.symm.trans hx.load
      exact ⟨_, _, hx, hxk, rfl, rfl⟩
    | fresh _ _ _ he =>
      cases hr
      subst he
      exact ⟨_, _, (live_append_iff rfl).2 (.inl ⟨rfl, rfl⟩), rfl, rfl, rfl⟩
  · intro discoA discoB result passed hev hready p e hl hpair
    obtain ⟨now, ha⟩ := halloc _ _ _ _ hev
    rw [newSortedPairOfDiscoPublic_comm discoB, or_self] at hpair
    obtain ⟨ht, hresult⟩ := ha.again_of_live h.indexed hready hl hpair
    exact ⟨ht, _, hresult, rfl, rfl⟩
  · intro discoA discoB passed hev v hv
    obtain ⟨now, ha⟩ := halloc _ _ _ _ hev
    generalize t.server = srv at ha ⊢
    cases ha with
    | exhausted _ hnext =>
      obtain ⟨k, hk, rfl⟩ := exists_vniAt_eq hv (passedBy tr).length
      obtain ⟨p, hp⟩ := Option.ne_none_iff_exists'.1 (hnext.used k hk)
      obtain ⟨e, he, hev⟩ := (h.indexed.byVNI _ p).1 hp
      exact ⟨p, e, he, hev⟩
  · refine (hkeeps.live hl).resolve_left ?_
    rintro ⟨x, hx⟩
    cases he'.symm.trans hx.load
    cases hclosed.symm.trans hx.live

/-- **Allocation and expiry.**  After every run the indices hold the live endpoints under
their own keys, with distinct VNIs, and the gauges count them; the allocations so far
are in order; and every next step is sound. -/
theorem run_allocation_sound
    (h : Run (Step C) (newServer d bindLifetime steadyStateLifetime) tr s) :
    Indexed s.server ∧
    (∀ p q e e', Live s.server.heap p e → Live s.server.heap q e' → e.vni = e'.vni → p = q) ∧
    AllocationsSound tr ∧
    ∀ ev t, Step C s ev t → StepSound s.server ev t.server := by
  have hI := allocated_of_run h
  refine ⟨hI.indexed, ?_, allocationsSound h, fun ev t hstep => stepSound hI hstep⟩
  intro p q e e' hp hq hvni
  exact hI.indexed.byVNI.injective hp hq hvni

end Runs

section Example

/-- No MAC verifies and no box opens. -/
def deafCrypto : Crypto := ⟨fun _ _ => 0, fun _ _ => none⟩

def relayAddr : AddrPort := { addr := .v4 0x7f000001, port := 7 }

/-- Two clients allocate an endpoint, in either order, and it expires unbound. -/
theorem run_allocation_sound_expired :
    ∃ tr s, Run (Step deafCrypto) (newServer 9 30 300) tr s ∧
      tr.filterMap fresh ≠ [] ∧ s.server.serverEndpointByVNI.lookup 1 = none ∧
      Indexed s.server ∧ AllocationsSound tr := by
  have h₁ : Run (Step deafCrypto) (newServer 9 30 300) [.setAddrPorts [relayAddr] []] _ :=
    Run.nil.snoc (.setAddrPorts [relayAddr] [] rfl)
  have h₂ := h₁.snoc (@Step.allocate _ _ 5 4 0 _ _ rfl rfl)
  have h₃ := h₂.snoc (@Step.allocate _ _ 4 5 0 _ _ rfl rfl)
  have h₄ := h₃.snoc (.gcStart 31 rfl)
  have h₅ := h₄.snoc (@Step.gcVisit _ _ 31 [] [] 0 _ _ _ _ rfl rfl rfl)
  have h₆ := h₅.snoc (.gcEnd rfl)
  obtain ⟨hI, -, hA, -⟩ := run_allocation_sound h₆
  exact ⟨_, _, h₆, by decide, rfl, hI, hA⟩

end Example

end Multiport.Udprelay

import Multiport.Udprelay.Server

/-!
# Indices, allocator and gauges of the relay server

In every state of every run the two indices hold exactly the endpoints that are not
closed, each under its own key, and the gauges count them.  The allocator goes round
the VNIs in order: `vniAt i` is the VNI it tries in the `i`-th place, and the VNIs that it
has tried along a run are the first ones of this sequence.
-/

namespace Multiport.Udprelay

open Lib Net Disco Tailcfg List Function Gauges ServerEndpoint

variable {C : Crypto} {s t : Sys} {srv : Server} {tr : List Event} {ev : Event} {p q : Ptr}
  {e e' : ServerEndpoint} {heap : List ServerEndpoint} {v : VNI} {now : MonoTime}
  {metrics metrics' : Metrics}

/-! ## What the operations do to an endpoint -/

/-- What handling a control message can do. -/
inductive ControlStep (C : Crypto) (e : ServerEndpoint) (src : AddrPort) (sender : Leg)
    (msg : Message) (secrets : List Secret) (now : MonoTime) (metrics : Metrics) :
    ServerEndpoint → Metrics → Outcome → Prop
  | dropped : ControlStep C e src sender msg secrets now metrics e metrics .dropped
  | challenged {reply secret} (live : e.closed = false)
      (vni : reply.vni = e.vni)
      (remoteKey : reply.remoteKey = clientKey e.discoPubKeys sender.other)
      (generation : reply.generation ≠ 0) (current : secret ∈ secrets)
      (mac : reply.challenge = C.mac secret (macInput src reply)) :
      ControlStep C e src sender msg secrets now metrics
        { e with
          inProgressGeneration := update e.inProgressGeneration sender reply.generation }
        metrics (.challenged reply)
  | bound {m secret} (live : e.closed = false)
      (answer : msg = .bindUDPRelayEndpointAnswer m)
      (vni : m.vni = e.vni) (remoteKey : m.remoteKey = clientKey e.discoPubKeys sender.other)
      (generation : e.inProgressGeneration sender = m.generation) (nonzero : m.generation ≠ 0)
      (current : secret ∈ secrets) (mac : C.mac secret (macInput src m) = m.challenge)
      (metrics' : Metrics) (e' : ServerEndpoint)
      (endpoint : e' = { e with
        boundAddrPorts := update e.boundAddrPorts sender src
        lastSeen := update e.lastSeen sender now
        inProgressGeneration := update e.inProgressGeneration sender 0 })
      (gauges : metrics' = metrics.updateEndpoint e.state e'.state) :
      ControlStep C e src sender msg secrets now metrics e' metrics' .bound

theorem state_eq_closed_iff : e.state = .closed ↔ e.closed = true := by
  unfold state
  cases e.closed <;> cases e.isBound <;> simp

variable {sender : Leg}

variable {src : AddrPort}

/-- **`handleDiscoControlMsg` drops the message, issues a challenge or binds a leg.** -/
theorem controlStep_of_handle {msg : Message} {secrets} {out : Outcome}
    (h : handleDiscoControlMsg C e src sender msg secrets now metrics = (e', metrics', out)) :
    ControlStep C e src sender msg secrets now metrics e' metrics' out := by
  unfold handleDiscoControlMsg at h
  split at h
  · cases h
    exact .dropped
  next hopen =>
    have hlive : e.closed = false := by
      rw [state_eq_closed_iff] at hopen
      simpa using hopen
    split at h
    next m =>
      split at h
      · cases h
        exact .dropped
      next hval =>
        split at h
        · cases h
          exact .dropped
        next hgen =>
          split at h
          · cases h
            exact .dropped
          next secret hsecret =>
            cases h
            exact @ControlStep.challenged C e src sender _ secrets now metrics
              ⟨e.vni, m.generation, clientKey e.discoPubKeys sender.other, _⟩ secret
              hlive rfl rfl hgen
              (mem_of_mem_head? hsecret) rfl
    next m =>
      split at h
      · cases h
        exact .dropped
      next hval =>
        rw [Bool.not_eq_false, validates, Bool.and_eq_true, beq_iff_eq, beq_iff_eq] at hval
        dsimp only at h
        split at h
        · cases h
          exact .dropped
        next hgen =>
          rw [not_or, not_not] at hgen
          split at h
          next hany =>
            cases h
            obtain ⟨secret, hmem, hmac⟩ := any_eq_true.1 hany
            exact .bound hlive rfl hval.1 hval.2 hgen.2 (hgen.2 ▸ hgen.1) hmem
              (beq_iff_eq.1 hmac) _ _ rfl rfl
          · cases h
            exact .dropped
    · cases h
      exact .dropped

/-- The fields of an endpoint that never change. -/
structure SameEndpoint (e e' : ServerEndpoint) : Prop where
  discoPubKeys : e'.discoPubKeys = e.discoPubKeys
  lamportID : e'.lamportID = e.lamportID
  vni : e'.vni = e.vni

theorem SameEndpoint.refl (e : ServerEndpoint) : SameEndpoint e e := ⟨rfl, rfl, rfl⟩

theorem ControlStep.sameEndpoint {msg : Message} {secrets} {out : Outcome}
    (h : ControlStep C e src sender msg secrets now metrics e' metrics' out) :
    SameEndpoint e e' ∧ e'.closed = e.closed ∧
      metrics' = metrics.updateEndpoint e.state e'.state := by
  cases h with
  | dropped => exact ⟨.refl e, rfl, by simp [Metrics.updateEndpoint]⟩
  | challenged => exact ⟨⟨rfl, rfl, rfl⟩, rfl, by simp [Metrics.updateEndpoint, state,
      isBound]⟩
  | bound _ _ _ _ _ _ _ _ _ _ he hm =>
    subst he
    exact ⟨⟨rfl, rfl, rfl⟩, rfl, hm⟩

/-- What handling a data packet can do: nothing, or to note that a bound leg was seen. -/
inductive DataStep (e : ServerEndpoint) (src : AddrPort) : ServerEndpoint → Option AddrPort → Prop
  | dropped : DataStep e src e none
  | forwarded (leg : Leg) (live : e.closed = false) (bound : e.isBound = true)
      (from_leg : src = e.boundAddrPorts leg) (lastSeen : Leg → MonoTime)
      (packetsRx bytesRx : Leg → Nat) :
      DataStep e src { e with lastSeen, packetsRx, bytesRx } (some (e.boundAddrPorts leg.other))

/-- **`handleDataPacket` forwards from one bound leg to the other.** -/
theorem dataStep_of_handle {b : Bytes} {dst}
    (h : handleDataPacket e src b now = (e', dst)) : DataStep e src e' dst := by
  unfold handleDataPacket at h
  split at h
  · cases h
    exact .dropped
  next hbound =>
    rw [Bool.not_eq_false] at hbound
    split at h
    · cases h
      exact .dropped
    next hopen =>
      have hlive : e.closed = false := by
        rw [state_eq_closed_iff] at hopen
        simpa using hopen
      split at h
      next hsrc =>
        cases h
        exact .forwarded .first hlive hbound hsrc _ _ _
      · split at h
        next hsrc =>
          cases h
          exact .forwarded .second hlive hbound hsrc _ _ _
        · cases h
          exact .dropped

theorem DataStep.sameEndpoint {dst} (h : DataStep e src e' dst) :
    SameEndpoint e e' ∧ e'.closed = e.closed ∧ e'.state = e.state := by
  cases h with
  | dropped => exact ⟨.refl e, rfl, rfl⟩
  | forwarded => exact ⟨⟨rfl, rfl, rfl⟩, rfl, rfl⟩

/-! ## The order of the allocator -/

def InRange (v : VNI) : Prop := minVNI ≤ v ∧ v ≤ maxVNI

/-- The VNI in the `i`-th place of the order in which the allocator tries them. -/
def vniAt (i : Nat) : VNI := BitVec.ofNat 32 (minVNI.toNat + i % totalPossibleVNI)

theorem toNat_vniAt (i : Nat) : (vniAt i).toNat = 1 + i % 16777215 := by
  have hmin : minVNI.toNat = 1 := rfl
  have htotal : totalPossibleVNI = 16777215 := rfl
  rw [vniAt, BitVec.toNat_ofNat, htotal]
  omega

theorem inRange_iff : InRange v ↔ 1 ≤ v.toNat ∧ v.toNat ≤ 16777215 := by
  simp [InRange, BitVec.le_def, minVNI, maxVNI]

theorem inRange_vniAt (i : Nat) : InRange (vniAt i) := by
  rw [inRange_iff, toNat_vniAt]
  omega

theorem advanceVNI_vniAt (i : Nat) : advanceVNI (vniAt i) = vniAt (i + 1) := by
  have hi := toNat_vniAt i
  have hmax : maxVNI.toNat = 16777215 := rfl
  apply BitVec.eq_of_toNat_eq
  rw [toNat_vniAt]
  unfold advanceVNI
  split
  next h =>
    rw [h] at hi
    have : minVNI.toNat = 1 := rfl
    omega
  next h =>
    have hne : (vniAt i).toNat ≠ 16777215 :=
      fun hc => h (BitVec.eq_of_toNat_eq (hc.trans hmax.symm))
    rw [BitVec.toNat_add]
    have : (1 : VNI).toNat = 1 := rfl
    omega

/-- Any VNI comes up within one round, from any place. -/
theorem exists_vniAt_eq (h : InRange v) (i : Nat) : ∃ k < totalPossibleVNI, vniAt (i + k) = v := by
  rw [inRange_iff] at h
  refine ⟨(v.toNat - 1 + (16777215 - i % 16777215)) % 16777215, ?_, BitVec.eq_of_toNat_eq ?_⟩
  · exact Nat.mod_lt _ (by decide)
  · rw [toNat_vniAt]
    omega

variable {i : Nat}

/-- Two places with the same VNI are a number of rounds apart. -/
theorem le_of_vniAt_eq {j : Nat} (hlt : i < j) (h : vniAt i = vniAt j) :
    i + totalPossibleVNI ≤ j := by
  have htotal : totalPossibleVNI = 16777215 := rfl
  rw [← BitVec.toNat_inj, toNat_vniAt, toNat_vniAt] at h
  omega

/-- `n` VNIs in the order of the allocator, from the `i`-th place. -/
def vnisFrom (i n : Nat) : List VNI := (range n).map fun k => vniAt (i + k)

theorem vnisFrom_succ (i n : Nat) : vnisFrom i (n + 1) = vniAt i :: vnisFrom (i + 1) n := by
  simp [vnisFrom, range_succ_eq_map, add_right_comm _ 1, add_assoc]

theorem vnisFrom_add (i m n : Nat) : vnisFrom i (m + n) = vnisFrom i m ++ vnisFrom (i + m) n := by
  simp [vnisFrom, range_add, add_assoc]

@[simp] theorem length_vnisFrom (i n : Nat) : (vnisFrom i n).length = n := by simp [vnisFrom]

variable {n : Nat}

theorem mem_vnisFrom : v ∈ vnisFrom i n ↔ ∃ k < n, vniAt (i + k) = v := by
  simp [vnisFrom]

/-- What the loop of the allocator can come to. -/
inductive NextVNI (s : Server) (i n : Nat) : Option VNI → VNI → List VNI → Prop
  | free (k : Nat) (lt : k < n) (unused : s.serverEndpointByVNI.lookup (vniAt (i + k)) = none) :
      NextVNI s i n (some (vniAt (i + k))) (vniAt (i + k + 1)) (vnisFrom i (k + 1))
  | exhausted (used : ∀ k < n, s.serverEndpointByVNI.lookup (vniAt (i + k)) ≠ none) :
      NextVNI s i n none (vniAt (i + n)) (vnisFrom i n)

variable {next : VNI} {passed : List VNI}

theorem NextVNI.passed_eq {vni} (h : NextVNI srv i n vni next passed) :
    ∃ m, passed = vnisFrom i m ∧ next = vniAt (i + m) := by
  cases h with
  | free k _ _ => exact ⟨k + 1, rfl, rfl⟩
  | exhausted _ => exact ⟨n, rfl, rfl⟩

theorem NextVNI.used (h : NextVNI srv i n none next passed) :
    ∀ k < n, srv.serverEndpointByVNI.lookup (vniAt (i + k)) ≠ none := by
  cases h with
  | exhausted hused => exact hused

theorem NextVNI.getLast?_passed {vni : VNI} (h : NextVNI srv i n (some vni) next passed) :
    srv.serverEndpointByVNI.lookup vni = none ∧ InRange vni ∧ passed.getLast? = some vni := by
  cases h with
  | free k _ hunused =>
    refine ⟨hunused, inRange_vniAt _, ?_⟩
    rw [vnisFrom_add]
    simp [vnisFrom]

/-- **`getNextVNILocked` takes the first free VNI in order.** -/
theorem nextVNI_spec (s : Server) (n i : Nat) :
    NextVNI s i n (getNextVNI s n (vniAt i)).1 (getNextVNI s n (vniAt i)).2
      (passedVNIs s n (vniAt i)) := by
  induction n generalizing i with
  | zero => exact .exhausted (by simp)
  | succ n ih =>
    rw [getNextVNI, passedVNIs, advanceVNI_vniAt]
    cases hl : s.serverEndpointByVNI.lookup (vniAt i) with
    | none => exact .free 0 n.succ_pos hl
    | some p =>
      have hi := ih (i + 1)
      generalize getNextVNI s n (vniAt (i + 1)) = next at hi ⊢
      generalize passedVNIs s n (vniAt (i + 1)) = passed at hi ⊢
      obtain ⟨vni, next⟩ := next
      cases hi with
      | free k hlt hfree =>
        rw [← vnisFrom_succ]
        rw [add_assoc, add_comm 1] at hfree ⊢
        exact .free (k + 1) (Nat.succ_lt_succ hlt) hfree
      | exhausted hused =>
        rw [← vnisFrom_succ, add_assoc, add_comm 1]
        refine .exhausted fun k hk => ?_
        cases k with
        | zero => simp [hl]
        | succ k =>
          have := hused k (Nat.lt_of_succ_lt_succ hk)
          rwa [add_assoc, add_comm 1] at this

/-! ## The invariant of the server -/

/-- An endpoint that is not closed. -/
structure Live (heap : List ServerEndpoint) (p : Ptr) (e : ServerEndpoint) : Prop where
  load : heap[p]? = some e
  live : e.closed = false

/-- An index that holds exactly the endpoints that are not closed, under their keys. -/
def Indexes {K : Type} [DecidableEq K] (index : GoMap K Ptr) (key : ServerEndpoint → K)
    (heap : List ServerEndpoint) : Prop :=
  ∀ k p, index.lookup k = some p ↔ ∃ e, Live heap p e ∧ key e = k

/-- The number of endpoints in each state. -/
def gaugesOf (heap : List ServerEndpoint) : Gauges where
  connecting := heap.countP fun e => e.state = .connecting
  active := heap.countP fun e => e.state = .active

/-- The indices hold the endpoints that are not closed, and the gauges count them. -/
structure Indexed (s : Server) : Prop where
  byVNI : Indexes s.serverEndpointByVNI vni s.heap
  byDisco : Indexes s.serverEndpointByDisco discoPubKeys s.heap
  inRange : ∀ p e, Live s.heap p e → InRange e.vni
  clients : ∀ p e, Live s.heap p e → ∀ leg, clientKey e.discoPubKeys leg ≠ s.discoPublic
  lamportID : s.lamportID = s.heap.length
  gauges : s.metrics = ⟨gaugesOf s.heap, gaugesOf s.heap⟩

theorem Live.unique (h : Live heap p e) (h' : Live heap p e') : e = e' :=
  Option.mem_unique h.load h'.load

section Gauges

theorem updateEndpoint_eq (m : Metrics) (st st' : EndpointState) :
    m.updateEndpoint st st' =
      ⟨(m.user.add st (-1)).add st' 1, (m.client.add st (-1)).add st' 1⟩ := by
  unfold Metrics.updateEndpoint
  split
  next h =>
    subst h
    cases st <;> simp [add]
  · rfl

theorem gaugesOf_cons (heap : List ServerEndpoint) (e : ServerEndpoint) :
    gaugesOf (e :: heap) = (gaugesOf heap).add e.state 1 := by
  cases h : e.state <;> simp [gaugesOf, add, h]

theorem gaugesOf_append (heap : List ServerEndpoint) (e : ServerEndpoint) :
    gaugesOf (heap ++ [e]) = (gaugesOf heap).add e.state 1 := by
  cases h : e.state <;> simp [gaugesOf, add, h]

theorem Gauges.add_comm (g : Gauges) (st st' : EndpointState) (m n : Int) :
    (g.add st m).add st' n = (g.add st' n).add st m := by
  cases st <;> cases st' <;> simp [add, Int.add_right_comm]

@[simp] theorem Gauges.add_add_neg (g : Gauges) (st : EndpointState) :
    (g.add st 1).add st (-1) = g := by
  cases st <;> simp [add]

theorem gaugesOf_set (h : heap[p]? = some e) :
    gaugesOf (heap.set p e') = ((gaugesOf heap).add e.state (-1)).add e'.state 1 := by
  induction heap generalizing p with
  | nil => simp at h
  | cons x heap ih =>
    cases p with
    | zero =>
      obtain rfl : x = e := by simpa using h
      rw [set_cons_zero, gaugesOf_cons, gaugesOf_cons, add_add_neg]
    | succ p =>
      rw [set_cons_succ, gaugesOf_cons, gaugesOf_cons, ih (by simpa using h),
        add_comm _ e'.state x.state, add_comm _ e.state x.state]

/-- `updateEndpoint` does for the gauges what writing to an endpoint does for the counts. -/
theorem gauges_updateEndpoint (h : metrics = ⟨gaugesOf heap, gaugesOf heap⟩)
    (hload : heap[p]? = some e) :
    metrics.updateEndpoint e.state e'.state =
      ⟨gaugesOf (heap.set p e'), gaugesOf (heap.set p e')⟩ := by
  rw [updateEndpoint_eq, h, gaugesOf_set hload]

end Gauges

variable {x : ServerEndpoint}

theorem live_set_iff (hload : heap[p]? = some e) :
    Live (heap.set p e') q x ↔ q = p ∧ x = e' ∧ e'.closed = false ∨ q ≠ p ∧ Live heap q x := by
  have hlt : p < heap.length := (List.getElem?_eq_some_iff.1 hload).1
  by_cases hqp : q = p
  · subst hqp
    constructor
    · rintro ⟨hl, hlive⟩
      obtain rfl : e' = x := by simpa [hlt] using hl
      exact .inl ⟨rfl, rfl, hlive⟩
    · rintro (⟨-, rfl, hlive⟩ | ⟨hne, -⟩)
      · exact ⟨by simp [hlt], hlive⟩
      · exact absurd rfl hne
  · have hget : (heap.set p e')[q]? = heap[q]? := getElem?_set_ne (Ne.symm hqp)
    constructor
    · rintro ⟨hl, hlive⟩
      exact .inr ⟨hqp, hget ▸ hl, hlive⟩
    · rintro (⟨hq, -⟩ | ⟨-, hl⟩)
      · exact absurd hq hqp
      · exact ⟨hget ▸ hl.load, hl.live⟩

theorem live_close_iff (hload : heap[p]? = some e) (h : e'.closed = true) :
    Live (heap.set p e') q x ↔ q ≠ p ∧ Live heap q x := by
  rw [live_set_iff hload]
  simp [h]

theorem live_append_iff (h : e.closed = false) :
    Live (heap ++ [e]) q x ↔ q = heap.length ∧ x = e ∨ Live heap q x := by
  constructor
  · rintro ⟨hl, hlive⟩
    rcases lt_or_ge q heap.length with hlt | hge
    · exact .inr ⟨by rwa [getElem?_append_left hlt] at hl, hlive⟩
    rw [getElem?_append_right hge, getElem?_singleton] at hl
    split at hl
    next h0 =>
      cases hl
      exact .inl ⟨le_antisymm (Nat.sub_eq_zero_iff_le.1 h0) hge, rfl⟩
    · cases hl
  · rintro (⟨rfl, rfl⟩ | hl)
    · exact ⟨by simp, h⟩
    · have hlt : q < heap.length := (List.getElem?_eq_some_iff.1 hl.load).1
      exact ⟨by rw [getElem?_append_left hlt, hl.load], hl.live⟩

namespace Indexes

variable {K : Type} [DecidableEq K] {index : GoMap K Ptr} {key : ServerEndpoint → K}

variable (h : Indexes index key heap)

include h

theorem set (hload : heap[p]? = some e) (hclosed : e'.closed = e.closed) (hkey : key e' = key e) :
    Indexes index key (heap.set p e') := by
  intro k q
  rw [h]
  simp only [live_set_iff hload]
  constructor
  · rintro ⟨x, hl, hx⟩
    by_cases hqp : q = p
    · subst hqp
      cases hl.load.symm.trans hload
      exact ⟨e', .inl ⟨rfl, rfl, hclosed.trans hl.live⟩, hkey.trans hx⟩
    · exact ⟨x, .inr ⟨hqp, hl⟩, hx⟩
  · rintro ⟨x, ⟨rfl, rfl, hlive⟩ | ⟨-, hl⟩, hx⟩
    · exact ⟨e, ⟨hload, hclosed ▸ hlive⟩, hkey ▸ hx⟩
    · exact ⟨x, hl, hx⟩

theorem erase (hl : Live heap p e) (hclosed : e'.closed = true) :
    Indexes (index.erase (key e)) key (heap.set p e') := by
  intro k q
  simp only [live_close_iff hl.load hclosed]
  have hp : index.lookup (key e) = some p := (h _ _).2 ⟨e, hl, rfl⟩
  by_cases hk : k = key e
  · subst hk
    refine ⟨by simp, fun ⟨x, ⟨hne, hx⟩, hxk⟩ => absurd ?_ hne⟩
    exact Option.some.inj (((h _ _).2 ⟨x, hx, hxk⟩).symm.trans hp)
  · rw [AList.lookup_erase_ne hk, h]
    refine exists_congr fun x => and_congr_left fun hxk => ⟨fun hx => ⟨?_, hx⟩, And.right⟩
    rintro rfl
    exact hk (hxk ▸ congrArg key (hx.unique hl))

theorem insert (hlive : e.closed = false) (hnew : index.lookup (key e) = none) :
    Indexes (index.insert (key e) heap.length) key (heap ++ [e]) := by
  intro k q
  simp only [live_append_iff hlive]
  by_cases hk : k = key e
  · subst hk
    rw [AList.lookup_insert, Option.some_inj]
    constructor
    · rintro rfl
      exact ⟨e, .inl ⟨rfl, rfl⟩, rfl⟩
    · rintro ⟨x, ⟨rfl, -⟩ | hl, hxk⟩
      · rfl
      · rw [(h _ _).2 ⟨x, hl, hxk⟩] at hnew
        cases hnew
  · rw [AList.lookup_insert_ne hk, h]
    refine exists_congr fun x => and_congr_left fun hxk => ⟨.inr, ?_⟩
    rintro (⟨-, rfl⟩ | hl)
    · exact absurd hxk.symm hk
    · exact hl

/-- No pointer is in an index twice. -/
theorem nodup_values : index.values.Nodup := by
  have hkeys : index.entries.Nodup := Nodup.of_map _ index.nodupKeys
  refine Nodup.map_on ?_ hkeys
  rintro ⟨k, p⟩ hk ⟨k', p'⟩ hk' (rfl : p = p')
  obtain ⟨x, hx, rfl⟩ := (h k p).1 (GoMap.lookup_eq_some_iff.2 hk)
  obtain ⟨x', hx', rfl⟩ := (h k' p).1 (GoMap.lookup_eq_some_iff.2 hk')
  rw [hx.unique hx']

theorem live_of_mem_values (hp : p ∈ index.values) : ∃ e, Live heap p e := by
  obtain ⟨⟨k, p'⟩, hk, rfl⟩ := mem_map.1 hp
  obtain ⟨e, he, -⟩ := (h k p').1 (GoMap.lookup_eq_some_iff.2 hk)
  exact ⟨e, he⟩

/-- Live endpoints with the same key are the same. -/
theorem injective (hp : Live heap p e) (hq : Live heap q e') (hkey : key e = key e') : p = q :=
  Option.some.inj (((h _ _).2 ⟨e, hp, rfl⟩).symm.trans ((h _ _).2 ⟨e', hq, hkey.symm⟩))

end Indexes

namespace Indexed

theorem setEndpoint (h : Indexed srv) (hload : srv.heap[p]? = some e)
    (hsame : SameEndpoint e e') (hclosed : e'.closed = e.closed)
    (hm : metrics = srv.metrics.updateEndpoint e.state e'.state) :
    Indexed (srv.setEndpoint p e' metrics) where
  byVNI := h.byVNI.set hload hclosed hsame.vni
  byDisco := h.byDisco.set hload hclosed hsame.discoPubKeys
  inRange q x hl := by
    obtain ⟨rfl, rfl, hlive⟩ | ⟨-, hl⟩ := (live_set_iff hload).1 hl
    · rw [hsame.vni]
      exact h.inRange q e ⟨hload, hclosed ▸ hlive⟩
    · exact h.inRange q x hl
  clients q x hl leg := by
    obtain ⟨rfl, rfl, hlive⟩ | ⟨-, hl⟩ := (live_set_iff hload).1 hl
    · rw [hsame.discoPubKeys]
      exact h.clients q e ⟨hload, hclosed ▸ hlive⟩ leg
    · exact h.clients q x hl leg
  lamportID := h.lamportID.trans length_set.symm
  gauges := hm.trans (gauges_updateEndpoint h.gauges hload)

theorem close (h : Indexed srv) (hl : Live srv.heap p e) (hclosed : e'.closed = true)
    (hsame : SameEndpoint e e') (hm : metrics = srv.metrics.updateEndpoint e.state e'.state) :
    Indexed ((srv.setEndpoint p e' metrics).unlink e') where
  byVNI := by
    have := h.byVNI.erase hl hclosed
    rwa [← hsame.vni] at this
  byDisco := by
    have := h.byDisco.erase hl hclosed
    rwa [← hsame.discoPubKeys] at this
  inRange q x hx := h.inRange q x ((live_close_iff hl.load hclosed).1 hx).2
  clients q x hx := h.clients q x ((live_close_iff hl.load hclosed).1 hx).2
  lamportID := h.lamportID.trans length_set.symm
  gauges := hm.trans (gauges_updateEndpoint h.gauges hl.load)

theorem addEndpoint (h : Indexed srv) (hlive : e.state = .connecting)
    (hvni : srv.serverEndpointByVNI.lookup e.vni = none)
    (hdisco : srv.serverEndpointByDisco.lookup e.discoPubKeys = none) (hrange : InRange e.vni)
    (hclients : ∀ leg, clientKey e.discoPubKeys leg ≠ srv.discoPublic) (nextVNI : VNI) :
    Indexed ({ srv with nextVNI, lamportID := srv.lamportID + 1 }.addEndpoint e) := by
  have hopen : e.closed = false := by
    by_contra hc
    rw [state_eq_closed_iff.2 (by simpa using hc)] at hlive
    cases hlive
  exact
    { byVNI := h.byVNI.insert hopen hvni
      byDisco := h.byDisco.insert hopen hdisco
      inRange := by
        intro q x hl
        obtain ⟨-, rfl⟩ | hl := (live_append_iff hopen).1 hl
        · exact hrange
        · exact h.inRange q x hl
      clients := by
        intro q x hl
        obtain ⟨-, rfl⟩ | hl := (live_append_iff hopen).1 hl
        · exact hclients
        · exact h.clients q x hl
      lamportID := by simp [Server.addEndpoint, h.lamportID]
      gauges := by
        change srv.metrics.updateEndpoint .closed .connecting = _
        rw [updateEndpoint_eq, h.gauges]
        simp [Server.addEndpoint, gaugesOf_append, hlive, add] }

end Indexed

end Multiport.Udprelay

import Mathlib.Data.String.Basic
import Mathlib.Tactic.Linarith
import Multiport.Lib.Compare
import Multiport.Net.AddrText
import Multiport.Magicsock.Endpoint

/-!
# Two endpoints and the order of a map

`dualEndpointAddrsForSendLocked` (`wgengine/magicsock/endpoint.go`) gathers its candidates from
the map `endpointState`, which Go ranges over in any order.  The candidates are sorted and no two
of them tie, so the addresses and the new best address are the same for every order.  The time
of the oldest ping is not: zero stands both for an address that was never pinged and for a minimum
that is not known yet.  `dualEndpointAddrs_order_iff` says when this shows.
-/

namespace Multiport.Magicsock

open Lib Net List DualEndpointCandidate

/-! ## The comparator -/

/-- What `compareDualEndpointCandidate` orders by. -/
def DualEndpointCandidate.rank (a : DualEndpointCandidate) :
    Bool ×ₗ Int ×ₗ Bool ×ₗ Bool ×ₗ String :=
  toLex (!a.hasLatency, toLex (if a.hasLatency then a.latency.val else 0,
    toLex (!a.isBest, toLex (!a.addr.ap.addr.is6, a.addr.ap.string))))

theorem ranksBy_compareDualEndpointCandidate : RanksBy compareDualEndpointCandidate rank := by
  have heq (a b) : compareDualEndpointCandidate a b = level a.rank b.rank 0 := by
    simp only [rank, level_pair]
    rw [level_flag, level_not, level_not]
    rfl
  rw [funext₂ heq]
  exact .level_zero _

variable {a b : DualEndpointCandidate}

theorem string_eq_of_rank_eq (h : a.rank = b.rank) : a.addr.ap.string = b.addr.ap.string := by
  simp only [rank, EmbeddingLike.apply_eq_iff_eq, Prod.mk.injEq] at h
  exact h.2.2.2.2

/-! ## Gathering the candidates -/

namespace Endpoint

/-- `oldestPing` after another ping. -/
def olderPing (oldest ping : MonoTime) : MonoTime :=
  if oldest = 0 ∨ ping < oldest then ping else oldest

/-- An address that can be sent to without a relay, by its UDP address. -/
def IsDirectAP (ap : AddrPort) : Bool := ({ ap } : EpAddr).isDirect

/-- An entry of `endpointState` that becomes a candidate. -/
def Live (m : Moment) (e : (_ : AddrPort) × EndpointState) : Bool :=
  IsDirectAP e.1 && !e.2.shouldDeleteLocked m.wall

/-- The candidate for an address without a state. -/
def bareCandidate (de : Endpoint) (m : Moment) (addr : EpAddr) : DualEndpointCandidate :=
  { addr, isBest := de.bestAddr.epAddr = addr ∧ ¬m.now > de.trustBestAddrUntil }

def stateCandidate (de : Endpoint) (m : Moment) (addr : EpAddr) (st : EndpointState) :
    DualEndpointCandidate :=
  { de.bareCandidate m addr with
    lastPing := st.lastPing
    latency := st.latencyLocked.getD ⟨0, none⟩
    hasLatency := st.latencyLocked.any (·.val > 0) }

/-- What is gathered from `endpointState`. -/
def gatherStates (de : Endpoint) (m : Moment) (g : Gather)
    (es : List ((_ : AddrPort) × EndpointState)) : Gather :=
  { seen := ((es.filter fun e => IsDirectAP e.1).map Sigma.fst).reverse ++ g.seen
    candidates := g.candidates ++ (es.filter (Live m)).map fun e =>
      de.stateCandidate m { ap := e.1 } e.2
    oldestPing := ((es.filter (Live m)).map (·.2.lastPing)).foldl olderPing g.oldestPing }

variable {de de' : Endpoint} {m : Moment} {g g' : Gather} {addr : EpAddr}

variable {state : Option EndpointState}

theorem addCandidate_of_seen (h : addr.isDirect = false ∨ addr.ap ∈ g.seen) :
    de.addCandidate m g addr state = g := by
  rw [addCandidate, if_pos]
  rcases h with h | h
  · rw [h]
    rfl
  · rw [contains_iff_mem.2 h, Bool.or_true]

theorem addCandidate_of_new (hd : addr.isDirect = true) (hn : addr.ap ∉ g.seen) :
    de.addCandidate m g addr state =
      match state with
      | none =>
        { g with
          seen := addr.ap :: g.seen
          candidates := g.candidates ++ [de.bareCandidate m addr] }
      | some st =>
        if st.shouldDeleteLocked m.wall then { g with seen := addr.ap :: g.seen }
        else
          { seen := addr.ap :: g.seen
            oldestPing := olderPing g.oldestPing st.lastPing
            candidates := g.candidates ++ [de.stateCandidate m addr st] } := by
  rw [addCandidate, if_neg]
  · cases state <;> rfl
  · rw [hd, Bool.not_true, Bool.false_or, contains_iff_mem]
    exact hn

/-- The keys of a map are distinct, so every entry is looked at. -/
theorem foldl_addCandidate (es : List ((_ : AddrPort) × EndpointState))
    (hnodup : (es.map Sigma.fst).Nodup) (hnew : ∀ e ∈ es, e.1 ∉ g.seen) :
    es.foldl (fun g e => de.addCandidate m g { ap := e.1 } (some e.2)) g =
      de.gatherStates m g es := by
  induction es generalizing g with
  | nil => simp [gatherStates]
  | cons e es ih =>
    rw [map_cons, nodup_cons] at hnodup
    have hes : ∀ f ∈ es, f.1 ∉ e.1 :: g.seen := by
      intro f hf
      rw [mem_cons, not_or]
      exact ⟨fun heq => hnodup.1 (heq ▸ mem_map_of_mem hf), hnew f (mem_cons_of_mem _ hf)⟩
    rw [foldl_cons]
    cases hd : IsDirectAP e.1
    · rw [addCandidate_of_seen (.inl hd), ih hnodup.2 fun f hf => hnew f (mem_cons_of_mem _ hf)]
      have hlive : Live m e = false := by simp [Live, hd]
      simp [gatherStates, hd, hlive]
    · rw [addCandidate_of_new hd (hnew e mem_cons_self)]
      dsimp only
      cases hdel : e.2.shouldDeleteLocked m.wall
      · have hlive : Live m e = true := by simp [Live, hd, hdel]
        rw [ih hnodup.2 hes]
        simp [gatherStates, hd, hlive]
      · have hlive : Live m e = false := by simp [Live, hdel]
        rw [ih hnodup.2 hes]
        simp [gatherStates, hd, hlive]

/-- The addresses of the candidates are direct, seen and distinct. -/
structure Gather.Apart (g : Gather) : Prop where
  nodup : (g.candidates.map (·.addr.ap)).Nodup
  direct : ∀ c ∈ g.candidates, c.addr.isDirect = true
  seen : ∀ c ∈ g.candidates, c.addr.ap ∈ g.seen

theorem Gather.Apart.snoc (h : g.Apart) (c : DualEndpointCandidate) (oldestPing : MonoTime)
    (hd : c.addr.isDirect = true) (hn : c.addr.ap ∉ g.seen) :
    (⟨c.addr.ap :: g.seen, g.candidates ++ [c], oldestPing⟩ : Gather).Apart where
  nodup := nodup_map_concat h.nodup fun c' hc' heq => hn (heq ▸ h.seen c' hc')
  direct := forall_mem_concat.2 ⟨h.direct, hd⟩
  seen := forall_mem_concat.2 ⟨fun c' hc' => mem_cons_of_mem _ (h.seen c' hc'), mem_cons_self⟩

theorem Gather.Apart.addCandidate (h : g.Apart) (addr : EpAddr) (state : Option EndpointState) :
    (de.addCandidate m g addr state).Apart := by
  by_cases hseen : addr.isDirect = false ∨ addr.ap ∈ g.seen
  · rw [addCandidate_of_seen hseen]
    exact h
  rw [not_or, Bool.not_eq_false] at hseen
  rw [addCandidate_of_new hseen.1 hseen.2]
  cases state with
  | none => exact h.snoc (de.bareCandidate m addr) _ hseen.1 hseen.2
  | some st =>
    dsimp only
    split_ifs
    · exact ⟨h.nodup, h.direct, fun c hc => mem_cons_of_mem _ (h.seen c hc)⟩
    · exact h.snoc (de.stateCandidate m addr st) _ hseen.1 hseen.2

/-- The candidates of two rounds are the same up to their order. -/
structure Gather.Same (g g' : Gather) : Prop where
  seen : ∀ ap, ap ∈ g.seen ↔ ap ∈ g'.seen
  candidates : g.candidates.Perm g'.candidates

/-- The body of the loop over the slots. -/
def addSlot (de : Endpoint) (m : Moment) (g : Gather) (slot : RemoteSlot) : Gather :=
  if slot.seen = 0 ∨ m.now - slot.seen > sessionActiveTimeout then g
  else de.addCandidate m g slot.addr (de.endpointState.lookup slot.addr.ap)

/-- Every direct address of `endpointState` has been looked at. -/
def Covered (de : Endpoint) (g : Gather) : Prop :=
  ∀ ap ∈ de.endpointState, IsDirectAP ap = true → ap ∈ g.seen

theorem isDirectAP_of_isDirect (h : addr.isDirect = true) : IsDirectAP addr.ap = true := by
  simp only [EpAddr.isDirect, Bool.and_eq_true] at h
  simp only [IsDirectAP, EpAddr.isDirect, Bool.and_eq_true]
  exact ⟨h.1, by decide⟩

/-- A slot adds a candidate without a state, or none. -/
theorem addSlot_eq (hc : de.Covered g) (slot : RemoteSlot) :
    de.addSlot m g slot =
      if ¬(slot.seen = 0 ∨ m.now - slot.seen > sessionActiveTimeout) ∧
          slot.addr.isDirect = true ∧ slot.addr.ap ∉ g.seen then
        { g with
          seen := slot.addr.ap :: g.seen
          candidates := g.candidates ++ [de.bareCandidate m slot.addr] }
      else g := by
  unfold addSlot
  by_cases hstale : slot.seen = 0 ∨ m.now - slot.seen > sessionActiveTimeout
  · rw [if_pos hstale, if_neg fun h => h.1 hstale]
  rw [if_neg hstale]
  by_cases hseen : slot.addr.isDirect = false ∨ slot.addr.ap ∈ g.seen
  · rw [addCandidate_of_seen hseen, if_neg]
    rintro ⟨-, hd, hn⟩
    exact hseen.elim (fun h => by simp [h] at hd) hn
  rw [not_or, Bool.not_eq_false] at hseen
  rw [addCandidate_of_new hseen.1 hseen.2, if_pos ⟨hstale, hseen⟩]
  -- an address with a state has been looked at
  have hnone : de.endpointState.lookup slot.addr.ap = none := AList.lookup_eq_none.2 fun hmem =>
    hseen.2 (hc _ hmem (isDirectAP_of_isDirect hseen.1))
  rw [hnone]

/-- The same endpoint, with its states in another order. -/
def Reorder (de de' : Endpoint) : Prop :=
  ∃ states : GoMap AddrPort EndpointState, states.entries.Perm de.endpointState.entries ∧
    de' = { de with endpointState := states }

theorem foldl_addSlot (hbare : de'.bareCandidate m = de.bareCandidate m) (slots : List RemoteSlot)
    (hc : de.Covered g) (hc' : de'.Covered g') (h : g.Same g') :
    (slots.foldl (de.addSlot m) g).Same (slots.foldl (de'.addSlot m) g') ∧
      (slots.foldl (de.addSlot m) g).oldestPing = g.oldestPing ∧
      (slots.foldl (de'.addSlot m) g').oldestPing = g'.oldestPing ∧
      g.candidates.length ≤ (slots.foldl (de.addSlot m) g).candidates.length := by
  induction slots generalizing g g' with
  | nil => exact ⟨h, rfl, rfl, le_rfl⟩
  | cons slot slots ih =>
    rw [foldl_cons, foldl_cons, addSlot_eq hc, addSlot_eq hc', hbare]
    by_cases hnew : ¬(slot.seen = 0 ∨ m.now - slot.seen > sessionActiveTimeout) ∧
        slot.addr.isDirect = true ∧ slot.addr.ap ∉ g.seen
    · rw [if_pos hnew, if_pos (by rwa [← h.seen])]
      refine And.imp_right (And.imp_right (And.imp_right (le_trans ?_)))
        (ih (fun ap hap hd => mem_cons_of_mem _ (hc ap hap hd))
          (fun ap hap hd => mem_cons_of_mem _ (hc' ap hap hd))
          ⟨fun ap => ?_, h.candidates.append_right _⟩)
      · simp
      · rw [mem_cons, mem_cons, h.seen]
    · rw [if_neg hnew, if_neg (by rwa [← h.seen])]
      exact ih hc hc' h

/-- What is gathered before the slots are looked at. -/
def gathered (de : Endpoint) (m : Moment) : Gather := de.gatherStates m {} de.endpointState.entries

theorem covered_gathered : de.Covered (de.gathered m) := by
  intro ap hap hd
  obtain ⟨e, he, rfl⟩ := mem_map.1 hap
  refine mem_append_left _ (mem_reverse.2 (mem_map_of_mem ?_))
  exact mem_filter.2 ⟨he, hd⟩

/-- What is gathered in the end. -/
def gatheredAll (de : Endpoint) (m : Moment) : Gather :=
  de.sourcePathRemoteSlots.foldl (de.addSlot m) (de.gathered m)

theorem sourcePathDirectEndpointCandidatesLocked_eq :
    de.sourcePathDirectEndpointCandidatesLocked m =
      (sortCandidates (de.gatheredAll m).candidates, (de.gatheredAll m).oldestPing) := by
  unfold sourcePathDirectEndpointCandidatesLocked
  rw [foldl_addCandidate _ de.endpointState.nodupKeys (by simp)]
  rfl

theorem same_gathered (h : de.Reorder de') : (de.gathered m).Same (de'.gathered m) := by
  obtain ⟨states, hperm, rfl⟩ := h
  refine ⟨fun ap => ?_, (hperm.symm.filter _).map _⟩
  simp only [gathered, gatherStates, mem_append, mem_reverse]
  rw [((hperm.symm.filter _).map _).mem_iff]

theorem same_gatheredAll (h : de.Reorder de') : (de.gatheredAll m).Same (de'.gatheredAll m) := by
  have hsame := same_gathered (m := m) h
  have hslots : de'.sourcePathRemoteSlots = de.sourcePathRemoteSlots ∧
      de'.bareCandidate m = de.bareCandidate m := by
    obtain ⟨states, -, rfl⟩ := h
    exact ⟨rfl, rfl⟩
  rw [gatheredAll, gatheredAll, hslots.1]
  exact (foldl_addSlot hslots.2 _ covered_gathered covered_gathered hsame).1

theorem apart_gatheredAll (de : Endpoint) (m : Moment) : (de.gatheredAll m).Apart := by
  have hstates : (de.gathered m).Apart := by
    rw [gathered, ← foldl_addCandidate _ de.endpointState.nodupKeys (by simp)]
    exact List.foldlRecOn _ _ ⟨nodup_nil, by simp, by simp⟩ fun g h e _ => h.addCandidate _ _
  refine List.foldlRecOn _ _ hstates fun g h slot _ => ?_
  unfold addSlot
  split_ifs
  · exact h
  · exact h.addCandidate _ _

theorem Gather.Apart.eq_of_rank_eq (h : g.Apart) (ha : a ∈ g.candidates) (hb : b ∈ g.candidates)
    (hrank : a.rank = b.rank) : a = b := by
  have hvalid : ∀ c ∈ g.candidates, c.addr.ap.isValid = true := fun c hc => by
    have hdirect := h.direct c hc
    simp only [EpAddr.isDirect, Bool.and_eq_true] at hdirect
    exact hdirect.1.1
  have hap := AddrPort.string_injective (hvalid a ha) (hvalid b hb) (string_eq_of_rank_eq hrank)
  exact inj_on_of_nodup_map h.nodup ha hb hap

/-! ## The oldest ping -/

/-- The pings of the live states, in the order of the map. -/
def pings (de : Endpoint) (m : Moment) : List MonoTime :=
  (de.endpointState.entries.filter (Live m)).map (·.2.lastPing)

/-- The test of `needPing`. -/
def PingDue (m : Moment) (oldest : MonoTime) : Prop :=
  oldest = 0 ∨ m.now - oldest > wireguardPingInterval

theorem foldl_olderPing_mem (l : List MonoTime) (o : MonoTime) :
    l.foldl olderPing o = o ∨ l.foldl olderPing o ∈ l := by
  induction l generalizing o with
  | nil => exact .inl rfl
  | cons x l ih =>
    rw [foldl_cons]
    rcases ih (olderPing o x) with h | h
    · rw [h, olderPing]
      split_ifs
      · exact .inr mem_cons_self
      · exact .inl rfl
    · exact .inr (mem_cons_of_mem _ h)

theorem foldl_olderPing_zero_mem {l} (hne : l ≠ []) : l.foldl olderPing 0 ∈ l := by
  cases l with
  | nil => exact absurd rfl hne
  | cons x l =>
    exact mem_cons.2 (foldl_olderPing_mem l x)

/-- Without a zero the fold is the minimum. -/
theorem foldl_olderPing_le (l : List MonoTime) (o : MonoTime) (hl : (0 : MonoTime) ∉ l) :
    (o ≠ 0 → l.foldl olderPing o ≤ o) ∧ ∀ x ∈ l, l.foldl olderPing o ≤ x := by
  induction l generalizing o with
  | nil => exact ⟨fun _ => le_rfl, by simp⟩
  | cons x l ih =>
    rw [mem_cons, not_or] at hl
    rw [forall_mem_cons]
    obtain ⟨hle, hall⟩ := ih (olderPing o x) hl.2
    obtain ⟨ho, hx, hne⟩ : (o ≠ 0 → olderPing o x ≤ o) ∧ olderPing o x ≤ x ∧ olderPing o x ≠ 0 := by
      unfold olderPing
      split_ifs with hox
      · exact ⟨fun hne => (hox.resolve_left hne).le, le_rfl, Ne.symm hl.1⟩
      · rw [not_or, not_lt] at hox
        exact ⟨fun _ => le_rfl, hox.2, hox.1⟩
    exact ⟨fun h => (hle hne).trans (ho h), (hle hne).trans hx, hall⟩

theorem foldl_olderPing_neg (l : List MonoTime) (o : MonoTime) (h : o < 0 ∨ ∃ x ∈ l, x < 0) :
    l.foldl olderPing o < 0 := by
  induction l generalizing o with
  | nil => simpa using h
  | cons x l ih =>
    refine ih _ ?_
    by_cases hx : x < 0
    · left
      unfold olderPing
      split_ifs with hox
      · exact hx
      · exact (not_lt.1 (not_or.1 hox).2).trans_lt hx
    · rcases h with ho | ⟨y, hy, hneg⟩
      · left
        rw [olderPing, if_neg fun h => h.elim ho.ne fun hlt => hx (hlt.trans ho)]
        exact ho
      · rcases mem_cons.1 hy with rfl | hy
        · exact absurd hneg hx
        · exact .inr ⟨y, hy, hneg⟩

theorem oldestPing_gatheredAll : (de.gatheredAll m).oldestPing = (de.pings m).foldl olderPing 0 :=
  (foldl_addSlot rfl _ covered_gathered covered_gathered
    ⟨fun _ => Iff.rfl, .refl (de.gathered m).candidates⟩).2.1

theorem length_pings_le : (de.pings m).length ≤ (de.gatheredAll m).candidates.length := by
  refine le_trans ?_ (foldl_addSlot rfl _ covered_gathered covered_gathered
    ⟨fun _ => Iff.rfl, .refl (de.gathered m).candidates⟩).2.2.2
  simp [pings, gathered, gatherStates]

/-- Among the live addresses one was never pinged and another one was lately. -/
structure MixedPings (de : Endpoint) (m : Moment) : Prop where
  nonneg : ∀ x ∈ de.pings m, 0 ≤ x
  never : (0 : MonoTime) ∈ de.pings m
  lately : ∃ x ∈ de.pings m, ¬ PingDue m x

variable {o : MonoTime}

theorem pingDue_of_neg (ho : o < 0) : PingDue m o := by
  right
  have hnow : wireguardPingInterval ≤ m.now := by
    change (5 * 1000000000 : Int) ≤ (m.elapsed : Int) + 2 ^ 55
    omega
  exact hnow.trans_lt (by linarith)

/-- Unless the pings are mixed, their order does not matter. -/
theorem pingDue_iff_of_perm {l l' : List MonoTime} (hperm : l.Perm l')
    (h : ¬((∀ x ∈ l, 0 ≤ x) ∧ (0 : MonoTime) ∈ l ∧ ∃ x ∈ l, ¬ PingDue m x)) :
    PingDue m (l.foldl olderPing 0) ↔ PingDue m (l'.foldl olderPing 0) := by
  by_cases hneg : ∃ x ∈ l, x < 0
  · exact iff_of_true (pingDue_of_neg (foldl_olderPing_neg l 0 (.inr hneg)))
      (pingDue_of_neg (foldl_olderPing_neg l' 0 (.inr (by simpa only [hperm.mem_iff] using hneg))))
  by_cases hzero : (0 : MonoTime) ∈ l
  · -- every ping is due, and the oldest is one of them
    have hdue : ∀ x ∈ l, PingDue m x := by
      intro x hx
      by_contra hnot
      exact h ⟨fun y hy => not_lt.1 fun hlt => hneg ⟨y, hy, hlt⟩, hzero, x, hx, hnot⟩
    refine iff_of_true ?_ ?_
    · exact (foldl_olderPing_mem l 0).elim .inl (hdue _)
    · exact (foldl_olderPing_mem l' 0).elim .inl fun hmem => hdue _ (hperm.mem_iff.2 hmem)
  · -- both are the least ping
    have hzero' : (0 : MonoTime) ∉ l' := fun hmem => hzero (hperm.mem_iff.2 hmem)
    have hle := (foldl_olderPing_le l 0 hzero).2
    have hle' := (foldl_olderPing_le l' 0 hzero').2
    have heq : l.foldl olderPing 0 = l'.foldl olderPing 0 := by
      by_cases hnil : l = []
      · subst hnil
        rw [nil_perm.1 hperm]
      · have hnil' : l' ≠ [] := fun h' => hnil (perm_nil.1 (h' ▸ hperm))
        exact (hle _ (hperm.mem_iff.2 (foldl_olderPing_zero_mem hnil'))).antisymm
          (hle' _ (hperm.mem_iff.1 (foldl_olderPing_zero_mem hnil)))
    rw [heq]

/-! ## Both together -/

/-- `dualEndpointAddrsForSendLocked` after the candidates have been gathered. -/
def answer (de : Endpoint) (m : Moment) (candidates : List DualEndpointCandidate)
    (oldestPing : MonoTime) : Endpoint × List EpAddr × Bool :=
  match sortCandidates candidates with
  | [] => (de, [], false)
  | best :: rest =>
    let needPing := candidates.length > 1 ∧
      (oldestPing = 0 ∨ m.now - oldestPing > wireguardPingInterval)
    (de.assignBest best m.now, ((best :: rest).take 2).map DualEndpointCandidate.addr, needPing)

theorem dualEndpointAddrsForSendLocked_eq :
    de.dualEndpointAddrsForSendLocked m =
      de.answer m (sortCandidates (de.gatheredAll m).candidates)
        ((de.pings m).foldl olderPing 0) := by
  unfold dualEndpointAddrsForSendLocked
  rw [sourcePathDirectEndpointCandidatesLocked_eq, oldestPing_gatheredAll]
  rfl

theorem needPing_answer (de : Endpoint) (candidates : List DualEndpointCandidate)
    (oldestPing : MonoTime) :
    (de.answer m candidates oldestPing).2.2 = true ↔
      1 < candidates.length ∧ PingDue m oldestPing := by
  have hperm := perm_insertionSort (compareDualEndpointCandidate · · ≤ 0) candidates
  change (sortCandidates candidates).Perm candidates at hperm
  unfold answer
  cases hsort : sortCandidates candidates with
  | nil =>
    rw [hsort] at hperm
    simp [nil_perm.1 hperm]
  | cons best rest => exact decide_eq_true_iff

theorem sortCandidates_eq_of_reorder (h : de.Reorder de') :
    sortCandidates (de'.gatheredAll m).candidates = sortCandidates (de.gatheredAll m).candidates :=
  (ranksBy_compareDualEndpointCandidate.insertionSort_eq_of_perm (same_gatheredAll h).candidates
    fun _ ha _ hb hrank => (de.apart_gatheredAll m).eq_of_rank_eq ha hb hrank).symm

/-- The addresses and the best address are the same for every order. -/
theorem answer_of_reorder (h : de.Reorder de') (candidates : List DualEndpointCandidate)
    (o o' : MonoTime) :
    (de'.answer m candidates o').2.1 = (de.answer m candidates o).2.1 ∧
      (de'.answer m candidates o').1.bestAddr = (de.answer m candidates o).1.bestAddr := by
  obtain ⟨states, -, rfl⟩ := h
  unfold answer
  cases sortCandidates candidates with
  | nil | cons best rest => exact ⟨rfl, rfl⟩

theorem pings_perm_of_reorder (h : de.Reorder de') : (de.pings m).Perm (de'.pings m) := by
  obtain ⟨states, hperm, rfl⟩ := h
  exact (hperm.symm.filter _).map _

theorem olderPing_zero (h : 0 ≤ o) : olderPing o 0 = 0 :=
  if_pos (h.eq_or_lt.imp Eq.symm id)

theorem olderPing_nonneg {x : MonoTime} (ho : 0 ≤ o) (hx : 0 ≤ x) : 0 ≤ olderPing o x := by
  unfold olderPing
  split_ifs
  · exact hx
  · exact ho

/-- Any order of the states is one of an endpoint. -/
theorem exists_reorder {es : List ((_ : AddrPort) × EndpointState)}
    (h : es.Perm de.endpointState.entries) :
    ∃ de', de.Reorder de' ∧ de'.pings m = (es.filter (Live m)).map (·.2.lastPing) :=
  ⟨_, ⟨⟨es, (perm_nodupKeys h).2 de.endpointState.nodupKeys⟩, h, rfl⟩, rfl⟩

/-- Of mixed pings either kind can come last. -/
theorem MixedPings.exists_reorders (h : de.MixedPings m) :
    ∃ de₁ de₂, de.Reorder de₁ ∧ de.Reorder de₂ ∧ 2 ≤ (de.pings m).length ∧
      PingDue m ((de₁.pings m).foldl olderPing 0) ∧
      ¬ PingDue m ((de₂.pings m).foldl olderPing 0) := by
  obtain ⟨hnonneg, hnever, x, hx, hlately⟩ := h
  obtain ⟨e, he, hezero⟩ := mem_map.1 hnever
  obtain ⟨f, hf, rfl⟩ := mem_map.1 hx
  rw [mem_filter] at he hf
  have hne : f ≠ e := by
    rintro rfl
    exact hlately (.inl hezero)
  -- the two states are moved to the end of the map
  obtain ⟨rest, hrest⟩ : ∃ rest, (rest ++ [e, f]).Perm de.endpointState.entries := by
    refine ⟨(de.endpointState.entries.erase e).erase f, perm_append_comm.trans ?_⟩
    exact ((perm_cons_erase ((mem_erase_of_ne hne).2 hf.1)).symm.cons e).trans
      (perm_cons_erase he.1).symm
  obtain ⟨de₂, h₂, hpings₂⟩ := exists_reorder (m := m) hrest
  obtain ⟨de₁, h₁, hpings₁⟩ := exists_reorder (m := m)
    (((List.Perm.swap e f []).append_left rest).trans hrest)
  simp only [filter_append, filter_cons, he.2, hf.2, if_true, map_append,
    map_cons, hezero] at hpings₁ hpings₂
  have hlen := (pings_perm_of_reorder (m := m) h₂).length_eq
  have hfirst : 0 ≤ ((rest.filter (Live m)).map (·.2.lastPing)).foldl olderPing 0 := by
    rcases foldl_olderPing_mem ((rest.filter (Live m)).map (·.2.lastPing)) 0 with h0 | hmem
    · rw [h0]
    · refine hnonneg _ ((pings_perm_of_reorder h₂).mem_iff.2 ?_)
      rw [hpings₂]
      exact mem_append_left _ hmem
  refine ⟨de₁, de₂, h₁, h₂, ?_, ?_, ?_⟩
  · rw [hlen, hpings₂]
    simp
  · rw [hpings₁, foldl_append, foldl_cons, foldl_cons,
      olderPing_zero (olderPing_nonneg hfirst (hnonneg _ hx))]
    exact .inl rfl
  · rw [hpings₂, foldl_append, foldl_cons, olderPing_zero hfirst]
    exact hlately

/-- **The result does not depend on the order of the map** exactly if the pings are not
mixed. -/
theorem dualEndpointAddrs_order_iff (de : Endpoint) (m : Moment) :
    (∀ de', de.Reorder de' →
      (de'.dualEndpointAddrsForSendLocked m).2 = (de.dualEndpointAddrsForSendLocked m).2 ∧
      (de'.dualEndpointAddrsForSendLocked m).1.bestAddr =
        (de.dualEndpointAddrsForSendLocked m).1.bestAddr) ↔ ¬ de.MixedPings m := by
  constructor
  · intro hall hmixed
    obtain ⟨de₁, de₂, h₁, h₂, hlen, hdue, hnot⟩ := hmixed.exists_reorders
    have hlen' : ∀ {de'}, de.Reorder de' →
        1 < (sortCandidates (de'.gatheredAll m).candidates).length := by
      intro de' h'
      rw [sortCandidates, length_insertionSort]
      exact hlen.trans ((pings_perm_of_reorder h').length_eq.le.trans length_pings_le)
    have hneed := (hall de₁ h₁).1.trans (hall de₂ h₂).1.symm
    rw [dualEndpointAddrsForSendLocked_eq, dualEndpointAddrsForSendLocked_eq] at hneed
    have htrue := (needPing_answer de₁ _ _).2 ⟨hlen' h₁, hdue⟩
    rw [hneed, needPing_answer] at htrue
    exact hnot htrue.2
  · intro hnot de' h
    obtain ⟨haddrs, hbest⟩ := answer_of_reorder (m := m) h
      (sortCandidates (de.gatheredAll m).candidates) ((de.pings m).foldl olderPing 0)
      ((de'.pings m).foldl olderPing 0)
    rw [dualEndpointAddrsForSendLocked_eq, dualEndpointAddrsForSendLocked_eq,
      sortCandidates_eq_of_reorder h]
    refine ⟨Prod.ext haddrs (Bool.eq_iff_iff.2 ?_), hbest⟩
    rw [needPing_answer, needPing_answer]
    refine and_congr_right fun _ => (pingDue_iff_of_perm (pings_perm_of_reorder h) ?_).symm
    rintro ⟨hnonneg, hnever, hlately⟩
    exact hnot ⟨hnonneg, hnever, hlately⟩

/-- The two states of an endpoint, in the given order; one of the addresses was pinged a
second ago. -/
def twoStates (pingedFirst : Bool) : Endpoint :=
  let pinged : AddrPort × EndpointState :=
    (⟨.v4 0x01020304#32, 41641⟩, { lastPing := 9 * second + 2 ^ 55 })
  let never : AddrPort × EndpointState := (⟨.v4 0x01020305#32, 41641⟩, {})
  { endpointState :=
      if pingedFirst then (AList.singleton never.1 never.2).insert pinged.1 pinged.2
      else (AList.singleton pinged.1 pinged.2).insert never.1 never.2 }

/-- Whether to ping depends on which state comes first. -/
theorem needPing_depends_on_order :
    (twoStates true).endpointState.entries.Perm (twoStates false).endpointState.entries ∧
      ((twoStates true).dualEndpointAddrsForSendLocked { elapsed := 10000000000 }).2.2 = true ∧
      ((twoStates false).dualEndpointAddrsForSendLocked { elapsed := 10000000000 }).2.2 =
        false := by
  refine ⟨List.Perm.swap _ _ _, ?_, ?_⟩ <;> decide

end Endpoint

end Multiport.Magicsock

import Multiport.Tka.ActiveChain

/-!
# Opening an authority

`computeActiveChain` collects a candidate chain for every head, keeps one oldest AUM,
and follows the primary chain from there.  `ActiveChain` says what that amounts to for
the set of stored AUMs, and `computeActiveChain_eq_ok_iff` that the code computes it.

The AUM that was active before only helps when the heads of its tree are properly
below it: a candidate is marked when the walk back from its head *moves* to that AUM,
and of the marks of one tree the one of the head with the greatest hash is kept.
-/

namespace Multiport.Tka

open Lib List Mem Linked

variable {C : Crypto} {σ : Type} {K : Chonk C σ} {s : σ} {N : Set AUM} {L : Option AUMHash}
  {n k : Nat} {t r : AUM} {cs : List Chain} {c c' : Chain}

/-! ## Candidate chains -/

variable (C) in
/-- The walk back from `t` moves to the AUM with hash `L`. -/
def PassesThrough (N : Set AUM) (L : Option AUMHash) (t : AUM) : Prop :=
  ∃ j b, Steps ((forkRule C).Up N) (j + 1) t b ∧ L = some (C.hash b)

variable (C) in
/-- `r` is the oldest AUM of the chain of `t`. -/
def OldestOf (N : Set AUM) (t r : AUM) : Prop :=
  (∃ k, Steps ((forkRule C).Up N) k t r) ∧ (forkRule C).Oldest N r

theorem OldestOf.unique (hN : Set.InjOn C.hash N) {r' : AUM} (h : OldestOf C N t r)
    (h' : OldestOf C N t r') : r = r' := by
  obtain ⟨⟨k, hk⟩, hold⟩ := h
  obtain ⟨⟨k', hk'⟩, hold'⟩ := h'
  exact (hk'.final_unique (functional_up hN) hold' hk hold).2

theorem OldestOf.of_steps (hN : Set.InjOn C.hash N) {b : AUM} (h : OldestOf C N t r)
    (hb : Steps ((forkRule C).Up N) k t b) : OldestOf C N b r := by
  obtain ⟨⟨m, hm⟩, hold⟩ := h
  exact ⟨⟨_, (hm.to_final (functional_up hN) hold hb).2⟩, hold⟩

variable (C) in
/-- The candidate that is computed for the head `t`. -/
structure Candidate (N : Set AUM) (L : Option AUMHash) (n : Nat) (t : AUM) (c : Chain) : Prop where
  head_eq : c.head = t
  steps : ∃ k < n, Steps ((forkRule C).Up N) k t c.oldest
  oldest : (forkRule C).Oldest N c.oldest
  active_iff : c.chainsThroughActive = true ↔ PassesThrough C N L t

theorem Candidate.oldestOf (h : Candidate C N L n t c) : OldestOf C N t c.oldest :=
  let ⟨k, _, hk⟩ := h.steps
  ⟨⟨k, hk⟩, h.oldest⟩

variable (K) in
/-- The heads in the order of their hashes. -/
def sortedHeads (s : σ) : List AUM := (K.heads s).insertionSort fun a b => C.hash a ≤ C.hash b

theorem pairwise_sortedHeads : (sortedHeads K s).Pairwise fun a b => C.hash a ≤ C.hash b := by
  exact pairwise_insertionSort _ _

section

variable (hs : K.Consistent s)

include hs

theorem climb_eq_some_iff : climb K s L c = some c' ↔
    ∃ p, (forkRule C).Up (K.stored s) c.oldest p ∧ c.moveTo C L p = c' := by
  simp only [climb, Option.map_eq_some_iff, Option.bind_eq_some_iff, Chonk.aum_eq_some_iff hs]
  constructor
  · rintro ⟨p, ⟨_, hp, hmem, rfl⟩, hc'⟩
    exact ⟨p, ⟨hmem, hp⟩, hc'⟩
  · rintro ⟨p, ⟨hmem, hp⟩, hc'⟩
    exact ⟨p, ⟨_, hp, hmem, rfl⟩, hc'⟩

theorem climb_eq_none_iff : climb K s L c = none ↔ (forkRule C).Oldest (K.stored s) c.oldest := by
  rw [Option.eq_none_iff_forall_ne_some]
  constructor
  · exact fun h p hp => h _ ((climb_eq_some_iff hs).2 ⟨p, hp, rfl⟩)
  · intro h c' hc'
    obtain ⟨p, hp, -⟩ := (climb_eq_some_iff hs).1 hc'
    exact h p hp

/-- What some rounds do to one candidate. -/
theorem of_steps_climb (h : Steps (fun a b => climb K s L a = some b) k c c') :
    Steps ((forkRule C).Up (K.stored s)) k c.oldest c'.oldest ∧ c'.head = c.head ∧
      (c'.chainsThroughActive = true ↔ c.chainsThroughActive = true ∨
        ∃ j < k, ∃ b, Steps ((forkRule C).Up (K.stored s)) (j + 1) c.oldest b ∧
          L = some (C.hash b)) := by
  induction h with
  | zero => exact ⟨.zero _, rfl, by simp⟩
  | @succ k c d c' hcd _ ih =>
    obtain ⟨p, hup, rfl⟩ := (climb_eq_some_iff hs).1 hcd
    obtain ⟨hsteps, hhead, hact⟩ := ih
    refine ⟨.succ hup hsteps, hhead, ?_⟩
    rw [hact, Chain.moveTo, Bool.or_eq_true, beq_iff_eq, or_assoc]
    refine or_congr_right ?_
    constructor
    · rintro (hL | ⟨j, hj, b, hb, hL⟩)
      · exact ⟨0, Nat.succ_pos k, p, .single hup, hL⟩
      · exact ⟨j + 1, Nat.succ_lt_succ hj, b, .succ hup hb, hL⟩
    · rintro ⟨j, hj, b, hb, hL⟩
      obtain - | ⟨hcb, hb⟩ := hb
      obtain rfl := up_unique (K.injOn_stored s) hup hcb
      cases j with
      | zero => cases hb; exact .inl hL
      | succ j => exact .inr ⟨j, Nat.lt_of_succ_lt_succ hj, b, hb, hL⟩

theorem exists_steps_climb (h : Steps ((forkRule C).Up (K.stored s)) k t r) (hc : c.oldest = t) :
    ∃ c', Steps (fun a b => climb K s L a = some b) k c c' ∧ c'.oldest = r := by
  induction h generalizing c with
  | zero => exact ⟨c, .zero c, hc⟩
  | succ hup _ ih =>
    subst hc
    obtain ⟨c', hc', hr⟩ := ih (c := c.moveTo C L _) rfl
    exact ⟨c', .succ ((climb_eq_some_iff hs).2 ⟨_, hup, rfl⟩) hc', hr⟩

/-- **The end of a candidate's rounds is the candidate of its head.** -/
theorem endsWithin_climb_iff :
    EndsWithin (climb K s L) n { oldest := t, head := t } c ↔ Candidate C (K.stored s) L n t c := by
  have hactive : ∀ {k c}, Steps (fun a b => climb K s L a = some b) k
      { oldest := t, head := t } c → (forkRule C).Oldest (K.stored s) c.oldest →
      c.head = t ∧ (c.chainsThroughActive = true ↔ PassesThrough C (K.stored s) L t) := by
    intro k c hsteps hold
    obtain ⟨hup, hhead, hact⟩ := of_steps_climb hs hsteps
    refine ⟨hhead, hact.trans ?_⟩
    simp only [Bool.false_eq_true, false_or]
    constructor
    · rintro ⟨j, -, b, hb, hL⟩
      exact ⟨j, b, hb, hL⟩
    · rintro ⟨j, b, hb, hL⟩
      exact ⟨j, (hup.to_final (functional_up (K.injOn_stored s)) hold hb).1, b, hb, hL⟩
  constructor
  · rintro ⟨k, hk, hsteps, hend⟩
    have hold := (climb_eq_none_iff hs).1 hend
    obtain ⟨hhead, hact⟩ := hactive hsteps hold
    exact ⟨hhead, ⟨k, hk, (of_steps_climb hs hsteps).1⟩, hold, hact⟩
  · rintro ⟨hhead, ⟨k, hk, hup⟩, hold, hact⟩
    obtain ⟨d, hd, hdold⟩ := exists_steps_climb (L := L) hs hup
      (c := { oldest := t, head := t }) rfl
    rw [← hdold] at hold
    obtain ⟨hdhead, hdact⟩ := hactive hd hold
    obtain rfl : d = c := by
      rw [Chain.mk.injEq]
      exact ⟨hdold, hdhead.trans hhead.symm, Bool.eq_iff_iff.2 (hdact.trans hact.symm)⟩
    exact ⟨k, hk, hd, (climb_eq_none_iff hs).2 hold⟩

theorem mem_sortedHeads :
    t ∈ sortedHeads K s ↔ t ∈ K.stored s ∧ (forkRule C).Tip (K.stored s) t := by
  rw [sortedHeads, mem_insertionSort, mem_heads_iff hs]

/-- **`computeChainCandidates` returns the candidates of all heads.** -/
theorem computeChainCandidates_eq_ok_iff : computeChainCandidates K s L n = .ok cs ↔
      0 < n ∧ Forall₂ (Candidate C (K.stored s) L n) (sortedHeads K s) cs := by
  unfold computeChainCandidates
  rw [← sortedHeads]
  have h : ∀ cs, walkAll (climb K s L) n
      ((sortedHeads K s).map fun head => { oldest := head, head := head : Chain }) = some cs ↔
      0 < n ∧ Forall₂ (Candidate C (K.stored s) L n) (sortedHeads K s) cs := by
    intro cs
    rw [walkAll_eq_some_iff, forall₂_map_left_iff]
    simp only [endsWithin_climb_iff hs]
  rw [← h]
  dsimp only
  split
  next hw => simp [hw]
  next hw => simp [hw]

end

/-! ## Selecting the oldest AUM -/

variable (C) in
/-- `r` is the oldest AUM the authority starts from: the only one, or the one whose tree
has its last mark set, that of the head with the greatest hash. -/
def Selected (N : Set AUM) (L : Option AUMHash) (r : AUM) : Prop :=
  (∃ t ∈ N, (forkRule C).Tip N t ∧ OldestOf C N t r) ∧
    ((∀ t ∈ N, (forkRule C).Tip N t → OldestOf C N t r) ∨
      ∃ t ∈ N, (forkRule C).Tip N t ∧ OldestOf C N t r ∧ PassesThrough C N L t ∧
        ∀ t' ∈ N, (forkRule C).Tip N t' → OldestOf C N t' r → C.hash t' ≤ C.hash t)

variable (C) in
/-- The list of candidates of a set of AUMs. -/
structure Candidates (N : Set AUM) (L : Option AUMHash) (n : Nat) (cs : List Chain) : Prop where
  exists_mem : ∀ t ∈ N, (forkRule C).Tip N t → ∃ c ∈ cs, Candidate C N L n t c
  candidate : ∀ c ∈ cs, c.head ∈ N ∧ (forkRule C).Tip N c.head ∧ Candidate C N L n c.head c
  sorted : cs.Pairwise fun c d => (C.hash c.head).toNat ≤ (C.hash d.head).toNat

theorem candidates_of_forall₂ (hs : K.Consistent s)
    (h : Forall₂ (Candidate C (K.stored s) L n) (sortedHeads K s) cs) :
    Candidates C (K.stored s) L n cs where
  exists_mem t ht htip := exists_mem_of_forall₂ h ((mem_sortedHeads hs).2 ⟨ht, htip⟩)
  candidate c hc := by
    obtain ⟨t, ht, hcand⟩ := exists_mem_of_forall₂ (P := flip (Candidate C (K.stored s) L n))
      h.flip hc
    obtain rfl := hcand.head_eq
    exact ⟨((mem_sortedHeads hs).1 ht).1, ((mem_sortedHeads hs).1 ht).2, hcand⟩
  sorted := by
    have hmap : sortedHeads K s = cs.map Chain.head := by
      rw [← forall₂_eq_eq_eq, forall₂_map_right_iff]
      exact h.imp fun _ _ hc => hc.head_eq.symm
    have := pairwise_sortedHeads (K := K) (s := s)
    rw [hmap, pairwise_map] at this
    exact this

theorem lookup_ancestors (h : AUMHash) : (ancestors C cs).lookup h =
    ((cs.filter fun c => C.hash c.oldest = h).getLast?).map Chain.chainsThroughActive :=
  GoMap.lookup_foldl_insert_last _ _ _ _

variable {h : AUMHash}

theorem mem_keys_ancestors : h ∈ (ancestors C cs).keys ↔ ∃ c ∈ cs, C.hash c.oldest = h := by
  rw [GoMap.mem_keys_iff, ← Option.isSome_iff_exists, lookup_ancestors]
  simp

namespace Candidates

variable (hcs : Candidates C N L n cs)

include hcs

theorem oldest_mem (hc : c ∈ cs) : c.oldest ∈ N := by
  obtain ⟨hmem, -, hcand⟩ := hcs.candidate c hc
  obtain ⟨k, -, hk⟩ := hcand.steps
  exact mem_of_steps_up hk hmem

variable (hN : Set.InjOn C.hash N)

include hN

/-- The candidate of a head whose oldest AUM is known. -/
theorem exists_mem_of_oldestOf (ht : t ∈ N) (htip : (forkRule C).Tip N t) (hr : OldestOf C N t r) :
    ∃ c ∈ cs, c.head = t ∧ c.oldest = r := by
  obtain ⟨c, hc, hcand⟩ := hcs.exists_mem t ht htip
  exact ⟨c, hc, hcand.head_eq, hcand.oldestOf.unique hN hr⟩

/-- The mark that is kept for an oldest AUM is that of its head with the greatest hash. -/
theorem lookup_eq_true_iff (hr : r ∈ N) : (ancestors C cs).lookup (C.hash r) = some true ↔
      ∃ t ∈ N, (forkRule C).Tip N t ∧ OldestOf C N t r ∧ PassesThrough C N L t ∧
        ∀ t' ∈ N, (forkRule C).Tip N t' → OldestOf C N t' r → C.hash t' ≤ C.hash t := by
  have holdest : ∀ d ∈ cs, C.hash d.oldest = C.hash r → d.oldest = r :=
    fun d hd h => hN (hcs.oldest_mem hd) hr h
  rw [lookup_ancestors, Option.map_eq_some_iff]
  constructor
  · rintro ⟨c, hlast, hact⟩
    obtain ⟨hc, hold, hgreatest⟩ := le_of_getLast?_filter hcs.sorted hlast
    obtain ⟨hmem, htip, hcand⟩ := hcs.candidate c hc
    have hcr : c.oldest = r := holdest c hc (of_decide_eq_true hold)
    refine ⟨c.head, hmem, htip, hcr ▸ hcand.oldestOf, hcand.active_iff.1 hact, ?_⟩
    intro t' ht' htip' hr'
    obtain ⟨d, hd, rfl, rfl⟩ := hcs.exists_mem_of_oldestOf hN ht' htip' hr'
    exact hgreatest d hd (decide_eq_true rfl)
  · rintro ⟨t, ht, htip, htr, hpass, hgreatest⟩
    obtain ⟨c, hc, rfl, rfl⟩ := hcs.exists_mem_of_oldestOf hN ht htip htr
    obtain ⟨d, hd⟩ : ∃ d, (cs.filter fun d => C.hash d.oldest = C.hash c.oldest).getLast? =
        some d := by
      rw [← Option.isSome_iff_exists, getLast?_isSome, ne_eq, filter_eq_nil_iff]
      simp only [decide_eq_true_eq, not_forall, not_not]
      exact ⟨c, hc, rfl⟩
    obtain ⟨hdc, hold, hdgreatest⟩ := le_of_getLast?_filter hcs.sorted hd
    obtain ⟨hdmem, hdtip, hdcand⟩ := hcs.candidate d hdc
    have hdr : OldestOf C N d.head c.oldest :=
      holdest d hdc (of_decide_eq_true hold) ▸ hdcand.oldestOf
    -- two heads with the greatest hash are one
    have heq : d.head = c.head := by
      refine hN hdmem ht (BitVec.eq_of_toNat_eq ?_)
      exact le_antisymm (hgreatest _ hdmem hdtip hdr) (hdgreatest c hc (decide_eq_true rfl))
    exact ⟨d, hd, hdcand.active_iff.2 (heq ▸ hpass)⟩

/-- Only one tree can hold the AUM that was active before. -/
theorem active_unique {h' : AUMHash} (hh : (ancestors C cs).lookup h = some true)
    (hh' : (ancestors C cs).lookup h' = some true) : h = h' := by
  have key : ∀ {h}, (ancestors C cs).lookup h = some true → ∃ r b, C.hash r = h ∧ b ∈ N ∧
      OldestOf C N b r ∧ L = some (C.hash b) := by
    intro h hh
    rw [lookup_ancestors, Option.map_eq_some_iff] at hh
    obtain ⟨c, hlast, hact⟩ := hh
    obtain ⟨hc, hold, -⟩ := le_of_getLast?_filter hcs.sorted hlast
    obtain ⟨hmem, -, hcand⟩ := hcs.candidate c hc
    obtain ⟨j, b, hb, hL⟩ := hcand.active_iff.1 hact
    exact ⟨c.oldest, b, of_decide_eq_true hold, mem_of_steps_up hb hmem,
      hcand.oldestOf.of_steps hN hb, hL⟩
  obtain ⟨r, b, rfl, hb, hbr, hL⟩ := key hh
  obtain ⟨r', b', rfl, hb', hbr', hL'⟩ := key hh'
  obtain rfl : b = b' := hN hb hb' (Option.mem_unique hL hL')
  rw [hbr.unique hN hbr']

/-- **`computeActiveAncestor` returns the selected oldest AUM.** -/
theorem computeActiveAncestor_eq_ok_iff : computeActiveAncestor C cs = .ok h ↔
      ∃ r ∈ N, C.hash r = h ∧ Selected C N L r := by
  have hkey : ∀ {r}, Selected C N L r → C.hash r ∈ (ancestors C cs).keys := by
    rintro r ⟨⟨t, ht, htip, htr⟩, -⟩
    obtain ⟨c, hc, -, rfl⟩ := hcs.exists_mem_of_oldestOf hN ht htip htr
    exact mem_keys_ancestors.2 ⟨c, hc, rfl⟩
  have hselected : ∀ {c}, c ∈ cs → ∃ t ∈ N, (forkRule C).Tip N t ∧ OldestOf C N t c.oldest :=
    fun {c} hc => ⟨c.head, (hcs.candidate c hc).1, (hcs.candidate c hc).2.1,
      (hcs.candidate c hc).2.2.oldestOf⟩
  have hfind : ∀ {e}, (ancestors C cs).entries.find? (fun e => e.2) = some e →
      (ancestors C cs).lookup e.1 = some true := by
    intro e he
    have he2 : e.2 = true := by simpa using find?_some he
    rw [GoMap.lookup_eq_some_iff, ← he2]
    exact mem_of_find?_eq_some he
  unfold computeActiveAncestor
  split
  next e he =>
    have hkeys : ∀ g, g ∈ (ancestors C cs).keys ↔ g = e.1 := by
      rw [AList.keys, he]
      simp
    constructor
    · intro h'
      cases h'
      obtain ⟨c, hc, hce⟩ := mem_keys_ancestors.1 ((hkeys e.1).2 rfl)
      refine ⟨c.oldest, hcs.oldest_mem hc, hce, hselected hc, .inl fun t ht htip => ?_⟩
      obtain ⟨d, hd, hdcand⟩ := hcs.exists_mem t ht htip
      have hde := (hkeys _).1 (mem_keys_ancestors.2 ⟨d, hd, rfl⟩)
      rw [hN (hcs.oldest_mem hc) (hcs.oldest_mem hd) (hce.trans hde.symm)]
      exact hdcand.oldestOf
    · rintro ⟨r, -, rfl, hsel⟩
      rw [(hkeys _).1 (hkey hsel)]
  next hne =>
    constructor
    · intro h'
      split at h'
      next e he =>
        cases h'
        have hlook := hfind he
        obtain ⟨c, hc, hce⟩ := mem_keys_ancestors.1 (GoMap.mem_keys_iff.2 ⟨_, hlook⟩)
        rw [← hce] at hlook
        exact ⟨c.oldest, hcs.oldest_mem hc, hce, hselected hc,
          .inr ((hcs.lookup_eq_true_iff hN (hcs.oldest_mem hc)).1 hlook)⟩
      next => cases h'
    · rintro ⟨r, hr, rfl, hsel⟩
      rcases hsel.2 with hall | hgreatest
      · -- all chains have one oldest AUM, so the map has one entry
        exfalso
        have hsub : ∀ g ∈ (ancestors C cs).keys, g = C.hash r := by
          intro g hg
          obtain ⟨c, hc, rfl⟩ := mem_keys_ancestors.1 hg
          obtain ⟨hmem, htip, hcand⟩ := hcs.candidate c hc
          rw [hcand.oldestOf.unique hN (hall _ hmem htip)]
        have hle := (ancestors C cs).keys_nodup
        have hpos := length_pos_of_mem (hkey hsel)
        rw [eq_replicate_of_mem hsub, nodup_replicate] at hle
        rw [AList.keys, keys, length_map] at hle hpos
        obtain ⟨e, he⟩ := length_eq_one_iff.1 (le_antisymm hle hpos)
        exact hne e he
      · have hlook := (hcs.lookup_eq_true_iff hN hr).2 hgreatest
        cases hf : (ancestors C cs).entries.find? fun e => e.2 with
        | none =>
          rw [find?_eq_none] at hf
          exact absurd rfl (hf _ (GoMap.lookup_eq_some_iff.1 hlook))
        | some e =>
          exact congrArg _ (hcs.active_unique hN (hfind hf) hlook)

end Candidates

/-! ## The active chain -/

variable (C) in
/-- The authority `a` is on the active chain of the AUMs in `N`. -/
structure ActiveChain (N : Set AUM) (L : Option AUMHash) (n : Nat) (a : Authority) : Prop where
  within : ∀ t ∈ N, (forkRule C).Tip N t →
    ∃ k < n, ∃ r, Steps ((forkRule C).Up N) k t r ∧ (forkRule C).Oldest N r
  selected : Selected C N L a.oldestAncestor
  primary : ∃ st₀, StateAt C N 0 a.oldestAncestor st₀ ∧
    ∃ k < n, Steps ((forkRule C).Descend N) k (a.oldestAncestor, st₀) (a.head, a.state) ∧
      (forkRule C).Tip N a.head

theorem Selected.oldest (h : Selected C N L r) : (forkRule C).Oldest N r :=
  let ⟨_, _, _, hr⟩ := h.1
  hr.2

theorem Selected.mem (h : Selected C N L r) : r ∈ N := by
  obtain ⟨⟨t, ht, -, ⟨k, hk⟩, -⟩, -⟩ := h
  exact mem_of_steps_up hk ht

theorem Candidates.within (hcs : Candidates C N L n cs) (ht : t ∈ N) (htip : (forkRule C).Tip N t) :
    ∃ k < n, ∃ r, Steps ((forkRule C).Up N) k t r ∧ (forkRule C).Oldest N r := by
  obtain ⟨c, -, hcand⟩ := hcs.exists_mem t ht htip
  obtain ⟨k, hk, hsteps⟩ := hcand.steps
  exact ⟨k, hk, c.oldest, hsteps, hcand.oldest⟩

open Classical in
theorem exists_candidates (hs : K.Consistent s) (hn : 0 < n)
    (h : ∀ t ∈ K.stored s, (forkRule C).Tip (K.stored s) t → ∃ k < n, ∃ r,
      Steps ((forkRule C).Up (K.stored s)) k t r ∧ (forkRule C).Oldest (K.stored s) r) :
    ∃ cs, computeChainCandidates K s L n = .ok cs ∧ Candidates C (K.stored s) L n cs := by
  obtain ⟨cs, hcs⟩ : ∃ cs, Forall₂ (Candidate C (K.stored s) L n) (sortedHeads K s) cs := by
    refine exists_forall₂ fun t ht => ?_
    obtain ⟨hmem, htip⟩ := (mem_sortedHeads hs).1 ht
    obtain ⟨k, hk, r, hr, hold⟩ := h t hmem htip
    exact ⟨⟨r, t, decide (PassesThrough C (K.stored s) L t)⟩, rfl, ⟨k, hk, hr⟩, hold, by simp⟩
  exact ⟨cs, (computeChainCandidates_eq_ok_iff hs).2 ⟨hn, hcs⟩, candidates_of_forall₂ hs hcs⟩

theorem computeStateAt_oldest_iff (hs : K.Consistent s) (hr : r ∈ K.stored s)
    (hold : (forkRule C).Oldest (K.stored s) r) {st : State} :
    computeStateAt K s n (C.hash r) = .ok st ↔ 0 < n ∧ StateAt C (K.stored s) 0 r st := by
  constructor
  · intro h
    obtain ⟨a, ha, m, hm, hst⟩ := computeStateAt_sound hs h
    obtain rfl := K.injOn_stored s hst.mem hr ((Chonk.aum_eq_some_iff hs).1 ha).2
    obtain ⟨b, hb⟩ := hst.exists_steps
    obtain ⟨rfl, -⟩ := Steps.length_zero_of_final hold hb
    exact ⟨by omega, hst⟩
  · rintro ⟨hn, hst⟩
    cases hst with
    | base _ hstart heq =>
      unfold computeStateAt
      rw [(Chonk.aum_eq_some_iff hs).2 ⟨hr, rfl⟩]
      refine bind_eq_ok_iff.2 ⟨(r, []), walk_eq_ok_iff.2 ⟨0, by omega, .zero _,
        backStep_stops_iff.2 hstart⟩, bind_eq_ok_iff.2 ⟨st, heq,
        bind_eq_ok_iff.2 ⟨(r, st), ?_, ?_⟩⟩⟩
      · unfold fastForwardWithAdvancer
        rw [lastAUMHash_baseState heq]
        simp only [(Chonk.aum_eq_some_iff hs).2 ⟨hr, rfl⟩]
        exact walk_eq_ok_iff.2 ⟨0, hn, .zero _, by simp [forwardStep]⟩
      · simp [lastAUMHash_baseState heq]

/-- **`computeActiveChain` finds the active chain, if there is one.** -/
theorem computeActiveChain_eq_ok_iff (hs : K.Consistent s) {a : Authority} :
    computeActiveChain K s L n = .ok a ↔ ActiveChain C (K.stored s) L n a := by
  have hinj := K.injOn_stored s
  have hff : ∀ {r st₀ y}, StateAt C (K.stored s) 0 r st₀ →
      (fastForward K s n st₀ (fun _ => false) = .ok y ↔ ∃ k < n,
        Steps ((forkRule C).Descend (K.stored s)) k (r, st₀) y ∧
        (forkRule C).Tip (K.stored s) y.1) := by
    intro r st₀ y hst
    rw [fastForward_eq_ok_iff hs hst.mem hst.lastAUMHash]
    simp
  constructor
  · intro h
    obtain ⟨cs, hcs, h⟩ := bind_eq_ok_iff.1 h
    have hcand := candidates_of_forall₂ hs ((computeChainCandidates_eq_ok_iff hs).1 hcs).2
    split at h
    · cases h
    obtain ⟨oldest, hold, h⟩ := bind_eq_ok_iff.1 h
    obtain ⟨r, hr, rfl, hsel⟩ := (hcand.computeActiveAncestor_eq_ok_iff hinj).1 hold
    rw [(Chonk.aum_eq_some_iff hs).2 ⟨hr, rfl⟩] at h
    obtain ⟨st₀, hst, h⟩ := bind_eq_ok_iff.1 h
    obtain ⟨y, hy, h⟩ := bind_eq_ok_iff.1 h
    cases h
    have hst := ((computeStateAt_oldest_iff hs hr hsel.oldest).1 (mapError_eq_ok_iff.1 hst)).2
    exact ⟨fun t ht htip => hcand.within ht htip, hsel, st₀, hst,
      (hff hst).1 (mapError_eq_ok_iff.1 hy)⟩
  · rintro ⟨hwithin, hsel, st₀, hst, k, hk, hsteps, htip⟩
    obtain ⟨cs, hcs, hcand⟩ := exists_candidates (L := L) hs (by omega) hwithin
    refine bind_eq_ok_iff.2 ⟨cs, hcs, ?_⟩
    have hne : cs ≠ [] := by
      obtain ⟨⟨t, ht, htip, -⟩, -⟩ := hsel
      obtain ⟨c, hc, -⟩ := hcand.exists_mem t ht htip
      exact ne_nil_of_mem hc
    rw [if_neg hne]
    refine bind_eq_ok_iff.2 ⟨C.hash a.oldestAncestor,
      (hcand.computeActiveAncestor_eq_ok_iff hinj).2 ⟨_, hsel.mem, rfl, hsel⟩, ?_⟩
    rw [(Chonk.aum_eq_some_iff hs).2 ⟨hsel.mem, rfl⟩]
    refine bind_eq_ok_iff.2 ⟨st₀, mapError_eq_ok_iff.2
      ((computeStateAt_oldest_iff hs hsel.mem hsel.oldest).2 ⟨by omega, hst⟩), ?_⟩
    exact bind_eq_ok_iff.2 ⟨(a.head, a.state), mapError_eq_ok_iff.2
      ((hff hst).2 ⟨k, hk, hsteps, htip⟩), rfl⟩

/-! ## Storages with several trees -/

variable (C) in
/-- The primary chain from `r` has a state at its end, in fewer than `n` steps. -/
def HasPrimary (N : Set AUM) (n : Nat) (r : AUM) : Prop :=
  ∃ st₀, StateAt C N 0 r st₀ ∧
    ∃ k < n, ∃ y, Steps ((forkRule C).Descend N) k (r, st₀) y ∧ (forkRule C).Tip N y.1

variable (C) in
/-- Of the heads in the tree of `l`, the one with the greatest hash is properly below `l`. -/
def LastHeadBelow (N : Set AUM) (l : AUM) : Prop :=
  ∃ t ∈ N, (forkRule C).Tip N t ∧ (∃ j, Steps ((forkRule C).Up N) (j + 1) t l) ∧
    ∀ t' ∈ N, (forkRule C).Tip N t' → (∃ r, OldestOf C N l r ∧ OldestOf C N t' r) →
      C.hash t' ≤ C.hash t

variable (C) in
/-- The chain of the authority is in the tree of `l`. -/
def Authority.InTreeOf (a : Authority) (N : Set AUM) (l : AUM) : Prop :=
  OldestOf C N l a.oldestAncestor ∧ OldestOf C N a.head a.oldestAncestor

/-! ### A small authority

One key, a digest that appends one hexadecimal digit to the digest of the parent, and
signatures that always verify: enough to write down trees of AUMs. -/

/-- The digit: the votes of a no-op, the number of disablement values of a checkpoint. -/
def sampleDigit (a : AUM) : Nat :=
  a.votes.getD 0 + (a.state.map fun st => st.disablementValues.length).getD 0

def sampleCrypto : Crypto where
  hash a := BitVec.ofNat 256 (beNat (a.prevAUMHash.getD []) * 16 + sampleDigit a)
  verify _ _ _ := true

def sampleState (digit : Nat) : State where
  disablementValues := (range digit).map fun i => replicate 32 (BitVec.ofNat 8 i)
  keys := [{ publicBytes := replicate 32 7 }]

def sampleSignature : Signature := ⟨replicate 32 7, replicate 64 0⟩

def sampleCheckpoint (prev : Option AUMHash) (digit : Nat) : AUM where
  messageKind := .checkpoint
  prevAUMHash := prev.map hashBytes
  state := some (sampleState digit)
  signatures := [sampleSignature]

def sampleNoOp (prev : AUMHash) (digit : Nat) : AUM where
  messageKind := .noOp
  prevAUMHash := some (hashBytes prev)
  votes := some digit
  signatures := [sampleSignature]

/-- A storage with the AUMs `us` and the last active ancestor `h`. -/
def sampleMem (us : List AUM) (h : AUMHash) : Mem :=
  (chonk sampleCrypto).setLastActiveAncestor ((chonk sampleCrypto).commitVerifiedAUMs {} 0 us) h

variable {us : List AUM}

theorem consistent_sampleMem (h : AUMHash) (hus : sampleCrypto.CollisionFree us) :
    (chonk sampleCrypto).Consistent (sampleMem us h) :=
  consistent_of_list 0 h hus

theorem stored_sampleMem (h : AUMHash) (hus : sampleCrypto.CollisionFree us) :
    (chonk sampleCrypto).stored (sampleMem us h) = {a | a ∈ us} :=
  stored_of_list 0 h hus

theorem injOn_sampleMem {ws : List AUM} (h : AUMHash)
    (hus : sampleCrypto.CollisionFree (us ++ ws)) :
    Set.InjOn sampleCrypto.hash ((chonk sampleCrypto).stored (sampleMem us h) ∪ {u | u ∈ ws}) := by
  have hus' : sampleCrypto.CollisionFree us := fun a ha b hb =>
    hus a (mem_append_left _ ha) b (mem_append_left _ hb)
  rw [stored_sampleMem h hus']
  exact fun a ha b hb => hus a (mem_append.2 ha) b (mem_append.2 hb)

/-- **With several trees, `Open` finds the tree of the last active ancestor exactly when
the head of that tree with the greatest hash is properly below it**, and besides every
chain is within the scan limit and the primary chain of the tree has a state. -/
theorem open_inTreeOf_iff (hs : K.Consistent s) {l : AUM} (hl : l ∈ K.stored s)
    (hlast : K.lastActiveAncestor s = some (C.hash l))
    (hseveral : ∃ t t' r r', t ∈ K.stored s ∧ (forkRule C).Tip (K.stored s) t ∧
      t' ∈ K.stored s ∧ (forkRule C).Tip (K.stored s) t' ∧
      OldestOf C (K.stored s) t r ∧ OldestOf C (K.stored s) t' r' ∧ r ≠ r') :
    (∃ a, openAuthority K s = .ok a ∧ a.InTreeOf C (K.stored s) l) ↔
      LastHeadBelow C (K.stored s) l ∧
      (∀ t ∈ K.stored s, (forkRule C).Tip (K.stored s) t → ∃ k < maxScanIterations, ∃ r,
        Steps ((forkRule C).Up (K.stored s)) k t r ∧ (forkRule C).Oldest (K.stored s) r) ∧
      ∃ r, OldestOf C (K.stored s) l r ∧ HasPrimary C (K.stored s) maxScanIterations r := by
  have hinj := K.injOn_stored s
  simp only [openAuthority, hlast, computeActiveChain_eq_ok_iff hs]
  constructor
  · rintro ⟨a, ⟨hwithin, ⟨-, hsel⟩, st₀, hst, k, hk, hsteps, htip⟩, hold, -⟩
    refine ⟨?_, hwithin, a.oldestAncestor, hold, st₀, hst, k, hk, _, hsteps, htip⟩
    rcases hsel with hall | ⟨t, ht, htip, -, ⟨j, b, hb, hL⟩, hgreatest⟩
    · obtain ⟨t, t', r, r', ht, htip, ht', htip', hr, hr', hne⟩ := hseveral
      exact absurd ((hr.unique hinj (hall t ht htip)).trans
        ((hall t' ht' htip').unique hinj hr')) hne
    · obtain rfl : b = l :=
        hinj (mem_of_steps_up hb ht) hl (Option.some.inj hL).symm
      refine ⟨t, ht, htip, ⟨j, hb⟩, fun t' ht' htip' ⟨r, hlr, htr⟩ => ?_⟩
      exact hgreatest t' ht' htip' (hlr.unique hinj hold ▸ htr)
  · rintro ⟨⟨t, ht, htip, ⟨j, hj⟩, hgreatest⟩, hwithin, r, hr, st₀, hst, k, hk, y, hsteps, hytip⟩
    have htr : OldestOf C (K.stored s) t r :=
      let ⟨⟨m, hm⟩, hold⟩ := hr
      ⟨⟨_, hj.append hm⟩, hold⟩
    refine ⟨⟨y.1, r, y.2⟩, ⟨hwithin, ⟨⟨t, ht, htip, htr⟩, .inr ⟨t, ht, htip, htr,
      ⟨j, l, hj, rfl⟩, ?_⟩⟩, st₀, hst, k, hk, hsteps, hytip⟩, hr, ?_⟩
    · exact fun t' ht' htip' hr' => hgreatest t' ht' htip' ⟨r, hr, hr'⟩
    · exact ⟨⟨k, ForkRule.steps_up_of_descend hsteps hst.mem⟩, hr.2⟩

/-- Two trees: a checkpoint with a fork below it, and another checkpoint. -/
def forkAndCheckpoint : List AUM :=
  [sampleCheckpoint none 1, sampleNoOp 0x1 3, sampleNoOp 0x1 4, sampleCheckpoint none 2]

theorem open_inTreeOf_fork :
    ∃ a, openAuthority (chonk sampleCrypto) (sampleMem forkAndCheckpoint 0x1) = .ok a ∧
      LastHeadBelow sampleCrypto ((chonk sampleCrypto).stored (sampleMem forkAndCheckpoint 0x1))
        (sampleCheckpoint none 1) := by
  have hs : (chonk sampleCrypto).Consistent (sampleMem forkAndCheckpoint 0x1) :=
    consistent_sampleMem 0x1 (by decide)
  have hself : ∀ a : AUM, a.parent = none → OldestOf sampleCrypto
      ((chonk sampleCrypto).stored (sampleMem forkAndCheckpoint 0x1)) a a :=
    fun a ha => ⟨⟨0, .zero a⟩, oldest_of_parent_none ha⟩
  have hhead : OldestOf sampleCrypto ((chonk sampleCrypto).stored (sampleMem forkAndCheckpoint 0x1))
      (sampleNoOp 0x1 3) (sampleCheckpoint none 1) :=
    ⟨⟨1, .single ⟨by decide, by decide⟩⟩, oldest_of_parent_none rfl⟩
  have hopen : openAuthority (chonk sampleCrypto) (sampleMem forkAndCheckpoint 0x1) =
      .ok ⟨sampleNoOp 0x1 3, sampleCheckpoint none 1,
        { sampleState 1 with lastAUMHash := some 0x13 }⟩ := by decide
  refine ⟨_, hopen, ((open_inTreeOf_iff hs (by decide) rfl ⟨sampleNoOp 0x1 3,
    sampleCheckpoint none 2, _, _, by decide, (tip_iff_childAUMs hs).2 (by decide), by decide,
    (tip_iff_childAUMs hs).2 (by decide), hhead, hself _ rfl, by decide⟩).1
    ⟨_, hopen, hself _ rfl, hhead⟩).1⟩

/-- Two checkpoints without a child: the last active ancestor is a head itself, so no walk
moves to it, and `Open` does not find its tree. -/
theorem open_fails_at_single_checkpoint :
    (chonk sampleCrypto).lastActiveAncestor
      (sampleMem [sampleCheckpoint none 1, sampleCheckpoint none 2] 0x1) =
        some (sampleCrypto.hash (sampleCheckpoint none 1)) ∧
    openAuthority (chonk sampleCrypto)
      (sampleMem [sampleCheckpoint none 1, sampleCheckpoint none 2] 0x1) =
        .error .multipleDistinctChains := by
  decide

end Multiport.Tka

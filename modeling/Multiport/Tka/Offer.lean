import Multiport.Tka.Sync

/-!
# The ancestors in an offer

`SyncOffer` walks from the head to the oldest ancestor, lists the AUMs at the distances 4, 16,
64 and 256 from the head, and adds the oldest ancestor after the walk.  A round looks at the
distance before it looks for the end of the chain.  At one of these distances the oldest
ancestor is therefore listed by the walk too.
-/

namespace Multiport.Tka

open Lib List Nat

variable {C : Crypto} {σ : Type} {K : Chonk C σ} {s : σ} {a : Authority} {chain : Nat → AUM}
  {d i j n : Nat}

variable (K) in
/-- The storage holds the chain of `a`, which leads in `d` steps back from the head to the
oldest ancestor. -/
structure HoldsChain (s : σ) (a : Authority) (chain : Nat → AUM) (d : Nat) : Prop where
  head : a.headHash = C.hash (chain 0)
  aum : ∀ k ≤ d, K.aum s (C.hash (chain k)) = some (chain k)
  prev : ∀ k < d, (chain k).prevAUMHash = some (hashBytes (C.hash (chain (k + 1))))
  oldest : chain d = a.oldestAncestor
  first : ∀ k < d, chain k ≠ a.oldestAncestor

/-- The distances at which the walk lists an AUM, after `j` of them. -/
def sampledFrom (j : Nat) : List Nat := (List.range' j (4 - j)).map fun k => 4 ^ (k + 1)

theorem sampledFrom_eq_cons (hj : j < 4) : sampledFrom j = 4 ^ (j + 1) :: sampledFrom (j + 1) := by
  rw [sampledFrom, show 4 - j = 4 - (j + 1) + 1 by omega, List.range'_succ]
  rfl

/-- The fifth distance is beyond the last round. -/
theorem le_pow_iff : maxSyncHeadIntersectionIter ≤ 4 ^ (j + 1) ↔ 4 ≤ j := by
  constructor
  · intro hle
    by_contra hlt
    have hpow : 4 ^ (j + 1) ≤ 4 ^ 4 := Nat.pow_le_pow_right (by decide) (by omega)
    exact absurd (hle.trans hpow) (by decide)
  · intro hj
    have hpow : 4 ^ 5 ≤ 4 ^ (j + 1) := Nat.pow_le_pow_right (by decide) (by omega)
    exact le_trans (by decide) hpow

theorem filter_sampledFrom (h : d < 4 ^ (j + 1)) : (sampledFrom j).filter (· ≤ d) = [] := by
  rw [filter_eq_nil_iff]
  intro k hk
  obtain ⟨m, hm, rfl⟩ := mem_map.1 hk
  have hle : 4 ^ (j + 1) ≤ 4 ^ (m + 1) :=
    Nat.pow_le_pow_right (by decide) (Nat.succ_le_succ (mem_range'_1.1 hm).1)
  simpa using lt_of_lt_of_le h hle

namespace HoldsChain

variable (h : HoldsChain K s a chain d)

include h

theorem copyPrev (hi : i < d) (curs : AUMHash) :
    (chain i).copyPrev curs = C.hash (chain (i + 1)) := by
  rw [AUM.copyPrev, h.prev i hi, Option.getD_some, copyHash_hashBytes]

theorem eq_of_hash (hi : i ≤ d) (hj : j ≤ d) (heq : C.hash (chain i) = C.hash (chain j)) :
    chain i = chain j :=
  Option.mem_unique (h.aum i hi) (heq ▸ h.aum j hj)

/-- No AUM is twice on the chain: the walk would come back to it, and not to the oldest
ancestor. -/
theorem hash_injOn (hij : i < j) (hj : j ≤ d) : C.hash (chain i) ≠ C.hash (chain j) := by
  intro heq
  have hshift : ∀ k, j + k ≤ d → C.hash (chain (i + k)) = C.hash (chain (j + k)) := by
    intro k
    induction k with
    | zero => exact fun _ => heq
    | succ k ih =>
      intro hk
      have hsame := h.eq_of_hash (by omega) (by omega) (ih (by omega))
      rw [← add_assoc, ← add_assoc, ← h.copyPrev (by omega) 0, ← h.copyPrev (by omega) 0,
        hsame]
  have hend := h.eq_of_hash (by omega) (by omega) (hshift (d - j) (by omega))
  rw [Nat.add_sub_cancel' hj, h.oldest] at hend
  exact h.first _ (by omega) hend

theorem hash_eq_oldest_iff (hi : i ≤ d) : C.hash (chain i) = C.hash a.oldestAncestor ↔ i = d := by
  rw [← h.oldest]
  refine ⟨fun heq => ?_, fun hid => by rw [hid]⟩
  by_contra hne
  exact h.hash_injOn (lt_of_le_of_ne hi hne) le_rfl heq

/-- The walk from round `i` on, when `j` AUMs are listed. -/
theorem sampleAncestors_eq (hn : i + n = maxSyncHeadIntersectionIter) (hi : i ≤ d)
    (hij : i ≤ 4 ^ (j + 1)) :
    sampleAncestors K s (C.hash a.oldestAncestor) n i (4 ^ (j + 1)) (C.hash (chain i)) =
      ((sampledFrom j).filter (· ≤ d)).map fun k => C.hash (chain k) := by
  induction n generalizing i j with
  | zero =>
    have hj : 4 ≤ j := le_pow_iff.1 (by omega)
    rw [sampleAncestors, sampledFrom, Nat.sub_eq_zero_of_le hj]
    rfl
  | succ n ih =>
    have hhit : (0 < i ∧ i % 4 ^ (j + 1) = 0) ↔ i = 4 ^ (j + 1) := by
      constructor
      · rintro ⟨hpos, hmod⟩
        exact le_antisymm hij (le_of_dvd hpos (dvd_of_mod_eq_zero hmod))
      · rintro rfl
        exact ⟨Nat.pow_pos (by decide), Nat.mod_self _⟩
    rw [sampleAncestors, h.aum i hi]
    simp only [hhit, h.hash_eq_oldest_iff hi]
    by_cases hit : i = 4 ^ (j + 1)
    · have hj : j < 4 := Nat.lt_of_not_le fun hge => absurd (le_pow_iff.2 hge) (by omega)
      have hskip : i <<< ancestorsSkipShift = 4 ^ (j + 1 + 1) := hit ▸ shiftLeft_eq _ _
      rw [if_pos hit, if_pos hit, sampledFrom_eq_cons hj, ← hit, filter_cons_of_pos (by simpa),
        map_cons, singleton_append]
      have hnext : i < 4 ^ (j + 1 + 1) := hit ▸ Nat.pow_lt_pow_succ (by decide)
      split
      next hid => rw [filter_sampledFrom (hid ▸ hnext), map_nil]
      next hid =>
        rw [h.copyPrev (by omega), hskip, ih (by omega) (by omega) hnext]
    · rw [if_neg hit, if_neg hit, nil_append]
      split
      next hid => rw [filter_sampledFrom (by omega), map_nil]
      next hid => rw [h.copyPrev (by omega), ih (by omega) (by omega) (by omega)]

theorem syncOffer_eq : (a.syncOffer K s).ancestors =
    ((sampledFrom 0).filter (· ≤ d)).map (fun k => C.hash (chain k)) ++
      [C.hash a.oldestAncestor] := by
  rw [← h.sampleAncestors_eq (zero_add _) (zero_le d) (zero_le _), ← h.head]
  rfl

/-- **The ancestors in an offer** are pairwise distinct, from newer to older AUMs of the chain
at the distances 4, 16, 64 and 256 from the head, with the oldest ancestor as the last of them,
**exactly if it is at none of these distances itself**. -/
theorem syncOffer_ancestors_iff :
    ((a.syncOffer K s).ancestors =
        ([4, 16, 64, 256].filter (· < d) ++ [d]).map (fun k => C.hash (chain k)) ∧
      chain d = a.oldestAncestor ∧
      ([4, 16, 64, 256].filter (· < d) ++ [d]).Pairwise (· < ·) ∧
      (a.syncOffer K s).ancestors.Nodup) ↔ d ∉ [4, 16, 64, 256] := by
  refine ⟨fun hlisted hd => ?_, fun hd => ?_⟩
  · have hnodup := hlisted.2.2.2
    rw [h.syncOffer_eq, ← h.oldest] at hnodup
    have hmem : d ∈ (sampledFrom 0).filter (· ≤ d) := mem_filter.2 ⟨hd, decide_eq_true le_rfl⟩
    exact nodup_append.1 hnodup |>.2.2 _ (mem_map_of_mem hmem) _ (mem_singleton_self _) rfl
  have hsorted : ([4, 16, 64, 256].filter (· < d) ++ [d]).Pairwise (· < ·) := by
    refine pairwise_append.2 ⟨List.Pairwise.filter _ (by decide), pairwise_singleton .., ?_⟩
    simp
  have heq : (a.syncOffer K s).ancestors =
      ([4, 16, 64, 256].filter (· < d) ++ [d]).map fun k => C.hash (chain k) := by
    rw [h.syncOffer_eq, map_append, map_singleton, h.oldest]
    congr 2
    refine filter_congr fun k hk => ?_
    have : k ≠ d := fun hkd => hd (hkd ▸ hk)
    simp only [decide_eq_decide]
    omega
  refine ⟨heq, h.oldest, hsorted, ?_⟩
  rw [heq, nodup_iff_pairwise_ne, pairwise_map]
  refine hsorted.imp_of_mem fun _ hj hij => h.hash_injOn hij ?_
  simp at hj
  omega

end HoldsChain

theorem holdsChain_longMem (hn : n < 2 ^ 256) : HoldsChain (Mem.chonk countCrypto) (longMem n)
    ⟨longAUM n, longAUM 0, longState n⟩ (fun k => longAUM (n - k)) n where
  head := (hash_longAUM n).symm
  aum k hk := by
    obtain ⟨hs, hstored⟩ := longMem_spec hn
    refine (Chonk.aum_eq_some_iff hs).2 ⟨?_, rfl⟩
    rw [hstored]
    exact ⟨n - k, sub_le n k, rfl⟩
  prev k hk := by
    rw [show n - k = n - (k + 1) + 1 by omega, hash_longAUM]
    rfl
  oldest := by rw [Nat.sub_self]
  first k hk heq := by
    have := hash_longAUM_inj (i := n - k) (j := 0) (by omega) (by decide) (congrArg _ heq)
    omega

/-- Five steps back, the oldest ancestor is listed once. -/
theorem syncOffer_ancestors_iff_five : ∃ a, (a : Authority).headHash = 5 ∧
    (a.syncOffer (Mem.chonk countCrypto) (longMem 5)).ancestors = [1, 0] := by
  have h := (holdsChain_longMem (n := 5) (by decide)).syncOffer_ancestors_iff
  exact ⟨_, rfl, (h.2 (by decide)).1.trans rfl⟩

/-- The oldest ancestor at the distance 4 is listed twice. -/
theorem exists_oldest_twice : ∃ a chain,
    HoldsChain (Mem.chonk countCrypto) (longMem 4) a chain 4 ∧
    (a.syncOffer (Mem.chonk countCrypto) (longMem 4)).ancestors =
      [countCrypto.hash a.oldestAncestor, countCrypto.hash a.oldestAncestor] :=
  have h := holdsChain_longMem (n := 4) (by decide)
  ⟨_, _, h, h.syncOffer_eq⟩

end Multiport.Tka

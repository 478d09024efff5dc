import Mathlib.Data.List.GetD
import Mathlib.Data.List.Perm.Basic
import Mathlib.Order.Lattice
import Mathlib.Order.Nat

/-!
# Binary heaps in a slice

The operations of Go's `container/heap` on a slice, for the order of a key.  The
children of position `i` are at `2 * i + 1` and `2 * i + 2`, and no element is
below a larger one.

`up` and `down` move one element that may be out of place.  What they need of the
rest, and what they make of it, is stated for the keys by position, as functions.
-/

namespace Multiport.Lib.Heap

open List

universe u v

/-- The position above. -/
def parent (i : Nat) : Nat := (i - 1) / 2

/-! ## Keys by position -/

section Keys

variable {K : Type v} [LinearOrder K]

/-- The keys after two positions were exchanged. -/
def exchange (f : Nat → K) (i j m : Nat) : K := if m = j then f i else if m = i then f j else f m

/-- No key before position `n` is below a larger one, leaving out `i`. -/
def OrderedBut (f : Nat → K) (n i : Nat) : Prop :=
  ∀ k, 0 < k → k < n → k ≠ i → f (parent k) ≤ f k

/-- No key before position `n` is below a larger one. -/
def Ordered (f : Nat → K) (n : Nat) : Prop := ∀ k, 0 < k → k < n → f (parent k) ≤ f k

/-- The keys below `i` are not smaller than the one above it. -/
def Around (f : Nat → K) (n i : Nat) : Prop :=
  0 < i → ∀ k, 0 < k → k < n → parent k = i → f (parent i) ≤ f k

/-- Only the key at `i` may be out of place. -/
structure Loose (f : Nat → K) (n i : Nat) : Prop where
  others : ∀ k, 0 < k → k < n → k ≠ i → parent k ≠ i → f (parent k) ≤ f k
  around : Around f n i

variable {f : Nat → K} {n i j : Nat}

theorem parent_lt (h : 0 < i) : parent i < i := by
  rw [parent]
  omega

theorem parent_eq_iff (h : 0 < j) : parent j = i ↔ j = 2 * i + 1 ∨ j = 2 * i + 2 := by
  rw [parent]
  omega

omit [LinearOrder K] in
theorem exchange_left (f : Nat → K) (i j : Nat) : exchange f i j i = f j := by
  rw [exchange]
  split
  next h => rw [h]
  · exact if_pos rfl

omit [LinearOrder K] in
theorem exchange_right (f : Nat → K) (i j : Nat) : exchange f i j j = f i := if_pos rfl

omit [LinearOrder K] in
theorem exchange_of_ne {m : Nat} (hi : m ≠ i) (hj : m ≠ j) : exchange f i j m = f m := by
  rw [exchange, if_neg hj, if_neg hi]

theorem Ordered.root_le (h : Ordered f n) {k : Nat} (hk : k < n) : f 0 ≤ f k := by
  induction k using Nat.strongRecOn with
  | ind k ih =>
    rcases Nat.eq_zero_or_pos k with rfl | hpos
    · exact le_rfl
    · have hlt := parent_lt hpos
      exact (ih (parent k) hlt (hlt.trans hk)).trans (h k hpos hk)

theorem Ordered.loose (h : Ordered f n) {g : Nat → K} (hg : ∀ k, k ≠ i → g k = f k) :
    Loose g n i where
  others k hpos hk hki hpi := by
    rw [hg k hki, hg _ hpi]
    exact h k hpos hk
  around hi k hpos hk hki := by
    have hlt : i < k := by
      rw [← hki]
      exact parent_lt hpos
    rw [hg k hlt.ne', hg _ (parent_lt hi).ne]
    calc f (parent i) ≤ f i := h i hi (hlt.trans hk)
      _ = f (parent k) := by rw [hki]
      _ ≤ f k := h k hpos hk

/-- A step of `up`: a key that is smaller than the one above it goes there. -/
theorem OrderedBut.up_step (h : OrderedBut f n j) (ha : Around f n j) (hj : 0 < j) (hjn : j < n)
    (hlt : f j < f (parent j)) :
    OrderedBut (exchange f (parent j) j) n (parent j) ∧
      Around (exchange f (parent j) j) n (parent j) := by
  have hpj := parent_lt hj
  refine ⟨fun k hpos hk hkp => ?_, fun hp k hpos hk hkp => ?_⟩
  · by_cases hkj : k = j
    · subst hkj
      rw [exchange_left, exchange_right]
      exact hlt.le
    rw [exchange_of_ne hkp hkj]
    by_cases hkpj : parent k = parent j
    · -- A sibling of the key that went up.
      rw [hkpj, exchange_left]
      have hsibling := h k hpos hk hkj
      rw [hkpj] at hsibling
      exact hlt.le.trans hsibling
    · by_cases hkc : parent k = j
      · rw [hkc, exchange_right]
        exact ha hj k hpos hk hkc
      · rw [exchange_of_ne hkpj hkc]
        exact h k hpos hk hkj
  · have habove := h (parent j) hp (hpj.trans hjn) hpj.ne
    have hpp := parent_lt hp
    rw [exchange_of_ne hpp.ne (hpp.trans hpj).ne]
    by_cases hkj : k = j
    · rw [hkj, exchange_right]
      exact habove
    · have hklt := parent_lt hpos
      rw [exchange_of_ne (by omega) hkj]
      have hsibling := h k hpos hk hkj
      rw [hkp] at hsibling
      exact habove.trans hsibling

/-- A step of `down`: a key that is larger than the smallest one below it goes there. -/
theorem Loose.down_step (h : Loose f n i) (hj : 0 < j) (hjn : j < n) (hpj : parent j = i)
    (hmin : ∀ k, 0 < k → k < n → parent k = i → f j ≤ f k) (hlt : f j < f i) :
    Loose (exchange f i j) n j ∧ exchange f i j (parent j) ≤ exchange f i j j := by
  have hij : i < j := by
    rw [← hpj]
    exact parent_lt hj
  refine ⟨⟨fun k hpos hk hkj hkc => ?_, fun _ k hpos hk hkc => ?_⟩, ?_⟩
  · by_cases hki : k = i
    · subst hki
      have hpk := parent_lt hpos
      rw [exchange_left, exchange_of_ne hpk.ne (by omega)]
      exact h.around hpos j hj hjn hpj
    · rw [exchange_of_ne hki hkj]
      by_cases hkp : parent k = i
      · rw [hkp, exchange_left]
        exact hmin k hpos hk hkp
      · rw [exchange_of_ne hkp hkc]
        exact h.others k hpos hk hki hkp
  · have hjk : j < k := by
      rw [← hkc]
      exact parent_lt hpos
    rw [hpj, exchange_left, exchange_of_ne (by omega) (by omega)]
    have hkj := h.others k hpos hk (by omega) (by omega)
    rwa [hkc] at hkj
  · rw [hpj, exchange_left, exchange_right]
    exact hlt.le

/-- `down` stops where no key below is smaller. -/
theorem Loose.orderedBut (h : Loose f n i) (hmin : ∀ k, 0 < k → k < n → parent k = i → f i ≤ f k) :
    OrderedBut f n i := by
  intro k hpos hk hki
  by_cases hkp : parent k = i
  · rw [hkp]
    exact hmin k hpos hk hkp
  · exact h.others k hpos hk hki hkp

end Keys

/-! ## The operations -/

section Operations

variable {α : Type u} [Inhabited α] {K : Type v} [LinearOrder K] (key : α → K)

variable (l : List α)

def keyAt (i : Nat) : K := key (l.getD i default)

/-- `h.Swap(i, j)`. -/
def swap (i j : Nat) : List α :=
  (l.set i (l.getD j default)).set j (l.getD i default)

/-- The loop of `up`.  The position gets smaller in every round. -/
def upLoop : Nat → List α → Nat → List α
  | 0, l, _ => l
  | fuel + 1, l, j =>
    let i := parent j
    if i = j ∨ ¬keyAt key l j < keyAt key l i then l else upLoop fuel (swap l i j) i

def up (j : Nat) : List α := upLoop key j l j

/-- The child of `i` that `down` looks at. -/
def smallerChild (i n : Nat) : Nat :=
  let j₁ := 2 * i + 1
  let j₂ := j₁ + 1
  if j₂ < n ∧ keyAt key l j₂ < keyAt key l j₁ then j₂ else j₁

/-- The loop of `down`, with the position where it ends.  The position grows in every round
and stays below `n`. -/
def downLoop (n : Nat) : Nat → List α → Nat → List α × Nat
  | 0, l, i => (l, i)
  | fuel + 1, l, i =>
    if n ≤ 2 * i + 1 then (l, i)
    else
      let j := smallerChild key l i n
      if ¬keyAt key l j < keyAt key l i then (l, i) else downLoop n fuel (swap l i j) j

def down (i₀ n : Nat) : List α × Bool :=
  let (l', i) := downLoop key n n l i₀
  (l', decide (i₀ < i))

def push (x : α) : List α := up key (l ++ [x]) l.length

/-- What `Pop` leaves. -/
def pop : List α :=
  let n := l.length - 1
  (down key (swap l 0 n) 0 n).1.dropLast

def fix (i : Nat) : List α :=
  let (l', moved) := down key l i l.length
  if moved then l' else up key l' i

def IsHeap : Prop := Ordered (keyAt key l) l.length

/-! ## What they do -/

variable {key} {l} {i j n fuel : Nat} {x : α}

omit [LinearOrder K] in
theorem keyAt_swap (key : α → K) (hi : i < l.length) (hj : j < l.length) :
    keyAt key (swap l i j) = exchange (keyAt key l) i j := by
  funext m
  simp only [keyAt, swap, exchange]
  by_cases hm : m = j
  · subst hm
    simp [hj]
  · by_cases hmi : m = i
    · subst hmi
      simp [hm, Ne.symm hm, hi]
    · simp [hm, hmi, Ne.symm hm, Ne.symm hmi]

@[simp] theorem length_swap (l : List α) (i j : Nat) : (swap l i j).length = l.length := by
  rw [swap, length_set, length_set]

theorem perm_swap (hi : i < l.length) (hj : j < l.length) : (swap l i j).Perm l := by
  rw [swap, getD_eq_getElem _ _ hi, getD_eq_getElem _ _ hj]
  exact set_set_perm hi hj

/-! ### Moving up -/

theorem perm_upLoop (key : α → K) (fuel : Nat) (hj : j < l.length) :
    (upLoop key fuel l j).Perm l := by
  induction fuel generalizing l j with
  | zero => exact .refl l
  | succ fuel ih =>
    rw [upLoop]
    split
    · exact .refl l
    · have hp : parent j < l.length := by
        rw [parent]
        omega
      exact (ih (by rwa [length_swap])).trans (perm_swap hp hj)

theorem isHeap_upLoop (hj : j < l.length) (hfuel : j ≤ fuel)
    (h : OrderedBut (keyAt key l) l.length j) (ha : Around (keyAt key l) l.length j) :
    IsHeap key (upLoop key fuel l j) := by
  induction fuel generalizing l j with
  | zero =>
    intro k hpos hk
    exact h k hpos hk (by omega)
  | succ fuel ih =>
    rw [upLoop]
    split
    next hstop =>
      intro k hpos hk
      by_cases hkj : k = j
      · subst hkj
        rcases hstop with hroot | hle
        · exact absurd (parent_lt hpos) (by omega)
        · exact not_lt.1 hle
      · exact h k hpos hk hkj
    next hgo =>
      obtain ⟨hne, hlt⟩ := not_or.1 hgo
      have hpos : 0 < j := by
        rcases Nat.eq_zero_or_pos j with rfl | hpos
        · exact absurd rfl hne
        · exact hpos
      have hp := parent_lt hpos
      obtain ⟨hbut, haround⟩ := h.up_step ha hpos hj (not_not.1 hlt)
      rw [← keyAt_swap key (hp.trans hj) hj] at hbut haround
      apply ih
      · rw [length_swap]
        exact hp.trans hj
      · omega
      · rwa [length_swap]
      · rwa [length_swap]

/-! ### Moving down -/

theorem smallerChild_spec (key : α → K) (l : List α) (h : 2 * i + 1 < n) :
    0 < smallerChild key l i n ∧ smallerChild key l i n < n ∧
      parent (smallerChild key l i n) = i ∧
      ∀ k, 0 < k → k < n → parent k = i → keyAt key l (smallerChild key l i n) ≤ keyAt key l k := by
  rw [smallerChild]
  split
  next hright =>
    refine ⟨by omega, hright.1, by rw [parent]; omega, fun k hpos hk hki => ?_⟩
    rcases (parent_eq_iff hpos).1 hki with rfl | rfl
    · exact hright.2.le
    · exact le_rfl
  next hleft =>
    refine ⟨by omega, h, by rw [parent]; omega, fun k hpos hk hki => ?_⟩
    rcases (parent_eq_iff hpos).1 hki with rfl | rfl
    · exact le_rfl
    · exact not_lt.1 fun hlt => hleft ⟨hk, hlt⟩

theorem perm_downLoop (key : α → K) (fuel : Nat) (hn : n ≤ l.length) :
    (downLoop key n fuel l i).1.Perm l ∧
      ∀ m, n ≤ m → (downLoop key n fuel l i).1.getD m default = l.getD m default := by
  induction fuel generalizing l i with
  | zero => exact ⟨.refl l, fun _ _ => rfl⟩
  | succ fuel ih =>
    rw [downLoop]
    split
    · exact ⟨.refl l, fun _ _ => rfl⟩
    next hchild =>
      obtain ⟨hpos, hlt, hparent, -⟩ := smallerChild_spec key l (not_le.1 hchild)
      dsimp only
      split
      · exact ⟨.refl l, fun _ _ => rfl⟩
      obtain ⟨hperm, hrest⟩ := ih (l := swap l i (smallerChild key l i n))
        (i := smallerChild key l i n) (by rwa [length_swap])
      refine ⟨hperm.trans (perm_swap (by omega) (by omega)), fun m hm => ?_⟩
      rw [hrest m hm]
      have hswap := congrFun (keyAt_swap id (l := l) (i := i)
        (j := smallerChild key l i n) (by omega) (by omega)) m
      rwa [exchange_of_ne (by omega) (by omega)] at hswap

/-- Either the element stays, and only it may be out of place, or it goes down to where it
belongs. -/
theorem ordered_downLoop (hn : n ≤ l.length) (hfuel : n ≤ i + fuel) (h : Loose (keyAt key l) n i) :
    downLoop key n fuel l i = (l, i) ∧ OrderedBut (keyAt key l) n i ∨
      i < (downLoop key n fuel l i).2 ∧ Ordered (keyAt key (downLoop key n fuel l i).1) n := by
  have hleaf (hle : n ≤ 2 * i + 1) : OrderedBut (keyAt key l) n i := by
    refine h.orderedBut fun k hpos hk hki => ?_
    have := (parent_eq_iff hpos).1 hki
    omega
  induction fuel generalizing l i with
  | zero => exact .inl ⟨rfl, hleaf (by omega)⟩
  | succ fuel ih =>
    rw [downLoop]
    split
    next hle => exact .inl ⟨rfl, hleaf hle⟩
    next hchild =>
      obtain ⟨hpos, hlt, hparent, hmin⟩ := smallerChild_spec key l (not_le.1 hchild)
      generalize smallerChild key l i n = j at hpos hlt hparent hmin ⊢
      have hij := parent_lt hpos
      rw [hparent] at hij
      dsimp only
      split
      next hstop =>
        refine .inl ⟨rfl, h.orderedBut fun k hk hkn hki => ?_⟩
        exact (not_lt.1 hstop).trans (hmin k hk hkn hki)
      next hgo =>
        right
        obtain ⟨hloose, habove⟩ := h.down_step hpos hlt hparent hmin (not_not.1 hgo)
        rw [← keyAt_swap key (by omega) (by omega)] at hloose habove
        have hnext := ih (by rwa [length_swap]) (by omega) hloose ?_
        · rcases hnext with ⟨heq, hbut⟩ | ⟨hmoved, hordered⟩
          · rw [heq]
            refine ⟨hij, fun k hk hkn => ?_⟩
            by_cases hkj : k = j
            · rw [hkj]
              exact habove
            · exact hbut k hk hkn hkj
          · exact ⟨hij.trans hmoved, hordered⟩
        · intro hle
          refine hloose.orderedBut fun k hk hkn hki => ?_
          have := (parent_eq_iff hk).1 hki
          omega

/-! ### Heaps -/

theorem IsHeap.head_le (h : IsHeap key l) {y : α} (hy : y ∈ l) :
    key (l.getD 0 default) ≤ key y := by
  obtain ⟨k, hk, rfl⟩ := mem_iff_getElem.1 hy
  have hle := h.root_le hk
  rwa [keyAt, keyAt, getD_eq_getElem _ _ hk] at hle

theorem IsHeap.nil : IsHeap key ([] : List α) := fun _ _ hk => absurd hk (Nat.not_lt_zero _)

/-- **`Push` adds the element to the heap.** -/
theorem IsHeap.push (h : IsHeap key l) (x : α) :
    IsHeap key (push key l x) ∧ (push key l x).Perm (x :: l) := by
  have hj : l.length < (l ++ [x]).length := by
    rw [length_append, length_singleton]
    omega
  have hkey (k : Nat) (hk : k < l.length) : keyAt key (l ++ [x]) k = keyAt key l k := by
    rw [keyAt, keyAt, getD_append _ _ _ _ hk]
  refine ⟨isHeap_upLoop hj le_rfl ?_ ?_, (perm_upLoop key _ hj).trans ?_⟩
  · intro k hpos hk hne
    rw [length_append, length_singleton] at hk
    have hp := parent_lt hpos
    rw [hkey k (by omega), hkey _ (by omega)]
    exact h k hpos (by omega)
  · intro _ k hpos hk hkp
    rw [length_append, length_singleton] at hk
    have hp := parent_lt hpos
    omega
  · exact perm_append_singleton x l

/-- With the last element at the front, only the front is out of order. -/
theorem IsHeap.loose_swap_last (h : IsHeap key l) (hn : l.length = n + 1) :
    Loose (keyAt key (swap l 0 n)) n 0 := by
  rw [keyAt_swap key (by omega) (by omega)]
  refine ⟨fun k hk hkn hk0 hp0 => ?_, fun h0 => absurd h0 (lt_irrefl 0)⟩
  have hp := parent_lt hk
  rw [exchange_of_ne hk0 (by omega), exchange_of_ne hp0 (by omega)]
  exact h k hk (by omega)

theorem isHeap_dropLast (hn : l.length = n + 1) (h : Ordered (keyAt key l) n) :
    IsHeap key l.dropLast := by
  intro k hk hkn
  rw [length_dropLast, hn] at hkn
  have hp := parent_lt hk
  have hkey (m : Nat) (hm : m < n) : keyAt key l.dropLast m = keyAt key l m := by
    rw [keyAt, keyAt, getD_eq_getElem?_getD, getD_eq_getElem?_getD,
      List.getElem?_dropLast, if_pos (by omega)]
  rw [hkey k hkn, hkey _ (by omega)]
  exact h k hk hkn

theorem perm_last_cons_dropLast (hn : l.length = n + 1) :
    (l.getD n default :: l.dropLast).Perm l := by
  have hne : l ≠ [] := length_pos_iff.1 (by omega)
  have hlast : l.getLast hne = l.getD n default := by
    rw [getLast_eq_getElem, getD_eq_getElem _ _ (by omega)]
    congr 1
    omega
  apply (perm_append_singleton _ _).symm.trans
  rw [← hlast, dropLast_append_getLast hne]

/-- **`Pop` takes the first element**, which has the smallest key. -/
theorem IsHeap.pop (h : IsHeap key l) (hne : l ≠ []) :
    IsHeap key (pop key l) ∧ (l.getD 0 default :: pop key l).Perm l := by
  have hpos := length_pos_iff.2 hne
  obtain ⟨n, hn⟩ : ∃ n, l.length = n + 1 := ⟨l.length - 1, by omega⟩
  have hlen : n ≤ (swap l 0 n).length := by
    rw [length_swap]
    omega
  have hordered : Ordered (keyAt key (downLoop key n n (swap l 0 n) 0).1) n := by
    rcases ordered_downLoop hlen (Nat.le_add_left _ _) (h.loose_swap_last hn) with
      ⟨heq, hbut⟩ | ⟨-, hordered⟩
    · rw [heq]
      exact fun k hk hkn => hbut k hk hkn hk.ne'
    · exact hordered
  obtain ⟨hperm, hrest⟩ := perm_downLoop key (i := 0) n hlen
  have hlast := hrest n le_rfl
  rw [Heap.pop, hn, Nat.add_sub_cancel, down]
  generalize (downLoop key n n (swap l 0 n) 0).1 = l' at hordered hperm hlast ⊢
  have hlen' : l'.length = n + 1 := by rw [hperm.length_eq, length_swap, hn]
  have hmin : l'.getD n default = l.getD 0 default := by
    have hid := congrFun (keyAt_swap id (l := l) (i := 0) (j := n) hpos (by omega)) n
    rw [exchange_right] at hid
    exact hlast.trans hid
  refine ⟨isHeap_dropLast hlen' hordered, ?_⟩
  rw [← hmin]
  exact (perm_last_cons_dropLast hlen').trans (hperm.trans (perm_swap hpos (by omega)))

/-- **`Fix` puts an element with a new key where it belongs.** -/
theorem IsHeap.fix (h : IsHeap key l) (hi : i < l.length) (x : α) :
    IsHeap key (fix key (l.set i x) i) ∧ (fix key (l.set i x) i).Perm (l.set i x) := by
  have hset (k : Nat) (hk : k ≠ i) : keyAt key (l.set i x) k = keyAt key l k := by
    rw [keyAt, keyAt, getD_eq_getElem?_getD, getD_eq_getElem?_getD,
      List.getElem?_set_ne hk.symm]
  have hloose : Loose (keyAt key (l.set i x)) (l.set i x).length i := by
    rw [length_set]
    exact Ordered.loose h hset
  have hperm := perm_downLoop key (i := i) (l.set i x).length (le_refl (l.set i x).length)
  rw [Heap.fix, down]
  rcases ordered_downLoop le_rfl (Nat.le_add_left _ _) hloose with ⟨heq, hbut⟩ | ⟨hmoved, hordered⟩
  · rw [heq]
    dsimp only
    rw [if_neg (by simp)]
    have hi' : i < (l.set i x).length := by rwa [length_set]
    exact ⟨isHeap_upLoop hi' le_rfl hbut hloose.around, perm_upLoop key _ hi'⟩
  · dsimp only
    rw [if_pos (decide_eq_true hmoved)]
    refine ⟨?_, hperm.1⟩
    rw [IsHeap, hperm.1.length_eq]
    exact hordered

end Operations

end Multiport.Lib.Heap

import Mathlib.Data.List.Sort
import Mathlib.Data.Prod.Lex
import Mathlib.Order.PiLex

/-!
# Comparators

A comparator of Go's `slices` package is negative, zero or positive.  One that looks at its
arguments level by level orders them by a key, the lexicographic product of the levels
(`RanksBy`), and whatever is sorted by it is determined by its elements up to ties.
-/

namespace Multiport.Lib

open List

variable {α β κ : Type*}

/-- A comparator orders its arguments by a key. -/
structure RanksBy [LinearOrder κ] (cmp : α → α → Int) (key : α → κ) : Prop where
  neg : ∀ a b, cmp a b < 0 ↔ key a < key b
  pos : ∀ a b, 0 < cmp a b ↔ key b < key a

/-- What `slices.SortFunc` requires of a comparator. -/
structure WeakOrder (cmp : α → α → Int) : Prop where
  swap : ∀ a b, cmp a b < 0 ↔ 0 < cmp b a
  trans : ∀ a b c, cmp a b ≤ 0 → cmp b c ≤ 0 → cmp a c ≤ 0

/-- What `slices.SortFunc` does: it sorts, provided the comparator is one. -/
structure SortsWith (cmp : α → α → Int) (sort : List α → List α) : Prop where
  perm : ∀ l, (sort l).Perm l
  sorted : WeakOrder cmp → ∀ l, (sort l).Pairwise fun a b => cmp a b ≤ 0

/-- One level of a comparator: the rest decides between equal values. -/
def level [LinearOrder α] (x y : α) (rest : Int) : Int :=
  if x < y then -1 else if y < x then 1 else rest

section Level

variable [LinearOrder α] {x y : α} {rest : Int}

theorem level_neg_iff : level x y rest < 0 ↔ x < y ∨ x = y ∧ rest < 0 := by
  rcases lt_trichotomy x y with hlt | rfl | hgt
  · simp [level, hlt]
  · simp [level]
  · simp [level, hgt, hgt.not_gt, hgt.ne']

theorem level_pos_iff : 0 < level x y rest ↔ y < x ∨ y = x ∧ 0 < rest := by
  rcases lt_trichotomy x y with hlt | rfl | hgt
  · simp [level, hlt, hlt.not_gt, hlt.ne']
  · simp [level]
  · simp [level, hgt, hgt.not_gt]

theorem level_nonpos_iff : level x y rest ≤ 0 ↔ x ≤ y ∧ (x = y → rest ≤ 0) := by
  rcases lt_trichotomy x y with hlt | rfl | hgt
  · simp [level, hlt, hlt.le, hlt.ne]
  · simp [level]
  · simp [level, hgt, hgt.not_gt]

theorem level_eq_ite : level x y rest = if x ≠ y then if x < y then -1 else 1 else rest := by
  rcases lt_trichotomy x y with hlt | rfl | hgt
  · simp [level, hlt, hlt.ne]
  · simp [level]
  · simp [level, hgt, hgt.ne']

/-- A level on a flag, which is better set. -/
theorem level_not (x y : Bool) (rest : Int) :
    level (!x) (!y) rest = if x ≠ y then if x then -1 else 1 else rest := by
  cases x <;> cases y <;> rfl

/-- A level on a flag, which is better set, and on a value where it is set. -/
theorem level_flag (x y : Bool) (u v rest : Int) :
    level (!x) (!y) (level (if x then u else 0) (if y then v else 0) rest) =
      if x ≠ y then if x then -1 else 1
      else if x ∧ u ≠ v then if u < v then -1 else 1 else rest := by
  cases x <;> cases y <;> simp [level_eq_ite]

theorem level_swap : level y x 0 = -level x y 0 := by
  rcases lt_trichotomy x y with hlt | rfl | hgt
  · simp [level, hlt, hlt.not_gt]
  · simp [level]
  · simp [level, hgt, hgt.not_gt]

variable [LinearOrder β] [LinearOrder κ] {u v : β} {p q : κ}

/-- A level on a value that is ordered lexicographically is one on each of its two parts. -/
theorem level_lex (hlt : p < q ↔ x < y ∨ x = y ∧ u < v) (hgt : q < p ↔ y < x ∨ y = x ∧ v < u) :
    level p q rest = level x y (level u v rest) := by
  unfold level
  simp only [hlt, hgt]
  rcases lt_trichotomy x y with h | rfl | h
  · simp [h]
  · simp
  · simp [h, h.not_gt, h.ne']

theorem level_pair (x y : α) (u v : β) (rest : Int) :
    level (toLex (x, u)) (toLex (y, v)) rest = level x y (level u v rest) :=
  level_lex Prod.Lex.toLex_lt_toLex Prod.Lex.toLex_lt_toLex

/-- The order of sequences: by the first element, and then by the others. -/
theorem seq_lt_iff {f g : Nat → α} :
    toLex f < toLex g ↔ f 0 < g 0 ∨ f 0 = g 0 ∧ toLex (f <| · + 1) < toLex (g <| · + 1) := by
  constructor
  · rintro ⟨i, heq, hlt⟩
    cases i with
    | zero => exact .inl hlt
    | succ i => exact .inr ⟨heq 0 i.succ_pos, i, fun j hj => heq _ (Nat.succ_lt_succ hj), hlt⟩
  · rintro (hlt | ⟨h0, i, heq, hlt⟩)
    · exact ⟨0, nofun, hlt⟩
    · refine ⟨i + 1, fun j hj => ?_, hlt⟩
      cases j with
      | zero => exact h0
      | succ j => exact heq j (Nat.lt_of_succ_lt_succ hj)

end Level

namespace RanksBy

theorem level_zero [LinearOrder κ] (f : α → κ) : RanksBy (fun a b => level (f a) (f b) 0) f where
  neg a b := by simp [level_neg_iff]
  pos a b := by simp [level_pos_iff]

variable [LinearOrder κ] {cmp : α → α → Int} {key : α → κ} (h : RanksBy cmp key)

include h

theorem nonpos (a b : α) : cmp a b ≤ 0 ↔ key a ≤ key b := by
  rw [← not_lt, h.pos, not_lt]

theorem weakOrder : WeakOrder cmp where
  swap a b := by rw [h.neg, h.pos]
  trans a b c hab hbc := (h.nonpos a c).2 (((h.nonpos a b).1 hab).trans ((h.nonpos b c).1 hbc))

/-- What is cut off a sorted list does not come before what is left. -/
theorem not_neg_of_take {l : List α} (hl : l.Pairwise fun a b => cmp a b ≤ 0) {n : Nat} {p q : α}
    (hp : p ∈ l.take n) (hq : q ∈ l) (hcut : q ∉ l.take n) : ¬ cmp q p < 0 := by
  rw [← take_append_drop n l] at hl hq
  have hdrop : q ∈ l.drop n := (mem_append.1 hq).resolve_left hcut
  have hle := (pairwise_append.1 hl).2.2 p hp q hdrop
  rw [h.neg, not_lt]
  exact (h.nonpos p q).1 hle

/-- Lists that are sorted by a comparator and have the same elements are equal if no two
elements tie. -/
theorem eq_of_perm {l l' : List α} (hperm : l.Perm l')
    (hinj : ∀ a ∈ l, ∀ b ∈ l, key a = key b → a = b) (hl : l.Pairwise fun a b => cmp a b ≤ 0)
    (hl' : l'.Pairwise fun a b => cmp a b ≤ 0) : l = l' :=
  List.Perm.eq_of_pairwise (fun a b ha hb hab hba => hinj a ha b (hperm.mem_iff.2 hb)
    (((h.nonpos a b).1 hab).antisymm ((h.nonpos b a).1 hba))) hl hl' hperm

theorem pairwise_insertionSort (l : List α) :
    (l.insertionSort fun a b => cmp a b ≤ 0).Pairwise fun a b => cmp a b ≤ 0 := by
  have : Std.Total fun a b => cmp a b ≤ 0 :=
    ⟨fun a b => by simpa only [h.nonpos] using le_total (key a) (key b)⟩
  have : IsTrans α fun a b => cmp a b ≤ 0 := ⟨h.weakOrder.trans⟩
  exact List.pairwise_insertionSort _ l

theorem sortsWith_insertionSort : SortsWith cmp fun l => l.insertionSort fun a b => cmp a b ≤ 0 :=
  ⟨fun l => perm_insertionSort _ l, fun _ l => h.pairwise_insertionSort l⟩

/-- Sorting forgets the order of the elements. -/
theorem insertionSort_eq_of_perm {l l' : List α} (hperm : l.Perm l')
    (hinj : ∀ a ∈ l, ∀ b ∈ l, key a = key b → a = b) :
    (l.insertionSort fun a b => cmp a b ≤ 0) = l'.insertionSort fun a b => cmp a b ≤ 0 := by
  refine h.eq_of_perm ?_ ?_ (h.pairwise_insertionSort l) (h.pairwise_insertionSort l')
  · exact (perm_insertionSort _ l).trans (hperm.trans (perm_insertionSort _ l').symm)
  · intro a ha b hb
    exact hinj a ((mem_insertionSort _).1 ha) b ((mem_insertionSort _).1 hb)

end RanksBy

end Multiport.Lib

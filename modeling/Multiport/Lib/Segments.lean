import Mathlib.Data.List.Basic

/-!
# Segments of equal size

`segments n xs` cuts `xs` into pieces of `n` elements, the last of which may be
shorter; with `n = 0` it is left in one piece.
-/

namespace Multiport.Lib

open List

universe u

variable {α : Type u}

/-- The pieces of `n` elements of a list, and what is left over. -/
def segments (n : Nat) (xs : List α) : List (List α) :=
  if 0 < n ∧ n < xs.length then xs.take n :: segments n (xs.drop n) else [xs]
termination_by xs.length
decreasing_by simp only [length_drop]; omega

variable {n : Nat} {xs b : List α}

theorem segments_of_not (h : ¬(0 < n ∧ n < xs.length)) : segments n xs = [xs] := by
  rw [segments, if_neg h]

theorem segments_append (hn : 0 < n) (hb : b.length = n) (hxs : 0 < xs.length) :
    segments n (b ++ xs) = b :: segments n xs := by
  rw [segments, if_pos ⟨hn, by rw [length_append]; omega⟩, ← hb, take_left, drop_left]

/-- Full pieces and a last one that is not longer are the segments of their concatenation. -/
theorem segments_flatten {bs} (hbs : ∀ c ∈ bs, c.length = n) (hpos : 0 < b.length)
    (hle : b.length ≤ n) : segments n (bs ++ [b]).flatten = bs ++ [b] := by
  induction bs with
  | nil => simpa using segments_of_not fun h : 0 < n ∧ n < b.length => by omega
  | cons c bs ih =>
    rw [forall_mem_cons] at hbs
    have hrest : 0 < (bs ++ [b]).flatten.length := by
      rw [flatten_append, length_append, flatten_singleton]
      omega
    rw [cons_append, flatten_cons, segments_append (by omega) hbs.1 hrest, ih hbs.2]

end Multiport.Lib

import Mathlib.Data.List.MinMax

/-!
# The last greatest element

`lastArgmax f l` is the last of the elements of `l` with the greatest key.  It is what a table
returns in which the longest match counts and a later entry replaces an equal one.
-/

namespace Multiport.Lib

open List

variable {α β κ : Type*} [LinearOrder κ]

/-- The last element with the greatest key. -/
def lastArgmax (f : α → κ) (l : List α) : Option α := l.reverse.argmax f

theorem lastArgmax_cons (f : α → κ) (a : α) (l : List α) :
    lastArgmax f (a :: l) =
      Option.casesOn (lastArgmax f l) (some a) fun c => if f c < f a then some a else some c := by
  rw [lastArgmax, reverse_cons, argmax_concat, lastArgmax]

variable {f : α → κ} {l : List α}

theorem mem_of_lastArgmax {m : α} (h : lastArgmax f l = some m) : m ∈ l :=
  mem_reverse.1 (argmax_mem h)

theorem le_of_lastArgmax {a m : α} (ha : a ∈ l) (h : lastArgmax f l = some m) : f a ≤ f m :=
  le_of_mem_argmax (mem_reverse.2 ha) h

theorem lastArgmax_eq_none : lastArgmax f l = none ↔ l = [] := by
  rw [lastArgmax, argmax_eq_none, reverse_eq_nil_iff]

theorem lastArgmax_map (f : β → κ) (g : α → β) (l : List α) :
    lastArgmax f (l.map g) = (lastArgmax (f ∘ g) l).map g := by
  induction l with
  | nil => rfl
  | cons a l ih =>
    rw [map_cons, lastArgmax_cons, lastArgmax_cons, ih]
    cases lastArgmax (f ∘ g) l with
    | none => rfl
    | some c =>
      change (if f (g c) < f (g a) then some (g a) else some (g c)) =
        Option.map g (if f (g c) < f (g a) then some a else some c)
      split
      · rfl
      · rfl

/-- Leaving out other elements does not change which element is the last greatest. -/
theorem lastArgmax_filter {keep : α → Bool} {m : α} (h : lastArgmax f l = some m)
    (hm : keep m = true) : lastArgmax f (l.filter keep) = some m := by
  induction l generalizing m with
  | nil => exact absurd h (by simp [lastArgmax])
  | cons a l ih =>
    rw [lastArgmax_cons] at h
    cases hl : lastArgmax f l with
    | none =>
      obtain rfl := lastArgmax_eq_none.1 hl
      obtain rfl : a = m := by
        exact Option.some.inj h
      rw [filter_cons_of_pos hm]
      rfl
    | some c =>
      rw [hl] at h
      by_cases hlt : f c < f a
      · obtain rfl : a = m := Option.mem_unique (if_pos hlt) h
        rw [filter_cons_of_pos hm, lastArgmax_cons]
        cases hf : lastArgmax f (l.filter keep) with
        | none => rfl
        | some c' =>
          have hle : f c' ≤ f c := le_of_lastArgmax (mem_filter.1 (mem_of_lastArgmax hf)).1 hl
          exact if_pos (lt_of_le_of_lt hle hlt)
      · obtain rfl : c = m := Option.mem_unique (if_neg hlt) h
        by_cases ha : keep a = true
        · rw [filter_cons_of_pos ha, lastArgmax_cons, ih hl hm]
          exact if_neg hlt
        · rw [filter_cons_of_neg ha, ih hl hm]

end Multiport.Lib

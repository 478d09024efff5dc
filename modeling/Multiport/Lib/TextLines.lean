import Mathlib.Data.List.Basic
import Mathlib.Data.List.Induction

/-!
# Lines

The lines of a text, each with the separator that ends it.  A text is `Complete` when its last
line ends in the separator; the lines of a complete text and of what follows it are told apart.
-/

namespace Multiport.Lib

open List

universe u

variable {α : Type u} [DecidableEq α] {nl : α}

/-- The lines of a text.  What is left behind the last separator is a line, too. -/
def textLines (nl : α) : List α → List (List α)
  | [] => []
  | c :: s =>
    if c = nl then [c] :: textLines nl s
    else
      match textLines nl s with
      | [] => [[c]]
      | l :: ls => (c :: l) :: ls

/-- The text is empty or ends in the separator. -/
def Complete (nl : α) (s : List α) : Prop := ∀ c ∈ s.getLast?, c = nl

instance (nl : α) (s : List α) : Decidable (Complete nl s) := by
  unfold Complete
  infer_instance

omit [DecidableEq α] in
theorem Complete.nil : Complete nl [] := fun _ hc => absurd hc (by simp)

variable {s : List α}

omit [DecidableEq α] in
theorem Complete.of_cons {c : α} (h : Complete nl (c :: s)) : Complete nl s := by
  cases s with
  | nil => exact .nil
  | cons d s => simpa [Complete] using h

omit [DecidableEq α] in
theorem Complete.drop (h : Complete nl s) (n : Nat) : Complete nl (s.drop n) := by
  induction n generalizing s with
  | zero => exact h
  | succ n ih =>
    cases s with
    | nil => exact .nil
    | cons c s => exact ih h.of_cons

omit [DecidableEq α] in
theorem Complete.append {t : List α} (hs : Complete nl s) (ht : Complete nl t) :
    Complete nl (s ++ t) := by
  cases t using List.reverseRecOn with
  | nil => rwa [append_nil]
  | append_singleton t c =>
    simpa [Complete] using ht

omit [DecidableEq α] in
theorem Complete.mem (h : Complete nl s) (hs : s ≠ []) : nl ∈ s := by
  rw [← h _ (List.getLast?_eq_some_getLast hs)]
  exact getLast_mem hs

theorem textLines_eq_nil_iff : textLines nl s = [] ↔ s = [] := by
  cases s with
  | nil => simp [textLines]
  | cons c s =>
    simp only [textLines]
    split
    · simp
    · split <;> simp

theorem length_le_of_mem_textLines {l : List α} (h : l ∈ textLines nl s) : l.length ≤ s.length := by
  induction s generalizing l with
  | nil => exact absurd h not_mem_nil
  | cons c s ih =>
    rw [textLines] at h
    split at h
    · rcases mem_cons.1 h with rfl | h
      · exact Nat.le_add_left _ _
      · exact Nat.le_succ_of_le (ih h)
    split at h
    · obtain rfl := mem_singleton.1 h
      exact Nat.le_add_left _ _
    next l' ls hlines =>
      rw [hlines] at ih
      rcases mem_cons.1 h with rfl | h
      · exact Nat.succ_le_succ (ih mem_cons_self)
      · exact Nat.le_succ_of_le (ih (mem_cons_of_mem _ h))

theorem textLines_append (h : Complete nl s) (t : List α) :
    textLines nl (s ++ t) = textLines nl s ++ textLines nl t := by
  induction s with
  | nil => rfl
  | cons c s ih =>
    have ih := ih h.of_cons
    rw [cons_append, textLines, textLines, ih]
    split
    · rfl
    next hc =>
      have hs : s ≠ [] := by
        rintro rfl
        exact hc (h c rfl)
      cases hlines : textLines nl s with
      | nil => exact absurd (textLines_eq_nil_iff.1 hlines) hs
      | cons l ls => rfl

theorem textLines_eq_cons (h : nl ∈ s) : textLines nl s =
      s.take (s.idxOf nl + 1) :: textLines nl (s.drop (s.idxOf nl + 1)) := by
  induction s with
  | nil => exact absurd h not_mem_nil
  | cons c s ih =>
    rw [textLines]
    split
    next hc =>
      subst hc
      simp
    next hc =>
      have hmem : nl ∈ s := (mem_cons.1 h).resolve_left (Ne.symm hc)
      rw [ih hmem, idxOf_cons_ne _ hc]
      rfl

/-- A line up to the first separator is complete. -/
theorem complete_take_idxOf (h : nl ∈ s) : Complete nl (s.take (s.idxOf nl + 1)) := by
  have hlt := idxOf_lt_length_of_mem h
  rw [take_add_one, List.getElem?_eq_getElem hlt]
  simp [Complete]

/-- What comes before the first separator is shorter than the first line. -/
theorem length_lt_of_notMem {t l : List α} {ls} (hs : nl ∉ s) (ht : Complete nl t)
    (hne : t ≠ []) (hlines : textLines nl (s ++ t) = l :: ls) : s.length < l.length := by
  have hmem : nl ∈ s ++ t := mem_append_right _ (ht.mem hne)
  rw [textLines_eq_cons hmem] at hlines
  obtain ⟨rfl, -⟩ := List.cons.inj hlines
  have hlt := idxOf_lt_length_of_mem hmem
  have hidx : s.length ≤ (s ++ t).idxOf nl := by
    rw [idxOf_append_of_notMem hs]
    exact Nat.le_add_right _ _
  rw [length_take]
  omega

end Multiport.Lib

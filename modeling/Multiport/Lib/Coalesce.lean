import Mathlib.Data.List.Basic

/-!
# Coalescing a sequence of updates

An observer folds a sequence of updates with `apply`.  A coalescer passes on a
shorter sequence: some updates as they are, and some stretches of unimportant
updates as one update that does what the stretch does.  `Coalesces ns os` says that
`os` comes from `ns` in this way.

The observer cannot tell the difference (`foldl_eq`), the important updates pass
unchanged (`filter_eq`), and each of them finds the observer in the state it would
have found without coalescing (`split`).
-/

namespace Multiport.Lib

open List

variable {S N : Type*} {apply : S → N → S} {important : N → Bool}

theorem exists_of_append_eq_append_cons {ns g pre post : List N} {n : N}
    (h : ns ++ g = pre ++ n :: post) (hn : n ∉ g) :
    ∃ post₁, ns = pre ++ n :: post₁ ∧ post = post₁ ++ g := by
  rcases append_eq_append_iff.1 h with ⟨a, -, hg⟩ | ⟨c, hns, hc⟩
  · exact absurd (hg ▸ mem_append_right a mem_cons_self) hn
  cases c with
  | nil =>
    rw [nil_append] at hc
    exact absurd (hc ▸ mem_cons_self) hn
  | cons m c =>
    obtain ⟨rfl, hpost⟩ := List.cons.inj hc
    exact ⟨c, hns, hpost⟩

/-- `os` is `ns` with some stretches of unimportant updates merged into one. -/
inductive Coalesces (apply : S → N → S) (important : N → Bool) : List N → List N → Prop
  | nil : Coalesces apply important [] []
  | pass {ns os : List N} (h : Coalesces apply important ns os) (n : N) :
      Coalesces apply important (ns ++ [n]) (os ++ [n])
  | merge {ns os : List N} (h : Coalesces apply important ns os) {g : List N} {o : N}
      (hg : ∀ n ∈ g, important n = false) (ho : important o = false)
      (heq : ∀ w, apply w o = g.foldl apply w) : Coalesces apply important (ns ++ g) (os ++ [o])

namespace Coalesces

variable {ns os : List N}

variable (h : Coalesces apply important ns os)

include h

theorem foldl_eq (w : S) : os.foldl apply w = ns.foldl apply w := by
  induction h with
  | nil => rfl
  | pass _ n ih => rw [foldl_append, foldl_append, ih]
  | merge _ _ _ heq ih =>
    rw [foldl_append, foldl_append, ih]
    exact heq _

theorem filter_eq : os.filter important = ns.filter important := by
  induction h with
  | nil => rfl
  | pass _ n ih => rw [filter_append, filter_append, ih]
  | @merge ns os _ g o hg ho _ ih =>
    have hnone : g.filter important = [] :=
      filter_eq_nil_iff.2 fun n hn => by simp [hg n hn]
    rw [filter_append, filter_append, ih, hnone, filter_cons_of_neg (by simp [ho]),
      filter_nil]

theorem split {pre post : List N} {n : N} (hns : ns = pre ++ n :: post) (hn : important n = true) :
    ∃ pre' post', os = pre' ++ n :: post' ∧ Coalesces apply important pre pre' ∧
      Coalesces apply important post post' := by
  induction h generalizing post with
  | nil => simp at hns
  | @pass ns os h m ih =>
    rcases eq_nil_or_concat post with rfl | ⟨post, x, rfl⟩
    · obtain ⟨rfl, hm⟩ := append_inj' hns rfl
      obtain rfl := singleton_inj.1 hm
      exact ⟨os, [], rfl, h, .nil⟩
    · rw [concat_eq_append, ← cons_append, ← append_assoc] at hns
      obtain ⟨rfl, hm⟩ := append_inj' hns rfl
      obtain rfl := singleton_inj.1 hm
      obtain ⟨pre', post', rfl, hpre, hpost⟩ := ih rfl
      exact ⟨pre', post' ++ [m], by simp, hpre, by simpa using hpost.pass m⟩
  | @merge ns os _ g o hg ho heq ih =>
    have hout : n ∉ g := fun hmem => Bool.false_ne_true ((hg n hmem).symm.trans hn)
    obtain ⟨post₁, hns₁, rfl⟩ := exists_of_append_eq_append_cons hns hout
    obtain ⟨pre', post', rfl, hpre, hpost⟩ := ih hns₁
    exact ⟨pre', post' ++ [o], by simp, hpre, hpost.merge hg ho heq⟩

end Coalesces

end Multiport.Lib

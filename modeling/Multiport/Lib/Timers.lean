import Mathlib.Algebra.Order.Group.Int
import Multiport.Lib.Runs

/-!
# Timers and budgets along runs

Two devices that limit how often something happens, as properties of a labelled
transition relation.

* `Cooldown`: a state variable holds the time of the last marked step, and gated
  steps wait until it is long enough ago.
* `Budget`: a counter is set by granting steps and pays for spending steps.

Each has one theorem, about all runs.
-/

namespace Multiport.Lib

open List

universe u v

variable {S : Type u} {A : Type v} {step : S → A → S → Prop} {s₀ s : S} {as : List A}

/-- Gated steps happen only `gap` after the last marked step, whose time is in
`last`.  Zero stands for no such step. -/
structure Cooldown (step : S → A → S → Prop) (time : A → Int) (last : S → Int) (gap : Int)
    (marked gated : A → Prop) : Prop where
  mark : ∀ {s a t}, step s a t → marked a → last t = time a
  keep : ∀ {s a t}, step s a t → last t = last s ∨ last t = time a
  gate : ∀ {s a t}, step s a t → gated a → last s = 0 ∨ time a - last s ≥ gap

namespace Cooldown

variable {time : A → Int} {last : S → Int} {gap : Int} {marked gated : A → Prop}
  (c : Cooldown step time last gap marked gated) (h : Run step s₀ as s)
  (hmono : (as.map time).Pairwise (· ≤ ·)) (hnz : ∀ a ∈ as, time a ≠ 0)

include c h hmono hnz

/-- The variable is not behind the marked steps. -/
theorem le_last : ∀ a ∈ as, marked a → time a ≤ last s ∧ last s ≠ 0 := by
  induction h with
  | nil => simp
  | @snoc as s t b _ hstep ih =>
    rw [map_append, pairwise_append] at hmono
    rw [forall_mem_append] at hnz
    have hb : time b ≠ 0 := hnz.2 b mem_cons_self
    rw [forall_mem_append, forall_mem_singleton]
    constructor
    · intro a ha hm
      have hab : time a ≤ time b :=
        hmono.2.2 _ (mem_map_of_mem ha) _ (mem_map_of_mem mem_cons_self)
      obtain ⟨hle, hne⟩ := ih hmono.1 hnz.1 a ha hm
      rcases c.keep hstep with hlast | hlast <;> rw [hlast]
      · exact ⟨hle, hne⟩
      · exact ⟨hab, hb⟩
    · intro hm
      rw [c.mark hstep hm]
      exact ⟨le_refl _, hb⟩

/-- **No gated step within the gap after a marked step.** -/
theorem pairwise : as.Pairwise fun a b => marked a → gated b → time a + gap ≤ time b := by
  induction h with
  | nil => exact .nil
  | @snoc as s t b hrun hstep ih =>
    rw [map_append, pairwise_append] at hmono
    rw [forall_mem_append] at hnz
    refine pairwise_append.2 ⟨ih hmono.1 hnz.1, pairwise_singleton _ _, ?_⟩
    rintro a ha b' hb' hm hg
    obtain rfl := mem_singleton.1 hb'
    obtain ⟨hle, hne⟩ := c.le_last hrun hmono.1 hnz.1 a ha hm
    rcases c.gate hstep hg with hzero | hgap
    · exact absurd hzero hne
    · omega

end Cooldown

/-- Spending steps take from a counter that granting steps set. -/
structure Budget (step : S → A → S → Prop) (budget : S → Int) (limit : Int)
    (grants spends : A → Bool) : Prop where
  grant : ∀ {s a t}, step s a t → grants a = true → budget t + (if spends a then 1 else 0) ≤ limit
  spend : ∀ {s a t}, step s a t → grants a = false → 0 ≤ budget s →
    budget t + (if spends a then 1 else 0) ≤ budget s
  nonneg : ∀ {s a t}, step s a t → 0 ≤ budget s → 0 ≤ budget t

namespace Budget

variable {budget : S → Int} {limit : Int} {grants spends : A → Bool}

theorem countP_concat (seg : List A) (a : A) :
    ((seg ++ [a]).countP spends : Int) = seg.countP spends + (if spends a then 1 else 0) := by
  rw [countP_append, countP_singleton]
  split <;> simp

variable (b : Budget step budget limit grants spends)

include b

theorem nonneg_of_run (h₀ : 0 ≤ budget s₀) (h : Run step s₀ as s) : 0 ≤ budget s :=
  Run.invariant (I := fun _ s => 0 ≤ budget s) h₀ (fun _ _ _ _ hI hs => b.nonneg hs hI) h

/-- What has been spent since the last grant, and what is left. -/
theorem suffix_le (h₀ : 0 ≤ budget s₀) (hlimit : budget s₀ ≤ limit) (h : Run step s₀ as s)
    {seg : List A} (hseg : seg <:+ as) (hgrants : ∀ a ∈ seg.tail, grants a = false) :
    (seg.countP spends : Int) + budget s ≤ limit := by
  induction h generalizing seg with
  | nil =>
    rw [suffix_nil.1 hseg]
    simpa using hlimit
  | @snoc as s t a hrun hstep ih =>
    have hs₀ := b.nonneg_of_run h₀ hrun
    have hlast : budget t + (if spends a then 1 else 0) ≤ limit := by
      cases hg : grants a with
      | true => exact b.grant hstep hg
      | false =>
        have hs : budget s ≤ limit := by simpa using ih nil_suffix (by simp)
        exact le_trans (b.spend hstep hg hs₀) hs
    rcases suffix_concat_iff.1 hseg with rfl | ⟨seg, rfl, hsuf⟩
    · rw [countP_nil]
      omega
    rw [countP_concat]
    rcases seg with _ | ⟨x, seg⟩
    · rw [countP_nil]
      omega
    · rw [cons_append, tail_cons, forall_mem_append] at hgrants
      have hold := ih hsuf hgrants.1
      have hnew := b.spend hstep (hgrants.2 a mem_cons_self) hs₀
      omega

/-- **No more than the limit is spent without another grant.** -/
theorem infix_le (h₀ : 0 ≤ budget s₀) (hlimit : budget s₀ ≤ limit) (h : Run step s₀ as s)
    {seg : List A} (hseg : seg <:+: as) (hgrants : ∀ a ∈ seg.tail, grants a = false) :
    (seg.countP spends : Int) ≤ limit := by
  induction h with
  | nil =>
    rw [infix_nil.1 hseg, countP_nil]
    omega
  | @snoc as s t a hrun hstep ih =>
    rcases infix_concat_iff.1 hseg with hsuf | hinf
    · have hle := b.suffix_le h₀ hlimit (hrun.snoc hstep) hsuf hgrants
      have ht := b.nonneg_of_run h₀ (hrun.snoc hstep)
      omega
    · exact ih hinf

end Budget

end Multiport.Lib

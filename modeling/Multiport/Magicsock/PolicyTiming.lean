import Multiport.Lib.Timers
import Multiport.Magicsock.ActivePolicy

/-!
# How often the active paths change

The policy has two timers and a counter: the last replacement, the last refresh
and the promotions that a refresh allows.  They are a `Cooldown`, a `Cooldown`
and a `Budget` of the policy as a transition relation, and what holds for every run
follows from that.
-/

namespace Multiport.Magicsock

open Lib ActivePolicy PolicyCall

variable {de de' : ActivePolicy} {c : PolicyCall}

/-- The call fills in for a path that left the ranking, of a pair. -/
def PolicyCall.Refills (c : PolicyCall) : Prop :=
  c.before.length = 2 ∧ c.paths ≠ [] ∧ ∃ p ∈ c.before, sourcePathSendPathIndex c.ranked p = none

/-- The promotion exchanges one path of the pair, by a better one. -/
def PolicyCall.Promotes (c : PolicyCall) : Prop :=
  ∃ kept : SendPath,
    (c.before.map SendPath.key).Perm [c.ev.oldPath.key, kept.key] ∧
      c.paths.Perm [c.ev.newPath, kept] ∧
      c.ev.oldPath ∈ c.ranked ∧ c.ev.newPath ∈ c.ranked ∧
      compareSourcePathSendPath c.ev.newPath c.ev.oldPath < 0

/-! ## Refresh -/

section Refresh

variable (de) (now : MonoTime) (ranked : List SendPath)

theorem refreshLocked_spec :
    ((de.refreshLocked now ranked).2.refreshed = true →
      (de.lastRefresh = 0 ∨ now - de.lastRefresh ≥ sourcePathStandbyRefreshEvery) ∧
        (de.refreshLocked now ranked).1 = { de with lastRefresh := now, promoteBudget := 2 }) ∧
      ((de.refreshLocked now ranked).2.refreshed = false →
        (de.refreshLocked now ranked).1 = de) := by
  unfold refreshLocked
  split
  next hdue => exact ⟨fun _ => ⟨hdue.2, rfl⟩, nofun⟩
  · exact ⟨nofun, fun _ => rfl⟩

theorem refreshLocked_lastReplace :
    (de.refreshLocked now ranked).1.lastReplace = de.lastReplace := by
  unfold refreshLocked
  split <;> rfl

theorem refreshLocked_replaced : (de.refreshLocked now ranked).2.replaced = false := by
  unfold refreshLocked
  split <;> rfl

end Refresh

/-- A refreshed call has refreshed the endpoint first. -/
theorem PolicyStep.lastRefresh (h : PolicyStep de c de') :
    (c.ev.refreshed = true →
      (de.lastRefresh = 0 ∨ c.now - de.lastRefresh ≥ sourcePathStandbyRefreshEvery) ∧
        de'.lastRefresh = c.now) ∧
      (c.ev.refreshed = false → de'.lastRefresh = de.lastRefresh) := by
  rcases c with ⟨before, now, ranked, paths, ev⟩
  have hres : PolicyResult de now ranked de' paths ev := policyResult h.2
  cases hres with
  | short => exact ⟨nofun, fun _ => rfl⟩
  | failed | refilled | kept | promoted =>
    obtain ⟨hyes, hno⟩ := refreshLocked_spec de now ranked
    refine ⟨fun hr => ⟨(hyes hr).1, ?_⟩, fun hr => ?_⟩
    · simp only [(hyes hr).2]
    · simp only [hno hr]

theorem refreshCooldown : Cooldown PolicyStep now ActivePolicy.lastRefresh
    sourcePathStandbyRefreshEvery (fun c => c.ev.refreshed = true)
    (fun c => c.ev.refreshed = true) where
  mark := fun h hr => (h.lastRefresh.1 hr).2
  gate := fun h hr => (h.lastRefresh.1 hr).1
  keep := by
    intro de c de' h
    cases hr : c.ev.refreshed with
    | true => exact .inr (h.lastRefresh.1 hr).2
    | false => exact .inl (h.lastRefresh.2 hr)

/-! ## Replacement -/

theorem missing_of_carryPath {ranked : List SendPath} (l : List SendPath)
    {st} (h : (l.foldl (carryPath ranked) st).2 = false) :
    st.2 = false ∧ ∀ p ∈ l, sourcePathSendPathIndex ranked p ≠ none := by
  induction l generalizing st with
  | nil => exact ⟨h, by simp⟩
  | cons p l ih =>
    obtain ⟨hst, hl⟩ := ih h
    rw [List.forall_mem_cons]
    cases hp : sourcePathSendPathIndex ranked p with
    | none =>
      simp only [carryPath, hp] at hst
      cases hst
    | some i =>
      simp only [carryPath, hp] at hst
      refine ⟨?_, Option.some_ne_none i, hl⟩
      split at hst <;> exact hst

theorem PolicyStep.lastReplace (h : PolicyStep de c de') :
    (de'.lastReplace = de.lastReplace ∨ de'.lastReplace = c.now) ∧
      (c.ev.replaced = true ∨ c.Refills → de'.lastReplace = c.now) ∧
      (c.Refills → c.ev.replaced = false) := by
  rcases c with ⟨before, now, ranked, paths, ev⟩
  obtain ⟨rfl, hcall⟩ := h
  have hres : PolicyResult de now ranked de' paths ev := policyResult hcall
  have hkeep := refreshLocked_lastReplace de now ranked
  have hno := refreshLocked_replaced de now ranked
  -- a call that keeps both paths does not refill
  have hall : (de.carryPaths ranked).2 = false →
      ∀ p ∈ de.active, sourcePathSendPathIndex ranked p ≠ none := fun hc =>
    (missing_of_carryPath de.active hc).2
  cases hres with
  | short => exact ⟨.inl rfl, by simp [Refills], fun _ => rfl⟩
  | failed => exact ⟨.inl hkeep, by simp [Refills, hno], fun _ => hno⟩
  | refilled p q =>
    refine ⟨?_, ?_, fun _ => hno⟩
    · split
      · exact .inr rfl
      · exact .inl hkeep
    · rintro (hr | ⟨hlen, -, -⟩)
      · cases hno.symm.trans hr
      · exact if_pos hlen
  | kept p q hkept =>
    refine ⟨.inl hkeep, ?_, fun _ => hno⟩
    rintro (hr | ⟨-, -, p, hp, hnone⟩)
    · cases hno.symm.trans hr
    · exact absurd hnone (hall (by rw [hkept]) p hp)
  | promoted a b p q idx slot hkept =>
    refine ⟨.inr rfl, fun _ => rfl, ?_⟩
    rintro ⟨-, -, p, hp, hnone⟩
    exact absurd hnone (hall (by rw [hkept]) p hp)

/-- Only a promotion replaces a path. -/
theorem PolicyStep.promotes (h : PolicyStep de c de') (hr : c.ev.replaced = true) :
    (de.lastReplace = 0 ∨ c.now - de.lastReplace ≥ sourcePathActiveReplaceCooldown) ∧
      c.Promotes := by
  rcases c with ⟨before, now, ranked, paths, ev⟩
  obtain ⟨rfl, hcall⟩ := h
  have hres : PolicyResult de now ranked de' paths ev := policyResult hcall
  have hno := refreshLocked_replaced de now ranked
  cases hres with
  | short => cases hr
  | failed | refilled | kept =>
    cases hno.symm.trans hr
  | promoted a b p q idx slot hkept hcan hbest hset =>
    simp only [canPromote, decide_eq_true_eq, refreshLocked_lastReplace] at hcan
    refine ⟨hcan.2, ?_⟩
    have hab : Chosen ranked [a, b] := by simpa only [hkept] using de.chosen_carryPaths ranked
    -- both paths are still there, so the pair is the old one
    have hkeys : [a.key, b.key] = de.active.map SendPath.key := by
      have hsub := de.carryPaths_sublist ranked
      rw [hkept] at hsub
      refine hsub.eq_of_length_le ?_
      simpa using de.length_active_le
    obtain ⟨hmem, -, hbetter, hslot⟩ := sourcePathBestPromotion_spec hbest
    rcases sourcePathPromotionSlot_spec hslot with ⟨rfl, -⟩ | ⟨rfl, -⟩
    · cases hset
      refine ⟨b, ?_, sortPair_perm _ _, hab.mem a (by simp), hmem, hbetter⟩
      rw [← hkeys]
      exact .refl _
    · cases hset
      refine ⟨a, ?_, (sortPair_perm _ _).trans (.swap _ _ _), hab.mem b (by simp), hmem, hbetter⟩
      rw [← hkeys]
      exact .swap _ _ _

theorem replaceCooldown : Cooldown PolicyStep now ActivePolicy.lastReplace
    sourcePathActiveReplaceCooldown (fun c => c.ev.replaced = true ∨ c.Refills)
    (fun c => c.ev.replaced = true) where
  mark := fun h hm => h.lastReplace.2.1 hm
  gate := fun h hr => (h.promotes hr).1
  keep := fun h => h.lastReplace.1

/-! ## Promotion -/

/-- What a call leaves of the budget: at most what the refresh left, less what it spends. -/
theorem PolicyStep.promoteBudget (h : PolicyStep de c de') :
    (c.ev.refreshed = true → de'.promoteBudget + (if c.ev.replaced then 1 else 0) ≤ 2) ∧
      (0 ≤ de.promoteBudget → 0 ≤ de'.promoteBudget ∧ (c.ev.refreshed = false →
        de'.promoteBudget + (if c.ev.replaced then 1 else 0) ≤ de.promoteBudget)) := by
  rcases c with ⟨before, now, ranked, paths, ev⟩
  have hres : PolicyResult de now ranked de' paths ev := policyResult h.2
  have hno := refreshLocked_replaced de now ranked
  obtain ⟨hyes, hkeep⟩ := refreshLocked_spec de now ranked
  cases hres with
  | short => simp
  | failed | refilled =>
    simp only [hno]
    exact ⟨fun _ => by decide, fun h => ⟨le_refl 0, fun _ => by simpa using h⟩⟩
  | kept =>
    simp only [hno]
    cases hr : (de.refreshLocked now ranked).2.refreshed with
    | true => simp [(hyes hr).2]
    | false => simp [hkeep hr]
  | promoted a b p q idx slot _ hcan =>
    simp only [canPromote, decide_eq_true_eq] at hcan
    cases hr : (de.refreshLocked now ranked).2.refreshed with
    | true =>
      rw [(hyes hr).2]
      simp
    | false =>
      rw [hkeep hr] at hcan ⊢
      simp only [Bool.false_eq_true, false_implies, true_and]
      omega

theorem promoteBudget : Budget PolicyStep ActivePolicy.promoteBudget 2
    (fun c => c.ev.refreshed) (fun c => c.ev.replaced) where
  grant := fun h hr => h.promoteBudget.1 hr
  spend := fun h hr hs => (h.promoteBudget.2 hs).2 hr
  nonneg := fun h hs => (h.promoteBudget.2 hs).1

/-! ## Runs -/

/-- **How often the active paths change.**  With nondecreasing nonzero times, in
every run: promotions and refreshes keep their distance, a promotion keeps its
distance from a refill, there are at most two promotions from one refresh to the
next, and every promotion is to a better path. -/
theorem promotions_of_run (calls : List PolicyCall) (s : ActivePolicy)
    (hrun : Run PolicyStep {} calls s) (hmono : (calls.map now).Pairwise (· ≤ ·))
    (hnz : ∀ c ∈ calls, c.now ≠ 0) :
    (calls.Pairwise fun a b => a.ev.replaced = true → b.ev.replaced = true →
        a.now + sourcePathActiveReplaceCooldown ≤ b.now) ∧
      (calls.Pairwise fun a b => a.Refills → b.ev.replaced = true →
        a.now + sourcePathActiveReplaceCooldown ≤ b.now) ∧
      (∀ c ∈ calls, c.Refills → c.ev.replaced = false) ∧
      (∀ seg, seg <:+: calls → (∀ c ∈ seg.tail, c.ev.refreshed = false) →
        seg.countP (fun c => c.ev.replaced) ≤ 2) ∧
      (calls.Pairwise fun a b => a.ev.refreshed = true → b.ev.refreshed = true →
        a.now + sourcePathStandbyRefreshEvery ≤ b.now) ∧
      ∀ c ∈ calls, c.ev.replaced = true → c.Promotes := by
  have hreplace := replaceCooldown.pairwise hrun hmono hnz
  have hcalls := Run.forall_labels (P := fun _ => True) (I := fun _ => True)
    (Q := fun c => (c.Refills → c.ev.replaced = false) ∧ (c.ev.replaced = true → c.Promotes))
    trivial (fun _ _ _ _ _ hs => ⟨trivial, hs.lastReplace.2.2, fun hr => (hs.promotes hr).2⟩) hrun
      fun _ _ => trivial
  refine ⟨?_, ?_, fun c hc => (hcalls.2 c hc).1, ?_, refreshCooldown.pairwise hrun hmono hnz,
    fun c hc => (hcalls.2 c hc).2⟩
  · exact hreplace.imp fun h ha hb => h (.inl ha) hb
  · exact hreplace.imp fun h ha hb => h (.inr ha) hb
  · intro seg hseg hgrants
    have hle := promoteBudget.infix_le (le_refl 0) (by decide) hrun hseg hgrants
    exact_mod_cast hle

theorem promotions_duoCalls :
    duoCalls.1.countP (fun c => c.ev.replaced) = 1 ∧
      ∀ c ∈ duoCalls.1, c.ev.replaced = true → c.Promotes :=
  ⟨by decide +kernel,
    (promotions_of_run duoCalls.1 duoCalls.2 (run_policyExec duoArgs .nil) (by decide +kernel)
      (by decide +kernel)).2.2.2.2.2⟩

end Multiport.Magicsock

import Multiport.Tka.Open

/-!
# Trees of verified AUMs

What `Bootstrap` and `InformIdempotent` build is one tree: a root whose state is known,
and AUMs that were each verified against the state at their parent.  In such a tree every
AUM has a state, and the only thing that can be in the way of an active chain is the
bound on the walks (`VerifiedTree.exists_activeChain_iff`).  `Current` says that an
authority is on the primary chain of its tree; it determines the authority's head and
state from the *set* of AUMs.
-/

namespace Multiport.Tka

open Lib

variable {C : Crypto} {N M : Set AUM} {L : Option AUMHash} {n k : Nat} {u r t : AUM}
  {m : Nat} {st st₀ : State} {x : AUM × State} {a b : Authority}

variable (C) in
/-- The AUM was verified against the state at its parent, and applies to it. -/
def VerifiedIn (N : Set AUM) (u : AUM) : Prop :=
  ∃ n p sp st, StateAt C N n p sp ∧ aumVerify C u sp false = .ok () ∧
    sp.applyVerifiedAUM C u = .ok st

theorem VerifiedIn.mono (hNM : N ⊆ M) (h : VerifiedIn C N u) : VerifiedIn C M u :=
  let ⟨n, p, sp, st, hp, hverify, happ⟩ := h
  ⟨n, p, sp, st, hp.mono hNM, hverify, happ⟩

/-- The state at the parent is the one it was verified against. -/
theorem VerifiedIn.of_child {p : AUM} {sp : State} (h : VerifiedIn C N u)
    (hN : Set.InjOn C.hash N) (hp : StateAt C N n p sp) (hchild : (forkRule C).Child p u) :
    aumVerify C u sp false = .ok () ∧ ∃ st, sp.applyVerifiedAUM C u = .ok st := by
  obtain ⟨m, q, sq, st, hq, hverify, happ⟩ := h
  obtain rfl := up_unique hN ⟨hp.mem, hchild⟩ (hq.up_of_apply happ)
  obtain ⟨-, rfl⟩ := hp.unique hN hq
  exact ⟨hverify, st, happ⟩

/-- A finite forest has an active chain exactly when no chain has more AUMs than the bound,
one oldest AUM is selected, and the primary chain from there has a state. -/
theorem exists_activeChain_iff (hac : (forkRule C).Acyclic N) (hfin : N.Finite)
    (hN : Set.InjOn C.hash N) : (∃ a, ActiveChain C N L n a) ↔
      (forkRule C).Within N n ∧ ∃ r, Selected C N L r ∧ HasPrimary C N n r := by
  rw [hac.within_iff hfin hN]
  constructor
  · rintro ⟨a, hwithin, hsel, st₀, hst, k, hk, hsteps, htip⟩
    exact ⟨hwithin, a.oldestAncestor, hsel, st₀, hst, k, hk, _, hsteps, htip⟩
  · rintro ⟨hwithin, r, hsel, st₀, hst, k, hk, y, hsteps, htip⟩
    exact ⟨⟨y.1, r, y.2⟩, hwithin, hsel, st₀, hst, k, hk, hsteps, htip⟩

variable (C) in
/-- A finite tree of verified AUMs below the root `r`. -/
structure VerifiedTree (N : Set AUM) (r : AUM) : Prop where
  finite : N.Finite
  injOn : Set.InjOn C.hash N
  rooted : (forkRule C).Rooted N r
  base : ∃ st, StateAt C N 0 r st
  verified : ∀ u ∈ N, u ≠ r → VerifiedIn C N u

namespace VerifiedTree

variable (h : VerifiedTree C N r)

include h

theorem acyclic : (forkRule C).Acyclic N :=
  h.rooted.grounded.acyclic h.injOn

theorem exists_stateAt (hu : u ∈ N) : ∃ n st, StateAt C N n u st := by
  by_cases hur : u = r
  · obtain ⟨st, hst⟩ := h.base
    exact ⟨0, st, hur ▸ hst⟩
  · obtain ⟨n, p, sp, st, hp, -, happ⟩ := h.verified u hu hur
    obtain ⟨m, -, hm⟩ := hp.of_apply hu happ
    exact ⟨m, st, hm⟩

theorem verified_child {p : AUM} {sp : State} (hp : StateAt C N n p sp) (hu : u ∈ N)
    (hchild : (forkRule C).Child p u) :
    aumVerify C u sp false = .ok () ∧ ∃ st, sp.applyVerifiedAUM C u = .ok st := by
  have hur : u ≠ r := by
    rintro rfl
    exact h.rooted.oldest p ⟨hp.mem, hchild⟩
  exact (h.verified u hu hur).of_child h.injOn hp hchild

/-- Below the root, an AUM names its parent by the parent's full digest. -/
theorem exists_up (hu : u ∈ N) (hur : u ≠ r) :
    ∃ p, (forkRule C).Up N u p ∧ u.prevAUMHash = some (hashBytes (C.hash p)) := by
  obtain ⟨n, p, sp, st, hp, -, happ⟩ := h.verified u hu hur
  exact ⟨p, hp.up_of_apply happ, prevAUMHash_of_apply happ hp.lastAUMHash⟩

/-- A tree is closed in a larger set that does not have the root's parent. -/
theorem closedIn {U : Set AUM} (hNU : N ⊆ U) (hinj : Set.InjOn C.hash U)
    (hroot : (forkRule C).Oldest U r) : (forkRule C).ClosedIn U N := by
  intro c hc q hq hchild
  have hcr : c ≠ r := by
    rintro rfl
    exact hroot q ⟨hq, hchild⟩
  obtain ⟨p, hp, -⟩ := h.exists_up hc hcr
  exact up_unique hinj ⟨hq, hchild⟩ (hp.mono hNU) ▸ hp.1

/-- **Induction down a tree**: what holds at the root, and for a verified update when it
holds at the parent, holds at every AUM. -/
theorem state_induction {P : AUM → State → Prop} (hroot : ∀ st, StateAt C N 0 r st → P r st)
    (hstep : ∀ {n p sp u st}, StateAt C N n p sp → P p sp → u ∈ N → (forkRule C).Child p u →
      aumVerify C u sp false = .ok () → sp.applyVerifiedAUM C u = .ok st → P u st)
    (hu : StateAt C N n u st) : P u st := by
  obtain ⟨k, hk⟩ := h.rooted.reach u hu.mem
  generalize hr : r = r' at hk
  induction hk generalizing n st with
  | zero =>
    subst hr
    obtain ⟨st₀, hst⟩ := h.base
    obtain ⟨rfl, -⟩ := hst.unique h.injOn hu
    exact hroot st hu
  | succ hup _ ih =>
    obtain ⟨m, sp, hp⟩ := h.exists_stateAt hup.1
    obtain ⟨hverify, st', happ⟩ := h.verified_child hp hu.mem hup.2
    obtain ⟨l, -, hl⟩ := hp.of_apply hu.mem happ
    obtain ⟨-, rfl⟩ := hu.unique h.injOn hl
    exact hstep hp (ih hp hr) hu.mem hup.2 hverify happ

theorem exists_descend (hwithin : (forkRule C).Within N m) (hx : StateAt C N n x.1 x.2) :
    ∃ k < m, ∃ y, Steps ((forkRule C).Descend N) k x y ∧ (forkRule C).Tip N y.1 := by
  have hlt : ∀ k y, Steps ((forkRule C).Descend N) k x y → k < m :=
    fun k y => ForkRule.lt_of_descend hwithin hx.mem
  obtain ⟨k, y, hk, hy⟩ : ∃ k y, Steps ((forkRule C).Descend N) k x y ∧ (forkRule C).Tip N y.1 := by
    refine ForkRule.exists_descend (P := fun x => ∃ n, StateAt C N n x.1 x.2) h.finite
      ?_ ⟨n, hx⟩ hlt
    rintro x c ⟨n, hn⟩ hc
    obtain ⟨-, st, happ⟩ := h.verified_child hn hc.mem hc.child
    obtain ⟨l, -, hl⟩ := hn.of_apply hc.mem happ
    exact ⟨st, advance_eq_some_iff.2 happ, l, hl⟩
  exact ⟨k, hlt k y hk, y, hk, hy⟩

theorem oldestOf (ht : t ∈ N) : OldestOf C N t r :=
  ⟨h.rooted.reach t ht, h.rooted.oldest⟩

theorem selected : Selected C N L r := by
  obtain ⟨t, ht, htip, k, hk⟩ := h.acyclic.exists_tip h.finite h.rooted.mem
  exact ⟨⟨t, ht, htip, ⟨k, hk⟩, h.rooted.oldest⟩, .inl fun t ht _ => h.oldestOf ht⟩

theorem eq_of_selected {r' : AUM} (hsel : Selected C N L r') : r' = r := by
  obtain ⟨⟨t, ht, -, hr'⟩, -⟩ := hsel
  exact hr'.unique h.injOn (h.oldestOf ht)

/-- **A tree of verified AUMs has an active chain exactly when none of its chains has more
AUMs than the bound.** -/
theorem exists_activeChain_iff : (∃ a, ActiveChain C N L n a) ↔ (forkRule C).Within N n := by
  rw [Tka.exists_activeChain_iff h.acyclic h.finite h.injOn]
  constructor
  · exact fun hchain => hchain.1
  · intro hwithin
    obtain ⟨st₀, hst⟩ := h.base
    exact ⟨hwithin, r, h.selected, st₀, hst, h.exists_descend (x := (r, st₀)) hwithin hst⟩

end VerifiedTree

/-! ## Authorities on the primary chain -/

variable (C) in
/-- The authority is at the tip of the primary chain of its tree. -/
structure Current (N : Set AUM) (a : Authority) : Prop where
  tree : VerifiedTree C N a.oldestAncestor
  primary : ∃ st₀, StateAt C N 0 a.oldestAncestor st₀ ∧
    ∃ k, Steps ((forkRule C).Descend N) k (a.oldestAncestor, st₀) (a.head, a.state)
  tip : (forkRule C).Tip N a.head

namespace Current

theorem stateAt (h : Current C N a) : ∃ n, StateAt C N n a.head a.state := by
  obtain ⟨st₀, hst, k, hk⟩ := h.primary
  exact stateAt_of_descend hk ⟨0, hst⟩

/-- **The set of AUMs and the root determine the authority.** -/
theorem eq (ha : Current C N a) (hb : Current C N b)
    (hroot : a.oldestAncestor = b.oldestAncestor) : a = b := by
  obtain ⟨st₀, hst, k, hk⟩ := ha.primary
  obtain ⟨st₁, hst', l, hl⟩ := hb.primary
  rw [← hroot] at hst' hl
  obtain ⟨-, rfl⟩ := hst.unique ha.tree.injOn hst'
  have := ForkRule.tip_unique ha.tree.injOn hk ha.tip hl hb.tip
  obtain ⟨ahead, aold, astate⟩ := a
  obtain ⟨bhead, bold, bstate⟩ := b
  obtain rfl : aold = bold := hroot
  cases this
  rfl

theorem activeChain (h : Current C N a) (hwithin : (forkRule C).Within N n) :
    ActiveChain C N L n a := by
  obtain ⟨st₀, hst, k, hk⟩ := h.primary
  exact ⟨(h.tree.acyclic.within_iff h.tree.finite h.tree.injOn).1 hwithin, h.tree.selected, st₀,
    hst, k, ForkRule.lt_of_descend hwithin hst.mem hk, hk, h.tip⟩

end Current

/-- In a tree of verified AUMs, what `computeActiveChain` finds is current. -/
theorem ActiveChain.current (ha : ActiveChain C N L n a) (h : VerifiedTree C N r) :
    a.oldestAncestor = r ∧ Current C N a := by
  have hr := h.eq_of_selected ha.selected
  obtain ⟨st₀, hst, k, -, hk, htip⟩ := ha.primary
  exact ⟨hr, hr ▸ h, ⟨st₀, hst, k, hk⟩, htip⟩

end Multiport.Tka

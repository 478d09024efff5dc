import Multiport.Lib.Lists
import Multiport.Tailcfg.Node
import Multiport.Tka.State
import Mathlib.Data.Set.Finite.List

/-!
# Storage of AUMs

`Chonk` is the storage interface of the key authority with its documented contract:
an AUM is found by its digest, `ChildAUMs` and `Heads` are about the AUMs that are
stored, and commits add AUMs.  The order in which a storage lists AUMs is its own.
`Mem` is the in-memory storage, which keeps an index from an AUM to its children beside
the AUMs; `Mem.chonk` shows that it meets the contract.

A commit of two AUMs with one digest would lose one of them, so the contract is about
AUMs whose digests do not collide.
-/

namespace Multiport.Tka

open Lib Tailcfg List GoMap Set

/-- No two AUMs of a list share a digest. -/
def Crypto.CollisionFree (C : Crypto) (us : List AUM) : Prop :=
  ∀ a ∈ us, ∀ b ∈ us, C.hash a = C.hash b → a = b

instance (C : Crypto) (us : List AUM) : Decidable (C.CollisionFree us) :=
  inferInstanceAs (Decidable (∀ a ∈ us, ∀ b ∈ us, C.hash a = C.hash b → a = b))

variable {us : List AUM}

theorem Crypto.CollisionFree.injOn {C : Crypto} (h : C.CollisionFree us) {N : Set AUM}
    (hN : ∀ u ∈ N, u ∈ us) : InjOn C.hash N :=
  fun x hx y hy => h x (hN x hx) y (hN y hy)

theorem Crypto.CollisionFree.injOn_cons {C : Crypto} {a : AUM} (h : C.CollisionFree (a :: us)) :
    InjOn C.hash ({a} ∪ {u | u ∈ us}) :=
  h.injOn fun _ hu => mem_cons.2 hu

/-- The storage of an authority, with the contract of the methods it uses. -/
structure Chonk (C : Crypto) (σ : Type) where
  aum : σ → AUMHash → Option AUM
  childAUMs : σ → AUMHash → List AUM
  heads : σ → List AUM
  lastActiveAncestor : σ → Option AUMHash
  setLastActiveAncestor : σ → AUMHash → σ
  commitVerifiedAUMs : σ → Time → List AUM → σ
  allAUMs : σ → List AUMHash
  /-- The invariant of the storage's own indices. -/
  Consistent : σ → Prop
  hash_of_aum : ∀ {s h a}, Consistent s → aum s h = some a → C.hash a = h
  mem_childAUMs : ∀ {s p a}, Consistent s →
    (a ∈ childAUMs s p ↔ aum s (C.hash a) = some a ∧ a.parent = some p)
  mem_heads : ∀ {s a}, Consistent s → (a ∈ heads s ↔ aum s (C.hash a) = some a ∧
    ∀ c, aum s (C.hash c) = some c → c.parent ≠ some (C.hash a))
  mem_allAUMs : ∀ {s h}, Consistent s → (h ∈ allAUMs s ↔ ∃ a, aum s h = some a)
  consistent_set : ∀ {s h}, Consistent s → Consistent (setLastActiveAncestor s h)
  aum_set : ∀ s h, aum (setLastActiveAncestor s h) = aum s
  lastActiveAncestor_set : ∀ s h, lastActiveAncestor (setLastActiveAncestor s h) = some h
  consistent_commit : ∀ {s now us}, Consistent s →
    InjOn C.hash ({a | aum s (C.hash a) = some a} ∪ {a | a ∈ us}) →
    Consistent (commitVerifiedAUMs s now us)
  aum_commit : ∀ {s now us h a}, Consistent s →
    InjOn C.hash ({a | aum s (C.hash a) = some a} ∪ {a | a ∈ us}) →
    (aum (commitVerifiedAUMs s now us) h = some a ↔ aum s h = some a ∨ (a ∈ us ∧ C.hash a = h))
  lastActiveAncestor_commit : ∀ s now us,
    lastActiveAncestor (commitVerifiedAUMs s now us) = lastActiveAncestor s

namespace Chonk

variable {C : Crypto} {σ : Type} (K : Chonk C σ) {s : σ} {h p : AUMHash} {a : AUM}

def stored (s : σ) : Set AUM := {a | K.aum s (C.hash a) = some a}

instance : Decidable (a ∈ K.stored s) :=
  inferInstanceAs (Decidable (K.aum s (C.hash a) = some a))

theorem injOn_stored (s : σ) : InjOn C.hash (K.stored s) := by
  intro a ha b hb hab
  rw [stored, mem_ofPred_eq, ← hab] at hb
  exact Option.mem_unique ha hb

variable {K}

theorem finite_stored (hs : K.Consistent s) : (K.stored s).Finite := by
  refine Finite.of_finite_image ((K.allAUMs s).finite_toSet.subset ?_) (K.injOn_stored s)
  rintro _ ⟨a, ha, rfl⟩
  exact (K.mem_allAUMs hs).2 ⟨a, ha⟩

theorem aum_eq_some_iff (hs : K.Consistent s) :
    K.aum s h = some a ↔ a ∈ K.stored s ∧ C.hash a = h := by
  constructor
  · intro ha
    obtain rfl := K.hash_of_aum hs ha
    exact ⟨ha, rfl⟩
  · rintro ⟨ha, rfl⟩
    exact ha

theorem aum_eq_none_iff (hs : K.Consistent s) :
    K.aum s h = none ↔ ∀ a ∈ K.stored s, C.hash a ≠ h := by
  rw [Option.eq_none_iff_forall_ne_some]
  simp [aum_eq_some_iff hs]

theorem stored_commit {now : Time} (hs : K.Consistent s)
    (hinj : InjOn C.hash (K.stored s ∪ {a | a ∈ us})) :
    K.stored (K.commitVerifiedAUMs s now us) = K.stored s ∪ {a | a ∈ us} := by
  ext a
  rw [stored, mem_ofPred_eq, K.aum_commit hs hinj]
  simp [stored]

theorem stored_set : K.stored (K.setLastActiveAncestor s h) = K.stored s := by
  rw [stored, K.aum_set]
  rfl

end Chonk

/-! ## In-memory storage -/

/-- `Mem`.  `parentIndex` lists, for an AUM, the AUMs of which it is the parent. -/
structure Mem where
  aums : GoMap AUMHash AUM := ∅
  commitTimes : GoMap AUMHash Time := ∅
  parentIndex : GoMap AUMHash (List AUMHash) := ∅
  lastActiveAncestor : Option AUMHash := none

namespace Mem

variable (C : Crypto)

/-- `c.parentIndex[h]`. -/
def children (m : Mem) (h : AUMHash) : List AUMHash := (m.parentIndex.lookup h).getD []

/-- `ChildAUMs`; a missing map entry reads as the zero AUM. -/
def childAUMs (m : Mem) (h : AUMHash) : List AUM :=
  (m.children h).map fun entry => (m.aums.lookup entry).getD { messageKind := .invalid }

def heads (m : Mem) : List AUM := m.aums.values.filter fun a => (m.children (C.hash a)).isEmpty

/-- One round of `CommitVerifiedAUMs`. -/
def commitOne (now : Time) (m : Mem) (a : AUM) : Mem :=
  { m with
    aums := m.aums.insert (C.hash a) a
    commitTimes := m.commitTimes.insert (C.hash a) now
    parentIndex :=
      match a.parent with
      | none => m.parentIndex
      | some parent =>
        if (m.children parent).contains (C.hash a) then m.parentIndex
        else m.parentIndex.insert parent (m.children parent ++ [C.hash a]) }

def commitVerifiedAUMs (m : Mem) (now : Time) (updates : List AUM) : Mem :=
  updates.foldl (commitOne C now) m

/-- The index lists the children of an AUM that are stored. -/
structure Consistent (m : Mem) : Prop where
  hash_eq : ∀ {h a}, m.aums.lookup h = some a → C.hash a = h
  mem_children : ∀ {p h}, h ∈ m.children p ↔ ∃ a, m.aums.lookup h = some a ∧ a.parent = some p

variable {C} {m : Mem} {a : AUM} {h p : AUMHash} {now : Time}

theorem mem_children_commitOne :
    h ∈ (commitOne C now m a).children p ↔
      h ∈ m.children p ∨ (a.parent = some p ∧ h = C.hash a) := by
  unfold commitOne
  cases ha : a.parent with
  | none => simp [children]
  | some q =>
    dsimp only
    split
    next hc =>
      rw [contains_iff_mem] at hc
      constructor
      · exact .inl
      · rintro (hh | ⟨hq, rfl⟩)
        · exact hh
        · cases hq
          exact hc
    · rw [children, lookup_insert_eq]
      by_cases hq : p = q
      · subst hq
        simp
      · rw [if_neg hq]
        simp [children, Ne.symm hq]

section

variable (hm : m.Consistent C)

include hm

theorem Consistent.commitOne (now : Time) (hnew : ∀ b, m.aums.lookup (C.hash a) = some b → b = a) :
    (Mem.commitOne C now m a).Consistent C where
  hash_eq := by
    intro h b hb
    rw [Mem.commitOne, lookup_insert_eq] at hb
    split at hb
    next heq =>
      cases hb
      exact heq.symm
    · exact hm.hash_eq hb
  mem_children := by
    intro p h
    rw [mem_children_commitOne, hm.mem_children]
    change _ ↔ ∃ b, (m.aums.insert (C.hash a) a).lookup h = some b ∧ _
    rw [lookup_insert_eq]
    by_cases hh : h = C.hash a
    · subst hh
      rw [if_pos rfl]
      constructor
      · rintro (⟨b, hb, hbp⟩ | ⟨hap, -⟩)
        · exact ⟨a, rfl, hnew b hb ▸ hbp⟩
        · exact ⟨a, rfl, hap⟩
      · rintro ⟨b, hb, hbp⟩
        cases hb
        exact .inr ⟨hbp, rfl⟩
    · simp [hh]

/-- Commits of AUMs without collisions keep the indices, and add exactly the AUMs. -/
theorem commit_spec (hinj : InjOn C.hash ({a | m.aums.lookup (C.hash a) = some a} ∪ {a | a ∈ us})) :
    (commitVerifiedAUMs C m now us).Consistent C ∧ ∀ h a,
      (commitVerifiedAUMs C m now us).aums.lookup h = some a ↔
        m.aums.lookup h = some a ∨ (a ∈ us ∧ C.hash a = h) := by
  induction us generalizing m with
  | nil => exact ⟨hm, fun h a => by simp [commitVerifiedAUMs]⟩
  | cons u us ih =>
    have hnew : ∀ b, m.aums.lookup (C.hash u) = some b → b = u := by
      intro b hb
      have hbh := hm.hash_eq hb
      exact hinj (.inl (by rw [mem_ofPred_eq, hbh]; exact hb)) (.inr (by simp)) hbh
    have hget : ∀ h a, (commitOne C now m u).aums.lookup h = some a ↔
        m.aums.lookup h = some a ∨ (a = u ∧ C.hash a = h) := by
      intro h a
      change (m.aums.insert (C.hash u) u).lookup h = some a ↔ _
      rw [lookup_insert_eq]
      split
      next heq =>
        subst heq
        constructor
        · intro hua
          cases hua
          exact .inr ⟨rfl, rfl⟩
        · rintro (ha | ⟨rfl, -⟩)
          · rw [hnew a ha]
          · rfl
      next hne =>
        constructor
        · exact .inl
        · rintro (ha | ⟨rfl, hah⟩)
          · exact ha
          · exact absurd hah.symm hne
    have hsub : ({a | (commitOne C now m u).aums.lookup (C.hash a) = some a} ∪ {a | a ∈ us}) ⊆
        {a | m.aums.lookup (C.hash a) = some a} ∪ {a | a ∈ u :: us} := by
      rintro a (ha | ha)
      · rcases (hget _ _).1 ha with ha | ⟨rfl, -⟩
        · exact .inl ha
        · exact .inr (by simp)
      · exact .inr (mem_cons_of_mem _ ha)
    obtain ⟨hc, hall⟩ := ih (hm.commitOne now hnew) (hinj.mono hsub)
    refine ⟨hc, fun h a => ?_⟩
    rw [show commitVerifiedAUMs C m now (u :: us) =
      commitVerifiedAUMs C (commitOne C now m u) now us from rfl,
      hall, hget, mem_cons, or_assoc, ← or_and_right]

end

variable (C)

/-- **The in-memory storage meets the contract.** -/
def chonk : Chonk C Mem where
  aum m h := m.aums.lookup h
  childAUMs := childAUMs
  heads := heads C
  lastActiveAncestor := lastActiveAncestor
  setLastActiveAncestor m h := { m with lastActiveAncestor := some h }
  commitVerifiedAUMs := commitVerifiedAUMs C
  allAUMs m := m.aums.keys
  Consistent := Consistent C
  hash_of_aum hm ha := hm.hash_eq ha
  mem_childAUMs := by
    intro m p a hm
    rw [childAUMs, List.mem_map]
    constructor
    · rintro ⟨h, hh, ha⟩
      obtain ⟨b, hb, hbp⟩ := hm.mem_children.1 hh
      rw [hb, Option.getD_some] at ha
      subst ha
      exact ⟨by rwa [hm.hash_eq hb], hbp⟩
    · rintro ⟨ha, hap⟩
      exact ⟨C.hash a, hm.mem_children.2 ⟨a, ha, hap⟩, by rw [ha, Option.getD_some]⟩
  mem_heads := by
    intro m a hm
    rw [heads, List.mem_filter, mem_values, List.isEmpty_iff, List.eq_nil_iff_forall_not_mem]
    constructor
    · rintro ⟨⟨h, ha⟩, hnone⟩
      refine ⟨by rwa [hm.hash_eq ha], fun c hc hca => ?_⟩
      exact hnone _ (hm.mem_children.2 ⟨c, hc, hca⟩)
    · rintro ⟨ha, hnone⟩
      refine ⟨⟨_, ha⟩, fun h hh => ?_⟩
      obtain ⟨c, hc, hca⟩ := hm.mem_children.1 hh
      exact hnone c (by rwa [hm.hash_eq hc]) hca
  mem_allAUMs _ := mem_keys_iff
  consistent_set hm := { hm with }
  aum_set _ _ := rfl
  lastActiveAncestor_set _ _ := rfl
  consistent_commit hm hinj := (commit_spec hm hinj).1
  aum_commit hm hinj := (commit_spec hm hinj).2 _ _
  lastActiveAncestor_commit m now us := by
    rw [commitVerifiedAUMs]
    apply foldl_keeps Mem.lastActiveAncestor
    exact fun _ _ => rfl
theorem consistent_empty : ({} : Mem).Consistent C where
  hash_eq h := by cases h
  mem_children := by simp [children]

theorem stored_empty : (chonk C).stored {} = ∅ :=
  eq_empty_of_forall_notMem fun _ => nofun

variable {C}

theorem consistent_of_list (now : Time) (h : AUMHash) (hus : C.CollisionFree us) :
    (chonk C).Consistent ((chonk C).setLastActiveAncestor
      ((chonk C).commitVerifiedAUMs {} now us) h) := by
  refine (chonk C).consistent_set ((chonk C).consistent_commit (consistent_empty C) ?_)
  change InjOn C.hash ((chonk C).stored {} ∪ {a | a ∈ us})
  rw [stored_empty, empty_union]
  exact hus

theorem stored_of_list (now : Time) (h : AUMHash) (hus : C.CollisionFree us) :
    (chonk C).stored ((chonk C).setLastActiveAncestor
      ((chonk C).commitVerifiedAUMs {} now us) h) = {a | a ∈ us} := by
  have hinj : InjOn C.hash ((chonk C).stored {} ∪ {a | a ∈ us}) := by
    rw [stored_empty, empty_union]
    exact hus
  rw [Chonk.stored_set, Chonk.stored_commit (consistent_empty C) hinj, stored_empty,
    empty_union]

end Mem

end Multiport.Tka

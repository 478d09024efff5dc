import Mathlib.Data.Finset.Basic
import Multiport.Lib.Maps

/-!
# Indexes kept in both directions

A map from addresses to their owners, together with the set of addresses of each
owner.  `ReverseIndex` says that the two agree for the owners that are live: the
map is the inverse of the sets.  `MarkedIndex` is about a map from the keys of the
owners to the only marked address each may have.  Each operation is one lemma.

`TwoIndexes` is about values that are found in two ways, by their key and by their
ID, and `Inverse` about two maps that are inverse to each other.
-/

namespace Multiport.Lib

open Function GoMap Option

universe u v

variable {A : Type u} {P : Type v} [DecidableEq A]

/-- The map leads from an address to its owner, and owners that are live have exactly the
addresses of their sets. -/
def ReverseIndex (fwd : GoMap A P) (live : P → Prop) (sets : P → Finset A) : Prop :=
  ∀ a p, fwd.lookup a = some p ↔ live p ∧ a ∈ sets p

namespace ReverseIndex

variable {fwd : GoMap A P} {live : P → Prop} {sets : P → Finset A} {a : A} {p : P}

variable (h : ReverseIndex fwd live sets)

include h

theorem owner_unique {q : P} (hp : fwd.lookup a = some p) (hlive : live q) (hmem : a ∈ sets q) :
    q = p := by
  have hq := (h a q).2 ⟨hlive, hmem⟩
  exact Option.mem_unique hq hp

theorem erase [DecidableEq P] (hp : fwd.lookup a = some p) :
    ReverseIndex (fwd.erase a) live (update sets p ((sets p).erase a)) := by
  intro b q
  rw [lookup_erase_iff, h b q, and_assoc]
  refine and_congr_right fun hlive => ?_
  by_cases hq : q = p
  · subst hq
    rw [update_self, Finset.mem_erase, and_comm]
  · rw [update_of_ne hq, and_iff_left_of_imp]
    rintro hmem rfl
    exact hq (h.owner_unique hp hlive hmem)

theorem insert [DecidableEq P] (ha : fwd.lookup a = none) (hp : live p) :
    ReverseIndex (fwd.insert a p) live (update sets p (insert a (sets p))) := by
  intro b q
  rw [lookup_insert_of_none ha, h b q]
  by_cases hq : q = p
  · subst hq
    simp [hp]
  · simp [hq]

theorem enlist (hp : sets p = ∅) {live' : P → Prop} (hlive : ∀ q, live' q ↔ live q ∨ q = p) :
    ReverseIndex fwd live' sets := by
  intro b q
  rw [h b q, hlive q]
  constructor
  · rintro ⟨hq, hmem⟩
    exact ⟨.inl hq, hmem⟩
  · rintro ⟨hq | rfl, hmem⟩
    · exact ⟨hq, hmem⟩
    · rw [hp] at hmem
      exact absurd hmem (Finset.notMem_empty b)

theorem delete (hp : live p) {live' : P → Prop} (hlive : ∀ q, live' q ↔ live q ∧ q ≠ p) :
    ReverseIndex (fwd.deleteWhere fun a _ => a ∈ sets p) live' sets := by
  intro b q
  rw [lookup_deleteWhere, filter_eq_some_iff, h b q, hlive q, Bool.not_eq_true',
    decide_eq_false_iff_not]
  constructor
  · rintro ⟨⟨hq, hmem⟩, hnot⟩
    refine ⟨⟨hq, ?_⟩, hmem⟩
    rintro rfl
    exact hnot hmem
  · rintro ⟨⟨hq, hne⟩, hmem⟩
    refine ⟨⟨hq, hmem⟩, fun hp' => hne ?_⟩
    exact (h.owner_unique ((h b p).2 ⟨hp, hp'⟩) hq hmem)

end ReverseIndex

/-! ## The marked address of each key -/

section MarkedIndex

universe w

variable {K : Type w} [DecidableEq K]

/-- The index leads from the key of an owner to the marked address of the owner. -/
def MarkedIndex (mark : A → Bool) (keys : GoMap K P) (fwd : GoMap A P) (index : GoMap K A) : Prop :=
  ∀ k a, index.lookup k = some a ↔
    mark a = true ∧ ∃ p, keys.lookup k = some p ∧ fwd.lookup a = some p

namespace MarkedIndex

variable {mark : A → Bool} {keys : GoMap K P} {fwd : GoMap A P} {index : GoMap K A} {k : K} {a : A}
  {p : P}

variable (h : MarkedIndex mark keys fwd index)

include h

theorem unique (hk : keys.lookup k = some p) (ha : mark a = true) (hap : fwd.lookup a = some p)
    {b : A} (hb : mark b = true) (hbp : fwd.lookup b = some p) : b = a := by
  have ha' := (h k a).2 ⟨ha, p, hk, hap⟩
  have hb' := (h k b).2 ⟨hb, p, hk, hbp⟩
  exact Option.mem_unique hb' ha'

theorem congr_marked {fwd' : GoMap A P}
    (hsame : ∀ b, mark b = true → fwd'.lookup b = fwd.lookup b) :
    MarkedIndex mark keys fwd' index := by
  intro k b
  rw [h k b]
  refine and_congr_right fun hb => ?_
  rw [hsame b hb]

theorem erase (hk : keys.lookup k = some p) (hinj : ∀ k', keys.lookup k' = some p → k' = k)
    (ha : mark a = true) (hp : fwd.lookup a = some p) :
    MarkedIndex mark keys (fwd.erase a) (index.erase k) := by
  intro k' b
  simp only [lookup_erase_iff]
  rw [h k' b]
  constructor
  · rintro ⟨⟨hb, q, hq, hbq⟩, hne⟩
    refine ⟨hb, q, hq, hbq, ?_⟩
    rintro rfl
    cases hbq.symm.trans hp
    exact hne (hinj k' hq)
  · rintro ⟨hb, q, hq, hbq, hne⟩
    refine ⟨⟨hb, q, hq, hbq⟩, ?_⟩
    rintro rfl
    cases hq.symm.trans hk
    exact hne (h.unique hk ha hp hb hbq)

omit h in
theorem insert (h : MarkedIndex mark keys fwd (index.erase k)) (hk : keys.lookup k = some p)
    (hinj : ∀ k', keys.lookup k' = some p → k' = k) (ha : mark a = true)
    (hnone : fwd.lookup a = none) : MarkedIndex mark keys (fwd.insert a p) (index.insert k a) := by
  intro k' b
  simp only [lookup_insert_iff, lookup_insert_of_none hnone]
  rw [h k' b]
  constructor
  · rintro (⟨rfl, rfl⟩ | ⟨hb, q, hq, hbq⟩)
    · exact ⟨ha, p, hk, .inl ⟨rfl, rfl⟩⟩
    · exact ⟨hb, q, hq, .inr hbq⟩
  · rintro ⟨hb, q, hq, ⟨rfl, rfl⟩ | hbq⟩
    · exact .inl ⟨hinj k' hq, rfl⟩
    · exact .inr ⟨hb, q, hq, hbq⟩

theorem erase_key_of_none (hk : index.lookup k = none) :
    MarkedIndex mark keys fwd (index.erase k) := by
  intro k' b
  rw [lookup_erase_eq, ← h k' b]
  rcases eq_or_ne k' k with rfl | hne
  · rw [if_pos rfl, hk]
  · rw [if_neg hne]

theorem enlist (hk : keys.lookup k = none) (hp : ∀ a, fwd.lookup a ≠ some p) :
    MarkedIndex mark (keys.insert k p) fwd index := by
  intro k' b
  rw [h k' b, lookup_insert_eq]
  refine and_congr_right fun _ => exists_congr fun q => ?_
  rcases eq_or_ne k' k with rfl | hne
  · rw [if_pos rfl, hk]
    refine ⟨fun hq => absurd hq.1 (by simp), ?_⟩
    rintro ⟨hq, hbq⟩
    cases hq
    exact absurd hbq (hp b)
  · rw [if_neg hne]

theorem delete (hinj : ∀ k', keys.lookup k' = some p → k' = k) {s : Finset A}
    (hs : ∀ a q, fwd.lookup a = some q → a ∈ s → q = p) :
    MarkedIndex mark (keys.erase k) (fwd.deleteWhere fun a _ => a ∈ s) (index.erase k) := by
  intro k' b
  rw [lookup_erase_eq, lookup_erase_eq, lookup_deleteWhere]
  rcases eq_or_ne k' k with rfl | hne
  · simp
  rw [if_neg hne, if_neg hne, h k' b]
  refine and_congr_right fun _ => exists_congr fun q => and_congr_right fun hq => ?_
  rw [filter_eq_some_iff, Bool.not_eq_true', decide_eq_false_iff_not]
  refine ⟨fun hb => ⟨hb, fun hmem => ?_⟩, And.left⟩
  obtain rfl := hs b q hb hmem
  exact hne (hinj k' hq)

end MarkedIndex

end MarkedIndex

/-! ## Two indexes of the same values -/

section TwoIndexes

universe w

variable {K : Type u} {I : Type v} {E : Type w} [DecidableEq K] [DecidableEq I]

/-- The values found by key are those found by ID, each under its own. -/
structure TwoIndexes (key : E → K) (id : E → I) (byKey : K → Option E) (byID : I → Option E) :
    Prop where
  key_eq : ∀ k e, byKey k = some e → key e = k
  id_eq : ∀ i e, byID i = some e → id e = i
  same : ∀ e, byKey (key e) = some e ↔ byID (id e) = some e

namespace TwoIndexes

variable {key : E → K} {id : E → I} {byKey : K → Option E} {byID : I → Option E} {e : E}

omit [DecidableEq K] [DecidableEq I] in
theorem empty : TwoIndexes key id (fun _ => none) fun _ => none where
  key_eq _ _ h := absurd h.symm (some_ne_none _)
  id_eq _ _ h := absurd h.symm (some_ne_none _)
  same _ := Iff.rfl

omit [DecidableEq I] in
theorem key_eq_update (h : ∀ k e, byKey k = some e → key e = k) {o : Option E} {k₀ : K}
    (ho : ∀ e ∈ o, key e = k₀) (k : K) (e : E) (hk : update byKey k₀ o k = some e) :
    key e = k := by
  rw [update_apply] at hk
  split at hk
  next heq => exact (ho e hk).trans heq.symm
  · exact h k e hk

omit [DecidableEq I] in
theorem update_none_iff (he : byKey (key e) = some e) {e' : E} :
    update byKey (key e) none (key e') = some e' ↔ byKey (key e') = some e' ∧ e' ≠ e := by
  rw [update_apply]
  split
  next heq =>
    refine iff_of_false nofun fun ⟨he', hne⟩ => hne ?_
    exact Option.mem_unique he' (heq ▸ he)
  next hne =>
    refine (and_iff_left ?_).symm
    rintro rfl
    exact hne rfl

omit [DecidableEq I] in
theorem update_some_iff (hk : byKey (key e) = none) {e' : E} :
    update byKey (key e) (some e) (key e') = some e' ↔
      byKey (key e') = some e' ∨ e' = e := by
  rw [update_apply]
  split
  next heq => simp [heq, hk, eq_comm]
  next hne =>
    refine (or_iff_left ?_).symm
    rintro rfl
    exact hne rfl

variable (h : TwoIndexes key id byKey byID)

include h

omit [DecidableEq K] [DecidableEq I] in
theorem byID_of_byKey {k : K} (hk : byKey k = some e) : byID (id e) = some e := by
  apply (h.same e).1
  rw [h.key_eq k e hk, hk]

omit [DecidableEq K] [DecidableEq I] in
theorem byKey_of_byID {i : I} (hi : byID i = some e) : byKey (key e) = some e := by
  apply (h.same e).2
  rw [h.id_eq i e hi, hi]

theorem erase (he : byKey (key e) = some e) :
    TwoIndexes key id (update byKey (key e) none) (update byID (id e) none) where
  key_eq := key_eq_update h.key_eq nofun
  id_eq := key_eq_update h.id_eq nofun
  same e' := by rw [update_none_iff he, update_none_iff ((h.same e).1 he), h.same e']

theorem insert (hk : byKey (key e) = none) (hi : byID (id e) = none) :
    TwoIndexes key id (update byKey (key e) (some e)) (update byID (id e) (some e)) where
  key_eq := key_eq_update h.key_eq (by simp)
  id_eq := key_eq_update h.id_eq (by simp)
  same e' := by rw [update_some_iff hk, update_some_iff hi, h.same e']

/-- A value may be filed if no other has its key or its ID; it may be there already. -/
theorem put (hk : ∀ e', byKey (key e) = some e' → e' = e)
    (hi : ∀ e', byID (id e) = some e' → e' = e) : TwoIndexes key id (update byKey (key e) (some e))
      (update byID (id e) (some e)) := by
  cases he : byKey (key e) with
  | some e' =>
    obtain rfl := hk e' he
    have hid := (h.same e').1 he
    rwa [← he, update_eq_self, he, ← hid, update_eq_self]
  | none =>
    refine h.insert he ?_
    rw [eq_none_iff_forall_ne_some]
    intro e' he'
    obtain rfl := hi e' he'
    rw [(h.same e').2 he'] at he
    cases he

end TwoIndexes

end TwoIndexes

/-! ## Look-ups that change at one key -/

section Lookup

variable {K : Type u} {V : Type v} [DecidableEq K]

theorem GoMap.lookup_insert_update (m : GoMap K V) (k : K) (v : V) :
    (fun k' => (m.insert k v).lookup k') = update (fun k' => m.lookup k') k (some v) := by
  funext k'
  rw [lookup_insert_eq, update_apply]

theorem GoMap.lookup_erase_update (m : GoMap K V) (k : K) :
    (fun k' => (m.erase k).lookup k') = update (fun k' => m.lookup k') k none := by
  funext k'
  rw [lookup_erase_eq, update_apply]

end Lookup

/-! ## Inverse maps -/

section Inverse

variable {B : Type v} [DecidableEq B]

/-- Each map leads back where the other one comes from. -/
def Inverse (fwd : GoMap A B) (bwd : GoMap B A) : Prop :=
  ∀ a b, fwd.lookup a = some b ↔ bwd.lookup b = some a

namespace Inverse

variable {fwd : GoMap A B} {bwd : GoMap B A} {a : A} {b : B}

theorem empty : Inverse (∅ : GoMap A B) ∅ := fun _ _ =>
  iff_of_false (fun h => some_ne_none _ h.symm) fun h => some_ne_none _ h.symm

theorem erase (h : Inverse fwd bwd) (hab : fwd.lookup a = some b) :
    Inverse (fwd.erase a) (bwd.erase b) := by
  intro a' b'
  rw [lookup_erase_iff, lookup_erase_iff, h a' b']
  refine and_congr_right fun hb => not_congr ⟨?_, ?_⟩
  · rintro rfl
    exact some.inj (((h a' b').2 hb).symm.trans hab)
  · rintro rfl
    exact some.inj (hb.symm.trans ((h a b').1 hab))

theorem insert (h : Inverse fwd bwd) (ha : fwd.lookup a = none) (hb : bwd.lookup b = none) :
    Inverse (fwd.insert a b) (bwd.insert b a) := by
  intro a' b'
  rw [lookup_insert_of_none ha, lookup_insert_of_none hb, h a' b', and_comm]

end Inverse

end Inverse

end Multiport.Lib

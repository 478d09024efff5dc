import Mathlib.Data.List.Sort
import Multiport.Lib.Maps

/-!
# Maps of maps

Two-level Go maps: the inner map of a key is made with its first entry and deleted with its
last one, so that no inner map is empty.  `Nested.find` looks up both keys at once.

`GoMap.valuesBy` is a `range` over a map in some other order than that of its entries.
-/

namespace Multiport.Lib

open Function GoMap Option

universe u v w

namespace GoMap

variable {K : Type u} {V : Type v}

/-- The values of a map, in the order that `rank` gives to its keys. -/
def valuesBy (rank : K → Nat) (m : GoMap K V) : List V :=
  (m.entries.insertionSort fun e e' => rank e.1 ≤ rank e'.1).map Sigma.snd

theorem perm_valuesBy (rank : K → Nat) (m : GoMap K V) : (m.valuesBy rank).Perm m.values :=
  (List.perm_insertionSort _ m.entries).map _

theorem mem_valuesBy [DecidableEq K] {rank : K → Nat} {m : GoMap K V} {v : V} :
    v ∈ m.valuesBy rank ↔ ∃ k, m.lookup k = some v := by
  rw [(perm_valuesBy rank m).mem_iff, mem_values]

theorem size_eq_zero_iff [DecidableEq K] {m : GoMap K V} : m.size = 0 ↔ ∀ k, m.lookup k = none := by
  rw [size, List.length_eq_zero_iff, List.eq_nil_iff_forall_not_mem]
  constructor
  · intro h k
    rw [eq_none_iff_forall_ne_some]
    exact fun v hv => h ⟨k, v⟩ (lookup_eq_some_iff.1 hv)
  · rintro h ⟨k, v⟩ he
    have hv := lookup_eq_some_iff.2 he
    rw [h k] at hv
    cases hv

end GoMap

/-- A Go map of maps. -/
structure Nested (A : Type u) (B : Type v) (V : Type w) where
  maps : GoMap A (GoMap B V) := ∅

namespace Nested

variable {A : Type u} {B : Type v} {V : Type w} [DecidableEq A] [DecidableEq B]

variable (m : Nested A B V)

/-- `m[k.1][k.2]`. -/
def find (k : A × B) : Option V :=
  (m.maps.lookup k.1).bind fun inner => inner.lookup k.2

/-- `m[a][b] = v`, with a new inner map if there is none. -/
def put (k : A × B) (v : V) : Nested A B V :=
  ⟨m.maps.insert k.1 (((m.maps.lookup k.1).getD ∅).insert k.2 v)⟩

/-- `delete(m[a], b); if len(m[a]) == 0 { delete(m, a) }`. -/
def delete (k : A × B) : Nested A B V :=
  match m.maps.lookup k.1 with
  | none => m
  | some inner =>
    if size (inner.erase k.2) = 0 then ⟨m.maps.erase k.1⟩
    else ⟨m.maps.insert k.1 (inner.erase k.2)⟩

/-- No inner map is empty. -/
def NoEmpty : Prop := ∀ a inner, m.maps.lookup a = some inner → inner.size ≠ 0

section

variable (m : Nested A B V) (k : A × B)

theorem find_insert (a : A) (inner : GoMap B V) :
    find ⟨m.maps.insert a inner⟩ k = if k.1 = a then inner.lookup k.2 else m.find k := by
  rw [find, lookup_insert_eq]
  split
  · rfl
  · rfl

theorem find_erase (a : A) : find ⟨m.maps.erase a⟩ k = if k.1 = a then none else m.find k := by
  rw [find, lookup_erase_eq]
  split
  · rfl
  · rfl

theorem update_find (k' : A × B) (v : Option V) :
    update m.find k v k' = if k'.1 = k.1 then if k'.2 = k.2 then v else m.find (k.1, k'.2)
      else m.find k' := by
  obtain ⟨a, b⟩ := k
  obtain ⟨a', b'⟩ := k'
  simp only [update_apply, Prod.mk.injEq, ite_and]
  split
  next ha => rw [ha]
  · rfl

theorem find_put (v : V) : (m.put k v).find = update m.find k (some v) := by
  funext k'
  rw [update_find, put, find_insert, lookup_insert_eq]
  refine if_congr Iff.rfl (if_congr Iff.rfl rfl ?_) rfl
  rw [find]
  cases m.maps.lookup k.1 <;> rfl

theorem find_delete : (m.delete k).find = update m.find k none := by
  funext k'
  rw [update_find, delete]
  cases hm : m.maps.lookup k.1 with
  | none =>
    have hnone : m.find (k.1, k'.2) = none := congrArg (Option.bind · _) hm
    rw [hnone, ite_self]
    dsimp only
    split
    next ha => rw [← hnone, ← ha]
    · rfl
  | some inner =>
    have hinner : m.find (k.1, k'.2) = inner.lookup k'.2 := congrArg (Option.bind · _) hm
    rw [hinner, ← lookup_erase_eq]
    dsimp only
    split
    next hsize => rw [find_erase, size_eq_zero_iff.1 hsize]
    · rw [find_insert]

end

variable {m : Nested A B V} {v : V}

/-- What is found below a key is among the values of its inner map. -/
theorem mem_valuesBy_of_find {a : A} {b : B} (rank : B → Nat) (h : m.find (a, b) = some v) :
    v ∈ valuesBy rank ((m.maps.lookup a).getD ∅) := by
  obtain ⟨inner, hinner, hv⟩ := bind_eq_some_iff.1 h
  have ha : m.maps.lookup a = some inner := hinner
  rw [ha]
  exact mem_valuesBy.2 ⟨b, hv⟩

omit [DecidableEq B] in
theorem NoEmpty.empty : ({} : Nested A B V).NoEmpty :=
  fun _ _ h => absurd h.symm (some_ne_none _)

theorem NoEmpty.put (h : m.NoEmpty) (k : A × B) (v : V) : (m.put k v).NoEmpty := by
  intro a inner hinner
  change (m.maps.insert k.1 _).lookup a = _ at hinner
  rw [lookup_insert_eq] at hinner
  split at hinner
  · rw [← some.inj hinner, Ne, size_eq_zero_iff]
    intro hnone
    have hk := hnone k.2
    rw [AList.lookup_insert] at hk
    cases hk
  · exact h a inner hinner

theorem NoEmpty.delete (h : m.NoEmpty) (k : A × B) : (m.delete k).NoEmpty := by
  intro a inner hinner
  rw [Nested.delete] at hinner
  split at hinner
  · exact h a inner hinner
  split at hinner
  · rw [lookup_erase_eq] at hinner
    split at hinner
    · cases hinner
    · exact h a inner hinner
  next hsize =>
    rw [lookup_insert_eq] at hinner
    split at hinner
    · rw [← some.inj hinner]
      exact hsize
    · exact h a inner hinner

/-- Without empty maps, a key has an inner map just if it has an entry. -/
theorem NoEmpty.lookup_eq_none_iff (h : m.NoEmpty) {a : A} :
    m.maps.lookup a = none ↔ ∀ b, m.find (a, b) = none := by
  constructor
  · intro hnone b
    exact congrArg (Option.bind · _) hnone
  · intro hall
    rw [eq_none_iff_forall_ne_some]
    intro inner hinner
    refine h a inner hinner (size_eq_zero_iff.2 fun b => ?_)
    have hb := hall b
    rw [find, hinner] at hb
    exact hb

end Nested

end Multiport.Lib

import Mathlib.Data.List.Nodup

/-!
# Sequences of checks

A validator that returns the first error is a sequence of `reject`s in `Except`.
The lemmas say when such a sequence succeeds: each construct succeeds exactly when
its parts do, so that `simp` turns a validator into the conjunction of what it checks.
-/

namespace Multiport.Lib

open List

universe u

variable {ε ε' : Type*} {α β : Type u}

/-- `if p { return e }`. -/
def reject (p : Prop) [Decidable p] (e : ε) : Except ε Unit := if p then .error e else .ok ()

/-- `for _, a := range l { if err := f(a); err != nil { return err } }`. -/
def checkAll (f : α → Except ε Unit) : List α → Except ε Unit
  | [] => .ok ()
  | a :: l => f a >>= fun _ => checkAll f l

@[simp] theorem reject_eq_ok_iff {p : Prop} [Decidable p] {e : ε} {u : Unit} :
    reject p e = .ok u ↔ ¬p := by
  unfold reject
  split <;> simp [*]

variable {x : Except ε α} {f : α → Except ε β}

@[simp] theorem bind_eq_ok_iff {b : β} : (x >>= f) = .ok b ↔ ∃ a, x = .ok a ∧ f a = .ok b := by
  cases x <;> simp [bind, Except.bind]

theorem map_eq_ok_iff {f : α → β} {b : β} : x.map f = .ok b ↔ ∃ a, x = .ok a ∧ f a = b := by
  cases x <;> simp [Except.map]

@[simp] theorem exists_eq_ok_unit_iff {x : Except ε Unit} : (∃ u, x = .ok u) ↔ x = .ok () :=
  ⟨fun ⟨_, h⟩ => h, fun h => ⟨_, h⟩⟩

theorem exists_eq_error_iff : (∃ e, x = .error e) ↔ ¬ ∃ a, x = .ok a := by
  cases x <;> simp

@[simp] theorem mapError_eq_ok_iff {f : ε → ε'} {a : α} : x.mapError f = .ok a ↔ x = .ok a := by
  cases x <;> simp [Except.mapError]

variable {l : List α}

@[simp] theorem checkAll_eq_ok_iff {f : α → Except ε Unit} {u : Unit} :
    checkAll f l = .ok u ↔ ∀ a ∈ l, f a = .ok () := by
  induction l with
  | nil => simp [checkAll]
  | cons a l ih => simp [checkAll, ih]

theorem mapM_eq_ok_iff {l' : List β} :
    l.mapM f = .ok l' ↔ List.Forall₂ (fun a b => f a = .ok b) l l' := by
  induction l generalizing l' with
  | nil => cases l' <;> simp [pure, Except.pure]
  | cons a l ih =>
    cases l' with
    | nil => simp [pure, Except.pure]
    | cons b l' => simp [pure, Except.pure, ih]

theorem exists_mapM_eq_ok_iff : (∃ l', l.mapM f = .ok l') ↔ ∀ a ∈ l, ∃ b, f a = .ok b := by
  simp only [mapM_eq_ok_iff]
  induction l with
  | nil => simp
  | cons a l ih => simp [forall₂_cons_left_iff, ← ih]

theorem forall_mem_zipIdx_iff {P : α → Prop} : (∀ x ∈ l.zipIdx, P x.1) ↔ ∀ a ∈ l, P a := by
  constructor
  · intro h a ha
    obtain ⟨i, hi⟩ := mem_iff_getElem?.1 ha
    exact h (a, i) (mem_zipIdx_iff_getElem?.2 hi)
  · intro h x hx
    exact h x.1 (mem_of_getElem? (mem_zipIdx_iff_getElem?.1 hx))

/-- Two nested loops that compare every element with every other one. -/
theorem forall_zipIdx_ne_iff {f : α → β} :
    (∀ x ∈ l.zipIdx, ∀ y ∈ l.zipIdx, ¬(x.2 ≠ y.2 ∧ f x.1 = f y.1)) ↔ (l.map f).Nodup := by
  rw [nodup_iff_getElem?_ne_getElem?]
  simp only [Prod.forall, mem_zipIdx_iff_getElem?, List.getElem?_map, length_map]
  constructor
  · intro h i j hij hj heq
    obtain ⟨a, ha⟩ : ∃ a, l[j]? = some a := ⟨_, List.getElem?_eq_getElem hj⟩
    rw [ha, Option.map_some, Option.map_eq_some_iff] at heq
    obtain ⟨b, hb, hba⟩ := heq
    exact h b i hb a j ha ⟨Nat.ne_of_lt hij, hba⟩
  · rintro h a i hi b j hj ⟨hij, hab⟩
    rcases Nat.lt_or_gt_of_ne hij with hlt | hlt
    · exact h i j hlt (List.getElem?_eq_some_iff.1 hj).1 (by simp [hi, hj, hab])
    · exact h j i hlt (List.getElem?_eq_some_iff.1 hi).1 (by simp [hi, hj, hab])

end Multiport.Lib

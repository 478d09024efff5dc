import Mathlib.Data.Set.Finite.Basic

/-!
# Bounded walks

A loop that follows a partial step function, with a bound on the number of
rounds: `walk` follows one element and fails when the bound is used up, and
`walkAll` moves every element of a list in lockstep until none of them moves.
Both are described by counted paths `Steps`, so that a proof about a loop is a
proof about the relation that one round follows.
-/

namespace Multiport.Lib

open List Nat

universe u v

variable {X : Type u} {E : Type v}

/-! ## Counted paths -/

/-- `Steps R n x y`: `y` is reached from `x` by `n` steps of `R`. -/
inductive Steps (R : X → X → Prop) : Nat → X → X → Prop
  | zero (x : X) : Steps R 0 x x
  | succ {n : Nat} {x y z : X} (h : R x y) (t : Steps R n y z) : Steps R (n + 1) x z

/-- A relation with at most one successor. -/
def Functional (R : X → X → Prop) : Prop := ∀ ⦃x y z⦄, R x y → R x z → y = z

namespace Steps

variable {R Q : X → X → Prop} {m n : Nat} {x y z : X}

theorem single (h : R x y) : Steps R 1 x y := .succ h (.zero y)

theorem append (h : Steps R m x y) (t : Steps R n y z) : Steps R (n + m) x z := by
  induction h with
  | zero => exact t
  | succ hxy _ ih => exact .succ hxy (ih t)

theorem snoc (h : Steps R n x y) (t : R y z) : Steps R (n + 1) x z := by
  have := h.append (.single t)
  rwa [Nat.add_comm] at this

theorem exists_last (h : Steps R (n + 1) x z) : ∃ y, Steps R n x y ∧ R y z := by
  induction n generalizing x with
  | zero =>
    obtain - | ⟨hxy, t⟩ := h
    cases t
    exact ⟨x, .zero x, hxy⟩
  | succ n ih =>
    obtain - | ⟨hxy, t⟩ := h
    obtain ⟨w, hw, hwz⟩ := ih t
    exact ⟨w, .succ hxy hw, hwz⟩

theorem imp (h : Steps R n x y)
    (himp : ∀ {k a b}, Steps R k x a → R a b → ∀ {l}, Steps R l b y → Q a b) :
    Steps Q n x y := by
  induction h with
  | zero => exact .zero _
  | succ hxy t ih =>
    refine .succ (himp (.zero _) hxy t) (ih fun hk hab _ hl => himp (.succ hxy hk) hab hl)

theorem mono (hRQ : ∀ {a b}, R a b → Q a b) (h : Steps R n x y) : Steps Q n x y :=
  h.imp fun _ hab _ _ => hRQ hab

theorem keeps {P : X → Prop} (hstep : ∀ {a b}, P a → R a b → P b) (h : Steps R n x y)
    (hx : P x) : P y := by
  induction h with
  | zero => exact hx
  | succ hxy _ ih => exact ih (hstep hx hxy)

/-- **A functional relation has one path of each length.** -/
theorem unique (hR : Functional R) (h : Steps R n x y) (h' : Steps R n x z) : y = z := by
  induction h with
  | zero => cases h'; rfl
  | succ hxy _ ih =>
    obtain - | ⟨hxy', t'⟩ := h'
    obtain rfl := hR hxy hxy'
    exact ih t'

theorem tail_of_le (hR : Functional R) (h : Steps R m x y) (h' : Steps R n x z) (hmn : m ≤ n) :
    Steps R (n - m) y z := by
  induction h generalizing n with
  | zero => simpa using h'
  | succ hxy _ ih =>
    obtain - | ⟨hxy', t'⟩ := h'
    · exact absurd hmn (by simp)
    · obtain rfl := hR hxy hxy'
      rw [Nat.add_sub_add_right]
      exact ih t' (le_of_succ_le_succ hmn)

theorem length_zero_of_final (hx : ∀ w, ¬ R x w) (h : Steps R n x y) : n = 0 ∧ y = x := by
  cases h with
  | zero => exact ⟨rfl, rfl⟩
  | succ hxy _ => exact absurd hxy (hx _)

/-- Every path stays within the path to a final place. -/
theorem to_final (hR : Functional R) (h : Steps R m x y) (hy : ∀ w, ¬ R y w)
    (h' : Steps R n x z) : n ≤ m ∧ Steps R (m - n) z y := by
  rcases le_total n m with hnm | hmn
  · exact ⟨hnm, h'.tail_of_le hR h hnm⟩
  · obtain ⟨hk, rfl⟩ := length_zero_of_final hy (h.tail_of_le hR h' hmn)
    obtain rfl : n = m := by omega
    exact ⟨le_refl _, by simpa using Steps.zero (R := R) z⟩

/-- **There is one final place, at one distance.** -/
theorem final_unique (hR : Functional R) (h : Steps R m x y) (hy : ∀ w, ¬ R y w)
    (h' : Steps R n x z) (hz : ∀ w, ¬ R z w) : n = m ∧ z = y := by
  obtain ⟨hnm, t⟩ := h.to_final hR hy h'
  obtain ⟨hk, rfl⟩ := length_zero_of_final hz t
  exact ⟨by omega, rfl⟩

/-- **A relation without cycles that starts from finitely many places comes to an end.** -/
theorem exists_final {places : List X} (hplaces : ∀ {a b}, R a b → a ∈ places)
    (hR : ∀ a k, ¬ Steps R (k + 1) a a) (x : X) : ∃ n y, Steps R n x y ∧ ∀ w, ¬ R y w := by
  let After (a b : {a // a ∈ places}) : Prop := ∃ k, Steps R (k + 1) b.1 a.1
  have : Finite {a // a ∈ places} := places.finite_toSet
  have : IsTrans _ After := ⟨fun a b c ⟨j, hj⟩ ⟨k, hk⟩ => ⟨j + 1 + k, hk.append hj⟩⟩
  have : Std.Irrefl After := ⟨fun a ⟨k, hk⟩ => hR a.1 k hk⟩
  have hwf : WellFounded After := Finite.wellFounded_of_trans_of_irrefl After
  have hends : ∀ a : {a // a ∈ places}, ∃ n y, Steps R n a.1 y ∧ ∀ w, ¬ R y w := by
    intro a
    induction a using hwf.induction with
    | _ a ih =>
      by_cases hnext : ∃ b, R a.1 b
      · obtain ⟨b, hab⟩ := hnext
        by_cases hb : b ∈ places
        · obtain ⟨n, y, hn, hy⟩ := ih ⟨b, hb⟩ ⟨0, .single hab⟩
          exact ⟨n + 1, y, .succ hab hn, hy⟩
        · exact ⟨1, b, .single hab, fun w hw => hb (hplaces hw)⟩
      · exact ⟨0, a.1, .zero _, fun w hw => hnext ⟨w, hw⟩⟩
  by_cases hx : x ∈ places
  · exact hends ⟨x, hx⟩
  · exact ⟨0, x, .zero x, fun w hw => hx (hplaces hw)⟩

end Steps

/-! ## Paths with the places they pass -/

/-- `Trail R x l y`: a path from `x` to `y` that passes the places `l`, the last of which
is `y`. -/
inductive Trail (R : X → X → Prop) : X → List X → X → Prop
  | nil (x : X) : Trail R x [] x
  | cons {x y z : X} {l : List X} (h : R x y) (t : Trail R y l z) : Trail R x (y :: l) z

namespace Trail

variable {R : X → X → Prop} {l : List X} {n : Nat} {x y z : X}

theorem steps (h : Trail R x l y) : Steps R l.length x y := by
  induction h with
  | nil => exact .zero _
  | cons hxy _ ih => exact .succ hxy ih

theorem exists_of_steps (h : Steps R n x y) : ∃ l, l.length = n ∧ Trail R x l y := by
  induction h with
  | zero => exact ⟨[], rfl, .nil _⟩
  | succ hxy _ ih =>
    obtain ⟨l, hl, ht⟩ := ih
    exact ⟨_ :: l, congrArg succ hl, .cons hxy ht⟩

theorem steps_of_mem (h : Trail R x l y) (hz : z ∈ l) : ∃ k, Steps R (k + 1) x z := by
  induction h with
  | nil => cases hz
  | cons hxy _ ih =>
    rcases mem_cons.1 hz with rfl | hz
    · exact ⟨0, .single hxy⟩
    · obtain ⟨k, hk⟩ := ih hz
      exact ⟨k + 1, .succ hxy hk⟩

end Trail

/-! ## One element -/

/-- At most `n` rounds of `next`; `limit` is the error when they do not suffice. -/
def walk (next : X → Except E (Option X)) (limit : E) : Nat → X → Except E X
  | 0, _ => .error limit
  | n + 1, x =>
    match next x with
    | .error e => .error e
    | .ok none => .ok x
    | .ok (some y) => walk next limit n y

section Walk

variable {next : X → Except E (Option X)} {limit e : E} {n : Nat} {x z : X}

/-- The relation one round follows. -/
def Follows (next : X → Except E (Option X)) (x y : X) : Prop := next x = .ok (some y)

/-- **A walk returns the place where its path ends, when that is within the bound.** -/
theorem walk_eq_ok_iff :
    walk next limit n x = .ok z ↔ ∃ k < n, Steps (Follows next) k x z ∧ next z = .ok none := by
  induction n generalizing x with
  | zero => simp [walk]
  | succ n ih =>
    rw [walk]
    constructor
    · intro h
      split at h
      · cases h
      · cases h
        exact ⟨0, succ_pos _, .zero _, ‹_›⟩
      · obtain ⟨k, hk, hs, hz⟩ := ih.1 h
        exact ⟨k + 1, succ_lt_succ hk, .succ ‹_› hs, hz⟩
    · rintro ⟨k, hk, hs, hz⟩
      cases hs with
      | zero => rw [hz]
      | succ hxy t =>
        rw [show next x = _ from hxy]
        exact ih.2 ⟨_, lt_of_succ_lt_succ hk, t, hz⟩

end Walk

/-! ## All elements of a list -/

/-- Rounds that move every element with a successor, until a round moves none. -/
def walkAll (next : X → Option X) : Nat → List X → Option (List X)
  | 0, _ => none
  | n + 1, xs =>
    if xs.any fun x => (next x).isSome then walkAll next n (xs.map fun x => (next x).getD x)
    else some xs

section WalkAll

variable {next : X → Option X} {n : Nat} {xs ys : List X} {x y : X}

/-- `y` is where the path of `x` ends, in fewer than `n` steps. -/
def EndsWithin (next : X → Option X) (n : Nat) (x y : X) : Prop :=
  ∃ k < n, Steps (fun a b => next a = some b) k x y ∧ next y = none

theorem endsWithin_of_next_eq_none (hn : 0 < n) (hx : next x = none) :
    EndsWithin next n x y ↔ y = x := by
  constructor
  · rintro ⟨k, -, hs, -⟩
    exact (Steps.length_zero_of_final (by simp [hx]) hs).2
  · rintro rfl
    exact ⟨0, hn, .zero _, hx⟩

/-- One round brings the end one step closer, and keeps the elements that have arrived. -/
theorem endsWithin_succ_iff (hn : 0 < n) :
    EndsWithin next (n + 1) x y ↔ EndsWithin next n ((next x).getD x) y := by
  cases hx : next x with
  | none =>
    rw [endsWithin_of_next_eq_none (succ_pos n) hx, Option.getD_none,
      endsWithin_of_next_eq_none hn hx]
  | some x' =>
    constructor
    · rintro ⟨k, hk, hs, hy⟩
      cases hs with
      | zero => rw [hx] at hy; cases hy
      | succ hxy t =>
        cases hx.symm.trans hxy
        exact ⟨_, lt_of_succ_lt_succ hk, t, hy⟩
    · rintro ⟨k, hk, hs, hy⟩
      exact ⟨k + 1, succ_lt_succ hk, .succ hx hs, hy⟩

theorem endsWithin_one_iff : EndsWithin next 1 x y ↔ next x = none ∧ y = x := by
  constructor
  · rintro ⟨k, hk, hs, hy⟩
    obtain rfl : k = 0 := by omega
    cases hs
    exact ⟨hy, rfl⟩
  · rintro ⟨hx, rfl⟩
    exact ⟨0, one_pos, .zero _, hx⟩

theorem forall₂_congr_of_mem {P Q : X → X → Prop} (h : ∀ x ∈ xs, ∀ y, P x y ↔ Q x y) :
    List.Forall₂ P xs ys ↔ List.Forall₂ Q xs ys := by
  have key : ∀ {P Q : X → X → Prop}, (∀ x ∈ xs, ∀ y, P x y → Q x y) → List.Forall₂ P xs ys →
      List.Forall₂ Q xs ys := fun himp hf =>
    ((forall₂_and_left xs ys).2 ⟨fun _ hx => hx, hf⟩).imp fun x y hxy => himp x hxy.1 y hxy.2
  exact ⟨key fun x hx y => (h x hx y).1, key fun x hx y => (h x hx y).2⟩

theorem exists_mem_of_forall₂ {Y : Type*} {P : X → Y → Prop} {ys : List Y}
    (hf : List.Forall₂ P xs ys) (hx : x ∈ xs) : ∃ y ∈ ys, P x y := by
  induction hf with
  | nil => cases hx
  | cons hab _ ih =>
    rcases mem_cons.1 hx with rfl | hx
    · exact ⟨_, mem_cons_self, hab⟩
    · obtain ⟨y, hy, hxy⟩ := ih hx
      exact ⟨y, mem_cons_of_mem _ hy, hxy⟩

theorem exists_forall₂ {Y : Type*} {P : X → Y → Prop} (h : ∀ x ∈ xs, ∃ y, P x y) :
    ∃ ys, List.Forall₂ P xs ys := by
  induction xs with
  | nil => exact ⟨[], .nil⟩
  | cons x xs ih =>
    obtain ⟨y, hy⟩ := h x mem_cons_self
    obtain ⟨ys, hys⟩ := ih fun x' hx' => h x' (mem_cons_of_mem _ hx')
    exact ⟨y :: ys, .cons hy hys⟩

/-- **The lockstep walk returns the ends of all paths, when all are within the bound.** -/
theorem walkAll_eq_some_iff :
    walkAll next n xs = some ys ↔ 0 < n ∧ List.Forall₂ (EndsWithin next n) xs ys := by
  induction n generalizing xs with
  | zero => simp [walkAll]
  | succ n ih =>
    rw [walkAll]
    split
    next h =>
      simp only [any_eq_true, Option.isSome_iff_exists] at h
      obtain ⟨x, hx, x', hx'⟩ := h
      rw [ih, forall₂_map_left_iff]
      rcases Nat.eq_zero_or_pos n with rfl | hn
      · -- no round is left for `x`, which still has to move
        simp only [lt_irrefl, false_and, false_iff, not_and]
        rintro - hf
        obtain ⟨y, -, hxy⟩ := exists_mem_of_forall₂ hf hx
        rw [endsWithin_one_iff, hx'] at hxy
        cases hxy.1
      · simp only [hn, succ_pos, true_and]
        exact forall₂_congr_of_mem fun x _ y => (endsWithin_succ_iff hn).symm
    next h =>
      simp only [any_eq_true, not_exists, not_and, Bool.not_eq_true,
        Option.isSome_eq_false_iff, Option.isNone_iff_eq_none] at h
      rw [Option.some.injEq, ← forall₂_eq_eq_eq]
      simp only [succ_pos, true_and]
      exact forall₂_congr_of_mem fun x hx y =>
        eq_comm.trans (endsWithin_of_next_eq_none (succ_pos n) (h x hx)).symm

end WalkAll

end Multiport.Lib

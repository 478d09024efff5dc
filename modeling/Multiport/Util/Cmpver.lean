import Mathlib.Algebra.Group.Nat.Defs
import Mathlib.Data.List.Lex
import Multiport.Lib.Compare

/-!
# Version numbers

A version consists of alternating non-numeric and numeric fields.  `Compare` goes through the
fields of two versions at once, and orders the versions by the sequences of their fields, which
go on with empty text and zero (`compare_eq`).  It panics at a number that is no `uint64`, if no
pair of fields before it differs.
-/

namespace Multiport.Util

open Lib List

/-- A string, by its bytes. -/
abbrev Version : Type := List Nat

/-- A rune of several bytes is no digit, and none of its bytes is. -/
def isnum (b : Nat) : Bool := 48 ≤ b && b ≤ 57

def notnum (b : Nat) : Bool := !isnum b

def splitPrefixFunc (s : Version) (f : Nat → Bool) : Version × Version :=
  (s.takeWhile f, s.dropWhile f)

/-- The number that digits stand for, zero if there are none. -/
def number (f : Version) : Nat := f.foldl (fun n b => 10 * n + (b - 48)) 0

/-- `strconv.ParseUint(f, 10, 64)` of digits. -/
def parseUint (f : Version) : Option Nat := if number f < 2 ^ 64 then some (number f) else none

variable (v : Version)

/-- The first non-numeric field. -/
def text : Version := (splitPrefixFunc v notnum).1

/-- The first numeric field. -/
def digits : Version := (splitPrefixFunc (splitPrefixFunc v notnum).2 isnum).1

/-- What follows the first two fields. -/
def rest : Version := (splitPrefixFunc (splitPrefixFunc v notnum).2 isnum).2

theorem length_rest_le : (rest v).length ≤ v.length :=
  ((dropWhile_suffix _).trans (dropWhile_suffix _)).length_le

theorem length_rest_cons_le (b : Nat) (s : Version) : (rest (b :: s)).length ≤ s.length := by
  cases hb : isnum b with
  | true =>
    have hrest : rest (b :: s) = s.dropWhile isnum := by simp [rest, splitPrefixFunc, notnum, hb]
    rw [hrest]
    exact (dropWhile_suffix _).length_le
  | false =>
    have hrest : rest (b :: s) = rest s := by simp [rest, splitPrefixFunc, notnum, hb]
    rw [hrest]
    exact length_rest_le s

theorem length_rest_lt {v1 v2 : Version} (h : ¬(v1 = [] ∧ v2 = [])) :
    (rest v1).length + (rest v2).length < v1.length + v2.length := by
  have h1 := length_rest_le v1
  have h2 := length_rest_le v2
  cases v1 with
  | cons b s =>
    have := length_rest_cons_le b s
    rw [length_cons] at *
    omega
  | nil =>
    cases v2 with
    | nil => exact absurd ⟨rfl, rfl⟩ h
    | cons b s =>
      have := length_rest_cons_le b s
      rw [length_cons] at *
      omega

/-- `Compare`; `none` is the panic. -/
def compare (v1 v2 : Version) : Option Int :=
  if v1 = [] ∧ v2 = [] then some 0
  else if text v1 < text v2 then some (-1)
  else if text v2 < text v1 then some 1
  else
    match parseUint (digits v1), parseUint (digits v2) with
    | some n1, some n2 =>
      if n1 < n2 then some (-1) else if n2 < n1 then some 1 else compare (rest v1) (rest v2)
    | _, _ => none
termination_by v1.length + v2.length
decreasing_by exact length_rest_lt ‹_›

/-- The fields of a version in pairs, as an infinite sequence in the lexicographic order. -/
def fields : Lex (Nat → Lex (Version × Nat)) :=
  toLex fun i => toLex (text (rest^[i] v), number (digits (rest^[i] v)))

/-- `Compare` gets to the numbers of the pairs `i`: all before them is equal. -/
def Reaches (v1 v2 : Version) (i : Nat) : Prop :=
  (∀ j < i, ofLex (fields v1) j = ofLex (fields v2) j) ∧ text (rest^[i] v1) = text (rest^[i] v2)

/-- All numbers up to the first difference are below 2^64. -/
def Parses (v1 v2 : Version) : Prop :=
  ∀ i, Reaches v1 v2 i →
    number (digits (rest^[i] v1)) < 2 ^ 64 ∧ number (digits (rest^[i] v2)) < 2 ^ 64

variable {a b c v1 v2 : Version}

theorem level_fields (r : Int) : level (fields v1) (fields v2) r =
    level (text v1) (text v2) (level (number (digits v1)) (number (digits v2))
      (level (fields (rest v1)) (fields (rest v2)) r)) :=
  (level_lex seq_lt_iff seq_lt_iff).trans (level_pair _ _ _ _ _)

theorem reaches_zero : Reaches v1 v2 0 ↔ text v1 = text v2 := by simp [Reaches]

theorem reaches_succ {i : Nat} : Reaches v1 v2 (i + 1) ↔
    (text v1 = text v2 ∧ number (digits v1) = number (digits v2)) ∧
      Reaches (rest v1) (rest v2) i := by
  unfold Reaches
  rw [Nat.forall_lt_succ_left, and_assoc]
  exact and_congr Prod.ext_iff Iff.rfl

theorem parses_iff : Parses v1 v2 ↔ (text v1 = text v2 →
    (number (digits v1) < 2 ^ 64 ∧ number (digits v2) < 2 ^ 64) ∧
      (number (digits v1) = number (digits v2) → Parses (rest v1) (rest v2))) := by
  constructor
  · intro h htext
    refine ⟨h 0 (reaches_zero.2 htext), fun hnum i hi => ?_⟩
    exact h (i + 1) (reaches_succ.2 ⟨⟨htext, hnum⟩, hi⟩)
  · intro h i hi
    cases i with
    | zero => exact (h (reaches_zero.1 hi)).1
    | succ i =>
      obtain ⟨⟨htext, hnum⟩, hi⟩ := reaches_succ.1 hi
      exact (h htext).2 hnum i hi

theorem parses_nil : Parses [] [] := by
  intro i _
  have hnil : rest^[i] [] = [] := Function.iterate_fixed rfl i
  rw [hnil]
  decide

theorem parses_comm : Parses v1 v2 ↔ Parses v2 v1 := by
  unfold Parses Reaches
  simp only [eq_comm, and_comm]

open Classical in
/-- `Compare` is the lexicographic comparison of the fields, and panics at a number that it
cannot parse. -/
theorem compare_eq (v1 v2 : Version) :
    compare v1 v2 = if Parses v1 v2 then some (level (fields v1) (fields v2) 0) else none := by
  induction hn : v1.length + v2.length using Nat.strong_induction_on generalizing v1 v2 with
  | _ n ih =>
    rw [compare]
    split
    next hnil =>
      obtain ⟨rfl, rfl⟩ := hnil
      simp [level, parses_nil]
    next hne =>
      have hrest := ih _ (hn ▸ length_rest_lt hne) (rest v1) (rest v2) rfl
      rw [level_fields, level]
      rcases lt_trichotomy (text v1) (text v2) with hlt | htext | hgt
      · rw [if_pos hlt, if_pos hlt, if_pos (parses_iff.2 fun h => absurd h hlt.ne)]
      · rw [if_neg htext.not_lt, if_neg htext.not_gt, if_neg htext.not_lt, if_neg htext.not_gt]
        rw [parses_iff, forall_prop_of_true htext, parseUint, parseUint, hrest]
        generalize number (digits v1) = n1, number (digits v2) = n2, 2 ^ 64 = bound
        by_cases h1 : n1 < bound
        · by_cases h2 : n2 < bound
          · rcases lt_trichotomy n1 n2 with hlt | rfl | hgt
            · simp [level, h1, h2, hlt, hlt.ne]
            · simp [level, h1]
            · simp [level, h1, h2, hgt, hgt.not_gt, hgt.ne']
          · simp [h1, h2]
        · simp [h1]
      · rw [if_neg hgt.not_gt, if_pos hgt, if_neg hgt.not_gt, if_pos hgt,
          if_pos (parses_iff.2 fun h => absurd h hgt.ne')]

theorem fields_le_iff : fields a ≤ fields b ↔ text a ≤ text b ∧ (text a = text b →
    number (digits a) ≤ number (digits b) ∧
      (number (digits a) = number (digits b) → fields (rest a) ≤ fields (rest b))) := by
  have hle := (RanksBy.level_zero fields).nonpos
  rw [← hle a b, ← hle (rest a) (rest b), level_fields, level_nonpos_iff, level_nonpos_iff]

/-- Numbers that are parsed in the comparisons with a version in between are parsed. -/
theorem Parses.trans (hab : Parses a b) (hbc : Parses b c) (hle : fields a ≤ fields b)
    (hle' : fields b ≤ fields c) : Parses a c := by
  intro i hi
  -- What `a` and `c` have in common, `b` has too.
  induction i generalizing a b c with
  | zero =>
    have htext := reaches_zero.1 hi
    have hb : text a = text b :=
      le_antisymm (fields_le_iff.1 hle).1 (htext ▸ (fields_le_iff.1 hle').1)
    exact ⟨(hab 0 (reaches_zero.2 hb)).1, (hbc 0 (reaches_zero.2 (hb.symm.trans htext))).2⟩
  | succ i ih =>
    obtain ⟨⟨htext, hnum⟩, hi⟩ := reaches_succ.1 hi
    have hb : text a = text b :=
      le_antisymm (fields_le_iff.1 hle).1 (htext ▸ (fields_le_iff.1 hle').1)
    obtain ⟨hn, hrest⟩ := (fields_le_iff.1 hle).2 hb
    obtain ⟨hn', hrest'⟩ := (fields_le_iff.1 hle').2 (hb.symm.trans htext)
    have heq : number (digits a) = number (digits b) := le_antisymm hn (hnum ▸ hn')
    have heq' := heq.symm.trans hnum
    exact ih ((parses_iff.1 hab hb).2 heq) ((parses_iff.1 hbc (hb.symm.trans htext)).2 heq')
      (hrest heq) (hrest' heq') hi

/-- **`Compare` is a total preorder**, the lexicographic one of the fields, as far as it can parse
the numbers up to the first difference. -/
theorem compare_spec (a b c : Version) :
    (compare a b = some (level (fields a) (fields b) 0) ↔ Parses a b) ∧
    (compare a b = none ↔ ¬Parses a b) ∧
    (compare a a = some 0 ↔ Parses a a) ∧ compare b a = (compare a b).map (-·) ∧
    ∀ m n, compare a b = some m → compare b c = some n → m ≤ 0 → n ≤ 0 →
      ∃ k ≤ 0, compare a c = some k := by
  have hle := (RanksBy.level_zero fields).nonpos
  refine ⟨by simp [compare_eq], by simp [compare_eq], by simp [compare_eq, level], ?_, ?_⟩
  · rw [compare_eq, compare_eq, parses_comm, level_swap]
    split_ifs <;> rfl
  · intro m n hm hn hab hbc
    rw [compare_eq, Option.ite_none_right_eq_some] at hm hn
    obtain rfl := Option.some.inj hm.2
    obtain rfl := Option.some.inj hn.2
    rw [hle] at hab hbc
    exact ⟨_, (hle a c).2 (hab.trans hbc), by rw [compare_eq, if_pos (hm.1.trans hn.1 hab hbc)]⟩

/-- The decimal representation of 2^64. -/
def tooLarge : Version :=
  [49, 56, 52, 52, 54, 55, 52, 52, 48, 55, 51, 55, 48, 57, 53, 53, 49, 54, 49, 54]

theorem compare_tooLarge : compare tooLarge [] = none := by
  rw [compare]
  decide

-- A number after the first difference does no harm.
example : compare (97 :: tooLarge) [98] = some (-1) := by
  rw [compare]
  decide

end Multiport.Util

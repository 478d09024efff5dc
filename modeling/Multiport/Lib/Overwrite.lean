import Mathlib.Data.Option.Basic

/-!
# Partial overwrites of a record

A record with fields `i : ι` of types `V i` is a dependent function.  A *partial
overwrite* gives new values to some of the fields and leaves the others alone.
Delta encodings of records are overwrites, and a sequence of deltas acts as one
overwrite in which the last write of each field wins.

* `Overwrite.apply` is the action on records, `Overwrite.andThen` the
  composition, and `Overwrite.all` the composition of a whole sequence.
* `all_eq_getLast?` reads off a field of a sequence: the last write, if any.
-/

namespace Multiport.Lib

open List

universe u v

/-- A partial overwrite of a record with fields `i` of type `V i`: `some v` sets
the field to `v`, `none` leaves it alone. -/
def Overwrite {ι : Type u} (V : ι → Type v) : Type max u v := ∀ i, Option (V i)

namespace Overwrite

variable {ι : Type u} {V : ι → Type v}

@[ext] theorem ext {o p : Overwrite V} (h : ∀ i, o i = p i) : o = p := funext h

/-- The overwrite that touches no field. -/
def nop : Overwrite V := fun _ => none

/-- The action of an overwrite on a record. -/
def apply (o : Overwrite V) (r : ∀ i, V i) : ∀ i, V i := fun i => (o i).getD (r i)

/-- First `o`, then `p`: where both write a field, `p` wins. -/
def andThen (o p : Overwrite V) : Overwrite V := fun i => (p i).or (o i)

/-- A sequence of overwrites as one overwrite. -/
def all (os : List (Overwrite V)) : Overwrite V := os.foldl andThen nop

@[simp] theorem nop_apply (i : ι) : (nop : Overwrite V) i = none := rfl

variable (o : Overwrite V)

@[simp] theorem apply_apply (r : ∀ i, V i) (i : ι) : o.apply r i = (o i).getD (r i) := rfl

@[simp] theorem andThen_apply (o p : Overwrite V) (i : ι) : o.andThen p i = (p i).or (o i) := rfl

@[simp] theorem nop_andThen : nop.andThen o = o := by
  ext1 i
  simp

@[simp] theorem andThen_nop : o.andThen nop = o := by
  ext1 i
  simp

theorem andThen_assoc (o p q : Overwrite V) :
    (o.andThen p).andThen q = o.andThen (p.andThen q) := by
  ext1 i
  simp [Option.or_assoc]

theorem apply_andThen (o p : Overwrite V) (r : ∀ i, V i) :
    (o.andThen p).apply r = p.apply (o.apply r) := by
  funext i
  cases h : p i <;> simp

@[simp] theorem all_nil : all ([] : List (Overwrite V)) = nop := rfl

variable (os : List (Overwrite V))

theorem foldl_andThen : os.foldl andThen o = o.andThen (all os) := by
  induction os generalizing o with
  | nil => simp
  | cons p os ih =>
    have hp : all (p :: os) = p.andThen (all os) :=
      (congrArg (os.foldl andThen ·) (nop_andThen p)).trans (ih p)
    rw [foldl_cons, ih, hp, andThen_assoc]

@[simp] theorem all_cons : all (o :: os) = o.andThen (all os) := by
  rw [all, foldl_cons, nop_andThen, foldl_andThen]

theorem all_append (os ps : List (Overwrite V)) : all (os ++ ps) = (all os).andThen (all ps) := by
  rw [all, foldl_append]
  exact foldl_andThen _ ps

theorem all_eq_getLast? (i : ι) : all os i = (os.filterMap fun o => o i).getLast? := by
  induction os with
  | nil => rfl
  | cons o os ih =>
    rw [all_cons, andThen_apply, ih]
    cases h : o i with
    | none => simp [h]
    | some v => simp [h, List.getLast?_cons]

theorem all_eq_none_iff {os : List (Overwrite V)} {i : ι} :
    all os i = none ↔ ∀ o ∈ os, o i = none := by
  rw [all_eq_getLast?, List.getLast?_eq_none_iff, filterMap_eq_nil_iff]

end Overwrite

end Multiport.Lib

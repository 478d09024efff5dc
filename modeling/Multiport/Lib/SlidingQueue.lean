import Mathlib.Data.List.Basic

/-!
# A queue that slides back in its array

A queue in a slice: values are appended to the end, and a cursor moves over the values that are
dropped.  When the array of a bounded queue has no room behind the last value, the values that
are left move to its front.
-/

namespace Multiport.Lib

open List

universe u

/-- The values are those from `start` on.  `cap` is the size of the array, and a `capacity` of
zero means that the queue has no bound. -/
structure SlidingQueue (α : Type u) where
  vals : List α := []
  start : Nat := 0
  cap : Nat := 0
  capacity : Nat := 0
  start_le : start ≤ vals.length := by exact Nat.zero_le _
  start_eq_zero : start = vals.length → start = 0 := by simp

namespace SlidingQueue

variable {α : Type u} (q : SlidingQueue α) (grow : Nat → Nat)

/-- The values in the queue. -/
def contents : List α := q.vals.drop q.start

/-- Whether a value can be appended without moving others. -/
def canAppend : Bool :=
  q.capacity = 0 || decide (q.cap < q.capacity) || decide (q.vals.length < q.cap)

def full : Bool := q.start = 0 && !q.canAppend

def isEmpty : Bool := q.start = q.vals.length

/-- The first value of the queue. -/
def peek : Option α := q.vals[q.start]?

/-- `append`, where `grow` gives the size of a larger array. -/
def append (v : α) : SlidingQueue α where
  vals := q.vals ++ [v]
  start := q.start
  cap := if q.vals.length < q.cap then q.cap else grow q.cap
  capacity := q.capacity
  start_le := by
    rw [length_append]
    exact Nat.le_add_right_of_le q.start_le
  start_eq_zero h := by
    have := q.start_le
    rw [length_append, length_singleton] at h
    omega

/-- The values move to the front of the array. -/
def slide : SlidingQueue α where
  vals := q.vals.drop q.start
  cap := q.cap
  capacity := q.capacity

/-- Add a value to the end; `none` is a panic. -/
def add (v : α) : Option (SlidingQueue α) :=
  if q.canAppend then some (q.append grow v)
  else if q.start = 0 then none
  else some (q.slide.append grow v)

/-- Discard the first value, if there is one. -/
def drop [Inhabited α] : SlidingQueue α :=
  if hempty : q.start = q.vals.length then q
  else if hlast : q.start + 1 = q.vals.length then { q with
    vals := []
    start := 0
    start_le := Nat.zero_le _
    start_eq_zero := fun _ => rfl }
  else
    { q with
      vals := q.vals.set q.start default
      start := q.start + 1
      start_le := by
        have := q.start_le
        rw [length_set]
        omega
      start_eq_zero := fun h => by
        rw [length_set] at h
        exact absurd h hlast }

@[simp] theorem contents_append (v : α) : (q.append grow v).contents = q.contents ++ [v] :=
  drop_append_of_le_length q.start_le

@[simp] theorem contents_slide : q.slide.contents = q.contents := drop_zero

theorem contents_of_add {q q' : SlidingQueue α} {v : α} (h : q.add grow v = some q') :
    q'.contents = q.contents ++ [v] := by
  unfold add at h
  split at h
  · cases h
    exact q.contents_append grow v
  split at h
  · cases h
  · cases h
    rw [contents_append, contents_slide]

theorem peek_eq_head? : q.peek = q.contents.head? := List.head?_drop.symm

theorem contents_eq_cons {q : SlidingQueue α} {v : α} (h : q.peek = some v) :
    q.contents = v :: q.contents.tail := by
  rw [peek_eq_head?] at h
  exact (cons_head?_tail h).symm

@[simp] theorem contents_drop [Inhabited α] : q.drop.contents = q.contents.tail := by
  unfold drop
  split
  next hempty =>
    have hnil : q.contents = [] := drop_of_length_le (Nat.le_of_eq hempty.symm)
    rw [hnil]
    rfl
  split
  next hlast =>
    rw [contents, contents, tail_drop, hlast, drop_length]
    rfl
  · change (q.vals.set q.start default).drop (q.start + 1) = _
    rw [drop_set_of_lt (Nat.lt_succ_self _), contents, tail_drop]

end SlidingQueue

end Multiport.Lib

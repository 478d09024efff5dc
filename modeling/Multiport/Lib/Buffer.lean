import Mathlib.Data.List.Basic

/-!
# Byte buffers

A buffer that is written in place, by its contents at every index; its size is left to
the code that uses it.  `slice` reads a part of it and `blit` is `copy(buf[off:], as)`.
-/

namespace Multiport.Lib

universe u

variable {α : Type u}

/-- The contents of a buffer. -/
abbrev Buffer (α : Type u) := Nat → α

namespace Buffer

/-- `buf[off:off+len]`. -/
def slice (buf : Buffer α) (off len : Nat) : List α := (List.range len).map fun i => buf (off + i)

/-- `copy(buf[off:], as)`. -/
def blit (buf : Buffer α) (off : Nat) (as : List α) : Buffer α :=
  fun i => if off ≤ i then (as[i - off]?).getD (buf i) else buf i

variable (buf : Buffer α) (off : Nat)

@[simp] theorem length_slice (len : Nat) : (buf.slice off len).length = len := by simp [slice]

theorem slice_add (m n : Nat) :
    buf.slice off (m + n) = buf.slice off m ++ buf.slice (off + m) n := by
  simp [slice, List.range_add, Nat.add_assoc]

/-- What was copied can be read back. -/
@[simp] theorem slice_blit_self (as : List α) : (buf.blit off as).slice off as.length = as := by
  refine List.ext_getElem (by simp) fun i h _ => ?_
  have hi : i < as.length := by simpa using h
  simp [slice, blit, hi]

end Buffer

end Multiport.Lib

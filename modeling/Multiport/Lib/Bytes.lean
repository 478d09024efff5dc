import Mathlib.Data.List.Induction
import Mathlib.Data.List.Basic
import Mathlib.Tactic.Ring

/-!
# Byte strings

Numbers in big-endian order, and readers that take values off the front of a byte
string.  `Decodes r bs a` says that `r` reads `a` off any string that begins with
`bs`, and `Reads r n` that it reads `n` bytes off any string that has as many.
Both follow the construction of a reader.
-/

namespace Multiport.Lib

open List Nat

universe u v

abbrev Byte := BitVec 8

abbrev Bytes := List Byte

/-! ## Big-endian numbers -/

/-- The last `n` bytes of a number. -/
def beBytes : Nat → Nat → Bytes
  | 0, _ => []
  | n + 1, x => beBytes n (x / 256) ++ [.ofNat 8 x]

/-- The number that a byte string stands for. -/
def beNat (bs : Bytes) : Nat := bs.foldl (fun x b => x * 256 + b.toNat) 0

/-- `n` bytes for a bit vector. -/
def putBE {w : Nat} (n : Nat) (x : BitVec w) : Bytes := beBytes n x.toNat

/-- The bit vector that a byte string stands for. -/
def getBE (w : Nat) (bs : Bytes) : BitVec w := .ofNat w (beNat bs)

@[simp] theorem length_beBytes (n x : Nat) : (beBytes n x).length = n := by
  induction n generalizing x with
  | zero => rfl
  | succ n ih => rw [beBytes, length_append, ih, length_singleton]

variable {w : Nat}

@[simp] theorem length_putBE (n : Nat) (x : BitVec w) : (putBE n x).length = n :=
  length_beBytes n _

theorem beNat_append_singleton (bs : Bytes) (b : Byte) :
    beNat (bs ++ [b]) = beNat bs * 256 + b.toNat := by
  rw [beNat, foldl_append]
  rfl

theorem beNat_beBytes (n x : Nat) : beNat (beBytes n x) = x % 256 ^ n := by
  induction n generalizing x with
  | zero => exact (mod_one x).symm
  | succ n ih =>
    have hx : x % 256 ^ (n + 1) = x % 256 + 256 * (x / 256 % 256 ^ n) := by
      rw [pow_succ', mod_mul]
    rw [beBytes, beNat_append_singleton, ih, BitVec.toNat_ofNat]
    omega

theorem getBE_putBE {n : Nat} (hw : w ≤ 8 * n) (x : BitVec w) : getBE w (putBE n x) = x := by
  have hx : x.toNat < 256 ^ n := by
    calc x.toNat < 2 ^ w := x.isLt
      _ ≤ 2 ^ (8 * n) := Nat.pow_le_pow_right (by decide) hw
      _ = 256 ^ n := by rw [Nat.pow_mul]
  rw [getBE, putBE, beNat_beBytes, mod_eq_of_lt hx, BitVec.ofNat_toNat, BitVec.setWidth_eq]

theorem putBE_injective {n : Nat} (hw : w ≤ 8 * n) :
    Function.Injective (putBE n : BitVec w → Bytes) :=
  Function.LeftInverse.injective (g := getBE w) (getBE_putBE hw)

/-! ## Readers -/

/-- A program that reads a byte string and may fail. -/
abbrev Reader (ε : Type u) (α : Type) := StateT Bytes (Except ε) α

namespace Reader

variable {ε : Type u} {α β : Type}

theorem ok_bind (a : α) (f : α → Except ε β) : (Except.ok a >>= f) = f a := rfl

/-- The next `n` bytes, or the error if there are not as many. -/
def next (e : ε) (n : Nat) : Reader ε Bytes := fun b =>
  if n ≤ b.length then .ok (b.take n, b.drop n) else .error e

/-- A big-endian number in the next `n` bytes. -/
def nextBE (e : ε) (n w : Nat) : Reader ε (BitVec w) := do
  let bs ← next e n
  return getBE w bs

/-- The reader again and again until there is nothing left, at most `fuel` times. -/
def readAll (r : Reader ε α) : Nat → Bytes → Except ε (List α)
  | 0, _ => .ok []
  | fuel + 1, b =>
    if b = [] then .ok []
    else do
      let (a, rest) ← r b
      let as ← readAll r fuel rest
      return a :: as

/-- The reader takes the bytes off a string and returns the value. -/
def Decodes (r : Reader ε α) (bs : Bytes) (a : α) : Prop := ∀ rest, r (bs ++ rest) = .ok (a, rest)

/-- The reader takes `n` bytes off every string that has as many, and returns a value in `P`. -/
def Reads (r : Reader ε α) (n : Nat) (P : α → Prop) : Prop :=
  ∀ b : Bytes, n ≤ b.length → ∃ a, r b = .ok (a, b.drop n) ∧ P a

variable {r : Reader ε α} {f : α → Reader ε β} {bs bs' : Bytes} {a : α} {a' : β} {m n : Nat}
  {P : α → Prop} {Q : β → Prop}

theorem Decodes.bind (h : Decodes r bs a) (hf : Decodes (f a) bs' a') :
    Decodes (r >>= f) (bs ++ bs') a' := by
  intro rest
  change (r _ >>= fun p => f p.1 p.2) = _
  rw [append_assoc, h]
  exact hf rest

/-- The end of a reader, which computes its value. -/
theorem Decodes.map (h : Decodes r bs a) (g : α → β) :
    Decodes (r >>= fun a => return g a) bs (g a) := by
  intro rest
  change (r _ >>= fun p => Except.ok (g p.1, p.2)) = _
  rw [h]
  rfl

variable {e : ε}

theorem Decodes.next (h : bs.length = n) : Decodes (next e n) bs bs := by
  intro rest
  rw [Reader.next, if_pos (by rw [length_append]; omega), take_left' h, drop_left' h]

theorem Decodes.nextBE (hw : w ≤ 8 * n) (x : BitVec w) : Decodes (nextBE e n w) (putBE n x) x := by
  intro rest
  have h := (Decodes.next (e := e) (length_putBE n x)).map (getBE w) rest
  rwa [getBE_putBE hw] at h

theorem Reads.pure (h : P a) : Reads (pure a : Reader ε α) 0 P := fun _ _ => ⟨a, rfl, h⟩

theorem Reads.bind (h : Reads r m P) (hf : ∀ a, P a → Reads (f a) n Q) :
    Reads (r >>= f) (m + n) Q := by
  intro b hb
  obtain ⟨a, ha, hP⟩ := h b (by omega)
  obtain ⟨a', ha', hQ⟩ := hf a hP (b.drop m) (by rw [length_drop]; omega)
  refine ⟨a', ?_, hQ⟩
  change (r b >>= fun p => f p.1 p.2) = _
  rw [ha, ← drop_drop]
  exact ha'

theorem Reads.next : Reads (next e n) n fun _ => True :=
  fun _ hb => ⟨_, if_pos hb, trivial⟩

theorem Reads.nextBE : Reads (nextBE e n w) n fun _ => True :=
  Reads.bind Reads.next fun _ _ => Reads.pure trivial

/-! ### Repetition -/

/-- Strings that each have at least one byte are read back one after the other. -/
theorem readAll_flatMap {enc : α → Bytes} {as : List α} (h : ∀ a ∈ as, Decodes r (enc a) a)
    (hne : ∀ a, enc a ≠ []) {fuel : Nat} (hfuel : as.length ≤ fuel) :
    readAll r fuel (as.flatMap enc) = .ok as := by
  induction as generalizing fuel with
  | nil => cases fuel <;> rfl
  | cons a as ih =>
    obtain ⟨hhead, htail⟩ := forall_mem_cons.1 h
    obtain ⟨fuel, rfl⟩ : ∃ k, fuel = k + 1 := ⟨fuel - 1, by rw [length_cons] at hfuel; omega⟩
    rw [readAll, flatMap_cons, if_neg, hhead]
    · change (readAll r fuel (as.flatMap enc) >>= _) = _
      rw [ih htail (by rw [length_cons] at hfuel; omega)]
      rfl
    · exact fun hnil => hne a (append_eq_nil_iff.1 hnil).1

/-- A string of `k` pieces is read in `k` rounds. -/
theorem readAll_of_length (h : Reads r n P) (hn : 0 < n) {k : Nat} {b : Bytes}
    (hb : b.length = k * n) {fuel : Nat} (hfuel : k ≤ fuel) :
    ∃ as, readAll r fuel b = .ok as ∧ as.length = k ∧ ∀ a ∈ as, P a := by
  induction k generalizing b fuel with
  | zero =>
    have hnil : b = [] := length_eq_zero_iff.1 (by rw [hb, zero_mul])
    refine ⟨[], ?_, rfl, by simp⟩
    cases fuel with
    | zero => rfl
    | succ fuel => rw [readAll, if_pos hnil]
  | succ k ih =>
    obtain ⟨fuel, rfl⟩ : ∃ j, fuel = j + 1 := ⟨fuel - 1, by omega⟩
    rw [succ_mul] at hb
    obtain ⟨a, ha, hP⟩ := h b (by omega)
    obtain ⟨as, has, hlen, hall⟩ := ih (b := b.drop n) (by rw [length_drop]; omega)
      (le_of_succ_le_succ hfuel)
    refine ⟨a :: as, ?_, by rw [length_cons, hlen], forall_mem_cons.2 ⟨hP, hall⟩⟩
    have hne : b ≠ [] := by
      rintro rfl
      rw [length_nil] at hb
      omega
    rw [readAll, if_neg hne, ha]
    change (readAll r fuel (b.drop n) >>= _) = _
    rw [has]
    rfl

end Reader

end Multiport.Lib

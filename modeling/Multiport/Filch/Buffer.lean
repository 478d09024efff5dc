import Multiport.Lib.Bytes
import Multiport.Lib.TextLines

/-!
# A queue of lines in two files

`Filch` writes lines to the end of its newer file and reads them from the start of the older
one, through a buffer.  When the older file is read, or the newer one has grown too large, the
older one is truncated and the two change their roles.

The standard error stream is not replaced, and operations on the files do not fail.  The sizes of
new buffers are left to the memory allocator: `alloc n` is at least `n`.
-/

namespace Multiport.Filch

open Lib

/-! ## Files -/

def newline : Byte := 10

/-- A file with the position of its descriptor and the time it was changed last. -/
structure File where
  data : Bytes := []
  pos : Nat := 0
  modTime : Nat := 0
  deriving DecidableEq

/-- `Write`: the bytes go to the position of the descriptor. -/
def File.write (file : File) (b : Bytes) (now : Nat) : File where
  data := file.data.take file.pos ++ b ++ file.data.drop (file.pos + b.length)
  pos := file.pos + b.length
  modTime := now

/-! ## The buffer -/

/-- `Filch`.  `newerIsSecond` says which of the two paths the newer file has, and `clock` is the
time of the last change to a file. -/
structure Buffer where
  maxLineSize : Nat
  maxFileSize : Nat
  newerIsSecond : Bool
  newer : File
  older : File
  newlyWrittenBytes : Nat := 0
  newlyFilchedBytes : Nat := 0
  rdBufIdx : Nat := 0
  rdBuf : Bytes := []
  rdBufCap : Nat := 0
  rdBufMaxLen : Nat := 0
  writeCalls : Nat := 0
  storedBytes : Nat := 0
  clock : Nat := 0
  deriving DecidableEq

/-- `Options`, without the replacement of the standard error stream. -/
structure Options where
  maxLineSize : Int := 0
  maxFileSize : Int := 0

def defaultMaxLineSize : Nat := 64 <<< 10

def defaultMaxFileSize : Nat := 50 <<< 20

/-- `cmp.Or(max(0, n), d)`. -/
def orDefault (n : Int) (d : Nat) : Nat := if n.toNat = 0 then d else n.toNat

namespace Buffer

/-- `New` on the two files, at a time. -/
def new (opts : Options) (f₁ f₂ : File) (clock : Nat) : Buffer :=
  let newerIsSecond :=
    if 0 < f₁.data.length ∧ f₂.data.length = 0 then true
    else if 0 < f₂.data.length ∧ f₁.data.length = 0 then false
    else decide (f₁.modTime < f₂.modTime)
  let newer := if newerIsSecond then f₂ else f₁
  let older := if newerIsSecond then f₁ else f₂
  { maxLineSize := orDefault opts.maxLineSize defaultMaxLineSize
    maxFileSize := orDefault opts.maxFileSize defaultMaxFileSize / 2
    newerIsSecond
    newer := { newer with pos := 0 }
    older := { older with pos := 0 }
    newlyWrittenBytes := newer.data.length
    storedBytes := f₁.data.length + f₂.data.length
    clock }

variable (f : Buffer)

/-- The file of the first path. -/
def file₁ : File := if f.newerIsSecond then f.older else f.newer

/-- The file of the second path. -/
def file₂ : File := if f.newerIsSecond then f.newer else f.older

/-- `unreadReadBuffer`. -/
def unread : Bytes := f.rdBuf.drop f.rdBufIdx

/-- The bytes of the older file that are not read, from the buffer on. -/
def rest : Bytes := f.unread ++ f.older.data.drop f.older.pos

/-- `consumeReadBuffer`. -/
def consume (n : Nat) : Buffer := { f with rdBufIdx := f.rdBufIdx + n }

def statAndUpdateBytes : Buffer :=
  let filchedBytes := f.newer.data.length - (f.newlyWrittenBytes + f.newlyFilchedBytes)
  { f with
    storedBytes := f.storedBytes + filchedBytes
    newlyFilchedBytes := f.newlyFilchedBytes + filchedBytes }

section Alloc

variable (alloc : Nat → Nat)

variable (f : Buffer)

/-- `rotateLocked`. -/
def rotate : Buffer :=
  -- truncate the older file and write relative to the start
  let truncated : File :=
    if 0 < f.older.data.length then { modTime := f.clock + 1 } else f.older
  { f with
    newerIsSecond := !f.newerIsSecond
    newer := truncated
    older := { f.newer with pos := 0 }
    newlyWrittenBytes := 0
    newlyFilchedBytes := 0
    rdBufIdx := 0
    rdBuf := []
    rdBufCap := if f.rdBufMaxLen < f.rdBufCap / 4 then alloc (2 * f.rdBufMaxLen) else f.rdBufCap
    rdBufMaxLen := 3 * (f.rdBufMaxLen / 4)
    storedBytes := f.newer.data.length
    clock := f.clock + 1 }

/-! ## Reading -/

/-- Space for more data in a full buffer, and whether a line was found to be too long. -/
def makeSpace : Buffer × Bool :=
  if f.maxLineSize < f.unread.length then ({ f with rdBufIdx := 0, rdBuf := [] }, true)
  else if f.unread.length < f.rdBufCap / 10 then
    ({ f with rdBufIdx := 0, rdBuf := f.unread }, false)
  else ({ f with rdBufCap := alloc (f.rdBuf.length + (f.rdBufCap + 1)) }, false)

/-- `f.older.Read` into the space of the buffer. -/
def fill : Buffer :=
  let b := (f.older.data.drop f.older.pos).take (f.rdBufCap - f.rdBuf.length)
  { f with
    older := { f.older with pos := f.older.pos + b.length }
    rdBuf := f.rdBuf ++ b
    rdBufMaxLen := max f.rdBufMaxLen (f.rdBuf.length + b.length) }

/-- The loop of `TryReadLine`: the bytes that it returns, and whether they end a line that was
too long.  Every round but the last reads something or changes the files over. -/
def readLoop : Nat → Bool → Buffer → Buffer × Bytes × Bool
  | 0, tooLong, f => (f, [], tooLong)
  | rounds + 1, tooLong, f =>
    if newline ∈ f.unread then (f, f.unread.take (f.unread.idxOf newline + 1), tooLong)
    else
      let (f, long) := if f.rdBuf.length = f.rdBufCap then f.makeSpace alloc else (f, false)
      let tooLong := tooLong || long
      if f.older.data.length ≤ f.older.pos then
        -- `io.EOF`
        if f.unread = [] then
          let f := f.rotate alloc
          if f.storedBytes = 0 then (f, [], tooLong) else readLoop rounds tooLong f
        else (f, f.unread, tooLong)
      else readLoop rounds tooLong f.fill

/-- What is left to be read, for the number of rounds. -/
def size : Nat :=
  (f.older.data.length - f.older.pos) + 2 * f.newer.data.length

/-- `TryReadLine`: `none` is the error for a line that is too long, and an empty line says that
there is none. -/
def tryReadLine : Buffer × Option Bytes :=
  let (f, b, tooLong) := readLoop alloc (f.size + 2) false f
  let f := f.consume b.length
  if tooLong ∨ f.maxLineSize < b.length then (f, none) else (f, some b)

/-! ## Writing -/

/-- A write checks the size of the newer file before it starts. -/
def rotates : Bool :=
  (decide (f.maxFileSize < f.newlyWrittenBytes + f.newlyFilchedBytes) || f.writeCalls % 100 == 0) &&
    decide (f.maxFileSize <
      f.statAndUpdateBytes.newlyWrittenBytes + f.statAndUpdateBytes.newlyFilchedBytes)

/-- The buffer after that check. -/
def checkSize : Buffer :=
  if f.maxFileSize < f.newlyWrittenBytes + f.newlyFilchedBytes ∨ f.writeCalls % 100 = 0 then
    if f.maxFileSize <
        f.statAndUpdateBytes.newlyWrittenBytes + f.statAndUpdateBytes.newlyFilchedBytes then
      f.statAndUpdateBytes.rotate alloc
    else f.statAndUpdateBytes
  else f

/-- What a write stores: the bytes with a newline at their end. -/
def terminated (b : Bytes) : Bytes := if b.getLast? = some newline then b else b ++ [newline]

/-- `Write`, and whether it succeeded. -/
def write (b : Bytes) : Buffer × Bool :=
  let f := f.checkSize alloc
  let b := terminated b
  if f.maxLineSize < b.length ∧ ∃ l ∈ textLines newline b, f.maxLineSize < l.length then
    ({ f with writeCalls := f.writeCalls + 1 }, false)
  else
    ({ f with
      newer := f.newer.write b (f.clock + 1)
      newlyWrittenBytes := f.newlyWrittenBytes + b.length
      storedBytes := f.storedBytes + b.length
      writeCalls := f.writeCalls + 1
      clock := f.clock + 1 }, true)

end Alloc

end Buffer

end Multiport.Filch

import Multiport.Taildrop.Manager

/-!
# Resuming a transfer

The receiver hashes the blocks of the partial file that it has, the sender skips the blocks of
its file that hash the same, and the rest is put at the offset where it stopped.

What the sender skips and what it still sends make up its file, whatever it was told
(`take_append_resumeReader`).  What the receiver then holds is that file, except that at offset
zero the old partial file is not cut off (`stored_eq_iff_of_resumed`).
-/

namespace Multiport.Taildrop

open Lib List Function

variable {H : Type} [DecidableEq H] (hash : Bytes → H)

/-! ## Blocks and their checksums -/

def blockSize : Nat := 64 <<< 10

theorem blockSize_pos : 0 < blockSize := by decide

def hashAlgorithm : String := "sha256"

structure BlockChecksum (H : Type) where
  checksum : H
  algorithm : String
  size : Int

/-- What a call for the next checksum returns: `io.EOF`, another error, or a checksum. -/
inductive HashNext (H : Type)
  | eof
  | error
  | block (cs : BlockChecksum H)

/-- The block that the `i`-th call of `io.ReadFull` finds. -/
def block (file : Bytes) (i : Nat) : Bytes := (file.drop (i * blockSize)).take blockSize

/-- The results of the function that `HashPartialFile` returns for a file, call by call. -/
def hashBlocks (file : Bytes) (i : Nat) : HashNext H :=
  if block file i = [] then .eof
  else .block ⟨hash (block file i), hashAlgorithm, (block file i).length⟩

def Manager.hashPartialFile (opts : Options) (m : Manager) (id : ClientID) (baseName : FileName) :
    Except PutError (Nat → HashNext H) :=
  if !opts.fileOps then .error .noTaildrop
  else if !opts.accepts (partialName id baseName) then .error .invalidFileName
  else
    match m.dir.lookup (partialName id baseName) with
    | none => .ok fun _ => .eof
    | some file => .ok (hashBlocks hash file)

omit [DecidableEq H] in
/-- A partial file that does not exist hashes like an empty one. -/
theorem hashPartialFile_eq_ok {opts : Options} {m : Manager} {id : ClientID} {baseName : FileName}
    {next} (h : m.hashPartialFile hash opts id baseName = .ok next) :
    next = hashBlocks hash ((m.dir.lookup (partialName id baseName)).getD []) := by
  unfold Manager.hashPartialFile at h
  split at h
  · cases h
  split at h
  · cases h
  split at h
  next hnone =>
    cases h
    rw [hnone]
    funext i
    simp [hashBlocks, block]
  next file hsome =>
    cases h
    rw [hsome]
    rfl

/-! ## The sender -/

/-- The errors of `resumeReader`. -/
inductive ResumeError
  | remote
  | invalidBlock
  deriving DecidableEq, Repr

/-- The loop of `resumeReader` from the `i`-th checksum on, where `r` is unread and the bytes up
to `offset` matched: the offset it returns, what its reader yields and its error.  Every round
but the last reads something, so there are at most `r.length + 1`. -/
def resumeLoop (hashNext : Nat → HashNext H) : Nat → Nat → Nat → Bytes →
    Nat × Bytes × Option ResumeError
  | 0, _, offset, r => (offset, r, none)
  | rounds + 1, i, offset, r =>
    match hashNext i with
    | .eof => (offset, r, none)
    | .error => (offset, r, some .remote)
    | .block cs =>
      if cs.algorithm ≠ hashAlgorithm ∨ cs.size < 0 ∨ (blockSize : Int) < cs.size then
        (offset, r, some .invalidBlock)
      else
        let b := r.take cs.size.toNat
        let rest := r.drop cs.size.toNat
        if b = [] then (offset, b ++ rest, none)
        else if cs.checksum ≠ hash b then (offset, b ++ rest, none)
        else resumeLoop hashNext rounds (i + 1) (offset + b.length) rest

def resumeReader (r : Bytes) (hashNext : Option (Nat → HashNext H)) :
    Nat × Bytes × Option ResumeError :=
  match hashNext with
  | none => (0, r, none)
  | some hashNext => resumeLoop hash hashNext (r.length + 1) 0 0 r

variable (hashNext : Nat → HashNext H)

/-- A round of the loop ends it, or skips the next block after a match. -/
theorem resumeLoop_cases (rounds i offset : Nat) (r : Bytes) :
    (∃ err, resumeLoop hash hashNext (rounds + 1) i offset r = (offset, r, err)) ∨
      ∃ cs, hashNext i = .block cs ∧ r.take cs.size.toNat ≠ [] ∧
        cs.checksum = hash (r.take cs.size.toNat) ∧
        resumeLoop hash hashNext (rounds + 1) i offset r =
          resumeLoop hash hashNext rounds (i + 1) (offset + (r.take cs.size.toNat).length)
            (r.drop cs.size.toNat) := by
  rw [resumeLoop]
  cases hashNext i with
  | eof | error => exact .inl ⟨_, rfl⟩
  | block cs =>
    simp only [take_append_drop]
    split_ifs with hinvalid hempty hne
    · exact .inl ⟨_, rfl⟩
    · exact .inl ⟨_, rfl⟩
    · exact .inl ⟨_, rfl⟩
    · exact .inr ⟨cs, rfl, hempty, not_not.1 hne, rfl⟩

/-- The loop skips bytes from the front of what it reads. -/
theorem resumeLoop_spec (rounds i offset : Nat) (r : Bytes) : ∃ n ≤ r.length, ∃ err,
      resumeLoop hash hashNext rounds i offset r = (offset + n, r.drop n, err) := by
  induction rounds generalizing i offset r with
  | zero => exact ⟨0, Nat.zero_le _, _, rfl⟩
  | succ rounds ih =>
    rcases resumeLoop_cases hash hashNext rounds i offset r with ⟨err, h⟩ | ⟨cs, -, -, -, h⟩
    · exact ⟨0, Nat.zero_le _, err, h⟩
    obtain ⟨n, hn, err, hrest⟩ := ih (i + 1) (offset + (r.take cs.size.toNat).length)
      (r.drop cs.size.toNat)
    refine ⟨(r.take cs.size.toNat).length + n, ?_, err, ?_⟩
    · rw [length_drop] at hn
      rw [length_take]
      omega
    · rw [h, hrest, drop_drop, length_take, add_assoc]
      rcases le_total cs.size.toNat r.length with hle | hle
      · rw [min_eq_left hle]
      · rw [drop_of_length_le (by omega), drop_of_length_le (by omega)]

variable {hash}

/-- **Skipped and remaining bytes are the file**, whatever the checksums are. -/
theorem take_append_resumeReader (r : Bytes) (hashNext : Option (Nat → HashNext H)) :
    (resumeReader hash r hashNext).1 ≤ r.length ∧
      r.take (resumeReader hash r hashNext).1 ++ (resumeReader hash r hashNext).2.1 = r := by
  cases hashNext with
  | none => exact ⟨Nat.zero_le _, rfl⟩
  | some hashNext =>
    obtain ⟨n, hn, err, h⟩ := resumeLoop_spec hash hashNext (r.length + 1) 0 0 r
    rw [resumeReader, h, zero_add]
    exact ⟨hn, take_append_drop n r⟩

/-! ## The checksums of the partial file -/

/-- What the loop skips on the checksums of a partial file, that file starts with. -/
theorem resumeLoop_hashBlocks (hinj : Injective hash) (file part : Bytes) (rounds : Nat)
    {i offset : Nat} (hoffset : offset ≤ part.length)
    (hblocks : part.drop (i * blockSize) = part.drop offset)
    (htake : part.take offset = file.take offset) :
    (resumeLoop hash (hashBlocks hash part) rounds i offset (file.drop offset)).1 ≤ part.length ∧
      part.take (resumeLoop hash (hashBlocks hash part) rounds i offset (file.drop offset)).1 =
        file.take (resumeLoop hash (hashBlocks hash part) rounds i offset
          (file.drop offset)).1 := by
  induction rounds generalizing i offset with
  | zero => exact ⟨hoffset, htake⟩
  | succ rounds ih =>
    rcases resumeLoop_cases hash (hashBlocks hash part) rounds i offset
      (file.drop offset) with ⟨err, h⟩ | ⟨cs, hcs, -, hsum, h⟩
    · rw [h]
      exact ⟨hoffset, htake⟩
    -- the block of the partial file is what the file goes on with
    unfold hashBlocks at hcs
    split at hcs
    · cases hcs
    obtain rfl := (HashNext.block.inj hcs).symm
    have hblock := hinj hsum
    simp only [Int.toNat_natCast] at h hblock
    rw [h, ← hblock, drop_drop]
    have hpart : (block part i).length = min blockSize (part.length - offset) := by
      rw [block, hblocks, length_take, length_drop]
    refine ih ?_ ?_ ?_
    · omega
    · rw [add_mul, one_mul, ← drop_drop, hblocks, drop_drop, hpart]
      rcases le_total blockSize (part.length - offset) with hle | hle
      · rw [min_eq_left hle]
      · rw [drop_of_length_le (by omega), drop_of_length_le (by omega)]
    · rw [take_add, take_add, ← hblock, hpart]
      congr 1
      rw [block, hblocks, take_eq_take_iff, length_drop]
      omega

/-- Something is skipped exactly when the file starts with the first block of the partial
file. -/
theorem resumeReader_hashBlocks_pos_iff (hinj : Injective hash) (file part : Bytes) :
    0 < (resumeReader hash file (some (hashBlocks hash part))).1 ↔
      part ≠ [] ∧ part.take blockSize <+: file := by
  have hfirst : block part 0 = part.take blockSize := by rw [block, zero_mul, drop_zero]
  have hnil : part.take blockSize = [] ↔ part = [] := by
    rw [take_eq_nil_iff, or_iff_right blockSize_pos.ne']
  rw [resumeReader, resumeLoop, hashBlocks, hfirst]
  by_cases hpart : part = []
  · simp [hpart]
  rw [if_neg (mt hnil.1 hpart)]
  have hvalid : ¬(hashAlgorithm ≠ hashAlgorithm ∨ ((part.take blockSize).length : Int) < 0 ∨
      (blockSize : Int) < (part.take blockSize).length) := by
    simp
  simp only [Int.toNat_natCast]
  have hpre : part.take blockSize <+: file ↔
      part.take blockSize = file.take (part.take blockSize).length :=
    prefix_iff_eq_take
  split_ifs with hempty hne
  · have : ¬ part.take blockSize <+: file := by
      rw [hpre, hempty]
      exact mt hnil.1 hpart
    simp [this]
  · have : ¬ part.take blockSize <+: file := fun hp => hne (congrArg hash (hpre.1 hp))
    simp [this]
  · obtain ⟨n, -, err, h⟩ := resumeLoop_spec hash (hashBlocks hash part) file.length 1
      (0 + (file.take (part.take blockSize).length).length)
      (file.drop (part.take blockSize).length)
    rw [h]
    have heq := hinj (not_not.1 hne)
    have hpos := length_pos_of_ne_nil hempty
    exact ⟨fun _ => ⟨hpart, hpre.2 heq⟩, fun _ => by omega⟩

/-! ## What the receiver stores -/

/-- What is stored when the rest of a file is put at the offset where its sender stopped. -/
theorem stored_eq_iff_of_resumed (hinj : Injective hash) {file part : Bytes} {pos : Nat}
    (hpos : pos = (resumeReader hash file (some (hashBlocks hash part))).1) :
    writeAt (if pos = 0 then part else part.take pos) pos (file.drop pos) = file ↔
      part.length ≤ file.length ∨ part.take blockSize <+: file := by
  have hiff := resumeReader_hashBlocks_pos_iff hinj file part
  rw [← hpos] at hiff
  by_cases hzero : pos = 0
  · rw [hzero, drop_zero, writeAt_zero, append_right_eq_self, drop_eq_nil_iff]
    refine ⟨.inl, ?_⟩
    rintro (hlen | hpre)
    · exact hlen
    · -- nothing was skipped, so the partial file has no block
      by_contra hlong
      have hne : part ≠ [] := by
        rintro rfl
        exact hlong (Nat.zero_le _)
      exact absurd hzero (hiff.2 ⟨hne, hpre⟩).ne'
  · have hmatch : pos ≤ part.length ∧ part.take pos = file.take pos := by
      rw [hpos]
      have hblocks : part.drop (0 * blockSize) = part.drop 0 := by rw [zero_mul]
      exact resumeLoop_hashBlocks hinj file part (file.length + 1) (Nat.zero_le _) hblocks rfl
    rw [if_neg hzero]
    have hlen : (part.take pos).length = pos := by
      rw [length_take, min_eq_left hmatch.1]
    have hstored : writeAt (part.take pos) pos (file.drop pos) = file := by
      have happend := writeAt_length (part.take pos) (file.drop pos)
      rw [hlen] at happend
      rw [happend, hmatch.2, take_append_drop]
    exact iff_of_true hstored (.inr (hiff.1 (pos_of_ne_zero hzero)).2)

/-- **When a resumed transfer reproduces the file.**  What a successful `PutFile` stores of the
rest of a file is that file exactly when the partial file was not longer, or the file starts with
its first block.  The sender's share is right for every sequence of checksums. -/
theorem Manager.putFile_resumed_iff (hinj : Injective hash) {opts : Options}
    {fault : Option IoFault} {now : Nat} {m m' : Manager} {id : ClientID} {baseName dst : FileName}
    {file rest : Bytes} {next : Nat → HashNext H} {offset : Nat} {err : Option ResumeError}
    {length n : Int} (hnext : m.hashPartialFile hash opts id baseName = .ok next)
    (hresume : resumeReader hash file (some next) = (offset, rest, err))
    (hput : m.putFile hash opts fault now id baseName rest offset length = (m', .ok (n, dst))) :
    (m'.dir.lookup dst = some file ∧ n = file.length ↔
      ((m.dir.lookup (partialName id baseName)).getD []).length ≤ file.length ∨
        ((m.dir.lookup (partialName id baseName)).getD []).take blockSize <+: file) ∧
    ∀ hashNext : Option (Nat → HashNext H),
      (resumeReader hash file hashNext).1 ≤ file.length ∧
        file.take (resumeReader hash file hashNext).1 ++ (resumeReader hash file hashNext).2.1 =
          file := by
  refine ⟨?_, take_append_resumeReader file⟩
  obtain rfl := hashPartialFile_eq_ok hash hnext
  obtain ⟨pos, hpos, -, rfl, hstored⟩ := putFile_eq_ok hinj hput
  obtain rfl := Int.ofNat.inj hpos
  -- the offset and the rest are those of the sender
  obtain ⟨hle, hfile⟩ := take_append_resumeReader file
    (some (hashBlocks hash ((m.dir.lookup (partialName id baseName)).getD [])))
  rw [hresume] at hle hfile
  have hrest : rest = file.drop offset :=
    append_cancel_left (hfile.trans (take_append_drop offset file).symm)
  have hn : (offset : Int) + rest.length = file.length := by
    rw [hrest, length_drop]
    omega
  rw [hstored, hrest, Option.some_inj, ← hrest, and_iff_left hn, hrest]
  exact stored_eq_iff_of_resumed hinj (by rw [hresume])

/-- A manager with a partial file of two bytes. -/
def leftOver : Manager where
  dir := AList.singleton (partialName ['n', '1'] ['a']) [1, 1]

/-- The partial file is resumed. -/
def resumed : Manager := (leftOver.putFile id {} none 0 ['n', '1'] ['a'] [2] 2 (-1)).1

theorem Manager.putFile_resumed_iff_leftOver :
    (resumed.dir.lookup ['a'] = some [1, 1, 2] ∧ (3 : Int) = ([1, 1, 2] : Bytes).length ↔
      ([1, 1] : Bytes).length ≤ ([1, 1, 2] : Bytes).length ∨
        ([1, 1] : Bytes).take blockSize <+: [1, 1, 2]) ∧
    ∀ hashNext : Option (Nat → HashNext Bytes),
      (resumeReader id [1, 1, 2] hashNext).1 ≤ ([1, 1, 2] : Bytes).length ∧
        ([1, 1, 2] : Bytes).take (resumeReader id [1, 1, 2] hashNext).1 ++
          (resumeReader id [1, 1, 2] hashNext).2.1 = [1, 1, 2] := by
  have hnext : leftOver.hashPartialFile id {} ['n', '1'] ['a'] = .ok (hashBlocks id [1, 1]) := rfl
  have hresume : resumeReader id [1, 1, 2] (some (hashBlocks id [1, 1])) = (2, [2], none) := rfl
  have hput : leftOver.putFile id {} none 0 ['n', '1'] ['a'] [2] (2 : Nat) (-1) =
      (resumed, .ok (3, ['a'])) := rfl
  exact Manager.putFile_resumed_iff injective_id hnext hresume hput

/-- Another file of one byte does not match the partial file, and is stored with its last byte
behind it. -/
theorem Manager.putFile_shorter_keeps_tail :
    leftOver.hashPartialFile id {} ['n', '1'] ['a'] = .ok (hashBlocks id [1, 1]) ∧
    resumeReader id [2] (some (hashBlocks id [1, 1])) = (0, [2], none) ∧
    (leftOver.putFile id {} none 0 ['n', '1'] ['a'] [2] 0 1).2 = .ok (1, ['a']) ∧
    (leftOver.putFile id {} none 0 ['n', '1'] ['a'] [2] 0 1).1.dir.lookup ['a'] = some [2, 1] :=
  ⟨rfl, rfl, rfl, rfl⟩

end Multiport.Taildrop

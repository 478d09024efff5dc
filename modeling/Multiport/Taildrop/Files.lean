import Mathlib.Data.List.Infix
import Multiport.Lib.Bytes
import Multiport.Lib.Maps

/-!
# The directory of received files

The names that Taildrop gives to its files, and the operations on the directory that holds
them.  A file that is being received is the *partial file* of its name and sender; a file
that could not be deleted has a *marker* next to it.  Names of received files are neither,
and stay so when a number is added to them (`not_isPartialOrDeleted_nextFilename`).
-/

namespace Multiport.Taildrop

open Lib List AList

abbrev FileName : Type := List Char

/-- An opaque identifier of a sender, e.g. `n12345CNTRL`. -/
abbrev ClientID : Type := List Char

/-! ## Names -/

/-- The suffix of files that are being transferred. -/
def partialSuffix : FileName := ['.', 'p', 'a', 'r', 't', 'i', 'a', 'l']

/-- The suffix of the marker of a file that could not be deleted. -/
def deletedSuffix : FileName := ['.', 'd', 'e', 'l', 'e', 't', 'e', 'd']

/-- The suffix of the partial files of a sender. -/
def ClientID.partialSuffix (id : ClientID) : FileName :=
  if id = [] then Taildrop.partialSuffix else '.' :: id ++ Taildrop.partialSuffix

def partialName (id : ClientID) (baseName : FileName) : FileName := baseName ++ id.partialSuffix

def isPartialOrDeleted (s : FileName) : Bool :=
  deletedSuffix.isSuffixOf s || partialSuffix.isSuffixOf s

/-- `validateBaseName`.  The checks it shares with `joinDir` (valid and trimmed UTF-8 of at
most 255 bytes, a clean local path of printable characters) are `accepts`. -/
def validateBaseName (accepts : FileName → Bool) (name : FileName) : Bool :=
  accepts name && !isPartialOrDeleted name

theorem partialSuffix_suffix_partialName (id : ClientID) (baseName : FileName) :
    partialSuffix <:+ partialName id baseName := by
  unfold partialName ClientID.partialSuffix
  split
  · exact suffix_append _ _
  · exact (suffix_append ('.' :: id) _).trans (suffix_append _ _)

theorem isPartialOrDeleted_eq_true_iff {name : FileName} :
    isPartialOrDeleted name = true ↔ deletedSuffix <:+ name ∨ partialSuffix <:+ name := by
  simp [isPartialOrDeleted]

/-! ## The next name in a sequence -/

/-- `[a-zA-Z0-9]{0,3}[a-zA-Z][a-zA-Z0-9]{0,3}`. -/
def isExtension (w : List Char) : Bool :=
  w.all Char.isAlphanum &&
    (List.range 4).any fun i => w[i]?.any Char.isAlpha && decide (w.length ≤ i + 4)

/-- Whether a text is a sequence of extensions, each with its dot. -/
def isExtensions : List Char → Bool
  | [] => true
  | c :: s => c = '.' && (s.splitOn '.').all isExtension

variable (name : FileName)

/-- `rxExtensionSuffix.FindString`: the longest suffix of extensions. -/
def extensionSuffix : List Char := (name.tails.find? isExtensions).getD []

/-- Whether a text starts with ` (`, digits and `)`. -/
def startsWithNumber : List Char → Bool
  | ' ' :: '(' :: s =>
    s.head?.any Char.isDigit && (s.dropWhile Char.isDigit).head? = some ')'
  | _ => false

/-- `rxNumberSuffix.MatchString`. -/
def hasNumber : Bool := name.tails.any startsWithNumber

/-- What follows the last ` (`. -/
def afterLastParen : Option FileName :=
  (name.tails.filter fun t => [' ', '('].isPrefixOf t).getLast?.map (·.drop 2)

/-- `strconv.ParseUint(s, 10, 64)` with its error ignored: `0` for what is no number, the
largest number for one that is too large. -/
def parseUint (n : Nat) : List Char → Nat
  | [] => n
  | c :: s =>
    if c.isDigit then
      let n' := n * 10 + (c.toNat - '0'.toNat)
      if 2 ^ 64 ≤ n' then 2 ^ 64 - 1 else parseUint n' s
    else 0

/-- `name + " (" + strconv.FormatUint(n+1, 10) + ")" + ext`. -/
def numbered (n : Nat) (ext : List Char) : FileName :=
  name ++ [' ', '('] ++ Nat.toDigits 10 ((n + 1) % 2 ^ 64) ++ ')' :: ext

/-- `nextFilename`.  It panics, here `none`, on a name with a number whose last ` (` ends it.  The
source cuts the last byte off: what it leaves of a longer character is no digit either. -/
def nextFilename : Option FileName :=
  let ext := extensionSuffix (if ['.'].isPrefixOf name then name.drop 1 else name)
  let stem := name.take (name.length - ext.length)
  if hasNumber stem then
    match afterLastParen stem with
    | none | some [] => none
    | some after =>
      let n := parseUint 0 (if after.getLast?.any (·.utf8Size = 1) then after.dropLast else after)
      let stem := if 0 < n then stem.take (stem.length - after.length - 2) else stem
      some (numbered stem n ext)
  else
    some (numbered stem 0 ext)

theorem extensionSuffix_suffix : extensionSuffix name <:+ name := by
  unfold extensionSuffix
  cases h : name.tails.find? isExtensions with
  | none => exact nil_suffix
  | some ext => exact (mem_tails _ _).1 (mem_of_find?_eq_some h)

/-- The next name ends in a closing parenthesis and extensions of the name before. -/
theorem nextFilename_eq {name next : FileName} (h : nextFilename name = some next) :
    ∃ stem ext, next = stem ++ ')' :: ext ∧ ext <:+ name := by
  have hext : extensionSuffix (if ['.'].isPrefixOf name then name.drop 1 else name) <:+ name := by
    refine (extensionSuffix_suffix _).trans ?_
    split
    · exact drop_suffix _ _
    · exact suffix_rfl
  unfold nextFilename at h
  generalize extensionSuffix _ = ext at h hext
  simp only at h
  split at h
  · split at h
    · cases h
    · cases h
    · exact ⟨_, _, (Option.some.inj h).symm, hext⟩
  · exact ⟨_, _, (Option.some.inj h).symm, hext⟩

/-- What ends in a closing parenthesis and the end of a name ends in a suffix without
parentheses only if the name does. -/
theorem suffix_of_suffix_append_paren {s stem ext name : List Char} (hs : ')' ∉ s)
    (hext : ext <:+ name) (h : s <:+ stem ++ ')' :: ext) : s <:+ name := by
  rcases suffix_or_suffix_of_suffix h (suffix_append _ _) with hshort | hlong
  · rcases suffix_cons_iff.1 hshort with rfl | hshort
    · exact absurd mem_cons_self hs
    · exact hshort.trans hext
  · exact absurd (hlong.subset mem_cons_self) hs

theorem not_isPartialOrDeleted_nextFilename {name next : FileName}
    (hname : isPartialOrDeleted name = false) (h : nextFilename name = some next) :
    isPartialOrDeleted next = false := by
  obtain ⟨stem, ext, rfl, hext⟩ := nextFilename_eq h
  rw [← Bool.not_eq_true, isPartialOrDeleted_eq_true_iff] at hname ⊢
  refine fun hor => hname (hor.imp ?_ ?_)
  · exact suffix_of_suffix_append_paren (by decide) hext
  · exact suffix_of_suffix_append_paren (by decide) hext

/-! ## Files -/

/-- The regular files of the directory. -/
abbrev Dir : Type := GoMap FileName Bytes

/-- What writing `data` at `pos` makes of a file; a gap is filled with zeros. -/
def writeAt (file : Bytes) (pos : Nat) (data : Bytes) : Bytes :=
  file.take pos ++ List.replicate (pos - file.length) 0 ++ data ++ file.drop (pos + data.length)

@[simp] theorem writeAt_length (file data : Bytes) :
    writeAt file file.length data = file ++ data := by
  simp [writeAt]

/-- Writing from the start of a file leaves what is behind the new bytes. -/
theorem writeAt_zero (file data : Bytes) : writeAt file 0 data = data ++ file.drop data.length := by
  simp [writeAt]

/-- The errors of the operations on files.  Errors of the operating system are one. -/
inductive FileError
  | invalidFileName
  | outOfRange (offset : Int)
  | notExist
  | tooManyRetries
  | panic
  | system
  deriving DecidableEq, Repr

/-- `fsFileOps.OpenWriter`: the directory afterwards, and the position to write at.  `fails` is
an error of the operating system on opening the file. -/
def openWriter (accepts : FileName → Bool) (fails : Bool) (dir : Dir) (name : FileName)
    (offset : Int) : Dir × Except FileError Nat :=
  if !accepts name then (dir, .error .invalidFileName)
  else if fails then (dir, .error .system)
  else
    let curr := (dir.lookup name).getD []
    let dir := dir.insert name curr
    if offset ≠ 0 then
      if offset < 0 ∨ curr.length < offset then (dir, .error (.outOfRange offset))
      else (dir.insert name (curr.take offset.toNat), .ok offset.toNat)
    else (dir, .ok 0)

/-- Writing to an open file.  One that was removed in the meantime has no name to be found
under. -/
def write (dir : Dir) (name : FileName) (pos : Nat) (data : Bytes) : Dir :=
  dir.modify name fun file => writeAt file pos data

/-- What a successful `OpenWriter` leaves: the file up to a non-zero offset, or all of it. -/
theorem openWriter_eq_ok {accepts} {fails : Bool} {dir dir' : Dir}
    {name : FileName} {offset : Int} {pos : Nat}
    (h : openWriter accepts fails dir name offset = (dir', .ok pos)) :
    offset = pos ∧ pos ≤ ((dir.lookup name).getD []).length ∧
      dir'.lookup name = some (if pos = 0 then (dir.lookup name).getD []
        else ((dir.lookup name).getD []).take pos) := by
  unfold openWriter at h
  split at h
  · cases h
  split at h
  · cases h
  simp only at h
  split at h
  next hoffset =>
    split at h
    · cases h
    next hrange =>
      obtain ⟨rfl, hpos⟩ := Prod.mk.inj h
      cases hpos
      have hne : offset.toNat ≠ 0 := by omega
      refine ⟨by omega, by omega, ?_⟩
      rw [lookup_insert, if_neg hne]
  next hoffset =>
    obtain ⟨rfl, hpos⟩ := Prod.mk.inj h
    cases hpos
    refine ⟨by omega, Nat.zero_le _, ?_⟩
    rw [lookup_insert, if_pos rfl]

/-! ## Moving a file to its final name -/

section Rename

variable {H : Type} [DecidableEq H] (hash : Bytes → H)

/-- The loop of `Rename`: the file moves to the first name of the sequence that is free, or is
dropped for a file with its content. -/
def renameLoop (old : FileName) (content : Bytes) : Nat → Dir → FileName →
    Except FileError (Dir × FileName)
  | 0, _, _ => .error .tooManyRetries
  | n + 1, dir, dst =>
    match dir.lookup dst with
    | none => .ok ((dir.erase old).insert dst content, dst)
    | some got =>
      if got.length = content.length ∧ hash content = hash got then .ok (dir.erase old, dst)
      else
        match nextFilename dst with
        | none => .error .panic
        | some dst => renameLoop old content n dir dst

/-- `fsFileOps.Rename`, with the files given by their names in the directory. -/
def rename (dir : Dir) (old newName : FileName) : Except FileError (Dir × FileName) :=
  if '/' ∈ newName then .error .invalidFileName
  else
    match dir.lookup old with
    | none => .error .notExist
    | some content => renameLoop hash old content 10 dir newName

variable {hash}

theorem lookup_renameLoop (hinj : Function.Injective hash) {old : FileName} {content : Bytes}
    (hold : partialSuffix <:+ old) {n : Nat} {dir dir' : Dir} {dst dst' : FileName}
    (hdst : isPartialOrDeleted dst = false)
    (h : renameLoop hash old content n dir dst = .ok (dir', dst')) :
    dir'.lookup dst' = some content := by
  induction n generalizing dst with
  | zero => cases h
  | succ n ih =>
    unfold renameLoop at h
    split at h
    next =>
      cases h
      exact lookup_insert _
    next got hgot =>
      split at h
      next hsame =>
        have hne : dst ≠ old := by
          rintro rfl
          rw [isPartialOrDeleted_eq_true_iff.2 (.inr hold)] at hdst
          cases hdst
        cases h
        rw [lookup_erase_ne hne, hgot, hinj hsame.2]
      next =>
        split at h
        · cases h
        next next hnext => exact ih (not_isPartialOrDeleted_nextFilename hdst hnext) h

/-- **A renamed partial file is found under the name that `Rename` returns.** -/
theorem lookup_rename (hinj : Function.Injective hash) {dir dir' : Dir} {old newName dst : FileName}
    {content : Bytes} (hold : partialSuffix <:+ old) (hcontent : dir.lookup old = some content)
    (hnew : isPartialOrDeleted newName = false)
    (h : rename hash dir old newName = .ok (dir', dst)) :
    dir'.lookup dst = some content := by
  unfold rename at h
  split at h
  · cases h
  · simp only [hcontent] at h
    exact lookup_renameLoop hinj hold hnew h

end Rename

/-! ## The files that are received -/

/-- The name of a received file: neither of a partial file nor of a marker. -/
def FinalName : Type := {name : FileName // isPartialOrDeleted name = false}

theorem FinalName.ne_partialName (k : FinalName) (id : ClientID) (baseName : FileName) :
    k.1 ≠ partialName id baseName := by
  intro h
  have hk := k.2
  rw [h, isPartialOrDeleted_eq_true_iff.2 (.inr (partialSuffix_suffix_partialName _ _))] at hk
  cases hk

variable {dir' : Dir} {name} {k dst dst' : FileName}

theorem lookup_openWriter_of_ne (hk : k ≠ name) (accepts : FileName → Bool) (fails : Bool)
    (dir : Dir) (offset : Int) :
    (openWriter accepts fails dir name offset).1.lookup k = dir.lookup k := by
  unfold openWriter
  simp only
  split_ifs <;> simp only [lookup_insert_ne hk]

/-- `Rename` only takes a name that is free. -/
theorem lookup_renameLoop_of_ne {H : Type} [DecidableEq H] {hash : Bytes → H} (hk : k ≠ name)
    {dir : Dir} {content : Bytes} {n : Nat}
    (h : renameLoop hash name content n dir dst = .ok (dir', dst')) :
    dir'.lookup k = dir.lookup k ∨ dir.lookup k = none ∧ k = dst' := by
  induction n generalizing dst with
  | zero => cases h
  | succ n ih =>
    unfold renameLoop at h
    split at h
    next hfree =>
      cases h
      by_cases hd : k = dst'
      · exact .inr ⟨hd ▸ hfree, hd⟩
      · exact .inl (by rw [lookup_insert_ne hd, lookup_erase_ne hk])
    · split at h
      · cases h
        exact .inl (lookup_erase_ne hk)
      · split at h
        · cases h
        · exact ih h

end Multiport.Taildrop

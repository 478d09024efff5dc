import Multiport.Taildrop.Files

/-!
# The manager of received files

The queue of files to be deleted, and `PutFile` when nothing interferes with it: what one call
stores, and what no sequence of calls can do to a file that has been received.
-/

namespace Multiport.Taildrop

open Lib

/-! ## The deleter -/

/-- How long a file stays in the queue before it is deleted, in nanoseconds. -/
def deleteDelay : Nat := 3600 * 10 ^ 9

/-- `fileDeleter`: the queue of the names to delete with the times they were inserted at (whose
names are the keys of `byName`), and when the running `waitAndDelete`, if there is one, wakes up. -/
structure Deleter where
  queue : List (FileName × Nat) := []
  deadline : Option Nat := none

namespace Deleter

def names (d : Deleter) : List FileName := d.queue.map Prod.fst

def insert (d : Deleter) (name : FileName) (now : Nat) : Deleter :=
  if name ∈ d.names then d
  else
    { queue := d.queue ++ [(name, now)]
      deadline := if d.queue = [] then some (now + deleteDelay) else d.deadline }

def remove (d : Deleter) (name : FileName) : Deleter :=
  let queue := d.queue.filter (·.1 ≠ name)
  { queue, deadline := if queue = [] then none else d.deadline }

end Deleter

/-! ## The manager -/

/-- What the platform and the options of the manager decide: whether there are file operations
and Taildrop is allowed, whether this is Unraid, and the names that `joinDir`
accepts. -/
structure Options where
  fileOps : Bool := true
  canTaildrop : Bool := true
  unraid : Bool := false
  directFileMode : Bool := false
  accepts : FileName → Bool := fun _ => true

/-- `manager`: the directory, the transfers that are registered and the deleter. -/
structure Manager where
  dir : Dir := ∅
  incomingFiles : List (ClientID × FileName) := []
  deleter : Deleter := {}

/-- An error of the operating system on the way of a transfer. -/
inductive IoFault
  | create
  | copy (n : Nat)
  | close
  | rename
  deriving DecidableEq, Repr

/-- The errors of `PutFile`. -/
inductive PutError
  | noTaildrop
  | notAccessible
  | invalidFileName
  | fileExists
  | create (e : FileError)
  | copy
  | copied (got want : Int)
  | close
  | rename (e : FileError)
  deriving DecidableEq, Repr

namespace Manager

variable {H : Type} [DecidableEq H] (hash : Bytes → H)

/-- `m.deleter.Remove(name)`. -/
def dequeue (m : Manager) (name : FileName) : Manager :=
  { m with deleter := m.deleter.remove name }

/-- `m.deleter.Insert(name)`. -/
def schedule (m : Manager) (name : FileName) (now : Nat) : Manager :=
  { m with deleter := m.deleter.insert name now }

/-- The part of `PutFile` from the copy to the final name, for an open partial file. -/
def receive (fault : Option IoFault) (dir : Dir) (name baseName : FileName) (pos : Nat) (r : Bytes)
    (offset length : Int) : Dir × Except PutError (Int × FileName) :=
  match fault with
  | some (.copy n) => (write dir name pos (r.take n), .error .copy)
  | _ =>
    let dir := write dir name pos r
    if 0 ≤ length ∧ (r.length : Int) ≠ length then (dir, .error (.copied r.length length))
    else if fault = some .close then (dir, .error .close)
    else if fault = some .rename then (dir, .error (.rename .system))
    else
      match rename hash dir name baseName with
      | .error e => (dir, .error (.rename e))
      | .ok (dir, dst) => (dir, .ok (offset + r.length, dst))

/-- `PutFile` of the content `r`: the length that it returns and the final name.  The
registration of the transfer ends with the call, so it shows only to other calls. -/
def putFile (opts : Options) (fault : Option IoFault) (now : Nat) (m : Manager) (id : ClientID)
    (baseName : FileName) (r : Bytes) (offset length : Int) :
    Manager × Except PutError (Int × FileName) :=
  if !opts.fileOps || !opts.canTaildrop then (m, .error .noTaildrop)
  else if opts.unraid && !opts.directFileMode then (m, .error .notAccessible)
  else if !validateBaseName opts.accepts baseName then (m, .error .invalidFileName)
  else
    let m := m.dequeue baseName
    let name := partialName id baseName
    match openWriter opts.accepts (fault = some .create) m.dir name offset with
    | (dir, .error e) => ({ m with dir }, .error (.create e))
    | (dir, .ok pos) =>
      if (id, baseName) ∈ m.incomingFiles then
        ({ m with dir }.schedule name now, .error .fileExists)
      else
        match receive hash fault dir name baseName pos r offset length with
        | (dir, .error e) => ({ m with dir }.schedule name now, .error e)
        | (dir, .ok res) => ({ m with dir }, .ok res)

variable {hash}

/-- What a transfer that succeeds stores: its bytes, written into the partial file. -/
theorem receive_eq_ok (hinj : Function.Injective hash) {fault : Option IoFault} {dir dir' : Dir}
    {id : ClientID} {baseName dst : FileName} {pos : Nat} {r file : Bytes} {offset length n : Int}
    (hfile : dir.lookup (partialName id baseName) = some file)
    (hname : isPartialOrDeleted baseName = false)
    (h : receive hash fault dir (partialName id baseName) baseName pos r offset length =
      (dir', .ok (n, dst))) :
    n = offset + r.length ∧ dir'.lookup dst = some (writeAt file pos r) := by
  unfold receive at h
  split at h
  · cases h
  simp only at h
  split at h
  · cases h
  split at h
  · cases h
  split at h
  · cases h
  split at h
  · cases h
  next hrename =>
    obtain ⟨rfl, hres⟩ := Prod.mk.inj h
    obtain ⟨rfl, rfl⟩ := Prod.mk.inj (Except.ok.inj hres)
    refine ⟨rfl, lookup_rename hinj (partialSuffix_suffix_partialName id baseName) ?_ hname hrename⟩
    rw [write, GoMap.lookup_modify, if_pos rfl, hfile]
    rfl

/-- **What a successful `PutFile` stores**: its bytes, written at the offset into the partial
file, which is cut off there unless the offset is zero. -/
theorem putFile_eq_ok (hinj : Function.Injective hash) {opts : Options} {fault : Option IoFault}
    {now : Nat} {m m' : Manager} {id : ClientID} {baseName dst : FileName} {r : Bytes}
    {offset length n : Int}
    (h : m.putFile hash opts fault now id baseName r offset length = (m', .ok (n, dst))) :
    ∃ pos : Nat, offset = pos ∧ pos ≤ ((m.dir.lookup (partialName id baseName)).getD []).length ∧
      n = offset + r.length ∧
      m'.dir.lookup dst = some (writeAt
        (if pos = 0 then (m.dir.lookup (partialName id baseName)).getD []
          else ((m.dir.lookup (partialName id baseName)).getD []).take pos) pos r) := by
  unfold putFile at h
  split at h
  · cases h
  split at h
  · cases h
  split at h
  · cases h
  next hvalid =>
    have hname : isPartialOrDeleted baseName = false := by
      simp only [validateBaseName, Bool.not_and, Bool.not_not, Bool.or_eq_true, not_or] at hvalid
      exact Bool.eq_false_of_not_eq_true hvalid.2
    simp only at h
    split at h
    · cases h
    next dir pos hopen =>
      obtain ⟨rfl, hpos, hfile⟩ := openWriter_eq_ok hopen
      split at h
      · cases h
      split at h
      · cases h
      next dir' res hreceive =>
        obtain ⟨rfl, hres⟩ := Prod.mk.inj h
        cases hres
        obtain ⟨rfl, hstored⟩ := receive_eq_ok hinj hfile hname hreceive
        exact ⟨pos, rfl, hpos, rfl, hstored⟩

/-! ## Whole runs -/

/-- A call of `PutFile`, and the transfers that are registered when it is made. -/
structure Put where
  opts : Options
  fault : Option IoFault
  now : Nat
  incomingFiles : List (ClientID × FileName)
  id : ClientID
  baseName : FileName
  r : Bytes
  offset : Int
  length : Int

variable (hash) in
/-- Calls of `PutFile` one after the other, with their results. -/
def putFiles (m : Manager) : List Put → Manager × List (Except PutError (Int × FileName))
  | [] => (m, [])
  | p :: ps =>
    let (m, res) := putFile hash p.opts p.fault p.now { m with incomingFiles := p.incomingFiles }
      p.id p.baseName p.r p.offset p.length
    let (m, ress) := putFiles m ps
    (m, res :: ress)

variable {k : FinalName} {fault : Option IoFault} {dir dir' : Dir} {id : ClientID}
  {baseName : FileName} {pos : Nat} {r : Bytes} {offset length : Int}

theorem lookup_receive {res}
    (h : receive hash fault dir (partialName id baseName) baseName pos r offset length =
      (dir', res)) :
    dir'.lookup k.1 = dir.lookup k.1 ∨ dir.lookup k.1 = none ∧ ∃ n, res = .ok (n, k.1) := by
  have hk := k.ne_partialName id baseName
  have hw (data : Bytes) :
      (write dir (partialName id baseName) pos data).lookup k.1 = dir.lookup k.1 := by
    rw [write, GoMap.lookup_modify, if_neg hk]
  unfold receive at h
  split at h
  · cases h
    exact .inl (hw _)
  simp only at h
  split_ifs at h
  · cases h
    exact .inl (hw r)
  · cases h
    exact .inl (hw r)
  · cases h
    exact .inl (hw r)
  split at h
  · cases h
    exact .inl (hw r)
  next hrename =>
    cases h
    rw [rename] at hrename
    split_ifs at hrename
    split at hrename
    · cases hrename
    · rw [← hw r]
      exact (lookup_renameLoop_of_ne hk hrename).imp_right fun hd => ⟨hd.1, _, by rw [hd.2]⟩

theorem lookup_putFile {opts : Options} {now : Nat} {m m' : Manager} {res}
    (h : m.putFile hash opts fault now id baseName r offset length = (m', res)) :
    m'.dir.lookup k.1 = m.dir.lookup k.1 ∨
      m.dir.lookup k.1 = none ∧ ∃ n, res = .ok (n, k.1) := by
  have hdir := lookup_openWriter_of_ne (k.ne_partialName id baseName) opts.accepts
    (fault = some .create) (m.dequeue baseName).dir offset
  unfold putFile at h
  iterate 3
    split at h
    · cases h
      exact .inl rfl
  simp only at h
  generalize openWriter _ _ _ _ _ = opened at h hdir
  obtain ⟨dir, e | pos⟩ := opened
  · cases h
    exact .inl hdir
  · rw [← show dir.lookup k.1 = m.dir.lookup k.1 from hdir]
    simp only at h
    split at h
    · cases h
      exact .inl rfl
    · split at h <;> next hreceive =>
        cases h
        exact lookup_receive hreceive

/-- **Received files are safe.**  Whatever calls of `PutFile` are made, and whatever goes wrong in
them, the file under a final name stays as it is; a name that was free has a file
afterwards only if one of the calls returned it. -/
theorem lookup_putFiles (k : FinalName) (calls : List Put) (m : Manager) :
    (m.putFiles hash calls).1.dir.lookup k.1 = m.dir.lookup k.1 ∨
      m.dir.lookup k.1 = none ∧ ∃ n, .ok (n, k.1) ∈ (m.putFiles hash calls).2 := by
  induction calls generalizing m with
  | nil => exact .inl rfl
  | cons p ps ih =>
    have hput := @lookup_putFile H _ hash k
    rcases hput (Prod.mk.eta).symm with hstep | ⟨hfree, n, hres⟩
    · refine (ih _).imp (·.trans hstep) ?_
      rintro ⟨hfree, n, hmem⟩
      exact ⟨hstep.symm.trans hfree, n, List.mem_cons_of_mem _ hmem⟩
    · exact .inr ⟨hfree, n, List.mem_cons.2 (.inl hres.symm)⟩

end Manager

end Multiport.Taildrop

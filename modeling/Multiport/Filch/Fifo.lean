import Multiport.Filch.Reading
import Multiport.Lib.Runs

/-!
# A lossy queue across restarts

Reads, writes and restarts of a buffer.  After a restart the newer file is written from its
start and not from its end, so what it had is overwritten.  As long as no write does so (`Safe`),
the lines of the files at the restart and the lines written since are, in this order, those that
were returned, those that a write has lost by changing the files over, and those in the queue.
-/

namespace Multiport.Filch

open Lib List

/-- What is done with a buffer. -/
inductive Action
  | write (b : Bytes)
  | read
  | restart
  deriving DecidableEq

/-- A buffer with its history since the last restart: the lines of the files then, the lines
written, the lines returned, and the lines that were unread when a write changed the files
over and truncated the file that had them. -/
structure System where
  buffer : Buffer
  stored : List Bytes := []
  written : List Bytes := []
  returned : List Bytes := []
  lost : List Bytes := []
  deriving DecidableEq

namespace System

variable (alloc : Nat → Nat) (opts : Options)

/-- `New` on files that do not exist. -/
def init : System where
  buffer := Buffer.new opts {} {} 0

/-- What an action does. -/
def exec (s : System) : Action → System
  | .write b =>
    { s with
      buffer := (s.buffer.write alloc b).1
      written := s.written ++
        if (s.buffer.write alloc b).2 then textLines newline (Buffer.terminated b) else []
      lost := s.lost ++ if s.buffer.rotates then textLines newline s.buffer.rest else [] }
  | .read =>
    { s with
      buffer := (s.buffer.tryReadLine alloc).1
      returned := s.returned ++
        match (s.buffer.tryReadLine alloc).2 with
        | none | some [] => []
        | some l => [l] }
  | .restart =>
    { buffer := Buffer.new opts s.buffer.file₁ s.buffer.file₂ s.buffer.clock
      stored := textLines newline s.buffer.older.data ++ textLines newline s.buffer.newer.data }

/-- A write is safe when it goes to the end of the newer file: the file was empty at the last
restart, or the files have changed over since, or this write changes them over. -/
def Safe (s : System) : Action → Prop
  | .write _ => s.buffer.rotates = true ∨ s.buffer.newer.pos = s.buffer.newer.data.length
  | _ => True

def SafeStep (s : System) (a : Action) (t : System) : Prop := s.Safe a ∧ s.exec alloc opts a = t

/-- Every line was returned, lost or is in the queue, in the order of the lines: `fates` tells
which of those that have left the queue were returned. -/
def Accounted (s : System) : Prop :=
  ∃ fates : List (Bytes × Bool), s.stored ++ s.written = fates.map Prod.fst ++ s.buffer.queue ∧
    s.returned = (fates.filter fun x => x.2).map Prod.fst ∧
    s.lost = (fates.filter fun x => !x.2).map Prod.fst

variable {alloc opts} {s t : System}

/-- What safe steps keep. -/
structure Inv (opts : Options) (s : System) : Prop where
  wf : s.buffer.WF
  maxLineSize : s.buffer.maxLineSize = orDefault opts.maxLineSize defaultMaxLineSize
  accounted : s.Accounted

theorem inv_init : Inv opts (init opts) where
  wf := ⟨.nil _, .nil _, le_refl _, le_refl _, ⟨[], .nil, rfl⟩, fun h => absurd rfl h,
    le_refl _, le_refl _, le_refl _⟩
  maxLineSize := rfl
  accounted := ⟨[], rfl, rfl, rfl⟩

theorem Inv.write (h : Inv opts s) {b : Bytes} (hsafe : s.Safe (.write b)) :
    Inv opts (s.exec alloc opts (.write b)) := by
  obtain ⟨hWF, hmax, hqueue⟩ := h.wf.write hsafe
  refine ⟨hWF, hmax.trans h.maxLineSize, ?_⟩
  obtain ⟨fates, hall, hreturned, hlost⟩ := h.accounted
  -- what the write loses are the unread lines of the older file
  generalize hgone : (if s.buffer.rotates then textLines newline s.buffer.rest else []) = gone
  have hsplit : s.buffer.queue =
      gone ++ if s.buffer.rotates then textLines newline s.buffer.newer.data
        else s.buffer.queue := by
    rw [← hgone]
    split
    · rfl
    · rfl
  refine ⟨fates ++ gone.map (·, false), ?_, ?_, ?_⟩
  · change s.stored ++ (s.written ++ _) = _ ++ (s.buffer.write alloc b).1.queue
    have hfst : (gone.map (·, false)).map Prod.fst = gone := by simp [Function.comp_def]
    rw [hqueue, ← append_assoc, hall, map_append, hfst, append_assoc,
      append_assoc, ← append_assoc gone, ← hsplit]
  · simp [exec, hreturned]
  · simp [exec, hlost, hgone, filter_map, Function.comp_def]

theorem Inv.read (h : Inv opts s) (halloc : ∀ n, n ≤ alloc n) :
    Inv opts (s.exec alloc opts .read) := by
  obtain ⟨hWF, hmax, hres⟩ := h.wf.tryReadLine halloc
  refine ⟨hWF, hmax.trans h.maxLineSize, ?_⟩
  obtain ⟨fates, hall, hreturned, hlost⟩ := h.accounted
  rcases hres with ⟨hnone, hqueue, hqueue'⟩ | ⟨l, hne, hsome, hqueue⟩
  · refine ⟨fates, ?_, ?_, hlost⟩
    · rw [hqueue] at hall
      simpa [exec, hqueue'] using hall
    · simp [exec, hnone, hreturned]
  · obtain ⟨c, l, rfl⟩ := exists_cons_of_ne_nil hne
    refine ⟨fates ++ [(c :: l, true)], ?_, ?_, ?_⟩
    · rw [hqueue] at hall
      simpa [exec] using hall
    · simp [exec, hsome, hreturned]
    · simp [exec, hlost]

theorem Inv.restart (h : Inv opts s) : Inv opts (s.exec alloc opts .restart) := by
  obtain ⟨hWF, hqueue⟩ := h.wf.new h.maxLineSize
  refine ⟨hWF, rfl, [], ?_, rfl, rfl⟩
  change _ ++ [] = [] ++ (Buffer.new opts s.buffer.file₁ s.buffer.file₂ s.buffer.clock).queue
  rw [hqueue, append_nil]
  rfl

theorem Inv.step (h : Inv opts s) (halloc : ∀ n, n ≤ alloc n) {a : Action}
    (hstep : SafeStep alloc opts s a t) : Inv opts t := by
  obtain ⟨hsafe, rfl⟩ := hstep
  cases a with
  | write b => exact h.write hsafe
  | read => exact h.read halloc
  | restart => exact h.restart

theorem Accounted.returned_sublist (h : s.Accounted) :
    s.returned.Sublist (s.stored ++ s.written) := by
  obtain ⟨fates, hall, hreturned, -⟩ := h
  rw [hall, hreturned]
  exact (filter_sublist.map _).trans (sublist_append_left _ _)

/-- **A lossy queue of lines across restarts.**  In every run of safe steps the lines returned
since the last restart are a subsequence of the lines stored then and written since, and every
line that has left the queue otherwise was unread when a write changed the files over. -/
theorem accounted_of_run (halloc : ∀ n, n ≤ alloc n) {acts : List Action}
    (hrun : Run (SafeStep alloc opts) (init opts) acts s) :
    s.returned.Sublist (s.stored ++ s.written) ∧ s.Accounted := by
  have hinv : Inv opts s := Run.invariant (I := fun _ s => Inv opts s) inv_init
    (fun _ _ _ _ hinv hstep => hinv.step halloc hstep) hrun
  exact ⟨hinv.accounted.returned_sublist, hinv.accounted⟩

/-- The lines `a`, `b` and `c`. -/
def line (c : Byte) : Bytes := [c, newline]

/-- A line is read, another one written behind it, and the buffer is opened again. -/
def reopened : List Action := [.write (line 97), .read, .write (line 98), .restart]

theorem accounted_of_run_reopened :
    (reopened.foldl (exec id {}) (init {})).stored = [line 97, line 98] ∧
      (reopened.foldl (exec id {}) (init {})).Accounted := by
  have hrun : Run (SafeStep id {}) (init {}) reopened (reopened.foldl (exec id {}) (init {})) :=
    (((Run.nil.snoc ⟨.inr rfl, rfl⟩).snoc ⟨trivial, rfl⟩).snoc ⟨.inr rfl, rfl⟩).snoc ⟨trivial, rfl⟩
  exact ⟨by decide +kernel, (accounted_of_run (fun _ => le_refl _) hrun).2⟩

/-- Another line is written, and all is read. -/
def drained : List Action := reopened ++ [.write (line 99), .read, .read, .read]

/-- The next line overwrites the one that was written before the restart: it is skipped although
no write has changed the files over. -/
theorem write_after_restart_overwrites :
    let s := drained.foldl (exec id {}) (init {})
    s.stored ++ s.written = [line 97, line 98, line 99] ∧ s.returned = [line 97, line 99] ∧
      s.buffer.queue = [] ∧ s.lost = [] := by
  decide +kernel

end System

end Multiport.Filch

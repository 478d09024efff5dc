import Multiport.Filch.Buffer

/-!
# What reads and writes do to the queue

The queue of a buffer are the lines of the older file that are not read, and those of the newer
one.  A read takes the first of them, whichever way the buffer slides, grows and changes files
over; a write adds to their end if the newer file is written at its end.
-/

namespace Multiport.Filch

open Lib List Buffer Nat

namespace Buffer

variable {alloc : Nat → Nat} {f : Buffer}

/-- The lines that are not read. -/
def queue (f : Buffer) : List Bytes :=
  textLines newline f.rest ++ textLines newline f.newer.data

/-- The file has complete lines of the allowed size. -/
structure Lines (max : Nat) (b : Bytes) : Prop where
  complete : Complete newline b
  short : ∀ l ∈ textLines newline b, l.length ≤ max

/-- What every operation keeps: the files have complete lines, the older one has been read up to
the end of one, and it was changed before the newer one. -/
structure WF (f : Buffer) : Prop where
  newer : Lines f.maxLineSize f.newer.data
  older : Lines f.maxLineSize f.older.data
  idx : f.rdBufIdx ≤ f.rdBuf.length
  cap : f.rdBuf.length ≤ f.rdBufCap
  consumed : ∃ b, Complete newline b ∧ f.older.data = b ++ f.rest
  times : f.older.data ≠ [] → f.newer.data ≠ [] → f.older.modTime < f.newer.modTime
  newerTime : f.newer.modTime ≤ f.clock
  olderTime : f.older.modTime ≤ f.clock
  pos : f.older.pos ≤ f.older.data.length

theorem Lines.nil (max : Nat) : Lines max [] := ⟨.nil, fun _ hl => absurd hl not_mem_nil⟩

theorem Lines.append {max : Nat} {b c : Bytes} (hb : Lines max b) (hc : Lines max c) :
    Lines max (b ++ c) where
  complete := hb.complete.append hc.complete
  short l hl := by
    rw [textLines_append hb.complete, mem_append] at hl
    exact hl.elim (hb.short l) (hc.short l)

theorem Lines.of_append {max : Nat} {b c : Bytes} (hb : Complete newline b)
    (h : Lines max (b ++ c)) : Lines max c where
  complete := by
    have hdrop := h.complete.drop b.length
    rwa [drop_left] at hdrop
  short l hl := h.short l (by
    rw [textLines_append hb]
    exact mem_append_right _ hl)

theorem WF.rest (h : WF f) : Lines f.maxLineSize f.rest := by
  obtain ⟨b, hb, heq⟩ := h.consumed
  have holder := h.older
  rw [heq] at holder
  exact holder.of_append hb

/-! ## The read buffer -/

theorem WF.length_unread_le (h : WF f) (hnl : newline ∉ f.unread) :
    f.unread.length ≤ f.maxLineSize := by
  have hrest := h.rest
  rw [Buffer.rest] at hrest
  by_cases hne : f.older.data.drop f.older.pos = []
  · rw [hne, append_nil] at hrest
    have hnil : f.unread = [] := by
      by_contra hunread
      exact hnl (hrest.complete.mem hunread)
    rw [hnil]
    exact zero_le _
  · have hcomplete : Complete newline (f.older.data.drop f.older.pos) := h.older.complete.drop _
    cases hlines : textLines newline (f.unread ++ f.older.data.drop f.older.pos) with
    | nil =>
      have hnil := textLines_eq_nil_iff.1 hlines
      rw [(append_eq_nil_iff.1 hnil).1]
      exact zero_le _
    | cons l ls =>
      have hlt := length_lt_of_notMem hnl hcomplete hne hlines
      have hle := hrest.short l (hlines ▸ mem_cons_self)
      omega

/-- Space is made without losing what is unread. -/
theorem WF.makeSpace (h : WF f) (halloc : ∀ n, n ≤ alloc n) (hnl : newline ∉ f.unread)
    (hfull : f.rdBuf.length = f.rdBufCap) :
    (f.makeSpace alloc).2 = false ∧ WF (f.makeSpace alloc).1 ∧
      (f.makeSpace alloc).1.unread = f.unread ∧ (f.makeSpace alloc).1.older = f.older ∧
      (f.makeSpace alloc).1.newer = f.newer ∧ (f.makeSpace alloc).1.maxLineSize = f.maxLineSize ∧
      (f.makeSpace alloc).1.rdBuf.length < (f.makeSpace alloc).1.rdBufCap := by
  unfold Buffer.makeSpace
  rw [if_neg (not_lt.2 (h.length_unread_le hnl))]
  split
  next hsmall =>
    have hunread : ({ f with rdBufIdx := 0, rdBuf := f.unread } : Buffer).unread = f.unread :=
      drop_zero
    refine ⟨rfl, ?_, hunread, rfl, rfl, rfl, ?_⟩
    · refine { h with idx := zero_le _, cap := ?_, consumed := ?_ }
      · change f.unread.length ≤ f.rdBufCap
        omega
      · obtain ⟨b, hb, heq⟩ := h.consumed
        exact ⟨b, hb, by rw [heq, Buffer.rest, Buffer.rest, hunread]⟩
    · change f.unread.length < f.rdBufCap
      omega
  next =>
    have hgrow := halloc (f.rdBuf.length + (f.rdBufCap + 1))
    refine ⟨rfl, ?_, rfl, rfl, rfl, rfl, ?_⟩
    · refine { h with cap := ?_ }
      change f.rdBuf.length ≤ alloc _
      omega
    · change f.rdBuf.length < alloc _
      omega

theorem rest_fill (h : WF f) : f.fill.rest = f.rest := by
  unfold rest unread fill
  rw [drop_append_of_le_length h.idx, append_assoc, ← drop_drop]
  congr 1
  exact prefix_iff_eq_append.1 (List.take_prefix _ _)

theorem WF.fill (h : WF f) : WF f.fill := by
  refine { h with idx := ?_, cap := ?_, consumed := ?_, pos := ?_ }
  · change f.rdBufIdx ≤ (f.rdBuf ++ _).length
    rw [length_append]
    exact le_add_right_of_le h.idx
  · have hcap := h.cap
    change (f.rdBuf ++ _).length ≤ f.rdBufCap
    rw [length_append, length_take]
    omega
  · rw [rest_fill h]
    exact h.consumed
  · have hpos := h.pos
    change f.older.pos + (List.take _ _).length ≤ f.older.data.length
    rw [length_take, length_drop]
    omega

/-- Filling a buffer with room makes the rest of the file shorter. -/
theorem size_fill_lt (hroom : f.rdBuf.length < f.rdBufCap)
    (hleft : f.older.pos < f.older.data.length) : f.fill.size < f.size := by
  simp only [size, fill, length_take, length_drop]
  omega

/-! ## Changing the files over -/

theorem newer_rotate : (f.rotate alloc).newer.data = [] := by
  simp only [rotate]
  split
  · rfl
  next hempty => exact eq_nil_of_length_eq_zero (by omega)

theorem queue_rotate : (f.rotate alloc).queue = textLines newline f.newer.data := by
  rw [queue, newer_rotate]
  exact append_nil _

theorem WF.rotate (h : WF f) : WF (f.rotate alloc) where
  newer := by
    rw [newer_rotate]
    exact .nil _
  older := h.newer
  idx := le_refl _
  cap := zero_le _
  consumed := ⟨[], .nil, rfl⟩
  times _ hne := absurd newer_rotate hne
  newerTime := by
    have hold := h.olderTime
    simp only [Buffer.rotate]
    split
    · exact le_refl _
    · omega
  olderTime := le_succ_of_le h.newerTime
  pos := zero_le _

theorem WF.pos_rotate (h : WF f) : (f.rotate alloc).newer.pos = 0 := by
  have hpos := h.pos
  simp only [Buffer.rotate]
  split
  · rfl
  · omega

/-! ## Reading a line -/

/-- The loop of `TryReadLine` leaves the queue as it is and finds its first line. -/
theorem WF.readLoop (h : WF f) (halloc : ∀ n, n ≤ alloc n) {rounds : Nat}
    (hrounds : f.size < rounds) :
    ∃ f' b, readLoop alloc rounds false f = (f', b, false) ∧ WF f' ∧
      f'.maxLineSize = f.maxLineSize ∧ f'.queue = f.queue ∧
      (b = [] ∧ f.queue = [] ∨
        newline ∈ f'.unread ∧ b = f'.unread.take (f'.unread.idxOf newline + 1)) := by
  induction rounds generalizing f with
  | zero => exact absurd hrounds (not_lt_zero _)
  | succ rounds ih =>
    rw [readLoop]
    split
    next hnl => exact ⟨f, _, rfl, h, rfl, rfl, .inr ⟨hnl, rfl⟩⟩
    next hnl =>
      -- the buffer with room for more
      obtain ⟨g, hg, hWF, hroom, hsize, hqueue, hmax, hunread⟩ : ∃ g,
          (if f.rdBuf.length = f.rdBufCap then f.makeSpace alloc else (f, false)) = (g, false) ∧
          WF g ∧ g.rdBuf.length < g.rdBufCap ∧ g.size = f.size ∧ g.queue = f.queue ∧
          g.maxLineSize = f.maxLineSize ∧ newline ∉ g.unread := by
        split
        next hfull =>
          obtain ⟨hlong, hWF, hunread, holder, hnewer, hmax, hroom⟩ := h.makeSpace halloc hnl hfull
          refine ⟨(f.makeSpace alloc).1, ?_, hWF, hroom, ?_, ?_, hmax, hunread ▸ hnl⟩
          · rw [← hlong]
          · rw [size, size, holder, hnewer]
          · rw [queue, queue, Buffer.rest, Buffer.rest, hunread, holder, hnewer]
        next hfull =>
          exact ⟨f, rfl, h, lt_of_le_of_ne h.cap hfull, rfl, rfl, rfl, hnl⟩
      rw [hg]
      simp only [Bool.or_self]
      split
      next heof =>
        have hrest : g.rest = g.unread := by
          rw [Buffer.rest, drop_of_length_le heof, append_nil]
        have hnil : g.unread = [] := by
          by_contra hne
          exact hunread (hrest ▸ hWF.rest.complete.mem (hrest ▸ hne))
        have hqueue' : g.queue = textLines newline g.newer.data := by
          rw [queue, hrest, hnil]
          rfl
        rw [if_pos hnil]
        split
        next hstored =>
          have hempty : g.newer.data = [] := eq_nil_of_length_eq_zero hstored
          refine ⟨_, [], rfl, hWF.rotate, hmax, ?_, .inl ⟨rfl, ?_⟩⟩
          · rw [queue_rotate, ← hqueue', hqueue]
          · rw [← hqueue, hqueue', hempty]
            rfl
        next hstored =>
          have hlt : (g.rotate alloc).size < rounds := by
            have hpos : g.newer.data.length ≠ 0 := hstored
            have hsize' : (g.rotate alloc).size = g.newer.data.length := by
              rw [size, newer_rotate]
              rfl
            have hsize'' : g.size = (g.older.data.length - g.older.pos) + 2 * g.newer.data.length :=
              rfl
            omega
          obtain ⟨f', b, hloop, hWF', hmax', hq, hres⟩ := ih hWF.rotate hlt
          refine ⟨f', b, hloop, hWF', hmax'.trans hmax, ?_, ?_⟩
          · rw [hq, queue_rotate, ← hqueue', hqueue]
          · rw [queue_rotate, ← hqueue', hqueue] at hres
            exact hres
      next hleft =>
        have hlt : g.fill.size < rounds := by
          have := size_fill_lt hroom (Nat.lt_of_not_le hleft)
          omega
        have hqueue' : g.fill.queue = f.queue := by
          rw [queue, rest_fill hWF, ← hqueue]
          rfl
        obtain ⟨f', b, hloop, hWF', hmax', hq, hres⟩ := ih hWF.fill hlt
        refine ⟨f', b, hloop, hWF', hmax'.trans hmax, hq.trans hqueue', ?_⟩
        rw [hqueue'] at hres
        exact hres

theorem WF.consume (h : WF f) (hnl : newline ∈ f.unread) {l : Bytes}
    (hl : l = f.unread.take (f.unread.idxOf newline + 1)) :
    WF (f.consume l.length) ∧ l ≠ [] ∧
      textLines newline f.rest = l :: textLines newline (f.consume l.length).rest := by
  have hlt := idxOf_lt_length_of_mem hnl
  have hlen : l.length = f.unread.idxOf newline + 1 := by
    rw [hl, length_take]
    omega
  have hunread : f.unread = l ++ (f.consume l.length).unread := by
    change f.unread = l ++ f.rdBuf.drop (f.rdBufIdx + l.length)
    rw [← drop_drop, hlen, hl]
    exact (take_append_drop _ _).symm
  have hrest : f.rest = l ++ (f.consume l.length).rest := by
    rw [Buffer.rest, hunread, append_assoc]
    rfl
  refine ⟨{ h with idx := ?_, consumed := ?_ }, ?_, ?_⟩
  · have hdrop : f.unread.length = f.rdBuf.length - f.rdBufIdx := length_drop
    change f.rdBufIdx + l.length ≤ f.rdBuf.length
    omega
  · obtain ⟨b, hb, heq⟩ := h.consumed
    refine ⟨b ++ l, hb.append (hl ▸ complete_take_idxOf hnl), ?_⟩
    rw [append_assoc, ← hrest]
    exact heq
  · exact ne_nil_of_length_pos (by omega)
  · have hmem : newline ∈ f.rest := mem_append_left _ hnl
    have hidx : f.rest.idxOf newline = f.unread.idxOf newline := idxOf_append_of_mem hnl
    rw [textLines_eq_cons hmem, hidx, ← hlen]
    rw [hrest, take_left, drop_left]

/-- **A read takes the first line of the queue**, if there is one. -/
theorem WF.tryReadLine (h : WF f) (halloc : ∀ n, n ≤ alloc n) :
    WF (f.tryReadLine alloc).1 ∧ (f.tryReadLine alloc).1.maxLineSize = f.maxLineSize ∧
      ((f.tryReadLine alloc).2 = some [] ∧ f.queue = [] ∧ (f.tryReadLine alloc).1.queue = [] ∨
        ∃ l, l ≠ [] ∧ (f.tryReadLine alloc).2 = some l ∧
          f.queue = l :: (f.tryReadLine alloc).1.queue) := by
  obtain ⟨f', b, hloop, hWF, hmax, hqueue, hres⟩ :=
    h.readLoop halloc (Nat.lt_add_of_pos_right Nat.two_pos)
  rw [Buffer.tryReadLine, hloop]
  rcases hres with ⟨rfl, hnil⟩ | ⟨hnl, rfl⟩
  · exact ⟨hWF, hmax, .inl ⟨rfl, hnil, hqueue.trans hnil⟩⟩
  generalize hl : f'.unread.take (f'.unread.idxOf newline + 1) = l
  obtain ⟨hWF', hne, hlines⟩ := hWF.consume hnl hl.symm
  have hle : l.length ≤ f'.maxLineSize := hWF.rest.short l (hlines ▸ mem_cons_self)
  have hshort : ¬((false : Bool) = true ∨ (f'.consume l.length).maxLineSize < l.length) := by
    rintro (hlong | hlong)
    · cases hlong
    · exact absurd hlong (not_lt.2 hle)
  simp only
  rw [if_neg hshort]
  refine ⟨hWF', hmax, .inr ⟨l, hne, rfl, ?_⟩⟩
  rw [← hqueue, queue, hlines]
  rfl

/-! ## Writing -/

theorem complete_terminated (b : Bytes) : Complete newline (terminated b) := by
  unfold terminated
  split
  next h =>
    intro c hc
    rw [h] at hc
    exact (Option.some.inj hc).symm
  next => simp [Complete]

theorem checkSize_cases (alloc : Nat → Nat) (f : Buffer) :
    f.rotates = true ∧ f.checkSize alloc = f.rotate alloc ∨
      f.rotates = false ∧ (f.checkSize alloc = f ∨ f.checkSize alloc = f.statAndUpdateBytes) := by
  unfold checkSize rotates
  by_cases hcheck : f.maxFileSize < f.newlyWrittenBytes + f.newlyFilchedBytes ∨
    f.writeCalls % 100 = 0
  · rw [if_pos hcheck]
    by_cases hlarge : f.maxFileSize <
        f.statAndUpdateBytes.newlyWrittenBytes + f.statAndUpdateBytes.newlyFilchedBytes
    · rw [if_pos hlarge]
      exact .inl ⟨by simp [hcheck, hlarge], rfl⟩
    · rw [if_neg hlarge]
      exact .inr ⟨by simp [hlarge], .inr rfl⟩
  · rw [if_neg hcheck]
    exact .inr ⟨by simp [hcheck], .inl rfl⟩

/-- The check of the size loses the rest of the older file if it changes the files over, and
nothing otherwise; and what is written at the end of the newer file still is. -/
theorem WF.checkSize (h : WF f) (alloc : Nat → Nat) :
    WF (f.checkSize alloc) ∧ (f.checkSize alloc).maxLineSize = f.maxLineSize ∧
      (f.checkSize alloc).queue =
        (if f.rotates then textLines newline f.newer.data else f.queue) ∧
      (f.rotates = true ∨ f.newer.pos = f.newer.data.length →
        (f.checkSize alloc).newer.pos = (f.checkSize alloc).newer.data.length) := by
  rcases checkSize_cases alloc f with ⟨hrotates, heq⟩ | ⟨hrotates, heq | heq⟩
  · rw [heq, hrotates]
    refine ⟨h.rotate, rfl, queue_rotate, fun _ => ?_⟩
    rw [h.pos_rotate, newer_rotate]
    rfl
  · rw [heq, hrotates]
    exact ⟨h, rfl, rfl, fun happend => happend.resolve_left Bool.false_ne_true⟩
  · rw [heq, hrotates]
    exact ⟨{ h with }, rfl, rfl, fun happend => happend.resolve_left Bool.false_ne_true⟩

/-- **A write at the end of the newer file adds its lines to the end of the queue.** -/
theorem WF.write (h : WF f) {b : Bytes}
    (happend : f.rotates = true ∨ f.newer.pos = f.newer.data.length) :
    WF (f.write alloc b).1 ∧ (f.write alloc b).1.maxLineSize = f.maxLineSize ∧
      (f.write alloc b).1.queue =
        (if f.rotates then textLines newline f.newer.data else f.queue) ++
          if (f.write alloc b).2 then textLines newline (terminated b) else [] := by
  obtain ⟨hWF, hmax, hqueue, hend⟩ := h.checkSize alloc
  replace happend := hend happend
  unfold Buffer.write
  generalize f.checkSize alloc = g at happend hWF hmax hqueue hend
  simp only
  split
  next =>
    refine ⟨{ hWF with }, hmax, ?_⟩
    rw [← hqueue]
    simp [queue, Buffer.rest, Buffer.unread]
  next hshort =>
    have hdata : (g.newer.write (terminated b) (g.clock + 1)).data =
        g.newer.data ++ terminated b := by
      simp [File.write, happend]
    have hlines : Lines g.maxLineSize (terminated b) := by
      refine ⟨complete_terminated b, fun l hl => ?_⟩
      by_contra hlong
      have hlong := Nat.lt_of_not_le hlong
      exact hshort ⟨lt_of_lt_of_le hlong (length_le_of_mem_textLines hl), l, hl, hlong⟩
    refine ⟨{ hWF with
      newer := ?_
      times := fun _ _ => lt_succ_of_le hWF.olderTime
      newerTime := le_refl _
      olderTime := le_succ_of_le hWF.olderTime }, hmax, ?_⟩
    · rw [hdata]
      exact hWF.newer.append hlines
    · rw [← hqueue, queue, hdata, textLines_append hWF.newer.complete, ← append_assoc]
      rfl

/-! ## Restarting -/

/-- The roles of the files after a restart: those before it, unless the older file is empty. -/
theorem new_roles (h : WF f) (opts : Options) :
    (new opts f.file₁ f.file₂ f.clock).older = { f.older with pos := 0 } ∧
      (new opts f.file₁ f.file₂ f.clock).newer = { f.newer with pos := 0 } ∨
    (new opts f.file₁ f.file₂ f.clock).older = { f.newer with pos := 0 } ∧
      (new opts f.file₁ f.file₂ f.clock).newer = { f.older with pos := 0 } ∧
      f.older.data = [] := by
  by_cases holder : f.older.data = []
  · -- the roles do not matter, or the newer file has all the lines
    unfold new
    generalize (if 0 < f.file₁.data.length ∧ f.file₂.data.length = 0 then true
      else if 0 < f.file₂.data.length ∧ f.file₁.data.length = 0 then false
      else decide (f.file₁.modTime < f.file₂.modTime)) = second
    cases second <;> cases hsecond : f.newerIsSecond <;> simp [file₁, file₂, hsecond, holder]
  · have hpos : 0 < f.older.data.length := length_pos_of_ne_nil holder
    by_cases hnewer : f.newer.data = []
    · cases hsecond : f.newerIsSecond <;> simp [new, file₁, file₂, hsecond, hpos, hnewer]
    · have htimes := h.times holder hnewer
      have hnot := not_lt.2 htimes.le
      cases hsecond : f.newerIsSecond <;>
        simp [new, file₁, file₂, hsecond, hpos.ne', htimes, hnot]

/-- **A restart finds the lines of the two files**, those of the older one first. -/
theorem WF.new (h : WF f) {opts : Options}
    (hmax : f.maxLineSize = orDefault opts.maxLineSize defaultMaxLineSize) :
    WF (new opts f.file₁ f.file₂ f.clock) ∧
      (new opts f.file₁ f.file₂ f.clock).queue =
        textLines newline f.older.data ++ textLines newline f.newer.data := by
  have hopened : (Buffer.new opts f.file₁ f.file₂ f.clock).rest =
      (Buffer.new opts f.file₁ f.file₂ f.clock).older.data := rfl
  replace hmax : (Buffer.new opts f.file₁ f.file₂ f.clock).maxLineSize = f.maxLineSize := hmax.symm
  rcases new_roles h opts with ⟨holder, hnewer⟩ | ⟨holder, hnewer, hempty⟩
  · refine ⟨⟨?_, ?_, le_refl _, zero_le _, ⟨[], .nil, rfl⟩, ?_, ?_, ?_, zero_le _⟩, ?_⟩
    · rw [hmax, hnewer]
      exact h.newer
    · rw [hmax, holder]
      exact h.older
    · rw [holder, hnewer]
      exact h.times
    · rw [hnewer]
      exact h.newerTime
    · rw [holder]
      exact h.olderTime
    · rw [queue, hopened, holder, hnewer]
  · refine ⟨⟨?_, ?_, le_refl _, zero_le _, ⟨[], .nil, rfl⟩, ?_, ?_, ?_, zero_le _⟩, ?_⟩
    · rw [hnewer, hempty]
      exact .nil _
    · rw [hmax, holder]
      exact h.newer
    · rw [hnewer]
      exact fun _ hne => absurd hempty hne
    · rw [hnewer]
      exact h.olderTime
    · rw [holder]
      exact h.newerTime
    · rw [queue, hopened, holder, hnewer, hempty]
      exact append_nil _

end Buffer

end Multiport.Filch

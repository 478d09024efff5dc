import Multiport.Controlbase.Conn
import Mathlib.Data.List.Nodup

/-!
# The stream of a control connection

What the reader has returned is a prefix of what the writer was given, whatever the transport
does.  The two halves are looked at on their own: the writer seals the pieces of its input
under the nonces `0, 1, 2, …` and stops for good at the first error, and the reader opens
records under `0, 1, 2, …` and stops for good at the first one that does not open.  They meet in the
AEAD, which is ideal: what opens under a nonce is what was sealed under it.
-/

namespace Multiport.Controlbase

open Lib List Nonce RxState Option

variable {E : Type} {A : AEAD} {s t : Sys E} {tr : List (Event E)} {ev : Event E}
  {tx tx' : TxState E}
  {rx rx' : RxState} {net : List (NetRead E)} {k : Nat}

/-! ## Nonces -/

namespace Nonce

/-- The nonce of the `k`-th record. -/
def ofNat (k : Nat) : Nonce := { counter := BitVec.ofNat 64 k }

theorem increment_ofNat (k : Nat) : (ofNat k).increment = ofNat (k + 1) := by
  simp [ofNat, increment, BitVec.ofNat_add, BitVec.add_comm]

theorem ofNat_inj {l : Nat} (hk : k < 2 ^ 64) (hl : l < 2 ^ 64) : ofNat k = ofNat l ↔ k = l := by
  refine ⟨fun h => ?_, congrArg ofNat⟩
  have h' := congrArg (fun n => n.counter.toNat) h
  simp only [ofNat, BitVec.toNat_ofNat] at h'
  rwa [Nat.mod_eq_of_lt hk, Nat.mod_eq_of_lt hl] at h'

theorem succ_lt_of_valid (hk : k < 2 ^ 64) (h : (ofNat k).valid = true) : k + 1 < 2 ^ 64 := by
  by_contra hge
  have : k = 2 ^ 64 - 1 := by omega
  subst this
  exact absurd h (by decide)

end Nonce

/-- The nonces from the `k`-th on. -/
def noncesFrom (k n : Nat) : List Nonce := (List.range n).map fun i => ofNat (k + i)

theorem noncesFrom_add (k m n : Nat) :
    noncesFrom k (m + n) = noncesFrom k m ++ noncesFrom (k + m) n := by
  simp [noncesFrom, range_add, add_assoc]

variable {n : Nat}

theorem getElem?_noncesFrom_zero {i : Nat} (h : i < n) : (noncesFrom 0 n)[i]? = some (ofNat i) := by
  simp [noncesFrom, h]

theorem nodup_noncesFrom_zero (h : n < 2 ^ 64) : (noncesFrom 0 n).Nodup := by
  refine List.Nodup.map_on ?_ nodup_range
  intro i hi j hj heq
  rw [mem_range] at hi hj
  simpa using (ofNat_inj (by omega) (by omega)).1 heq

/-! ## The events of a run -/

namespace Event

def given : Event E → Bytes
  | .write bs _ _ _ _ => bs
  | _ => []

def records : Event E → List SealedRecord
  | .write _ _ _ records _ => records
  | _ => []

/-- What the step gives to the transport. -/
def wire : Event E → List Bytes
  | .write _ _ _ _ wire => wire
  | _ => []

def returned : Event E → Bytes
  | .read (.ok bs) _ => bs
  | _ => []

def opened : Event E → List Opened
  | .read _ opened => opened
  | _ => []

/-- A `Write` that returns an error. -/
def FailedWrite : Event E → Prop
  | .write _ _ (some _) _ _ => True
  | _ => False

end Event

variable (tr)

/-- The bytes that `Write` was given. -/
def given : Bytes := tr.flatMap Event.given

/-- The records that were sealed, in order. -/
def records : List SealedRecord := tr.flatMap Event.records

/-- The bytes that `Read` has returned. -/
def returned : Bytes := tr.flatMap Event.returned

/-- The records that were opened, in order. -/
def opened : List Opened := tr.flatMap Event.opened

variable {tr}

/-- The AEAD is ideal in a run: every record that opens was sealed, under the same nonce. -/
def Authentic (A : AEAD) (tr : List (Event E)) : Prop :=
  ∀ o ∈ opened tr, ∃ plaintext, ⟨o.nonce, plaintext⟩ ∈ records tr ∧
    o.ciphertext = A.sealRecord o.nonce plaintext

/-! ## The writer -/

/-- What the loop of `Write` does from the `k`-th nonce on. -/
structure WritesFrom (k : Nat) (bs : Bytes) (w : Written E) : Prop where
  bound : k + w.sealed.length < 2 ^ 64
  nonce : w.nonce = ofNat (k + w.sealed.length)
  nonces : w.sealed.map (·.nonce) = noncesFrom k w.sealed.length
  plaintext : w.sealed.flatMap (·.plaintext) <+: bs
  complete : w.err = none → w.sealed.flatMap (·.plaintext) = bs ∧ w.txErr = none

theorem encrypt_eq_ok {nonce : Nonce} {plaintext ciphertext : Bytes}
    (h : encrypt (E := E) A nonce plaintext = .ok ciphertext) : nonce.valid = true := by
  unfold encrypt at h
  split at h
  · cases h
  next hv => simpa using hv

/-- **The loop of `Write`.** -/
theorem writesFrom_writeLoop (conn : Nat → Option E) (i : Nat) (bs : Bytes) (hk : k < 2 ^ 64) :
    WritesFrom k bs (writeLoop A conn i (ofNat k) bs) := by
  generalize hn : ofNat k = nonce
  fun_induction writeLoop A conn i nonce bs generalizing k with
  | case1 i nonce =>
    subst hn
    exact ⟨hk, rfl, rfl, nil_prefix, fun _ => ⟨rfl, rfl⟩⟩
  | case2 i nonce bs hne toSend err =>
    subst hn
    exact ⟨hk, rfl, rfl, nil_prefix, nofun⟩
  | case3 i nonce bs hne toSend ciphertext henc err =>
    subst hn
    refine ⟨succ_lt_of_valid hk (encrypt_eq_ok henc), increment_ofNat k, rfl, ?_,
      nofun⟩
    simpa using take_prefix _ _
  | case4 i nonce bs hne toSend ciphertext henc hconn rest =>
    rename_i ih
    subst hn
    have hvalid := succ_lt_of_valid hk (encrypt_eq_ok henc)
    obtain ⟨hbound, hnonce, hnonces, hplain, hcomplete⟩ := ih hvalid (increment_ofNat k).symm
    have hlen : k + (rest.sealed.length + 1) = k + 1 + rest.sealed.length := by omega
    refine ⟨?_, ?_, ?_, ?_, ?_⟩
    · simpa [hlen] using hbound
    · simpa [hlen] using hnonce
    · rw [map_cons, length_cons, hnonces, add_comm rest.sealed.length, noncesFrom_add]
      rfl
    · rw [← take_append_drop maxPlaintextSize bs]
      exact (prefix_append_right_inj _).2 hplain
    · intro herr
      obtain ⟨heq, htx⟩ := hcomplete herr
      refine ⟨?_, htx⟩
      rw [flatMap_cons, heq]
      exact take_append_drop maxPlaintextSize bs

/-- What the writer has done in a run. -/
structure WriterInv (tr : List (Event E)) (tx : TxState E) : Prop where
  bound : (records tr).length < 2 ^ 64
  nonce : tx.nonce = ofNat (records tr).length
  nonces : (records tr).map (·.nonce) = noncesFrom 0 (records tr).length
  plaintext : (records tr).flatMap (·.plaintext) <+: given tr
  complete : tx.cipher = true → tx.err = none → (records tr).flatMap (·.plaintext) = given tr

variable (tr ev)

theorem given_append : given (tr ++ [ev]) = given tr ++ ev.given := by simp [given]

theorem records_append : records (tr ++ [ev]) = records tr ++ ev.records := by simp [records]

theorem returned_append : returned (tr ++ [ev]) = returned tr ++ ev.returned := by simp [returned]

theorem opened_append : opened (tr ++ [ev]) = opened tr ++ ev.opened := by simp [opened]

variable {tr ev}

theorem WriterInv.quiet (h : WriterInv tr tx) (hrecords : ev.records = [])
    (hnonce : tx'.nonce = tx.nonce)
    (hcomplete : tx'.cipher = true → tx'.err = none → ev.given = [] ∧ tx.cipher = true ∧
      tx.err = none) :
    WriterInv (tr ++ [ev]) tx' := by
  have hr : records (tr ++ [ev]) = records tr := by rw [records_append, hrecords, append_nil]
  refine ⟨hr ▸ h.bound, ?_, hr ▸ h.nonces, ?_, ?_⟩
  · rw [hnonce, hr, h.nonce]
  · rw [hr, given_append]
    exact h.plaintext.trans (prefix_append _ _)
  · intro hc he
    obtain ⟨hg, hc', he'⟩ := hcomplete hc he
    rw [hr, given_append, hg, append_nil, h.complete hc' he']

/-- What `Write` can come to. -/
inductive WriteStep (A : AEAD) (conn : Nat → Option E) (bs : Bytes) (tx : TxState E) :
    Option (WriteError E) → TxState E → List SealedRecord → List Bytes → Prop
  | failed {err : WriteError E} (err_eq : tx.err = some err) :
      WriteStep A conn bs tx (some err) tx [] []
  | closed (err : tx.err = none) (cipher : tx.cipher = false) :
      WriteStep A conn bs tx (some .closed) { tx with err := some .closed } [] []
  | loop (err : tx.err = none) (cipher : tx.cipher = true) (w : Written E)
      (eq : w = writeLoop A conn 0 tx.nonce bs) :
      WriteStep A conn bs tx w.err
        { cipher := w.err.isNone, nonce := w.nonce, err := w.txErr <|> w.err } w.sealed w.wire

variable {conn : Nat → Option E} {bs : Bytes} {err : Option (WriteError E)}
  {sealed : List SealedRecord} {wire : List Bytes}

theorem writeStep_of_eq (h : write A conn bs tx = ((n, err), tx', sealed, wire)) :
    WriteStep A conn bs tx err tx' sealed wire := by
  unfold write at h
  split at h
  next err herr =>
    cases h
    exact .failed herr
  next herr =>
    split at h
    next hc =>
      cases h
      exact .closed herr hc
    next hc =>
      cases h
      exact .loop herr (by simpa using hc) _ rfl

theorem WriterInv.write (h : WriterInv tr tx) (hw : WriteStep A conn bs tx err tx' sealed wire) :
    WriterInv (tr ++ [.write bs n err sealed wire]) tx' := by
  cases hw with
  | failed herr =>
    refine h.quiet rfl rfl fun _ he => ?_
    cases herr.symm.trans he
  | closed herr hc => exact h.quiet rfl rfl fun hc' => by simp [hc] at hc'
  | loop herr hc w hw =>
    subst hw
    rw [h.nonce]
    obtain ⟨hbound, hnonce, hnonces, hplain, hcomplete⟩ :=
      writesFrom_writeLoop (A := A) conn 0 bs h.bound
    generalize writeLoop A conn 0 (ofNat (records tr).length) bs = w at *
    have hr : records (tr ++ [.write bs n w.err w.sealed w.wire]) = records tr ++ w.sealed :=
      records_append _ _
    refine ⟨?_, ?_, ?_, ?_, ?_⟩
    · rwa [hr, length_append]
    · rw [hr, length_append]
      exact hnonce
    · rw [hr, map_append, h.nonces, hnonces, length_append, noncesFrom_add, zero_add]
    · rw [hr, flatMap_append, given_append, h.complete hc herr]
      exact (prefix_append_right_inj _).2 hplain
    · intro hc' _
      rw [hr, flatMap_append, given_append, h.complete hc herr]
      rw [(hcomplete (isNone_iff_eq_none.1 hc')).1]
      rfl

/-! ## The reader -/

def RxState.Buffered (rx : RxState) : Prop := rx.buf = none → rx.n = 0

/-- What reading from the transport leaves alone. -/
structure Frame (rx rx' : RxState) : Prop where
  cipher : rx'.cipher = rx.cipher
  nonce : rx'.nonce = rx.nonce
  plaintextLen : rx'.plaintextLen = rx.plaintextLen
  buffered : rx.Buffered → rx'.Buffered

theorem Frame.refl (rx : RxState) : Frame rx rx := ⟨rfl, rfl, rfl, id⟩

theorem Frame.trans {rx'' : RxState} (h : Frame rx rx') (h' : Frame rx' rx'') : Frame rx rx'' :=
  ⟨h'.cipher.trans h.cipher, h'.nonce.trans h.nonce, h'.plaintextLen.trans h.plaintextLen,
    h'.buffered ∘ h.buffered⟩

theorem plaintext_eq_nil (h : rx.plaintextLen = 0) : rx.plaintext = [] := by
  unfold plaintext slice
  rw [h]
  split <;> rfl

theorem frame_receive (r : NetRead E) (rx : RxState) : Frame rx (receive r rx) := by
  unfold receive
  split
  · dsimp only
    split
    · exact .refl rx
    · exact ⟨rfl, rfl, rfl, fun _ => nofun⟩
  · exact ⟨rfl, rfl, rfl, fun _ => nofun⟩

variable {r : Result E Unit}

theorem frame_readLoop {total : Nat} (h : readLoop total net rx = some r) :
    Frame rx r.rx ∧ (r.value = .ok () → total ≤ r.rx.n) := by
  induction net generalizing rx with
  | nil =>
    rw [readLoop] at h
    split at h
    next hle =>
      cases h
      exact ⟨.refl rx, fun _ => hle⟩
    · cases h
  | cons c net ih =>
    rw [readLoop] at h
    split at h
    next hle =>
      cases h
      exact ⟨.refl rx, fun _ => hle⟩
    · split at h
      · cases h
        exact ⟨.refl rx, nofun⟩
      · split at h
        · cases h
          exact ⟨frame_receive c rx, nofun⟩
        · obtain ⟨hf, hle⟩ := ih h
          exact ⟨(frame_receive c rx).trans hf, hle⟩

theorem frame_readN {total : Nat} (h : readN total net rx = some r) :
    Frame rx r.rx ∧ (r.value = .ok () → total ≤ r.rx.n) := by
  unfold readN at h
  split at h
  · cases h
    exact ⟨.refl rx, nofun⟩
  · exact frame_readLoop h

theorem frame_compact (rx : RxState) : Frame rx (compact rx) := by
  have hrelease : ∀ {rx'}, Frame rx rx' →
      Frame rx (if rx'.n = 0 ∧ rx'.next = 0 then { rx' with buf := none } else rx') := by
    intro rx' hf
    split
    next h0 => exact hf.trans ⟨rfl, rfl, rfl, fun _ _ => h0.1⟩
    · exact hf
  refine hrelease ?_
  split
  · refine ⟨rfl, rfl, rfl, fun hb h => ?_⟩
    have : rx.n = 0 := hb (by simpa using h)
    simp [this]
  · exact .refl rx

/-- What `decryptOneLocked` can come to, from an empty plaintext. -/
inductive DecryptStep (A : AEAD) (rx : RxState) : Result E Unit → Prop
  | opened {rx' net o} (valid : rx.nonce.valid = true)
      (nonce : o.nonce = rx.nonce) (eq : A.openRecord o.nonce o.ciphertext = some o.plaintext)
      (buffered : rx'.Buffered) (nonce' : rx'.nonce = rx.nonce.increment)
      (cipher : rx'.cipher = rx.cipher) (plaintext : rx'.plaintext = o.plaintext) :
      DecryptStep A rx ⟨.ok (), rx', net, [o]⟩
  | failed {rx' net e} (buffered : rx'.Buffered)
      (nonce : rx'.cipher = true → rx'.nonce = rx.nonce) (plaintext : rx'.plaintext = []) :
      DecryptStep A rx ⟨.error e, rx', net, []⟩

theorem decryptStep_decrypt (off len : Nat) (net : List (NetRead E)) (hf : Frame rx rx')
    (hbuf : rx'.buf ≠ none) (hlen : rx.plaintextLen = 0) :
    DecryptStep A rx (decrypt A off len net rx') := by
  have hb : rx'.Buffered := fun h => absurd h hbuf
  have hempty : rx'.plaintext = [] := plaintext_eq_nil (hf.plaintextLen.trans hlen)
  obtain ⟨buf, hbuf⟩ := ne_none_iff_exists'.1 hbuf
  unfold decrypt
  dsimp only
  split
  · exact .failed hb (fun _ => hf.nonce) hempty
  split
  · exact .failed hb (fun _ => hf.nonce) hempty
  next hvalid =>
    split
    · exact .failed hb nofun (plaintext_eq_nil rfl)
    next plaintext hopen =>
      refine .opened ?_ hf.nonce hopen ?_ ?_ hf.cipher ?_
      · rw [← hf.nonce]
        simpa using hvalid
      · exact fun h => by simp [hbuf] at h
      · rw [hf.nonce]
      · simp [RxState.plaintext, RxState.slice, hbuf]

theorem buf_ne_none (hb : rx.Buffered) (h : n + 1 ≤ rx.n) : rx.buf ≠ none := by
  intro hnone
  have := hb hnone
  omega

/-- **`decryptOneLocked` opens one record under the current nonce, or fails.** -/
theorem decryptStep_of_eq (h : decryptOne A net rx = some r) (hb : rx.Buffered) :
    DecryptStep A rx.clear r := by
  have hclear : rx.clear.Buffered := hb
  have hlen : rx.clear.plaintextLen = 0 := rfl
  unfold decryptOne at h
  dsimp only at h
  generalize rx.clear = rx at h hclear hlen
  split at h
  next len hwhole =>
    cases h
    refine decryptStep_decrypt _ _ _ ⟨rfl, rfl, rfl, id⟩ (buf_ne_none (n := 2) hclear ?_) hlen
    unfold wholeMessage at hwhole
    dsimp only at hwhole
    split at hwhole
    · cases hwhole
    next hav =>
      rw [headerLen] at hav
      change 3 ≤ rx.n
      omega
  · have hcompact := frame_compact rx
    split at h
    · cases h
    next e rx₁ net₁ _ h₁ =>
      cases h
      have hf := hcompact.trans (frame_readN h₁).1
      exact .failed (hf.buffered hclear) (fun _ => hf.nonce)
        (plaintext_eq_nil (hf.plaintextLen.trans hlen))
    next rx₁ net₁ _ h₁ =>
      have hf₁ := hcompact.trans (frame_readN h₁).1
      split at h
      · cases h
      next e rx₂ net₂ _ h₂ =>
        cases h
        have hf := hf₁.trans (frame_readN h₂).1
        exact .failed (hf.buffered hclear) (fun _ => hf.nonce)
          (plaintext_eq_nil (hf.plaintextLen.trans hlen))
      next rx₂ net₂ _ h₂ =>
        cases h
        have hf := hf₁.trans (frame_readN h₂).1
        have hn : rx₁.messageLen 0 ≤ rx₂.n := (frame_readN h₂).2 rfl
        refine decryptStep_decrypt _ _ _ (hf.trans ⟨rfl, rfl, rfl, id⟩)
          (buf_ne_none (n := 2) (hf.buffered hclear) ?_) hlen
        simp only [messageLen, headerLen] at hn
        change 3 ≤ rx₂.n
        omega

/-- What `Read` does from the `k`-th nonce on: the records it opens follow each other, and the
plaintext it holds, after what it has taken out of it, is what it has opened. -/
structure ReadsFrom (A : AEAD) (k : Nat) (rx rx' : RxState) (out : Bytes) (os : List Opened) :
    Prop where
  bound : k + os.length < 2 ^ 64
  nonce : rx'.cipher = true → rx'.nonce = ofNat (k + os.length)
  nonces : os.map (·.nonce) = noncesFrom k os.length
  opens : ∀ o ∈ os, A.openRecord o.nonce o.ciphertext = some o.plaintext
  buffered : rx'.Buffered
  plaintext : out ++ rx'.plaintext = rx.plaintext ++ os.flatMap (·.plaintext)

variable {rounds : Nat}

theorem readsFrom_fill (h : fill A rounds net rx = some r) (hk : k < 2 ^ 64) (hc : rx.cipher = true)
    (hn : rx.nonce = ofNat k) (hb : rx.Buffered) : ReadsFrom A k rx r.rx [] r.opened := by
  induction rounds generalizing net rx k r with
  | zero => cases h
  | succ rounds ih =>
    rw [fill] at h
    split at h
    · cases h
      exact ⟨hk, fun _ => hn, rfl, by simp, hb, by simp⟩
    next hempty =>
      rw [not_not] at hempty
      have hnil := plaintext_eq_nil hempty
      split at h
      · cases h
      next e rx₁ net₁ os h₁ =>
        cases h
        have hd := decryptStep_of_eq h₁ hb
        cases hd with
        | failed hb₁ hn₁ hp₁ =>
          refine ⟨hk, fun hc₁ => (hn₁ hc₁).trans hn, rfl, by simp, hb₁, ?_⟩
          simp [hp₁, hnil]
      next rx₁ net₁ os h₁ =>
        have hd := decryptStep_of_eq h₁ hb
        cases hd with
        | @opened _ _ o hvalid hno ho hb₁ hn₁ hc₁ hp₁ =>
          obtain ⟨r', hr', rfl⟩ := map_eq_some_iff.1 h
          have hnk : rx.clear.nonce = ofNat k := hn
          rw [hnk] at hvalid hn₁ hno
          rw [increment_ofNat] at hn₁
          have hI := ih hr' (succ_lt_of_valid hk hvalid) (hc₁.trans hc) hn₁ hb₁
          have hlen : k + ([o] ++ r'.opened).length = k + 1 + r'.opened.length := by
            rw [length_append, length_singleton, add_assoc]
          refine ⟨hlen ▸ hI.bound, fun hc' => hlen ▸ hI.nonce hc', ?_, ?_, hI.buffered, ?_⟩
          · simp only [map_append, length_append, hI.nonces, noncesFrom_add,
              map_singleton, hno]
            rfl
          · simpa using ⟨ho, hI.opens⟩
          · have := hI.plaintext
            simp only [hp₁] at this
            simpa [hnil] using this

theorem consume_frame (rx : RxState) (n : Nat) :
    (rx.consume n).cipher = rx.cipher ∧ (rx.consume n).nonce = rx.nonce ∧
      (rx.Buffered → (rx.consume n).Buffered) := by
  unfold consume
  dsimp only
  split <;> exact ⟨rfl, rfl, id⟩

/-- What is taken out of the plaintext and what is left of it. -/
theorem slice_append_consume (h : n ≤ rx.plaintextLen) :
    rx.slice rx.plaintextOff n ++ (rx.consume n).plaintext = rx.plaintext := by
  have hrest : (rx.consume n).plaintext = rx.slice (rx.plaintextOff + n) (rx.plaintextLen - n) := by
    unfold consume
    dsimp only
    split
    next h0 =>
      rw [h0, plaintext_eq_nil rfl]
      unfold slice
      split <;> rfl
    · rfl
  rw [hrest]
  unfold plaintext slice
  split
  · rfl
  next buf hbuf => rw [← Buffer.slice_add, Nat.add_sub_cancel' h]

/-- **`Read` goes on from the `k`-th nonce.** -/
theorem readsFrom_read {size : Nat} {r : Result E Bytes} (h : read A rounds size net rx = some r)
    (hk : k < 2 ^ 64) (hn : rx.cipher = true → rx.nonce = ofNat k) (hb : rx.Buffered) :
    ReadsFrom A k rx r.rx (match r.value with | .ok bs => bs | .error _ => []) r.opened := by
  unfold read at h
  split at h
  next hc =>
    cases h
    exact ⟨hk, fun hc' => by simp [hc] at hc', rfl, by simp, hb, by simp⟩
  next hc =>
    rw [Bool.not_eq_false] at hc
    split at h
    · cases h
    next e rx₁ net₁ os h₁ =>
      cases h
      exact readsFrom_fill h₁ hk hc (hn hc) hb
    next rx₁ net₁ os h₁ =>
      cases h
      have hI := readsFrom_fill h₁ hk hc (hn hc) hb
      obtain ⟨hcipher, hnonce, hbuf⟩ := consume_frame rx₁ (min size rx₁.plaintextLen)
      refine ⟨hI.bound, fun hc' => ?_, hI.nonces, hI.opens, ?_, ?_⟩
      · exact hnonce.trans (hI.nonce (hcipher ▸ hc'))
      · exact hbuf hI.buffered
      · exact (slice_append_consume (min_le_right _ _)).trans hI.plaintext

/-- What the reader has done in a run. -/
structure ReaderInv (A : AEAD) (tr : List (Event E)) (rx : RxState) : Prop where
  bound : (opened tr).length < 2 ^ 64
  nonce : rx.cipher = true → rx.nonce = ofNat (opened tr).length
  nonces : (opened tr).map (·.nonce) = noncesFrom 0 (opened tr).length
  opens : ∀ o ∈ opened tr, A.openRecord o.nonce o.ciphertext = some o.plaintext
  buffered : rx.Buffered
  plaintext : returned tr ++ rx.plaintext = (opened tr).flatMap (·.plaintext)

theorem ReaderInv.quiet (h : ReaderInv A tr rx) (hopened : ev.opened = [])
    (hreturned : ev.returned = [])
    (hcipher : rx'.cipher = true → rx.cipher = true) (hnonce : rx'.nonce = rx.nonce)
    (hbuffered : rx'.Buffered) (hplaintext : rx'.plaintext = rx.plaintext) :
    ReaderInv A (tr ++ [ev]) rx' := by
  have ho : opened (tr ++ [ev]) = opened tr := by rw [opened_append, hopened, append_nil]
  refine ⟨ho ▸ h.bound, fun hc => ?_, ho ▸ h.nonces, ho ▸ h.opens, hbuffered, ?_⟩
  · rw [ho, hnonce, h.nonce (hcipher hc)]
  · rw [ho, returned_append, hreturned, append_nil, hplaintext, h.plaintext]

theorem ReaderInv.read (h : ReaderInv A tr rx) {size : Nat} {r : Result E Bytes}
    (hr : read A rounds size net rx = some r) :
    ReaderInv A (tr ++ [.read r.value r.opened]) r.rx := by
  have hI := readsFrom_read hr h.bound h.nonce h.buffered
  have ho : opened (tr ++ [.read r.value r.opened]) = opened tr ++ r.opened := opened_append _ _
  refine ⟨?_, fun hc => ?_, ?_, ?_, hI.buffered, ?_⟩
  · rw [ho, length_append]
    exact hI.bound
  · rw [ho, length_append]
    exact hI.nonce hc
  · rw [ho, map_append, h.nonces, hI.nonces, length_append, noncesFrom_add, zero_add]
  · rw [ho, forall_mem_append]
    exact ⟨h.opens, hI.opens⟩
  · have hplain := hI.plaintext
    rw [ho, returned_append, flatMap_append, ← h.plaintext, append_assoc, append_assoc,
      ← hplain]
    congr 2
    cases r.value <;> rfl

/-! ## Whole runs -/

/-- Once a `Write` has failed, there is an error that all others return. -/
structure FailedInv (tr : List (Event E)) (tx : TxState E) : Prop where
  err : (∃ ev ∈ tr, ev.FailedWrite) → tx.err ≠ none
  silent : tr.Pairwise fun ev ev' => ev.FailedWrite → ev'.wire = []

theorem FailedInv.snoc (h : FailedInv tr tx) (hwire : tx.err ≠ none → ev.wire = [] ∧ tx'.err ≠ none)
    (hfailed : ev.FailedWrite → tx'.err ≠ none) : FailedInv (tr ++ [ev]) tx' where
  err := by
    rintro ⟨ev', hmem, hf⟩
    rcases mem_append.1 hmem with hmem | hmem
    · exact (hwire (h.err ⟨ev', hmem, hf⟩)).2
    · obtain rfl := mem_singleton.1 hmem
      exact hfailed hf
  silent := by
    rw [pairwise_append]
    refine ⟨h.silent, pairwise_singleton _ _, fun ev₁ h₁ ev₂ h₂ hf => ?_⟩
    obtain rfl := mem_singleton.1 h₂
    exact (hwire (h.err ⟨ev₁, h₁, hf⟩)).1

theorem FailedInv.write (h : FailedInv tr tx) (hw : WriteStep A conn bs tx err tx' sealed wire) :
    FailedInv (tr ++ [.write bs n err sealed wire]) tx' := by
  cases hw with
  | failed herr => exact h.snoc (fun hne => ⟨rfl, hne⟩) fun _ => by simp [herr]
  | closed herr hc => exact h.snoc (fun hne => absurd herr hne) fun _ => by simp
  | loop herr hc w hw =>
    refine h.snoc (fun hne => absurd herr hne) fun hf => ?_
    cases he : w.err with
    | none =>
      rw [he] at hf
      exact hf.elim
    | some e => cases htx : w.txErr <;> simp

/-- What holds in every run. -/
structure Inv (A : AEAD) (tr : List (Event E)) (s : Sys E) : Prop where
  writer : WriterInv tr s.tx
  reader : ReaderInv A tr s.rx
  failed : FailedInv tr s.tx

theorem Inv.init (A : AEAD) : Inv A ([] : List (Event E)) {} where
  writer := ⟨by simp [records], rfl, rfl, nil_prefix, fun _ _ => rfl⟩
  reader := ⟨by simp [opened], fun _ => rfl, rfl, by simp [opened], fun _ => rfl, rfl⟩
  failed := ⟨by simp, .nil⟩

/-- **Every step keeps the invariant.** -/
theorem Inv.step (h : Inv A tr s) (hstep : Step A s ev t) : Inv A (tr ++ [ev]) t := by
  cases hstep with
  | write conn bs heq =>
    have hw := writeStep_of_eq heq
    exact ⟨h.writer.write hw, h.reader.quiet rfl rfl id rfl h.reader.buffered rfl,
      h.failed.write hw⟩
  | read rounds size net heq =>
    refine ⟨h.writer.quiet rfl rfl fun hc he => ⟨rfl, hc, he⟩, h.reader.read heq, ?_⟩
    exact h.failed.snoc (fun hne => ⟨rfl, hne⟩) fun hf => hf.elim
  | closeWriter =>
    refine ⟨h.writer.quiet rfl rfl nofun, ?_, ?_⟩
    · exact h.reader.quiet rfl rfl id rfl h.reader.buffered rfl
    · exact h.failed.snoc (fun hne => ⟨rfl, hne⟩) fun hf => hf.elim
  | closeReader =>
    refine ⟨h.writer.quiet rfl rfl fun hc he => ⟨rfl, hc, he⟩, ?_, ?_⟩
    · exact h.reader.quiet rfl rfl nofun rfl h.reader.buffered rfl
    · exact h.failed.snoc (fun hne => ⟨rfl, hne⟩) fun hf => hf.elim

theorem inv_of_run (h : Run (Step A) ({} : Sys E) tr s) : Inv A tr s :=
  h.invariant (.init A) fun _ _ _ _ hI hstep => hI.step hstep

section

variable (h : Inv A tr s)
  (hcorrect : ∀ nonce plaintext, A.openRecord nonce (A.sealRecord nonce plaintext) = some plaintext)
  (hauthentic : Authentic A tr)

include h hcorrect hauthentic

/-- A record that opens under a nonce is the one that was sealed under it. -/
theorem plaintext_eq_of_authentic {i : Nat} {o : Opened} (ho : (opened tr)[i]? = some o) :
    ∃ r, (records tr)[i]? = some r ∧ r.plaintext = o.plaintext := by
  have hlt : i < (opened tr).length := (List.getElem?_eq_some_iff.1 ho).1
  have hnonce : o.nonce = ofNat i := by
    have := congrArg (·[i]?) h.reader.nonces
    simpa [ho, getElem?_noncesFrom_zero hlt] using this
  obtain ⟨p, hmem, hc⟩ := hauthentic o (mem_of_getElem? ho)
  obtain ⟨j, hj⟩ := mem_iff_getElem?.1 hmem
  have hjlt : j < (records tr).length := (List.getElem?_eq_some_iff.1 hj).1
  have hnonce' : o.nonce = ofNat j := by
    have := congrArg (·[j]?) h.writer.nonces
    simpa [hj, getElem?_noncesFrom_zero hjlt] using this
  obtain rfl : i = j := by
    refine (ofNat_inj (hlt.trans h.reader.bound) (hjlt.trans h.writer.bound)).1 ?_
    rw [← hnonce, hnonce']
  refine ⟨_, hj, ?_⟩
  have := h.reader.opens o (mem_of_getElem? ho)
  rw [hc, hcorrect] at this
  exact some.inj this

/-- The plaintexts of the opened records are those of the first sealed ones. -/
theorem opened_prefix : (opened tr).map (·.plaintext) <+: (records tr).map (·.plaintext) := by
  rw [prefix_iff_getElem?]
  intro i hi
  rw [length_map] at hi
  obtain ⟨r, hr, hp⟩ :=
    plaintext_eq_of_authentic h hcorrect hauthentic (List.getElem?_eq_getElem hi)
  rw [List.getElem?_map, hr, map_some, hp, getElem_map]

end

/-- **The stream.**  Whatever the transport does, what was read is a prefix of what was
written, no nonce is used twice to seal, and after a `Write` that fails nothing is given to
the transport. -/
theorem run_stream_safe
    (hcorrect : ∀ nonce plaintext,
      A.openRecord nonce (A.sealRecord nonce plaintext) = some plaintext)
    (h : Run (Step A) ({} : Sys E) tr s) (hauthentic : Authentic A tr) :
    returned tr <+: given tr ∧ ((records tr).map (·.nonce)).Nodup ∧
      tr.Pairwise fun ev ev' => ev.FailedWrite → ev'.wire = [] := by
  have hI := inv_of_run h
  refine ⟨?_, ?_, hI.failed.silent⟩
  · have hread : returned tr <+: (opened tr).flatMap (·.plaintext) := ⟨_, hI.reader.plaintext⟩
    have hopen := opened_prefix hI hcorrect hauthentic
    refine hread.trans (List.IsPrefix.trans ?_ hI.writer.plaintext)
    obtain ⟨rest, hrest⟩ := hopen
    rw [flatMap_def, flatMap_def, ← hrest, flatten_append]
    exact prefix_append _ _
  · rw [hI.writer.nonces]
    exact nodup_noncesFrom_zero hI.writer.bound

/-- A cipher that only adds the overhead. -/
def paddingAEAD : AEAD where
  sealRecord _ plaintext := plaintext ++ List.replicate overhead 0
  openRecord _ ciphertext := some (ciphertext.take (ciphertext.length - overhead))

def hello : Bytes := [0x68, 0x69]

def helloFrame : Bytes := [4, 0, 18] ++ paddingAEAD.sealRecord {} hello

/-- A record that arrives in two parts, with an error in between, is read after it was written. -/
theorem run_stream_safe_hello :
    ∃ (tr : List (Event Unit)) (s : Sys Unit), Run (Step paddingAEAD) {} tr s ∧
      Authentic paddingAEAD tr ∧ returned tr = hello ∧ returned tr <+: given tr := by
  have hcorrect (nonce : Nonce) (plaintext : Bytes) : paddingAEAD.openRecord nonce
      (paddingAEAD.sealRecord nonce plaintext) = some plaintext := by
    simp [paddingAEAD]
  have hw : write paddingAEAD (fun _ => none) hello ({} : TxState Unit) =
      ((2, none), { nonce := ofNat 1 }, [⟨{}, hello⟩], [helloFrame]) := by
    have hloop : writeLoop paddingAEAD (fun _ => (none : Option Unit)) 1 (ofNat 1) [] =
        { nonce := ofNat 1 } := by
      rw [writeLoop, dif_pos rfl]
    unfold write
    rw [writeLoop]
    exact hloop ▸ rfl
  have h₁ : Run (Step paddingAEAD) ({} : Sys Unit)
      [.write hello 2 none [⟨{}, hello⟩] [helloFrame]] _ :=
    Run.nil.snoc (.write (fun _ => none) hello hw)
  have h₂ := h₁.snoc (.read 1 10 [⟨helloFrame.take 2, some (), fun _ => 0⟩] rfl)
  have hr : (read paddingAEAD 2 10 [⟨helloFrame.drop 2, (none : Option Unit), fun _ => 0⟩]
      (receive ⟨helloFrame.take 2, some (), fun _ => 0⟩ {})).map (fun r => (r.value, r.opened)) =
      some (.ok hello, [⟨{}, helloFrame.drop 3, hello⟩]) := by
    decide +kernel
  obtain ⟨⟨value, rx, net, os⟩, hr, heq⟩ := map_eq_some_iff.1 hr
  cases heq
  have h₃ := h₂.snoc (.read 2 10 [⟨helloFrame.drop 2, none, fun _ => 0⟩] hr)
  obtain ⟨tr, s, h, ha, hreturned⟩ : ∃ (tr : List (Event Unit)) (s : Sys Unit),
      Run (Step paddingAEAD) {} tr s ∧ Authentic paddingAEAD tr ∧ returned tr = hello := by
    refine ⟨_, _, h₃, fun o ho => ?_, rfl⟩
    obtain rfl := mem_singleton.1 ho
    exact ⟨hello, .head _, rfl⟩
  exact ⟨tr, s, h, ha, hreturned, (run_stream_safe hcorrect h ha).1⟩

end Multiport.Controlbase

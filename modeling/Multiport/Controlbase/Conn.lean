import Multiport.Lib.Buffer
import Multiport.Lib.Bytes
import Multiport.Lib.Runs

/-!
# The control connection

`controlbase.Conn`: a stream of bytes in sealed records.  One direction of a connection is
modelled, `Write` of one `Conn` and `Read` of its peer.  What lies between them is arbitrary:
a call to `conn.Write` may fail, and a call to `conn.Read` returns any bytes and possibly an
error.  A `Read` that needs more from its transport than it is given has not returned,
and is no step.

The AEAD is a parameter.  Both parties start with the nonce zero, and every call holds the
mutex of its half of the connection, so calls do not interleave.
-/

namespace Multiport.Controlbase

open Lib

def maxMessageSize : Nat := 4096

def headerLen : Nat := 3

/-- `chp.Overhead`. -/
def overhead : Nat := 16

def maxCiphertextSize : Nat := maxMessageSize - 3

def maxPlaintextSize : Nat := maxCiphertextSize - overhead

def msgTypeRecord : Byte := 4

/-- `nonce`: four bytes and a counter. -/
structure Nonce where
  head : BitVec 32 := 0
  counter : BitVec 64 := 0
  deriving DecidableEq, Repr

def invalidNonce : BitVec 64 := BitVec.allOnes 64

namespace Nonce

def valid (n : Nonce) : Bool := n.head == 0 && n.counter != invalidNonce

/-- `Increment` of a valid nonce; its callers have checked that it is valid. -/
def increment (n : Nonce) : Nonce := { n with counter := 1 + n.counter }

end Nonce

/-- `cipher.AEAD`, with its key. -/
structure AEAD where
  sealRecord : Nonce → Bytes → Bytes
  openRecord : Nonce → Bytes → Option Bytes

/-! ## Writing -/

/-- What `Write` fails with; `E` are the errors of the transport. -/
inductive WriteError (E : Type)
  | closed
  | cipherExhausted
  | net (e : E)
  | partialWrite (e : E)
  deriving DecidableEq, Repr

/-- `txState`; a cipher that is nil is `false`. -/
structure TxState (E : Type) where
  cipher : Bool := true
  nonce : Nonce := {}
  err : Option (WriteError E) := none

/-- A call to `Seal`. -/
structure SealedRecord where
  nonce : Nonce
  plaintext : Bytes
  deriving DecidableEq, Repr

variable {E : Type} (A : AEAD)

/-- `encryptLocked`, but for the increment of the nonce. -/
def encrypt (nonce : Nonce) (plaintext : Bytes) : Except (WriteError E) Bytes :=
  if nonce.valid = false then .error .cipherExhausted
  else
    .ok (msgTypeRecord :: putBE 2 (BitVec.ofNat 16 (plaintext.length + overhead)) ++
      A.sealRecord nonce plaintext)

/-- What the loop of `Write` comes to. -/
structure Written (E : Type) where
  sent : Nat := 0
  err : Option (WriteError E) := none
  /-- What `c.tx.err` was set to. -/
  txErr : Option (WriteError E) := none
  nonce : Nonce
  sealed : List SealedRecord := []
  /-- What was given to `conn.Write`. -/
  wire : List Bytes := []

/-- The loop of `Write`; `conn i` is the error of the `i`-th call to `conn.Write`. -/
def writeLoop (conn : Nat → Option E) (i : Nat) (nonce : Nonce) (bs : Bytes) : Written E :=
  if _h : bs = [] then { nonce }
  else
    let toSend := bs.take maxPlaintextSize
    match encrypt A nonce toSend with
    | .error e => { err := some e, nonce }
    | .ok ciphertext =>
      match conn i with
      | some e =>
        { err := some (.net e), txErr := some (.partialWrite e), nonce := nonce.increment
          sealed := [⟨nonce, toSend⟩], wire := [ciphertext] }
      | none =>
        let rest := writeLoop conn (i + 1) nonce.increment (bs.drop maxPlaintextSize)
        { rest with
          sent := toSend.length + rest.sent
          sealed := ⟨nonce, toSend⟩ :: rest.sealed
          wire := ciphertext :: rest.wire }
termination_by bs.length
decreasing_by
  have hpos : 0 < bs.length := List.length_pos_iff.2 _h
  simp only [List.length_drop, maxPlaintextSize, maxCiphertextSize, maxMessageSize, overhead]
  omega

/-- `Write`: what it returns, its state, the records it has sealed and what it has given to
the transport. -/
def write (conn : Nat → Option E) (bs : Bytes) (tx : TxState E) :
    (Nat × Option (WriteError E)) × TxState E × List SealedRecord × List Bytes :=
  match tx.err with
  | some err => ((0, some err), tx, [], [])
  | none =>
    if tx.cipher = false then ((0, some .closed), { tx with err := some .closed }, [], [])
    else
      let w := writeLoop A conn 0 tx.nonce bs
      ((w.sent, w.err),
        { cipher := w.err.isNone, nonce := w.nonce, err := w.txErr <|> w.err }, w.sealed, w.wire)

/-! ## Reading -/

/-- What `Read` fails with. -/
inductive ReadError (E : Type)
  | closed
  | readTooBig (requested : Nat)
  | net (e : E)
  | unexpectedType (msgType : Byte)
  | cipherExhausted
  | authentication
  /-- The code panics. -/
  | unexpected
  deriving DecidableEq, Repr

/-- `rxState`.  The plaintext is the slice of the buffer from `plaintextOff` on, of length
`plaintextLen`. -/
structure RxState where
  cipher : Bool := true
  nonce : Nonce := {}
  buf : Option (Buffer Byte) := none
  n : Nat := 0
  next : Nat := 0
  plaintextOff : Nat := 0
  plaintextLen : Nat := 0

/-- `c.rx.buf[off:off+len]`. -/
def RxState.slice (rx : RxState) (off len : Nat) : Bytes :=
  match rx.buf with
  | none => []
  | some buf => buf.slice off len

/-- `c.rx.plaintext`. -/
def RxState.plaintext (rx : RxState) : Bytes := rx.slice rx.plaintextOff rx.plaintextLen

/-- `c.rx.plaintext = nil`. -/
def RxState.clear (rx : RxState) : RxState := { rx with plaintextOff := 0, plaintextLen := 0 }

/-- `c.rx.plaintext = c.rx.plaintext[n:]`, or nil when nothing is left. -/
def RxState.consume (rx : RxState) (n : Nat) : RxState :=
  let rx := { rx with plaintextOff := rx.plaintextOff + n, plaintextLen := rx.plaintextLen - n }
  if rx.plaintextLen = 0 then rx.clear else rx

/-- A call to `conn.Read`, with the buffer the pool gives if the call needs one. -/
structure NetRead (E : Type) where
  bytes : Bytes
  err : Option E := none
  pool : Buffer Byte := fun _ => 0

/-- A call to `Open` that succeeds. -/
structure Opened where
  nonce : Nonce
  ciphertext : Bytes
  plaintext : Bytes
  deriving DecidableEq, Repr

/-- What a part of `Read` comes to. -/
structure Result (E α : Type) where
  value : Except (ReadError E) α
  rx : RxState
  /-- The calls to `conn.Read` that are left. -/
  net : List (NetRead E)
  opened : List Opened := []

/-- The bytes of a call to `conn.Read`, where they go: to a buffer from the pool by way of
`hdrBuf`, or to the end of the buffer. -/
def receive (r : NetRead E) (rx : RxState) : RxState :=
  match rx.buf with
  | none =>
    let bytes := r.bytes.take headerLen
    if bytes = [] then rx
    else { rx with buf := some (r.pool.blit 0 bytes), n := rx.n + bytes.length }
  | some buf =>
    let bytes := r.bytes.take (maxMessageSize - rx.n)
    { rx with buf := some (buf.blit rx.n bytes), n := rx.n + bytes.length }

/-- The loop of `readNLocked`. -/
def readLoop (total : Nat) : List (NetRead E) → RxState → Option (Result E Unit)
  | net, rx =>
    if total ≤ rx.n then some ⟨.ok (), rx, net, []⟩
    else
      match net with
      | [] => none
      | r :: net =>
        if rx.buf.isNone ∧ (rx.n ≠ 0 ∨ total ≠ headerLen) then
          some ⟨.error .unexpected, rx, r :: net, []⟩
        else
          match r.err with
          | some e => some ⟨.error (.net e), receive r rx, net, []⟩
          | none => readLoop total net (receive r rx)

/-- `readNLocked`. -/
def readN (total : Nat) (net : List (NetRead E)) (rx : RxState) : Option (Result E Unit) :=
  if maxMessageSize < total then some ⟨.error (.readTooBig total), rx, net, []⟩
  else readLoop total net rx

/-- `decryptLocked` of the message at `off`, of length `len`; it is decrypted in place. -/
def decrypt (off len : Nat) (net : List (NetRead E)) (rx : RxState) : Result E Unit :=
  let msgType := (rx.slice off 1).headD 0
  if msgType ≠ msgTypeRecord then ⟨.error (.unexpectedType msgType), rx, net, []⟩
  else if rx.nonce.valid = false then ⟨.error .cipherExhausted, rx, net, []⟩
  else
    let ciphertext := rx.slice (off + headerLen) (len - headerLen)
    match A.openRecord rx.nonce ciphertext with
    | none =>
      ⟨.error .authentication,
        { rx.clear with nonce := rx.nonce.increment, cipher := false }, net, []⟩
    | some plaintext =>
      ⟨.ok (),
        { rx with
          nonce := rx.nonce.increment
          buf := rx.buf.map (·.blit (off + headerLen) plaintext)
          plaintextOff := off + headerLen
          plaintextLen := plaintext.length }, net,
        [⟨rx.nonce, ciphertext, plaintext⟩]⟩

/-- The length of the message at `off`, by its header. -/
def RxState.messageLen (rx : RxState) (off : Nat) : Nat :=
  headerLen + (getBE 16 (rx.slice (off + 1) 2)).toNat

/-- `wholeMessageLocked`: the length of the message at `next`, if all of it is there. -/
def wholeMessage (rx : RxState) : Option Nat :=
  let available := rx.n - rx.next
  if available < headerLen then none
  else if available < rx.messageLen rx.next then none
  else some (rx.messageLen rx.next)

/-- Moving the rest of the buffered bytes to the head of the buffer, and giving back an empty
buffer. -/
def compact (rx : RxState) : RxState :=
  let rx :=
    if rx.next ≠ 0 then
      { rx with
        buf := rx.buf.map fun buf => buf.blit 0 (buf.slice rx.next (rx.n - rx.next))
        n := rx.n - rx.next
        next := 0 }
    else rx
  if rx.n = 0 ∧ rx.next = 0 then { rx with buf := none } else rx

/-- `decryptOneLocked`. -/
def decryptOne (net : List (NetRead E)) (rx : RxState) : Option (Result E Unit) :=
  let rx := rx.clear
  match wholeMessage rx with
  | some len => some (decrypt A rx.next len net { rx with next := rx.next + len })
  | none =>
    match readN headerLen net (compact rx) with
    | none => none
    | some ⟨.error e, rx, net, _⟩ => some ⟨.error e, rx, net, []⟩
    | some ⟨.ok (), rx, net, _⟩ =>
      let messageLen := rx.messageLen 0
      match readN messageLen net rx with
      | none => none
      | some ⟨.error e, rx, net, _⟩ => some ⟨.error e, rx, net, []⟩
      | some ⟨.ok (), rx, net, _⟩ =>
          some (decrypt A 0 messageLen net { rx with next := messageLen })

/-- The loop of `Read`, for a number of rounds. -/
def fill : Nat → List (NetRead E) → RxState → Option (Result E Unit)
  | 0, _, _ => none
  | rounds + 1, net, rx =>
    if rx.plaintextLen ≠ 0 then some ⟨.ok (), rx, net, []⟩
    else
      match decryptOne A net rx with
      | none => none
      | some ⟨.error e, rx, net, opened⟩ => some ⟨.error e, rx, net, opened⟩
      | some ⟨.ok (), rx, net, opened⟩ =>
        (fill rounds net rx).map fun r => { r with opened := opened ++ r.opened }

/-- `Read` into `size` bytes. -/
def read (rounds size : Nat) (net : List (NetRead E)) (rx : RxState) : Option (Result E Bytes) :=
  if rx.cipher = false then some ⟨.error .closed, rx, net, []⟩
  else
    match fill A rounds net rx with
    | none => none
    | some ⟨.error e, rx, net, opened⟩ => some ⟨.error e, rx, net, opened⟩
    | some ⟨.ok (), rx, net, opened⟩ =>
      let n := min size rx.plaintextLen
      some ⟨.ok (rx.slice rx.plaintextOff n), rx.consume n, net, opened⟩

/-! ## Runs -/

/-- One direction of a connection. -/
structure Sys (E : Type) where
  tx : TxState E := {}
  rx : RxState := {}

/-- What a step shows. -/
inductive Event (E : Type)
  | write (bs : Bytes) (n : Nat) (err : Option (WriteError E)) (sealed : List SealedRecord)
      (wire : List Bytes)
  | read (value : Except (ReadError E) Bytes) (opened : List Opened)
  | closeWriter
  | closeReader

/-- A call to `Write`, to `Read` of the peer, or to `Close` of either. -/
inductive Step (A : AEAD) (s : Sys E) : Event E → Sys E → Prop
  | write (conn : Nat → Option E) (bs : Bytes) {n err tx sealed wire}
      (eq : write A conn bs s.tx = ((n, err), tx, sealed, wire)) :
      Step A s (.write bs n err sealed wire) { s with tx }
  | read (rounds size : Nat) (net : List (NetRead E)) {r}
      (eq : read A rounds size net s.rx = some r) :
      Step A s (.read r.value r.opened) { s with rx := r.rx }
  | closeWriter : Step A s .closeWriter { s with tx := { s.tx with cipher := false } }
  | closeReader : Step A s .closeReader { s with rx := { s.rx with cipher := false } }

end Multiport.Controlbase

import Multiport.Lib.Bytes
import Multiport.Lib.Checks

/-!
# Tailnet-lock state and its updates

The keys, the state and the Authority Update Messages (AUMs) of the tailnet key
authority: static validation, verification against a state, and the state machine
`applyVerifiedAUM`.

BLAKE2s over the canonical CBOR encoding and Ed25519 are not part of the repository;
`Crypto` stands for the two.  A slice or map that the code tells apart from an empty
one is optional.
-/

namespace Multiport.Tka

open Lib List

/-! ## Types -/

/-- Limit on the number of disablement values in a checkpoint. -/
def maxDisablementSecrets : Nat := 32

/-- Limit on the number of keys in a checkpoint. -/
def maxKeys : Nat := 512

/-- Limit on the bytes of metadata of one key. -/
def maxMetaBytes : Nat := 512

def disablementLength : Nat := 32

/-- The 32 bytes of a BLAKE2s digest, most significant first. -/
abbrev AUMHash := BitVec 256

abbrev KeyID := Bytes

/-- A metadata map, as the list of its entries by key.  A string of the code is any bytes. -/
structure Meta where
  entries : List (Bytes × Bytes) := []
  ordered : entries.Pairwise fun e e' => e.1 < e'.1 := by decide
  deriving DecidableEq, Repr

inductive KeyKind
  | invalid
  | key25519
  | other (n : {n : UInt8 // 1 < n})
  deriving DecidableEq, Repr

/-- The public part of a key known to tailnet lock. -/
structure Key where
  kind : KeyKind := .key25519
  votes : Nat := 1
  publicBytes : Bytes
  metadata : Option Meta := none
  deriving DecidableEq, Repr

/-- The state of the tailnet key authority at an instant. -/
structure State where
  lastAUMHash : Option AUMHash := none
  disablementValues : List Bytes := []
  keys : List Key := []
  stateID1 : BitVec 64 := 0
  stateID2 : BitVec 64 := 0
  deriving DecidableEq, Repr

inductive AUMKind
  | invalid
  | addKey
  | removeKey
  | noOp
  | updateKey
  | checkpoint
  | other (n : {n : UInt8 // 5 < n})
  deriving DecidableEq, Repr

/-- A signature over an AUM by the key `keyID`. -/
structure Signature where
  keyID : KeyID
  signature : Bytes
  deriving DecidableEq, Repr

/-- An Authority Update Message. -/
structure AUM where
  messageKind : AUMKind
  prevAUMHash : Option Bytes := none
  key : Option Key := none
  keyID : Option KeyID := none
  state : Option State := none
  votes : Option Nat := none
  metadata : Option Meta := none
  signatures : List Signature := []
  deriving DecidableEq, Repr

/-- The digest of an AUM, and Ed25519 verification of a signature over a digest. -/
structure Crypto where
  hash : AUM → AUMHash
  verify : Bytes → AUMHash → Bytes → Bool

/-- `SigHash`: the digest of the AUM without its signatures. -/
def Crypto.sigHash (C : Crypto) (a : AUM) : AUMHash := C.hash { a with signatures := [] }

variable (h : AUMHash)

/-- The bytes `h[:]`. -/
def hashBytes : Bytes := putBE 32 h

/-- `copy(h[:], b)` into the bytes of `h`. -/
def copyHash (b : Bytes) : AUMHash :=
  getBE 256 (b.take 32 ++ (hashBytes h).drop b.length)

/-- `Parent`: the bytes of the parent's hash, copied into a zero hash. -/
def AUM.parent (a : AUM) : Option AUMHash :=
  match a.prevAUMHash with
  | none => none
  | some b => if b = [] then none else some (copyHash 0 b)

@[simp] theorem length_hashBytes : (hashBytes h).length = 32 := by
  simp [hashBytes]

@[simp] theorem copyHash_hashBytes (h h' : AUMHash) : copyHash h' (hashBytes h) = h := by
  rw [copyHash, take_of_length_le (by simp), drop_of_length_le (by simp), append_nil]
  exact getBE_putBE (by decide) h

@[simp] theorem copyHash_nil : copyHash h [] = h := by
  rw [copyHash, take_nil, nil_append]
  exact getBE_putBE (by decide) h

/-- A full digest overwrites all of the hash. -/
theorem copyHash_of_length {b : Bytes} (hb : b.length = 32) (h h' : AUMHash) :
    copyHash h b = copyHash h' b := by
  rw [copyHash, copyHash, drop_of_length_le (by simp [hb]),
    drop_of_length_le (by simp [hb])]

@[simp] theorem hashBytes_ne_nil : hashBytes h ≠ [] :=
  ne_nil_of_length_pos (by simp)

theorem AUM.parent_of_prevAUMHash {a : AUM} {h : AUMHash}
    (ha : a.prevAUMHash = some (hashBytes h)) : a.parent = some h := by
  simp [AUM.parent, ha]

/-! ## Static validation -/

inductive KeyError
  | unknownKind (kind : KeyKind)
  | noSuchKey
  deriving DecidableEq, Repr

/-- `Key.ID`: the public key itself. -/
def Key.id (k : Key) : Except KeyError KeyID :=
  match k.kind with
  | .key25519 => .ok k.publicBytes
  | kind => .error (.unknownKind kind)

inductive ValidateError
  | excessiveKeyWeight (votes : Nat)
  | zeroVotes
  | metadataTooBig (bytes : Nat)
  | unrecognizedKeyKind (kind : KeyKind)
  | emptyParent
  | malformedSignature (i : Nat)
  | addKeyWithoutKey
  | addKeyMayOnlySpecifyKey
  | removeKeyWithoutKeyID
  | removeKeyMayOnlySpecifyKeyID
  | updateKeyWithoutKeyID
  | updateKeyWithoutUpdate
  | updateKeyMayOnlySpecifyKeyIDVotesMeta
  | checkpointWithoutState
  | checkpointMayOnlySpecifyState
  | checkpointHasParent
  | noDisablementValue
  | tooManyDisablementValues (n : Nat)
  | disablementLength (i n : Nat)
  | disablementDuplicate (i j : Nat)
  | noKey
  | tooManyKeys (n : Nat)
  | keyDuplicate (i j : Nat)
  | keyAt (i : Nat) (e : ValidateError)
  | keyIDAt (i : Nat) (e : KeyError)
  | checkpointState (e : ValidateError)
  deriving DecidableEq, Repr

/-- The bytes of a key's metadata. -/
def metaBytes (m : Option Meta) : Nat :=
  ((m.getD {}).entries.map fun e => e.1.length + e.2.length).sum

def Key.staticValidate (k : Key) : Except ValidateError Unit := do
  reject (4096 < k.votes) (.excessiveKeyWeight k.votes)
  reject (k.votes = 0) .zeroVotes
  reject (maxMetaBytes < metaBytes k.metadata) (.metadataTooBig (metaBytes k.metadata))
  reject (k.kind ≠ .key25519) (.unrecognizedKeyKind k.kind)

/-- What `Key.StaticValidate` accepts. -/
structure Key.Valid (k : Key) : Prop where
  votes_pos : 0 < k.votes
  votes_le : k.votes ≤ 4096
  metaBytes_le : metaBytes k.metadata ≤ maxMetaBytes
  kind_eq : k.kind = .key25519

variable {k : Key} {u : Unit}

@[simp] theorem Key.staticValidate_eq_ok_iff : k.staticValidate = .ok u ↔ k.Valid := by
  simp only [Key.staticValidate, bind_eq_ok_iff, reject_eq_ok_iff, exists_const]
  constructor
  · rintro ⟨hle, hpos, hmeta, hkind⟩
    exact ⟨pos_of_ne_zero hpos, not_lt.1 hle, not_lt.1 hmeta, not_not.1 hkind⟩
  · rintro ⟨hpos, hle, hmeta, hkind⟩
    exact ⟨not_lt.2 hle, hpos.ne', not_lt.2 hmeta, not_not.2 hkind⟩

theorem Key.id_of_kind (h : k.kind = .key25519) : k.id = .ok k.publicBytes := by
  simp [Key.id, h]

/-- The IDs of two keys, compared as `staticValidateCheckpoint` does. -/
def compareIDs (x y : Key × Nat) : Except ValidateError Unit :=
  if x.2 = y.2 then .ok ()
  else do
    let id1 ← x.1.id.mapError (.keyIDAt x.2)
    let id2 ← y.1.id.mapError (.keyIDAt y.2)
    reject (id1 = id2) (.keyDuplicate x.2 y.2)

def State.staticValidateCheckpoint (s : State) : Except ValidateError Unit := do
  reject (s.lastAUMHash ≠ none) .checkpointHasParent
  reject (s.disablementValues.length = 0) .noDisablementValue
  reject (maxDisablementSecrets < s.disablementValues.length)
    (.tooManyDisablementValues s.disablementValues.length)
  checkAll (fun x => do
    reject (x.1.length ≠ Tka.disablementLength) (.disablementLength x.2 x.1.length)
    checkAll (fun y => reject (x.2 ≠ y.2 ∧ x.1 = y.1) (.disablementDuplicate x.2 y.2))
      s.disablementValues.zipIdx) s.disablementValues.zipIdx
  reject (s.keys.length = 0) .noKey
  reject (maxKeys < s.keys.length) (.tooManyKeys s.keys.length)
  checkAll (fun x => x.1.staticValidate.mapError (.keyAt x.2)) s.keys.zipIdx
  checkAll (fun x => checkAll (fun y => compareIDs x y) s.keys.zipIdx) s.keys.zipIdx

/-- Keys that are valid on their own and have distinct IDs. -/
structure State.KeysValid (s : State) : Prop where
  valid : ∀ k ∈ s.keys, k.Valid
  nodup : (s.keys.map Key.publicBytes).Nodup

/-- Disablement values as a checkpoint may have them. -/
structure State.DisablementValid (s : State) : Prop where
  pos : 0 < s.disablementValues.length
  le : s.disablementValues.length ≤ maxDisablementSecrets
  length_eq : ∀ d ∈ s.disablementValues, d.length = Tka.disablementLength
  nodup : s.disablementValues.Nodup

theorem compareIDs_eq_ok_iff {x y : Key × Nat} (hx : x.1.Valid) (hy : y.1.Valid) :
    compareIDs x y = .ok u ↔ ¬(x.2 ≠ y.2 ∧ x.1.publicBytes = y.1.publicBytes) := by
  unfold compareIDs
  split
  next h => simp [h]
  next h => simp [h, Key.id_of_kind hx.kind_eq, Key.id_of_kind hy.kind_eq, Except.mapError, bind,
    Except.bind]

variable {s : State}

/-- **What `staticValidateCheckpoint` accepts.** -/
theorem State.staticValidateCheckpoint_eq_ok_iff :
    s.staticValidateCheckpoint = .ok u ↔ s.lastAUMHash = none ∧ s.DisablementValid ∧
      0 < s.keys.length ∧ s.keys.length ≤ maxKeys ∧ s.KeysValid := by
  have hds : (∀ x ∈ s.disablementValues.zipIdx, x.1.length = Tka.disablementLength) ↔
      ∀ d ∈ s.disablementValues, d.length = Tka.disablementLength :=
    forall_mem_zipIdx_iff (P := fun d : Bytes => d.length = Tka.disablementLength)
  have hdn := forall_zipIdx_ne_iff (f := id) (l := s.disablementValues)
  rw [map_id] at hdn
  have hval : (∀ x ∈ s.keys.zipIdx, x.1.Valid) ↔ ∀ k ∈ s.keys, k.Valid := forall_mem_zipIdx_iff
  simp only [State.staticValidateCheckpoint, bind_eq_ok_iff, reject_eq_ok_iff, checkAll_eq_ok_iff,
    mapError_eq_ok_iff, Key.staticValidate_eq_ok_iff, exists_const]
  constructor
  · rintro ⟨h1, h2, h3, h4, h5, h6, h7, h8⟩
    refine ⟨not_not.1 h1, ⟨pos_of_ne_zero h2, not_lt.1 h3,
      hds.1 fun x hx => not_not.1 (h4 x hx).1, hdn.1 fun x hx => (h4 x hx).2⟩,
      pos_of_ne_zero h5, not_lt.1 h6, hval.1 h7, forall_zipIdx_ne_iff.1 ?_⟩
    exact fun x hx y hy => (compareIDs_eq_ok_iff (h7 x hx) (h7 y hy)).1 (h8 x hx y hy)
  · rintro ⟨h1, ⟨h2, h3, h4, h5⟩, h6, h7, h8, h9⟩
    refine ⟨not_not.2 h1, h2.ne', not_lt.2 h3,
      fun x hx => ⟨not_not.2 (hds.2 h4 x hx), hdn.2 h5 x hx⟩, h6.ne', not_lt.2 h7,
      hval.2 h8, fun x hx y hy => ?_⟩
    exact (compareIDs_eq_ok_iff (hval.2 h8 x hx) (hval.2 h8 y hy)).2
      (forall_zipIdx_ne_iff.2 h9 x hx y hy)

def AUM.validateFields (a : AUM) : Except ValidateError Unit :=
  match a.messageKind with
  | .addKey => do
    reject (a.key = none) .addKeyWithoutKey
    reject (a.keyID ≠ none ∨ a.state ≠ none ∨ a.votes ≠ none ∨ a.metadata ≠ none)
      .addKeyMayOnlySpecifyKey
  | .removeKey => do
    reject ((a.keyID.getD []).length = 0) .removeKeyWithoutKeyID
    reject (a.key ≠ none ∨ a.state ≠ none ∨ a.votes ≠ none ∨ a.metadata ≠ none)
      .removeKeyMayOnlySpecifyKeyID
  | .updateKey => do
    reject ((a.keyID.getD []).length = 0) .updateKeyWithoutKeyID
    reject (a.metadata = none ∧ a.votes = none) .updateKeyWithoutUpdate
    reject (a.key ≠ none ∨ a.state ≠ none) .updateKeyMayOnlySpecifyKeyIDVotesMeta
  | .checkpoint => do
    reject (a.state = none) .checkpointWithoutState
    reject (a.keyID ≠ none ∨ a.key ≠ none ∨ a.votes ≠ none ∨ a.metadata ≠ none)
      .checkpointMayOnlySpecifyState
  | .noOp => .ok ()
  -- kinds of a future version, which old clients ignore
  | .invalid => .ok ()
  | .other _ => .ok ()

def AUM.staticValidate (a : AUM) : Except ValidateError Unit := do
  match a.key with
  | some k => k.staticValidate
  | none => .ok ()
  reject (a.prevAUMHash = some []) .emptyParent
  checkAll (fun x => reject (x.1.keyID.length ≠ 32 ∨ x.1.signature.length ≠ 64)
    (.malformedSignature x.2)) a.signatures.zipIdx
  match a.state with
  | some s => s.staticValidateCheckpoint.mapError .checkpointState
  | none => .ok ()
  a.validateFields

/-- **What `AUM.StaticValidate` accepts.** -/
theorem AUM.staticValidate_eq_ok_iff {a : AUM} :
    a.staticValidate = .ok u ↔ (∀ k ∈ a.key, k.Valid) ∧ a.prevAUMHash ≠ some [] ∧
      (∀ x ∈ a.signatures, x.keyID.length = 32 ∧ x.signature.length = 64) ∧
      (∀ s ∈ a.state, s.staticValidateCheckpoint = .ok ()) ∧ a.validateFields = .ok () := by
  have hsigs : (∀ x ∈ a.signatures.zipIdx, x.1.keyID.length = 32 ∧ x.1.signature.length = 64) ↔
      ∀ x ∈ a.signatures, x.keyID.length = 32 ∧ x.signature.length = 64 :=
    forall_mem_zipIdx_iff (P := fun x : Signature => x.keyID.length = 32 ∧ x.signature.length = 64)
  unfold AUM.staticValidate
  cases a.key <;> cases a.state <;>
    simp only [bind_eq_ok_iff, reject_eq_ok_iff, checkAll_eq_ok_iff, mapError_eq_ok_iff,
      Key.staticValidate_eq_ok_iff, exists_const, exists_and_right, exists_eq_ok_unit_iff, not_or,
      not_not, hsigs, Option.mem_def, Option.some.injEq, forall_eq', reduceCtorEq, false_imp_iff,
      implies_true]

/-! ## The state machine -/

/-- The scan for the key with an ID, which stops at a key of an unknown kind. -/
def findKey (id : KeyID) : List Key → Except KeyError (Nat × Key)
  | [] => .error .noSuchKey
  | k :: ks => do
    let keyID ← k.id
    if keyID = id then .ok (0, k) else (findKey id ks).map fun x => (x.1 + 1, x.2)

variable {id : KeyID}

theorem findKey_eq_ok {ks : List Key} {x : Nat × Key} (h : findKey id ks = .ok x) :
    ks[x.1]? = some x.2 ∧ x.2.id = .ok id := by
  induction ks generalizing x with
  | nil => cases h
  | cons k ks ih =>
    obtain ⟨keyID, hid, h⟩ := bind_eq_ok_iff.1 h
    split at h
    next heq =>
      cases h
      exact ⟨rfl, heq ▸ hid⟩
    next =>
      obtain ⟨y, hrest, rfl⟩ := map_eq_ok_iff.1 h
      exact ih hrest

theorem exists_findKey {ks : List Key} (hkind : ∀ k ∈ ks, k.kind = .key25519)
    (hid : id ∈ ks.map Key.publicBytes) : ∃ x, findKey id ks = .ok x := by
  induction ks with
  | nil => cases hid
  | cons k ks ih =>
    rw [findKey, Key.id_of_kind (hkind k mem_cons_self)]
    by_cases heq : k.publicBytes = id
    · exact ⟨(0, k), if_pos heq⟩
    · obtain ⟨x, hx⟩ := ih (fun k' hk' => hkind k' (mem_cons_of_mem _ hk'))
        ((mem_cons.1 hid).resolve_left (Ne.symm heq))
      refine ⟨(x.1 + 1, x.2), (if_neg heq).trans ?_⟩
      rw [hx]
      rfl

def State.getKey (s : State) (id : KeyID) : Except KeyError Key := (findKey id s.keys).map Prod.snd

theorem State.getKey_eq_ok (h : s.getKey id = .ok k) : k ∈ s.keys ∧ k.id = .ok id := by
  obtain ⟨x, hx, rfl⟩ := map_eq_ok_iff.1 h
  obtain ⟨hget, hid⟩ := findKey_eq_ok hx
  exact ⟨mem_of_getElem? hget, hid⟩

def State.cloneForUpdate (C : Crypto) (s : State) (update : AUM) : State :=
  { s with lastAUMHash := some (C.hash update) }

def State.parentMatches (s : State) (update : AUM) : Bool :=
  match s.lastAUMHash with
  | none => true
  | some h => update.prevAUMHash.getD [] == hashBytes h

inductive ApplyError
  | parentMismatch
  | missingCheckpointState
  | incorrectStateID
  | noKeyToAdd
  | keyAlreadyExists
  | key (e : KeyError)
  | updatedKeyInvalid (e : ValidateError)
  deriving DecidableEq, Repr

/-- The key of `UpdateKey`, with the votes and metadata the update sets. -/
def Key.updated (k : Key) (update : AUM) : Key :=
  { k with votes := update.votes.getD k.votes, metadata := update.metadata.or k.metadata }

/-- The loop of `UpdateKey` that replaces the key with an ID. -/
def replaceKey (id : KeyID) (k : Key) (keys : List Key) : List Key :=
  keys.map fun k' => if k'.publicBytes = id then k else k'

def State.applyVerifiedAUM (C : Crypto) (s : State) (update : AUM) : Except ApplyError State := do
  reject (s.parentMatches update = false) .parentMismatch
  match update.messageKind with
  | .checkpoint =>
    match update.state with
    | none => .error .missingCheckpointState
    | some st => do
      reject (st.stateID1 ≠ s.stateID1 ∨ st.stateID2 ≠ s.stateID2) .incorrectStateID
      .ok (st.cloneForUpdate C update)
  | .addKey =>
    match update.key with
    | none => .error .noKeyToAdd
    | some k => do
      let keyID ← k.id.mapError .key
      reject ((s.getKey keyID).isOk) .keyAlreadyExists
      .ok { s.cloneForUpdate C update with keys := s.keys ++ [k] }
  | .updateKey => do
    let keyID := update.keyID.getD []
    let k ← (s.getKey keyID).mapError .key
    (k.updated update).staticValidate.mapError .updatedKeyInvalid
    checkAll (fun k' => (k'.id.map fun _ => ()).mapError .key) s.keys
    .ok { s.cloneForUpdate C update with keys := replaceKey keyID (k.updated update) s.keys }
  | .removeKey => do
    let x ← (findKey (update.keyID.getD []) s.keys).mapError .key
    .ok { s.cloneForUpdate C update with keys := s.keys.eraseIdx x.1 }
  | .noOp => .ok (s.cloneForUpdate C update)
  -- kinds of a future version, which old clients ignore
  | .invalid => .ok (s.cloneForUpdate C update)
  | .other _ => .ok (s.cloneForUpdate C update)

/-- The ways in which an update changes a state. -/
inductive Applied (C : Crypto) (s : State) (update : AUM) : State → Prop
  | checkpoint {st} (kind : update.messageKind = .checkpoint)
      (state : update.state = some st) (id1 : st.stateID1 = s.stateID1)
      (id2 : st.stateID2 = s.stateID2) : Applied C s update (st.cloneForUpdate C update)
  | addKey {k : Key} {keyID} (kind : update.messageKind = .addKey)
      (key : update.key = some k) (id : k.id = .ok keyID)
      (new : (s.getKey keyID).isOk = false) :
      Applied C s update { s.cloneForUpdate C update with keys := s.keys ++ [k] }
  | updateKey {k : Key} (kind : update.messageKind = .updateKey)
      (key : s.getKey (update.keyID.getD []) = .ok k) (valid : (k.updated update).Valid) :
      Applied C s update { s.cloneForUpdate C update with
        keys := replaceKey (update.keyID.getD []) (k.updated update) s.keys }
  | removeKey {x} (kind : update.messageKind = .removeKey)
      (found : findKey (update.keyID.getD []) s.keys = .ok x) :
      Applied C s update { s.cloneForUpdate C update with keys := s.keys.eraseIdx x.1 }
  | other (checkpoint : update.messageKind ≠ .checkpoint) (addKey : update.messageKind ≠ .addKey)
      (updateKey : update.messageKind ≠ .updateKey)
      (removeKey : update.messageKind ≠ .removeKey) :
      Applied C s update (s.cloneForUpdate C update)

variable {C : Crypto} {update : AUM}

/-- **What `applyVerifiedAUM` can do.** -/
theorem State.applied_of_apply {s' : State} (h : s.applyVerifiedAUM C update = .ok s') :
    s.parentMatches update = true ∧ Applied C s update s' := by
  obtain ⟨_, hm, h⟩ := bind_eq_ok_iff.1 h
  rw [reject_eq_ok_iff, Bool.not_eq_false] at hm
  refine ⟨hm, ?_⟩
  cases hk : update.messageKind <;> simp only [hk] at h
  case checkpoint =>
    split at h
    · cases h
    next st hst =>
      obtain ⟨_, hid, h⟩ := bind_eq_ok_iff.1 h
      rw [reject_eq_ok_iff, not_or, not_not, not_not] at hid
      cases h
      exact .checkpoint hk hst hid.1 hid.2
  case addKey =>
    split at h
    · cases h
    next k hkey =>
      obtain ⟨keyID, hid, h⟩ := bind_eq_ok_iff.1 h
      obtain ⟨_, hnew, h⟩ := bind_eq_ok_iff.1 h
      rw [reject_eq_ok_iff, Bool.not_eq_true] at hnew
      cases h
      exact .addKey hk hkey (mapError_eq_ok_iff.1 hid) hnew
  case updateKey =>
    obtain ⟨k, hkey, h⟩ := bind_eq_ok_iff.1 h
    obtain ⟨_, hvalid, h⟩ := bind_eq_ok_iff.1 h
    obtain ⟨_, -, h⟩ := bind_eq_ok_iff.1 h
    cases h
    exact .updateKey hk (mapError_eq_ok_iff.1 hkey)
      (Key.staticValidate_eq_ok_iff.1 (mapError_eq_ok_iff.1 hvalid))
  case removeKey =>
    obtain ⟨x, hfound, h⟩ := bind_eq_ok_iff.1 h
    cases h
    exact .removeKey hk (mapError_eq_ok_iff.1 hfound)
  all_goals
    cases h
    exact .other (by simp [hk]) (by simp [hk]) (by simp [hk]) (by simp [hk])

theorem State.apply_checkpoint {st : State} (hparent : s.parentMatches update = true)
    (hkind : update.messageKind = .checkpoint) (hstate : update.state = some st)
    (hid1 : st.stateID1 = s.stateID1) (hid2 : st.stateID2 = s.stateID2) :
    s.applyVerifiedAUM C update = .ok (st.cloneForUpdate C update) := by
  refine bind_eq_ok_iff.2 ⟨(), reject_eq_ok_iff.2 (by simp [hparent]), ?_⟩
  simp only [hkind, hstate]
  exact bind_eq_ok_iff.2 ⟨(), reject_eq_ok_iff.2 (by simp [hid1, hid2]), rfl⟩

theorem State.apply_addKey {keyID : KeyID} (hparent : s.parentMatches update = true)
    (hkind : update.messageKind = .addKey) (hkey : update.key = some k) (hid : k.id = .ok keyID)
    (hnew : (s.getKey keyID).isOk = false) :
    s.applyVerifiedAUM C update = .ok { s.cloneForUpdate C update with keys := s.keys ++ [k] } := by
  refine bind_eq_ok_iff.2 ⟨(), reject_eq_ok_iff.2 (by simp [hparent]), ?_⟩
  simp only [hkind, hkey, hid]
  exact bind_eq_ok_iff.2 ⟨keyID, rfl, bind_eq_ok_iff.2 ⟨(), reject_eq_ok_iff.2 (by simp [hnew]),
    rfl⟩⟩

theorem Applied.lastAUMHash {s' : State} (h : Applied C s update s') :
    s'.lastAUMHash = some (C.hash update) := by
  cases h <;> rfl

/-- The votes of the signing keys the state knows, each key once. -/
def weightOf (s : State) (seen : List KeyID) : List Signature → Nat
  | [] => 0
  | sig :: sigs =>
    match s.getKey sig.keyID with
    | .error _ => weightOf s seen sigs
    | .ok k =>
      if seen.contains sig.keyID then weightOf s seen sigs
      else (k.votes + weightOf s (sig.keyID :: seen) sigs) % 2 ^ 64

/-- `Weight`.  Its panics, on a key ID that is not 32 bytes long and on a state with a
key of an unknown kind, do not occur for verified AUMs. -/
def AUM.weight (a : AUM) (s : State) : Nat := weightOf s [] a.signatures

/-! ## Verification -/

inductive VerifyError
  | invalid (e : ValidateError)
  | noParent
  | noPreviousAUM
  | parentMismatch
  | unsigned
  | badKeyID (i : Nat) (e : KeyError)
  | keyLength (i n : Nat)
  | badSignature (i : Nat)
  | unhandledKeyKind (i : Nat) (kind : KeyKind)
  | lastKey
  deriving DecidableEq, Repr

/-- `signatureVerify`, for signature `i`. -/
def signatureVerify (C : Crypto) (i : Nat) (sig : Signature) (digest : AUMHash) (k : Key) :
    Except VerifyError Unit :=
  match k.kind with
  | .key25519 => do
    reject (k.publicBytes.length ≠ 32) (.keyLength i k.publicBytes.length)
    reject (C.verify k.publicBytes digest sig.signature = false) (.badSignature i)
  | kind => .error (.unhandledKeyKind i kind)

def checkParent (a : AUM) (s : State) : Except VerifyError Unit :=
  match a.parent, s.lastAUMHash with
  | none, _ => .error .noParent
  | some _, none => .error .noPreviousAUM
  | some parent, some last => reject (last ≠ parent) .parentMismatch

def aumVerify (C : Crypto) (a : AUM) (s : State) (isGenesisAUM : Bool) :
    Except VerifyError Unit := do
  a.staticValidate.mapError .invalid
  if isGenesisAUM then .ok () else checkParent a s
  reject (a.signatures = []) .unsigned
  checkAll (fun x => do
    let k ← (s.getKey x.1.keyID).mapError (.badKeyID x.2)
    signatureVerify C x.2 x.1 (C.sigHash a) k) a.signatures.zipIdx
  match a.messageKind, s.keys with
  | .removeKey, [k] => reject (k.id.toOption = some (a.keyID.getD [])) .lastKey
  | _, _ => .ok ()

theorem signatureVerify_eq_ok_iff {i : Nat} {sig : Signature} {digest : AUMHash} :
    signatureVerify C i sig digest k = .ok u ↔ k.kind = .key25519 ∧
      k.publicBytes.length = 32 ∧ C.verify k.publicBytes digest sig.signature = true := by
  unfold signatureVerify
  split
  next hk => simp [hk]
  next hk =>
    constructor
    · exact nofun
    · exact fun h => absurd h.1 hk

/-- **What `aumVerify` accepts.** -/
theorem aumVerify_eq_ok_iff {a : AUM} {isGenesisAUM : Bool} :
    aumVerify C a s isGenesisAUM = .ok u ↔ a.staticValidate = .ok () ∧
      (isGenesisAUM = false → checkParent a s = .ok ()) ∧ a.signatures ≠ [] ∧
      (∀ sig ∈ a.signatures, ∃ k, s.getKey sig.keyID = .ok k ∧ k.kind = .key25519 ∧
        k.publicBytes.length = 32 ∧
        C.verify k.publicBytes (C.sigHash a) sig.signature = true) ∧
      (a.messageKind = .removeKey → ∀ k, s.keys = [k] → k.id ≠ .ok (a.keyID.getD [])) := by
  have hsigs := forall_mem_zipIdx_iff (l := a.signatures) (P := fun sig =>
    ∃ k, s.getKey sig.keyID = .ok k ∧ k.kind = .key25519 ∧ k.publicBytes.length = 32 ∧
      C.verify k.publicBytes (C.sigHash a) sig.signature = true)
  unfold aumVerify
  cases isGenesisAUM <;>
    simp only [bind_eq_ok_iff, reject_eq_ok_iff, checkAll_eq_ok_iff, mapError_eq_ok_iff,
      exists_const, exists_and_right, exists_eq_ok_unit_iff, signatureVerify_eq_ok_iff, if_true,
      if_false, Bool.false_eq_true, forall_const, Bool.true_eq_false, false_imp_iff]
  all_goals
    congr! 4
    -- the check for the last key
    split
    next k hk hks => cases hid : k.id <;> simp [hk, hks, hid, Except.toOption]
    next hne =>
      simp only [true_iff]
      exact fun hk k hks => absurd hks (hne k hk)

end Multiport.Tka

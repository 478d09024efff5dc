import Mathlib.Data.Countable.Basic
import Mathlib.Logic.Equiv.List
import Mathlib.Tactic.DeriveCountable
import Multiport.Tka.Keys

/-!
# AUMs on the wire

The encoding of an AUM leaves out its empty fields, so a node that receives it reads `none` where
the node that made it may have had an empty value: `AUM.omitted` is what is read.  Digests are
taken of the encoding and do not see the difference, but the validation of an UpdateKey does.

The CBOR library is not part of the repository; `AUMCodec` states what it does with the struct
tags and the limits of `cborDecOpts`.
-/

namespace Multiport.Tka

open Lib Tailcfg List State Meta

/-- A field with `omitempty`, after encoding and decoding. -/
def omitEmpty {α : Type} (isEmpty : α → Bool) (m : Option α) : Option α :=
  m.filter fun x => !isEmpty x

def Meta.isEmpty (m : Meta) : Bool := m.entries.isEmpty

def Key.omitted (k : Key) : Key := { k with metadata := omitEmpty isEmpty k.metadata }

def State.omitted (s : State) : State := { s with keys := s.keys.map Key.omitted }

/-- The AUM that is decoded from the encoding of an AUM. -/
def AUM.omitted (a : AUM) : AUM :=
  { a with
    key := a.key.map Key.omitted
    keyID := omitEmpty List.isEmpty a.keyID
    state := a.state.map State.omitted
    metadata := omitEmpty isEmpty a.metadata }

/-- `MaxArrayElements` of `cborDecOpts`. -/
def maxArrayElements : Nat := 4096

/-- `MaxMapPairs` of `cborDecOpts`. -/
def maxMapPairs : Nat := 1024

/-- The bytes of a string are UTF-8, as the decoder demands of a text. -/
def ValidUTF8 (s : Bytes) : Prop := (ByteArray.mk (s.map UInt8.ofBitVec).toArray).IsValidUTF8

/-- A metadata map that can be decoded. -/
def MetaFits (m : Option Meta) : Prop :=
  ∀ m' ∈ m, m'.entries.length ≤ maxMapPairs ∧ ∀ e ∈ m'.entries, ValidUTF8 e.1 ∧ ValidUTF8 e.2

/-- An AUM whose arrays, maps and texts can be decoded. -/
structure AUM.Fits (a : AUM) : Prop where
  signatures : a.signatures.length ≤ maxArrayElements
  metadata : MetaFits a.metadata
  key : ∀ k ∈ a.key, MetaFits k.metadata
  disablementValues : ∀ s ∈ a.state, s.disablementValues.length ≤ maxArrayElements
  keys : ∀ s ∈ a.state, s.keys.length ≤ maxArrayElements ∧ ∀ k ∈ s.keys, MetaFits k.metadata

/-- `Serialize` and `Unserialize` of AUMs, the encoding of a state, and the digest. -/
structure AUMCodec (C : Crypto) where
  serialize : AUM → Bytes
  unserialize : Bytes → Option AUM
  serializeState : State → Bytes
  sum256 : Bytes → AUMHash
  hash_eq : ∀ a, C.hash a = sum256 (serialize a)
  serialize_omitted : ∀ a, serialize a.omitted = serialize a
  serializeState_omitted : ∀ s, serializeState s.omitted = serializeState s
  unserialize_serialize : ∀ {a b},
    unserialize (serialize a) = some b ↔ a.omitted.Fits ∧ b = a.omitted

variable {C : Crypto} (D : AUMCodec C) {a : AUM} {s s' : State} {k : Key}

/-! ## What is read means the same -/

variable {α : Type} {isEmpty : α → Bool} {z : α}

@[simp] theorem omitEmpty_none : omitEmpty isEmpty none = none := rfl

@[simp] theorem omitEmpty_omitEmpty (m : Option α) :
    omitEmpty isEmpty (omitEmpty isEmpty m) = omitEmpty isEmpty m := by
  simp [omitEmpty, Option.filter_filter]

theorem Meta.eq_of_isEmpty (m : Meta) (h : m.isEmpty = true) : m = {} := by
  obtain ⟨entries, hm⟩ := m
  obtain rfl : entries = [] := isEmpty_iff.1 h
  rfl

section

variable (hz : ∀ x, isEmpty x = true → x = z)

include hz

theorem getD_omitEmpty (m : Option α) : (omitEmpty isEmpty m).getD z = m.getD z := by
  cases m with
  | none => rfl
  | some x =>
    cases hx : isEmpty x with
    | false => simp [omitEmpty, Option.filter, hx]
    | true =>
      obtain rfl := hz x hx
      simp [omitEmpty, Option.filter, hx]

theorem omitEmpty_of_ne {m : Option α} (h : m ≠ some z) : omitEmpty isEmpty m = m := by
  cases m with
  | none => rfl
  | some x =>
    have hx : isEmpty x = false := by
      by_contra hx
      exact h (congrArg some (hz x (by simpa using hx)))
    simp [omitEmpty, hx]

end

theorem AUM.getD_keyID_omitted (a : AUM) : a.omitted.keyID.getD [] = a.keyID.getD [] :=
  getD_omitEmpty (fun _ => isEmpty_iff.1) _

@[simp] theorem Key.omitted_omitted (k : Key) : k.omitted.omitted = k.omitted := by
  simp [Key.omitted]

@[simp] theorem State.omitted_omitted (s : State) : s.omitted.omitted = s.omitted := by
  simp [omitted]

theorem AUM.omitted_omitted (a : AUM) : a.omitted.omitted = a.omitted := by
  simp [AUM.omitted, Function.comp_def]

theorem Key.Valid.omitted (h : k.Valid) : k.omitted.Valid := by
  refine ⟨h.votes_pos, h.votes_le, ?_, h.kind_eq⟩
  rw [Key.omitted, metaBytes, getD_omitEmpty eq_of_isEmpty]
  exact h.metaBytes_le

theorem State.staticValidateCheckpoint_omitted (h : s.staticValidateCheckpoint = .ok ()) :
    s.omitted.staticValidateCheckpoint = .ok () := by
  obtain ⟨hlast, hdis, hpos, hle, hkeys⟩ := staticValidateCheckpoint_eq_ok_iff.1 h
  refine staticValidateCheckpoint_eq_ok_iff.2 ⟨hlast,
    { hdis with }, ?_, ?_, ?_, ?_⟩
  · rwa [omitted, length_map]
  · rwa [omitted, length_map]
  · intro k hk
    obtain ⟨k', hk', rfl⟩ := mem_map.1 hk
    exact (hkeys.valid k' hk').omitted
  · rw [omitted, map_map]
    exact hkeys.nodup

theorem AUM.validateFields_omitted (h : a.validateFields = .ok ()) (hmeta : a.metadata ≠ some {}) :
    a.omitted.validateFields = .ok () := by
  unfold AUM.validateFields at h ⊢
  rw [AUM.getD_keyID_omitted]
  simp only [AUM.omitted, omitEmpty_of_ne eq_of_isEmpty hmeta]
  cases hkind : a.messageKind <;> simp_all

theorem AUM.staticValidate_omitted (h : a.staticValidate = .ok ()) (hmeta : a.metadata ≠ some {}) :
    a.omitted.staticValidate = .ok () := by
  obtain ⟨hkey, hprev, hsigs, hstate, hfields⟩ := AUM.staticValidate_eq_ok_iff.1 h
  refine AUM.staticValidate_eq_ok_iff.2 ⟨?_, hprev, hsigs, ?_,
    AUM.validateFields_omitted hfields hmeta⟩
  · intro k hk
    obtain ⟨k', hk', rfl⟩ := Option.map_eq_some_iff.1 hk
    exact (hkey k' hk').omitted
  · intro s hs
    obtain ⟨s', hs', rfl⟩ := Option.map_eq_some_iff.1 hs
    exact staticValidateCheckpoint_omitted (hstate s' hs')

namespace AUMCodec

include D

theorem hash_omitted (a : AUM) : C.hash a.omitted = C.hash a := by
  rw [D.hash_eq, D.hash_eq, D.serialize_omitted]

theorem aumVerify_omitted (h : aumVerify C a s false = .ok ()) (hmeta : a.metadata ≠ some {}) :
    aumVerify C a.omitted s false = .ok () := by
  obtain ⟨hvalid, hparent, hsigned, hsigs, hlast⟩ := aumVerify_eq_ok_iff.1 h
  have hdigest : C.sigHash a.omitted = C.sigHash a := D.hash_omitted { a with signatures := [] }
  refine aumVerify_eq_ok_iff.2 ⟨AUM.staticValidate_omitted hvalid hmeta, hparent, hsigned, ?_, ?_⟩
  · rw [hdigest]
    exact hsigs
  · rw [AUM.getD_keyID_omitted]
    exact hlast

theorem cloneForUpdate_omitted (s : State) (a : AUM) :
    s.cloneForUpdate C a.omitted = s.cloneForUpdate C a := by
  rw [cloneForUpdate, D.hash_omitted, cloneForUpdate]

/-- Updates other than checkpoints and new keys have the same effect. -/
theorem apply_omitted_eq (hmeta : a.metadata ≠ some {}) (hcheck : a.messageKind ≠ .checkpoint)
    (hadd : a.messageKind ≠ .addKey) :
    s.applyVerifiedAUM C a.omitted = s.applyVerifiedAUM C a := by
  have hupdated : ∀ k : Key, k.updated a.omitted = k.updated a := fun k => by
    rw [Key.updated, Key.updated]
    simp only [AUM.omitted, omitEmpty_of_ne eq_of_isEmpty hmeta]
  unfold applyVerifiedAUM
  rw [D.cloneForUpdate_omitted, AUM.getD_keyID_omitted,
    show a.omitted.messageKind = a.messageKind from rfl,
    show s.parentMatches a.omitted = s.parentMatches a from rfl]
  cases hkind : a.messageKind <;> simp_all

/-- **The two nodes get to states with the same encoding.** -/
theorem apply_omitted (h : s.applyVerifiedAUM C a = .ok s') (hmeta : a.metadata ≠ some {}) :
    ∃ s'', s.applyVerifiedAUM C a.omitted = .ok s'' ∧ s''.omitted = s'.omitted := by
  obtain ⟨hparent, happ⟩ := applied_of_apply h
  cases happ with
  | @checkpoint st hkind hst hid1 hid2 =>
    have hst' : a.omitted.state = some st.omitted := by rw [AUM.omitted, hst, Option.map_some]
    refine ⟨_, State.apply_checkpoint hparent hkind hst' hid1 hid2, ?_⟩
    rw [D.cloneForUpdate_omitted]
    simp [omitted, cloneForUpdate]
  | @addKey k keyID hkind hkey hid hnew =>
    refine ⟨_, State.apply_addKey (k := k.omitted) hparent hkind ?_ hid hnew, ?_⟩
    · rw [AUM.omitted, hkey, Option.map_some]
    · rw [D.cloneForUpdate_omitted]
      simp [omitted]
  | updateKey hkind | removeKey hkind =>
    exact ⟨_, (D.apply_omitted_eq hmeta (by simp [hkind]) (by simp [hkind])).trans h, rfl⟩
  | other hcheck hadd => exact ⟨_, (D.apply_omitted_eq hmeta hcheck hadd).trans h, rfl⟩

end AUMCodec

/-! ## What a builder makes -/

variable {x : Authority} {signer : Option Signer} {b : UpdateBuilder}

theorem Built.metadata_cases (h : Built C x signer b) :
    ∀ u ∈ b.out, u.metadata = none ∨ u.messageKind = .updateKey ∧ u.votes = none := by
  induction h with
  | new => exact fun u hu => absurd hu not_mem_nil
  | step _ hstep ih =>
    obtain ⟨update, hok, -, -, hupdate, -⟩ := hstep.mkUpdate
    obtain ⟨sigs, u, rfl, -, -, -, -, hout, -⟩ := UpdateBuilder.mkUpdate_eq_ok hok
    rw [hout]
    exact forall_mem_concat.2 ⟨ih, hupdate⟩

/-- **A built AUM means the same to a node that receives it**, if that can decode it, exactly
unless it sets metadata to an empty map: then the receiver finds no update in it. -/
theorem received_same_iff (hb : Built C x signer b) (hu : a ∈ b.out)
    (hverify : aumVerify C a s false = .ok ()) (happ : s.applyVerifiedAUM C a = .ok s') :
    (∃ a', D.unserialize (D.serialize a) = some a' ∧ C.hash a' = C.hash a ∧
      a'.staticValidate = .ok () ∧ aumVerify C a' s false = .ok () ∧
      ∃ s'', s.applyVerifiedAUM C a' = .ok s'' ∧ D.serializeState s'' = D.serializeState s') ↔
    a.omitted.Fits ∧ a.metadata ≠ some {} := by
  constructor
  · rintro ⟨a', hdecoded, -, hvalid, -⟩
    obtain ⟨hfits, rfl⟩ := D.unserialize_serialize.1 hdecoded
    refine ⟨hfits, fun hmeta => ?_⟩
    obtain hnone | ⟨hkind, hvotes⟩ := hb.metadata_cases a hu
    · cases hnone.symm.trans hmeta
    · have hfields := (AUM.staticValidate_eq_ok_iff.1 hvalid).2.2.2.2
      simp [AUM.validateFields, AUM.omitted, hkind, hvotes, hmeta, omitEmpty,
        Meta.isEmpty] at hfields
  · rintro ⟨hfits, hmeta⟩
    have hverify' := D.aumVerify_omitted hverify hmeta
    obtain ⟨s'', happ', hsame⟩ := D.apply_omitted happ hmeta
    refine ⟨_, D.unserialize_serialize.2 ⟨hfits, rfl⟩, D.hash_omitted a,
      (aumVerify_eq_ok_iff.1 hverify').1, hverify', s'', happ', ?_⟩
    rw [← D.serializeState_omitted, hsame, D.serializeState_omitted]

/-! A codec that numbers the AUMs. -/

instance countableBitVec (n : Nat) : Countable (BitVec n) :=
  Function.Injective.countable fun _ _ => BitVec.eq_of_toNat_eq

instance countableUInt8 : Countable UInt8 :=
  Function.Injective.countable fun _ _ => UInt8.toBitVec_inj.1

instance countableMeta : Countable Meta :=
  Function.Injective.countable (f := entries) fun m m' h => by
    cases m
    cases m'
    congr

deriving instance Countable for KeyKind, Key, State, AUMKind, Signature, AUM

noncomputable def number {α : Type} [Countable α] (x : α) : Nat := (exists_injective_nat α).choose x

theorem number_injective [Countable α] : Function.Injective (number : α → Nat) :=
  (exists_injective_nat α).choose_spec

noncomputable def numberCrypto : Crypto where
  hash a := BitVec.ofNat 256 (number a.omitted)
  verify _ _ _ := true

open Classical in
noncomputable def numberCodec : AUMCodec numberCrypto where
  serialize a := List.replicate (number a.omitted) 0
  unserialize b :=
    if h : ∃ a : AUM, a.omitted.Fits ∧ number a.omitted = b.length then some h.choose.omitted
    else none
  serializeState s := List.replicate (number s.omitted) 0
  sum256 b := BitVec.ofNat 256 b.length
  hash_eq a := by rw [length_replicate]; rfl
  serialize_omitted a := by rw [AUM.omitted_omitted]
  serializeState_omitted s := by rw [omitted_omitted]
  unserialize_serialize := by
    intro a b
    rw [length_replicate]
    split
    next h =>
      have heq := number_injective h.choose_spec.2
      rw [Option.some.injEq, heq, eq_comm, and_iff_right (heq ▸ h.choose_spec.1)]
    next h =>
      simp only [reduceCtorEq, false_iff, not_and]
      exact fun hfits => absurd ⟨a, hfits, rfl⟩ h

/-- The update that sets the metadata of the key. -/
def metaUpdate (m : Meta) : AUM where
  messageKind := .updateKey
  prevAUMHash := some (hashBytes 0)
  keyID := some (List.replicate 32 7)
  metadata := some m
  signatures := [sampleSignature]

/-- The map from "os" to "linux". -/
def osLinux : Meta where
  entries := [([0x6f, 0x73], [0x6c, 0x69, 0x6e, 0x75, 0x78])]

theorem exists_metaUpdate {m : Meta} (hm : m = {} ∨ m = osLinux) : ∃ b s',
    (sampleBuilder 0).setKeyMeta numberCrypto (List.replicate 32 7) (some m) = .ok b ∧
    metaUpdate m ∈ b.out ∧
    aumVerify numberCrypto (metaUpdate m) (sampleBuilder 0).state false = .ok () ∧
    (sampleBuilder 0).state.applyVerifiedAUM numberCrypto (metaUpdate m) = .ok s' := by
  rcases hm with rfl | rfl
  · exact ⟨_, _, rfl, .head _, by rfl, rfl⟩
  · exact ⟨_, _, rfl, .head _, by rfl, rfl⟩

theorem fits_metaUpdate {m : Meta} (hm : MetaFits (some m)) : (metaUpdate m).omitted.Fits where
  signatures := Nat.le_of_ble_eq_true rfl
  metadata m' (hm' : m' ∈ omitEmpty Meta.isEmpty m) := hm m' (Option.mem_filter_iff.1 hm').1
  key := nofun
  disablementValues := nofun
  keys := nofun

theorem received_same_iff_os : ∃ (b : UpdateBuilder) (a' : AUM),
    metaUpdate osLinux ∈ b.out ∧
    numberCodec.unserialize (numberCodec.serialize (metaUpdate osLinux)) = some a' ∧
    aumVerify numberCrypto a' (sampleBuilder 0).state false = .ok () := by
  obtain ⟨b, s', hok, hmem, hverify, happ⟩ := exists_metaUpdate (.inr rfl)
  have hfits : MetaFits (some osLinux) := by
    rintro m ⟨⟩
    refine ⟨by decide, fun e he => ?_⟩
    obtain rfl := mem_singleton.1 he
    exact ⟨⟨['o', 's'], by decide⟩, ⟨['l', 'i', 'n', 'u', 'x'], by decide⟩⟩
  obtain ⟨a', hdecoded, -, -, hverify', -⟩ := (received_same_iff numberCodec
    (.step .new (.setKeyMeta _ _ hok)) hmem hverify happ).2 ⟨fits_metaUpdate hfits, by decide⟩
  exact ⟨b, a', hmem, hdecoded, hverify'⟩

/-- `SetKeyMeta` with an empty map, which the node itself accepts. -/
theorem received_invalid_of_empty_metadata : ∃ b s' a',
    (sampleBuilder 0).setKeyMeta numberCrypto (List.replicate 32 7) (some {}) = .ok b ∧
    metaUpdate {} ∈ b.out ∧
    aumVerify numberCrypto (metaUpdate {}) (sampleBuilder 0).state false = .ok () ∧
    (sampleBuilder 0).state.applyVerifiedAUM numberCrypto (metaUpdate {}) = .ok s' ∧
    numberCodec.unserialize (numberCodec.serialize (metaUpdate {})) = some a' ∧
    a'.staticValidate = .error .updateKeyWithoutUpdate := by
  obtain ⟨b, s', hok, hmem, hverify, happ⟩ := exists_metaUpdate (.inl rfl)
  have hfits : MetaFits (some {}) := by
    rintro m ⟨⟩
    exact ⟨by decide, fun e he => absurd he not_mem_nil⟩
  exact ⟨b, s', _, hok, hmem, hverify, happ, numberCodec.unserialize_serialize.2
    ⟨fits_metaUpdate hfits, rfl⟩, by decide⟩

end Multiport.Tka

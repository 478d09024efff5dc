import Multiport.Lib.Lists
import Multiport.Tailcfg.Node
import Multiport.Tka.State

/-!
# Node-key signatures

A node-key signature is a direct signature by a trusted key, or a chain of rotation
layers around a direct or credential signature: each rotation layer is signed by the
wrapping key that the nearest layer inside it announces.  `Certified` states this as
rules, and `verifySignature_eq_ok_iff` says that the code checks exactly these rules.

The CBOR decoder, BLAKE2s over the encoding and the two Ed25519 verifiers the code uses
are not part of the repository; `SigCrypto` stands for them.
-/

namespace Multiport.Tka

open Lib Tailcfg List State

/-! ## Signatures -/

inductive SigKind
  | invalid
  | direct
  | rotation
  | credential
  | other (n : {n : UInt8 // 3 < n})
  deriving DecidableEq, Repr

/-- The fields of a `NodeKeySignature` other than `Nested`.  An absent field is empty. -/
structure SigLayer where
  sigKind : SigKind
  pubkey : Bytes := []
  keyID : KeyID := []
  signature : Bytes := []
  wrappingPubkey : Bytes := []
  deriving DecidableEq, Repr

/-- `NodeKeySignature`, without and with a nested one. -/
inductive NodeKeySignature
  | plain (layer : SigLayer)
  | nesting (layer : SigLayer) (nested : NodeKeySignature)
  deriving DecidableEq, Repr

namespace NodeKeySignature

/-- The fields of the outermost signature. -/
def layer : NodeKeySignature → SigLayer
  | plain l => l
  | nesting l _ => l

/-- The fields of the innermost signature. -/
def base : NodeKeySignature → SigLayer
  | plain l => l
  | nesting _ nested => nested.base

/-- A copy without the outermost signature bytes. -/
def unsigned : NodeKeySignature → NodeKeySignature
  | plain l => plain { l with signature := [] }
  | nesting l nested => nesting { l with signature := [] } nested

end NodeKeySignature

/-- The decoder and the cryptography of node-key signatures. -/
structure SigCrypto where
  /-- `Unserialize`. -/
  unserialize : Bytes → Option NodeKeySignature
  /-- BLAKE2s over `Serialize`. -/
  sum256 : NodeKeySignature → BitVec 256
  /-- `ed25519.Verify`. -/
  verify : Bytes → BitVec 256 → Bytes → Bool
  /-- `ed25519consensus.Verify`. -/
  verifyConsensus : Bytes → BitVec 256 → Bytes → Bool

inductive SigError
  | unserialize
  | credentialAlone
  | noKeyID
  | rotationMissingNested
  | unhandledSigKind (kind : SigKind)
  | key (e : KeyError)
  | doesNotAuthorize
  | mustNest
  | missingRotationKey
  | badRotationKeyLength (n : Nat)
  | invalidSignature
  | nestedPubkey
  | nested (e : SigError)
  | cannotNest (kind : SigKind)
  | wrongKeyLength (n : Nat)
  | unhandledKeyKind (kind : KeyKind)
  deriving DecidableEq, Repr

def nodePublicBinaryPrefix : Bytes := [0x6e, 0x70]

/-- `NodePublic.MarshalBinary`. -/
def marshalNodePublic (k : PublicKey) : Bytes := nodePublicBinaryPrefix ++ putBE 32 k

/-- `NodePublic.UnmarshalBinary`. -/
def unmarshalNodePublic (b : Bytes) : Option PublicKey :=
  if nodePublicBinaryPrefix.isPrefixOf b = false then none
  else if b.length ≠ nodePublicBinaryPrefix.length + 32 then none
  else some (getBE 256 (b.drop nodePublicBinaryPrefix.length))

/-! ## Verification -/

variable (S : SigCrypto)

def SigCrypto.sigHash (s : NodeKeySignature) : BitVec 256 := S.sum256 s.unsigned

def wrappingPublic : NodeKeySignature → Option Bytes
  | .plain l => if l.wrappingPubkey ≠ [] then some l.wrappingPubkey else none
  | .nesting l nested =>
    if l.wrappingPubkey ≠ [] then some l.wrappingPubkey
    else if l.sigKind = .rotation then wrappingPublic nested
    else none

/-- The key ID of a direct or credential signature. -/
def ownKeyID (l : SigLayer) : Except SigError KeyID :=
  if l.keyID = [] then .error .noKeyID else .ok l.keyID

def authorizingKeyID : NodeKeySignature → Except SigError KeyID
  | .plain l =>
    match l.sigKind with
    | .direct | .credential => ownKeyID l
    | .rotation => .error .rotationMissingNested
    | kind => .error (.unhandledSigKind kind)
  | .nesting l nested =>
    match l.sigKind with
    | .direct | .credential => ownKeyID l
    | .rotation => authorizingKeyID nested
    | kind => .error (.unhandledSigKind kind)

/-- A signature that is not a credential is for the given node key. -/
def checkNodeKey (l : SigLayer) (nodeKey : PublicKey) : Except SigError Unit :=
  reject (l.sigKind ≠ .credential ∧ marshalNodePublic nodeKey ≠ l.pubkey) .doesNotAuthorize

/-- The signature of a direct or credential signature. -/
def verifyBase (verificationKey : Key) (l : SigLayer) : Except SigError Unit :=
  match verificationKey.kind with
  | .key25519 => do
    reject (verificationKey.publicBytes.length ≠ 32)
      (.wrongKeyLength verificationKey.publicBytes.length)
    reject (S.verifyConsensus verificationKey.publicBytes (S.sigHash (.plain l))
      l.signature = false)
      .invalidSignature
  | kind => .error (.unhandledKeyKind kind)

/-- The signature of a rotation layer, by the wrapping key of the nested signature. -/
def verifyRotation (l : SigLayer) (nested : NodeKeySignature) : Except SigError Unit :=
  match wrappingPublic nested with
  | none => .error .missingRotationKey
  | some verifyPub => do
    reject (verifyPub.length ≠ 32) (.badRotationKeyLength verifyPub.length)
    reject (S.verify verifyPub (S.sigHash (.nesting l nested)) l.signature = false)
      .invalidSignature

/-- The node key a nested signature has to be for; a credential is for none. -/
def nestedNodeKey (l : SigLayer) : Except SigError PublicKey :=
  if l.sigKind = .credential then .ok 0
  else
    match unmarshalNodePublic l.pubkey with
    | none => .error .nestedPubkey
    | some k => .ok k

def verifySignature (verificationKey : Key) : NodeKeySignature → PublicKey → Except SigError Unit
  | .plain l, nodeKey => do
    checkNodeKey l nodeKey
    match l.sigKind with
    | .rotation => .error .mustNest
    | .direct | .credential => verifyBase S verificationKey l
    | kind => .error (.unhandledSigKind kind)
  | .nesting l nested, nodeKey => do
    checkNodeKey l nodeKey
    match l.sigKind with
    | .rotation => do
      verifyRotation S l nested
      let nestedPub ← nestedNodeKey nested.layer
      (verifySignature verificationKey nested nestedPub).mapError .nested
    | .direct | .credential => .error (.cannotNest l.sigKind)
    | kind => .error (.unhandledSigKind kind)

structure RotationDetails where
  prevNodeKeys : List PublicKey := []
  initialSig : Option NodeKeySignature := none
  deriving DecidableEq, Repr

/-- The node key of one nested signature, if it has one. -/
def prevNodeKey (l : SigLayer) : Except SigError (List PublicKey) :=
  if l.pubkey = [] then .ok []
  else
    match unmarshalNodePublic l.pubkey with
    | none => .error .nestedPubkey
    | some k => .ok [k]

/-- The loop of `rotationDetails`, from a nested signature on. -/
def collectRotation : NodeKeySignature → Except SigError RotationDetails
  | .plain l => do
    let prev ← prevNodeKey l
    if l.sigKind ≠ .rotation then return ⟨prev, some (.plain l)⟩ else return ⟨prev, none⟩
  | .nesting l nested => do
    let prev ← prevNodeKey l
    if l.sigKind ≠ .rotation then return ⟨prev, some (.nesting l nested)⟩
    else
      let rest ← collectRotation nested
      return ⟨prev ++ rest.prevNodeKeys, rest.initialSig⟩

def rotationDetails (s : NodeKeySignature) : Except SigError (Option RotationDetails) :=
  if s.layer.sigKind ≠ .rotation then .ok none
  else
    match s with
    | .plain _ => .ok (some {})
    | .nesting _ nested => (collectRotation nested).map some

def nodeKeyAuthorizedWithDetails (state : State) (nodeKey : PublicKey)
    (nodeKeySignature : Bytes) : Except SigError (Option RotationDetails) :=
  match S.unserialize nodeKeySignature with
  | none => .error .unserialize
  | some decoded => do
    reject (decoded.layer.sigKind = .credential) .credentialAlone
    let kID ← authorizingKeyID decoded
    let key ← (state.getKey kID).mapError .key
    verifySignature S key decoded nodeKey
    rotationDetails decoded

def nodeKeyAuthorized (state : State) (nodeKey : PublicKey) (nodeKeySignature : Bytes) :
    Except SigError Unit :=
  (nodeKeyAuthorizedWithDetails S state nodeKey nodeKeySignature).map fun _ => ()

/-! ## What is verified -/

variable {S} {k : Key} {l : SigLayer} {s nested : NodeKeySignature}
  {nodeKey : PublicKey} {w : Bytes}

/-- The wrapping key that the nearest layer of `s` announces, from the outside in. -/
inductive Announces : NodeKeySignature → Bytes → Prop
  | own {s : NodeKeySignature} (some : s.layer.wrappingPubkey ≠ []) :
      Announces s s.layer.wrappingPubkey
  | inner {l : SigLayer} {nested : NodeKeySignature} {w : Bytes} (none : l.wrappingPubkey = [])
      (announced : Announces nested w) : Announces (.nesting l nested) w

/-- The direct or credential signature `l` is by the key `k`, over its own contents. -/
structure SignedBy (S : SigCrypto) (k : Key) (l : SigLayer) : Prop where
  kind : k.kind = .key25519
  length_eq : k.publicBytes.length = 32
  verified : S.verifyConsensus k.publicBytes (S.sigHash (.plain l)) l.signature = true

/-- **A signature that is certified by the key `k`**: rotation layers around one direct or
credential signature by `k`, each layer signed by the wrapping key announced inside it and
around a signature for a node key. -/
inductive Certified (S : SigCrypto) (k : Key) : NodeKeySignature → Prop
  | base {l : SigLayer} (kind : l.sigKind = .direct ∨ l.sigKind = .credential)
      (signed : SignedBy S k l) : Certified S k (.plain l)
  | rotation {l : SigLayer} {nested : NodeKeySignature} {w : Bytes} (kind : l.sigKind = .rotation)
      (announced : Announces nested w) (length_eq : w.length = 32)
      (verified : S.verify w (S.sigHash (.nesting l nested)) l.signature = true)
      (node : nested.layer.sigKind ≠ .credential →
        ∃ nodeKey, nested.layer.pubkey = marshalNodePublic nodeKey)
      (inner : Certified S k nested) : Certified S k (.nesting l nested)

variable {u : Unit}

theorem checkNodeKey_eq_ok_iff : checkNodeKey l nodeKey = .ok u ↔
    (l.sigKind ≠ .credential → l.pubkey = marshalNodePublic nodeKey) := by
  rw [checkNodeKey, reject_eq_ok_iff, not_and, not_not]
  exact forall_congr' fun _ => eq_comm

theorem verifyBase_eq_ok_iff : verifyBase S k l = .ok u ↔ SignedBy S k l := by
  unfold verifyBase
  constructor
  · intro h
    split at h
    next hkind =>
      simp only [bind_eq_ok_iff, reject_eq_ok_iff, exists_const, not_not, Bool.not_eq_false] at h
      exact ⟨hkind, h.1, h.2⟩
    · cases h
  · rintro ⟨hkind, hlen, hverify⟩
    rw [hkind]
    simp [hlen, hverify]

/-- Inside rotation layers, `wrappingPublic` returns what the nearest layer announces. -/
theorem wrappingPublic_eq_some_iff (h : Certified S k s) :
    wrappingPublic s = some w ↔ Announces s w := by
  induction h with
  | @base l =>
    rw [wrappingPublic]
    constructor
    · intro hw
      split at hw
      next hsome =>
        cases hw
        exact Announces.own (s := .plain l) hsome
      · cases hw
    · rintro (hsome | _)
      exact if_pos hsome
  | @rotation l nested _ hkind _ _ _ _ _ ih =>
    rw [wrappingPublic]
    by_cases hsome : l.wrappingPubkey = []
    · rw [if_neg (not_not.2 hsome), if_pos hkind, ih]
      constructor
      · exact .inner hsome
      · rintro (hne | ⟨-, hw⟩)
        · exact absurd hsome hne
        · exact hw
    · rw [if_pos hsome, Option.some.injEq]
      constructor
      · rintro rfl
        exact Announces.own (s := .nesting l nested) hsome
      · rintro (_ | ⟨hnone, -⟩)
        · rfl
        · exact absurd hnone hsome

theorem verifyRotation_eq_ok_iff (h : Certified S k nested) :
    verifyRotation S l nested = .ok u ↔ ∃ w, Announces nested w ∧ w.length = 32 ∧
      S.verify w (S.sigHash (.nesting l nested)) l.signature = true := by
  unfold verifyRotation
  simp only [← wrappingPublic_eq_some_iff h]
  cases wrappingPublic nested with
  | none => simp
  | some w => simp

/-- **`verifySignature` accepts exactly the certified signatures for the node key.** -/
theorem verifySignature_eq_ok_iff : verifySignature S k s nodeKey = .ok u ↔
    (s.layer.sigKind ≠ .credential → s.layer.pubkey = marshalNodePublic nodeKey) ∧
      Certified S k s := by
  induction s generalizing nodeKey u with
  | plain l =>
    unfold verifySignature
    rw [bind_eq_ok_iff]
    simp only [checkNodeKey_eq_ok_iff, exists_const]
    refine and_congr_right fun _ => ?_
    constructor
    · intro h
      split at h
      · cases h
      next hkind => exact .base (.inl hkind) (verifyBase_eq_ok_iff.1 h)
      next hkind => exact .base (.inr hkind) (verifyBase_eq_ok_iff.1 h)
      · cases h
    · rintro ⟨hkind | hkind, hsigned⟩ <;>
        simpa only [hkind] using verifyBase_eq_ok_iff.2 hsigned
  | nesting l nested ih =>
    unfold verifySignature
    rw [bind_eq_ok_iff]
    simp only [checkNodeKey_eq_ok_iff, exists_const]
    refine and_congr_right fun _ => ?_
    constructor
    · intro h
      split at h
      next hkind =>
        obtain ⟨_, hrot, h⟩ := bind_eq_ok_iff.1 h
        obtain ⟨nestedPub, -, h⟩ := bind_eq_ok_iff.1 h
        obtain ⟨hnode, hcert⟩ := ih.1 (mapError_eq_ok_iff.1 h)
        obtain ⟨w, hann, hlen, hverify⟩ := (verifyRotation_eq_ok_iff hcert).1 hrot
        exact .rotation hkind hann hlen hverify (fun hne => ⟨nestedPub, hnode hne⟩) hcert
      all_goals cases h
    · rintro (_ | ⟨hkind, hann, hlen, hverify, hnode, hcert⟩)
      simp only [hkind]
      refine bind_eq_ok_iff.2 ⟨(), (verifyRotation_eq_ok_iff hcert).2
        ⟨_, hann, hlen, hverify⟩, bind_eq_ok_iff.2 ?_⟩
      by_cases hcred : nested.layer.sigKind = .credential
      · exact ⟨0, if_pos hcred, mapError_eq_ok_iff.2 (ih.2 ⟨fun hne => absurd hcred hne, hcert⟩)⟩
      · obtain ⟨nestedPub, hpub⟩ := hnode hcred
        refine ⟨nestedPub, ?_, mapError_eq_ok_iff.2 (ih.2 ⟨fun _ => hpub, hcert⟩)⟩
        have hkey : unmarshalNodePublic (marshalNodePublic nestedPub) = some nestedPub := by
          rw [unmarshalNodePublic]
          simp [marshalNodePublic, getBE_putBE]
        rw [nestedNodeKey, if_neg hcred, hpub, hkey]

/-- In a certified signature the separate traversal for the key ID ends at the same base
as the verification. -/
theorem authorizingKeyID_of_certified (h : Certified S k s) {kID : KeyID}
    (hid : authorizingKeyID s = .ok kID) : kID = s.base.keyID := by
  induction h with
  | @base l hkind _ =>
    have hown : ownKeyID l = .ok kID := by
      rcases hkind with hkind | hkind <;> simpa only [authorizingKeyID, hkind] using hid
    unfold ownKeyID at hown
    split at hown
    · cases hown
    · cases hown
      rfl
  | rotation hkind _ _ _ _ _ ih =>
    rw [authorizingKeyID, hkind] at hid
    exact ih hid

/-- A signature that authorizes a node key in a state. -/
structure Authorizes (S : SigCrypto) (state : State) (nodeKey : PublicKey)
    (s : NodeKeySignature) : Prop where
  not_credential : s.layer.sigKind ≠ .credential
  pubkey : s.layer.pubkey = marshalNodePublic nodeKey
  /-- The base is by a key of the state, the one it names. -/
  certified : ∃ k ∈ state.keys, k.id = .ok s.base.keyID ∧ Certified S k s

theorem authorizes_of_nodeKeyAuthorized {state : State} {sig : Bytes}
    (h : nodeKeyAuthorized S state nodeKey sig = .ok u) :
    ∃ s, S.unserialize sig = some s ∧ Authorizes S state nodeKey s := by
  unfold nodeKeyAuthorized at h
  cases hd : nodeKeyAuthorizedWithDetails S state nodeKey sig with
  | error e =>
    rw [hd] at h
    cases h
  | ok d =>
    unfold nodeKeyAuthorizedWithDetails at hd
    split at hd
    · cases hd
    next s hs =>
      obtain ⟨_, hcred, hd⟩ := bind_eq_ok_iff.1 hd
      obtain ⟨kID, hid, hd⟩ := bind_eq_ok_iff.1 hd
      obtain ⟨k, hk, hd⟩ := bind_eq_ok_iff.1 hd
      obtain ⟨_, hverify, -⟩ := bind_eq_ok_iff.1 hd
      rw [reject_eq_ok_iff] at hcred
      obtain ⟨hpub, hcert⟩ := verifySignature_eq_ok_iff.1 hverify
      obtain ⟨hmem, hkid⟩ := getKey_eq_ok (mapError_eq_ok_iff.1 hk)
      obtain rfl := authorizingKeyID_of_certified hcert hid
      exact ⟨s, hs, hcred, hpub hcred, k, hmem, hkid, hcert⟩

/-- **Node-key signatures are sound**: what is accepted decodes to rotation layers around
one direct or credential signature by a key of the state, each layer signed by the wrapping
key announced inside it, and the outermost one is for the node key.  In a state without
the key of the base, the same bytes are accepted for no node key. -/
theorem nodeKeyAuthorized_sound {state : State} {sig : Bytes} {u : Unit}
    (h : nodeKeyAuthorized S state nodeKey sig = .ok u) :
    ∃ s, S.unserialize sig = some s ∧ Authorizes S state nodeKey s ∧
      ∀ state' : State, (∀ k ∈ state'.keys, k.id ≠ .ok s.base.keyID) →
        ∀ nodeKey' u', nodeKeyAuthorized S state' nodeKey' sig ≠ .ok u' := by
  obtain ⟨s, hs, hauth⟩ := authorizes_of_nodeKeyAuthorized h
  refine ⟨s, hs, hauth, fun state' hkeys nodeKey' u' h' => ?_⟩
  obtain ⟨s', hs', ⟨-, -, k, hk, hid, -⟩⟩ := authorizes_of_nodeKeyAuthorized h'
  cases hs.symm.trans hs'
  exact hkeys k hk hid

/-- A credential by the key of `7`s, rotated once for the node key 5. -/
def rotatedCredential : NodeKeySignature :=
  .nesting { sigKind := .rotation, pubkey := marshalNodePublic 5, signature := [1] }
    (.plain { sigKind := .credential, keyID := replicate 32 7, signature := [2],
              wrappingPubkey := replicate 32 9 })

theorem nodeKeyAuthorized_sound_rotatedCredential :
    ∃ s, some rotatedCredential = some s ∧
      Authorizes ⟨fun _ => some rotatedCredential, fun _ => 0, fun _ _ b => b == [1],
        fun _ _ b => b == [2]⟩ { keys := [{ publicBytes := replicate 32 7 }] } 5 s := by
  have hok : nodeKeyAuthorized ⟨fun _ => some rotatedCredential, fun _ => 0, fun _ _ b => b == [1],
      fun _ _ b => b == [2]⟩ { keys := [{ publicBytes := replicate 32 7 }] } 5 [] = .ok () := by
    decide
  obtain ⟨s, hs, hauth, -⟩ := nodeKeyAuthorized_sound hok
  exact ⟨s, hs, hauth⟩

/-! ## Revocation -/

/-- No trusted key has the ID. -/
def State.Untrusts (s : State) (id : KeyID) : Prop := ∀ k ∈ s.keys, k.id ≠ .ok id

variable {C : Crypto} {state state' state'' : State} {update : AUM} {id : KeyID}

theorem State.Untrusts.apply (h : state.Untrusts id)
    (hu : update.messageKind ≠ .checkpoint ∧ ∀ k ∈ update.key, k.id ≠ .ok id)
    (happ : state.applyVerifiedAUM C update = .ok state') : state'.Untrusts id := by
  cases (applied_of_apply happ).2 with
  | checkpoint hkind => exact absurd hkind hu.1
  | addKey _ hkey => exact forall_mem_concat.2 ⟨h, hu.2 _ hkey⟩
  | updateKey _ hget =>
    intro k hk
    obtain ⟨x, hx, rfl⟩ := mem_map.1 hk
    split
    · exact fun hid => h _ (getKey_eq_ok hget).1 hid
    · exact h x hx
  | removeKey => exact fun k hk => h k (mem_of_mem_eraseIdx hk)
  | other => exact h

theorem State.KeysValid.untrusts_of_removeKey (hvalid : state.KeysValid)
    (hkind : update.messageKind = .removeKey)
    (happ : state.applyVerifiedAUM C update = .ok state') :
    state'.Untrusts (update.keyID.getD []) := by
  intro k hk hid
  cases (applied_of_apply happ).2 with
  | @removeKey x _ hfound =>
    obtain ⟨hget, hxid⟩ := findKey_eq_ok hfound
    obtain ⟨i, hi, hki⟩ := mem_eraseIdx_iff_getElem?.1 hk
    have hpub : ∀ {k' : Key}, k' ∈ state.keys → k'.id = .ok k'.publicBytes := fun hk' =>
      Key.id_of_kind (hvalid.valid _ hk').kind_eq
    have hsame : k.publicBytes = x.2.publicBytes := by
      rw [← hid, hpub (mem_of_getElem? hget), hpub (mem_of_getElem? hki)] at hxid
      exact (Except.ok.inj hxid).symm
    -- two keys with one ID are at one index
    have hlt : i < (state.keys.map Key.publicBytes).length := by
      rw [length_map]
      exact (List.getElem?_eq_some_iff.1 hki).1
    refine hi ((getElem?_inj hlt hvalid.nodup).1 ?_)
    rw [getElem?_map, getElem?_map, hki, hget, Option.map_some, Option.map_some, hsame]
  | checkpoint hkind' | addKey hkind' | updateKey hkind' => rw [hkind] at hkind'; cases hkind'
  | other _ _ _ hne => exact absurd hkind hne

/-- **Removing a key revokes its signatures**: a signature whose base names the key, however
often it was rotated, is rejected from then on, until a checkpoint or an update with the
key comes. -/
theorem not_authorized_of_removeKey (hvalid : state.KeysValid)
    (hkind : update.messageKind = .removeKey)
    (happ : state.applyVerifiedAUM C update = .ok state') {us : List AUM}
    (hus : ∀ u ∈ us, u.messageKind ≠ .checkpoint ∧ ∀ k ∈ u.key, k.id ≠ .ok (update.keyID.getD []))
    (hrun : us.foldlM (applyVerifiedAUM C) state' = .ok state'') {sig : Bytes}
    (hs : S.unserialize sig = some s) (hbase : s.base.keyID = update.keyID.getD []) (u : Unit) :
    nodeKeyAuthorized S state'' nodeKey sig ≠ .ok u := by
  have hremoved := hvalid.untrusts_of_removeKey hkind happ
  have hlater : state''.Untrusts (update.keyID.getD []) := by
    clear happ
    induction us generalizing state' with
    | nil =>
      cases hrun
      exact hremoved
    | cons u us ih =>
      obtain ⟨mid, hstep, hrest⟩ := foldlM_cons_eq_ok.1 hrun
      obtain ⟨hu, hus⟩ := forall_mem_cons.1 hus
      exact ih hus hrest (hremoved.apply hu hstep)
  intro h
  obtain ⟨s', hs', ⟨-, -, k, hk, hid, -⟩⟩ := authorizes_of_nodeKeyAuthorized h
  cases hs.symm.trans hs'
  exact hlater k hk (hbase ▸ hid)

/-- The key of `7`s is removed, and the credential it signed is worth nothing. -/
theorem not_authorized_rotatedCredential :
    nodeKeyAuthorized ⟨fun _ => some rotatedCredential, fun _ => 0, fun _ _ _ => true,
      fun _ _ _ => true⟩ { lastAUMHash := some 1 } 5 [] ≠ .ok () := by
  have hvalid : KeysValid { keys := [{ publicBytes := replicate 32 7 }] } :=
    ⟨forall_mem_singleton.2 ⟨by decide, by decide, by decide, rfl⟩, nodup_singleton _⟩
  have hnoOp : ∀ u ∈ [({ messageKind := .noOp, prevAUMHash := some (hashBytes 1) } : AUM)],
      u.messageKind ≠ .checkpoint ∧ ∀ k ∈ u.key, k.id ≠ .ok (replicate 32 7) := by
    simp
  have hrun : applyVerifiedAUM ⟨fun _ => 1, fun _ _ _ => true⟩
      { keys := [{ publicBytes := replicate 32 7 }] }
      { messageKind := .removeKey, keyID := some (replicate 32 7) } =
      .ok { lastAUMHash := some 1 } := by decide
  exact not_authorized_of_removeKey hvalid rfl hrun hnoOp rfl rfl rfl ()

end Multiport.Tka

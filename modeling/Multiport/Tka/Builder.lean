import Multiport.Tka.Inform

/-!
# Building updates

`UpdateBuilder` makes the updates of a node that holds a signing key: it applies each of
them to its own copy of the state, and puts a checkpoint at the end when the last one is
more than `checkpointEvery` AUMs ago.

It is also the one place where the number of keys is limited when a key is added:
`AUM.StaticValidate` and `applyVerifiedAUM` look at the number only in a checkpoint.
-/

namespace Multiport.Tka

open Lib

inductive BuildError
  | key (e : KeyError)
  | alreadyExists
  | maximumNumberOfKeys
  | readingKey (e : KeyError)
  | signingFailed
  | invalid (e : ValidateError)
  | cannotBeApplied (e : ApplyError)
  | applyingUpdate (e : ApplyError)
  | noLongerApplies
  deriving DecidableEq, Repr

/-- `Signer`: the signatures over a digest, unless signing fails. -/
abbrev Signer := AUMHash → Option (List Signature)

structure UpdateBuilder where
  a : Authority
  signer : Option Signer
  state : State
  parent : AUMHash
  out : List AUM := []

def Authority.newUpdater (a : Authority) (signer : Option Signer) : UpdateBuilder where
  a := a
  signer := signer
  parent := a.headHash
  state := a.state

variable (C : Crypto)

/-- The updates applied one after the other. -/
def State.applyAll (s : State) (updates : List AUM) : Except ApplyError State :=
  updates.foldlM (fun st u => st.applyVerifiedAUM C u) s

namespace UpdateBuilder

variable (b : UpdateBuilder)

/-- The update with the signatures of the builder's signer. -/
def sign (update : AUM) : Except BuildError AUM :=
  match b.signer with
  | none => .ok update
  | some signer =>
    match signer (C.sigHash update) with
    | none => .error .signingFailed
    | some sigs => .ok { update with signatures := update.signatures ++ sigs }

def mkUpdate (update : AUM) : Except BuildError UpdateBuilder := do
  let update ← b.sign C { update with prevAUMHash := some (hashBytes b.parent) }
  update.staticValidate.mapError .invalid
  let state ← (b.state.applyVerifiedAUM C update).mapError .cannotBeApplied
  .ok { b with state := state, parent := C.hash update, out := b.out ++ [update] }

def addKey (key : Key) : Except BuildError UpdateBuilder := do
  let keyID ← key.id.mapError .key
  reject ((b.state.getKey keyID).isOk) .alreadyExists
  reject (maxKeys ≤ b.state.keys.length) .maximumNumberOfKeys
  b.mkUpdate C { messageKind := .addKey, key := some key }

def removeKey (keyID : KeyID) : Except BuildError UpdateBuilder := do
  let _ ← (b.state.getKey keyID).mapError .readingKey
  b.mkUpdate C { messageKind := .removeKey, keyID := some keyID }

def setKeyVote (keyID : KeyID) (votes : Nat) : Except BuildError UpdateBuilder := do
  let _ ← (b.state.getKey keyID).mapError .readingKey
  b.mkUpdate C { messageKind := .updateKey, votes := some votes, keyID := some keyID }

def setKeyMeta (keyID : KeyID) (metadata : Option Meta) : Except BuildError UpdateBuilder := do
  let _ ← (b.state.getKey keyID).mapError .readingKey
  b.mkUpdate C { messageKind := .updateKey, metadata := metadata, keyID := some keyID }

def generateCheckpoint : Except BuildError UpdateBuilder := do
  let state ← (b.a.state.applyAll C b.out).mapError .applyingUpdate
  b.mkUpdate C { messageKind := .checkpoint, state := some { state with lastAUMHash := none } }

/-- How often a checkpoint is generated. -/
def checkpointEvery : Nat := 50

variable {C} {σ : Type} (K : Chonk C σ)

/-- The loop of `Finalize`, which looks for a checkpoint in the last AUMs. -/
def needCheckpoint (s : σ) : Nat → AUMHash → Bool
  | 0, _ => true
  | n + 1, cursor =>
    match K.aum s cursor with
    | none => false
    | some aum =>
      if aum.messageKind = .checkpoint then false
      else
        match aum.parent with
        | none => false
        | some parent => needCheckpoint s n parent

/-- The builder of `Finalize`, with a checkpoint when one is due. -/
def withCheckpoint (s : σ) (b : UpdateBuilder) : Except BuildError UpdateBuilder :=
  if needCheckpoint K s (checkpointEvery - b.out.length) b.a.headHash then
    b.generateCheckpoint C
  else .ok b

def finalize (s : σ) (b : UpdateBuilder) : Except BuildError (List AUM) := do
  let b ← withCheckpoint K s b
  match b.out with
  | [] => .ok []
  | first :: _ => do
    reject (first.parent.getD 0 ≠ b.a.headHash) .noLongerApplies
    .ok b.out

end UpdateBuilder

/-! ## What the builder makes -/

variable {C} {b b' : UpdateBuilder} {update : AUM} {s : State} {updates : List AUM}

/-- Signatures of the lengths that `StaticValidate` asks for. -/
def Signer.WellFormed (signer : Signer) : Prop :=
  ∀ h, ∃ sigs, signer h = some sigs ∧ ∀ x ∈ sigs, x.keyID.length = 32 ∧ x.signature.length = 64

namespace UpdateBuilder

variable (C) in
/-- The builder's state is that of its authority with the updates so far applied. -/
structure Sound (b : UpdateBuilder) : Prop where
  applied : b.a.state.applyAll C b.out = .ok b.state
  last : b.state.lastAUMHash = some b.parent
  chain : Extends C b.a.headHash b.out b.parent
  valid : ∀ u ∈ b.out, u.staticValidate = .ok ()

theorem sound_newUpdater {a : Authority} (h : ∃ h, a.state.lastAUMHash = some h)
    (signer : Option Signer) : (a.newUpdater signer).Sound C where
  applied := rfl
  last := by
    obtain ⟨h, hlast⟩ := h
    simp [Authority.newUpdater, Authority.headHash, hlast]
  chain := .nil
  valid := by simp [Authority.newUpdater]

theorem sign_eq_ok {u : AUM} (h : b.sign C update = .ok u) :
    ∃ sigs, u = { update with signatures := update.signatures ++ sigs } ∧
      ∀ signer ∈ b.signer, signer (C.sigHash update) = some sigs := by
  unfold sign at h
  split at h
  next hb =>
    cases h
    exact ⟨[], by simp, by simp [hb]⟩
  next signer hb =>
    split at h
    · cases h
    next sigs hsigs =>
      cases h
      exact ⟨sigs, rfl, by simp [hb, hsigs]⟩

/-- What `mkUpdate` adds: the update, on top of the ones before it. -/
theorem mkUpdate_eq_ok (h : b.mkUpdate C update = .ok b') : ∃ sigs u,
    u = { update with
      prevAUMHash := some (hashBytes b.parent), signatures := update.signatures ++ sigs } ∧
    u.staticValidate = .ok () ∧ b.state.applyVerifiedAUM C u = .ok b'.state ∧
    b'.a = b.a ∧ b'.parent = C.hash u ∧ b'.out = b.out ++ [u] ∧ b'.signer = b.signer ∧
    ∀ signer ∈ b.signer, signer (C.sigHash u) = some sigs := by
  obtain ⟨u, hsign, h⟩ := bind_eq_ok_iff.1 h
  obtain ⟨_, hvalid, h⟩ := bind_eq_ok_iff.1 h
  obtain ⟨state, happ, h⟩ := bind_eq_ok_iff.1 h
  obtain ⟨sigs, rfl, hsigs⟩ := sign_eq_ok hsign
  cases h
  exact ⟨sigs, _, rfl, mapError_eq_ok_iff.1 hvalid, mapError_eq_ok_iff.1 happ, rfl, rfl, rfl, rfl,
    hsigs⟩

theorem mkUpdate_of_valid {u : AUM} {state : State}
    (hsign : b.sign C { update with prevAUMHash := some (hashBytes b.parent) } = .ok u)
    (hvalid : u.staticValidate = .ok ()) (happ : b.state.applyVerifiedAUM C u = .ok state) :
    b.mkUpdate C update =
      .ok { b with state := state, parent := C.hash u, out := b.out ++ [u] } :=
  bind_eq_ok_iff.2 ⟨u, hsign, bind_eq_ok_iff.2 ⟨(), mapError_eq_ok_iff.2 hvalid,
    bind_eq_ok_iff.2 ⟨state, mapError_eq_ok_iff.2 happ, rfl⟩⟩⟩

/-- **Every update keeps the builder sound.** -/
theorem Sound.mkUpdate (hb : b.Sound C) (h : b.mkUpdate C update = .ok b') : b'.Sound C := by
  obtain ⟨sigs, u, hu, hvalid, happ, ha, hparent, hout, -⟩ := mkUpdate_eq_ok h
  refine ⟨?_, ?_, ?_, ?_⟩
  · rw [ha, hout]
    simpa [State.applyAll] using ⟨b.state, hb.applied, happ⟩
  · rw [hparent]
    exact lastAUMHash_apply happ
  · rw [ha, hparent, hout]
    exact hb.chain.snoc (AUM.parent_of_prevAUMHash (by rw [hu]))
  · rw [hout]
    exact forall_mem_concat.2 ⟨hb.valid, hvalid⟩

theorem exists_sign (hsigner : ∀ signer ∈ b.signer, signer.WellFormed) (update : AUM) :
    ∃ sigs, b.sign C update = .ok { update with signatures := update.signatures ++ sigs } ∧
      ∀ x ∈ sigs, x.keyID.length = 32 ∧ x.signature.length = 64 := by
  unfold sign
  cases hb : b.signer with
  | none => exact ⟨[], by simp⟩
  | some signer =>
    obtain ⟨sigs, hsigs, hlen⟩ := hsigner signer hb (C.sigHash update)
    exact ⟨sigs, by simp [hsigs], hlen⟩

/-- **When a checkpoint can be generated**: exactly when the builder's state passes as the
state of a checkpoint. -/
theorem Sound.generateCheckpoint_iff (hb : b.Sound C)
    (hsigner : ∀ signer ∈ b.signer, signer.WellFormed) :
    (∃ b', b.generateCheckpoint C = .ok b') ↔
      ({ b.state with lastAUMHash := none } : State).staticValidateCheckpoint = .ok () := by
  unfold generateCheckpoint
  rw [hb.applied]
  constructor
  · rintro ⟨b', h⟩
    obtain ⟨state, hstate, h⟩ := bind_eq_ok_iff.1 h
    cases hstate
    obtain ⟨sigs, u, rfl, hvalid, -⟩ := mkUpdate_eq_ok h
    exact (AUM.staticValidate_eq_ok_iff.1 hvalid).2.2.2.1 _ rfl
  · intro hstate
    obtain ⟨sigs, hsign, hsigs⟩ := exists_sign (C := C) hsigner {
      messageKind := .checkpoint
      prevAUMHash := some (hashBytes b.parent)
      state := some { b.state with lastAUMHash := none } }
    generalize hu : ({
      messageKind := .checkpoint
      prevAUMHash := some (hashBytes b.parent)
      state := some { b.state with lastAUMHash := none }
      signatures := [] ++ sigs } : AUM) = u at hsign
    have hvalid : u.staticValidate = .ok () := by
      subst hu
      refine AUM.staticValidate_eq_ok_iff.2 ⟨by simp, by simp, by simpa using hsigs, ?_, rfl⟩
      intro s hs
      cases hs
      exact hstate
    have happ : b.state.applyVerifiedAUM C u = .ok ({ b.state with
        lastAUMHash := none }.cloneForUpdate C u) := by
      subst hu
      exact State.apply_checkpoint (by simp [State.parentMatches, hb.last]) rfl rfl rfl rfl
    exact ⟨_, bind_eq_ok_iff.2 ⟨b.state, rfl, mkUpdate_of_valid hsign hvalid happ⟩⟩

end UpdateBuilder

end Multiport.Tka

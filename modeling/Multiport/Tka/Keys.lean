import Multiport.Tka.Builder
import Multiport.Tka.Converge

/-!
# The keys of an authority

What every state of an authority has in common: valid keys with distinct IDs, at least one
of them, valid disablement values, and the state IDs of the bootstrap checkpoint.  Each
kind of AUM keeps this when it was verified (`State.WellFormed.apply`), so it holds at
every AUM of a tree and in every run.

The limit on the number of keys is not kept: only checkpoints and the update builder look
at it, so an AddKey that arrives by sync can go beyond it.
-/

namespace Multiport.Tka

open Lib Tailcfg List State UpdateBuilder

variable {C : Crypto} {s₀ s s' : State} {u : AUM}

/-- A state of the authority that was bootstrapped with the state `s₀`. -/
structure State.WellFormed (s₀ s : State) : Prop where
  keys : s.KeysValid
  nonempty : 0 < s.keys.length
  disablement : s.DisablementValid
  stateID1 : s.stateID1 = s₀.stateID1
  stateID2 : s.stateID2 = s₀.stateID2

/-! ## One update -/

theorem State.KeysValid.kind_eq (h : s.KeysValid) : ∀ k ∈ s.keys, k.kind = .key25519 :=
  fun k hk => (h.valid k hk).kind_eq

theorem State.KeysValid.notMem_of_getKey (h : s.KeysValid) {id : KeyID}
    (hnew : (s.getKey id).isOk = false) : id ∉ s.keys.map Key.publicBytes := by
  intro hid
  obtain ⟨x, hx⟩ := exists_findKey h.kind_eq hid
  rw [getKey, hx] at hnew
  cases hnew

theorem map_publicBytes_replaceKey {id : KeyID} {k : Key} (hk : k.publicBytes = id)
    (keys : List Key) :
    (replaceKey id k keys).map Key.publicBytes = keys.map Key.publicBytes := by
  rw [replaceKey, map_map]
  refine map_congr_left fun k' _ => ?_
  by_cases h : k'.publicBytes = id
  · simp [h, hk]
  · simp [h]

theorem one_lt_of_removeKey {x : Nat × Key} (hverify : aumVerify C u s false = .ok ())
    (hkind : u.messageKind = .removeKey) (hfound : findKey (u.keyID.getD []) s.keys = .ok x) :
    x.1 < s.keys.length ∧ 1 < s.keys.length := by
  obtain ⟨hget, hid⟩ := findKey_eq_ok hfound
  obtain ⟨hlt, -⟩ := List.getElem?_eq_some_iff.1 hget
  by_contra hle
  obtain ⟨k, hk⟩ := length_eq_one_iff.1 (by omega : s.keys.length = 1)
  have hx : x.1 = 0 := by omega
  rw [hk, hx] at hget
  cases hget
  exact (aumVerify_eq_ok_iff.1 hverify).2.2.2.2 hkind _ hk hid

theorem State.WellFormed.withKeys (h : WellFormed s₀ s) {keys : List Key}
    (hvalid : ∀ k ∈ keys, k.Valid) (hnodup : (keys.map Key.publicBytes).Nodup)
    (hpos : 0 < keys.length) :
    WellFormed s₀ { s.cloneForUpdate C u with keys := keys } :=
  ⟨⟨hvalid, hnodup⟩, hpos, { h.disablement with }, h.stateID1, h.stateID2⟩

/-- **A verified update keeps the state well-formed.** -/
theorem State.WellFormed.apply (h : WellFormed s₀ s)
    (hverify : aumVerify C u s false = .ok ()) (happ : s.applyVerifiedAUM C u = .ok s') :
    WellFormed s₀ s' := by
  obtain ⟨hkey, -, -, hstate, -⟩ :=
    AUM.staticValidate_eq_ok_iff.1 (aumVerify_eq_ok_iff.1 hverify).1
  cases (applied_of_apply happ).2 with
  | @checkpoint st _ hst hid1 hid2 =>
    obtain ⟨-, hdis, hpos, -, hkeys⟩ :=
      staticValidateCheckpoint_eq_ok_iff.1 (hstate st hst)
    exact ⟨⟨hkeys.valid, hkeys.nodup⟩, hpos, { hdis with },
      hid1.trans h.stateID1, hid2.trans h.stateID2⟩
  | @addKey k keyID _ hk hid hnew =>
    have hvalid := hkey k hk
    rw [Key.id_of_kind hvalid.kind_eq] at hid
    cases hid
    refine h.withKeys (forall_mem_concat.2 ⟨h.keys.valid, hvalid⟩) ?_ (by simp)
    rw [map_append]
    exact nodup_append_comm.1 (nodup_cons.2 ⟨h.keys.notMem_of_getKey hnew, h.keys.nodup⟩)
  | @updateKey k _ hk hvalid =>
    obtain ⟨hmem, hid⟩ := getKey_eq_ok hk
    rw [Key.id_of_kind (h.keys.kind_eq k hmem)] at hid
    have hid' : (k.updated u).publicBytes = u.keyID.getD [] := Except.ok.inj hid
    refine h.withKeys ?_ ?_ ?_
    · intro k' hk'
      obtain ⟨k'', hk'', rfl⟩ := mem_map.1 hk'
      split
      · exact hvalid
      · exact h.keys.valid k'' hk''
    · rw [map_publicBytes_replaceKey hid']
      exact h.keys.nodup
    · rw [replaceKey, length_map]
      exact h.nonempty
  | @removeKey x hkind hfound =>
    obtain ⟨hlt, hone⟩ := one_lt_of_removeKey hverify hkind hfound
    refine h.withKeys ?_ ?_ ?_
    · exact fun k hk => h.keys.valid k (mem_of_mem_eraseIdx hk)
    · exact h.keys.nodup.sublist ((eraseIdx_sublist _ _).map _)
    · rw [length_eraseIdx_of_lt hlt]
      omega
  | other => exact h.withKeys h.keys.valid h.keys.nodup h.nonempty

/-! ## The number of keys -/

theorem length_keys_of_addKey (happ : s.applyVerifiedAUM C u = .ok s')
    (hkind : u.messageKind = .addKey) : s'.keys.length = s.keys.length + 1 := by
  cases (applied_of_apply happ).2 with
  | addKey => simp
  | checkpoint h | updateKey h | removeKey h => rw [hkind] at h; cases h
  | other _ h => exact absurd hkind h

theorem length_keys_le_of_apply (hvalid : u.staticValidate = .ok ())
    (happ : s.applyVerifiedAUM C u = .ok s') (hle : s.keys.length ≤ maxKeys)
    (hroom : u.messageKind = .addKey → s.keys.length < maxKeys) : s'.keys.length ≤ maxKeys := by
  cases (applied_of_apply happ).2 with
  | @checkpoint st _ hst _ _ =>
    have hstate := (AUM.staticValidate_eq_ok_iff.1 hvalid).2.2.2.1
    exact (staticValidateCheckpoint_eq_ok_iff.1 (hstate st hst)).2.2.2.1
  | addKey hkind =>
    rw [length_append]
    exact hroom hkind
  | updateKey =>
    rw [replaceKey, length_map]
    exact hle
  | removeKey => exact (length_eraseIdx_le _ _).trans hle
  | other => exact hle

variable {N : Set AUM} {r : AUM}

variable (C) in
/-- No AddKey is applied to a state that has `maxKeys` keys already. -/
def RoomForKeys (N : Set AUM) : Prop :=
  ∀ n p sp, StateAt C N n p sp → ∀ u ∈ N, (forkRule C).Child p u → u.messageKind = .addKey →
    sp.keys.length < maxKeys

/-- **A tree keeps to the limit exactly when each AddKey finds room.** -/
theorem VerifiedTree.length_keys_le_iff (h : VerifiedTree C N r)
    (hroot : ∀ st, StateAt C N 0 r st → st.keys.length ≤ maxKeys) :
    (∀ n u st, StateAt C N n u st → st.keys.length ≤ maxKeys) ↔ RoomForKeys C N := by
  constructor
  · intro hle n p sp hp u hu hchild hkind
    obtain ⟨-, st, happ⟩ := h.verified_child hp hu hchild
    obtain ⟨m, -, hm⟩ := hp.of_apply hu happ
    have := hle m u st hm
    rw [length_keys_of_addKey happ hkind] at this
    exact this
  · intro hroom n u st hu
    refine h.state_induction (P := fun _ st => st.keys.length ≤ maxKeys) hroot ?_ hu
    exact fun hp hle hu hchild hverify happ =>
      length_keys_le_of_apply (aumVerify_eq_ok_iff.1 hverify).1 happ hle
        fun hkind => hroom _ _ _ hp _ hu hchild hkind

/-! ### The builder keeps to the limit -/

variable (C) in
/-- One operation of the builder. -/
inductive BuildStep (b : UpdateBuilder) : UpdateBuilder → Prop
  | addKey {b'} (key : Key) (ok : b.addKey C key = .ok b') : BuildStep b b'
  | removeKey {b'} (keyID : KeyID) (ok : b.removeKey C keyID = .ok b') :
      BuildStep b b'
  | setKeyVote {b'} (keyID : KeyID) (votes : Nat)
      (ok : b.setKeyVote C keyID votes = .ok b') : BuildStep b b'
  | setKeyMeta {b'} (keyID : KeyID) (metadata : Option Meta)
      (ok : b.setKeyMeta C keyID metadata = .ok b') : BuildStep b b'
  | generateCheckpoint {b'} (ok : b.generateCheckpoint C = .ok b') :
      BuildStep b b'

variable (C) in
/-- What can be built on an authority. -/
inductive Built (a : Authority) (signer : Option Signer) : UpdateBuilder → Prop
  | new : Built a signer (a.newUpdater signer)
  | step {b b' : UpdateBuilder} (t : Built a signer b) (h : BuildStep C b b') :
      Built a signer b'

variable {b b' : UpdateBuilder}

/-- Every operation makes one update: an AddKey only when there is room, metadata only in an
UpdateKey of nothing else, and a state only with the builder's keys. -/
theorem BuildStep.mkUpdate (h : BuildStep C b b') : ∃ update, b.mkUpdate C update = .ok b' ∧
    update.signatures = [] ∧ (update.messageKind = .addKey → b.state.keys.length < maxKeys) ∧
    (update.metadata = none ∨ update.messageKind = .updateKey ∧ update.votes = none) ∧
    (b.Sound C → ∀ st ∈ update.state, st.keys = b.state.keys) := by
  cases h with
  | addKey key hok =>
    obtain ⟨_, -, hok⟩ := bind_eq_ok_iff.1 hok
    obtain ⟨_, -, hok⟩ := bind_eq_ok_iff.1 hok
    obtain ⟨_, hroom, hok⟩ := bind_eq_ok_iff.1 hok
    exact ⟨_, hok, rfl, fun _ => not_le.1 (reject_eq_ok_iff.1 hroom), .inl rfl, nofun⟩
  | removeKey _ hok | setKeyVote _ _ hok =>
    obtain ⟨_, -, hok⟩ := bind_eq_ok_iff.1 hok
    exact ⟨_, hok, rfl, nofun, .inl rfl, nofun⟩
  | setKeyMeta _ _ hok =>
    obtain ⟨_, -, hok⟩ := bind_eq_ok_iff.1 hok
    exact ⟨_, hok, rfl, nofun, .inr ⟨rfl, rfl⟩, nofun⟩
  | generateCheckpoint hok =>
    obtain ⟨state, hstate, hok⟩ := bind_eq_ok_iff.1 hok
    refine ⟨_, hok, rfl, nofun, .inl rfl, fun hb st hst => ?_⟩
    cases hst
    rw [← Except.ok.inj (hb.applied.symm.trans (mapError_eq_ok_iff.1 hstate))]

/-- What holds for a builder on a state within the limit. -/
structure UpdateBuilder.WithinLimit (C : Crypto) (a : Authority) (b : UpdateBuilder) : Prop where
  authority : b.a = a
  sound : b.Sound C
  length_keys_le : b.state.keys.length ≤ maxKeys

variable {a : Authority} {signer : Option Signer}

theorem UpdateBuilder.WithinLimit.step (hb : b.WithinLimit C a) (h : BuildStep C b b') :
    b'.WithinLimit C a := by
  obtain ⟨update, hok, -, hroom, -⟩ := h.mkUpdate
  obtain ⟨sigs, u, rfl, hvalid, happ, ha, -⟩ := mkUpdate_eq_ok hok
  exact ⟨ha.trans hb.authority, hb.sound.mkUpdate hok,
    length_keys_le_of_apply hvalid happ hb.length_keys_le hroom⟩

/-- **What is built on a state within the limit stays within it.** -/
theorem Built.withinLimit (h : Built C a signer b) (hlast : ∃ h, a.state.lastAUMHash = some h)
    (hle : a.state.keys.length ≤ maxKeys) : b.WithinLimit C a := by
  induction h with
  | new => exact ⟨rfl, sound_newUpdater hlast signer, hle⟩
  | step _ hstep ih => exact ih.step hstep

variable {σ : Type} {K : Chonk C σ} {g : AUM} {us : List AUM} {t : σ} {updates : List AUM}

theorem UpdateBuilder.finalize_eq_ok (h : b.finalize K t = .ok updates) :
    ∃ b', withCheckpoint K t b = .ok b' ∧ b'.out = updates := by
  obtain ⟨b', hb', h⟩ := bind_eq_ok_iff.1 h
  refine ⟨b', hb', ?_⟩
  split at h
  next hout =>
    cases h
    exact hout
  next =>
    obtain ⟨_, -, h⟩ := bind_eq_ok_iff.1 h
    exact Except.ok.inj h

/-- **What `Finalize` returns** is a chain of valid updates from the authority's head, which
can be applied to its state and end within the limit. -/
theorem Built.finalize_extends (h : Built C a signer b) (hlast : ∃ h, a.state.lastAUMHash = some h)
    (hle : a.state.keys.length ≤ maxKeys) (hok : b.finalize K t = .ok updates) :
    (∃ h, Extends C a.headHash updates h) ∧ (∀ u ∈ updates, u.staticValidate = .ok ()) ∧
      ∃ st, a.state.applyAll C updates = .ok st ∧ st.keys.length ≤ maxKeys := by
  obtain ⟨b', hb', rfl⟩ := finalize_eq_ok hok
  have hlimit : b'.WithinLimit C a := by
    unfold withCheckpoint at hb'
    split at hb'
    · exact (h.withinLimit hlast hle).step (.generateCheckpoint hb')
    · cases hb'
      exact h.withinLimit hlast hle
  obtain ⟨rfl, hsound, hlen⟩ := hlimit
  exact ⟨⟨_, hsound.chain⟩, hsound.valid, _, hsound.applied, hlen⟩

theorem finalize_extends_setKeyVote : ∃ updates st, updates.length = 1 ∧
    (sampleAuthority (sampleCheckpoint none 1) 1).state.applyAll sampleCrypto updates = .ok st := by
  have hnew : Built sampleCrypto (sampleAuthority (sampleCheckpoint none 1) 1) none _ := .new
  have hbuilt := hnew.step (.setKeyVote (List.replicate 32 7) 2 rfl)
  obtain ⟨-, -, st, hst, -⟩ := hbuilt.finalize_extends (K := Mem.chonk sampleCrypto) (t := {})
    ⟨_, rfl⟩ (by decide) rfl
  exact ⟨_, st, rfl, hst⟩

/-! ## Runs -/

theorem Run.genesis (h : Run K g us t a) : g.messageKind = .checkpoint ∧
    ∃ state, g.state = some state ∧ aumVerify C g state true = .ok () := by
  induction h with
  | bootstrap now hs hempty a hok =>
    obtain ⟨hkind, hstate, -⟩ := bootstrap_cases hs hempty hok
    exact ⟨hkind, hstate⟩
  | inform _ _ _ _ _ ih => exact ih

theorem wellFormed_of_checkpoint (hkind : g.messageKind = .checkpoint)
    (hstate : g.state = some s₀) (hverify : aumVerify C g s₀ true = .ok ())
    (h : StateAt C N 0 g s) : WellFormed s₀ s ∧ s.keys.length ≤ maxKeys := by
  have hvalid := (AUM.staticValidate_eq_ok_iff.1 (aumVerify_eq_ok_iff.1 hverify).1).2.2.2.1
  obtain ⟨-, hdis, hpos, hle, hkeys⟩ :=
    staticValidateCheckpoint_eq_ok_iff.1 (hvalid s₀ hstate)
  cases h with
  | base _ _ heq =>
    rw [baseState, if_pos hkind, hstate] at heq
    cases heq
    exact ⟨⟨⟨hkeys.valid, hkeys.nodup⟩, hpos, { hdis with },
      rfl, rfl⟩, hle⟩

/-- A well-formed state makes a checkpoint exactly when it keeps to the limit. -/
theorem State.WellFormed.generateCheckpoint_iff (h : WellFormed s₀ a.state)
    (hlast : ∃ h, a.state.lastAUMHash = some h) (hsigner : ∀ x ∈ signer, x.WellFormed) :
    (∃ b, (a.newUpdater signer).generateCheckpoint C = .ok b) ↔
      a.state.keys.length ≤ maxKeys := by
  rw [(sound_newUpdater hlast signer).generateCheckpoint_iff hsigner,
    staticValidateCheckpoint_eq_ok_iff]
  constructor
  · exact fun hcheck => hcheck.2.2.2.1
  · exact fun hle => ⟨rfl, { h.disablement with }, h.nonempty, hle, h.keys.valid, h.keys.nodup⟩

/-- **The states an authority can reach**: in every run, the authority's state is the state
at its head; the state at every AUM has valid keys with distinct IDs, at least one key, valid
disablement values and the state IDs of the bootstrap checkpoint; and these states have at
most `maxKeys` keys, and a checkpoint can be built from each of them, exactly when no AddKey
was taken in on top of a state with `maxKeys` keys. -/
theorem run_states_wellFormed_iff (h : Run K g us t a)
    (hinj : Set.InjOn C.hash ({g} ∪ {u | u ∈ us}))
    (hroot : (forkRule C).Oldest ({g} ∪ {u | u ∈ us}) g) (hg : g.state = some s₀)
    (hsigner : ∀ x ∈ signer, x.WellFormed) :
    (∃ n, StateAt C (K.stored t) n a.head a.state) ∧
    (∀ n u st, StateAt C (K.stored t) n u st → WellFormed s₀ st) ∧
    ((∀ n u st, StateAt C (K.stored t) n u st → st.keys.length ≤ maxKeys ∧
        ∃ b, (Authority.newUpdater ⟨u, g, st⟩ signer).generateCheckpoint C = .ok b) ↔
      RoomForKeys C (K.stored t)) := by
  obtain ⟨rfl, hcur, -, hstored, -⟩ := h.current hinj hroot
  rw [← hstored] at hcur
  obtain ⟨hkind, state, hstate, hverify⟩ := h.genesis
  cases hg.symm.trans hstate
  have hbase : ∀ st, StateAt C (K.stored t) 0 a.oldestAncestor st →
      WellFormed s₀ st ∧ st.keys.length ≤ maxKeys :=
    fun st => wellFormed_of_checkpoint hkind hg hverify
  have hwf : ∀ n u st, StateAt C (K.stored t) n u st → WellFormed s₀ st :=
    fun n u st hu => hcur.tree.state_induction (P := fun _ st => WellFormed s₀ st)
      (fun st hst => (hbase st hst).1) (fun _ hp _ _ hverify happ => hp.apply hverify happ) hu
  refine ⟨hcur.stateAt, hwf, ?_⟩
  rw [← hcur.tree.length_keys_le_iff fun st hst => (hbase st hst).2]
  refine forall_congr' fun n => forall_congr' fun u => forall_congr' fun st =>
    forall_congr' fun hst => ?_
  have hcheck := (show WellFormed s₀ (Authority.mk u a.oldestAncestor st).state from
    hwf n u st hst).generateCheckpoint_iff (C := C) ⟨_, hst.lastAUMHash⟩ hsigner
  rw [hcheck]
  exact and_self_iff

theorem run_states_wellFormed_sample : ∃ t a,
    Run (Mem.chonk sampleCrypto) (sampleCheckpoint none 1) ([] ++ [sampleNoOp 0x1 3]) t a ∧
      a.head = sampleNoOp 0x1 3 ∧ WellFormed (sampleState 1) a.state := by
  have h₁ := run_sample.inform 1 [sampleNoOp 0x1 3] (sampleAuthority (sampleNoOp 0x1 3) 0x13)
    (by decide)
  obtain ⟨⟨n, hn⟩, hwf, -⟩ := run_states_wellFormed_iff h₁
    (Crypto.CollisionFree.injOn_cons (by decide)) (oldest_of_parent_none rfl) rfl
    (by simp : ∀ x ∈ (none : Option Signer), x.WellFormed)
  exact ⟨_, _, h₁, rfl, hwf n _ _ hn⟩

/-- A builder for the sample checkpoint with the digest `h`, which signs with the one key. -/
def sampleBuilder (h : AUMHash) : UpdateBuilder :=
  (sampleAuthority (sampleCheckpoint none 1) h).newUpdater (some fun _ => some [sampleSignature])

/-! ### One key too many -/

def numberedKey (i : Nat) : Key where
  publicBytes := hashBytes (BitVec.ofNat 256 i)

variable (n : Nat)

/-- A state with `n` keys. -/
def numberedState : State :=
  { sampleState 1 with keys := (List.range n).map numberedKey }

def firstSignature : Signature := ⟨hashBytes 0, List.replicate 64 0⟩

/-- A checkpoint with `n` keys. -/
def numberedCheckpoint : AUM where
  messageKind := .checkpoint
  state := some (numberedState n)
  signatures := [firstSignature]

/-- One key more, signed by the first of them. -/
def oneMoreKey : AUM where
  messageKind := .addKey
  prevAUMHash := some (hashBytes 1)
  key := some (numberedKey n)
  signatures := [firstSignature]

theorem hash_numberedCheckpoint : sampleCrypto.hash (numberedCheckpoint n) = 1 := rfl

theorem hash_oneMoreKey : sampleCrypto.hash (oneMoreKey n) = 16 := rfl

theorem parent_oneMoreKey : (oneMoreKey n).parent = some 1 :=
  AUM.parent_of_prevAUMHash rfl

theorem numberedKey_valid (i : Nat) : (numberedKey i).Valid where
  votes_pos := one_pos
  votes_le := Nat.le_of_ble_eq_true rfl
  metaBytes_le := Nat.zero_le _
  kind_eq := rfl

theorem publicBytes_numberedKey_inj {i j : Nat} (hi : i ≤ maxKeys) (hj : j ≤ maxKeys)
    (h : (numberedKey i).publicBytes = (numberedKey j).publicBytes) : i = j := by
  have hmax : maxKeys < 2 ^ 256 := by decide
  have heq := congrArg (copyHash 0) h
  rw [numberedKey, numberedKey, copyHash_hashBytes, copyHash_hashBytes] at heq
  have := congrArg BitVec.toNat heq
  rwa [BitVec.toNat_ofNat, BitVec.toNat_ofNat, Nat.mod_eq_of_lt (Nat.lt_of_le_of_lt hi hmax),
    Nat.mod_eq_of_lt (Nat.lt_of_le_of_lt hj hmax)] at this

variable {n : Nat}

theorem keysValid_numberedState (hn : n ≤ maxKeys) : (numberedState n).KeysValid where
  valid := by
    intro k hk
    obtain ⟨i, -, rfl⟩ := mem_map.1 hk
    exact numberedKey_valid i
  nodup := by
    rw [numberedState, map_map]
    refine nodup_range.map_on fun i hi j hj h => ?_
    exact publicBytes_numberedKey_inj ((mem_range.1 hi).le.trans hn)
      ((mem_range.1 hj).le.trans hn) h

theorem getKey_numberedState (hn : 0 < n) (hs : s.keys = (numberedState n).keys) :
    s.getKey firstSignature.keyID = .ok (numberedKey 0) := by
  obtain ⟨m, rfl⟩ := Nat.exists_eq_succ_of_ne_zero hn.ne'
  rw [getKey, hs, numberedState, range_succ_eq_map]
  rfl

theorem staticValidateCheckpoint_numberedState (hn : 0 < n) (hle : n ≤ maxKeys) :
    (numberedState n).staticValidateCheckpoint = .ok () := by
  refine staticValidateCheckpoint_eq_ok_iff.2
    ⟨rfl, ⟨?_, ?_, ?_, ?_⟩, ?_, ?_, keysValid_numberedState hle⟩
  · exact one_pos
  · exact Nat.le_of_ble_eq_true rfl
  · exact (by decide : ∀ d ∈ (sampleState 1).disablementValues, d.length = disablementLength)
  · exact (by decide : (sampleState 1).disablementValues.Nodup)
  · simpa [numberedState] using hn
  · simpa [numberedState] using hle

theorem signed_numberedState (hn : 0 < n) (hs : s.keys = (numberedState n).keys)
    (hu : u.signatures = [firstSignature]) :
    ∀ sig ∈ u.signatures, ∃ k, s.getKey sig.keyID = .ok k ∧ k.kind = .key25519 ∧
      k.publicBytes.length = 32 ∧
      sampleCrypto.verify k.publicBytes (sampleCrypto.sigHash u) sig.signature = true := by
  intro sig hsig
  rw [hu, mem_singleton] at hsig
  rw [hsig]
  exact ⟨_, getKey_numberedState hn hs, rfl, length_hashBytes _, rfl⟩

theorem length_firstSignature (hu : u.signatures = [firstSignature]) :
    ∀ x ∈ u.signatures, x.keyID.length = 32 ∧ x.signature.length = 64 := by
  intro x hx
  rw [hu, mem_singleton] at hx
  rw [hx]
  exact ⟨length_hashBytes _, length_replicate⟩

theorem aumVerify_numberedCheckpoint (hn : 0 < n) (hle : n ≤ maxKeys) :
    aumVerify sampleCrypto (numberedCheckpoint n) (numberedState n) true = .ok () := by
  refine aumVerify_eq_ok_iff.2 ⟨AUM.staticValidate_eq_ok_iff.2 ⟨by simp [numberedCheckpoint],
    by simp [numberedCheckpoint], length_firstSignature rfl, ?_, rfl⟩, by simp,
    by simp [numberedCheckpoint], signed_numberedState hn rfl rfl, by simp [numberedCheckpoint]⟩
  intro s hs
  cases hs
  exact staticValidateCheckpoint_numberedState hn hle

theorem aumVerify_oneMoreKey (hn : 0 < n) : aumVerify sampleCrypto (oneMoreKey n)
      ((numberedState n).cloneForUpdate sampleCrypto (numberedCheckpoint n)) false = .ok () := by
  refine aumVerify_eq_ok_iff.2 ⟨AUM.staticValidate_eq_ok_iff.2 ⟨?_, by simp [oneMoreKey],
    length_firstSignature rfl, by simp [oneMoreKey], rfl⟩, fun _ => ?_, by simp [oneMoreKey],
    signed_numberedState hn rfl rfl, by simp [oneMoreKey]⟩
  · intro k hk
    cases hk
    exact numberedKey_valid n
  · simp [checkParent, parent_oneMoreKey, cloneForUpdate, hash_numberedCheckpoint]

theorem apply_oneMoreKey (hle : n ≤ maxKeys) :
    ((numberedState n).cloneForUpdate sampleCrypto (numberedCheckpoint n)).applyVerifiedAUM
      sampleCrypto (oneMoreKey n) = .ok { (numberedState n).cloneForUpdate sampleCrypto
        (oneMoreKey n) with keys := (numberedState n).keys ++ [numberedKey n] } := by
  refine apply_addKey ?_ rfl rfl rfl ?_
  · simp [parentMatches, cloneForUpdate, hash_numberedCheckpoint, oneMoreKey]
  · -- the key is not one of the first `n`
    cases h : getKey _ (numberedKey n).publicBytes with
    | error e => rfl
    | ok k =>
      obtain ⟨hk, hid⟩ := getKey_eq_ok h
      obtain ⟨i, hi, rfl⟩ := mem_map.1 hk
      have := publicBytes_numberedKey_inj ((mem_range.1 hi).le.trans hle) hle (Except.ok.inj hid)
      exact absurd (mem_range.1 hi) (this ▸ lt_irrefl _)

/-- **One key too many**: an AddKey on a state with `maxKeys` keys is taken in, and from the
state it leads to no checkpoint can be built. -/
theorem run_beyond_maxKeys : ∃ t a,
    Run (Mem.chonk sampleCrypto) (numberedCheckpoint maxKeys) ([] ++ [oneMoreKey maxKeys]) t a ∧
      (numberedCheckpoint maxKeys).parent = none ∧
      sampleCrypto.hash (numberedCheckpoint maxKeys) ≠ sampleCrypto.hash (oneMoreKey maxKeys) ∧
      a.state.keys.length = maxKeys + 1 ∧
      ∀ b, (a.newUpdater none).generateCheckpoint sampleCrypto ≠ .ok b := by
  have hpos : 0 < maxKeys := by decide
  generalize hn : maxKeys = n at hpos ⊢
  have hle : n ≤ maxKeys := hn.ge
  have hne : sampleCrypto.hash (numberedCheckpoint n) ≠ sampleCrypto.hash (oneMoreKey n) := by
    rw [hash_numberedCheckpoint, hash_oneMoreKey]
    decide
  have h₀ := Run.bootstrap 0 (Mem.consistent_empty sampleCrypto) (Mem.stored_empty sampleCrypto) _
    (bootstrap_ok (K := Mem.chonk sampleCrypto) (Mem.consistent_empty sampleCrypto)
      (Mem.stored_empty sampleCrypto) rfl rfl (aumVerify_numberedCheckpoint hpos hle)
      (oldest_of_parent_none rfl) 0)
  obtain ⟨-, hcur, hs, hstored, -⟩ := h₀.current (by simp) (oldest_of_parent_none rfl)
  rw [← hstored] at hcur
  have hnew : ∀ b ∈ ({numberedCheckpoint n} ∪ {u | u ∈ []} : Set AUM),
      sampleCrypto.hash b ≠ sampleCrypto.hash (oneMoreKey n) := by
    rintro b (rfl | hb)
    · exact hne
    · cases hb
  have h₁ := h₀.inform 1 [oneMoreKey n] _
    (hcur.inform_push hs (hstored ▸ hnew) (aumVerify_oneMoreKey hpos) (apply_oneMoreKey hle) 1)
  refine ⟨_, _, h₁, rfl, hne, by simp [numberedState], fun b hb => ?_⟩
  have hcheck := ((sound_newUpdater ⟨_, rfl⟩ none).generateCheckpoint_iff
    (by simp [Authority.newUpdater])).1 ⟨b, hb⟩
  have := (staticValidateCheckpoint_eq_ok_iff.1 hcheck).2.2.2.1
  simp [Authority.newUpdater, numberedState, hn] at this

end Multiport.Tka

import Multiport.Tka.Keys

/-!
# Built updates are taken in

`UpdateBuilder` predicts with its own copy of the state what `Inform` will do with its updates:
it validates and applies them, and leaves signatures and the last key to `aumVerify`.
`Accepted` is the prediction as an invariant of the builder.  It holds as long as the builder
keeps the key of its signer, so that what `Finalize` returns is taken in, and its last update
becomes the head (`finalize_informs`).
-/

namespace Multiport.Tka

open Lib Tailcfg List UpdateBuilder State

variable {C : Crypto} {σ : Type} {K : Chonk C σ} {s : σ} {s₀ st st' : State} {a : Authority}
  {signer : Signer} {w : KeyID} {b b' : UpdateBuilder} {u : AUM} {updates : List AUM} {now : Time}

variable (C) in
/-- A signer with the key `w`. -/
def Signer.Signs (signer : Signer) (w : KeyID) : Prop :=
  ∀ {h sigs}, signer h = some sigs →
    sigs ≠ [] ∧ ∀ x ∈ sigs, x.keyID = w ∧ C.verify w h x.signature = true

/-- A state of the authority in which the key `w` is trusted. -/
structure State.Trusts (s₀ st : State) (w : KeyID) : Prop where
  wellFormed : WellFormed s₀ st
  mem : w ∈ st.keys.map Key.publicBytes

namespace State.Trusts

/-- **What the key signs is verified**, unless it removes the key itself. -/
theorem verify (h : Trusts s₀ st w) (hvalid : u.staticValidate = .ok ())
    (hparent : checkParent u st = .ok ()) (hsigned : u.signatures ≠ [])
    (hsigs : ∀ x ∈ u.signatures, x.keyID = w ∧ C.verify w (C.sigHash u) x.signature = true)
    (hkeep : u.messageKind = .removeKey → u.keyID.getD [] ≠ w) :
    aumVerify C u st false = .ok () := by
  have hkind := h.wellFormed.keys.kind_eq
  have hid : ∀ k ∈ st.keys, k.id = .ok k.publicBytes := fun k hk => Key.id_of_kind (hkind k hk)
  refine aumVerify_eq_ok_iff.2 ⟨hvalid, fun _ => hparent, hsigned, fun x hx => ?_, ?_⟩
  · obtain ⟨y, hy⟩ := exists_findKey hkind h.mem
    obtain ⟨hget, hyid⟩ := findKey_eq_ok hy
    have hmem := mem_of_getElem? hget
    rw [hid y.2 hmem] at hyid
    obtain ⟨hxw, hverify⟩ := hsigs x hx
    have hlen := ((AUM.staticValidate_eq_ok_iff.1 hvalid).2.2.1 x hx).1
    cases hyid
    refine ⟨y.2, ?_, hkind y.2 hmem, hxw ▸ hlen, hverify⟩
    rw [hxw, getKey, hy]
    rfl
  · intro hremove k hks hk
    have hw := h.mem
    rw [hks, map_singleton, mem_singleton] at hw
    rw [hid k (by simp [hks]), ← hw] at hk
    exact hkeep hremove (Except.ok.inj hk).symm

theorem apply (h : Trusts s₀ st w) (hverify : aumVerify C u st false = .ok ())
    (happ : st.applyVerifiedAUM C u = .ok st')
    (hkeep : u.messageKind = .removeKey → u.keyID.getD [] ≠ w)
    (hstate : ∀ x ∈ u.state, x.keys = st.keys) : Trusts s₀ st' w := by
  refine ⟨h.wellFormed.apply hverify happ, ?_⟩
  have hw := h.mem
  cases (applied_of_apply happ).2 with
  | checkpoint _ hst => exact (hstate _ hst).symm ▸ hw
  | addKey =>
    rw [map_append]
    exact mem_append_left _ hw
  | @updateKey k _ hk =>
    obtain ⟨hmem, hid⟩ := getKey_eq_ok hk
    rw [Key.id_of_kind (h.wellFormed.keys.kind_eq k hmem)] at hid
    rwa [map_publicBytes_replaceKey (show (k.updated u).publicBytes = _ from Except.ok.inj hid)]
  | @removeKey x hkind hfound =>
    obtain ⟨hget, hid⟩ := findKey_eq_ok hfound
    rw [Key.id_of_kind (h.wellFormed.keys.kind_eq _ (mem_of_getElem? hget))] at hid
    obtain ⟨k, hk, rfl⟩ := mem_map.1 hw
    obtain ⟨i, hi⟩ := List.getElem?_of_mem hk
    refine mem_map_of_mem (mem_eraseIdx_iff_getElem?.2 ⟨i, ?_, hi⟩)
    rintro rfl
    cases hi.symm.trans hget
    exact hkeep hkind (Except.ok.inj hid).symm
  | other => exact hw

end State.Trusts

/-! ## The prediction of the builder -/

variable (K s s₀ w a signer) in
/-- `Inform` would take in what is built so far, and get to the builder's state. -/
structure Accepted (b : UpdateBuilder) : Prop where
  authority : b.a = a
  signs : b.signer = some signer
  sound : b.Sound C
  trusts : Trusts s₀ b.state w
  current : Current C (K.stored s ∪ {v | v ∈ b.out})
    ⟨b.out.getLast?.getD a.head, a.oldestAncestor, b.state⟩
  loop : ∃ st, b.out.foldlM (informStep K s) a.progress = .ok st ∧ st.isHeadChain = true ∧
    st.prevHash = b.parent ∧ st.stateAt.lookup b.parent = some b.state
  up : Steps ((forkRule C).Up (K.stored s ∪ {v | v ∈ b.out})) b.out.length
    (b.out.getLast?.getD a.head) a.head

/-- **One operation.** -/
theorem Accepted.step (hs : K.Consistent s) (hsigns : signer.Signs C w)
    (h : Accepted K s s₀ a signer w b) (hstep : BuildStep C b b')
    (hkeep : ∀ u ∈ b'.out, u.messageKind = .removeKey → u.keyID.getD [] ≠ w)
    (hinj : Set.InjOn C.hash (K.stored s ∪ {v | v ∈ b'.out}))
    (hroot : (forkRule C).Oldest (K.stored s ∪ {v | v ∈ b'.out}) a.oldestAncestor) :
    Accepted K s s₀ a signer w b' := by
  obtain ⟨update, hok, hnil, -, -, hstate⟩ := hstep.mkUpdate
  have hsound := h.sound.mkUpdate hok
  obtain ⟨sigs, u, hu, hvalid, happ, ha, hparent, hout, hsigner, hsigs⟩ :=
    mkUpdate_eq_ok hok
  have hunion := union_mem_concat (K.stored s) b.out u
  rw [← hout] at hunion
  have hparent' : u.parent = some b.parent := AUM.parent_of_prevAUMHash (by rw [hu])
  have hcheck : checkParent u b.state = .ok () := by
    rw [checkParent, hparent', h.sound.last]
    exact reject_eq_ok_iff.2 (not_not.2 rfl)
  have hsigs' : u.signatures = sigs := by rw [hu, hnil, nil_append]
  have hsigned := hsigns (hsigs signer h.signs)
  rw [← hsigs'] at hsigned
  have hmem : u ∈ b'.out := by simp [hout]
  have hverify := h.trusts.verify hvalid hcheck hsigned.1 hsigned.2 (hkeep u hmem)
  obtain ⟨n, hn⟩ := h.current.stateAt
  have hup := (hn.mono (Set.subset_insert u _)).up_of_apply happ
  have hnone : K.aum s (C.hash u) = none := by
    refine (Chonk.aum_eq_none_iff hs).2 fun v hv heq => ?_
    obtain rfl := hinj (.inl hv) (.inr hmem) heq
    exact h.current.tip v (.inl hv) hup.2
  obtain ⟨p, hloop, hchain, hprev, hlookup⟩ := h.loop
  have hround := informStep_eq_ok_iff.2 (.inr ⟨hnone, _, _, _, hparent',
    (by rw [stateAtParent, hlookup]), hverify, happ, rfl⟩)
  have hloop' : b'.out.foldlM (informStep K s) a.progress = informStep K s p u := by
    rw [hout, foldlM_append, hloop]
    exact bind_pure (m := Except Error) _
  have hlast : b'.out.getLast?.getD a.head = u := by rw [hout, List.getLast?_concat]; rfl
  rw [hunion] at hinj hroot
  refine ⟨ha.trans h.authority, hsigner.trans h.signs, hsound,
    h.trusts.apply hverify happ (hkeep u hmem) fun x hx => hstate h.sound x (by rwa [hu] at hx),
    ?_, ⟨_, hloop'.trans hround, by simp [hchain, hprev], hparent.symm, ?_⟩, ?_⟩
  · rw [hunion, hlast]
    exact h.current.push hinj hroot hverify happ
  · rw [hparent, GoMap.lookup_insert_eq, if_pos rfl]
  · rw [hunion, hlast, hout, length_append]
    exact .succ hup (Linked.steps_up_mono (Set.subset_insert u _) h.up)

theorem Built.accepted (hs : K.Consistent s) (hcur : Current C (K.stored s) a)
    (htrusts : Trusts s₀ a.state w) (hsigns : signer.Signs C w) (h : Built C a (some signer) b)
    (hkeep : ∀ u ∈ b.out, u.messageKind = .removeKey → u.keyID.getD [] ≠ w)
    (hinj : Set.InjOn C.hash (K.stored s ∪ {v | v ∈ b.out}))
    (hroot : (forkRule C).Oldest (K.stored s ∪ {v | v ∈ b.out}) a.oldestAncestor) :
    Accepted K s s₀ a signer w b := by
  induction h with
  | new =>
    obtain ⟨n, hn⟩ := hcur.stateAt
    have hnil : K.stored s ∪ {v | v ∈ (a.newUpdater (some signer)).out} = K.stored s := by
      simp [Authority.newUpdater]
    refine ⟨rfl, rfl, sound_newUpdater ⟨_, hn.lastAUMHash⟩ _, htrusts, ?_,
      ⟨a.progress, rfl, rfl, rfl, a.lookup_progress⟩, .zero _⟩
    rw [hnil]
    exact hcur
  | step _ hstep ih =>
    obtain ⟨update, hok, -⟩ := hstep.mkUpdate
    obtain ⟨sigs, u, -, -, -, -, -, hout, -⟩ := mkUpdate_eq_ok hok
    have hsub : ∀ v ∈ _, v ∈ _ := fun v hv => hout ▸ mem_append_left [u] hv
    have hsub' := Set.union_subset_union_right (K.stored s) hsub
    exact (ih (fun v hv => hkeep v (hsub v hv)) (hinj.mono hsub')
      fun p hp => hroot p (hp.mono hsub')).step hs hsigns hstep hkeep hinj hroot

/-! ## What `Finalize` returns -/

/-- A stored checkpoint that the loop of `Finalize` does not miss is near. -/
theorem near_of_needCheckpoint {n j : Nat} {c : AUM} (hu : u ∈ K.stored s)
    (hup : Steps ((forkRule C).Up (K.stored s)) j u c) (hc : c.messageKind = .checkpoint)
    (h : needCheckpoint K s n (C.hash u) = false) : ∃ i < n, ∃ c,
      Steps ((forkRule C).Up (K.stored s)) i u c ∧ c.messageKind = .checkpoint := by
  induction n generalizing u j with
  | zero => cases h
  | succ n ih =>
    by_cases hkind : u.messageKind = .checkpoint
    · exact ⟨0, n.succ_pos, u, .zero u, hkind⟩
    cases hup with
    | zero => exact absurd hc hkind
    | @succ _ _ p _ hp hrest =>
      have hparent : u.parent = some (C.hash p) := hp.2
      have hget : K.aum s (C.hash u) = some u := hu
      simp only [needCheckpoint, hget, if_neg hkind, hparent] at h
      obtain ⟨i, hi, c', hi', hc'⟩ := ih hp.1 hrest h
      exact ⟨i + 1, Nat.succ_lt_succ hi, c', .succ hp hi', hc'⟩

theorem Built.sound {signer : Option Signer} (h : Built C a signer b)
    (hlast : ∃ h, a.state.lastAUMHash = some h) : b.a = a ∧ b.Sound C := by
  induction h with
  | new => exact ⟨rfl, sound_newUpdater hlast signer⟩
  | step _ hstep ih =>
    obtain ⟨update, hok, -⟩ := hstep.mkUpdate
    obtain ⟨sigs, u, -, -, -, ha, -⟩ := mkUpdate_eq_ok hok
    exact ⟨ha.trans ih.1, ih.2.mkUpdate hok⟩

theorem UpdateBuilder.Sound.generateCheckpoint_out (hb : b.Sound C)
    (h : b.generateCheckpoint C = .ok b') : b'.state.keys = b.state.keys ∧
      ∃ u, b'.out = b.out ++ [u] ∧ u.messageKind = .checkpoint := by
  obtain ⟨state, hstate, h⟩ := bind_eq_ok_iff.1 h
  cases hb.applied.symm.trans (mapError_eq_ok_iff.1 hstate)
  obtain ⟨sigs, u, rfl, -, happ, -, -, hout, -⟩ := mkUpdate_eq_ok h
  refine ⟨?_, _, hout, rfl⟩
  generalize b'.state = x at happ
  cases (applied_of_apply happ).2 with
  | checkpoint _ hst =>
    cases hst
    rfl
  | addKey hkind | updateKey hkind | removeKey hkind => cases hkind
  | other hne => exact absurd rfl hne

/-- **What `Finalize` returns is taken in**, if it is anything, for a builder that keeps the key
of its signer.  The last update is the head then, the keys are those of the builder, and a
checkpoint is at most `checkpointEvery` AUMs before the head if there was one. -/
theorem finalize_informs (hs : K.Consistent s) (hcur : Current C (K.stored s) a)
    (htrusts : Trusts s₀ a.state w) (hsigns : signer.Signs C w)
    (hb : Built C a (some signer) b) (hok : b.finalize K s = .ok updates) (hne : updates ≠ [])
    (hkeep : ∀ u ∈ updates, u.messageKind = .removeKey → u.keyID.getD [] ≠ w)
    (hinj : Set.InjOn C.hash (K.stored s ∪ {v | v ∈ updates}))
    (hroot : (forkRule C).Oldest (K.stored s ∪ {v | v ∈ updates}) a.oldestAncestor) :
    ∃ a', (informIdempotent K s now a updates).1 = .ok a' ∧ updates.getLast? = some a'.head ∧
      a'.state.keys = b.state.keys ∧
      ((∃ j c, Steps ((forkRule C).Up (K.stored s)) j a.head c ∧ c.messageKind = .checkpoint) →
        ∃ j < checkpointEvery + 1, ∃ c,
          Steps ((forkRule C).Up (K.stored s ∪ {v | v ∈ updates})) j a'.head c ∧
          c.messageKind = .checkpoint) := by
  obtain ⟨b', hb', rfl⟩ := finalize_eq_ok hok
  obtain ⟨n, hn⟩ := hcur.stateAt
  obtain ⟨rfl, hsound⟩ := hb.sound ⟨_, hn.lastAUMHash⟩
  have hlast := List.getLast?_eq_some_getLast hne
  -- the builder of the result, its keys, and how near a checkpoint is
  obtain ⟨hbuilt, hkeys, hnear⟩ : Built C b.a (some signer) b' ∧ b'.state.keys = b.state.keys ∧
      ((b'.out.getLast hne).messageKind = .checkpoint ∨ b' = b ∧ needCheckpoint K s
        (checkpointEvery - b.out.length) b.a.headHash = false) := by
    unfold withCheckpoint at hb'
    split at hb'
    next =>
      obtain ⟨hkeys, u, hu, hkind⟩ := hsound.generateCheckpoint_out hb'
      refine ⟨hb.step (.generateCheckpoint hb'), hkeys, .inl ?_⟩
      obtain rfl : u = b'.out.getLast hne := by simp [hu]
      exact hkind
    next hnear =>
      cases hb'
      exact ⟨hb, rfl, .inr ⟨rfl, Bool.not_eq_true _ ▸ hnear⟩⟩
  have hacc := hbuilt.accepted hs hcur htrusts hsigns hkeep hinj hroot
  obtain ⟨p, hloop, hchain, hprev, hlookup⟩ := hacc.loop
  have hup := hacc.up
  rw [hlast] at hup
  rw [inform_eq_of_loop hlast hloop, hchain, hprev, hlookup]
  refine ⟨_, rfl, hlast, hkeys, fun ⟨j, c, hj, hc⟩ => ?_⟩
  obtain hkind | ⟨rfl, hnear⟩ := hnear
  · exact ⟨0, Nat.succ_pos _, _, .zero _, hkind⟩
  · obtain ⟨i, hi, c', hi', hc'⟩ := near_of_needCheckpoint hn.mem hj hc (hcur.headHash ▸ hnear)
    exact ⟨i + b'.out.length, by omega, c',
      hup.append (Linked.steps_up_mono Set.subset_union_left hi'), hc'⟩

/-- The votes of the key set to two. -/
def voteUpdate : AUM where
  messageKind := .updateKey
  prevAUMHash := some (hashBytes 0x1)
  votes := some 2
  keyID := some (List.replicate 32 7)
  signatures := [sampleSignature]

theorem finalize_informs_vote : ∃ s b a',
    (sampleBuilder 0x1).setKeyVote sampleCrypto (List.replicate 32 7) 2 = .ok b ∧
    b.finalize (Mem.chonk sampleCrypto) s = .ok [voteUpdate] ∧
    (informIdempotent (Mem.chonk sampleCrypto) s 1 (sampleBuilder 0x1).a [voteUpdate]).1 = .ok a' ∧
    a'.head = voteUpdate := by
  obtain ⟨b, hb, hok⟩ : ∃ b,
      (sampleBuilder 0x1).setKeyVote sampleCrypto (List.replicate 32 7) 2 = .ok b ∧
      b.finalize (Mem.chonk sampleCrypto)
        (bootstrap (Mem.chonk sampleCrypto) {} 0 (sampleCheckpoint none 1)).2 = .ok [voteUpdate] :=
    ⟨_, rfl, by rfl⟩
  obtain ⟨-, hcur, hs, hstored, -⟩ := run_sample.current
    (Crypto.CollisionFree.injOn_cons (by decide)) (oldest_of_parent_none rfl)
  rw [← hstored] at hcur
  have hwf := (wellFormed_of_checkpoint (g := sampleCheckpoint none 1) (C := sampleCrypto) rfl rfl
    (by decide) (.base (Set.mem_singleton _) (.inl rfl) rfl)).1
  have hsigns : Signer.Signs sampleCrypto (fun _ => some [sampleSignature])
      (List.replicate 32 7) := by
    rintro h sigs ⟨⟩
    exact ⟨cons_ne_nil _ _, fun x hx => by cases mem_singleton.1 hx; exact ⟨rfl, rfl⟩⟩
  have hinj : Set.InjOn sampleCrypto.hash ({sampleCheckpoint none 1} ∪ {v | v ∈ [voteUpdate]}) :=
    Crypto.CollisionFree.injOn_cons (by decide)
  obtain ⟨a', hinform, hhead, -⟩ := finalize_informs hs hcur ⟨hwf, .head _⟩ hsigns
    (.step .new (.setKeyVote _ _ hb)) hok (cons_ne_nil _ _) (by simp [voteUpdate])
    (by simpa [hstored] using hinj) (oldest_of_parent_none rfl)
  exact ⟨_, b, a', hb, hok, hinform, (Option.some.inj hhead).symm⟩

/-- No update: `Finalize` succeeds, and `Inform` does not take nothing in. -/
theorem inform_error_of_no_update :
    (sampleBuilder 0x1).finalize (Mem.chonk sampleCrypto)
      (bootstrap (Mem.chonk sampleCrypto) {} 0 (sampleCheckpoint none 1)).2 = .ok [] ∧
    (informIdempotent (Mem.chonk sampleCrypto)
      (bootstrap (Mem.chonk sampleCrypto) {} 0 (sampleCheckpoint none 1)).2 1
      (sampleBuilder 0x1).a []).1 = .error .emptySlice := by
  decide

end Multiport.Tka

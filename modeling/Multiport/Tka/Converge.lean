import Multiport.Tka.Inform

/-!
# Convergence

`Run K g us s a` says that the authority `a` with the storage `s` was bootstrapped from
`g` and took in the updates `us`, in some batches and each call without an error.

The invariant of a run is that the authority is `Current`: at the tip of the primary chain
of the tree of everything it has taken in.  A call keeps it on both of its ways.  Where it
computes the active chain anew this is what `computeActiveChain` finds; where the updates
are a chain from the head, each of them is the only child of the head before it
(`Current.push`).  As a current authority is determined by the set of its AUMs, runs over
the same set agree, and agree with `Open`.
-/

namespace Multiport.Tka

open Lib Tailcfg List Set

variable {C : Crypto} {σ : Type} {K : Chonk C σ} {s s' : σ} {N : Set AUM} {g r u : AUM}
  {st : Progress} {updates us us' : List AUM} {now : Time} {a a' : Authority}

/-! ## Updates on the head -/

variable {state : State}

/-- **An update on the head becomes the head.** -/
theorem Current.push (h : Current C N a) (hinj : InjOn C.hash (insert u N))
    (hroot : (forkRule C).Oldest (insert u N) a.oldestAncestor)
    (hverify : aumVerify C u a.state false = .ok ())
    (happ : a.state.applyVerifiedAUM C u = .ok state) :
    Current C (insert u N) ⟨u, a.oldestAncestor, state⟩ := by
  obtain ⟨n, hhead⟩ := h.stateAt
  have hsub : N ⊆ insert u N := subset_insert u N
  have hup := (hhead.mono hsub).up_of_apply happ
  have hnew : u ∉ N := fun hu => h.tip u hu hup.2
  obtain ⟨st₀, hst, k, hk⟩ := h.primary
  have hgrown : Grown C N (insert u N) := by
    refine ⟨hsub, h.tree.finite.insert u, hinj, fun v hv hvN => ?_, fun v hv hvN => ?_⟩ <;>
      obtain rfl := hv.resolve_right hvN
    · exact ⟨n, a.head, a.state, state, hhead.mono hsub, hverify, happ⟩
    · exact ⟨1, a.head, hhead.mem, .single hup⟩
  have htree := hgrown.verifiedTree h.tree hroot
  refine ⟨htree, ⟨st₀, hst.mono hsub, k + 1, ?_⟩, ?_⟩
  · -- above the head, the update is nobody's child
    have hkeep : Steps ((forkRule C).Descend (insert u N)) k (a.oldestAncestor, st₀)
        (a.head, a.state) := by
      refine hk.imp fun {i x y} hx hxy {j} _ => hxy.of_superset hsub ?_
      rintro c (rfl | hc) hchild
      · have hxmem := ForkRule.mem_of_steps_descend hx hst.mem
        have : x.1 = a.head := up_unique hinj ⟨hsub hxmem, hchild⟩ hup
        exact absurd (this ▸ hxy.1.child) (h.tip y.1 hxy.1.mem)
      · exact hc
    refine hkeep.snoc ⟨ForkRule.wins_of_only (.inl rfl) hup.2 ?_, advance_eq_some_iff.2 happ⟩
    rintro c (rfl | hc) hchild
    · rfl
    · exact absurd hchild (h.tip c hc)
  · rintro c (rfl | hc) hchild
    · exact htree.acyclic c 0 (.single ⟨.inl rfl, hchild⟩)
    · -- the parent of a stored AUM is stored
      exact hnew (h.tree.closedIn hsub hinj hroot c hc u (.inl rfl) hchild)

theorem Current.headHash (h : Current C N a) : a.headHash = C.hash a.head := by
  obtain ⟨n, hn⟩ := h.stateAt
  rw [Authority.headHash, hn.lastAUMHash, Option.getD_some]

theorem union_mem_append (N : Set AUM) (us vs : List AUM) :
    N ∪ {u | u ∈ us ++ vs} = N ∪ {u | u ∈ us} ∪ {u | u ∈ vs} := by
  rw [union_assoc]
  congr 1
  ext v
  exact mem_append

theorem union_mem_concat (N : Set AUM) (us : List AUM) (u : AUM) :
    N ∪ {v | v ∈ us ++ [u]} = insert u (N ∪ {v | v ∈ us}) := by
  have hone : {v | v ∈ [u]} = ({u} : Set AUM) := by simp
  rw [union_mem_append, hone, union_singleton]

/-- **A chain of verified updates from the head moves the head to its end.** -/
theorem Current.extend {M : Set AUM} {h' : AUMHash} (h : Current C N a)
    (hext : Extends C a.headHash us h') (hsub : N ∪ {u | u ∈ us} ⊆ M)
    (hinj : InjOn C.hash M) (hroot : (forkRule C).Oldest M a.oldestAncestor)
    (hverified : ∀ u ∈ us, VerifiedIn C M u) :
    C.hash (us.getLast?.getD a.head) = h' ∧ ∃ state,
      Current C (N ∪ {u | u ∈ us}) ⟨us.getLast?.getD a.head, a.oldestAncestor, state⟩ := by
  induction hext with
  | nil =>
    refine ⟨h.headHash.symm, a.state, ?_⟩
    simpa using h
  | @snoc us h' u _ hparent ih =>
    rw [union_mem_concat] at hsub ⊢
    have hsub' := (Set.subset_insert u _).trans hsub
    obtain ⟨hhash, state, hcur⟩ := ih hsub' fun v hv => hverified v (mem_append_left _ hv)
    rw [List.getLast?_concat]
    -- the state the update was verified against is the state at the head so far
    obtain ⟨m, hm⟩ := hcur.stateAt
    obtain ⟨hverify, next, happ⟩ := (hverified u (by simp)).of_child hinj (hm.mono hsub')
      (hparent.trans (congrArg some hhash.symm))
    exact ⟨rfl, next, hcur.push (hinj.mono hsub) (fun q hq => hroot q (hq.mono hsub)) hverify happ⟩

/-! ## Calls and runs -/

section

variable (hs : K.Consistent s) (h : Current C (K.stored s) a)
  (hinj : InjOn C.hash (K.stored s ∪ {u | u ∈ updates}))
  (hroot : (forkRule C).Oldest (K.stored s ∪ {u | u ∈ updates}) a.oldestAncestor)

include hs h hinj hroot

/-- **A call keeps the authority current**, whether it takes the last state of a chain from
the head or computes the active chain anew. -/
theorem Current.inform (hok : (informIdempotent K s now a updates).1 = .ok a') :
    a'.oldestAncestor = a.oldestAncestor ∧
      Current C (K.stored s ∪ {u | u ∈ updates}) a' ∧
      K.Consistent (informIdempotent K s now a updates).2 ∧
      K.stored (informIdempotent K s now a updates).2 = K.stored s ∪ {u | u ∈ updates} ∧
      K.lastActiveAncestor (informIdempotent K s now a updates).2 = K.lastActiveAncestor s := by
  rcases inform_cases K s now a updates with ⟨e, he⟩ | ⟨st, last, hlast, hloop⟩
  · rw [he] at hok
    cases hok
  have hsound := Authority.sound_of_loop hs h.stateAt hloop
  obtain ⟨hs', hstored⟩ := hsound.commit hs hinj now
  rw [inform_eq_of_loop hlast hloop] at hok ⊢
  refine and_assoc.1 ⟨?_, hs', hstored, K.lastActiveAncestor_commit s now _⟩
  cases hchain : st.isHeadChain with
  | true =>
    obtain ⟨hcommit, _, hext⟩ := hsound.headChain.1 hchain
    rw [hchain] at hok
    cases hok
    obtain ⟨-, state, hcur⟩ := h.extend hext subset_rfl hinj hroot
      fun u hu => hsound.union_eq hinj ▸ hsound.verified u (hcommit ▸ hu)
    rw [hlast] at hcur
    -- the state the loop knows at the last update is the state there
    obtain ⟨x, hx⟩ := hsound.last
    obtain ⟨b, hb, hknown⟩ := hsound.states hx
    obtain ⟨n, hstate⟩ := hknown.stateAt
    obtain ⟨m, hm⟩ := hcur.stateAt
    rw [hcommit] at hstate
    obtain rfl : b = last := hinj hstate.mem hm.mem (by
      rw [hb, hsound.prev, hcommit, hlast]
      rfl)
    obtain ⟨-, rfl⟩ := hstate.unique hinj hm
    rw [hx]
    exact ⟨rfl, hcur⟩
  | false =>
    rw [hchain] at hok
    have hactive := (computeActiveChain_eq_ok_iff hs').1 hok
    rw [hstored] at hactive
    exact hactive.current ((hsound.grown h.tree.finite hinj).verifiedTree h.tree hroot)

/-- A call whose updates are accepted succeeds, as long as no chain goes beyond the scan
limit. -/
theorem Current.exists_inform
    (hwithin : (forkRule C).Within (K.stored s ∪ {u | u ∈ updates}) maxScanIterations)
    (hne : updates ≠ []) (hloop : ∃ st, updates.foldlM (informStep K s) a.progress = .ok st)
    (now : Time) : ∃ a', (informIdempotent K s now a updates).1 = .ok a' := by
  obtain ⟨st, hloop⟩ := hloop
  obtain ⟨last, hlast⟩ : ∃ last, updates.getLast? = some last :=
    ⟨_, List.getLast?_eq_some_getLast hne⟩
  have hsound := Authority.sound_of_loop hs h.stateAt hloop
  obtain ⟨hs', hstored⟩ := hsound.commit hs hinj now
  rw [inform_eq_of_loop hlast hloop]
  cases hchain : st.isHeadChain with
  | true => exact ⟨_, rfl⟩
  | false =>
    obtain ⟨a', ha'⟩ := ((hsound.grown h.tree.finite hinj).verifiedTree h.tree
      hroot).exists_activeChain_iff.2 hwithin
    exact ⟨a', (computeActiveChain_eq_ok_iff hs').2 (hstored ▸ ha')⟩

end

/-- The storage that `Bootstrap` opens. -/
theorem stored_bootstrap (hs : K.Consistent s) (hempty : K.stored s = ∅) (now : Time) (g : AUM) :
    K.Consistent (K.setLastActiveAncestor (K.commitVerifiedAUMs s now [g]) (C.hash g)) ∧
      K.stored (K.setLastActiveAncestor (K.commitVerifiedAUMs s now [g]) (C.hash g)) = {g} := by
  have hinj : InjOn C.hash (K.stored s ∪ {v | v ∈ [g]}) := by
    rw [hempty]
    simp
  refine ⟨K.consistent_set (K.consistent_commit hs hinj), ?_⟩
  rw [Chonk.stored_set, Chonk.stored_commit hs hinj, hempty]
  simp

/-- A bootstrap AUM on an empty storage makes a tree of one AUM. -/
theorem bootstrap_cases (hs : K.Consistent s) (hempty : K.stored s = ∅)
    (hok : (bootstrap K s now g).1 = .ok a) :
    g.messageKind = .checkpoint ∧ (∃ state, g.state = some state ∧
      aumVerify C g state true = .ok ()) ∧
    K.Consistent (bootstrap K s now g).2 ∧ K.stored (bootstrap K s now g).2 = {g} ∧
    K.lastActiveAncestor (bootstrap K s now g).2 = some (C.hash g) ∧
    openAuthority K (bootstrap K s now g).2 = .ok a := by
  unfold bootstrap at hok ⊢
  split at hok
  · cases hok
  split at hok
  · cases hok
  next hheads hkind =>
    rw [if_neg hheads, if_neg hkind]
    split at hok
    · cases hok
    next state hstate =>
      split at hok
      · cases hok
      next u hverify =>
        obtain ⟨hs', hstored⟩ := stored_bootstrap hs hempty now g
        simp only [hstate]
        exact ⟨not_not.1 hkind, ⟨state, rfl, hverify⟩, hs', hstored, K.lastActiveAncestor_set _ _,
          hok⟩

theorem verifiedTree_singleton (hkind : g.messageKind = .checkpoint) (hstate : g.state = some state)
    (hroot : (forkRule C).Oldest {g} g) : VerifiedTree C {g} g where
  finite := finite_singleton g
  injOn := injOn_singleton C.hash g
  rooted := by
    refine ⟨rfl, hroot, ?_⟩
    rintro u rfl
    exact ⟨0, .zero u⟩
  base := ⟨state.cloneForUpdate C g, .base rfl (.inl hkind)
    (by rw [baseState, if_pos hkind, hstate])⟩
  verified := fun _ hu hur => absurd hu hur

theorem within_singleton {n : Nat} (hroot : (forkRule C).Oldest {g} g) (hn : 0 < n) :
    (forkRule C).Within {g} n := by
  rintro u rfl k b hk
  cases hk with
  | zero => exact hn
  | succ hup => exact absurd hup (hroot _)

theorem current_singleton (hkind : g.messageKind = .checkpoint) (hstate : g.state = some state)
    (hroot : (forkRule C).Oldest {g} g) : Current C {g} ⟨g, g, state.cloneForUpdate C g⟩ where
  tree := verifiedTree_singleton hkind hstate hroot
  primary := ⟨_, .base rfl (.inl hkind) (by rw [baseState, if_pos hkind, hstate]), 0, .zero _⟩
  tip := by
    rintro c rfl hchild
    exact hroot c ⟨rfl, hchild⟩

/-- **A verified checkpoint bootstraps an authority.** -/
theorem bootstrap_ok (hs : K.Consistent s) (hempty : K.stored s = ∅)
    (hkind : g.messageKind = .checkpoint) (hstate : g.state = some state)
    (hverify : aumVerify C g state true = .ok ()) (hroot : (forkRule C).Oldest {g} g) (now : Time) :
    (bootstrap K s now g).1 = .ok ⟨g, g, state.cloneForUpdate C g⟩ := by
  have hheads : K.heads s = [] := by
    refine eq_nil_iff_forall_not_mem.2 fun a ha => ?_
    have := ((mem_heads_iff hs).1 ha).1
    rw [hempty] at this
    exact this
  obtain ⟨hs', hstored⟩ := stored_bootstrap hs hempty now g
  unfold bootstrap
  rw [if_neg (not_not.2 hheads), if_neg (not_not.2 hkind)]
  simp only [hstate, hverify]
  refine (computeActiveChain_eq_ok_iff hs').2 ?_
  rw [hstored]
  exact (current_singleton hkind hstate hroot).activeChain (within_singleton hroot (by decide))

/-- **A verified update on the head is taken in.** -/
theorem Current.inform_push (hs : K.Consistent s) (h : Current C (K.stored s) a)
    (hnew : ∀ b ∈ K.stored s, C.hash b ≠ C.hash u) (hverify : aumVerify C u a.state false = .ok ())
    (happ : a.state.applyVerifiedAUM C u = .ok state) (now : Time) :
    (informIdempotent K s now a [u]).1 = .ok ⟨u, a.oldestAncestor, state⟩ := by
  obtain ⟨n, hhead⟩ := h.stateAt
  have hparent : u.parent = some a.headHash :=
    h.headHash ▸ parent_of_apply happ hhead.lastAUMHash
  have hstate : stateAtParent K s a.progress a.headHash = .ok a.state := by
    rw [stateAtParent, a.lookup_progress]
  have hstep := informStep_eq_ok_iff.2 (.inr ⟨(Chonk.aum_eq_none_iff hs).2 hnew, _, _, _, hparent,
    hstate, hverify, happ, rfl⟩)
  have hloop : [u].foldlM (informStep K s) a.progress = informStep K s a.progress u :=
    bind_pure (informStep K s a.progress u)
  rw [inform_eq_of_loop rfl (hloop.trans hstep)]
  simp [Authority.progress]

/-- The authority `a` with the storage `s` was bootstrapped from `g` on an empty storage,
and has taken in the updates `us`. -/
inductive Run (K : Chonk C σ) (g : AUM) : List AUM → σ → Authority → Prop
  | bootstrap {s : σ} (now : Time) (consistent : K.Consistent s) (empty : K.stored s = ∅)
      (a : Authority) (ok : (bootstrap K s now g).1 = .ok a) :
      Run K g [] (bootstrap K s now g).2 a
  | inform {us : List AUM} {s : σ} {a : Authority} (run : Run K g us s a) (now : Time)
      (updates : List AUM) (a' : Authority)
      (ok : (informIdempotent K s now a updates).1 = .ok a') :
      Run K g (us ++ updates) (informIdempotent K s now a updates).2 a'

section

variable (h : Run K g us s a) (hinj : InjOn C.hash ({g} ∪ {u | u ∈ us}))
  (hroot : (forkRule C).Oldest ({g} ∪ {u | u ∈ us}) g)

include h hinj hroot

/-- **In every run, the authority is at the tip of the primary chain of all the AUMs it has
taken in.** -/
theorem Run.current :
    a.oldestAncestor = g ∧ Current C ({g} ∪ {u | u ∈ us}) a ∧ K.Consistent s ∧
      K.stored s = {g} ∪ {u | u ∈ us} ∧ K.lastActiveAncestor s = some (C.hash g) := by
  induction h with
  | @bootstrap s now hs hempty a hok =>
    obtain ⟨hkind, ⟨state, hstate, -⟩, hs', hstored, hlast, hopen⟩ :=
      bootstrap_cases hs hempty hok
    have hnil : ({g} ∪ {u | u ∈ []} : Set AUM) = {g} := by simp
    rw [hnil] at hroot ⊢
    have hactive := (computeActiveChain_eq_ok_iff hs').1 hopen
    rw [hstored] at hactive
    obtain ⟨hold, hcur⟩ := hactive.current (verifiedTree_singleton hkind hstate hroot)
    exact ⟨hold, hcur, hs', hstored, hlast⟩
  | @inform us s a _ now updates a' hok ih =>
    rw [union_mem_append] at hinj hroot ⊢
    obtain ⟨rfl, hcur, hs, hstored, hlast⟩ := ih (hinj.mono subset_union_left)
      fun p hp => hroot p (hp.mono subset_union_left)
    rw [← hstored] at hinj hroot hcur ⊢
    obtain ⟨hold, hcur', hs', hstored', hlast'⟩ := hcur.inform hs hinj hroot hok
    exact ⟨hold, hcur', hs', hstored', hlast'.trans hlast⟩

/-- A storage that can be opened has no chain beyond the scan limit. -/
theorem Run.within (b : Authority) (hopen : openAuthority K s = .ok b) :
    (forkRule C).Within ({g} ∪ {u | u ∈ us}) maxScanIterations := by
  obtain ⟨-, hcur, hs, hstored, -⟩ := h.current hinj hroot
  rw [← hstored] at hcur ⊢
  exact hcur.tree.exists_activeChain_iff.1 ⟨b, (computeActiveChain_eq_ok_iff hs).1 hopen⟩

end

def sampleAuthority (head : AUM) (h : AUMHash) : Authority :=
  ⟨head, sampleCheckpoint none 1, { sampleState 1 with lastAUMHash := some h }⟩

theorem run_sample : Run (Mem.chonk sampleCrypto) (sampleCheckpoint none 1) []
    (bootstrap (Mem.chonk sampleCrypto) {} 0 (sampleCheckpoint none 1)).2
    (sampleAuthority (sampleCheckpoint none 1) 0x1) :=
  .bootstrap 0 (Mem.consistent_empty sampleCrypto) (Mem.stored_empty sampleCrypto) _ (by decide)

/-- **Convergence**: two authorities that were bootstrapped from the same AUM and have taken
in the same set of updates, in any order and batches and with any repetitions, are equal,
and as long as no chain is beyond the scan limit, they are what `Open` finds in either
storage and what the full recomputation finds there. -/
theorem run_converges {σ' : Type} {K' : Chonk C σ'} {s' : σ'} (h : Run K g us s a)
    (h' : Run K' g us' s' a') (hsame : ∀ u, u ∈ us ↔ u ∈ us')
    (hinj : InjOn C.hash ({g} ∪ {u | u ∈ us}))
    (hroot : (forkRule C).Oldest ({g} ∪ {u | u ∈ us}) g) :
    a = a' ∧ ((forkRule C).Within ({g} ∪ {u | u ∈ us}) maxScanIterations →
      openAuthority K s = .ok a ∧ openAuthority K' s' = .ok a ∧
      computeActiveChain K s (some (C.hash a.oldestAncestor)) maxScanIterations = .ok a) := by
  have heq : ({g} ∪ {u | u ∈ us} : Set AUM) = {g} ∪ {u | u ∈ us'} := by
    congr 1
    ext u
    exact hsame u
  obtain ⟨hold, hcur, hs, hstored, -⟩ := h.current hinj hroot
  obtain ⟨hold', hcur', hs', hstored', -⟩ := h'.current (heq ▸ hinj) (heq ▸ hroot)
  rw [← heq] at hcur' hstored'
  obtain rfl := hcur.eq hcur' (hold.trans hold'.symm)
  refine ⟨rfl, fun hwithin => ?_⟩
  have hactive : ∀ L, ActiveChain C ({g} ∪ {u | u ∈ us}) L maxScanIterations a :=
    fun L => hcur.activeChain hwithin
  refine ⟨(computeActiveChain_eq_ok_iff hs).2 ?_, (computeActiveChain_eq_ok_iff hs').2 ?_,
    (computeActiveChain_eq_ok_iff hs).2 ?_⟩
  · exact hstored ▸ hactive _
  · exact hstored' ▸ hactive _
  · exact hstored ▸ hactive _

theorem run_converges_fork : ∃ s a s' a',
    Run (Mem.chonk sampleCrypto) (sampleCheckpoint none 1) ([] ++ [sampleNoOp 0x1 3] ++
      [sampleNoOp 0x1 4, sampleNoOp 0x14 2]) s a ∧
    Run (Mem.chonk sampleCrypto) (sampleCheckpoint none 1) ([] ++ [sampleNoOp 0x1 4] ++
      [sampleNoOp 0x14 2] ++ [sampleNoOp 0x1 4, sampleNoOp 0x1 3, sampleNoOp 0x1 3]) s' a' ∧
    a = a' ∧ openAuthority (Mem.chonk sampleCrypto) s = .ok a := by
  -- one authority sees the fork that wins first
  have h₁ := run_sample.inform 1 [sampleNoOp 0x1 3] (sampleAuthority (sampleNoOp 0x1 3) 0x13)
    (by decide)
  have h₂ := h₁.inform 2 [sampleNoOp 0x1 4, sampleNoOp 0x14 2]
    (sampleAuthority (sampleNoOp 0x1 3) 0x13) (by decide)
  -- the other one sees it last
  have h₁' := run_sample.inform 1 [sampleNoOp 0x1 4] (sampleAuthority (sampleNoOp 0x1 4) 0x14)
    (by decide)
  have h₂' := h₁'.inform 2 [sampleNoOp 0x14 2] (sampleAuthority (sampleNoOp 0x14 2) 0x142)
    (by decide)
  have h₃' := h₂'.inform 3 [sampleNoOp 0x1 4, sampleNoOp 0x1 3, sampleNoOp 0x1 3]
    (sampleAuthority (sampleNoOp 0x1 3) 0x13) (by decide)
  have hinj : InjOn sampleCrypto.hash ({sampleCheckpoint none 1} ∪
      {u | u ∈ [] ++ [sampleNoOp 0x1 3] ++ [sampleNoOp 0x1 4, sampleNoOp 0x14 2]}) :=
    Crypto.CollisionFree.injOn_cons (by decide)
  have hsame : ∀ u, u ∈ [] ++ [sampleNoOp 0x1 3] ++ [sampleNoOp 0x1 4, sampleNoOp 0x14 2] ↔
      u ∈ [] ++ [sampleNoOp 0x1 4] ++ [sampleNoOp 0x14 2] ++
        [sampleNoOp 0x1 4, sampleNoOp 0x1 3, sampleNoOp 0x1 3] := by
    simp only [mem_append, mem_cons]
    tauto
  obtain ⟨heq, hopen⟩ := run_converges h₂ h₃' hsame hinj (oldest_of_parent_none rfl)
  have hwithin := h₂.within hinj (oldest_of_parent_none rfl)
    (sampleAuthority (sampleNoOp 0x1 3) 0x13) (by decide)
  exact ⟨_, _, _, _, h₂, h₃', heq, (hopen hwithin).1⟩

end Multiport.Tka

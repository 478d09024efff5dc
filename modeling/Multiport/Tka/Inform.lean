import Multiport.Tka.Tree

/-!
# Taking in updates

`InformIdempotent` verifies its updates one after the other, commits the new ones, and
then either takes the last state it computed (the updates are a chain from the head) or
computes the active chain anew.

`Progress.Sound` is the invariant of the verification loop: every state the loop knows
is the state at an AUM of the storage or of the updates so far, and every update to be
committed was verified against the state at its parent.  From it follow which updates the
loop accepts (`loop_ok_iff`) and what a call adds to the storage (`inform_added_verified`).

An error leaves a changed storage only when it comes *after* the commit, from the
computation of the active chain.  For updates that give no stored AUM its missing parent,
that computation fails for one reason only: a chain beyond the scan limit
(`Grown.exists_activeChain_iff`).
-/

namespace Multiport.Tka

open Lib Tailcfg List Mem Authority Nat Chonk Linked ForkRule

variable {C : Crypto} {σ : Type} {K : Chonk C σ} {s s' : σ} {N : Set AUM} {h₀ : AUMHash}
  {st st' : Progress} {u : AUM} {updates seen : List AUM} {now : Time} {a a' : Authority}

/-! ## The verification loop -/

variable (C) in
/-- A chain of AUMs that starts above `h` and ends at `h'`. -/
inductive Extends (h : AUMHash) : List AUM → AUMHash → Prop
  | nil : Extends h [] h
  | snoc {us : List AUM} {h' : AUMHash} {u : AUM} (t : Extends h us h')
      (parent : u.parent = some h') : Extends h (us ++ [u]) (C.hash u)

/-- A chain ends at its last AUM. -/
theorem extends_concat {h h' : AUMHash} (hext : Extends C h (seen ++ [u]) h') :
    ∃ g, Extends C h seen g ∧ u.parent = some g := by
  generalize hus : seen ++ [u] = us at hext
  cases hext with
  | nil => exact absurd hus (by simp)
  | snoc t parent =>
    obtain ⟨rfl, rfl⟩ := append_singleton_inj.1 hus
    exact ⟨_, t, parent⟩

variable (C) in
/-- The state at `p` that the loop can use, once it has been through `seen`: computed from
the storage, or for an AUM that is not stored, on the way. -/
def Known (N : Set AUM) (seen : List AUM) (p : AUM) (sp : State) : Prop :=
  ∃ n, StateAt C N n p sp ∨ p ∉ N ∧ StateAt C (N ∪ {v | v ∈ seen}) n p sp

theorem Known.stateAt {p : AUM} {sp : State} (h : Known C N seen p sp) :
    ∃ n, StateAt C (N ∪ {v | v ∈ seen}) n p sp := by
  obtain ⟨n, hn | ⟨-, hn⟩⟩ := h
  · exact ⟨n, hn.mono Set.subset_union_left⟩
  · exact ⟨n, hn⟩

theorem Known.mono {p : AUM} {sp : State} (hsub : ∀ v ∈ seen, v ∈ updates)
    (h : Known C N seen p sp) : Known C N updates p sp := by
  obtain ⟨n, hn | ⟨hp, hn⟩⟩ := h
  · exact ⟨n, .inl hn⟩
  · exact ⟨n, .inr ⟨hp, hn.mono (Set.union_subset_union_right N hsub)⟩⟩

/-- **What one round can do**: skip a stored update, or verify, apply and keep a new one. -/
theorem informStep_eq_ok_iff : informStep K s st u = .ok st' ↔
    ((∃ b, K.aum s (C.hash u) = some b) ∧ st' = { st with isHeadChain := false }) ∨
      (K.aum s (C.hash u) = none ∧ ∃ parent state next, u.parent = some parent ∧
        stateAtParent K s st parent = .ok state ∧ aumVerify C u state false = .ok () ∧
        state.applyVerifiedAUM C u = .ok next ∧ st' = {
          stateAt := (st.stateAt.insert parent state).insert (C.hash u) next
          toCommit := st.toCommit ++ [u]
          prevHash := C.hash u
          isHeadChain := st.isHeadChain && parent == st.prevHash }) := by
  unfold informStep
  cases K.aum s (C.hash u) with
  | some b => simp [eq_comm]
  | none =>
    cases u.parent with
    | none => simp
    | some parent =>
      simp only [bind_eq_ok_iff, mapError_eq_ok_iff]
      simp [eq_comm, Unique.exists_iff]

open Classical in
variable (C) in
/-- The invariant of the loop, over the updates it has seen. -/
structure Progress.Sound (N : Set AUM) (h₀ : AUMHash) (seen : List AUM) (st : Progress) :
    Prop where
  states : ∀ {h x}, st.stateAt.lookup h = some x → ∃ b, C.hash b = h ∧ Known C N st.toCommit b x
  last : ∃ x, st.stateAt.lookup st.prevHash = some x
  computed : ∀ u ∈ st.toCommit, ∃ x, st.stateAt.lookup (C.hash u) = some x
  prev : st.prevHash = (st.toCommit.getLast?.map C.hash).getD h₀
  verified : ∀ u ∈ st.toCommit, VerifiedIn C (N ∪ {u | u ∈ st.toCommit}) u
  below : ∀ u ∈ st.toCommit,
    ∃ k b, b ∈ N ∧ Steps ((forkRule C).Up (N ∪ {u | u ∈ st.toCommit})) k u b
  toCommit_eq : st.toCommit = seen.filter fun u => ∀ b ∈ N, C.hash b ≠ C.hash u
  headChain : st.isHeadChain = true ↔ st.toCommit = seen ∧ ∃ h, Extends C h₀ seen h

theorem Progress.Sound.mem_toCommit (hst : st.Sound C N h₀ seen) :
    u ∈ st.toCommit ↔ u ∈ seen ∧ ∀ b ∈ N, C.hash b ≠ C.hash u := by
  simp only [hst.toCommit_eq, mem_filter, decide_eq_true_eq]

theorem Progress.Sound.subset (hst : st.Sound C N h₀ seen) : ∀ u ∈ st.toCommit, u ∈ seen :=
  fun _ hu => (hst.mem_toCommit.1 hu).1

/-- The state that a round works with is the state at the update's parent. -/
theorem Progress.Sound.stateAtParent (hs : K.Consistent s)
    (hst : st.Sound C (K.stored s) h₀ seen) {parent : AUMHash} {state : State}
    (h : Tka.stateAtParent K s st parent = .ok state) :
    ∃ b, C.hash b = parent ∧ Known C (K.stored s) st.toCommit b state := by
  unfold Tka.stateAtParent at h
  split at h
  next x hx =>
    cases h
    exact hst.states hx
  next =>
    obtain ⟨b, hb, n, -, hn⟩ := computeStateAt_sound hs (mapError_eq_ok_iff.1 h)
    exact ⟨b, ((aum_eq_some_iff hs).1 hb).2, n, .inl hn⟩

/-- **One round keeps the invariant.** -/
theorem Progress.Sound.step (hs : K.Consistent s) (hst : st.Sound C (K.stored s) h₀ seen)
    (h : informStep K s st u = .ok st') : st'.Sound C (K.stored s) h₀ (seen ++ [u]) := by
  rcases informStep_eq_ok_iff.1 h with ⟨⟨b, hb⟩, rfl⟩ |
    ⟨hnone, parent, state, next, hparent, hstate, hverify, hnext, rfl⟩
  · obtain ⟨hmem, hbu⟩ := (aum_eq_some_iff hs).1 hb
    have hold : ¬∀ b ∈ K.stored s, C.hash b ≠ C.hash u := fun h => h b hmem hbu
    refine { hst with toCommit_eq := ?_, headChain := ?_ }
    · rw [filter_append, ← hst.toCommit_eq, filter_cons_of_neg (by simpa using hold), filter_nil,
        append_nil]
    · refine iff_of_false Bool.false_ne_true fun h => hold (hst.mem_toCommit.1 (h.1 ▸ ?_)).2
      exact mem_append_right _ (mem_singleton.2 rfl)
  · have hle : ∀ v ∈ st.toCommit, v ∈ st.toCommit ++ [u] := fun v hv => mem_append_left _ hv
    have hsub := Set.union_subset_union_right (K.stored s) hle
    have hnew := (aum_eq_none_iff hs).1 hnone
    have hu : u ∈ K.stored s ∪ {v | v ∈ st.toCommit ++ [u]} := .inr (by simp)
    obtain ⟨p, hp, hknown⟩ := hst.stateAtParent hs hstate
    obtain ⟨n, hstate⟩ := hknown.stateAt
    have hstate' := hstate.mono hsub
    obtain ⟨m, -, hm⟩ := hstate'.of_apply hu hnext
    refine ⟨?_, ⟨next, by simp⟩, ?_, by simp, ?_, ?_, ?_, ?_⟩
    · intro h x hx
      simp only [GoMap.lookup_insert_eq] at hx
      split at hx
      next heq =>
        cases hx
        exact ⟨u, heq.symm, m, .inr ⟨fun hu => hnew u hu rfl, hm⟩⟩
      next =>
        split at hx
        next heq =>
          cases hx
          exact ⟨p, hp.trans heq.symm, hknown.mono hle⟩
        next =>
          obtain ⟨b, hb, hx⟩ := hst.states hx
          exact ⟨b, hb, hx.mono hle⟩
    · intro v hv
      simp only [GoMap.lookup_insert_eq]
      split
      · exact ⟨_, rfl⟩
      next hvu =>
        split
        · exact ⟨_, rfl⟩
        · refine hst.computed v ((mem_append.1 hv).resolve_right fun hv => hvu ?_)
          rw [mem_singleton.1 hv]
    · exact forall_mem_concat.2 ⟨fun v hv => (hst.verified v hv).mono hsub,
        n, p, state, next, hstate', hverify, hnext⟩
    · refine forall_mem_concat.2 ⟨fun v hv => ?_, ?_⟩
      · obtain ⟨k, b, hb, hk⟩ := hst.below v hv
        exact ⟨k, b, hb, steps_up_mono hsub hk⟩
      · have hup := hstate'.up_of_apply hnext
        rcases hstate.mem with hpN | hpC
        · exact ⟨1, p, hpN, .single hup⟩
        · obtain ⟨k, b, hb, hk⟩ := hst.below p hpC
          exact ⟨k + 1, b, hb, .succ hup (steps_up_mono hsub hk)⟩
    · rw [filter_append, ← hst.toCommit_eq, filter_cons_of_pos (by simpa using hnew), filter_nil]
    · -- a chain so far ends at the last update that was kept
      have hprev : st.toCommit = seen → ∀ g, Extends C h₀ seen g → g = st.prevHash := by
        intro hcommit g hg
        rw [hst.prev, hcommit]
        cases hg <;> simp
      rw [Bool.and_eq_true, beq_iff_eq, hst.headChain, append_left_inj]
      constructor
      · rintro ⟨⟨hcommit, g, hg⟩, rfl⟩
        exact ⟨hcommit, _, hg.snoc (hprev hcommit g hg ▸ hparent)⟩
      · rintro ⟨hcommit, g, hg⟩
        obtain ⟨g', hg', hpg⟩ := extends_concat hg
        refine ⟨⟨hcommit, g', hg'⟩, ?_⟩
        rw [← hprev hcommit g' hg']
        exact Option.mem_unique hparent hpg

theorem Authority.lookup_progress (a : Authority) :
    a.progress.stateAt.lookup a.headHash = some a.state := by
  rw [progress, GoMap.lookup_insert_eq, if_pos rfl]

theorem Authority.sound_progress (ha : ∃ n, StateAt C N n a.head a.state) :
    a.progress.Sound C N a.headHash [] := by
  obtain ⟨n, hn⟩ := ha
  have hhash : a.headHash = C.hash a.head := by rw [headHash, hn.lastAUMHash]; rfl
  refine ⟨?_, ⟨a.state, a.lookup_progress⟩, by simp [progress], rfl,
    by simp [progress], by simp [progress], rfl,
    iff_of_true rfl ⟨rfl, _, .nil⟩⟩
  intro h x hx
  simp only [progress, GoMap.lookup_insert_eq] at hx
  split at hx
  next heq =>
    cases hx
    exact ⟨a.head, (heq.trans hhash).symm, n, .inl hn⟩
  next => cases hx

/-- **The invariant holds when the loop goes through.** -/
theorem Authority.sound_of_loop (hs : K.Consistent s)
    (ha : ∃ n, StateAt C (K.stored s) n a.head a.state)
    (h : updates.foldlM (informStep K s) a.progress = .ok st) :
    st.Sound C (K.stored s) a.headHash updates := by
  have := foldlM_invariant (I := fun seen st => st.Sound C (K.stored s) a.headHash seen)
    (fun hst hstep => hst.step hs hstep) (sound_progress ha) h
  rwa [nil_append] at this

/-! ## Which updates are accepted -/

variable (C) in
/-- Each update is stored, or verified against a known state at its parent. -/
def AcceptedAfter (N : Set AUM) : List AUM → List AUM → Prop
  | _, [] => True
  | seen, u :: us =>
    (u ∈ N ∨ ∃ p sp next, Known C N seen p sp ∧ aumVerify C u sp false = .ok () ∧
      sp.applyVerifiedAUM C u = .ok next) ∧ AcceptedAfter N (seen ++ [u]) us

variable (C) in
/-- The updates are new, and a chain from `h`. -/
def NewChain (N : Set AUM) (h : AUMHash) (updates : List AUM) : Prop :=
  (∀ u ∈ updates, u ∉ N) ∧ ∃ h', Extends C h updates h'

namespace Progress.Sound

variable {p : AUM} {sp : State}

theorem mem_toCommit_iff (hst : st.Sound C N h₀ seen)
    (hinj : Set.InjOn C.hash (N ∪ {v | v ∈ seen})) :
    u ∈ st.toCommit ↔ u ∈ seen ∧ u ∉ N := by
  rw [hst.mem_toCommit]
  refine and_congr_right fun hu => ⟨fun hnew huN => hnew u huN rfl, fun hnew b hb hbu => ?_⟩
  exact hnew (hinj (.inl hb) (.inr hu) hbu ▸ hb)

theorem isHeadChain_iff (hst : st.Sound C N h₀ seen)
    (hinj : Set.InjOn C.hash (N ∪ {v | v ∈ seen})) :
    st.isHeadChain = true ↔ NewChain C N h₀ seen := by
  rw [hst.headChain]
  refine and_congr_left fun _ => ⟨fun heq u hu => ?_, fun hnew => ?_⟩
  · rw [← heq, hst.mem_toCommit_iff hinj] at hu
    exact hu.2
  · rw [hst.toCommit_eq, filter_eq_self]
    intro u hu
    have := (hst.mem_toCommit_iff hinj).2 ⟨hu, hnew u hu⟩
    simpa using (hst.mem_toCommit.1 this).2

variable (hst : st.Sound C (K.stored s) h₀ seen) (hs : K.Consistent s)
  (hac : (forkRule C).Acyclic (K.stored s))
  (hwithin : (forkRule C).Within (K.stored s) maxScanIterations)

include hst hs hac hwithin

theorem stateAtParent_of_known (hinj : Set.InjOn C.hash (K.stored s ∪ {v | v ∈ seen}))
    (hknown : Known C (K.stored s) seen p sp) :
    Tka.stateAtParent K s st (C.hash p) = .ok sp := by
  unfold Tka.stateAtParent
  split
  next x hx =>
    obtain ⟨b, hb, hbx⟩ := hst.states hx
    obtain ⟨m, hm⟩ := (hbx.mono hst.subset).stateAt
    obtain ⟨n, hn⟩ := hknown.stateAt
    obtain rfl := hinj hm.mem hn.mem hb
    rw [(hm.unique hinj hn).2]
  next hnone =>
    obtain ⟨n, hn | ⟨hp, hn⟩⟩ := hknown
    · obtain ⟨b, hb⟩ := hn.exists_steps
      exact mapError_eq_ok_iff.2 (computeStateAt_complete hs hac hn (hwithin p hn.mem n b hb))
    · -- the loop keeps the state at every update it is going to commit
      have hmem := (hst.mem_toCommit_iff hinj).2 ⟨hn.mem.resolve_left hp, hp⟩
      obtain ⟨x, hx⟩ := hst.computed p hmem
      cases hx.symm.trans hnone

theorem informStep_ok_iff (hinj : Set.InjOn C.hash (K.stored s ∪ {v | v ∈ seen ++ [u]})) :
    (∃ st', informStep K s st u = .ok st') ↔ u ∈ K.stored s ∨ ∃ p sp next,
      Known C (K.stored s) seen p sp ∧ aumVerify C u sp false = .ok () ∧
        sp.applyVerifiedAUM C u = .ok next := by
  have hu : u ∈ K.stored s ∪ {v | v ∈ seen ++ [u]} := .inr (by simp)
  constructor
  · rintro ⟨st', h⟩
    rcases informStep_eq_ok_iff.1 h with ⟨⟨b, hb⟩, -⟩ |
      ⟨-, parent, state, next, -, hstate, hverify, hnext, -⟩
    · obtain ⟨hmem, hbu⟩ := (aum_eq_some_iff hs).1 hb
      exact .inl (hinj (.inl hmem) hu hbu ▸ hmem)
    · obtain ⟨p, -, hknown⟩ := hst.stateAtParent hs hstate
      exact .inr ⟨p, state, next, hknown.mono hst.subset, hverify, hnext⟩
  · intro h
    by_cases hmem : u ∈ K.stored s
    · exact ⟨_, informStep_eq_ok_iff.2 (.inl ⟨⟨u, hmem⟩, rfl⟩)⟩
    obtain ⟨p, sp, next, hknown, hverify, hnext⟩ := h.resolve_left hmem
    obtain ⟨n, hn⟩ := hknown.stateAt
    have hnone : K.aum s (C.hash u) = none :=
      (aum_eq_none_iff hs).2 fun b hb hbu => hmem (hinj (.inl hb) hu hbu ▸ hb)
    have hstate := hst.stateAtParent_of_known hs hac hwithin (hinj.mono
      (Set.union_subset_union_right _ fun v hv => mem_append_left _ hv)) hknown
    exact ⟨_, informStep_eq_ok_iff.2 (.inr ⟨hnone, _, sp, next,
      parent_of_apply hnext hn.lastAUMHash, hstate, hverify, hnext, rfl⟩)⟩

/-- **The loop goes through exactly when every update is accepted.** -/
theorem loop_ok_iff (hinj : Set.InjOn C.hash (K.stored s ∪ {v | v ∈ seen ++ updates})) :
    (∃ st', updates.foldlM (informStep K s) st = .ok st') ↔
      AcceptedAfter C (K.stored s) seen updates := by
  induction updates generalizing st seen with
  | nil => exact iff_of_true ⟨st, rfl⟩ trivial
  | cons u us ih =>
    have hsplit : seen ++ u :: us = seen ++ [u] ++ us := by simp
    rw [hsplit] at hinj
    rw [AcceptedAfter, ← hst.informStep_ok_iff hs hac hwithin (hinj.mono
      (Set.union_subset_union_right _ fun v hv => mem_append_left _ hv))]
    constructor
    · rintro ⟨st', h⟩
      obtain ⟨mid, hmid, h⟩ := bind_eq_ok_iff.1 h
      exact ⟨⟨mid, hmid⟩, (ih (hst.step hs hmid) hinj).1 ⟨st', h⟩⟩
    · rintro ⟨⟨mid, hmid⟩, hrest⟩
      obtain ⟨st', h⟩ := (ih (hst.step hs hmid) hinj).2 hrest
      exact ⟨st', bind_eq_ok_iff.2 ⟨mid, hmid, h⟩⟩

end Progress.Sound

/-! ## What a call returns and leaves -/

/-- A call whose updates are accepted commits them, and then returns the last state of a
chain from the head or computes the active chain anew. -/
theorem inform_eq_of_loop {last : AUM} (hlast : updates.getLast? = some last)
    (h : updates.foldlM (informStep K s) a.progress = .ok st) :
    informIdempotent K s now a updates =
      (if st.isHeadChain then
          .ok ⟨last, a.oldestAncestor, (st.stateAt.lookup st.prevHash).getD {}⟩
        else computeActiveChain K (K.commitVerifiedAUMs s now st.toCommit)
          (some (C.hash a.oldestAncestor)) maxScanIterations,
        K.commitVerifiedAUMs s now st.toCommit) := by
  unfold informIdempotent
  simp only [hlast, h]
  split <;> rfl

/-- **What a call can do**: fail and write nothing, or accept all its updates. -/
theorem inform_cases (K : Chonk C σ) (s : σ) (now : Time) (a : Authority) (updates : List AUM) :
    (∃ e, informIdempotent K s now a updates = (.error e, s)) ∨
      ∃ st last, updates.getLast? = some last ∧
        updates.foldlM (informStep K s) a.progress = .ok st := by
  unfold informIdempotent
  cases updates.getLast? with
  | none => exact .inl ⟨_, rfl⟩
  | some last =>
    cases updates.foldlM (informStep K s) a.progress with
    | error e => exact .inl ⟨e, rfl⟩
    | ok st => exact .inr ⟨st, last, rfl, rfl⟩

/-- The updates that are not committed were stored before. -/
theorem Progress.Sound.union_eq (hst : st.Sound C N h₀ updates)
    (hinj : Set.InjOn C.hash (N ∪ {u | u ∈ updates})) :
    N ∪ {u | u ∈ st.toCommit} = N ∪ {u | u ∈ updates} := by
  refine Set.Subset.antisymm (Set.union_subset_union_right _ hst.subset) ?_
  rintro u (hu | hu)
  · exact .inl hu
  · by_cases hmem : u ∈ N
    · exact .inl hmem
    · exact .inr ((hst.mem_toCommit_iff hinj).2 ⟨hu, hmem⟩)

/-- The storage after the commit, when no digests collide. -/
theorem Progress.Sound.commit (hst : st.Sound C (K.stored s) h₀ updates) (hs : K.Consistent s)
    (hinj : Set.InjOn C.hash (K.stored s ∪ {u | u ∈ updates})) (now : Time) :
    K.Consistent (K.commitVerifiedAUMs s now st.toCommit) ∧
      K.stored (K.commitVerifiedAUMs s now st.toCommit) = K.stored s ∪ {u | u ∈ updates} := by
  have hinj' := hinj.mono (Set.union_subset_union_right _ hst.subset)
  exact ⟨K.consistent_commit hs hinj', (stored_commit hs hinj').trans (hst.union_eq hinj)⟩

variable {M : Set AUM} {r : AUM} {L : Option AUMHash} {k m n : Nat}

variable (C) in
/-- What `M` has beyond `N` was verified on top of it. -/
structure Grown (N M : Set AUM) : Prop where
  subset : N ⊆ M
  finite : M.Finite
  injOn : Set.InjOn C.hash M
  verified : ∀ u ∈ M, u ∉ N → VerifiedIn C M u
  below : ∀ u ∈ M, u ∉ N → ∃ k b, b ∈ N ∧ Steps ((forkRule C).Up M) k u b

theorem Progress.Sound.grown (hst : st.Sound C N h₀ updates) (hfin : N.Finite)
    (hinj : Set.InjOn C.hash (N ∪ {u | u ∈ updates})) : Grown C N (N ∪ {u | u ∈ updates}) := by
  have hmem : ∀ u ∈ N ∪ {u | u ∈ updates}, u ∉ N → u ∈ st.toCommit :=
    fun u hu hnew => (hst.mem_toCommit_iff hinj).2 ⟨hu.resolve_left hnew, hnew⟩
  refine ⟨Set.subset_union_left, hfin.union updates.finite_toSet, hinj, ?_, ?_⟩
  · intro u hu hnew
    exact hst.union_eq hinj ▸ hst.verified u (hmem u hu hnew)
  · intro u hu hnew
    exact hst.union_eq hinj ▸ hst.below u (hmem u hu hnew)

/-- **A tree grows by verified AUMs.** -/
theorem Grown.verifiedTree (h : Grown C N M) (hN : VerifiedTree C N r)
    (hroot : (forkRule C).Oldest M r) : VerifiedTree C M r where
  finite := h.finite
  injOn := h.injOn
  rooted := by
    refine ⟨h.subset hN.rooted.mem, hroot, fun u hu => ?_⟩
    by_cases huN : u ∈ N
    · obtain ⟨n, hn⟩ := hN.rooted.reach u huN
      exact ⟨n, steps_up_mono h.subset hn⟩
    · obtain ⟨k, b, hb, hk⟩ := h.below u hu huN
      obtain ⟨n, hn⟩ := hN.rooted.reach b hb
      exact ⟨n + k, hk.append (steps_up_mono h.subset hn)⟩
  base := hN.base.imp fun _ hst => hst.mono h.subset
  verified u hu hur := by
    by_cases huN : u ∈ N
    · exact (hN.verified u huN hur).mono h.subset
    · exact h.verified u hu huN

theorem ActiveChain.stateAt {L : Option AUMHash} (h : ActiveChain C N L n a) :
    ∃ m, StateAt C N m a.head a.state := by
  obtain ⟨st₀, hst, k, -, hk, -⟩ := h.primary
  exact stateAt_of_descend hk ⟨0, hst⟩

section

variable (hs : K.Consistent s) (ha : ∃ n, StateAt C (K.stored s) n a.head a.state)
  (hinj : Set.InjOn C.hash (K.stored s ∪ {u | u ∈ updates}))

include hs ha hinj

theorem consistent_inform (now : Time) : K.Consistent (informIdempotent K s now a updates).2 := by
  rcases inform_cases K s now a updates with ⟨e, he⟩ | ⟨st, last, hlast, hloop⟩
  · rw [he]
    exact hs
  · rw [inform_eq_of_loop hlast hloop]
    exact ((sound_of_loop hs ha hloop).commit hs hinj now).1

/-- When a call with accepted updates leaves the storage as it was, if it fails. -/
theorem inform_unchanged_iff (hloop : updates.foldlM (informStep K s) a.progress = .ok st) :
    ((∃ e, (informIdempotent K s now a updates).1 = .error e) →
        K.stored (informIdempotent K s now a updates).2 = K.stored s) ↔
      ((∃ u ∈ updates, u ∉ K.stored s) → ¬NewChain C (K.stored s) a.headHash updates →
        ∃ a', ActiveChain C (K.stored s ∪ {u | u ∈ updates}) (some (C.hash a.oldestAncestor))
          maxScanIterations a') := by
  have hsound := sound_of_loop hs ha hloop
  obtain ⟨hs', hstored⟩ := hsound.commit hs hinj now
  have hchanged : K.stored s ∪ {u | u ∈ updates} = K.stored s ↔
      ¬∃ u ∈ updates, u ∉ K.stored s := by
    simp [Set.subset_def]
  cases hlast : updates.getLast? with
  | none =>
    obtain rfl := List.getLast?_eq_none_iff.1 hlast
    simp [informIdempotent]
  | some last =>
    rw [inform_eq_of_loop hlast hloop, ← hsound.isHeadChain_iff hinj]
    cases hchain : st.isHeadChain with
    | true => simp
    | false =>
      simp only [Bool.false_eq_true, if_false, hstored, hchanged, exists_eq_error_iff,
        computeActiveChain_eq_ok_iff hs', not_false_eq_true, forall_const]
      exact not_imp_not

/-- After a success, the AUMs that were added are verified. -/
theorem inform_added_verified (hok : ∃ a', (informIdempotent K s now a updates).1 = .ok a')
    (hu : u ∈ K.stored (informIdempotent K s now a updates).2) (hnew : u ∉ K.stored s) :
    VerifiedIn C (K.stored (informIdempotent K s now a updates).2) u := by
  rcases inform_cases K s now a updates with ⟨e, he⟩ | ⟨st, last, hlast, hloop⟩
  · rw [he] at hok
    obtain ⟨a', ha'⟩ := hok
    cases ha'
  · have hsound := sound_of_loop hs ha hloop
    rw [inform_eq_of_loop hlast hloop] at hu ⊢
    rw [(hsound.commit hs hinj now).2] at hu ⊢
    exact (hsound.grown (finite_stored hs) hinj).verified u hu hnew

end

/-! ## The active chain after the updates -/

variable (C) in
/-- A place the primary chain from `x₀` can come to, when `M` has grown from `N`: it has a
state, and in `N` it is on the primary chain of `N`. -/
structure OnChain (N M : Set AUM) (x₀ x : AUM × State) : Prop where
  state : ∃ i, StateAt C M i x.1 x.2
  steps : x.1 ∈ N → ∃ j, Steps ((forkRule C).Descend N) j x₀ x

namespace Grown

variable (h : Grown C N M) (hac : (forkRule C).Acyclic M) (ha : ActiveChain C N L n a)

include h hac ha

/-- The oldest AUM of the active chain has a child, as soon as there are new AUMs: it was the
only one or was found from an AUM below it. -/
theorem exists_child (hnew : ∃ u ∈ M, u ∉ N) : ∃ c ∈ M, (forkRule C).Child a.oldestAncestor c := by
  have hN := h.injOn.mono h.subset
  obtain ⟨x, hx, k, hk⟩ : ∃ x ∈ M, ∃ k,
      Steps ((forkRule C).Up M) (k + 1) x a.oldestAncestor := by
    rcases ha.selected.2 with hall | ⟨t, ht, -, ⟨⟨l, hl⟩, hold⟩, ⟨j, b, hb, -⟩, -⟩
    · obtain ⟨u, hu, hnew⟩ := hnew
      obtain ⟨k, b, hb, hk⟩ := h.below u hu hnew
      obtain ⟨t, ht, htip, j, hj⟩ :=
        (hac.anti h.subset).exists_tip (h.finite.subset h.subset) hb
      obtain ⟨⟨l, hl⟩, -⟩ := (hall t ht htip).of_steps hN hj
      have hur := hk.append (steps_up_mono h.subset hl)
      cases hlk : l + k with
      | zero =>
        rw [hlk] at hur
        cases hur
        exact absurd ha.selected.mem hnew
      | succ i => exact ⟨u, hu, i, hlk ▸ hur⟩
    · obtain ⟨hle, -⟩ := hl.to_final (functional_up hN) hold hb
      obtain ⟨i, rfl⟩ : ∃ i, l = i + 1 := ⟨l - 1, by omega⟩
      exact ⟨t, h.subset ht, i, steps_up_mono h.subset hl⟩
  obtain ⟨c, hc, hcr⟩ := hk.exists_last
  exact ⟨c, mem_of_steps_up hc hx, hcr.2⟩

variable (hclosed : (forkRule C).ClosedIn M N)

include hclosed

theorem selected (hnew : ∃ u ∈ M, u ∉ N) :
    Selected C M (some (C.hash a.oldestAncestor)) a.oldestAncestor := by
  have hmem := ha.selected.mem
  have hold : (forkRule C).Oldest M a.oldestAncestor :=
    fun p hp => ha.selected.oldest p ⟨hclosed _ hmem p hp.1 hp.2, hp.2⟩
  obtain ⟨c, hc, hchild⟩ := h.exists_child hac ha hnew
  obtain ⟨t₀, ht₀, htip₀, hsteps₀⟩ := hac.exists_tip h.finite (h.subset hmem)
  obtain ⟨t, ⟨ht, htip, htr⟩, hgreatest⟩ := Set.exists_max_image
    {t ∈ M | (forkRule C).Tip M t ∧ OldestOf C M t a.oldestAncestor} (fun t => (C.hash t).toNat)
    (h.finite.subset (Set.sep_subset _ _)) ⟨t₀, ht₀, htip₀, hsteps₀, hold⟩
  refine ⟨⟨t, ht, htip, htr⟩, .inr ⟨t, ht, htip, htr, ?_,
    fun t' ht' htip' hr' => hgreatest t' ⟨ht', htip', hr'⟩⟩⟩
  obtain ⟨⟨k, hk⟩, -⟩ := htr
  cases k with
  | zero =>
    cases hk
    exact absurd hchild (htip c hc)
  | succ j => exact ⟨j, _, hk, rfl⟩

omit hac ha in
/-- The winner at a place that the chain comes to can be applied: in `N` it is the winner of
the chain of `N`, and new AUMs were verified. -/
theorem onChain_next {x x₀ y} {c : AUM}
    (hk : Steps ((forkRule C).Descend N) k x₀ y) (htip : (forkRule C).Tip N y.1)
    (hx : OnChain C N M x₀ x) (hc : (forkRule C).Wins M x.2 x.1 c) :
    ∃ next, (forkRule C).advance x.2 c = some next ∧ OnChain C N M x₀ (c, next) := by
  have hN := h.injOn.mono h.subset
  obtain ⟨⟨i, hi⟩, hsteps⟩ := hx
  obtain ⟨next, happ, hnext⟩ : ∃ next, x.2.applyVerifiedAUM C c = .ok next ∧
      (c ∈ N → ∃ j, Steps ((forkRule C).Descend N) j x₀ (c, next)) := by
    by_cases hcN : c ∈ N
    · obtain ⟨j, hj⟩ := hsteps (hclosed c hcN x.1 hi.mem hc.child)
      have hrest := (hk.to_final (functional_descend hN) (not_descend_of_tip htip) hj).2
      generalize k - j = l at hrest
      cases hrest with
      | zero => exact absurd hc.child (htip c hcN)
      | @succ _ _ w _ hxw _ =>
        obtain rfl : w.1 = c :=
          hxw.1.unique hN ⟨hcN, hc.child, fun d hd => hc.least d (h.subset hd)⟩
        exact ⟨w.2, advance_eq_some_iff.1 hxw.2, fun _ => ⟨j + 1, hj.snoc hxw⟩⟩
    · obtain ⟨-, next, happ⟩ := (h.verified c hc.mem hcN).of_child h.injOn hi hc.child
      exact ⟨next, happ, fun hc => absurd hc hcN⟩
  obtain ⟨l, -, hl⟩ := hi.of_apply hc.mem happ
  exact ⟨next, advance_eq_some_iff.2 happ, ⟨l, hl⟩, hnext⟩

omit hac in
theorem hasPrimary (hwithin : (forkRule C).Within M m) : HasPrimary C M m a.oldestAncestor := by
  obtain ⟨st₀, hst, k, -, hk, htip⟩ := ha.primary
  have hst' := hst.mono h.subset
  have hlt : ∀ k y, Steps ((forkRule C).Descend M) k (a.oldestAncestor, st₀) y → k < m :=
    fun k y => lt_of_descend hwithin hst'.mem
  obtain ⟨k, y, hk, hy⟩ := exists_descend h.finite
    (fun hx hc => h.onChain_next hclosed hk htip hx hc) ⟨⟨0, hst'⟩, fun _ => ⟨0, .zero _⟩⟩ hlt
  exact ⟨st₀, hst', k, hlt k y hk, y, hk, hy⟩

omit hclosed in
/-- **When there is an active chain after the updates**: no chain is beyond the bound; and
in case a stored AUM got its parent by the updates, an oldest AUM is selected anew and has a
primary chain. -/
theorem exists_activeChain_iff (hnew : ∃ u ∈ M, u ∉ N) :
    (∃ a', ActiveChain C M (some (C.hash a.oldestAncestor)) m a') ↔
      (forkRule C).Within M m ∧ (¬(forkRule C).ClosedIn M N →
        ∃ r, Selected C M (some (C.hash a.oldestAncestor)) r ∧ HasPrimary C M m r) := by
  rw [Tka.exists_activeChain_iff hac h.finite h.injOn]
  refine and_congr_right fun hwithin => ⟨fun hr _ => hr, fun hr => ?_⟩
  by_cases hclosed : (forkRule C).ClosedIn M N
  · exact ⟨_, h.selected hac ha hclosed hnew, h.hasPrimary ha hclosed hwithin⟩
  · exact hr hclosed

end Grown

/-- A verified AUM passes against the state that `computeStateAt` returns at its parent. -/
theorem VerifiedIn.aumVerify_computeStateAt (hs : K.Consistent s) (h : VerifiedIn C (K.stored s) u)
    {p : AUMHash} {sp : State} (hp : u.parent = some p) (hsp : computeStateAt K s n p = .ok sp) :
    aumVerify C u sp false = .ok () := by
  obtain ⟨b, hb, l, -, hbst⟩ := computeStateAt_sound hs hsp
  obtain ⟨-, rfl⟩ := (aum_eq_some_iff hs).1 hb
  exact (h.of_child (K.injOn_stored s) hbst hp).1

/-- **An error leaves the storage as it was exactly when accepted updates that add an AUM,
and are not a chain from the head, make no chain longer than the scan limit**; and, in case
they bring the parent that a stored AUM lacked, an oldest AUM is still selected and has a
primary chain.  After a success every AUM that was added passes `aumVerify` against the state
at its parent, which is also what `computeStateAt` returns there.

Digests do not collide and no AUM is its own ancestor: that much is asked of the hash. -/
theorem inform_all_or_nothing_iff (hs : K.Consistent s) (hopen : openAuthority K s = .ok a)
    (hinj : Set.InjOn C.hash (K.stored s ∪ {u | u ∈ updates}))
    (hac : (forkRule C).Acyclic (K.stored s ∪ {u | u ∈ updates})) :
    (((∃ e, (informIdempotent K s now a updates).1 = .error e) →
        K.stored (informIdempotent K s now a updates).2 = K.stored s) ↔
      (AcceptedAfter C (K.stored s) [] updates → (∃ u ∈ updates, u ∉ K.stored s) →
        ¬NewChain C (K.stored s) a.headHash updates →
        (forkRule C).Within (K.stored s ∪ {u | u ∈ updates}) maxScanIterations ∧
        (¬(forkRule C).ClosedIn (K.stored s ∪ {u | u ∈ updates}) (K.stored s) →
          ∃ r, Selected C (K.stored s ∪ {u | u ∈ updates}) (some (C.hash a.oldestAncestor)) r ∧
            HasPrimary C (K.stored s ∪ {u | u ∈ updates}) maxScanIterations r))) ∧
    ((∃ a', (informIdempotent K s now a updates).1 = .ok a') →
      ∀ u ∈ K.stored (informIdempotent K s now a updates).2, u ∉ K.stored s →
        VerifiedIn C (K.stored (informIdempotent K s now a updates).2) u ∧
        ∀ n p sp, u.parent = some p →
          computeStateAt K (informIdempotent K s now a updates).2 n p = .ok sp →
          aumVerify C u sp false = .ok ()) := by
  have hactive := (computeActiveChain_eq_ok_iff hs).1 hopen
  have ha := hactive.stateAt
  have hfin := finite_stored hs
  have hac' := hac.anti Set.subset_union_left
  have hwithin := (hac'.within_iff hfin (K.injOn_stored s)).2 hactive.within
  have hmem : (∃ u ∈ updates, u ∉ K.stored s) →
      ∃ u ∈ K.stored s ∪ {u | u ∈ updates}, u ∉ K.stored s := by
    rintro ⟨u, hu, hnew⟩
    exact ⟨u, .inr hu, hnew⟩
  refine ⟨?_, fun hok u hu hnew => ?_⟩
  · rw [← (sound_progress ha).loop_ok_iff hs hac' hwithin hinj]
    constructor
    · rintro h ⟨st, hloop⟩ hnew hchain
      have hgrown := (sound_of_loop hs ha hloop).grown hfin hinj
      exact (hgrown.exists_activeChain_iff hac hactive (hmem hnew)).1
        ((inform_unchanged_iff hs ha hinj hloop).1 h hnew hchain)
    · intro h
      rcases inform_cases K s now a updates with ⟨e, he⟩ | ⟨st, last, -, hloop⟩
      · rw [he]
        exact fun _ => rfl
      · have hgrown := (sound_of_loop hs ha hloop).grown hfin hinj
        exact (inform_unchanged_iff hs ha hinj hloop).2 fun hnew hchain =>
          (hgrown.exists_activeChain_iff hac hactive (hmem hnew)).2 (h ⟨st, hloop⟩ hnew hchain)
  · have hverified := inform_added_verified hs ha hinj hok hu hnew
    exact ⟨hverified, fun n p sp hp hsp =>
      hverified.aumVerify_computeStateAt (consistent_inform hs ha hinj now) hp hsp⟩

theorem inform_verifies_noOp : ∃ a,
    openAuthority (chonk sampleCrypto) (sampleMem [sampleCheckpoint none 1] 0x1) = .ok a ∧
    VerifiedIn sampleCrypto ((chonk sampleCrypto).stored (informIdempotent
      (chonk sampleCrypto) (sampleMem [sampleCheckpoint none 1] 0x1) 0 a
      [sampleNoOp 0x1 3]).2) (sampleNoOp 0x1 3) := by
  have hopen : openAuthority (chonk sampleCrypto)
      (sampleMem [sampleCheckpoint none 1] 0x1) = .ok ⟨sampleCheckpoint none 1,
        sampleCheckpoint none 1, { sampleState 1 with lastAUMHash := some 0x1 }⟩ := by decide
  have hinj : Set.InjOn sampleCrypto.hash ((chonk sampleCrypto).stored
      (sampleMem [sampleCheckpoint none 1] 0x1) ∪ {u | u ∈ [sampleNoOp 0x1 3]}) :=
    injOn_sampleMem 0x1 (by decide)
  have hac := Grounded.acyclic (L := (forkRule sampleCrypto).toLinked) hinj (by
    rintro u (hu | hu)
    · rw [stored_sampleMem 0x1 (by decide), Set.mem_ofPred_eq, mem_singleton] at hu
      exact ⟨0, u, .zero u, oldest_of_parent_none (hu ▸ rfl)⟩
    · obtain rfl := mem_singleton.1 hu
      exact ⟨1, sampleCheckpoint none 1, .single ⟨.inl (by decide), by decide⟩,
        oldest_of_parent_none rfl⟩)
  exact ⟨_, hopen, ((inform_all_or_nothing_iff (consistent_sampleMem 0x1 (by decide)) hopen hinj
    hac).2 ⟨_, rfl⟩ _ (by decide) (by decide)).1⟩

/-! ### A chain as long as the scan limit

A chain of `maxScanIterations` AUMs can be opened.  With one more AUM it cannot, so an
update that is not a chain from the head fails when the AUM is already stored. -/

/-- A digest that counts. -/
def countCrypto : Crypto where
  hash a := .ofNat 256 (a.votes.getD 0)
  verify _ _ _ := true

/-- AUM `i` of the chain: a checkpoint, then no-ops. -/
def longAUM : Nat → AUM
  | 0 => sampleCheckpoint none 1
  | i + 1 => sampleNoOp (.ofNat 256 i) (i + 1)

def longState (i : Nat) : State :=
  { sampleState 1 with lastAUMHash := some (.ofNat 256 i) }

theorem hash_longAUM (i : Nat) : countCrypto.hash (longAUM i) = .ofNat 256 i := by
  cases i <;> rfl

theorem parent_longAUM (i : Nat) : (longAUM (i + 1)).parent = some (.ofNat 256 i) :=
  AUM.parent_of_prevAUMHash rfl

theorem aumVerify_longAUM (i : Nat) :
    aumVerify countCrypto (longAUM (i + 1)) (longState i) false = .ok () := by
  refine bind_eq_ok_iff.2 ⟨(), ?_, bind_eq_ok_iff.2 ⟨(), ?_,
    bind_eq_ok_iff.2 ⟨(), ?_, bind_eq_ok_iff.2 ⟨(), rfl, rfl⟩⟩⟩⟩
  · unfold AUM.staticValidate
    simp [longAUM, sampleNoOp, AUM.validateFields, sampleSignature]
  · simp [checkParent, parent_longAUM, longState]
  · simp [longAUM, sampleNoOp]

theorem apply_longAUM (i : Nat) :
    (longState i).applyVerifiedAUM countCrypto (longAUM (i + 1)) = .ok (longState (i + 1)) := by
  refine bind_eq_ok_iff.2 ⟨(), ?_, ?_⟩
  · simp [State.parentMatches, longState, longAUM, sampleNoOp]
  · rfl

/-- The first `n + 1` AUMs of the chain. -/
def longSet (n : Nat) : Set AUM := {a | ∃ i ≤ n, a = longAUM i}

theorem longSet_succ (n : Nat) :
    longSet (n + 1) = longSet n ∪ {a | a ∈ [longAUM n, longAUM (n + 1)]} := by
  ext a
  constructor
  · rintro ⟨i, hi, rfl⟩
    rcases lt_or_eq_of_le hi with hlt | rfl
    · exact .inl ⟨i, le_of_lt_succ hlt, rfl⟩
    · exact .inr (mem_cons_of_mem _ mem_cons_self)
  · rintro (⟨i, hi, rfl⟩ | ha)
    · exact ⟨i, le_succ_of_le hi, rfl⟩
    · rcases mem_cons.1 ha with rfl | ha
      · exact ⟨n, le_succ n, rfl⟩
      · exact ⟨n + 1, le_rfl, mem_singleton.1 ha⟩

variable {i : Nat}

theorem hash_longAUM_inj {j : Nat} (hi : i < 2 ^ 256) (hj : j < 2 ^ 256)
    (h : countCrypto.hash (longAUM i) = countCrypto.hash (longAUM j)) : i = j := by
  have := congrArg BitVec.toNat h
  rwa [hash_longAUM, hash_longAUM, BitVec.toNat_ofNat, BitVec.toNat_ofNat, mod_eq_of_lt hi,
    mod_eq_of_lt hj] at this

theorem injOn_longSet (hn : n < 2 ^ 256) : Set.InjOn countCrypto.hash (longSet n) := by
  rintro _ ⟨i, hi, rfl⟩ _ ⟨j, hj, rfl⟩ h
  rw [hash_longAUM_inj (lt_of_le_of_lt hi hn) (lt_of_le_of_lt hj hn) h]

theorem up_longAUM (hi : i ≤ n) :
    (forkRule countCrypto).Up (longSet n) (longAUM (i + 1)) (longAUM i) :=
  ⟨⟨i, hi, rfl⟩, by rw [child_iff, parent_longAUM, hash_longAUM]⟩

theorem steps_longAUM (hi : i ≤ n) :
    Steps ((forkRule countCrypto).Up (longSet n)) i (longAUM i) (longAUM 0) := by
  induction i with
  | zero => exact .zero _
  | succ i ih => exact .succ (up_longAUM (by omega)) (ih (by omega))

theorem stateAt_longAUM (hi : i ≤ n) :
    StateAt countCrypto (longSet n) i (longAUM i) (longState i) := by
  induction i with
  | zero => exact .base ⟨0, hi, rfl⟩ (.inl rfl) rfl
  | succ i ih =>
    have hkind : (longAUM (i + 1)).messageKind ≠ .checkpoint := by simp [longAUM, sampleNoOp]
    exact .step (ih (by omega)) ⟨i + 1, hi, rfl⟩ hkind (apply_longAUM i)

theorem verifiedTree_longSet (hn : n < 2 ^ 256) :
    VerifiedTree countCrypto (longSet n) (longAUM 0) where
  finite := by
    refine (((List.range (n + 1)).map longAUM).finite_toSet).subset ?_
    rintro _ ⟨i, hi, rfl⟩
    exact mem_map_of_mem (mem_range.2 (by omega))
  injOn := injOn_longSet hn
  rooted := by
    refine ⟨⟨0, zero_le n, rfl⟩, ?_, ?_⟩
    · rintro p ⟨-, hp⟩
      cases hp
    · rintro _ ⟨i, hi, rfl⟩
      exact ⟨i, steps_longAUM hi⟩
  base := ⟨_, stateAt_longAUM (zero_le n)⟩
  verified := by
    rintro _ ⟨i, hi, rfl⟩ hne
    cases i with
    | zero => exact absurd rfl hne
    | succ i =>
      exact ⟨i, longAUM i, longState i, longState (i + 1), stateAt_longAUM (by omega),
        aumVerify_longAUM i, apply_longAUM i⟩

/-- The chain is within a bound exactly when it has no more AUMs. -/
theorem within_longSet_iff {k : Nat} (hn : n < 2 ^ 256) :
    (forkRule countCrypto).Within (longSet n) k ↔ n < k := by
  constructor
  · exact fun h => h _ ⟨n, le_rfl, rfl⟩ n _ (steps_longAUM le_rfl)
  · rintro hk _ ⟨i, hi, rfl⟩ l b hlb
    have := (verifiedTree_longSet hn).rooted.le_of_steps (injOn_longSet hn) (steps_longAUM hi) hlb
    omega

theorem eq_of_child_longAUM (hn : n < 2 ^ 256) (hi : i ≤ n) {c : AUM} (hc : c ∈ longSet n)
    (hchild : (forkRule countCrypto).Child (longAUM i) c) : i < n ∧ c = longAUM (i + 1) := by
  obtain ⟨j, hj, rfl⟩ := hc
  cases j with
  | zero => cases hchild
  | succ j =>
    rw [child_iff, parent_longAUM, Option.some.injEq, ← hash_longAUM] at hchild
    obtain rfl := hash_longAUM_inj (by omega) (by omega) hchild
    exact ⟨hj, rfl⟩

theorem current_longSet (hn : n < 2 ^ 256) :
    Current countCrypto (longSet n) ⟨longAUM n, longAUM 0, longState n⟩ where
  tree := verifiedTree_longSet hn
  primary := by
    refine ⟨longState 0, stateAt_longAUM (zero_le n), n, ?_⟩
    have h : ∀ i ≤ n, Steps ((forkRule countCrypto).Descend (longSet n)) i
        (longAUM 0, longState 0) (longAUM i, longState i) := by
      intro i hi
      induction i with
      | zero => exact .zero _
      | succ i ih =>
        refine (ih (by omega)).snoc ⟨wins_of_only ⟨i + 1, hi, rfl⟩ (up_longAUM
          (le_of_succ_le hi)).2 fun c hc hchild => ?_, advance_eq_some_iff.2
          (apply_longAUM i)⟩
        exact (eq_of_child_longAUM hn (le_of_succ_le hi) hc hchild).2
    exact h n le_rfl
  tip := fun c hc hchild => absurd (eq_of_child_longAUM hn le_rfl hc hchild).1 (lt_irrefl n)

/-- A storage with the first `n + 1` AUMs of the chain. -/
def longMem (n : Nat) : Mem :=
  (chonk countCrypto).setLastActiveAncestor ((chonk countCrypto).commitVerifiedAUMs {} 0
    ((List.range (n + 1)).map longAUM)) 0

theorem longMem_spec (hn : n < 2 ^ 256) : (chonk countCrypto).Consistent (longMem n) ∧
      (chonk countCrypto).stored (longMem n) = longSet n := by
  have hset : {a | a ∈ (List.range (n + 1)).map longAUM} = longSet n := by
    ext a
    simp only [mem_map, mem_range]
    constructor
    · rintro ⟨i, hi, rfl⟩
      exact ⟨i, by omega, rfl⟩
    · rintro ⟨i, hi, rfl⟩
      exact ⟨i, by omega, rfl⟩
  have hfree : countCrypto.CollisionFree ((List.range (n + 1)).map longAUM) := by
    have := injOn_longSet hn
    rwa [← hset] at this
  exact ⟨consistent_of_list 0 0 hfree, (stored_of_list 0 0 hfree).trans hset⟩

/-- A chain within the scan limit can be opened. -/
theorem openAuthority_longMem (hn : n < maxScanIterations) :
    openAuthority (chonk countCrypto) (longMem n) =
      .ok ⟨longAUM n, longAUM 0, longState n⟩ := by
  have hlt : n < 2 ^ 256 := lt_trans hn (by decide)
  obtain ⟨hs, hstored⟩ := longMem_spec hlt
  refine (computeActiveChain_eq_ok_iff hs).2 ?_
  rw [hstored]
  exact (current_longSet hlt).activeChain ((within_longSet_iff hlt).2 hn)

/-- **An error after the commit**: the chain is one AUM longer than the scan limit, the call
fails, and the AUM stays stored. -/
theorem inform_error_after_commit : ∃ a e,
    openAuthority (chonk countCrypto) (longMem 1999) = .ok a ∧
    (informIdempotent (chonk countCrypto) (longMem 1999) 0 a
      [longAUM 1999, longAUM 2000]).1 = .error e ∧
    longAUM 2000 ∉ (chonk countCrypto).stored (longMem 1999) ∧
    longAUM 2000 ∈ (chonk countCrypto).stored (informIdempotent (chonk countCrypto)
      (longMem 1999) 0 a [longAUM 1999, longAUM 2000]).2 := by
  obtain ⟨hs, hstored⟩ := longMem_spec (n := 1999) (by decide)
  have htree := verifiedTree_longSet (n := 1999) (by decide)
  have hwithin := (within_longSet_iff (n := 1999) (k := maxScanIterations) (by decide)).2
    (by decide)
  have hstate := stateAt_longAUM (n := 1999) le_rfl
  have hinj := injOn_longSet (n := 2000) (by decide)
  have hold : longAUM 1999 ∈ longSet 1999 := ⟨1999, le_rfl, rfl⟩
  have hnew : longAUM 2000 ∉ longSet 1999 := by
    rintro ⟨i, hi, heq⟩
    have := hash_longAUM_inj (by decide) (by omega) (congrArg countCrypto.hash heq)
    omega
  rw [longSet_succ] at hinj
  rw [← hstored] at htree hwithin hstate hinj hold hnew
  have ha : ∃ n, StateAt countCrypto ((chonk countCrypto).stored (longMem 1999)) n
    (longAUM 1999) (longState 1999) := ⟨_, hstate⟩
  -- the stored AUM and the next one are accepted, not as a chain from the head
  obtain ⟨st, hloop⟩ := ((sound_progress
    (a := ⟨longAUM 1999, longAUM 0, longState 1999⟩) ha).loop_ok_iff hs htree.acyclic hwithin
    hinj).2 ⟨.inl hold, .inr ⟨_, _, _, ⟨_, .inl hstate⟩, aumVerify_longAUM 1999,
      apply_longAUM 1999⟩,
      trivial⟩
  have herr : ∃ e, (informIdempotent (chonk countCrypto) (longMem 1999) 0
      ⟨longAUM 1999, longAUM 0, longState 1999⟩ [longAUM 1999, longAUM 2000]).1 = .error e := by
    rw [exists_eq_error_iff]
    intro hok
    have hchain := (inform_unchanged_iff hs ha hinj hloop).1
      (fun he => absurd hok (exists_eq_error_iff.1 he)) ⟨_, mem_cons_of_mem _ mem_cons_self, hnew⟩
      fun h => h.1 _ mem_cons_self hold
    -- the recomputation would have to walk a chain longer than the limit
    rw [hstored, ← longSet_succ, (verifiedTree_longSet (by decide)).exists_activeChain_iff,
      within_longSet_iff (by decide)] at hchain
    exact absurd hchain (by decide)
  obtain ⟨e, he⟩ := herr
  refine ⟨_, e, openAuthority_longMem (by decide), he, hnew, ?_⟩
  rw [inform_eq_of_loop rfl hloop, ((sound_of_loop hs ha hloop).commit hs hinj 0).2]
  exact .inr (mem_cons_of_mem _ mem_cons_self)

end Multiport.Tka

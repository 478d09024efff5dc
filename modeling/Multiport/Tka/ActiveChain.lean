import Multiport.Tka.Authority
import Mathlib.Data.Prod.Lex

/-!
# What the authority computes from a storage

The AUMs of a storage form a forest, and fork resolution ranks the children of an AUM
by a total order, so `forkRule` is a fork rule in the sense of `Lib/ForkTree` and the
walks of the authority are paths in it:

* `fastForward` descends the primary chain;
* `StateAt N n a st` says that `st` is the state at `a`, computed from the checkpoint or
  genesis AUM `n` steps back, and `computeStateAt` computes it;
* `computeActiveChain_eq_ok_iff` says exactly when there is an active chain and what it
  is: every chain ends within the bound, one oldest AUM is selected, and the primary
  chain from there has a state.
-/

namespace Multiport.Tka

open Lib List Linked Chonk

variable {C : Crypto}

/-! ## Fork resolution is a total order -/

variable (C) in
/-- The fork rule as a rank: greatest weight, then key removals, then the lowest hash. -/
def forkRank (s : State) (a : AUM) : ℕᵒᵈ ×ₗ ℕ ×ₗ ℕ :=
  toLex (OrderDual.toDual (a.weight s),
    toLex (if a.messageKind = .removeKey then 0 else 1, (C.hash a).toNat))

variable {s : State} {a : AUM}

/-- **`pickNextAUM` compares by the rank.** -/
theorem forkPrecedes_iff {b : AUM} :
    forkPrecedes C s a b = true ↔ forkRank C s a < forkRank C s b := by
  simp only [forkRank, Prod.Lex.toLex_lt_toLex]
  unfold forkPrecedes
  split
  next hw => simp [hw]
  next hw =>
    rw [not_not] at hw
    simp only [hw]
    split
    next hk =>
      -- exactly one of the two removes a key
      by_cases ha : a.messageKind = .removeKey
      · have hb : b.messageKind ≠ .removeKey := fun hb => hk.1 (ha.trans hb.symm)
        simp [ha, hb]
      · have hb : b.messageKind = .removeKey := hk.2.resolve_left ha
        simp [ha, hb]
    next hk =>
      have hab : (a.messageKind = .removeKey) ↔ (b.messageKind = .removeKey) := by
        constructor
        · intro ha
          by_contra hb
          exact hk ⟨fun h => hb (h ▸ ha), .inl ha⟩
        · intro hb
          by_contra ha
          exact hk ⟨fun h => ha (h ▸ hb), .inr hb⟩
      simp only [hab, lt_irrefl, false_or, true_and, decide_eq_true_eq]
      exact BitVec.lt_def

variable (C) in
/-- The forest of AUMs with the fork rule of the authority. -/
def forkRule : ForkRule AUM AUMHash State (ℕᵒᵈ ×ₗ ℕ ×ₗ ℕ) where
  key := C.hash
  parent := AUM.parent
  rank := forkRank C
  key_eq_of_rank_eq {s a b} h := by
    simp only [forkRank, EmbeddingLike.apply_eq_iff_eq, Prod.mk.injEq] at h
    exact BitVec.eq_of_toNat_eq h.2.2
  advance s a := (s.applyVerifiedAUM C a).toOption

theorem child_iff {p : AUM} : (forkRule C).Child p a ↔ a.parent = some (C.hash p) := .rfl

instance {p a : AUM} : Decidable ((forkRule C).Child p a) :=
  inferInstanceAs (Decidable (a.parent = some (C.hash p)))

theorem oldest_of_parent_none {N : Set AUM} (h : a.parent = none) : (forkRule C).Oldest N a := by
  rintro p ⟨-, hp⟩
  rw [child_iff, h] at hp
  cases hp

theorem up_unique {N : Set AUM} {p q : AUM} (hN : Set.InjOn C.hash N) (hp : (forkRule C).Up N a p)
    (hq : (forkRule C).Up N a q) : p = q :=
  functional_up hN hp hq

variable {st : State}

theorem advance_eq_some_iff :
    (forkRule C).advance s a = some st ↔ s.applyVerifiedAUM C a = .ok st := by
  change (s.applyVerifiedAUM C a).toOption = some st ↔ _
  cases s.applyVerifiedAUM C a <;> simp [Except.toOption]

variable {l : List AUM}

theorem pickNextAUM_eq_none_iff : pickNextAUM C s l = none ↔ l = [] := by
  rw [pickNextAUM, List.head?_eq_none_iff, ← length_eq_zero_iff,
    length_insertionSort, length_eq_zero_iff]

theorem pickNextAUM_least (h : pickNextAUM C s l = some a) :
    a ∈ l ∧ ∀ c ∈ l, forkRank C s a ≤ forkRank C s c := by
  refine head?_insertionSort (fun a b => ?_) h
  rw [← not_lt, ← forkPrecedes_iff, Bool.not_eq_true]

/-! ## The primary chain -/

variable {σ : Type} {K : Chonk C σ} {s : σ} {x y : AUM × State} {done : AUM → Bool}

section

variable (hs : K.Consistent s)

include hs

theorem mem_childAUMs_iff {p : AUM} :
    a ∈ K.childAUMs s (C.hash p) ↔ a ∈ K.stored s ∧ (forkRule C).Child p a :=
  K.mem_childAUMs hs

theorem tip_iff_childAUMs : (forkRule C).Tip (K.stored s) a ↔ K.childAUMs s (C.hash a) = [] := by
  rw [eq_nil_iff_forall_not_mem]
  simp only [mem_childAUMs_iff hs, not_and]
  rfl

theorem mem_heads_iff : a ∈ K.heads s ↔ a ∈ K.stored s ∧ (forkRule C).Tip (K.stored s) a :=
  K.mem_heads hs

theorem wins_of_pickNextAUM {p : AUM} (h : pickNextAUM C st (K.childAUMs s (C.hash p)) = some a) :
    (forkRule C).Wins (K.stored s) st p a := by
  obtain ⟨ha, hleast⟩ := pickNextAUM_least h
  obtain ⟨hmem, hchild⟩ := (mem_childAUMs_iff hs).1 ha
  exact ⟨hmem, hchild, fun c hc hpc => hleast c ((mem_childAUMs_iff hs).2 ⟨hc, hpc⟩)⟩

/-- **`advanceByPrimary` goes one step down the primary chain.** -/
theorem advanceByPrimary_eq_some_iff :
    advanceByPrimary C x.2 (K.childAUMs s (C.hash x.1)) = .ok (some y) ↔
      (forkRule C).Descend (K.stored s) x y := by
  unfold advanceByPrimary ForkRule.Descend
  rw [advance_eq_some_iff]
  constructor
  · intro h
    split at h
    · cases h
    next a ha =>
      split at h
      · cases h
      next st hst =>
        cases h
        exact ⟨wins_of_pickNextAUM hs ha, hst⟩
  · rintro ⟨hw, hst⟩
    cases hp : pickNextAUM C x.2 (K.childAUMs s (C.hash x.1)) with
    | none =>
      rw [pickNextAUM_eq_none_iff] at hp
      have hy : y.1 ∈ K.childAUMs s (C.hash x.1) := (mem_childAUMs_iff hs).2 ⟨hw.mem, hw.child⟩
      rw [hp] at hy
      cases hy
    | some a =>
      obtain rfl := (wins_of_pickNextAUM hs hp).unique (K.injOn_stored s) hw
      simp [hst]

theorem advanceByPrimary_eq_none_iff :
    advanceByPrimary C x.2 (K.childAUMs s (C.hash x.1)) = .ok none ↔
      (forkRule C).Tip (K.stored s) x.1 := by
  rw [tip_iff_childAUMs hs, ← pickNextAUM_eq_none_iff (C := C) (s := x.2)]
  unfold advanceByPrimary
  split
  next h => simp [h]
  next h =>
    rw [h]
    split <;> simp

/-- One round of `fastForward` that goes on. -/
theorem follows_primary_iff : Follows (forwardStep K s (advanceByPrimary C) done) x y ↔
      done x.1 = false ∧ (forkRule C).Descend (K.stored s) x y := by
  unfold Follows forwardStep
  split
  next h => simp [h]
  next h => simp [h, advanceByPrimary_eq_some_iff hs]

/-- The last round of `fastForward`. -/
theorem primary_stops_iff : forwardStep K s (advanceByPrimary C) done x = .ok none ↔
      done x.1 = true ∨ (forkRule C).Tip (K.stored s) x.1 := by
  unfold forwardStep
  split
  next h => simp [h]
  next h => simp [h, advanceByPrimary_eq_none_iff hs]

/-- **`fastForward` follows the primary chain to its tip, or to where it is done.** -/
theorem fastForward_eq_ok_iff {n : Nat} (ha : a ∈ K.stored s)
    (hst : st.lastAUMHash = some (C.hash a)) : fastForward K s n st done = .ok y ↔ ∃ k < n,
      Steps (fun x y => done x.1 = false ∧ (forkRule C).Descend (K.stored s) x y) k (a, st) y ∧
      (done y.1 = true ∨ (forkRule C).Tip (K.stored s) y.1) := by
  unfold fastForward fastForwardWithAdvancer
  rw [hst]
  simp only [(aum_eq_some_iff hs).2 ⟨ha, rfl⟩, walk_eq_ok_iff, primary_stops_iff hs]
  have hfun : Follows (forwardStep K s (advanceByPrimary C) done) =
      fun x y => done x.1 = false ∧ (forkRule C).Descend (K.stored s) x y := by
    funext x y
    exact propext (follows_primary_iff hs)
  rw [hfun]

end

/-! ## The state at an AUM -/

variable {st' : State}

theorem lastAUMHash_apply (h : st.applyVerifiedAUM C a = .ok st') :
    st'.lastAUMHash = some (C.hash a) :=
  (State.applied_of_apply h).2.lastAUMHash

/-- An AUM is only applied to the state at the parent it names. -/
theorem prevAUMHash_of_apply {h : AUMHash} (happ : st.applyVerifiedAUM C a = .ok st')
    (hlast : st.lastAUMHash = some h) : a.prevAUMHash = some (hashBytes h) := by
  have hm := (State.applied_of_apply happ).1
  rw [State.parentMatches, hlast] at hm
  simp only [beq_iff_eq] at hm
  cases hp : a.prevAUMHash with
  | none =>
    rw [hp] at hm
    have := congrArg List.length hm
    simp at this
  | some b =>
    rw [hp, Option.getD_some] at hm
    rw [hm]

theorem parent_of_apply {h : AUMHash} (happ : st.applyVerifiedAUM C a = .ok st')
    (hlast : st.lastAUMHash = some h) : a.parent = some h :=
  AUM.parent_of_prevAUMHash (prevAUMHash_of_apply happ hlast)

variable (C) in
/-- `StateAt C N n a st`: the state at `a` is `st`, from the checkpoint or genesis AUM `n`
steps back and the AUMs of `N` between them. -/
inductive StateAt (N : Set AUM) : Nat → AUM → State → Prop
  | base {a : AUM} {st : State} (mem : a ∈ N)
      (start : a.messageKind = .checkpoint ∨ a.parent = none) (eq : baseState C a = .ok st) :
      StateAt N 0 a st
  | step {n : Nat} {p a : AUM} {sp st : State} (parent : StateAt N n p sp) (mem : a ∈ N)
      (kind : a.messageKind ≠ .checkpoint) (apply : sp.applyVerifiedAUM C a = .ok st) :
      StateAt N (n + 1) a st

variable {N M : Set AUM} {b p : AUM} {sp : State} {k m n : Nat}

theorem lastAUMHash_baseState (h : baseState C a = .ok st) : st.lastAUMHash = some (C.hash a) := by
  unfold baseState at h
  split at h
  · split at h
    · cases h
    · cases h
      rfl
  · split at h
    · exact lastAUMHash_apply (mapError_eq_ok_iff.1 h)
    · cases h

namespace StateAt

theorem mem (h : StateAt C N n a st) : a ∈ N := by
  cases h <;> assumption

theorem lastAUMHash (h : StateAt C N n a st) : st.lastAUMHash = some (C.hash a) := by
  cases h with
  | base _ _ heq => exact lastAUMHash_baseState heq
  | step _ _ _ happ => exact lastAUMHash_apply happ

theorem mono (hNM : N ⊆ M) (h : StateAt C N n a st) : StateAt C M n a st := by
  induction h with
  | base hmem hstart heq => exact .base (hNM hmem) hstart heq
  | step _ hmem hkind happ ih => exact .step ih (hNM hmem) hkind happ

theorem up_of_apply (h : StateAt C N n p sp) (happ : sp.applyVerifiedAUM C a = .ok st) :
    (forkRule C).Up N a p :=
  ⟨h.mem, parent_of_apply happ h.lastAUMHash⟩

/-- **The state at an AUM is unique.** -/
theorem unique (hN : Set.InjOn C.hash N) (h : StateAt C N n a st) (h' : StateAt C N m a st') :
    n = m ∧ st = st' := by
  induction h generalizing m st' with
  | base _ hstart heq =>
    cases h' with
    | base _ _ heq' => exact ⟨rfl, Except.ok.inj (heq.symm.trans heq')⟩
    | step hp _ hkind happ =>
      rcases hstart with hc | hnone
      · exact absurd hc hkind
      · rw [parent_of_apply happ hp.lastAUMHash] at hnone
        cases hnone
  | step hp _ hkind happ ih =>
    cases h' with
    | base _ hstart _ =>
      rcases hstart with hc | hnone
      · exact absurd hc hkind
      · rw [parent_of_apply happ hp.lastAUMHash] at hnone
        cases hnone
    | step hp' _ _ happ' =>
      obtain rfl := up_unique hN (hp.up_of_apply happ) (hp'.up_of_apply happ')
      obtain ⟨rfl, rfl⟩ := ih hp'
      exact ⟨rfl, Except.ok.inj (happ.symm.trans happ')⟩

/-- Applying an AUM to the state at its parent gives the state at the AUM.  A checkpoint
brings its own state, and starts the count anew. -/
theorem of_apply (h : StateAt C N n p sp) (ha : a ∈ N) (happ : sp.applyVerifiedAUM C a = .ok st) :
    ∃ m ≤ n + 1, StateAt C N m a st := by
  by_cases hk : a.messageKind = .checkpoint
  · refine ⟨0, Nat.zero_le _, .base ha (.inl hk) ?_⟩
    have happ := (State.applied_of_apply happ).2
    cases happ with
    | checkpoint _ hst => rw [baseState, if_pos hk, hst]
    | addKey hkind | updateKey hkind | removeKey hkind => rw [hk] at hkind; cases hkind
    | other hkind => exact absurd hk hkind
  · exact ⟨n + 1, le_rfl, .step h ha hk happ⟩

/-- The count is the length of a chain of stored AUMs. -/
theorem exists_steps (h : StateAt C N n a st) : ∃ b, Steps ((forkRule C).Up N) n a b := by
  induction h with
  | base => exact ⟨_, .zero _⟩
  | step hp _ _ happ ih =>
    obtain ⟨b, hb⟩ := ih
    exact ⟨b, .succ (hp.up_of_apply happ) hb⟩

end StateAt

theorem stateAt_of_descend (h : Steps ((forkRule C).Descend N) k x y)
    (hx : ∃ n, StateAt C N n x.1 x.2) : ∃ n, StateAt C N n y.1 y.2 := by
  refine h.keeps (P := fun z => ∃ n, StateAt C N n z.1 z.2) ?_ hx
  rintro a b ⟨n, hn⟩ ⟨hw, hadv⟩
  obtain ⟨m, -, hm⟩ := hn.of_apply hw.mem (advance_eq_some_iff.1 hadv)
  exact ⟨m, hm⟩

/-! ## `computeStateAt` computes the state at an AUM -/

theorem backStep_stops_iff {y : AUM × List AUMHash} : backStep K s y = .ok none ↔
    y.1.messageKind = .checkpoint ∨ y.1.parent = none := by
  unfold backStep
  split
  next h => simp [h]
  next h =>
    split
    next hp => simp [hp]
    next hp => split <;> simp [h, hp]

variable {path : List AUMHash}

theorem advanceOnPath_eq_some (h : advanceOnPath C path st l = .ok (some y)) :
    y.1 ∈ l ∧ st.applyVerifiedAUM C y.1 = .ok y.2 := by
  unfold advanceOnPath at h
  split at h
  · cases h
  next c hc =>
    split at h
    · cases h
    next st' hst =>
      cases h
      exact ⟨mem_of_find?_eq_some hc, hst⟩

theorem path_stops (h : forwardStep K s (advanceOnPath C path) done x = .ok none) :
    done x.1 = true := by
  unfold forwardStep at h
  split at h
  · assumption
  · unfold advanceOnPath at h
    split at h
    · cases h
    · split at h <;> cases h

variable (hs : K.Consistent s)

include hs

theorem follows_back_iff {x y : AUM × List AUMHash} :
    Follows (backStep K s) x y ↔ x.1.messageKind ≠ .checkpoint ∧
      (forkRule C).Up (K.stored s) x.1 y.1 ∧ y.2 = C.hash x.1 :: x.2 := by
  unfold Follows backStep
  split
  next h => simp [h]
  next h =>
    cases hp : x.1.parent with
    | none => simp [Up, child_iff, hp]
    | some p =>
      simp only
      constructor
      · intro hy
        split at hy
        · cases hy
        next a ha =>
          cases hy
          obtain ⟨hmem, rfl⟩ := (aum_eq_some_iff hs).1 ha
          exact ⟨h, ⟨hmem, hp⟩, rfl⟩
      · rintro ⟨-, ⟨hmem, hpar⟩, hy⟩
        have : K.aum s p = some y.1 := by
          rw [child_iff, hp] at hpar
          exact (aum_eq_some_iff hs).2 ⟨hmem, (Option.some.inj hpar).symm⟩
        rw [this]
        simp [← hy]

/-- Walking on a path from the state at an AUM gives the states at the AUMs passed. -/
theorem stateAt_of_path (h : Steps (Follows (forwardStep K s (advanceOnPath C path) done)) k x y)
    (hx : StateAt C (K.stored s) n x.1 x.2) : ∃ m ≤ n + k, StateAt C (K.stored s) m y.1 y.2 := by
  induction h generalizing n with
  | zero => exact ⟨n, le_rfl, hx⟩
  | @succ k x w y hxw _ ih =>
    unfold Follows forwardStep at hxw
    split at hxw
    · cases hxw
    · obtain ⟨hmem, happ⟩ := advanceOnPath_eq_some hxw
      obtain ⟨m, hm, hw⟩ := hx.of_apply ((mem_childAUMs_iff hs).1 hmem).1 happ
      obtain ⟨m', hm', hy⟩ := ih hw
      exact ⟨m', by omega, hy⟩

/-- **What `computeStateAt` returns is the state at the AUM.** -/
theorem computeStateAt_sound {want : AUMHash} (h : computeStateAt K s n want = .ok st) :
    ∃ a, K.aum s want = some a ∧ ∃ m < n, StateAt C (K.stored s) m a st := by
  unfold computeStateAt at h
  split at h
  · cases h
  next top htop =>
    obtain ⟨base, hback, h⟩ := bind_eq_ok_iff.1 h
    obtain ⟨st₀, hbase, h⟩ := bind_eq_ok_iff.1 h
    obtain ⟨y, hfwd, h⟩ := bind_eq_ok_iff.1 h
    obtain ⟨_, -, hsteps, hstop⟩ := walk_eq_ok_iff.1 hback
    have hmem : base.1 ∈ K.stored s := hsteps.keeps (P := fun z => z.1 ∈ K.stored s)
      (fun _ hz => ((follows_back_iff hs).1 hz).2.1.1) ((aum_eq_some_iff hs).1 htop).1
    have h₀ : StateAt C (K.stored s) 0 base.1 st₀ :=
      .base hmem (backStep_stops_iff.1 hstop) hbase
    unfold fastForwardWithAdvancer at hfwd
    rw [h₀.lastAUMHash] at hfwd
    simp only [(aum_eq_some_iff hs).2 ⟨hmem, rfl⟩, walk_eq_ok_iff] at hfwd
    obtain ⟨k, hk, hpath, hdone⟩ := hfwd
    obtain ⟨m, hm, hy⟩ := stateAt_of_path hs hpath h₀
    have hwant := path_stops hdone
    rw [decide_eq_true_eq] at hwant
    split at h
    · cases h
      exact ⟨y.1, (aum_eq_some_iff hs).2 ⟨hy.mem, hwant⟩, m, by omega, hy⟩
    · cases h

theorem follows_back_of_stateAt (h : StateAt C (K.stored s) n a st) (path : List AUMHash) :
    ∃ b path' st₀,
      Steps (Follows (backStep K s)) n (a, path) (b, path') ∧
      Steps ((forkRule C).Up (K.stored s)) n a b ∧
      (b.messageKind = .checkpoint ∨ b.parent = none) ∧ baseState C b = .ok st₀ ∧
      ∀ g, g ∈ path' ↔ g ∈ path ∨
        ∃ j < n, ∃ c, Steps ((forkRule C).Up (K.stored s)) j a c ∧ C.hash c = g := by
  induction h generalizing path with
  | @base a st hmem hstart heq =>
    exact ⟨a, path, st, .zero _, .zero _, hstart, heq, by simp⟩
  | @step n p a sp st hp hmem hkind happ ih =>
    obtain ⟨b, path', st₀, hback, hup, hstart, heq, hpath⟩ := ih (C.hash a :: path)
    have hap := hp.up_of_apply happ
    refine ⟨b, path', st₀, .succ ((follows_back_iff hs).2 ⟨hkind, hap, rfl⟩) hback,
      .succ hap hup, hstart, heq, fun g => ?_⟩
    rw [hpath, mem_cons]
    constructor
    · rintro ((rfl | hg) | ⟨j, hj, c, hc, rfl⟩)
      · exact .inr ⟨0, Nat.succ_pos n, a, .zero a, rfl⟩
      · exact .inl hg
      · exact .inr ⟨j + 1, Nat.succ_lt_succ hj, c, .succ hap hc, rfl⟩
    · rintro (hg | ⟨j, hj, c, hc, rfl⟩)
      · exact .inl (.inr hg)
      · cases hc with
        | zero => exact .inl (.inl rfl)
        | succ hac hc =>
          obtain rfl := up_unique (K.injOn_stored s) hap hac
          exact .inr ⟨_, Nat.lt_of_succ_lt_succ hj, c, hc, rfl⟩

variable (hac : (forkRule C).Acyclic (K.stored s))

include hac

section

variable {top : AUM} {d : Nat} (hpath : ∀ c, C.hash c ∈ path → c ∈ K.stored s →
  ∃ j, Steps ((forkRule C).Up (K.stored s)) j top c)

include hpath

/-- At an AUM on the path below its end, the advancer finds the next AUM on the path. -/
theorem find?_path (ha : a ∈ K.stored s)
    (hta : Steps ((forkRule C).Up (K.stored s)) d top a) (hap : (forkRule C).Up (K.stored s) a p)
    (hmem : C.hash a ∈ path) :
    (K.childAUMs s (C.hash p)).find? (fun c => path.contains (C.hash c)) = some a := by
  have honly : ∀ c ∈ K.childAUMs s (C.hash p), path.contains (C.hash c) = true → c = a := by
    intro c hc hcp
    rw [contains_iff_mem] at hcp
    obtain ⟨hcs, hchild⟩ := (mem_childAUMs_iff hs).1 hc
    obtain ⟨j, hj⟩ := hpath c hcp hcs
    -- `c` and `a` are at the same distance from the end of the path
    have hlen := hac.length_unique (K.injOn_stored s) (hta.snoc hap) (hj.snoc ⟨hap.1, hchild⟩)
    obtain rfl : d = j := by omega
    exact hj.unique (functional_up (K.injOn_stored s)) hta
  have hchild : a ∈ K.childAUMs s (C.hash p) := (mem_childAUMs_iff hs).2 ⟨ha, hap.2⟩
  cases hf : (K.childAUMs s (C.hash p)).find? (fun c => path.contains (C.hash c)) with
  | none =>
    rw [List.find?_eq_none] at hf
    exact absurd (contains_iff_mem.2 hmem) (hf a hchild)
  | some c =>
    have hc := List.find?_some hf
    rw [honly c (mem_of_find?_eq_some hf) hc]

theorem follows_path_of_stateAt (htop : top ∈ K.stored s) (h : StateAt C (K.stored s) n a st)
    (hpath' : ∀ j ≤ d + n, ∀ c, Steps ((forkRule C).Up (K.stored s)) j top c → C.hash c ∈ path)
    (hta : Steps ((forkRule C).Up (K.stored s)) d top a) :
    ∃ b st₀, Steps ((forkRule C).Up (K.stored s)) n a b ∧ baseState C b = .ok st₀ ∧
      Steps (Follows (forwardStep K s (advanceOnPath C path) fun c => C.hash c = C.hash top)) n
        (b, st₀) (a, st) := by
  induction h generalizing d with
  | @base a st _ _ heq => exact ⟨a, st, .zero _, heq, .zero _⟩
  | @step n p a sp st hp ha hkind happ ih =>
    have hap := hp.up_of_apply happ
    obtain ⟨b, st₀, hup, heq, hfwd⟩ := ih (d := d + 1)
      (fun j hj c hc => hpath' j (by omega) c hc) (hta.snoc hap)
    refine ⟨b, st₀, .succ hap hup, heq, hfwd.snoc ?_⟩
    have hpt : C.hash p ≠ C.hash top := fun hpt =>
      hac top d (K.injOn_stored s hp.mem htop hpt ▸ hta.snoc hap)
    unfold Follows forwardStep
    simp only [hpt]
    rw [advanceOnPath, find?_path hs hac hpath ha hta hap (hpath' d (by omega) a hta)]
    simp [happ]

end

/-- **`computeStateAt` finds the state at an AUM when it is within the bound.** -/
theorem computeStateAt_complete (h : StateAt C (K.stored s) m a st) (hm : m < n) :
    computeStateAt K s n (C.hash a) = .ok st := by
  obtain ⟨b, path, st₀, hback, hup, hstart, heq, hmem⟩ := follows_back_of_stateAt hs h []
  have hpath : ∀ c, C.hash c ∈ C.hash b :: path → c ∈ K.stored s →
      ∃ j, Steps ((forkRule C).Up (K.stored s)) j a c := by
    intro c hc hcs
    rcases mem_cons.1 hc with hcb | hc
    · have hb : b ∈ K.stored s := mem_of_steps_up hup h.mem
      exact ⟨m, K.injOn_stored s hcs hb hcb ▸ hup⟩
    · obtain ⟨j, -, c', hc', heq'⟩ := ((hmem _).1 hc).resolve_left (by simp)
      exact ⟨j, K.injOn_stored s (mem_of_steps_up hc' h.mem) hcs heq' ▸ hc'⟩
  have hpath' : ∀ j ≤ 0 + m, ∀ c, Steps ((forkRule C).Up (K.stored s)) j a c →
      C.hash c ∈ C.hash b :: path := by
    intro j hj c hc
    rcases lt_or_ge j m with hlt | hge
    · exact mem_cons_of_mem _ ((hmem _).2 (.inr ⟨j, hlt, c, hc, rfl⟩))
    · obtain rfl : j = m := by omega
      rw [hc.unique (functional_up (K.injOn_stored s)) hup]
      exact mem_cons_self
  obtain ⟨b', st', hup', heq', hfwd⟩ :=
    follows_path_of_stateAt hs hac hpath h.mem h hpath' (.zero a)
  obtain rfl := hup.unique (functional_up (K.injOn_stored s)) hup'
  cases heq.symm.trans heq'
  have hb : b ∈ K.stored s := mem_of_steps_up hup h.mem
  unfold computeStateAt
  rw [(aum_eq_some_iff hs).2 ⟨h.mem, rfl⟩]
  refine bind_eq_ok_iff.2 ⟨(b, path), walk_eq_ok_iff.2 ⟨m, by omega, hback,
    backStep_stops_iff.2 hstart⟩, bind_eq_ok_iff.2 ⟨st₀, heq, bind_eq_ok_iff.2 ⟨(a, st), ?_, ?_⟩⟩⟩
  · unfold fastForwardWithAdvancer
    rw [lastAUMHash_baseState heq]
    simp only [(aum_eq_some_iff hs).2 ⟨hb, rfl⟩]
    exact walk_eq_ok_iff.2 ⟨m, hm, hfwd, by simp [forwardStep]⟩
  · simp [h.lastAUMHash]

end Multiport.Tka

import Multiport.Tka.Converge

/-!
# Synchronisation

Two authorities exchange an offer (the head and a sparse sample of its ancestors), compute
from the other one's offer the AUMs the other may be missing, and take in what they receive.

What an authority sends is a trail of its primary chain, from an AUM that the other one has
stored too to its own head (`Current.missingAUMs`).  The other one can therefore verify all
of it, and afterwards both have stored the primary chains of both.  The primary chain of the
union of the two trees is one of the two (`ForkRule.descend_union`), so both end on it.
-/

namespace Multiport.Tka

open Lib Tailcfg List ForkRule Set Prod

/-! ## Offers -/

/-- Max iterations searching for any intersection during the sync process. -/
def maxSyncIter : Nat := 2000

/-- Max iterations searching for a head intersection during the sync process. -/
def maxSyncHeadIntersectionIter : Nat := 400

/-- The starting number of AUMs to skip when listing ancestors. -/
def ancestorsSkipStart : Nat := 4

/-- How many bits to advance the skip count. -/
def ancestorsSkipShift : Nat := 2

structure SyncOffer where
  head : AUMHash
  ancestors : List AUMHash
  deriving DecidableEq, Repr

variable {C : Crypto} {σ : Type} (K : Chonk C σ)

/-- The cursor after `copy(curs[:], aum.PrevAUMHash)`. -/
def AUM.copyPrev (a : AUM) (curs : AUMHash) : AUMHash := copyHash curs (a.prevAUMHash.getD [])

/-- The loop of `SyncOffer` from its round `i` on, with `n` rounds left. -/
def sampleAncestors (s : σ) (oldest : AUMHash) (n i skipAmount : Nat) (curs : AUMHash) :
    List AUMHash :=
  match n with
  | 0 => []
  | n + 1 =>
    let hit := 0 < i ∧ i % skipAmount = 0
    (if hit then [curs] else []) ++
      match K.aum s curs with
      | none => []
      | some parent =>
        if C.hash parent = oldest then []
        else sampleAncestors s oldest n (i + 1)
          (if hit then skipAmount <<< ancestorsSkipShift else skipAmount) (parent.copyPrev curs)

def Authority.syncOffer (s : σ) (a : Authority) : SyncOffer where
  head := a.headHash
  ancestors := sampleAncestors K s (C.hash a.oldestAncestor) maxSyncHeadIntersectionIter 0
    ancestorsSkipStart a.headHash ++ [C.hash a.oldestAncestor]

/-! ## Intersections -/

inductive SyncError
  | noIntersection
  | computeStateAt (e : Error)
  | fastForward (e : Error)
  | intersection (e : SyncError)
  | unreachable
  deriving DecidableEq, Repr

structure Intersection where
  upToDate : Bool := false
  headIntersection : Option AUMHash := none
  tailIntersection : Option AUMHash := none
  deriving DecidableEq, Repr

/-- The walk back from `curs`, whether it meets `target` within `n` rounds. -/
def meetsHead (s : σ) (target : AUMHash) : Nat → AUMHash → Bool
  | 0, _ => false
  | n + 1, curs =>
    match K.aum s curs with
    | none => false
    | some parent =>
      if C.hash parent = target then true else meetsHead s target n (parent.copyPrev curs)

/-- The search for a tail intersection: the first ancestor from which the primary chain
leads to the local head. -/
def findTail (s : σ) (localHead : AUMHash) : List AUMHash → Except SyncError Intersection
  | [] => .error .noIntersection
  | a :: ancestors =>
    match computeStateAt K s maxSyncIter a with
    | .error .notExist => findTail s localHead ancestors
    | .error e => .error (.computeStateAt e)
    | .ok state =>
      match fastForward K s maxSyncIter state fun curs => C.hash curs = localHead with
      | .error e => .error (.fastForward e)
      | .ok x =>
        if C.hash x.1 = localHead then .ok { tailIntersection := some a }
        else findTail s localHead ancestors

def computeSyncIntersection (s : σ) (localOffer remoteOffer : SyncOffer) :
    Except SyncError Intersection :=
  if remoteOffer.head = localOffer.head then
    .ok { upToDate := true, headIntersection := some localOffer.head }
  else if (K.aum s remoteOffer.head).isSome ∧
      meetsHead K s remoteOffer.head maxSyncHeadIntersectionIter localOffer.head then
    .ok { headIntersection := some remoteOffer.head }
  else findTail K s localOffer.head remoteOffer.ancestors

/-! ## Missing AUMs -/

variable (C) in
/-- The `done` function of `MissingAUMs`: it collects the AUMs after the start, and never
ends the walk. -/
def collect (start : AUMHash) (out : List AUM) (curs : AUM) : List AUM :=
  if C.hash curs ≠ start then out ++ [curs] else out

/-- One round of the `fastForward` of `MissingAUMs`. -/
def collectStep (s : σ) (start : AUMHash) (x : (AUM × State) × List AUM) :
    Except Error (Option ((AUM × State) × List AUM)) :=
  match advanceByPrimary C x.1.2 (K.childAUMs s (C.hash x.1.1)) with
  | .error e => .error e
  | .ok none => .ok none
  | .ok (some y) => .ok (some (y, collect C start x.2 x.1.1))

/-- `fastForward` with the `done` function of `MissingAUMs`. -/
def collectForward (s : σ) (maxIter : Nat) (startState : State) (start : AUMHash) :
    Except Error (List AUM) :=
  match startState.lastAUMHash with
  | none => .error .invalidInitialState
  | some h =>
    match K.aum s h with
    | none => .error .readingNext
    | some curs =>
      (walk (collectStep K s start) .iterationLimit maxIter ((curs, startState), [])).map
        fun x => collect C start x.2 x.1.1

/-- The AUMs of the primary chain after an intersection. -/
def sendFrom (s : σ) (start : AUMHash) : Except SyncError (List AUM) := do
  let state ← (computeStateAt K s maxSyncIter start).mapError .computeStateAt
  (collectForward K s maxSyncIter state start).mapError .fastForward

def Authority.missingAUMs (s : σ) (a : Authority) (remoteOffer : SyncOffer) :
    Except SyncError (List AUM) := do
  let i ← (computeSyncIntersection K s (a.syncOffer K s) remoteOffer).mapError .intersection
  if i.upToDate then .ok []
  else
    match i.headIntersection, i.tailIntersection with
    | some start, _ => sendFrom K s start
    | none, some start => sendFrom K s start
    | none, none => .error .unreachable

/-- What a node does with the AUMs it receives: it informs its authority when there are
any. -/
def Authority.receive (s : σ) (now : Time) (a : Authority) (aums : List AUM) :
    Except Error Authority × σ :=
  if aums = [] then (.ok a, s) else informIdempotent K s now a aums

variable {K} {s : σ} {N : Set AUM} {a b : Authority} {r c u : AUM} {n : Nat} {g target : AUMHash}

/-! ## What an offer contains -/

variable (C) in
/-- The AUM with the hash `g` is an ancestor of `a` in `N`, or `a` itself. -/
def AncestorHash (N : Set AUM) (a : AUM) (g : AUMHash) : Prop :=
  ∃ k b, Steps ((forkRule C).Up N) k a b ∧ C.hash b = g

theorem AncestorHash.up {p : AUM} (hup : (forkRule C).Up N u p) (h : AncestorHash C N p g) :
    AncestorHash C N u g :=
  let ⟨k, b, hk, hb⟩ := h
  ⟨k + 1, b, .succ hup hk, hb⟩

/-- Below the root, copying the previous hash moves the cursor to the parent. -/
theorem VerifiedTree.exists_copyPrev (ht : VerifiedTree C N r) (hc : c ∈ N) (hcr : c ≠ r)
    (curs : AUMHash) : ∃ p, (forkRule C).Up N c p ∧ c.copyPrev curs = C.hash p := by
  obtain ⟨p, hp, hprev⟩ := ht.exists_up hc hcr
  exact ⟨p, hp, by rw [AUM.copyPrev, hprev, Option.getD_some, copyHash_hashBytes]⟩

variable {p : AUM} {sp : State} {m k : Nat} {x y : AUM × State} {start : AUMHash}
  {l : List (AUM × State)} {out : List AUM} {M : Set AUM} {seen : List AUM}

/-- The root names its parent, if it has one, by a full digest. -/
def FullPrev (r : AUM) : Prop := ∀ b ∈ r.prevAUMHash, b.length = 32

/-- On the way to a tip there is a first place where the walk is done. -/
theorem exists_stop (done : AUM → Bool) (h : Steps ((forkRule C).Descend N) k x y)
    (hy : (forkRule C).Tip N y.1) :
    ∃ j ≤ k, ∃ z, Steps (fun x y => done x.1 = false ∧ (forkRule C).Descend N x y) j x z ∧
      (done z.1 = true ∨ (forkRule C).Tip N z.1) := by
  induction h with
  | zero x => exact ⟨0, le_rfl, x, .zero x, .inr hy⟩
  | @succ k x w y hxw _ ih =>
    cases hx : done x.1 with
    | true => exact ⟨0, Nat.zero_le _, x, .zero x, .inl hx⟩
    | false =>
      obtain ⟨j, hj, z, hz, hstop⟩ := ih hy
      exact ⟨j + 1, Nat.succ_le_succ hj, z, .succ ⟨hx, hxw⟩ hz, hstop⟩

theorem foldl_collect (hl : ∀ z ∈ l, C.hash z.1 ≠ start) :
    l.foldl (fun out z => collect C start out z.1) out = out ++ l.map fst := by
  induction l generalizing out with
  | nil => simp
  | cons z l ih =>
    rw [foldl_cons, ih fun w hw => hl w (mem_cons_of_mem _ hw), collect,
      if_pos (hl z mem_cons_self)]
    simp

theorem trail_subset (h : Trail ((forkRule C).Descend M) x l y) (hx : x.1 ∈ M) :
    {u | u ∈ l.map fst} ⊆ M := by
  intro u hu
  obtain ⟨z, hz, rfl⟩ := mem_map.1 hu
  obtain ⟨k, hk⟩ := h.steps_of_mem hz
  exact mem_of_steps_descend hk hx

variable (K) in
/-- `sent` is a trail of the primary chain, from an AUM with a hash in `known` to the head. -/
def SentFrom (s : σ) (a : Authority) (known : AUMHash → Prop) (sent : List AUM) : Prop :=
  ∃ p sp l, (∃ m, StateAt C (K.stored s) m p sp) ∧ known (C.hash p) ∧
    Trail ((forkRule C).Descend (K.stored s)) (p, sp) l (a.head, a.state) ∧ sent = l.map fst

/-! ## Walks in the storage -/

section Walks

variable (hs : K.Consistent s)

include hs

/-- From the root, the cursor stays or leaves the tree. -/
theorem aum_copyPrev_root (hold : (forkRule C).Oldest (K.stored s) r) (hprev : FullPrev r) :
    r.copyPrev (C.hash r) = C.hash r ∨ K.aum s (r.copyPrev (C.hash r)) = none := by
  cases hb : r.prevAUMHash with
  | none => exact .inl (by rw [AUM.copyPrev, hb, Option.getD_none, copyHash_nil])
  | some b =>
    have hlen := hprev b hb
    have hne : b ≠ [] := ne_nil_of_length_pos (by rw [hlen]; decide)
    refine .inr ((Chonk.aum_eq_none_iff hs).2 fun p hp heq => hold p ⟨hp, ?_⟩)
    rw [child_iff, heq, AUM.copyPrev, AUM.parent, hb, Option.getD_some,
      copyHash_of_length hlen _ 0]
    simp [hne]

/-- The walk of `MissingAUMs` passes the places of a trail, and collects them. -/
theorem follows_collect (h : Trail ((forkRule C).Descend (K.stored s)) x l y) (start : AUMHash)
    (out : List AUM) :
    ∃ out', Steps (Follows (collectStep K s start)) l.length (x, out) (y, out') ∧
      collect C start out' y.1 = (x :: l).foldl (fun out z => collect C start out z.1) out := by
  induction h generalizing out with
  | nil x => exact ⟨out, .zero _, rfl⟩
  | @cons x w y l hxw _ ih =>
    obtain ⟨out', hsteps, hout⟩ := ih (collect C start out x.1)
    refine ⟨out', .succ ?_ hsteps, hout⟩
    rw [Follows, collectStep, (advanceByPrimary_eq_some_iff hs).2 hxw]

variable (ht : VerifiedTree C (K.stored s) r)

include ht

theorem ancestorHash_of_mem_sample (hc : c ∈ K.stored s) {i skip : Nat}
    (hmem : g ∈ sampleAncestors K s (C.hash r) n i skip (C.hash c)) :
    AncestorHash C (K.stored s) c g := by
  induction n generalizing i skip c with
  | zero => cases hmem
  | succ n ih =>
    rw [sampleAncestors, (Chonk.aum_eq_some_iff hs).2 ⟨hc, rfl⟩] at hmem
    rcases mem_append.1 hmem with hmem | hmem
    · split at hmem
      · rw [mem_singleton.1 hmem]
        exact ⟨0, c, .zero c, rfl⟩
      · cases hmem
    · simp only at hmem
      split at hmem
      · cases hmem
      next hne =>
        have hcr : c ≠ r := fun h => hne (congrArg C.hash h)
        obtain ⟨p, hp, hprev⟩ := ht.exists_copyPrev hc hcr (C.hash c)
        rw [hprev] at hmem
        exact (ih hp.1 hmem).up hp

/-- **A head that the walk back meets is an ancestor.** -/
theorem ancestorHash_of_meetsHead (hprev : FullPrev r) (hc : c ∈ K.stored s)
    (hmeets : meetsHead K s target n (C.hash c) = true) :
    AncestorHash C (K.stored s) c target := by
  induction n generalizing c with
  | zero => cases hmeets
  | succ n ih =>
    rw [meetsHead, (Chonk.aum_eq_some_iff hs).2 ⟨hc, rfl⟩] at hmeets
    simp only at hmeets
    split at hmeets
    next heq => exact ⟨0, c, .zero c, heq⟩
    next =>
      by_cases hcr : c = r
      · subst hcr
        rcases aum_copyPrev_root hs ht.rooted.oldest hprev with hstay | hleave
        · exact ih hc (hstay ▸ hmeets)
        · cases n with
          | zero => cases hmeets
          | succ n =>
            rw [meetsHead, hleave] at hmeets
            cases hmeets
      · obtain ⟨p, hp, hcopy⟩ := ht.exists_copyPrev hc hcr (C.hash c)
        rw [hcopy] at hmeets
        exact (ih hp.1 hmeets).up hp

/-- **`fastForward` does not fail in a tree within the bound.** -/
theorem VerifiedTree.exists_fastForward (hwithin : (forkRule C).Within (K.stored s) n)
    (hp : StateAt C (K.stored s) m p sp) (done : AUM → Bool) :
    ∃ y, fastForward K s n sp done = .ok y ∧
      (∃ k, Steps ((forkRule C).Descend (K.stored s)) k (p, sp) y) ∧
      (done y.1 = true ∨ (forkRule C).Tip (K.stored s) y.1) := by
  obtain ⟨k, hlt, y, hk, hy⟩ := ht.exists_descend (x := (p, sp)) hwithin hp
  obtain ⟨j, hj, z, hz, hstop⟩ := exists_stop done hk hy
  exact ⟨z, (fastForward_eq_ok_iff hs hp.mem hp.lastAUMHash).2
    ⟨j, lt_of_le_of_lt hj hlt, hz, hstop⟩, ⟨j, hz.mono fun h => h.2⟩, hstop⟩

theorem VerifiedTree.computeStateAt_ok (hwithin : (forkRule C).Within (K.stored s) n)
    (hp : StateAt C (K.stored s) m p sp) : computeStateAt K s n (C.hash p) = .ok sp := by
  obtain ⟨b, hb⟩ := hp.exists_steps
  exact computeStateAt_complete hs ht.acyclic hp (hwithin p hp.mem m b hb)

/-- **The AUMs that are collected are the trail to the tip.** -/
theorem VerifiedTree.collectForward (hp : StateAt C (K.stored s) m p sp)
    (h : Trail ((forkRule C).Descend (K.stored s)) (p, sp) l y)
    (hy : (forkRule C).Tip (K.stored s) y.1) (hn : l.length < n) :
    collectForward K s n sp (C.hash p) = .ok (l.map fst) := by
  obtain ⟨out, hsteps, hout⟩ := follows_collect hs h (C.hash p) []
  have hstop : collectStep K s (C.hash p) (y, out) = .ok none := by
    rw [collectStep, (advanceByPrimary_eq_none_iff hs).2 hy]
  have hne : ∀ z ∈ l, C.hash z.1 ≠ C.hash p := by
    intro z hz heq
    obtain ⟨k, hk⟩ := h.steps_of_mem hz
    have hzmem := mem_of_steps_descend hk hp.mem
    have hup := steps_up_of_descend hk hp.mem
    rw [K.injOn_stored s hzmem hp.mem heq] at hup
    exact ht.acyclic p k hup
  have hresult : collect C (C.hash p) out y.1 = l.map fst := by
    rw [hout, foldl_cons, collect, if_neg (by simp), foldl_collect hne, nil_append]
  rw [Tka.collectForward, hp.lastAUMHash]
  simp only [(Chonk.aum_eq_some_iff hs).2 ⟨hp.mem, rfl⟩]
  rw [walk_eq_ok_iff.2 ⟨l.length, hn, hsteps, hstop⟩, ← hresult]
  rfl

end Walks

/-- In a tree, the state at an AUM is the one that another tree has there. -/
theorem VerifiedTree.known (ht : VerifiedTree C N r) (hinj : InjOn C.hash (N ∪ M))
    (hx : StateAt C M m x.1 x.2) (hmem : x.1 ∈ N) : Known C N seen x.1 x.2 := by
  obtain ⟨n, z, hz⟩ := ht.exists_stateAt hmem
  obtain ⟨-, rfl⟩ := (hz.mono subset_union_left).unique hinj (hx.mono subset_union_right)
  exact ⟨n, .inl hz⟩

/-- **The AUMs of a trail of another tree are accepted**, when the state where the trail starts
is known. -/
theorem VerifiedTree.accepted_of_trail (ht : VerifiedTree C N r) (ht' : VerifiedTree C M r)
    (hinj : InjOn C.hash (N ∪ M)) (h : Trail ((forkRule C).Descend M) x l y)
    (hx : StateAt C M m x.1 x.2) (hknown : Known C N seen x.1 x.2) :
    AcceptedAfter C N seen (l.map fst) := by
  induction h generalizing seen m with
  | nil => trivial
  | @cons x w y l hxw _ ih =>
    have happ := advance_eq_some_iff.1 hxw.2
    obtain ⟨m', -, hw⟩ := hx.of_apply hxw.1.mem happ
    obtain ⟨hverify, -⟩ := ht'.verified_child hx hxw.1.mem hxw.1.child
    refine ⟨.inr ⟨x.1, x.2, w.2, hknown, hverify, happ⟩, ih hw ?_⟩
    by_cases hmem : w.1 ∈ N
    · exact ht.known hinj hw hmem
    · obtain ⟨n, hn⟩ := (hknown.mono fun v hv => mem_append_left [w.1] hv).stateAt
      obtain ⟨k, -, hk⟩ := hn.of_apply (.inr (by simp)) happ
      exact ⟨k, .inr ⟨hmem, hk⟩⟩

/-! ## What a current authority offers, sends and takes in -/

namespace Current

section

variable (hs : K.Consistent s) (h : Current C (K.stored s) a)

include hs h

/-- **What is in an offer**: the head, and ancestors of it among which is the root. -/
theorem syncOffer : (a.syncOffer K s).head = C.hash a.head ∧
      C.hash a.oldestAncestor ∈ (a.syncOffer K s).ancestors ∧
      ∀ g ∈ (a.syncOffer K s).ancestors, AncestorHash C (K.stored s) a.head g := by
  obtain ⟨n, hhead⟩ := h.stateAt
  refine ⟨h.headHash, by simp [Authority.syncOffer], forall_mem_concat.2 ⟨fun g hg => ?_, ?_⟩⟩
  · rw [h.headHash] at hg
    exact ancestorHash_of_mem_sample hs h.tree hhead.mem hg
  · obtain ⟨k, hk⟩ := h.tree.rooted.reach a.head hhead.mem
    exact ⟨k, a.oldestAncestor, hk, rfl⟩

/-- What an offer names is stored on the side that made it. -/
theorem mem_of_offered (hinj : InjOn C.hash (K.stored s ∪ M)) (hp : p ∈ M)
    (hoffer : C.hash p = (a.syncOffer K s).head ∨ C.hash p ∈ (a.syncOffer K s).ancestors) :
    p ∈ K.stored s := by
  obtain ⟨hhead, -, hanc⟩ := h.syncOffer hs
  obtain ⟨n, hn⟩ := h.stateAt
  have : AncestorHash C (K.stored s) a.head (C.hash p) := by
    rcases hoffer with heq | hmem
    · exact ⟨0, a.head, .zero _, (heq.trans hhead).symm⟩
    · exact hanc _ hmem
  obtain ⟨k, b, hk, hb⟩ := this
  have hbmem := Linked.mem_of_steps_up hk hn.mem
  exact hinj (.inl hbmem) (.inr hp) hb ▸ hbmem

variable (hwithin : (forkRule C).Within (K.stored s) maxSyncIter)

include hwithin

/-- **The search for a tail intersection finds an ancestor of the head**, at the latest when
it comes to the root. -/
theorem exists_findTail {ancestors} (hroot : C.hash a.oldestAncestor ∈ ancestors) :
    ∃ g ∈ ancestors, findTail K s (C.hash a.head) ancestors =
      .ok { tailIntersection := some g } ∧ AncestorHash C (K.stored s) a.head g := by
  induction ancestors with
  | nil => cases hroot
  | cons g ancestors ih =>
    -- the search goes on after `g` only when `g` is not the root
    have hnext : C.hash a.oldestAncestor ≠ g → findTail K s (C.hash a.head) (g :: ancestors) =
        findTail K s (C.hash a.head) ancestors →
        ∃ g' ∈ g :: ancestors, findTail K s (C.hash a.head) (g :: ancestors) =
          .ok { tailIntersection := some g' } ∧ AncestorHash C (K.stored s) a.head g' := by
      intro hne heq
      obtain ⟨g', hg', hfind, hanc⟩ := ih ((mem_cons.1 hroot).resolve_left hne)
      exact ⟨g', mem_cons_of_mem _ hg', heq.trans hfind, hanc⟩
    cases hg : K.aum s g with
    | none =>
      refine hnext ?_ (by simp [Tka.findTail, computeStateAt, hg])
      exact (Chonk.aum_eq_none_iff hs).1 hg _ h.tree.rooted.mem
    | some p =>
      obtain ⟨hp, rfl⟩ := (Chonk.aum_eq_some_iff hs).1 hg
      obtain ⟨m, sp, hsp⟩ := h.tree.exists_stateAt hp
      obtain ⟨y, hfast, ⟨k, hk⟩, hstop⟩ := h.tree.exists_fastForward hs hwithin hsp
        fun curs => C.hash curs = C.hash a.head
      obtain ⟨_, hhead⟩ := h.stateAt
      by_cases hy : C.hash y.1 = C.hash a.head
      · refine ⟨_, mem_cons_self, by simp [Tka.findTail,
          h.tree.computeStateAt_ok hs hwithin hsp, hfast, hy], k, p, ?_, rfl⟩
        have hymem := mem_of_steps_descend hk hp
        rw [← K.injOn_stored s hymem hhead.mem hy]
        exact steps_up_of_descend hk hp
      · refine hnext (fun hr => hy ?_) (by simp [Tka.findTail,
          h.tree.computeStateAt_ok hs hwithin hsp, hfast, hy])
        -- from the root, the walk ends at the head
        obtain rfl := K.injOn_stored s h.tree.rooted.mem hp hr
        obtain ⟨st₀, hst, l, hl⟩ := h.primary
        obtain ⟨-, rfl⟩ := hst.unique h.tree.injOn hsp
        have hytip := hstop.resolve_left (by simpa using hy)
        rw [tip_unique h.tree.injOn hk hytip hl h.tip]

/-- What is sent from an ancestor of the head. -/
theorem exists_sendFrom (hg : AncestorHash C (K.stored s) a.head g) :
    ∃ sent, sendFrom K s g = .ok sent ∧ SentFrom K s a (· = g) sent := by
  obtain ⟨k, p, hk, rfl⟩ := hg
  obtain ⟨st₀, hst, n, hn⟩ := h.primary
  have hkn := h.tree.rooted.le_of_steps h.tree.injOn (steps_up_of_descend hn hst.mem) hk
  obtain ⟨sp, hrp, hph⟩ := descend_through h.tree.injOn hn hst.mem hk hkn
  obtain ⟨m, hp⟩ := stateAt_of_descend hrp ⟨0, hst⟩
  obtain ⟨l, rfl, hl⟩ := Trail.exists_of_steps hph
  refine ⟨l.map fst, bind_eq_ok_iff.2 ⟨sp, mapError_eq_ok_iff.2 ?_,
    mapError_eq_ok_iff.2 ?_⟩, p, sp, l, ⟨m, hp⟩, rfl, hl, rfl⟩
  · exact h.tree.computeStateAt_ok hs hwithin hp
  · exact h.tree.collectForward hs hp hl h.tip (ForkRule.lt_of_descend hwithin hp.mem hph)

/-- **An intersection is found**, and unless the heads are equal it is an ancestor of the head
that the other side knows. -/
theorem exists_intersection (hprev : FullPrev a.oldestAncestor) {offer : SyncOffer}
    (hroot : C.hash a.oldestAncestor ∈ offer.ancestors) :
    ∃ i, computeSyncIntersection K s (a.syncOffer K s) offer = .ok i ∧
      ((i.upToDate = true ∧ C.hash a.head = offer.head) ∨
        ∃ g, (g = offer.head ∨ g ∈ offer.ancestors) ∧ AncestorHash C (K.stored s) a.head g ∧
          (i = { headIntersection := some g } ∨ i = { tailIntersection := some g })) := by
  obtain ⟨hhead, -, -⟩ := h.syncOffer hs
  obtain ⟨n, hn⟩ := h.stateAt
  unfold computeSyncIntersection
  rw [hhead]
  split
  next heq => exact ⟨_, rfl, .inl ⟨rfl, heq.symm⟩⟩
  next =>
    split
    next hmeets =>
      exact ⟨_, rfl, .inr ⟨offer.head, .inl rfl,
        ancestorHash_of_meetsHead hs h.tree hprev hn.mem hmeets.2, .inl rfl⟩⟩
    next =>
      obtain ⟨g, hg, hfind, hanc⟩ := h.exists_findTail hs hwithin hroot
      exact ⟨_, hfind, .inr ⟨g, .inr hg, hanc, .inr rfl⟩⟩

/-- **What `MissingAUMs` returns**: the trail of the primary chain from an AUM that the other
side knows to the head. -/
theorem exists_missingAUMs (hprev : FullPrev a.oldestAncestor) {offer : SyncOffer}
    (hroot : C.hash a.oldestAncestor ∈ offer.ancestors) :
    ∃ sent, a.missingAUMs K s offer = .ok sent ∧
      SentFrom K s a (fun g => g = offer.head ∨ g ∈ offer.ancestors) sent := by
  obtain ⟨i, hi, ⟨hup, hhead⟩ | ⟨g, hg, hanc, hinter⟩⟩ :=
    h.exists_intersection hs hwithin hprev hroot
  · refine ⟨[], bind_eq_ok_iff.2 ⟨i, mapError_eq_ok_iff.2 hi, by simp [hup]⟩, a.head, a.state,
      [], h.stateAt, .inl hhead, .nil _, rfl⟩
  · obtain ⟨sent, hsend, p, sp, l, hp, rfl, hl, rfl⟩ := h.exists_sendFrom hs hwithin hanc
    refine ⟨_, bind_eq_ok_iff.2 ⟨i, mapError_eq_ok_iff.2 hi, ?_⟩, p, sp, l, hp, hg, hl, rfl⟩
    rcases hinter with rfl | rfl
    · exact hsend
    · exact hsend

/-- **What is sent is taken in.** -/
theorem exists_receive (ht' : VerifiedTree C M a.oldestAncestor)
    (hwithin' : (forkRule C).Within M maxScanIterations) (hinj : InjOn C.hash (K.stored s ∪ M))
    (hroot : (forkRule C).Oldest (K.stored s ∪ M) a.oldestAncestor)
    (hx : StateAt C M m x.1 x.2) (hmem : x.1 ∈ K.stored s)
    (ht : Trail ((forkRule C).Descend M) x l y) (now : Time) :
    ∃ a', (a.receive K s now (l.map fst)).1 = .ok a' ∧
      a'.oldestAncestor = a.oldestAncestor ∧
      Current C (K.stored s ∪ {u | u ∈ l.map fst}) a' := by
  unfold Authority.receive
  split
  next hnil =>
    rw [hnil]
    simpa using h
  next hne =>
    have hsub : K.stored s ∪ {u | u ∈ l.map fst} ⊆ K.stored s ∪ M :=
      union_subset_union_right _ (trail_subset ht hx.mem)
    have hunion := within_union (h.tree.closedIn subset_union_left hinj hroot)
      (ht'.closedIn subset_union_right hinj hroot) hwithin hwithin'
    have hloop := ((Authority.sound_progress h.stateAt).loop_ok_iff hs h.tree.acyclic hwithin
      (hinj.mono hsub)).2 (h.tree.accepted_of_trail ht' hinj ht hx (h.tree.known hinj hx hmem))
    have hroot' : (forkRule C).Oldest (K.stored s ∪ {u | u ∈ l.map fst})
        a.oldestAncestor := fun q hq => hroot q (hq.mono hsub)
    obtain ⟨a', hok⟩ := h.exists_inform hs (hinj.mono hsub) hroot' (hunion.anti hsub) hne hloop now
    obtain ⟨hold, hcur, -⟩ := h.inform hs (hinj.mono hsub) hroot' hok
    exact ⟨a', hok, hold, hcur⟩

end

/-- A set that has the primary chain of a larger set has the same primary chain. -/
theorem eq_of_subset {U : Set AUM} {w} {st₀ : State} (h : Current C N a)
    (hNU : N ⊆ U) (hst : StateAt C N 0 a.oldestAncestor st₀)
    (hw : Steps ((forkRule C).Descend U) n (a.oldestAncestor, st₀) w)
    (hwtip : (forkRule C).Tip U w.1)
    (hmem : ∀ k z, Steps ((forkRule C).Up U) k w.1 z → z ∈ N) : (a.head, a.state) = w := by
  obtain ⟨st₁, hst₁, k, hk⟩ := h.primary
  obtain ⟨-, rfl⟩ := hst.unique h.tree.injOn hst₁
  exact tip_unique h.tree.injOn hk h.tip
    (descend_of_subset hNU hw (hNU hst.mem) fun z k _ hz _ => hmem k z hz)
    (hwtip.anti hNU)

end Current

/-! ## The exchange -/

/-- The chain of a head that was sent from a common AUM is in both sets afterwards. -/
theorem mem_of_sent {U : Set AUM} {z : AUM} (hNU : N ⊆ U) (hinj : InjOn C.hash U)
    (hN : (forkRule C).ClosedIn U N) (hM : (forkRule C).ClosedIn U M) (hxN : x.1 ∈ N)
    (hxM : x.1 ∈ M) (ht : Trail ((forkRule C).Descend N) x l y)
    (hz : Steps ((forkRule C).Up U) k y.1 z) :
    z ∈ N ∧ z ∈ M ∪ {u | u ∈ l.map fst} := by
  have hy : y.1 ∈ N := mem_of_steps_descend ht.steps hxN
  have hzN := hN.steps_up hy hz
  refine ⟨Linked.mem_of_steps_up hzN hy, ?_⟩
  rcases mem_trail_or_above (hinj.mono hNU) ht hxN hzN with ⟨st, hmem⟩ | ⟨j, hj⟩
  · exact .inr (mem_map_of_mem (f := fst) hmem)
  · exact .inl (Linked.mem_of_steps_up (hM.steps_up hxM (Linked.steps_up_mono hNU hj)) hxM)

/-- **The exchange converges**: two current authorities whose trees have the same root, and
no chain beyond the limits, compute from each other's offers what the other one is missing,
take in what they receive, and end with the same head and state. -/
theorem sync_converges {σ' : Type} {K' : Chonk C σ'} {s' : σ'} (hs : K.Consistent s)
    (hs' : K'.Consistent s') (ha : Current C (K.stored s) a) (hb : Current C (K'.stored s') b)
    (hroot : a.oldestAncestor = r ∧ b.oldestAncestor = r) (hprev : FullPrev r)
    (hinj : InjOn C.hash (K.stored s ∪ K'.stored s'))
    (hold : (forkRule C).Oldest (K.stored s ∪ K'.stored s') r)
    (hwithin : (forkRule C).Within (K.stored s) maxSyncIter)
    (hwithin' : (forkRule C).Within (K'.stored s') maxSyncIter) (now now' : Time) :
    ∃ toA toB a' b', a.missingAUMs K s (b.syncOffer K' s') = .ok toB ∧
      b.missingAUMs K' s' (a.syncOffer K s) = .ok toA ∧
      (a.receive K s now toA).1 = .ok a' ∧ (b.receive K' s' now' toB).1 = .ok b' ∧
      a'.head = b'.head ∧ a'.state = b'.state := by
  obtain ⟨rfl, hbr⟩ := hroot
  obtain ⟨-, hrootA, -⟩ := ha.syncOffer hs
  obtain ⟨-, hrootB, -⟩ := hb.syncOffer hs'
  rw [hbr] at hrootB
  obtain ⟨toB, hmissA, p, sp, l, ⟨m, hp⟩, hpB, hl, rfl⟩ :=
    ha.exists_missingAUMs hs hwithin hprev hrootB
  obtain ⟨toA, hmissB, q, sq, l', ⟨m', hq⟩, hqA, hl', rfl⟩ :=
    hb.exists_missingAUMs hs' hwithin' (hbr ▸ hprev) (hbr ▸ hrootA)
  have hcomm := union_comm (K.stored s) (K'.stored s')
  have hbtree : VerifiedTree C (K'.stored s') a.oldestAncestor := hbr ▸ hb.tree
  have hclosedA := ha.tree.closedIn subset_union_left hinj hold
  have hclosedB := hbtree.closedIn subset_union_right hinj hold
  have hpB := hb.mem_of_offered hs' (hcomm ▸ hinj) hp.mem hpB
  have hqA := ha.mem_of_offered hs hinj hq.mem hqA
  -- both take in what they receive
  obtain ⟨a', hrecvA, holdA, hcurA⟩ :=
    ha.exists_receive hs hwithin hbtree hwithin' hinj hold hq hqA hl' now
  obtain ⟨b', hrecvB, holdB, hcurB⟩ := hb.exists_receive hs' hwithin' (hbr ▸ ha.tree) hwithin
    (hcomm ▸ hinj) (hbr ▸ hcomm ▸ hold) hp hpB hl now'
  refine ⟨_, _, a', b', hmissA, hmissB, hrecvA, hrecvB, ?_⟩
  -- both then have the primary chain of the union
  obtain ⟨st₀, hst, n, hn⟩ := ha.primary
  obtain ⟨st₁, hst₁, n', hn'⟩ := hb.primary
  rw [hbr] at hst₁ hn' holdB
  obtain ⟨-, rfl⟩ := (hst.mono (subset_union_left (t := K'.stored s'))).unique hinj
    (hst₁.mono subset_union_right)
  have hends : ∀ {n w}, Steps ((forkRule C).Descend (K.stored s ∪ K'.stored s')) n
      (a.oldestAncestor, st₀) w → (forkRule C).Tip (K.stored s ∪ K'.stored s') w.1 →
      (∀ k z, Steps ((forkRule C).Up (K.stored s ∪ K'.stored s')) k w.1 z →
        z ∈ K.stored s ∪ {u | u ∈ l'.map fst} ∧
        z ∈ K'.stored s' ∪ {u | u ∈ l.map fst}) →
      a'.head = b'.head ∧ a'.state = b'.state := by
    intro n w hw hwtip hmem
    have hA := hcurA.eq_of_subset (union_subset_union_right _ (trail_subset hl' hq.mem))
      (holdA ▸ hst.mono subset_union_left) (holdA ▸ hw) hwtip fun k z hz => (hmem k z hz).1
    have hB := hcurB.eq_of_subset (U := K.stored s ∪ K'.stored s')
      (hcomm ▸ union_subset_union_right _ (trail_subset hl hp.mem))
      (holdB ▸ hst₁.mono subset_union_left) (holdB ▸ hw) hwtip fun k z hz => (hmem k z hz).2
    exact mk.inj (hA.trans hB.symm)
  rcases descend_union hinj hclosedA hclosedB hst.mem hst₁.mem hn ha.tip hn' hb.tip with
    ⟨hw, hwtip⟩ | ⟨hw, hwtip⟩
  · refine hends hw hwtip fun k z hz => ?_
    obtain ⟨hzA, hzB⟩ := mem_of_sent subset_union_left hinj hclosedA hclosedB hp.mem hpB hl hz
    exact ⟨.inl hzA, hzB⟩
  · refine hends hw hwtip fun k z hz => ?_
    obtain ⟨hzB, hzA⟩ := mem_of_sent subset_union_right hinj hclosedB hclosedA hq.mem hqA hl' hz
    exact ⟨hzA, .inl hzB⟩

theorem sync_converges_fork : ∃ s s' toA toB a' b',
    (sampleAuthority (sampleNoOp 0x1 3) 0x13).missingAUMs (Mem.chonk sampleCrypto) s
      ((sampleAuthority (sampleNoOp 0x14 2) 0x142).syncOffer (Mem.chonk sampleCrypto) s') =
        .ok toB ∧
    (sampleAuthority (sampleNoOp 0x14 2) 0x142).missingAUMs (Mem.chonk sampleCrypto) s'
      ((sampleAuthority (sampleNoOp 0x1 3) 0x13).syncOffer (Mem.chonk sampleCrypto) s) =
        .ok toA ∧
    ((sampleAuthority (sampleNoOp 0x1 3) 0x13).receive (Mem.chonk sampleCrypto) s 2 toA).1 =
      .ok a' ∧
    ((sampleAuthority (sampleNoOp 0x14 2) 0x142).receive (Mem.chonk sampleCrypto) s' 2 toB).1 =
      .ok b' ∧
    a'.head = b'.head ∧ a'.state = b'.state := by
  have h := run_sample.inform 1 [sampleNoOp 0x1 3] (sampleAuthority (sampleNoOp 0x1 3) 0x13)
    (by decide)
  have h' := run_sample.inform 1 [sampleNoOp 0x1 4, sampleNoOp 0x14 2]
    (sampleAuthority (sampleNoOp 0x14 2) 0x142) (by decide)
  have hfree : sampleCrypto.CollisionFree [sampleCheckpoint none 1, sampleNoOp 0x1 3,
      sampleNoOp 0x1 4, sampleNoOp 0x14 2] := by decide
  have hroot : ∀ N, (forkRule sampleCrypto).Oldest N (sampleCheckpoint none 1) :=
    fun _ => oldest_of_parent_none rfl
  have hinj := hfree.injOn (N := {sampleCheckpoint none 1} ∪ {u | u ∈ [] ++ [sampleNoOp 0x1 3]})
    (by simp)
  have hinj' := hfree.injOn (N := {sampleCheckpoint none 1} ∪
    {u | u ∈ [] ++ [sampleNoOp 0x1 4, sampleNoOp 0x14 2]}) (by simp)
  have hwithin := h.within hinj (hroot _) (sampleAuthority (sampleNoOp 0x1 3) 0x13) (by decide)
  have hwithin' := h'.within hinj' (hroot _) (sampleAuthority (sampleNoOp 0x14 2) 0x142) (by decide)
  obtain ⟨-, hcur, hs, hstored, -⟩ := h.current hinj (hroot _)
  obtain ⟨-, hcur', hs', hstored', -⟩ := h'.current hinj' (hroot _)
  rw [← hstored] at hcur hwithin
  rw [← hstored'] at hcur' hwithin'
  have hunion := hfree.injOn (N := {sampleCheckpoint none 1} ∪ {u | u ∈ [] ++ [sampleNoOp 0x1 3]} ∪
    ({sampleCheckpoint none 1} ∪ {u | u ∈ [] ++ [sampleNoOp 0x1 4, sampleNoOp 0x14 2]})) (by
      intro u hu
      simp only [mem_union, mem_ofPred_eq, nil_append, mem_cons] at hu ⊢
      tauto)
  rw [← hstored, ← hstored'] at hunion
  exact ⟨_, _, sync_converges hs hs' hcur hcur' ⟨rfl, rfl⟩ (fun b hb => by cases hb)
    hunion (hroot _) hwithin hwithin' 2 2⟩

end Multiport.Tka

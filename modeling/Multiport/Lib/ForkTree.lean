import Multiport.Lib.Walk
import Mathlib.Data.Set.Finite.Lemmas

/-!
# Trees of linked records and their primary chains

Records that name their parent by its key, as the blocks of a chain do.  A set of
records is a forest; walking `Up` follows the parents that are in the set.  A
`ForkRule` ranks the children of a record, with a state that each child advances,
and `Descend` follows the child of the least rank: the primary chain.

The results are the ones that make a primary chain a property of the *set* of
records and not of the way it was collected: it is unique, it does not change when
records off the chain are dropped (`descend_of_subset`) or when records are added
elsewhere (`Descend.of_superset`), and the primary chain of the union of two trees
is the primary chain of one of them (`descend_union`).
-/

namespace Multiport.Lib

open Set

universe u v

/-- Records with a key, which name their parent by its key. -/
structure Linked (A : Type u) (K : Type v) where
  key : A → K
  parent : A → Option K

namespace Linked

variable {A : Type u} {K : Type v} (L : Linked A K) {M N : Set A} {a b c p q r : A} {k n : Nat}

/-- `c` names `p` as its parent. -/
def Child (p c : A) : Prop := L.parent c = some (L.key p)

/-- From a record to its parent in the set. -/
def Up (N : Set A) (a p : A) : Prop := p ∈ N ∧ L.Child p a

/-- A record whose parent is not in the set. -/
def Oldest (N : Set A) (a : A) : Prop := ∀ p, ¬ L.Up N a p

/-- A record without a child in the set. -/
def Tip (N : Set A) (a : A) : Prop := ∀ c ∈ N, ¬ L.Child a c

/-- Every record of the set descends from `r`, whose parent is not in it. -/
structure Rooted (N : Set A) (r : A) : Prop where
  mem : r ∈ N
  oldest : L.Oldest N r
  reach : ∀ a ∈ N, ∃ n, Steps (L.Up N) n a r

/-- No chain of the set has more than `n` records. -/
def Within (N : Set A) (n : Nat) : Prop := ∀ a ∈ N, ∀ k b, Steps (L.Up N) k a b → k < n

/-- No record is its own ancestor. -/
def Acyclic (N : Set A) : Prop := ∀ a n, ¬ Steps (L.Up N) (n + 1) a a

/-- The chain of every record ends at an oldest one. -/
def Grounded (N : Set A) : Prop := ∀ a ∈ N, ∃ n r, Steps (L.Up N) n a r ∧ L.Oldest N r

variable {L}

theorem functional_up (hN : InjOn L.key N) : Functional (L.Up N) := by
  rintro a p q ⟨hp, hpa⟩ ⟨hq, hqa⟩
  exact hN hp hq (Option.mem_unique hpa hqa)

theorem mem_of_steps_up (h : Steps (L.Up N) n a b) (ha : a ∈ N) : b ∈ N :=
  h.keeps (fun _ hab => hab.1) ha

theorem Up.mono (hMN : M ⊆ N) (h : L.Up M a p) : L.Up N a p := ⟨hMN h.1, h.2⟩

theorem steps_up_mono (hMN : M ⊆ N) (h : Steps (L.Up M) n a b) : Steps (L.Up N) n a b :=
  h.mono fun hab => hab.mono hMN

theorem Tip.anti (hMN : M ⊆ N) (h : L.Tip N a) : L.Tip M a := fun c hc => h c (hMN hc)

theorem Within.anti (hMN : M ⊆ N) (h : L.Within N n) : L.Within M n :=
  fun a ha k b hab => h a (hMN ha) k b (steps_up_mono hMN hab)

theorem Acyclic.anti (hMN : M ⊆ N) (h : L.Acyclic N) : L.Acyclic M :=
  fun a n hn => h a n (steps_up_mono hMN hn)

theorem Rooted.grounded (h : L.Rooted N r) : L.Grounded N := fun a ha =>
  let ⟨n, hn⟩ := h.reach a ha
  ⟨n, r, hn, h.oldest⟩

/-- Hash links cannot run in a circle when every chain ends. -/
theorem Grounded.acyclic (hN : InjOn L.key N) (h : L.Grounded N) : L.Acyclic N := by
  intro a n hcycle
  have ha : a ∈ N := by
    obtain ⟨b, -, hba⟩ := hcycle.exists_last
    exact hba.1
  obtain ⟨m, r, hr, hold⟩ := h a ha
  obtain ⟨hle, hrest⟩ := hr.to_final (functional_up hN) hold hcycle
  have := (hr.final_unique (functional_up hN) hold hrest hold).1
  omega

/-- Without cycles an ancestor is at one distance. -/
theorem Acyclic.length_unique (hN : InjOn L.key N) (h : L.Acyclic N)
    (hk : Steps (L.Up N) k a b) (hn : Steps (L.Up N) n a b) : k = n := by
  rcases lt_trichotomy k n with hlt | heq | hlt
  · have := hk.tail_of_le (functional_up hN) hn hlt.le
    obtain ⟨d, hd⟩ : ∃ d, n - k = d + 1 := ⟨n - k - 1, by omega⟩
    exact absurd (hd ▸ this) (h b d)
  · exact heq
  · have := hn.tail_of_le (functional_up hN) hk hlt.le
    obtain ⟨d, hd⟩ : ∃ d, k - n = d + 1 := ⟨k - n - 1, by omega⟩
    exact absurd (hd ▸ this) (h b d)

/-- The distance to an oldest record is the length of the longest walk up. -/
theorem Rooted.le_of_steps (hr : L.Rooted N r) (hN : InjOn L.key N)
    (hroot : Steps (L.Up N) n a r) (h : Steps (L.Up N) k a b) : k ≤ n :=
  (hroot.to_final (functional_up hN) hr.oldest h).1

/-- Below every record of a finite set there is a tip. -/
theorem Acyclic.exists_tip (hac : L.Acyclic N) (hfin : N.Finite) (ha : a ∈ N) :
    ∃ t ∈ N, L.Tip N t ∧ ∃ k, Steps (L.Up N) k t a := by
  have := hfin.to_subtype
  let below : N → N → Prop := fun x y => ∃ k, Steps (L.Up N) (k + 1) x.1 y.1
  have htrans : IsTrans N below := ⟨fun x y z ⟨k, hk⟩ ⟨l, hl⟩ => ⟨l + 1 + k, hk.append hl⟩⟩
  have hirrefl : Std.Irrefl below := ⟨fun x ⟨k, hk⟩ => hac x.1 k hk⟩
  have hwf := Finite.wellFounded_of_trans_of_irrefl below
  obtain ⟨t, ⟨k, hk⟩, hmin⟩ := hwf.has_min {x : N | ∃ k, Steps (L.Up N) k x.1 a}
    ⟨⟨a, ha⟩, 0, .zero a⟩
  refine ⟨t.1, t.2, fun c hc htc => ?_, k, hk⟩
  have hct : Steps (L.Up N) 1 c t.1 := .single ⟨t.2, htc⟩
  exact hmin ⟨c, hc⟩ ⟨k + 1, hct.append hk⟩ ⟨0, hct⟩

theorem Within.exists_oldest (h : L.Within N n) (ha : a ∈ N) :
    ∃ k r, Steps (L.Up N) k a r ∧ L.Oldest N r := by
  by_contra hno
  -- a chain without an end would be longer than every bound
  have hlong : ∀ k, ∃ b, Steps (L.Up N) k a b := by
    intro k
    induction k with
    | zero => exact ⟨a, .zero a⟩
    | succ k ih =>
      obtain ⟨b, hb⟩ := ih
      by_contra hend
      exact hno ⟨k, b, hb, fun p hp => hend ⟨p, hb.snoc hp⟩⟩
  obtain ⟨b, hb⟩ := hlong n
  exact lt_irrefl n (h a ha n b hb)

/-- **A finite forest is within a bound when the chain of each of its tips is.** -/
theorem Acyclic.within_iff (hac : L.Acyclic N) (hfin : N.Finite) (hN : InjOn L.key N) :
    L.Within N n ↔
      ∀ t ∈ N, L.Tip N t → ∃ k < n, ∃ r, Steps (L.Up N) k t r ∧ L.Oldest N r := by
  constructor
  · intro h t ht _
    obtain ⟨k, r, hr, hold⟩ := h.exists_oldest ht
    exact ⟨k, h t ht k r hr, r, hr, hold⟩
  · intro h a ha k b hab
    obtain ⟨t, ht, htip, l, hta⟩ := hac.exists_tip hfin ha
    obtain ⟨m, hm, r, hr, hold⟩ := h t ht htip
    have := (hr.to_final (functional_up hN) hold (hta.append hab)).1
    omega

end Linked

/-- How a record's children are ranked, and the state they advance. -/
structure ForkRule (A : Type u) (K : Type v) (S R : Type*) [LinearOrder R]
    extends Linked A K where
  rank : S → A → R
  /-- Records of the same rank are the same record, as far as keys tell. -/
  key_eq_of_rank_eq : ∀ {s a b}, rank s a = rank s b → key a = key b
  advance : S → A → Option S

namespace ForkRule

variable {A : Type u} {K : Type v} {S R : Type*} [LinearOrder R] (F : ForkRule A K S R)
  {M N : Set A} {a b c p q r : A} {s t : S} {x y z : A × S} {m n : Nat}

/-- `a` has the least rank of the children of `p`. -/
structure Wins (N : Set A) (s : S) (p a : A) : Prop where
  mem : a ∈ N
  child : F.Child p a
  least : ∀ c ∈ N, F.Child p c → F.rank s a ≤ F.rank s c

/-- One step down the primary chain. -/
def Descend (N : Set A) (x y : A × S) : Prop :=
  F.Wins N x.2 x.1 y.1 ∧ F.advance x.2 y.1 = some y.2

variable {F}

theorem Wins.unique (hN : InjOn F.key N) (ha : F.Wins N s p a) (hb : F.Wins N s p b) : a = b :=
  hN ha.mem hb.mem (F.key_eq_of_rank_eq
    (le_antisymm (ha.least b hb.mem hb.child) (hb.least a ha.mem ha.child)))

theorem functional_descend (hN : InjOn F.key N) : Functional (F.Descend N) := by
  rintro ⟨a, s⟩ ⟨b, t⟩ ⟨c, t'⟩ ⟨hb, hbs⟩ ⟨hc, hcs⟩
  obtain rfl : b = c := hb.unique hN hc
  exact Prod.ext rfl (Option.mem_unique hbs hcs)

theorem not_descend_of_tip (h : F.Tip N x.1) (y : A × S) : ¬ F.Descend N x y :=
  fun hxy => h _ hxy.1.mem hxy.1.child

/-- **The primary chain is unique.** -/
theorem tip_unique (hN : InjOn F.key N) (hy : Steps (F.Descend N) m x y)
    (hyt : F.Tip N y.1) (hz : Steps (F.Descend N) n x z) (hzt : F.Tip N z.1) : y = z :=
  (hz.final_unique (functional_descend hN) (not_descend_of_tip hzt) hy (not_descend_of_tip hyt)).2

theorem Descend.up (h : F.Descend N x y) (hx : x.1 ∈ N) : F.Up N y.1 x.1 := ⟨hx, h.1.child⟩

theorem mem_of_steps_descend (h : Steps (F.Descend N) n x y) (hx : x.1 ∈ N) : y.1 ∈ N :=
  h.keeps (P := fun z => z.1 ∈ N) (fun _ hxy => hxy.1.mem) hx

/-- The chain that was descended is the chain of ancestors. -/
theorem steps_up_of_descend (h : Steps (F.Descend N) n x y) (hx : x.1 ∈ N) :
    Steps (F.Up N) n y.1 x.1 := by
  induction h with
  | zero => exact .zero _
  | succ hxy _ ih => exact (ih hxy.1.mem).snoc (hxy.up hx)

/-- Every ancestor down to where the chain starts is on the chain. -/
theorem descend_through (hN : InjOn F.key N) (h : Steps (F.Descend N) n x y) (hx : x.1 ∈ N)
    (hm : Steps (F.Up N) m y.1 a) (hmn : m ≤ n) :
    ∃ s, Steps (F.Descend N) (n - m) x (a, s) ∧ Steps (F.Descend N) m (a, s) y := by
  generalize hb : y.1 = b at hm
  induction hm generalizing n y with
  | zero =>
    subst hb
    exact ⟨y.2, h, .zero _⟩
  | @succ m b p a hbp _ ih =>
    subst hb
    obtain ⟨n, rfl⟩ : ∃ k, n = k + 1 := ⟨n - 1, by omega⟩
    obtain ⟨w, hw, hwy⟩ := h.exists_last
    have hwp : w.1 = p := Linked.functional_up hN (hwy.up (mem_of_steps_descend hw hx)) hbp
    obtain ⟨s, hs, ht⟩ := ih hw (Nat.le_of_succ_le_succ hmn) hwp
    exact ⟨s, by rwa [Nat.add_sub_add_right], ht.snoc hwy⟩

theorem mem_trail_or_above {l} (hN : InjOn F.key N)
    (h : Trail (F.Descend N) x l y) (hx : x.1 ∈ N) (hn : Steps (F.Up N) n y.1 a) :
    (∃ s, (a, s) ∈ l) ∨ ∃ k, Steps (F.Up N) k x.1 a := by
  induction h with
  | nil => exact .inr ⟨n, hn⟩
  | @cons x w y l hxw _ ih =>
    rcases ih hxw.1.mem hn with ⟨s, hs⟩ | ⟨k, hk⟩
    · exact .inl ⟨s, List.mem_cons_of_mem _ hs⟩
    · cases hk with
      | zero => exact .inl ⟨w.2, List.mem_cons_self⟩
      | succ hup hk =>
        obtain rfl := Linked.functional_up hN hup (hxw.up hx)
        exact .inr ⟨_, hk⟩

theorem lt_of_descend (hwithin : F.Within N n) (hx : x.1 ∈ N) (h : Steps (F.Descend N) m x y) :
    m < n :=
  hwithin y.1 (mem_of_steps_descend h hx) m x.1 (steps_up_of_descend h hx)

theorem exists_wins (hfin : N.Finite) (s : S) (hp : ¬ F.Tip N p) : ∃ c, F.Wins N s p c := by
  have hne : {c ∈ N | F.Child p c}.Nonempty := by
    by_contra hempty
    exact hp fun c hc hpc => hempty ⟨c, hc, hpc⟩
  obtain ⟨c, ⟨hc, hpc⟩, hleast⟩ :=
    exists_min_image _ (F.rank s) (hfin.subset (sep_subset _ _)) hne
  exact ⟨c, hc, hpc, fun d hd hpd => hleast d ⟨hd, hpd⟩⟩

/-- **The primary chain gets to a tip** when the winners advance wherever it comes to. -/
theorem exists_descend {P : A × S → Prop} (hfin : N.Finite)
    (hstep : ∀ {x c}, P x → F.Wins N x.2 x.1 c → ∃ s, F.advance x.2 c = some s ∧ P (c, s))
    (hx : P x) (hlt : ∀ k y, Steps (F.Descend N) k x y → k < m) :
    ∃ k y, Steps (F.Descend N) k x y ∧ F.Tip N y.1 := by
  induction m generalizing x with
  | zero => exact absurd (hlt 0 x (.zero x)) (Nat.not_lt_zero _)
  | succ m ih =>
    by_cases htip : F.Tip N x.1
    · exact ⟨0, x, .zero x, htip⟩
    · obtain ⟨c, hc⟩ := exists_wins hfin x.2 htip
      obtain ⟨s, hs, hP⟩ := hstep hx hc
      obtain ⟨k, y, hk, hy⟩ := ih hP fun k y hk =>
        Nat.lt_of_succ_lt_succ (hlt (k + 1) y (.succ ⟨hc, hs⟩ hk))
      exact ⟨k + 1, y, .succ ⟨hc, hs⟩ hk, hy⟩

/-! ## Dropping and adding records off the chain -/

theorem Descend.of_subset (hMN : M ⊆ N) (h : F.Descend N x y) (hy : y.1 ∈ M) : F.Descend M x y :=
  ⟨⟨hy, h.1.child, fun c hc hpc => h.1.least c (hMN hc) hpc⟩, h.2⟩

/-- **Dropping records off the primary chain does not change it.** -/
theorem descend_of_subset (hMN : M ⊆ N) (h : Steps (F.Descend N) n x y) (hx : x.1 ∈ N)
    (hmem : ∀ z k l, Steps (F.Up N) k y.1 z → Steps (F.Up N) l z x.1 → z ∈ M) :
    Steps (F.Descend M) n x y := by
  refine h.imp fun {k a b} hka hab {l} hlb => hab.of_subset hMN ?_
  have ha : a.1 ∈ N := mem_of_steps_descend hka hx
  refine hmem b.1 l (k + 1) (steps_up_of_descend hlb hab.1.mem) ?_
  exact .succ (hab.up ha) (steps_up_of_descend hka hx)

theorem Descend.of_superset (hNM : N ⊆ M) (h : F.Descend N x y)
    (hnew : ∀ c ∈ M, F.Child x.1 c → c ∈ N) : F.Descend M x y :=
  ⟨⟨hNM h.1.mem, h.1.child, fun c hc hpc => h.1.least c (hnew c hc hpc) hpc⟩, h.2⟩

theorem wins_of_only (ha : a ∈ N) (hpa : F.Child p a)
    (honly : ∀ c ∈ N, F.Child p c → c = a) : F.Wins N s p a :=
  ⟨ha, hpa, fun c hc hpc => by rw [honly c hc hpc]⟩

/-! ## The union of two trees -/

/-- The parents of a set's records that are in the larger set are in the set. -/
def ClosedIn (F : ForkRule A K S R) (U N : Set A) : Prop :=
  ∀ c ∈ N, ∀ q ∈ U, F.Child q c → q ∈ N

theorem ClosedIn.steps_up {U : Set A} (hN : F.ClosedIn U N) (ha : a ∈ N)
    (h : Steps (F.Up U) n a b) : Steps (F.Up N) n a b := by
  induction h with
  | zero => exact .zero _
  | succ hup _ ih =>
    have hp := hN _ ha _ hup.1 hup.2
    exact .succ ⟨hp, hup.2⟩ (ih hp)

theorem within_union (hM : F.ClosedIn (M ∪ N) M) (hN : F.ClosedIn (M ∪ N) N)
    (hwM : F.Within M n) (hwN : F.Within N n) : F.Within (M ∪ N) n := by
  rintro a (ha | ha) k b hk
  · exact hwM a ha k b (hM.steps_up ha hk)
  · exact hwN a ha k b (hN.steps_up ha hk)

/-- Below a record that is not in `N`, the union has only the records of `M`. -/
theorem descend_union_of_notMem (hN : F.ClosedIn (M ∪ N) N) (hx : x.1 ∈ M) (hxN : x.1 ∉ N)
    (h : Steps (F.Descend M) n x y) : y.1 ∉ N ∧ Steps (F.Descend (M ∪ N)) n x y := by
  induction h with
  | zero => exact ⟨hxN, .zero _⟩
  | @succ n x y z hxy _ ih =>
    have hchild : ∀ c ∈ N, ¬ F.Child x.1 c := fun c hc hxc => hxN (hN c hc _ (.inl hx) hxc)
    obtain ⟨hz, hs⟩ := ih hxy.1.mem fun hy => hchild _ hy hxy.1.child
    refine ⟨hz, .succ (hxy.of_superset subset_union_left ?_) hs⟩
    rintro c (hc | hc) hxc
    · exact hc
    · exact absurd hxc (hchild c hc)

theorem tip_union_of_notMem (hN : F.ClosedIn (M ∪ N) N) (ha : a ∈ M) (haN : a ∉ N)
    (h : F.Tip M a) : F.Tip (M ∪ N) a := by
  rintro c (hc | hc) hac
  · exact h c hc hac
  · exact haN (hN c hc a (.inl ha) hac)

/-- Where one tree ends, the union continues with the other. -/
theorem descend_union_of_tip (hM : F.ClosedIn (M ∪ N) M) (hxt : F.Tip M x.1)
    (h : Steps (F.Descend N) n x y) (hy : F.Tip N y.1) :
    Steps (F.Descend (M ∪ N)) n x y ∧ F.Tip (M ∪ N) y.1 := by
  cases h with
  | zero =>
    refine ⟨.zero _, ?_⟩
    rintro c (hc | hc)
    · exact hxt c hc
    · exact hy c hc
  | @succ n _ w _ hxw hwy =>
    have hwM : w.1 ∉ M := fun hw => hxt w.1 hw hxw.1.child
    rw [union_comm M N] at hM ⊢
    obtain ⟨hyM, hs⟩ := descend_union_of_notMem hM hxw.1.mem hwM hwy
    refine ⟨.succ (hxw.of_superset subset_union_left ?_) hs,
      tip_union_of_notMem hM (mem_of_steps_descend hwy hxw.1.mem) hyM hy⟩
    rintro c (hc | hc) hxc
    · exact hc
    · exact absurd hxc (hxt c hc)

/-- Where two trees part, the union continues with the child of the smaller rank. -/
theorem descend_union_of_lt (hN : F.ClosedIn (M ∪ N) N) {a b : A × S}
    (ha : F.Descend M x a) (hb : F.Descend N x b) (hab : F.rank x.2 a.1 < F.rank x.2 b.1)
    (h : Steps (F.Descend M) n a y) (hy : F.Tip M y.1) :
    Steps (F.Descend (M ∪ N)) (n + 1) x y ∧ F.Tip (M ∪ N) y.1 := by
  have haN : a.1 ∉ N := fun haN => absurd (hb.1.least _ haN ha.1.child) (not_le.2 hab)
  obtain ⟨hyN, hs⟩ := descend_union_of_notMem hN ha.1.mem haN h
  refine ⟨.succ ⟨⟨.inl ha.1.mem, ha.1.child, ?_⟩, ha.2⟩ hs,
    tip_union_of_notMem hN (mem_of_steps_descend h ha.1.mem) hyN hy⟩
  rintro c (hc | hc) hxc
  · exact ha.1.least c hc hxc
  · exact hab.le.trans (hb.1.least c hc hxc)

/-- **The primary chain of a union is the primary chain of one of its parts.** -/
theorem descend_union (hinj : InjOn F.key (M ∪ N)) (hM : F.ClosedIn (M ∪ N) M)
    (hN : F.ClosedIn (M ∪ N) N) (hxM : x.1 ∈ M) (hxN : x.1 ∈ N)
    (hy : Steps (F.Descend M) m x y) (hyt : F.Tip M y.1)
    (hz : Steps (F.Descend N) n x z) (hzt : F.Tip N z.1) :
    (Steps (F.Descend (M ∪ N)) m x y ∧ F.Tip (M ∪ N) y.1) ∨
      (Steps (F.Descend (M ∪ N)) n x z ∧ F.Tip (M ∪ N) z.1) := by
  induction hy generalizing n with
  | zero => exact .inr (descend_union_of_tip hM hyt hz hzt)
  | @succ m x a y ha hay ih =>
    cases hz with
    | zero =>
      rw [union_comm] at hN ⊢
      exact .inl (descend_union_of_tip hN hzt (.succ ha hay) hyt)
    | @succ n _ b _ hb hbz =>
      rcases lt_trichotomy (F.rank x.2 a.1) (F.rank x.2 b.1) with hlt | heq | hlt
      · exact .inl (descend_union_of_lt hN ha hb hlt hay hyt)
      · obtain rfl : a = b := by
          have h1 : a.1 = b.1 :=
            hinj (.inl ha.1.mem) (.inr hb.1.mem) (F.key_eq_of_rank_eq heq)
          refine Prod.ext h1 (Option.some.inj ?_)
          rw [← ha.2, ← hb.2, h1]
        -- the two chains have not parted yet
        have hstep : F.Descend (M ∪ N) x a := by
          refine ⟨⟨.inl ha.1.mem, ha.1.child, ?_⟩, ha.2⟩
          rintro c (hc | hc) hxc
          · exact ha.1.least c hc hxc
          · exact hb.1.least c hc hxc
        rcases ih ha.1.mem hb.1.mem hyt hbz with ⟨h, ht⟩ | ⟨h, ht⟩
        · exact .inl ⟨.succ hstep h, ht⟩
        · exact .inr ⟨.succ hstep h, ht⟩
      · rw [union_comm] at hM ⊢
        exact .inr (descend_union_of_lt hM hb ha hlt hbz hzt)

end ForkRule

end Multiport.Lib

import Mathlib.Data.List.TakeWhile
import Mathlib.Order.Lattice.Nat
import Mathlib.Tactic.IntervalCases
import Multiport.Net.Addr

/-!
# The texts of addresses

Rankings break their last tie by the texts of addresses, so two addresses have to have different
texts.  `AddrPort.string_injective` says that they do: the port is what follows the last colon,
a zone what follows the first percent sign, and the pieces between colons say which zero groups
of an IPv6 address were left out.
-/

namespace Multiport.Net

open List Nat

/-! ## Digits -/

theorem digitChar_injective : ∀ d < 16, ∀ e < 16, digitChar d = digitChar e → d = e := by
  decide

theorem notMem_digitChar : ∀ d < 16, digitChar d ∉ [':', '.', '%', ']', '['] := by
  decide

variable {b : Nat} (hb : 1 < b) (hb' : b ≤ 16)

include hb hb'

theorem toDigits_inj {m n : Nat} (h : toDigits b m = toDigits b n) : m = n := by
  induction m using Nat.strong_induction_on generalizing n with
  | _ m ih =>
    rw [toDigits_eq_if hb, toDigits_eq_if (n := n) hb] at h
    have hmod : ∀ k, k % b < 16 := fun k => (mod_lt k (by omega)).trans_le hb'
    split_ifs at h with hm hn hn
    · exact digitChar_injective _ (by omega) _ (by omega) (singleton_inj.1 h)
    · have hlen := congrArg length h
      have := length_pos_of_ne_nil (toDigits_ne_nil (n := n / b) (b := b))
      simp only [length_append, length_singleton] at hlen
      omega
    · have hlen := congrArg length h
      have := length_pos_of_ne_nil (toDigits_ne_nil (n := m / b) (b := b))
      simp only [length_append, length_singleton] at hlen
      omega
    · obtain ⟨hdiv, hlast⟩ := append_inj' h rfl
      have hq := ih (m / b) (div_lt_self (by omega) hb) hdiv
      have hr := digitChar_injective _ (hmod m) _ (hmod n) (singleton_inj.1 hlast)
      rw [← div_add_mod m b, ← div_add_mod n b, hq, hr]

variable {c : Char}

theorem notMem_toDigits (hc : c ∈ [':', '.', '%', ']', '[']) (n : Nat) : c ∉ toDigits b n := by
  induction n using Nat.strong_induction_on with
  | _ n ih =>
    intro hmem
    rw [toDigits_eq_if hb] at hmem
    split_ifs at hmem with hn
    · rw [mem_singleton] at hmem
      exact notMem_digitChar n (by omega) (hmem ▸ hc)
    · rcases mem_append.1 hmem with h | h
      · exact ih _ (div_lt_self (by omega) hb) h
      · rw [mem_singleton] at h
        exact notMem_digitChar (n % b) ((mod_lt n (by omega)).trans_le hb') (h ▸ hc)

omit hb hb'

/-! ## Splitting texts -/

theorem append_cons_inj {x y x' y' : List Char} (hx : c ∉ x) (hx' : c ∉ x')
    (h : x ++ c :: y = x' ++ c :: y') : x = x' ∧ y = y' := by
  have htake : ∀ {x y : List Char}, c ∉ x → (x ++ c :: y).takeWhile (· ≠ c) = x := by
    intro x y hx
    rw [takeWhile_append_of_pos]
    · simp
    · intro a ha
      exact decide_eq_true (ne_of_mem_of_not_mem ha hx)
  have heq : x = x' := by rw [← htake hx (y := y), h, htake hx']
  subst heq
  exact ⟨rfl, (cons.inj (append_cancel_left h)).2⟩

theorem append_cons_inj_last {x y x' y' : List Char} (hy : c ∉ y) (hy' : c ∉ y')
    (h : x ++ c :: y = x' ++ c :: y') : x = x' ∧ y = y' := by
  have hrev := congrArg reverse h
  simp only [reverse_append, reverse_cons, append_assoc] at hrev
  obtain ⟨hyy, hxx⟩ := append_cons_inj (by simpa using hy) (by simpa using hy') hrev
  exact ⟨reverse_injective hxx, reverse_injective hyy⟩

theorem notMem_intercalate {sep : Char} (hne : c ≠ sep) {ls}
    (h : ∀ l ∈ ls, c ∉ l) : c ∉ [sep].intercalate ls := by
  induction ls with
  | nil => simp
  | cons l ls ih =>
    have hl := h l mem_cons_self
    by_cases hls : ls = []
    · subst hls
      simpa using hl
    · rw [intercalate_cons_of_ne_nil hls]
      simp [hl, hne, ih fun l hl => h l (mem_cons_of_mem _ hl)]

/-- A value is made up of its pieces of `k` bits. -/
theorem eq_of_extractLsb'_eq {w : Nat} (k n : Nat) (hk : 0 < k) (hw : w = k * n) {a b : BitVec w}
    (h : ∀ j < n, a.extractLsb' (k * j) k = b.extractLsb' (k * j) k) : a = b := by
  refine BitVec.eq_of_getLsbD_eq fun i hi => ?_
  have hbit := congrArg (fun v => v.getLsbD (i % k)) (h (i / k) (Nat.div_lt_of_lt_mul (hw ▸ hi)))
  simpa [mod_lt i hk, div_add_mod] using hbit

namespace Addr

theorem toList_string4 (a : BitVec 32) :
    (string4 a).toList =
      ['.'].intercalate ([24, 16, 8, 0].map fun s => toDigits 10 (a.extractLsb' s 8).toNat) := by
  simp [string4]

theorem string4_injective {a b : BitVec 32} (h : (string4 a).toList = (string4 b).toList) :
    a = b := by
  have hdots : ∀ a : BitVec 32, (string4 a).toList.splitOn '.' =
      [24, 16, 8, 0].map fun s => toDigits 10 (a.extractLsb' s 8).toNat := by
    intro a
    rw [toList_string4, splitOn_intercalate]
    · intro l hl
      obtain ⟨s, -, rfl⟩ := mem_map.1 hl
      exact notMem_toDigits (by decide) (by decide) (by decide) _
    · simp
  have hbytes := (hdots a).symm.trans ((congrArg (splitOn '.') h).trans (hdots b))
  have hinj : ∀ s ∈ [24, 16, 8, 0], a.extractLsb' s 8 = b.extractLsb' s 8 := fun s hs =>
    BitVec.eq_of_toNat_eq (toDigits_inj (by decide) (by decide) (map_inj_left.1 hbytes s hs))
  refine eq_of_extractLsb'_eq 8 4 (by decide) rfl fun j hj => hinj _ ?_
  interval_cases j <;> simp

/-! ## IPv6 -/

/-- The groups of an address, in hexadecimal. -/
def hexes (gs : List Nat) : List (List Char) := gs.map (toDigits 16)

variable (gs : List Nat)

theorem toList_hexGroups : (hexGroups gs).toList = [':'].intercalate (hexes gs) := by
  simp [hexGroups, hexes, Function.comp_def]

theorem ne_nil_of_mem_hexes {gs : List Nat} {l : List Char} (h : l ∈ hexes gs) : l ≠ [] := by
  obtain ⟨g, -, rfl⟩ := mem_map.1 h
  exact toDigits_ne_nil

/-- The pieces between the colons of some groups; no groups are one empty piece. -/
theorem splitOn_hexGroups :
    (hexGroups gs).toList.splitOn ':' = if gs = [] then [[]] else hexes gs := by
  rw [toList_hexGroups]
  split_ifs with h
  · subst h
    rfl
  · rw [splitOn_intercalate]
    · intro l hl
      obtain ⟨g, -, rfl⟩ := mem_map.1 hl
      exact notMem_toDigits (by decide) (by decide) (by decide) _
    · simpa [hexes] using h

/-- The groups that pieces stand for: those left out are zero. -/
def expand (pieces : List (List Char)) : List (List Char) :=
  let first := pieces.takeWhile (· ≠ [])
  let all := pieces.filter (· ≠ [])
  first ++ replicate (8 - all.length) ['0'] ++ all.drop first.length

theorem filter_splitOn_hexGroups :
    ((hexGroups gs).toList.splitOn ':').filter (· ≠ []) = hexes gs := by
  rw [splitOn_hexGroups]
  split_ifs with h
  · subst h
    rfl
  · exact filter_eq_self.2 fun l hl => decide_eq_true (ne_nil_of_mem_hexes hl)

theorem takeWhile_splitOn_hexGroups (rest : List (List Char)) :
    ((hexGroups gs).toList.splitOn ':' ++ [] :: rest).takeWhile (· ≠ []) = hexes gs := by
  rw [splitOn_hexGroups]
  split_ifs with h
  · subst h
    rfl
  · rw [takeWhile_append_of_pos fun l hl => decide_eq_true (ne_nil_of_mem_hexes hl)]
    simp

theorem zeroRun_spec :
    zeroRun gs = (255, 255) ∨ (zeroRun gs).1 < 8 ∧ (zeroRun gs).1 < (zeroRun gs).2 ∧
      gs = gs.take (zeroRun gs).1 ++ replicate ((zeroRun gs).2 - (zeroRun gs).1) 0 ++
        gs.drop (zeroRun gs).2 := by
  refine foldlRecOn (motive := fun best : Nat × Nat => best = (255, 255) ∨ best.1 < 8 ∧
    best.1 < best.2 ∧ gs = gs.take best.1 ++ replicate (best.2 - best.1) 0 ++
      gs.drop best.2) _ _ (.inl rfl) ?_
  intro best hbest i hi
  dsimp only
  split_ifs with hlong
  · right
    refine ⟨mem_range.1 hi, by omega, ?_⟩
    set run := (gs.drop i).takeWhile (· == 0) with hrun
    have hzeros : replicate run.length 0 = run :=
      (eq_replicate_iff.2 ⟨rfl, fun g hg => by simpa using mem_takeWhile_imp hg⟩).symm
    have hdrop : gs.drop (i + run.length) = (gs.drop i).dropWhile (· == 0) := by
      rw [← drop_drop]
      nth_rewrite 1 [← takeWhile_append_dropWhile (p := (· == 0)) (l := gs.drop i)]
      exact drop_left ..
    rw [Nat.add_sub_cancel_left, hzeros, hdrop, append_assoc, takeWhile_append_dropWhile,
      take_append_drop]
  · exact hbest

theorem length_groups (a : BitVec 128) : (groups a).length = 8 := by simp [groups]

/-- The pieces of the text of an address lead back to its groups. -/
theorem expand_splitOn_string6 (a : BitVec 128) :
    expand ((string6 a).toList.splitOn ':') = hexes (groups a) := by
  have hlen := length_groups a
  unfold string6
  dsimp only
  generalize groups a = gs at hlen
  rcases zeroRun_spec gs with hno | ⟨hstart, hlt, hgs⟩
  · have hne : gs ≠ [] := by
      rintro rfl
      cases hlen
    rw [hno, if_pos rfl, splitOn_hexGroups, if_neg hne, expand]
    have hall : ∀ l ∈ hexes gs, decide (l ≠ []) = true := fun l hl =>
      decide_eq_true (ne_nil_of_mem_hexes hl)
    rw [takeWhile_eq_self_iff.2 hall, filter_eq_self.2 hall]
    simp [hexes, hlen]
  · generalize zeroRun gs = run at hstart hlt hgs ⊢
    obtain ⟨start, stop⟩ := run
    have hpieces : (hexGroups (gs.take start) ++ "::" ++ hexGroups (gs.drop stop)).toList.splitOn
        ':' = (hexGroups (gs.take start)).toList.splitOn ':' ++
          [] :: (hexGroups (gs.drop stop)).toList.splitOn ':' := by
      rw [String.toList_append, String.toList_append, append_assoc]
      change splitOnP _ (_ ++ ':' :: ':' :: _) = _
      rw [splitOnP_append_cons _ _ (by simp)]
      rfl
    have hlens := congrArg length hgs
    simp only [length_append, length_take, length_replicate] at hlens
    rw [if_neg (by omega), hpieces, expand, takeWhile_splitOn_hexGroups, filter_append,
      filter_cons_of_neg (by simp), filter_splitOn_hexGroups, filter_splitOn_hexGroups]
    conv_rhs => rw [hgs]
    have hzeros : 8 - (hexes (gs.take start) ++ hexes (gs.drop stop)).length = stop - start := by
      simp only [hexes, length_append, length_map, length_take, length_drop]
      omega
    rw [hzeros]
    simp [hexes]

variable {a : BitVec 128}

theorem string6_injective {b : BitVec 128} (h : (string6 a).toList = (string6 b).toList) :
    a = b := by
  have hgroups : groups a = groups b := by
    have hhex := (expand_splitOn_string6 a).symm.trans
      ((congrArg (fun s => expand (splitOn ':' s)) h).trans (expand_splitOn_string6 b))
    exact map_injective_iff.2 (fun m n => toDigits_inj (by decide) (by decide)) hhex
  refine eq_of_extractLsb'_eq 16 8 (by decide) rfl fun j hj => BitVec.eq_of_toNat_eq ?_
  have hj' := map_inj_left.1 hgroups (7 - j) (mem_range.2 (by omega))
  rwa [show 112 - 16 * (7 - j) = 16 * j by omega] at hj'

/-! ## The whole text -/

theorem notMem_hexGroups (hc : c ∈ ['.', '%', ']', '[']) (gs : List Nat) :
    c ∉ (hexGroups gs).toList := by
  rw [toList_hexGroups]
  refine notMem_intercalate (by rintro rfl; simp at hc) fun l hl => ?_
  obtain ⟨g, -, rfl⟩ := mem_map.1 hl
  exact notMem_toDigits (by decide) (by decide) (mem_cons_of_mem _ hc) g

theorem notMem_string6 (hc : c ∈ ['.', '%', ']', '[']) (a : BitVec 128) :
    c ∉ (string6 a).toList := by
  unfold string6
  dsimp only
  split_ifs
  · exact notMem_hexGroups hc _
  have hcolon : c ∉ "::".toList := by
    rintro h
    simp at h
    subst h
    simp at hc
  simp only [String.toList_append, mem_append, not_or]
  exact ⟨⟨notMem_hexGroups hc _, hcolon⟩, notMem_hexGroups hc _⟩

theorem notMem_string4 (hc : c ∈ [':', '%', ']', '[']) (a : BitVec 32) :
    c ∉ (string4 a).toList := by
  rw [toList_string4]
  refine notMem_intercalate (by rintro rfl; simp at hc) fun l hl => ?_
  obtain ⟨s, -, rfl⟩ := mem_map.1 hl
  refine notMem_toDigits (by decide) (by decide) ?_ _
  simp only [mem_cons] at hc ⊢
  tauto

/-- The text of an IPv6 address without its zone. -/
def core6 (a : BitVec 128) : String :=
  if is4In6 a then "::ffff:" ++ string4 (a.extractLsb' 0 32) else string6 a

theorem percent_notMem_core6 (a : BitVec 128) : '%' ∉ (core6 a).toList := by
  unfold core6
  split_ifs
  · rw [String.toList_append, mem_append, not_or]
    exact ⟨by decide, notMem_string4 (by decide) _⟩
  · exact notMem_string6 (by decide) _

theorem core6_injective {b : BitVec 128} (h : (core6 a).toList = (core6 b).toList) : a = b := by
  have hdot : ∀ a : BitVec 32, '.' ∈ (string4 a).toList := by
    intro a
    rw [toList_string4]
    simp
  unfold core6 at h
  split_ifs at h with ha hb hb
  · rw [String.toList_append, String.toList_append] at h
    have hlow := string4_injective (append_cancel_left h)
    rw [is4In6, beq_iff_eq] at ha hb
    have hhigh := ha.trans hb.symm
    refine BitVec.eq_of_getLsbD_eq fun i hi => ?_
    rcases lt_or_ge i 32 with hlt | hge
    · simpa [hlt] using congrArg (fun v => v.getLsbD i) hlow
    · simpa [show i - 32 < 96 by omega, Nat.add_sub_cancel' hge] using
        congrArg (fun v => v.getLsbD (i - 32)) hhigh
  · refine absurd ?_ (notMem_string6 (c := '.') (by decide) b)
    rw [← h]
    simp [hdot]
  · refine absurd ?_ (notMem_string6 (c := '.') (by decide) a)
    rw [h]
    simp [hdot]
  · exact string6_injective h

theorem stringZone_injective {b : BitVec 128} {z z' : String}
    (h : (stringZone a z).toList = (stringZone b z').toList) : a = b ∧ z = z' := by
  have htext : ∀ a z, (stringZone a z).toList =
      (core6 a).toList ++ if z = "" then [] else '%' :: z.toList := by
    intro a z
    rw [stringZone, String.toList_append, core6]
    split_ifs <;> simp
  have hcore := percent_notMem_core6
  rw [htext, htext] at h
  split_ifs at h with hz hz' hz'
  · rw [append_nil, append_nil] at h
    exact ⟨core6_injective h, hz.trans hz'.symm⟩
  · refine absurd ?_ (hcore a)
    rw [← append_nil (core6 a).toList, h]
    simp
  · refine absurd ?_ (hcore b)
    rw [← append_nil (core6 b).toList, ← h]
    simp
  · obtain ⟨hc, hzone⟩ := append_cons_inj (hcore a) (hcore b) h
    exact ⟨core6_injective hc, String.toList_injective hzone⟩

end Addr

namespace AddrPort

theorem notMem_toString (hc : c ∈ [':', '.', '%', ']', '[']) (n : Nat) :
    c ∉ (toString n).toList := by
  rw [toString_eq_repr, toList_repr]
  exact notMem_toDigits (by decide) (by decide) hc n

theorem port_injective {m n : UInt16}
    (h : (toString m.toNat).toList = (toString n.toNat).toList) : m = n := by
  rw [toString_eq_repr, toList_repr, toString_eq_repr, toList_repr] at h
  exact UInt16.toNat_inj.1 (toDigits_inj (by decide) (by decide) h)

/-- A text with a bracket is that of an IPv6 address. -/
theorem bracket_notMem_string (a : BitVec 32) (port : UInt16) :
    '[' ∉ (string ⟨.v4 a, port⟩).toList := by
  simp only [string, String.toList_append, mem_append, not_or]
  exact ⟨⟨Addr.notMem_string4 (by decide) a, by decide⟩, notMem_toString (by decide) _⟩

/-- **Different addresses have different texts.** -/
theorem string_injective {p q : AddrPort} (hp : p.isValid = true) (hq : q.isValid = true)
    (h : p.string = q.string) : p = q := by
  have hcolon := notMem_toString (c := ':') (by decide)
  obtain ⟨addr, port⟩ := p
  obtain ⟨addr', port'⟩ := q
  cases addr with
  | zero => cases hp
  | v4 a =>
    cases addr' with
    | zero => cases hq
    | v4 b =>
      replace h := congrArg String.toList h
      simp only [string, String.toList_append, append_assoc] at h
      obtain ⟨haddr, hpt⟩ := append_cons_inj_last (hcolon _) (hcolon _) h
      rw [Addr.string4_injective haddr, port_injective hpt]
    | v6 b z =>
      refine absurd ?_ (bracket_notMem_string a port)
      rw [h]
      simp [string]
  | v6 a z =>
    cases addr' with
    | zero => cases hq
    | v4 b =>
      refine absurd ?_ (bracket_notMem_string b port')
      rw [← h]
      simp [string]
    | v6 b z' =>
      replace h := congrArg String.toList h
      simp only [string, String.toList_append] at h
      have hsplit : ∀ (t d : List Char), "[".toList ++ t ++ "]:".toList ++ d =
          ("[".toList ++ t ++ [']']) ++ ':' :: d := fun t d => by simp
      rw [hsplit, hsplit] at h
      obtain ⟨htext, hpt⟩ := append_cons_inj_last (hcolon _) (hcolon _) h
      obtain ⟨rfl, rfl⟩ := Addr.stringZone_injective
        (append_cancel_left (append_cancel_right htext))
      rw [port_injective hpt]

end AddrPort

end Multiport.Net

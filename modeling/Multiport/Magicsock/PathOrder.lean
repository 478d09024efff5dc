import Mathlib.Data.Finset.Max
import Mathlib.Data.Prod.Lex
import Mathlib.Tactic.Linarith
import Mathlib.Tactic.Positivity
import Mathlib.Tactic.Ring
import Multiport.Magicsock.Endpoint

/-!
# Is `betterAddr` an order?

`betterAddr` (`wgengine/magicsock/endpoint.go`) compares two paths at a time.  Two paths are
never each better than the other (`betterAddr_asymm`).  Between direct paths the points for a
lower latency are a percentage of the higher one, and those for the kind of an address are
absolute, so three paths can each be better than the next.  The lemmas below say in terms of
the latencies alone when one direct path is better, and `no_cycle_iff` says for which kinds of
addresses a cycle exists.
-/

namespace Multiport.Magicsock

open Net Relation Bool

/-! ## Two paths -/

theorem latencyPoints_swap (a b : Duration) : latencyPoints b a = (latencyPoints a b).swap := by
  unfold latencyPoints
  rcases lt_trichotomy a b with hlt | rfl | hlt
  · by_cases hb : b > 0
    · rw [if_pos ⟨hlt, hb⟩, if_neg fun h => absurd h.1 hlt.not_gt, if_pos hb]
      rfl
    · rw [if_neg fun h => hb h.2, if_neg fun h => hb (h.trans hlt),
        if_neg fun h => absurd h.1 hlt.not_gt, if_neg hb]
      rfl
  · by_cases ha : a > 0
    · rw [if_neg fun h => lt_irrefl _ h.1, if_pos ha, mul_comm, Int.mul_tdiv_cancel _ ha.ne']
      rfl
    · rw [if_neg fun h => lt_irrefl _ h.1, if_neg ha]
      rfl
  · by_cases ha : a > 0
    · rw [if_neg fun h => absurd h.1 hlt.not_gt, if_pos ha, if_pos ⟨hlt, ha⟩]
      rfl
    · rw [if_neg fun h => absurd h.1 hlt.not_gt, if_neg ha, if_neg fun h => ha h.2,
        if_neg fun h => ha (h.trans hlt)]
      rfl

/-- A relay path is better than a direct one exactly if it is below the threshold. -/
theorem relayBeatsDirectByThreshold_iff (env : PathEnv) (direct relay : Duration) :
    relayBeatsDirectByThreshold direct relay env.directVsRelayThresholdValue = true ↔
      0 < env.directVsRelayThresholdValue ∧ 0 < relay ∧
        relay * 100 < direct * (100 - env.directVsRelayThresholdValue) := by
  have hle : env.directVsRelayThresholdValue ≤ 100 := by
    unfold PathEnv.directVsRelayThresholdValue directVsRelayThresholdPercent
    split_ifs <;> omega
  generalize env.directVsRelayThresholdValue = pct at hle
  unfold relayBeatsDirectByThreshold directBeatsRelayByThreshold
  rw [if_neg (not_lt.2 hle)]
  by_cases hlat : relay ≤ 0 ∨ direct ≤ 0
  · rw [if_pos hlat]
    refine iff_of_false false_ne_true ?_
    rintro ⟨-, hrelay, hlt⟩
    -- the product is not positive if the latency of the direct path is not
    have hdirect : direct ≤ 0 := hlat.resolve_left (not_le.2 hrelay)
    have hprod := mul_nonpos_of_nonpos_of_nonneg hdirect (sub_nonneg.2 hle)
    exact absurd (hlt.trans_le hprod) (not_lt.2 (by positivity))
  · rw [if_neg hlat]
    by_cases hpct : pct ≤ 0
    · rw [if_pos hpct]
      exact iff_of_false false_ne_true fun h => absurd h.1 (not_lt.2 hpct)
    · rw [if_neg hpct, decide_eq_true_iff]
      exact ⟨fun h => ⟨not_le.1 hpct, not_le.1 fun hr => hlat (.inl hr), h⟩, fun h => h.2.2⟩

section TwoPaths

variable (env : PathEnv) {a b : AddrQuality}

/-- The points of `a` in its comparison with `b`. -/
def pointsAgainst (a b : AddrQuality) : Int :=
  (latencyPoints a.latency.val b.latency.val).1 + kindPoints a.epAddr.ap.addr

section

variable (ha : a.epAddr.ap.isValid = true) (hb : b.epAddr.ap.isValid = true)

include ha hb

theorem betterAddr_of_vni_eq (hne : a.epAddr ≠ b.epAddr)
    (hvni : a.epAddr.vni.isSet = b.epAddr.vni.isSet) :
    betterAddr env a b = true ↔
      ¬(pointsAgainst a b ≤ 1 ∧ pointsAgainst b a = 0) ∧ pointsAgainst b a < pointsAgainst a b := by
  have hpoints : (latencyPoints b.latency.val a.latency.val).1 =
      (latencyPoints a.latency.val b.latency.val).2 := by
    rw [latencyPoints_swap]
    rfl
  unfold betterAddr pointsAgainst
  rw [if_neg hne, if_neg (by simp [hb]), if_neg (by simp [ha]), if_neg (by simp [hvni]),
    if_neg (by simp [hvni]), hpoints]
  by_cases hband : (latencyPoints a.latency.val b.latency.val).1 + kindPoints a.epAddr.ap.addr ≤ 1 ∧
      (latencyPoints a.latency.val b.latency.val).2 + kindPoints b.epAddr.ap.addr = 0
  · rw [if_pos hband]
    exact iff_of_false false_ne_true fun h => h.1 hband
  · rw [if_neg hband, decide_eq_true_iff]
    exact ⟨fun h => ⟨hband, h⟩, fun h => h.2⟩

variable (hva : a.epAddr.vni.isSet = true) (hvb : b.epAddr.vni.isSet = false)

include hva hvb

theorem betterAddr_relay_direct :
    betterAddr env a b = (env.directVsRelayCompare &&
      relayBeatsDirectByThreshold b.latency.val a.latency.val env.directVsRelayThresholdValue) := by
  have hne : a.epAddr ≠ b.epAddr := fun h => by simp [h, hvb] at hva
  unfold betterAddr
  rw [if_neg hne, if_neg (by simp [hb]), if_neg (by simp [ha]), if_neg (by simp [hva]),
    if_pos (by simp [hva, hvb])]

theorem betterAddr_direct_relay : betterAddr env b a = !betterAddr env a b := by
  have hne : b.epAddr ≠ a.epAddr := fun h => by simp [← h, hvb] at hva
  rw [betterAddr_relay_direct env ha hb hva hvb]
  unfold betterAddr
  rw [if_neg hne, if_neg (by simp [ha]), if_neg (by simp [hb]), if_pos (by simp [hva, hvb])]

end

/-- **No two paths preempt each other**, and between a relay path and a direct one the
threshold decides. -/
theorem betterAddr_asymm :
    (∀ a b : AddrQuality, a.epAddr.ap.isValid = true → b.epAddr.ap.isValid = true →
      ¬(betterAddr env a b = true ∧ betterAddr env b a = true)) ∧
      ∀ relay direct : AddrQuality, relay.epAddr.ap.isValid = true →
        direct.epAddr.ap.isValid = true → relay.epAddr.vni.isSet = true →
        direct.epAddr.vni.isSet = false → env.directVsRelayCompare = true →
        (betterAddr env relay direct = true ↔ ¬ betterAddr env direct relay = true) ∧
          (betterAddr env relay direct = true ↔
            0 < env.directVsRelayThresholdValue ∧ 0 < relay.latency.val ∧
              relay.latency.val * 100 <
                direct.latency.val * (100 - env.directVsRelayThresholdValue)) := by
  constructor
  · rintro a b ha hb ⟨hab, hba⟩
    by_cases heq : a.epAddr = b.epAddr
    · -- one address: the larger MTU wins
      rw [betterAddr, if_pos heq, decide_eq_true_iff] at hab
      rw [betterAddr, if_pos heq.symm, decide_eq_true_iff] at hba
      exact lt_asymm hab hba
    by_cases hvni : a.epAddr.vni.isSet = b.epAddr.vni.isSet
    · rw [betterAddr_of_vni_eq env ha hb heq hvni] at hab
      rw [betterAddr_of_vni_eq env hb ha (Ne.symm heq) hvni.symm] at hba
      exact lt_asymm hab.2 hba.2
    cases hva : a.epAddr.vni.isSet <;> rw [hva, eq_comm] at hvni
    · rw [betterAddr_direct_relay env hb ha (eq_true_of_not_eq_false hvni) hva, hba] at hab
      cases hab
    · rw [betterAddr_direct_relay env ha hb hva (eq_false_of_not_eq_true hvni), hab] at hba
      cases hba
  · intro relay direct hr hd hvr hvd hcompare
    rw [betterAddr_direct_relay env hr hd hvr hvd]
    refine ⟨by simp, ?_⟩
    rw [betterAddr_relay_direct env hr hd hvr hvd, hcompare]
    exact relayBeatsDirectByThreshold_iff env _ _

end TwoPaths

/-- A path to `ip`, with the latency in milliseconds. -/
def pathTo (ip : BitVec 32) (vni : VirtualNetworkID) (ms : Int) : AddrQuality where
  epAddr := { ap := ⟨.v4 ip, 41641⟩, vni }
  latency := ⟨ms * millisecond, none⟩

/-- A relay path of 80 ms against a direct one of 100 ms, and the default threshold. -/
theorem betterAddr_asymm_relay :
    betterAddr { directVsRelayCompare := true } (pathTo 0x01020304#32 (.set 7#32) 80)
        (pathTo 0x01020305#32 {} 100) = true ∧
      betterAddr { directVsRelayCompare := true } (pathTo 0x01020305#32 {} 100)
        (pathTo 0x01020304#32 (.set 7#32) 80) = false := by
  have h := (betterAddr_asymm { directVsRelayCompare := true }).2
    (pathTo 0x01020304#32 (.set 7#32) 80) (pathTo 0x01020305#32 {} 100) rfl rfl (by decide)
    (by decide) rfl
  have hwins := h.2.2 (by decide)
  exact ⟨hwins, eq_false_iff.2 (h.1.1 hwins)⟩

/-- With a negative setting the threshold is 0, and a relay path never wins. -/
theorem betterAddr_threshold_zero :
    PathEnv.directVsRelayThresholdValue
        { directVsRelayCompare := true, directVsRelayThresholdPct := -1 } = 0 ∧
      50 * 100 < 100 * (100 - 0) ∧
      betterAddr { directVsRelayCompare := true, directVsRelayThresholdPct := -1 }
        (pathTo 0x01020304#32 (.set 7#32) 50) (pathTo 0x01020305#32 {} 100) = false := by
  decide

/-! ## Many direct paths -/

theorem kindPoints_spec (a : Addr) : 0 ≤ kindPoints a ∧ kindPoints a ≤ 60 ∧ 10 ∣ kindPoints a := by
  unfold kindPoints
  split_ifs <;> decide

section Paths

variable (env : PathEnv) (latency : EpAddr → Duration) (mtu : EpAddr → Int)

/-- The path to an address, with the latency and the MTU measured on it. -/
def pathQuality (e : EpAddr) : AddrQuality where
  epAddr := e
  latency := ⟨latency e, some e⟩
  wireMTU := ⟨mtu e, some e⟩

/-- The points for the kind of an address. -/
def addrPoints (e : EpAddr) : Int := kindPoints e.ap.addr

/-- A pong of `q` would replace `p`. -/
def Improves (addrs : List EpAddr) (p q : EpAddr) : Prop :=
  p ∈ addrs ∧ q ∈ addrs ∧
    betterAddr env (pathQuality latency mtu q) (pathQuality latency mtu p) = true

variable {env latency mtu} {p q : EpAddr}

theorem latencyPoints_of_le {a b : Duration} (ha : 0 < a) (h : a ≤ b) :
    latencyPoints a b = (100 - a * 100 / b, 0) := by
  rw [latencyPoints, if_neg fun hgt => absurd hgt.1 (not_lt.2 h), if_pos (ha.trans_le h),
    Int.tdiv_eq_ediv_of_nonneg (by positivity)]

theorem latencyPoints_of_lt {a b : Duration} (hb : 0 < b) (h : b < a) :
    latencyPoints a b = (0, 100 - b * 100 / a) := by
  rw [latencyPoints_swap, latencyPoints_of_le hb h.le]
  rfl

theorem percent_le {a b : Int} (hb : 0 < b) (h : a ≤ b) : a * 100 / b ≤ 100 := by
  rw [← Int.lt_add_one_iff, Int.ediv_lt_iff_lt_mul hb]
  linarith

theorem betterAddr_direct_iff (hp : p.isDirect = true) (hq : q.isDirect = true) (hne : p ≠ q) :
    betterAddr env (pathQuality latency mtu p) (pathQuality latency mtu q) = true ↔
      ¬((latencyPoints (latency p) (latency q)).1 + addrPoints p ≤ 1 ∧
          (latencyPoints (latency p) (latency q)).2 + addrPoints q = 0) ∧
        (latencyPoints (latency p) (latency q)).2 + addrPoints q <
          (latencyPoints (latency p) (latency q)).1 + addrPoints p := by
  simp only [EpAddr.isDirect, and_eq_true, not_eq_true'] at hp hq
  rw [betterAddr_of_vni_eq env hp.1.1 hq.1.1 hne (hp.2.trans hq.2.symm), pointsAgainst,
    pointsAgainst, pathQuality, latencyPoints_swap (latency p)]
  rfl

section Compare

variable (hp : p.isDirect = true) (hq : q.isDirect = true) (hlp : 0 < latency p)
  (hlq : 0 < latency q)

include hp hq hlp hlq

/-- An address of a lesser kind has to be faster by the difference. -/
theorem betterAddr_iff_of_points_lt (h : addrPoints p < addrPoints q) :
    betterAddr env (pathQuality latency mtu p) (pathQuality latency mtu q) = true ↔
      latency p * 100 < (100 - (addrPoints q - addrPoints p)) * latency q := by
  have hkind := (kindPoints_spec p.ap.addr).1
  change 0 ≤ addrPoints p at hkind
  rw [betterAddr_direct_iff hp hq (by rintro rfl; exact lt_irrefl _ h)]
  rcases le_or_gt (latency p) (latency q) with hle | hlt
  · rw [latencyPoints_of_le hlp hle, ← Int.ediv_lt_iff_lt_mul hlq]
    omega
  · rw [latencyPoints_of_lt hlq hlt]
    have hdiv := percent_le hlp hlt.le
    refine iff_of_false (fun hpts => ?_) (fun hlat => ?_)
    · omega
    · nlinarith

/-- An address of a better kind may be slower by less than the difference. -/
theorem betterAddr_iff_of_points_gt (h : addrPoints q < addrPoints p) :
    betterAddr env (pathQuality latency mtu p) (pathQuality latency mtu q) = true ↔
      (101 - (addrPoints p - addrPoints q)) * latency p ≤ latency q * 100 := by
  obtain ⟨-, -, hpten⟩ := kindPoints_spec p.ap.addr
  change 10 ∣ addrPoints p at hpten
  rw [betterAddr_direct_iff hp hq (by rintro rfl; exact lt_irrefl _ h)]
  rcases le_or_gt (latency p) (latency q) with hle | hlt
  · rw [latencyPoints_of_le hlp hle]
    have hdiv := percent_le hlq hle
    refine iff_of_true ?_ ?_
    · omega
    · nlinarith
  · rw [latencyPoints_of_lt hlq hlt, ← Int.le_ediv_iff_mul_le hlp]
    omega

theorem latency_lt_of_points_eq (h : addrPoints p = addrPoints q)
    (hb : betterAddr env (pathQuality latency mtu p) (pathQuality latency mtu q) = true) :
    latency p < latency q := by
  rw [betterAddr_direct_iff hp hq (by rintro rfl; simp [betterAddr] at hb)] at hb
  rcases lt_or_ge (latency p) (latency q) with hlt | hge
  · exact hlt
  rcases hge.lt_or_eq with hlt | heq
  · rw [latencyPoints_of_lt hlq hlt] at hb
    have hdiv := percent_le hlp hlt.le
    omega
  · rw [latencyPoints_of_le hlp heq.ge, ← heq, mul_comm, Int.mul_ediv_cancel _ hlq.ne'] at hb
    omega

end Compare

/-! ## Cycles -/

/-- Three kinds of addresses so far apart that a cycle of them exists. -/
def Crossed (addrs : List EpAddr) : Prop :=
  ∃ a ∈ addrs, ∃ b ∈ addrs, ∃ c ∈ addrs, addrPoints a < addrPoints b ∧
    addrPoints b < addrPoints c ∧
    100 < (addrPoints b - addrPoints a) * (addrPoints c - addrPoints b)

/-- Weights for the kinds of addresses under which no better path is heavier. -/
structure Balanced (addrs : List EpAddr) (weight : Int → Int) : Prop where
  pos : ∀ e ∈ addrs, 0 < weight (addrPoints e)
  lower : ∀ e ∈ addrs, ∀ f ∈ addrs, addrPoints e < addrPoints f →
    (100 - (addrPoints f - addrPoints e)) * weight (addrPoints e) ≤ 100 * weight (addrPoints f)
  upper : ∀ e ∈ addrs, ∀ f ∈ addrs, addrPoints e < addrPoints f →
    100 * weight (addrPoints f) ≤ (101 - (addrPoints f - addrPoints e)) * weight (addrPoints e)

variable {addrs : List EpAddr} {weight : Int → Int}

/-- The weighted latency of a path; among equal ones the better kind comes first. -/
def weighted (weight : Int → Int) (latency : EpAddr → Duration) (e : EpAddr) : Int ×ₗ Int :=
  toLex (weight (addrPoints e) * latency e, -addrPoints e)

theorem Balanced.weighted_lt (hw : Balanced addrs weight) (hdirect : ∀ e ∈ addrs, e.isDirect = true)
    (hpos : ∀ e ∈ addrs, 0 < latency e) (h : Improves env latency mtu addrs p q) :
    weighted weight latency q < weighted weight latency p := by
  obtain ⟨hp, hq, hbetter⟩ := h
  have hlp := hpos p hp
  have hlq := hpos q hq
  have hwp := hw.pos p hp
  have hwq := hw.pos q hq
  rw [weighted, weighted, Prod.Lex.toLex_lt_toLex]
  rcases lt_trichotomy (addrPoints q) (addrPoints p) with hlt | heq | hgt
  · rw [betterAddr_iff_of_points_lt (hdirect q hq) (hdirect p hp) hlq hlp hlt] at hbetter
    have hlow := hw.lower q hq p hp hlt
    left
    nlinarith
  · have hlt := latency_lt_of_points_eq (hdirect q hq) (hdirect p hp) hlq hlp heq hbetter
    left
    rw [heq]
    exact mul_lt_mul_of_pos_left hlt hwp
  · rw [betterAddr_iff_of_points_gt (hdirect q hq) (hdirect p hp) hlq hlp hgt] at hbetter
    have hup := hw.upper p hp q hq hgt
    have hle : weight (addrPoints q) * latency q ≤ weight (addrPoints p) * latency p := by
      nlinarith
    omega

/-- Weights for kinds that are at most 20 points apart. -/
def nearWeight (least k : Int) : Int := if k = least then 100 else if k = least + 10 then 90 else 81

def twoWeight (least k : Int) : Int := if k = least then 100 else 100 - (k - least)

theorem addrPoints_spec (e : EpAddr) : 0 ≤ addrPoints e ∧ addrPoints e ≤ 60 ∧ 10 ∣ addrPoints e :=
  kindPoints_spec e.ap.addr

theorem balanced_near {least : Int} (hkinds : ∀ e ∈ addrs,
      addrPoints e = least ∨ addrPoints e = least + 10 ∨ addrPoints e = least + 20) :
    Balanced addrs (nearWeight least) where
  pos e he := by
    rcases hkinds e he with h | h | h <;> simp [nearWeight, h]
  lower e he f hf hlt := by
    rcases hkinds e he with h | h | h <;> rcases hkinds f hf with h' | h' | h' <;>
      simp [nearWeight, h, h'] at hlt ⊢
  upper e he f hf hlt := by
    rcases hkinds e he with h | h | h <;> rcases hkinds f hf with h' | h' | h' <;>
      simp [nearWeight, h, h'] at hlt ⊢

theorem balanced_two (a c : EpAddr) (hlt : addrPoints a < addrPoints c)
    (hkinds : ∀ e ∈ addrs, addrPoints e = addrPoints a ∨ addrPoints e = addrPoints c) :
    Balanced addrs (twoWeight (addrPoints a)) := by
  have hleast : twoWeight (addrPoints a) (addrPoints a) = 100 := if_pos rfl
  have hmost : twoWeight (addrPoints a) (addrPoints c) = 100 - (addrPoints c - addrPoints a) :=
    if_neg hlt.ne'
  refine ⟨fun e he => ?_, fun e he f hf hef => ?_, fun e he f hf hef => ?_⟩
  · have hspeca := addrPoints_spec a
    have hspecc := addrPoints_spec c
    rcases hkinds e he with h | h
    · rw [h, hleast]
      decide
    · rw [h]
      omega
  all_goals
    rcases hkinds e he with h | h <;> rcases hkinds f hf with h' | h' <;> rw [h, h'] at hef ⊢ <;>
      first | exact absurd hef (lt_irrefl _) | exact absurd hef hlt.not_gt | rw [hleast]; omega

/-- Kinds that are not crossed can be balanced. -/
theorem exists_balanced (h : ¬ Crossed addrs) : ∃ weight, Balanced addrs weight := by
  by_cases hnil : addrs = []
  · subst hnil
    exact ⟨fun _ => 0, ⟨by simp, by simp, by simp⟩⟩
  obtain ⟨a, ha, hmin⟩ := addrs.toFinset.exists_min_image addrPoints
    (List.toFinset_nonempty_iff _ |>.2 hnil)
  simp only [List.mem_toFinset] at ha hmin
  by_cases hnear : ∀ e ∈ addrs, addrPoints e = addrPoints a ∨ addrPoints e = addrPoints a + 10 ∨
      addrPoints e = addrPoints a + 20
  · exact ⟨_, balanced_near hnear⟩
  push Not at hnear
  obtain ⟨c, hc, hfar⟩ := hnear
  have hspec := addrPoints_spec a
  have hspecc := addrPoints_spec c
  have hac := hmin c hc
  refine ⟨_, balanced_two a c (by omega) fun e he => ?_⟩
  by_contra hother
  have hspece := addrPoints_spec e
  have hae := hmin e he
  -- a third kind lies between the two or above them
  rcases lt_or_gt_of_ne (fun hec => hother (.inr hec)) with hlt | hgt
  · exact h ⟨a, ha, e, he, c, hc, by omega, hlt, by
      obtain ⟨x, hx⟩ : ∃ x, x = addrPoints e - addrPoints a := ⟨_, rfl⟩
      obtain ⟨y, hy⟩ : ∃ y, y = addrPoints c - addrPoints e := ⟨_, rfl⟩
      nlinarith [show 10 ≤ x by omega, show 10 ≤ y by omega, show 30 ≤ x + y by omega]⟩
  · exact h ⟨a, ha, c, hc, e, he, by omega, hgt, by
      nlinarith [show 30 ≤ addrPoints c - addrPoints a by omega,
        show 10 ≤ addrPoints e - addrPoints c by omega]⟩

theorem Balanced.no_cycle (hw : Balanced addrs weight) (hdirect : ∀ e ∈ addrs, e.isDirect = true)
    (hpos : ∀ e ∈ addrs, 0 < latency e) (e : EpAddr) :
    ¬ TransGen (Improves env latency mtu addrs) e e := by
  have hlt : ∀ {p q}, TransGen (Improves env latency mtu addrs) p q →
      weighted weight latency q < weighted weight latency p := by
    intro p q h
    induction h with
    | single h => exact hw.weighted_lt hdirect hpos h
    | tail _ h ih => exact (hw.weighted_lt hdirect hpos h).trans ih
  exact fun h => lt_irrefl _ (hlt h)

/-- Latencies with which three crossed kinds make a cycle. -/
def crossedLatency (a b c : EpAddr) (e : EpAddr) : Duration :=
  let x := 100 - (addrPoints b - addrPoints a)
  let z := 101 - (addrPoints c - addrPoints a)
  if e = a then 2 * x * z else if e = b then 200 * z + 1 else if e = c then 200 * x else 1

theorem Crossed.exists_cycle (env : PathEnv) (h : Crossed addrs)
    (hdirect : ∀ e ∈ addrs, e.isDirect = true) :
    ∃ latency : EpAddr → Duration, (∀ e, 0 < latency e) ∧
      ∃ e, TransGen (Improves env latency (fun _ => 0) addrs) e e := by
  obtain ⟨a, ha, b, hb, c, hc, hab, hbc, hfar⟩ := h
  have hba : b ≠ a := by rintro rfl; exact lt_irrefl _ hab
  have hcb : c ≠ b := by rintro rfl; exact lt_irrefl _ hbc
  have hca : c ≠ a := by rintro rfl; exact lt_asymm hab hbc
  have hspeca := addrPoints_spec a
  have hspecc := addrPoints_spec c
  have hpos : ∀ e, 0 < crossedLatency a b c e := by
    intro e
    have hx : 0 < 100 - (addrPoints b - addrPoints a) := by omega
    have hz : 0 < 101 - (addrPoints c - addrPoints a) := by omega
    unfold crossedLatency
    split_ifs <;> positivity
  refine ⟨crossedLatency a b c, hpos, c, ?_⟩
  have hla : crossedLatency a b c a = 2 * (100 - (addrPoints b - addrPoints a)) *
      (101 - (addrPoints c - addrPoints a)) := by simp [crossedLatency]
  have hlb : crossedLatency a b c b = 200 * (101 - (addrPoints c - addrPoints a)) + 1 := by
    simp [crossedLatency, hba]
  have hlc : crossedLatency a b c c = 200 * (100 - (addrPoints b - addrPoints a)) := by
    simp [crossedLatency, hcb, hca]
  have hcb' : Improves env (crossedLatency a b c) (fun _ => 0) addrs c b := by
    refine ⟨hc, hb, (betterAddr_iff_of_points_lt (hdirect b hb) (hdirect c hc) (hpos b) (hpos c)
      hbc).2 ?_⟩
    nlinarith
  have hba' : Improves env (crossedLatency a b c) (fun _ => 0) addrs b a := by
    refine ⟨hb, ha, (betterAddr_iff_of_points_lt (hdirect a ha) (hdirect b hb) (hpos a) (hpos b)
      hab).2 ?_⟩
    nlinarith
  have hac' : Improves env (crossedLatency a b c) (fun _ => 0) addrs a c := by
    refine ⟨ha, hc, (betterAddr_iff_of_points_gt (hdirect c hc) (hdirect a ha) (hpos c) (hpos a)
      (hab.trans hbc)).2 ?_⟩
    rw [hla, hlc]
    exact le_of_eq (by ring)
  exact ((TransGen.single hcb').tail hba').tail hac'

/-- **Path selection does not cycle**, whatever is measured on some direct addresses, exactly
if no three of their kinds are crossed. -/
theorem no_cycle_iff (env : PathEnv) (addrs : List EpAddr)
    (hdirect : ∀ e ∈ addrs, e.isDirect = true) :
    (∀ latency mtu, (∀ e ∈ addrs, 0 < latency e) →
        ∀ e, ¬ TransGen (Improves env latency mtu addrs) e e) ↔ ¬ Crossed addrs := by
  constructor
  · intro h hcrossed
    obtain ⟨latency, hpos, e, hcycle⟩ := hcrossed.exists_cycle env hdirect
    exact h latency _ (fun e _ => hpos e) e hcycle
  · intro h latency mtu hpos e
    obtain ⟨weight, hw⟩ := exists_balanced h
    exact hw.no_cycle hdirect hpos e

end Paths

/-- A loopback, a public and a private address. -/
def crossedAddrs : List EpAddr :=
  [0x7f000001#32, 0x08080808#32, 0x0a000001#32].map fun ip => { ap := ⟨.v4 ip, 41641⟩ }

theorem no_cycle_iff_crossedAddrs :
    ¬ ∀ latency mtu, (∀ e ∈ crossedAddrs, 0 < latency e) →
      ∀ e, ¬ TransGen (Improves {} latency mtu crossedAddrs) e e :=
  fun h => (no_cycle_iff {} crossedAddrs (by decide)).1 h (by unfold Crossed; decide)

/-- Loopback is better than a public address that is twice as fast, which is better than a
private one that is a quarter slower, which is better than loopback. -/
theorem betterAddr_cycle :
    ((pathTo 0x7f000001#32 {} 195).epAddr.isDirect = true ∧
        (pathTo 0x08080808#32 {} 100).epAddr.isDirect = true ∧
        (pathTo 0x0a000001#32 {} 130).epAddr.isDirect = true) ∧
      betterAddr {} (pathTo 0x7f000001#32 {} 195) (pathTo 0x08080808#32 {} 100) = true ∧
      betterAddr {} (pathTo 0x08080808#32 {} 100) (pathTo 0x0a000001#32 {} 130) = true ∧
      betterAddr {} (pathTo 0x0a000001#32 {} 130) (pathTo 0x7f000001#32 {} 195) = true := by
  decide

end Multiport.Magicsock

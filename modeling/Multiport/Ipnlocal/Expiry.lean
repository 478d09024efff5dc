import Mathlib.Tactic.Linarith
import Multiport.Tailcfg.Node

/-!
# Key expiry

Every netmap is searched for peers whose key has expired, and a timer is armed to search it again
after the next expiry.  Expiries are instants of the clock of control and the timer runs on the
local one: a peer is flagged late when the clock of control is ahead (`flagged_late`), and
otherwise within 40 seconds.
-/

namespace Multiport.Ipnlocal

open Lib Tailcfg List

variable {H : Type}

/-- `time.Second`, in nanoseconds. -/
def second : Int := 1000000000

/-- `time.Unix(1673373066, 0)`. -/
def flagExpiredPeersEpoch : Time := (62135596800 + 1673373066) * second

def minClockDelta : Int := 60 * second

/-- `Time.Sub`. -/
def sub (t u : Int) : Int := max (-2 ^ 63) (min (2 ^ 63 - 1) (t - u))

/-- `onControlTime`, with the clock delta that is stored. -/
def onControlTime (t localNow : Int) : Int :=
  if minClockDelta < (sub t localNow).natAbs then sub t localNow else 0

def nodePublicWithBadOldPrefix (k : PublicKey) : PublicKey := 0x6da774d5d774#48 ++ k.setWidth 208

/-- The loop of `flagExpiredPeers`. -/
def flagExpired (controlNow : Time) (peer : Node H) : Node H :=
  if peer.keyExpiry = 0 ∨ controlNow < peer.keyExpiry then peer
  else if peer.expired then peer
  else { peer with
    expired := true, endpoints := none, homeDERP := 0, key := nodePublicWithBadOldPrefix peer.key }

variable (clockDelta : Int)

def flagExpiredPeers (peers : List (Node H)) (localNow : Time) : List (Node H) :=
  if localNow + clockDelta < flagExpiredPeersEpoch then peers
  else peers.map (flagExpired (localNow + clockDelta))

/-- The sooner of `nextExpiry` and an expiry that is not past. -/
def soonest (controlNow nextExpiry expiry : Int) : Int :=
  if expiry = 0 ∨ expiry < controlNow then nextExpiry
  else if nextExpiry = 0 ∨ expiry < nextExpiry then expiry
  else nextExpiry

/-- A time that is before the local one is put off by 30 seconds. -/
def notBefore (localNow nextExpiry : Int) : Int :=
  if nextExpiry ≠ 0 ∧ nextExpiry < localNow then localNow + 30 * second else nextExpiry

def nextPeerExpiry (selfNode : Option (Node H)) (peers : List (Node H)) (localNow : Time) : Time :=
  if localNow + clockDelta < flagExpiredPeersEpoch then 0
  else
    let expiries := (peers.filter fun peer => !peer.expired) ++ selfNode.toList
    notBefore localNow ((expiries.map Node.keyExpiry).foldl (soonest (localNow + clockDelta)) 0)

/-- The duration of `nmExpiryTimer`. -/
def tmrDuration (nextExpiry now : Int) : Option Int :=
  if nextExpiry = 0 then none else some ((sub nextExpiry now + 10 * second).bmod (2 ^ 64))

/-- What `SetControlClientStatus` does about expiry: the peers afterwards, and the duration of the
timer. -/
def setControlClientStatus (selfNode : Option (Node H)) (peers : List (Node H))
    (now : Time) : List (Node H) × Option Int :=
  let peers := flagExpiredPeers clockDelta peers now
  (peers, tmrDuration (nextPeerExpiry clockDelta selfNode peers now) now)

/-- The timer fires, and the same netmap is handled again. -/
def Fires (selfNode : Option (Node H)) (s t : List (Node H) × Time) : Prop :=
  ∃ d, setControlClientStatus clockDelta selfNode s.1 s.2 = (t.1, some d) ∧ t.2 = s.2 + d

/-- No timer is short, and a peer that is not flagged by a call is looked at again within
40 seconds of its expiry on the clock of control, which is `o` ahead. -/
def InTime (o now : Int) (call : List (Node H) × Option Int) : Prop :=
  (∀ d ∈ call.2, 10 * second ≤ d) ∧
  ∀ p ∈ call.1, p.keyExpiry ≠ 0 → p.expired = false →
    ∃ d, call.2 = some d ∧ now + d + o ≤ p.keyExpiry + 40 * second

/-- The next expiry is one of those that are not past, and none of these is sooner. -/
theorem foldl_soonest (c : Int) (es : List Int) :
    (es.foldl (soonest c) 0 = 0 ∨ es.foldl (soonest c) 0 ∈ es ∧ c ≤ es.foldl (soonest c) 0) ∧
    ∀ e ∈ es, e ≠ 0 → c ≤ e → es.foldl (soonest c) 0 ≠ 0 ∧ es.foldl (soonest c) 0 ≤ e := by
  induction es using List.reverseRecOn with
  | nil => simp
  | append_singleton es e ih =>
    obtain ⟨hmem, hle⟩ := ih
    rw [foldl_append, foldl_cons, foldl_nil]
    generalize es.foldl (soonest c) 0 = next at hmem hle
    have hcases : soonest c next e = next ∧ (e ≠ 0 → c ≤ e → next ≠ 0 ∧ next ≤ e) ∨
        soonest c next e = e ∧ e ≠ 0 ∧ c ≤ e ∧ (next = 0 ∨ e ≤ next) := by
      unfold soonest
      split_ifs <;> omega
    rcases hcases with ⟨heq, he⟩ | ⟨heq, he0, hce, hnext⟩
    · rw [heq]
      refine ⟨hmem.imp_right (And.imp_left (mem_append_left _)), ?_⟩
      exact forall_mem_append.2 ⟨hle, forall_mem_singleton.2 he⟩
    rw [heq]
    refine ⟨.inr ⟨mem_append_right _ mem_cons_self, hce⟩, ?_⟩
    refine forall_mem_append.2 ⟨fun e' he' h0 hc => ?_, forall_mem_singleton.2 fun _ _ =>
      ⟨he0, le_rfl⟩⟩
    have := hle e' he' h0 hc
    omega

theorem lt_of_not_expired {c : Time} {peer : Node H} (hexpiry : peer.keyExpiry ≠ 0)
    (hflag : (flagExpired c peer).expired = false) : c < peer.keyExpiry := by
  unfold flagExpired at hflag
  split_ifs at hflag with h hexpired
  · exact h.resolve_left hexpiry
  · exact absurd (hexpired.symm.trans hflag) Bool.noConfusion

theorem keyExpiry_flagExpired (c : Time) (peer : Node H) :
    (flagExpired c peer).keyExpiry = peer.keyExpiry := by
  unfold flagExpired
  split_ifs <;> rfl

theorem map_keyExpiry_flagExpired (c : Time) (peers : List (Node H)) :
    (peers.map (flagExpired c)).map Node.keyExpiry = peers.map Node.keyExpiry := by
  simp [keyExpiry_flagExpired]

variable {selfNode : Option (Node H)} {o t : Int} {s s₀ : List (Node H) × Time}

/-- A call while the adjusted time is after the epoch and no expiry is too far ahead for a
duration. -/
structure InRange (clockDelta : Int) (selfNode : Option (Node H)) (s : List (Node H) × Time) :
    Prop where
  epoch : flagExpiredPeersEpoch ≤ s.2 + clockDelta
  near : ∀ e ∈ (s.1 ++ selfNode.toList).map Node.keyExpiry, e - s.2 < 2 ^ 63 - 10 * second

theorem tmrDuration_eq {now next : Int} (hnext : next ≠ 0) (hle : now ≤ next)
    (hnear : next - now < 2 ^ 63 - 10 * second) :
    tmrDuration next now = some (next - now + 10 * second) := by
  have hsub : sub next now = next - now := by
    unfold sub second at *
    omega
  rw [tmrDuration, if_neg hnext, hsub, Int.bmod_eq_of_le] <;> unfold second at * <;> omega

theorem exists_tmrDuration {delta now next : Int} (hdelta : delta = o ∨ delta = 0)
    (ho : o ≤ 30 * second) (hnow : 0 < now) (hnext : next ≠ 0) (hpast : now + delta ≤ next)
    (hnear : next - now < 2 ^ 63 - 10 * second) :
    ∃ d, tmrDuration (notBefore now next) now = some d ∧ 10 * second ≤ d ∧
      ∀ e, next ≤ e → now + delta < e → now + d + o ≤ e + 40 * second := by
  unfold notBefore
  split_ifs with hbefore
  · -- the clock delta is the offset, and the peer is looked at again in 40 seconds
    refine ⟨_, tmrDuration_eq ?_ ?_ ?_, ?_, fun e he hlt => ?_⟩ <;> unfold second at * <;> omega
  · refine ⟨_, tmrDuration_eq hnext (by omega) hnear, by omega, fun e he hlt => ?_⟩
    omega

theorem InRange.inTime (ho : -2 ^ 63 ≤ o) (ho' : o ≤ 30 * second)
    (h : InRange (onControlTime (t + o) t) selfNode s) :
    InTime o s.2 (setControlClientStatus (onControlTime (t + o) t) selfNode s.1 s.2) := by
  have hdelta : onControlTime (t + o) t = o ∨ onControlTime (t + o) t = 0 := by
    unfold onControlTime sub second at *
    split_ifs <;> omega
  generalize onControlTime (t + o) t = delta at *
  obtain ⟨hepoch, hnear⟩ := h
  have hnow : (0 : Int) < s.2 := by
    unfold flagExpiredPeersEpoch second at *
    rcases hdelta with rfl | rfl <;> linarith
  unfold setControlClientStatus flagExpiredPeers nextPeerExpiry
  simp only [if_neg (not_lt.2 hepoch)]
  obtain ⟨hmem, hle⟩ := foldl_soonest (s.2 + delta) (((s.1.map (flagExpired (s.2 + delta))).filter
    (fun peer => !peer.expired) ++ selfNode.toList).map Node.keyExpiry)
  generalize foldl _ _ _ = next at hmem hle ⊢
  have hunflagged : ∀ p ∈ s.1.map (flagExpired (s.2 + delta)), p.keyExpiry ≠ 0 →
      p.expired = false → s.2 + delta < p.keyExpiry ∧ next ≠ 0 ∧ next ≤ p.keyExpiry := by
    intro p hp hexpiry hflag
    have hlt : s.2 + delta < p.keyExpiry := by
      obtain ⟨q, hq, rfl⟩ := mem_map.1 hp
      rw [keyExpiry_flagExpired] at *
      exact lt_of_not_expired hexpiry hflag
    refine ⟨hlt, hle _ (mem_map_of_mem (mem_append_left _ ?_)) hexpiry hlt.le⟩
    exact mem_filter.2 ⟨hp, by rw [hflag]; rfl⟩
  by_cases hnext : next = 0
  · subst hnext
    exact ⟨by simp [notBefore, tmrDuration],
      fun p hp he hf => absurd rfl (hunflagged p hp he hf).2.1⟩
  obtain ⟨hin, hpast⟩ := hmem.resolve_left hnext
  have hin' := ((filter_sublist.append_right _).map _).mem hin
  rw [map_append, map_keyExpiry_flagExpired, ← map_append] at hin'
  obtain ⟨d, hd, hten, hin_time⟩ :=
    exists_tmrDuration hdelta ho' hnow hnext hpast (hnear _ hin')
  rw [hd]
  refine ⟨by simpa using hten, fun p hp he hf => ⟨d, rfl, ?_⟩⟩
  obtain ⟨hlt, -, hle'⟩ := hunflagged p hp he hf
  exact hin_time _ hle' hlt

/-- **Peers are flagged in time, and no timer is short**: along all calls that the timer makes,
when the clock of control is at most 30 seconds ahead. -/
theorem flagged_in_time (ho : -2 ^ 63 ≤ o) (ho' : o ≤ 30 * second)
    (h : InRange (onControlTime (t + o) t) selfNode s₀)
    (hrun : Relation.ReflTransGen (Fires (onControlTime (t + o) t) selfNode) s₀ s) :
    InTime o s.2 (setControlClientStatus (onControlTime (t + o) t) selfNode s.1 s.2) := by
  refine InRange.inTime ho ho' ?_
  induction hrun with
  | refl => exact h
  | tail _ hfires ih =>
    obtain ⟨d, hcall, hnow⟩ := hfires
    have hten := (ih.inTime ho ho').1 d (by rw [hcall]; rfl)
    have hd : 0 ≤ d := le_trans (by decide) hten
    obtain ⟨hpeers, -⟩ := Prod.mk.inj hcall
    rw [flagExpiredPeers, if_neg (not_lt.2 ih.epoch)] at hpeers
    refine ⟨?_, fun e he => ?_⟩
    · linarith [ih.epoch]
    · rw [← hpeers, map_append, map_keyExpiry_flagExpired, ← map_append] at he
      linarith [ih.near e he]

/-- A peer whose key expires in two hours. -/
def expiring : Node Unit := { keyExpiry := flagExpiredPeersEpoch + 7200 * second }

/-- A second peer, whose key expires in four hours, when the timer has fired for the first one. -/
theorem flagged_in_time_expiring : InTime 0 (flagExpiredPeersEpoch + 7210 * second)
    (setControlClientStatus (onControlTime 0 0) none
      [expiring, { keyExpiry := flagExpiredPeersEpoch + 14400 * second }]
      (flagExpiredPeersEpoch + 7210 * second)) := by
  have hrange : InRange (onControlTime (0 + 0) 0) none
      ([expiring, { keyExpiry := flagExpiredPeersEpoch + 14400 * second }],
        flagExpiredPeersEpoch) := by
    constructor <;> decide
  exact flagged_in_time (o := 0) (t := 0) (s := (_, _)) (by decide) (by decide) hrange
    (.single ⟨7210 * second, rfl, rfl⟩)

/-- When the clock of control is an hour ahead, the peer is looked at an hour late. -/
theorem flagged_late : ¬InTime (3600 * second) flagExpiredPeersEpoch
    (setControlClientStatus (onControlTime (3600 * second) 0) none [expiring]
      flagExpiredPeersEpoch) := by
  intro h
  obtain ⟨d, hd, hle⟩ := h.2 expiring mem_cons_self (by decide) rfl
  obtain rfl : 7210 * second = d := Option.some.inj hd
  exact absurd hle (by decide)

end Multiport.Ipnlocal

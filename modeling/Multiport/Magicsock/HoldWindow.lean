import Multiport.Lib.Timers
import Multiport.Magicsock.BestAddr

/-!
# The hold window between direct and relay paths

With the direct-vs-relay comparison enabled, a path of the other kind may be
better, and then the endpoint swaps.  Two handlers do so, each with its own idea of
when the best path is still trusted and of what may ignore the hold window; both
record the swap.  So swaps for the better keep their distance from every swap
before.  The window is a `Cooldown` of the endpoint, as long as nothing clears the
best address.
-/

namespace Multiport.Magicsock

open Lib Net List Endpoint

/-- The step is one of the two handlers and takes the best address from a valid direct
path to a valid relay path, or the other way. -/
structure Swaps (τ : Taken Endpoint PathEvent) : Prop where
  handler : (∃ txid pongSrc src, τ.act.op = .handlePong txid pongSrc src) ∨
    ∃ ap vni serverDisco latency, τ.act.op = .udpRelayEndpointReady ap vni serverDisco latency
  before_valid : τ.before.bestAddr.epAddr.ap.isValid = true
  after_valid : τ.after.bestAddr.epAddr.ap.isValid = true
  crosses : τ.before.bestAddr.epAddr.vni.isSet ≠ τ.after.bestAddr.epAddr.vni.isSet

/-- The swap is for the better only: the best address is still trusted, and the new
path is not on the same relay server. -/
structure SwapsForBetter (τ : Taken Endpoint PathEvent) : Prop extends Swaps τ where
  trusted : ¬τ.act.Bypasses τ.before

variable {env : PathEnv} {τ : Taken Endpoint PathEvent} {de de' : Endpoint}

theorem Swaps.not_dual (h : Swaps τ) : τ.act.op ≠ .dualEndpointAddrsForSend := by
  rcases h.handler with ⟨_, _, _, hop⟩ | ⟨_, _, _, _, hop⟩ <;> simp [hop]

theorem Swaps.not_clears (h : Swaps τ) : ¬τ.act.Clears τ.before := by
  rcases h.handler with ⟨_, _, _, hop⟩ | ⟨_, _, _, _, hop⟩ <;> simp [PathEvent.Clears, hop]

theorem Swaps.installs (h : Swaps τ) (hstep : Taken.Of (exec env) de τ de') :
    (τ.act.Bypasses de ∨ de.wouldAllowDirectVsRelaySwapLocked env de.bestAddr de'.bestAddr
        τ.act.moment.now = true) ∧
      de'.lastDirectVsRelaySwap = de.swapTime env de'.bestAddr τ.act.moment.now := by
  obtain ⟨hbefore, hafter, hexec⟩ := hstep
  have heff := exec_effect env de τ.act h.not_dual
  have hcross := h.crosses
  have hvalid := h.after_valid
  rw [hbefore, hafter] at hcross
  rw [hafter] at hvalid
  rw [hexec] at heff
  cases heff with
  | kept hbest _ | refreshed l hbest _ => exact absurd (by rw [hbest]) hcross
  | emptied hbest _ _ | cleared _ hbest _ _ =>
    rw [hbest] at hvalid
    cases hvalid
  | installed v _ hbest hallowed hswap _ =>
    subst hbest
    exact ⟨hallowed, hswap⟩

/-- A step of the endpoint that does not clear the best address. -/
def HoldStep (env : PathEnv) (de : Endpoint) (τ : Taken Endpoint PathEvent) (de' : Endpoint) :
    Prop :=
  Taken.Of (exec env) de τ de' ∧ ¬τ.act.Clears τ.before

/-- **The time of the last swap makes swaps for the better wait.** -/
theorem cooldown_hold (henv : env.directVsRelayCompare = true) :
    Cooldown (HoldStep env) (·.act.moment.now) lastDirectVsRelaySwap
      env.directVsRelayHoldDurationValue Swaps SwapsForBetter where
  mark := by
    rintro de τ de' ⟨hstep, -⟩ hswap
    rw [(hswap.installs hstep).2, swapTime, if_pos]
    obtain ⟨hbefore, hafter, -⟩ := hstep
    have hvalid := hswap.before_valid
    have hcross := hswap.crosses
    rw [hbefore] at hvalid
    rw [hbefore, hafter] at hcross
    exact ⟨henv, hvalid, hcross⟩
  keep := by
    rintro de τ de' ⟨⟨hbefore, -, hexec⟩, hclears⟩
    by_cases hop : τ.act.op = .dualEndpointAddrsForSend
    · left
      rw [← hexec, exec, hop]
      rw [dualEndpointAddrsForSendLocked_fst]
      cases de.bestCandidate τ.act.moment <;> rfl
    · have heff := exec_effect env de τ.act hop
      rw [hexec] at heff
      cases heff with
      | kept _ hlast | refreshed _ _ hlast | emptied _ hlast _ => exact .inl hlast
      | cleared hc _ _ _ =>
        rw [hbefore] at hclears
        exact absurd hc hclears
      | installed v _ _ _ hlast _ =>
        rw [hlast, swapTime]
        split
        · exact .inr rfl
        · exact .inl rfl
  gate := by
    rintro de τ de' ⟨hstep, -⟩ hswap
    have hallowed := (hswap.installs hstep).1
    obtain ⟨hbefore, hafter, -⟩ := hstep
    have htrusted := hswap.trusted
    have hvalid := hswap.before_valid
    have hcross := hswap.crosses
    rw [hbefore] at htrusted hvalid
    rw [hbefore, hafter] at hcross
    have hallowed := hallowed.resolve_left htrusted
    simp only [wouldAllowDirectVsRelaySwapLocked, henv, hvalid, hcross, Bool.not_true,
      Bool.false_eq_true, if_false] at hallowed
    split at hallowed
    next hzero => exact .inl hzero
    · exact .inr (of_decide_eq_true hallowed)

/-- **Swaps for the better keep the hold window.**  After any swap, be it for the better
too or because the best address was not trusted, and with no clear in between, the next
one is `directVsRelayHoldDurationValue` later at the earliest. -/
theorem swapsForBetter_hold (henv : env.directVsRelayCompare = true) (de : Endpoint)
    (evs : List PathEvent) (hmono : (evs.map (·.moment.elapsed)).Pairwise (· ≤ ·))
    {pre mid post : List (Taken Endpoint PathEvent)} {τ₁ τ₂ : Taken Endpoint PathEvent}
    (htrace : trace (exec env) de evs = pre ++ (τ₁ :: mid ++ [τ₂]) ++ post)
    (h₁ : Swaps τ₁) (hmid : ∀ τ ∈ mid, ¬τ.act.Clears τ.before) (h₂ : SwapsForBetter τ₂) :
    τ₁.act.moment.now + env.directVsRelayHoldDurationValue ≤ τ₂.act.moment.now := by
  have hrun := run_trace (exec env) de evs
  rw [htrace] at hrun
  obtain ⟨s₂, hrun, -⟩ := hrun.of_append_left
  obtain ⟨s₁, -, hrun⟩ := hrun.of_append_left
  have hclears : ∀ τ ∈ τ₁ :: mid ++ [τ₂], ¬τ.act.Clears τ.before := by
    rw [forall_mem_append, forall_mem_cons, forall_mem_singleton]
    exact ⟨⟨h₁.not_clears, hmid⟩, h₂.not_clears⟩
  have hhold : Run (HoldStep env) s₁ (τ₁ :: mid ++ [τ₂]) s₂ :=
    hrun.mono fun _ τ _ hτ hstep => ⟨hstep, hclears τ hτ⟩
  have htimes : ((τ₁ :: mid ++ [τ₂]).map fun τ => τ.act.moment.now).Pairwise (· ≤ ·) := by
    have hacts : ((trace (exec env) de evs).map Taken.act).map (·.moment.elapsed) =
        evs.map (·.moment.elapsed) := by rw [map_act_trace]
    rw [← hacts, htrace, map_map, map_append, map_append] at hmono
    have hseg := (pairwise_append.1 (pairwise_append.1 hmono).1).2.1
    rw [pairwise_map] at hseg ⊢
    refine hseg.imp fun {τ τ'} (hle : τ.act.moment.elapsed ≤ τ'.act.moment.elapsed) => ?_
    exact Int.add_le_add_right (Int.ofNat_le.2 hle) _
  have hpair := (cooldown_hold henv).pairwise hhold htimes fun τ _ => τ.act.moment.now_ne_zero
  rw [cons_append, pairwise_cons] at hpair
  exact hpair.1 τ₂ (mem_append_right _ mem_cons_self) h₁ h₂

/-- Settings with a hold window of a second. -/
def holdEnv : PathEnv := { directVsRelayCompare := true, directVsRelayHoldS := 1 }

/-- A direct path, a better relay path, and a second later the direct path is better. -/
def holdRun : List PathEvent :=
  let ms (n : Nat) : Moment := { elapsed := n * 1000000 }
  [{ moment := ms 0, op := .updateDiscoKey 5 },
   { moment := ms 0, op := .noteCandidate directPath.ap {} },
   { moment := ms 0, op := .startDiscoPing directPath .discovery 0 [1] },
   { moment := ms 100, op := .handlePong 1 {} directPath },
   { moment := ms 200, op := .udpRelayEndpointReady relayPath.ap 5 9 (20 * millisecond) },
   { moment := ms 1300, op := .startDiscoPing directPath .discovery 0 [2] },
   { moment := ms 1310, op := .handlePong 2 {} directPath }]

/-- The `n`th step of the run. -/
def holdStep (n : Nat) : Taken Endpoint PathEvent :=
  ⟨(holdRun.take n).foldl (exec holdEnv) {}, holdRun.getD n { op := .heartbeat },
    (holdRun.take (n + 1)).foldl (exec holdEnv) {}⟩

/-- The run swaps twice, a second apart. -/
theorem swapsForBetter_hold_holdRun :
    Swaps (holdStep 4) ∧ SwapsForBetter (holdStep 6) ∧
      (holdStep 4).act.moment.now + holdEnv.directVsRelayHoldDurationValue ≤
        (holdStep 6).act.moment.now := by
  have h₁ : Swaps (holdStep 4) :=
    ⟨.inr ⟨_, _, _, _, rfl⟩, by decide, by decide, by decide⟩
  have h₂ : SwapsForBetter (holdStep 6) :=
    ⟨⟨.inl ⟨_, _, _, rfl⟩, by decide, by decide, by decide⟩,
      show ¬(holdStep 6).act.moment.now > (holdStep 6).before.trustBestAddrUntil by decide⟩
  have htrace : trace (exec holdEnv) {} holdRun =
      (List.range 4).map holdStep ++ (holdStep 4 :: [holdStep 5] ++ [holdStep 6]) ++ [] := rfl
  have hmid : ∀ τ ∈ [holdStep 5], ¬τ.act.Clears τ.before := by
    rw [forall_mem_singleton]
    exact id
  exact ⟨h₁, h₂, swapsForBetter_hold rfl {} holdRun (by decide) htrace h₁ hmid h₂⟩

end Multiport.Magicsock

import Multiport.Magicsock.ProbeManager

/-!
# Every probe ends once

An outcome does not say which probe it belongs to.  To follow single probes, a
run of the manager is traced: next to the manager stands a ledger of everything
that was recorded in the run, with the probe it was recorded for and the
operation that did it.  The ledger is not read by the code.

The result is `ResolvedOnce`: over every run in which no transaction ID is
added twice, the ledger has at most one entry for each admitted probe and none
for a pending one, and an entry that is not lost, as well as a sample, comes from
a pong that answers the probe.
-/

namespace Multiport.Magicsock

open Lib Net Tailcfg ProbeManager List GoMap

/-! ## The ledger -/

/-- A recorded outcome, with its probe and the operation that recorded it. -/
structure Resolution where
  tx : ProbeTx
  outcome : ProbeOutcome
  cause : Op

/-- A manager with the ledger of the run so far. -/
structure Traced where
  pm : ProbeManager := {}
  ledger : List Resolution := []

variable (cfg : Config)

/-- What an operation records. -/
def resolutions (pm : ProbeManager) (op : Op) : List Resolution :=
  match op with
  | .addWithBudget tx _ _ _ =>
    (pm.expired cfg tx.time).map fun t => ⟨t, lostAt tx.time t, op⟩
  | .pruneExpired now => (pm.expired cfg now).map fun t => ⟨t, lostAt now t, op⟩
  | .handlePong pong sender _ rxMeta now =>
    match pongVerdict cfg pm pong sender rxMeta now with
    | .ignored => []
    | .late tx => [⟨tx, lostAt now tx, op⟩]
    | .answered tx => [⟨tx, ⟨tx.dst, tx.source, now, false⟩, op⟩]
  | _ => []

/-- A step of the manager, entered into the ledger. -/
def TracedStep (s : Traced) (op : Op) (s' : Traced) : Prop :=
  ∃ pm, s.pm.Reorder pm ∧ s'.pm = op.run cfg pm ∧ s'.ledger = s.ledger ++ resolutions cfg pm op

variable {cfg}

theorem resolutions_of_quiet {op : Op} (h : op.records = false) (pm : ProbeManager) :
    resolutions cfg pm op = [] := by
  cases op with
  | addWithBudget | pruneExpired | handlePong => exact absurd h (by simp [Op.records])
  | _ => rfl

/-! ## The invariant -/

/-- A pong that answers a probe: it carries its transaction ID, arrived on its
socket in its generation and from the disco key it was sent to, and in time. -/
structure Answers (cfg : Config) (tx : ProbeTx) (pong : Pong) (sender : PublicKey)
    (rxMeta : SourceRxMeta) (now : MonoTime) : Prop where
  txid : pong.txid = tx.txid
  source : rxMeta = tx.source
  sender : sender = tx.dstDisco
  in_time : now - tx.time < cfg.pingTimeout

/-- The resolution `r` is not lost, and comes from a pong of the run that answers
its probe and leaves the sample `sample`. -/
def AnsweredWith (cfg : Config) (ops : List Op) (r : Resolution) (sample : ProbeSample) : Prop :=
  r.outcome.lost = false ∧ ∃ pong sender src rxMeta now,
    r.cause = .handlePong pong sender src rxMeta now ∧ r.cause ∈ ops ∧
      Answers cfg r.tx pong sender rxMeta now ∧ sample = sampleOf r.tx pong src rxMeta now

/-- The probe `tx` is one that the run has tried to add. -/
def Tried (ops : List Op) (tx : ProbeTx) : Prop :=
  ∃ maxPeers maxBurst hardCap, Op.addWithBudget tx maxPeers maxBurst hardCap ∈ ops

/-- Probes end once. -/
structure ResolvedOnce (cfg : Config) (ops : List Op) (s : Traced) : Prop where
  /-- Only probes that were added are resolved. -/
  tried : ∀ r ∈ s.ledger, Tried ops r.tx
  /-- A probe has at most one recorded outcome. -/
  once : (s.ledger.map (·.tx.txid)).Nodup
  /-- No probe is both pending and resolved. -/
  not_pending : ∀ r ∈ s.ledger, s.pm.pending.lookup r.tx.txid = none
  /-- All outcomes of the manager are from the ledger. -/
  outcomes : s.pm.outcomes.Sublist (s.ledger.map Resolution.outcome)
  /-- An outcome that is not lost is recorded for an answer only. -/
  answered : ∀ r ∈ s.ledger, r.outcome.lost = false → ∃ sample, AnsweredWith cfg ops r sample
  /-- So is a sample. -/
  sampled : ∀ sample ∈ s.pm.samples, ∃ r ∈ s.ledger, AnsweredWith cfg ops r sample

/-- The inductive form: pending probes are filed under their own transaction ID. -/
structure LedgerInv (cfg : Config) (ops : List Op) (s : Traced) : Prop
    extends ResolvedOnce cfg ops s where
  keyed : ∀ k tx, s.pm.pending.lookup k = some tx → tx.txid = k ∧ Tried ops tx

variable {ops : List Op} {tx : ProbeTx}

theorem Tried.mono (h : Tried ops tx) (op : Op) : Tried (ops ++ [op]) tx := by
  obtain ⟨p, b, c, hmem⟩ := h
  exact ⟨p, b, c, mem_append_left _ hmem⟩

theorem AnsweredWith.mono {r} {sample}
    (h : AnsweredWith cfg ops r sample) (op : Op) : AnsweredWith cfg (ops ++ [op]) r sample := by
  obtain ⟨hl, pong, sender, src, rxMeta, now, hc, hmem, ha⟩ := h
  exact ⟨hl, pong, sender, src, rxMeta, now, hc, mem_append_left _ hmem, ha⟩

namespace LedgerInv

variable {s : Traced}

theorem mono (h : LedgerInv cfg ops s) (op : Op) : LedgerInv cfg (ops ++ [op]) s :=
  { h with
    tried := fun r hr => (h.tried r hr).mono op
    answered := fun r hr hl => (h.answered r hr hl).imp fun _ hs => hs.mono op
    sampled := fun sample hs => by
      obtain ⟨r, hr, ha⟩ := h.sampled sample hs
      exact ⟨r, hr, ha.mono op⟩
    keyed := fun k tx hk => (h.keyed k tx hk).imp_right (·.mono op) }

/-- Resolving some pending probes: they are taken out of the pending ones and
entered into the ledger. -/
theorem resolve (h : LedgerInv cfg ops s) {pm : ProbeManager} {rs}
    (hpending : ∀ k tx, pm.pending.lookup k = some tx → s.pm.pending.lookup k = some tx)
    (hrs : ∀ r ∈ rs, s.pm.pending.lookup r.tx.txid = some r.tx ∧
      pm.pending.lookup r.tx.txid = none)
    (hnodup : (rs.map (·.tx.txid)).Nodup)
    (houtcomes : pm.outcomes.Sublist (s.pm.outcomes ++ rs.map Resolution.outcome))
    (hanswered : ∀ r ∈ rs, r.outcome.lost = false → ∃ sample, AnsweredWith cfg ops r sample)
    (hsamples : ∀ sample ∈ pm.samples, sample ∈ s.pm.samples ∨
      ∃ r ∈ rs, AnsweredWith cfg ops r sample) :
    LedgerInv cfg ops ⟨pm, s.ledger ++ rs⟩ where
  tried := by
    rw [forall_mem_append]
    exact ⟨h.tried, fun r hr => (h.keyed _ _ (hrs r hr).1).2⟩
  once := by
    rw [map_append, nodup_append]
    refine ⟨h.once, hnodup, fun a ha b hb => ?_⟩
    obtain ⟨r, hr, rfl⟩ := mem_map.1 ha
    obtain ⟨r', hr', rfl⟩ := mem_map.1 hb
    intro heq
    have hnone := h.not_pending r hr
    rw [heq, (hrs r' hr').1] at hnone
    cases hnone
  not_pending := by
    rw [forall_mem_append]
    refine ⟨fun r hr => ?_, fun r hr => (hrs r hr).2⟩
    rw [Option.eq_none_iff_forall_ne_some]
    intro tx hp
    have hold := hpending _ _ hp
    rw [h.not_pending r hr] at hold
    cases hold
  outcomes := by
    rw [map_append]
    exact houtcomes.trans (h.outcomes.append (List.Sublist.refl _))
  answered := by
    rw [forall_mem_append]
    exact ⟨h.answered, hanswered⟩
  sampled := by
    intro sample hs
    rcases hsamples sample hs with hold | ⟨r, hr, ha⟩
    · obtain ⟨r, hr, ha⟩ := h.sampled sample hold
      exact ⟨r, mem_append_left _ hr, ha⟩
    · exact ⟨r, mem_append_right _ hr, ha⟩
  keyed := fun k tx hk => h.keyed k tx (hpending k tx hk)

theorem addPending (h : LedgerInv cfg ops s) (htried : Tried ops tx)
    (hfresh : ∀ r ∈ s.ledger, r.tx.txid ≠ tx.txid) :
    LedgerInv cfg ops ⟨{ s.pm with pending := s.pm.pending.insert tx.txid tx }, s.ledger⟩ :=
  { h with
    not_pending := by
      intro r hr
      rw [lookup_insert_eq, if_neg (hfresh r hr)]
      exact h.not_pending r hr
    keyed := by
      intro k tx' hk
      rw [lookup_insert_eq] at hk
      split at hk
      next hkey =>
        cases hk
        exact ⟨hkey.symm, htried⟩
      · exact h.keyed k tx' hk }

section Steps

variable {pm : ProbeManager} {ledger : List Resolution} (h : LedgerInv cfg ops ⟨pm, ledger⟩)

include h

variable {pm' : ProbeManager}

theorem takeAway (hpending : ∀ k tx, pm'.pending.lookup k = some tx → pm.pending.lookup k = some tx)
    (hsamples : pm'.samples ⊆ pm.samples) (houtcomes : pm'.outcomes.Sublist pm.outcomes) :
    LedgerInv cfg ops ⟨pm', ledger⟩ := by
  have hres : LedgerInv cfg ops ⟨pm', ledger ++ []⟩ :=
    h.resolve hpending (by simp) .nil (by simpa using houtcomes) (by simp)
      fun sample hs => .inl (hsamples hs)
  rwa [append_nil] at hres

theorem reorder (hr : pm.Reorder pm') : LedgerInv cfg ops ⟨pm', ledger⟩ :=
  h.takeAway (fun k tx hk => (AList.perm_lookup hr.pending).symm.trans hk)
    (by rw [hr.samples_eq]; exact fun _ => id)
    (by rw [hr.outcomes_eq])

/-- A probe that has timed out is pending under its own transaction ID. -/
theorem lookup_expired {now : MonoTime} (htx : tx ∈ pm.expired cfg now) :
    pm.pending.lookup tx.txid = some tx := by
  obtain ⟨k, hk⟩ := mem_values.1 (mem_of_mem_filter htx)
  rw [(h.keyed k tx hk).1]
  exact hk

theorem prune (now : MonoTime) (cause : Op) :
    LedgerInv cfg ops ⟨(pm.pruneExpiredLocked cfg now).1,
      ledger ++ (pm.expired cfg now).map fun t => ⟨t, lostAt now t, cause⟩⟩ := by
  rw [pruneExpiredLocked_fst]
  refine h.resolve ?_ ?_ ?_ ?_ ?_ ?_
  · intro k tx hk
    exact lookup_of_sublist filter_sublist hk
  · intro r hr
    obtain ⟨tx, htx, rfl⟩ := mem_map.1 hr
    have hout : timedOut cfg now tx = true := (mem_filter.1 htx).2
    rw [lookup_deleteWhere, h.lookup_expired htx]
    simp [hout]
  · rw [map_map]
    exact (nodup_map_values fun k tx hk => (h.keyed k tx hk).1).sublist (filter_sublist.map _)
  · rw [map_map]
    exact foldl_noteOutcome_sublist _ _
  · intro r hr hl
    obtain ⟨tx, -, rfl⟩ := mem_map.1 hr
    cases hl
  · exact fun sample hs => .inl hs

theorem quiet {op : Op} (hq : op.records = false) :
    LedgerInv cfg ops ⟨op.run cfg pm, ledger ++ resolutions cfg pm op⟩ := by
  have hquiet := Op.quiet cfg hq pm
  rw [resolutions_of_quiet hq, append_nil]
  exact h.takeAway (fun k tx hk => lookup_of_sublist hquiet.pending hk) hquiet.samples.subset
    hquiet.outcomes

theorem endProbe {pong : Pong} (hp : pm.pending.lookup pong.txid = some tx) {o}
    {cause : Op} (hpending : pm'.pending = pm.pending.erase pong.txid)
    (houtcomes : pm'.outcomes = noteOutcome cfg pm.outcomes o)
    (hanswered : o.lost = false → ∃ sample, AnsweredWith cfg ops ⟨tx, o, cause⟩ sample)
    (hsamples : ∀ sample ∈ pm'.samples, sample ∈ pm.samples ∨
      AnsweredWith cfg ops ⟨tx, o, cause⟩ sample) :
    LedgerInv cfg ops ⟨pm', ledger ++ [⟨tx, o, cause⟩]⟩ := by
  have htxid : tx.txid = pong.txid := (h.keyed _ _ hp).1
  refine h.resolve ?_ ?_ (nodup_singleton _) ?_ ?_ ?_
  · intro k tx' hk
    rw [hpending] at hk
    exact (lookup_erase_iff.1 hk).1
  · intro r hr
    rw [mem_singleton.1 hr, htxid, hpending]
    exact ⟨hp, AList.lookup_erase _ _⟩
  · rw [houtcomes]
    exact foldl_noteOutcome_sublist [o] pm.outcomes
  · exact forall_mem_singleton.2 hanswered
  · exact fun sample hs => (hsamples sample hs).imp_right fun hnew => ⟨_, mem_cons_self, hnew⟩

theorem pong (pong : Pong) (sender : PublicKey) (src : EpAddr) (rxMeta : SourceRxMeta)
    (now : MonoTime) (hmem : Op.handlePong pong sender src rxMeta now ∈ ops) :
    LedgerInv cfg ops ⟨Op.run cfg pm (.handlePong pong sender src rxMeta now),
      ledger ++ resolutions cfg pm (.handlePong pong sender src rxMeta now)⟩ := by
  rw [Op.run, handlePongLocked_eq, resolutions]
  have hspec := pongVerdict_spec cfg pm pong sender rxMeta now
  cases hv : pongVerdict cfg pm pong sender rxMeta now with
  | ignored =>
    rw [append_nil]
    exact h
  | late tx =>
    rw [hv] at hspec
    exact h.endProbe hspec rfl rfl (by simp [lostAt]) fun sample hs => .inl hs
  | answered tx =>
    rw [hv] at hspec
    obtain ⟨hp, hsource, hsender, htime⟩ := hspec
    have hanswer : AnsweredWith cfg ops
        ⟨tx, ⟨tx.dst, tx.source, now, false⟩, .handlePong pong sender src rxMeta now⟩
        (sampleOf tx pong src rxMeta now) :=
      ⟨rfl, pong, sender, src, rxMeta, now, rfl, hmem,
        ⟨(h.keyed _ _ hp).1.symm, hsource, hsender, htime⟩, rfl⟩
    refine h.endProbe hp rfl rfl (fun _ => ⟨_, hanswer⟩) fun sample hs => ?_
    rcases mem_append.1 ((evictOldest_suffix _ _).subset hs) with hold | hnew
    · exact .inl (mem_of_mem_filter hold)
    · rw [mem_singleton.1 hnew]
      exact .inr hanswer

end Steps

end LedgerInv

/-! ## Runs -/

/-- The transaction ID an operation tries to add. -/
def Op.addedTxID? : Op → Option TxID
  | addWithBudget tx _ _ _ => some tx.txid
  | _ => none

/-- No transaction ID is added twice. -/
def DistinctTxIDs (ops : List Op) : Prop := (ops.filterMap Op.addedTxID?).Nodup

theorem Tried.mem (h : Tried ops tx) : tx.txid ∈ ops.filterMap Op.addedTxID? := by
  obtain ⟨p, b, c, hmem⟩ := h
  exact mem_filterMap.2 ⟨_, hmem, rfl⟩

theorem LedgerInv.step {s s' : Traced} {op : Op} (h : LedgerInv cfg ops s)
    (hdistinct : DistinctTxIDs (ops ++ [op])) (hstep : TracedStep cfg s op s') :
    LedgerInv cfg (ops ++ [op]) s' := by
  obtain ⟨pm, hr, hpm, hledger⟩ := hstep
  obtain ⟨pm', ledger'⟩ := s'
  subst hpm hledger
  have h₀ : LedgerInv cfg ops ⟨pm, s.ledger⟩ := h.reorder hr
  have h₁ := h₀.mono op
  have hmem : op ∈ ops ++ [op] := mem_append_right _ mem_cons_self
  cases op with
  | pruneExpired now => exact h₁.prune now _
  | handlePong pong sender src rxMeta now => exact h₁.pong pong sender src rxMeta now hmem
  | addWithBudget tx maxPeers maxBurst hardCap =>
    have hprune := h₁.prune tx.time (.addWithBudget tx maxPeers maxBurst hardCap)
    rcases addWithBudgetLocked_cases cfg pm tx maxPeers maxBurst hardCap with ⟨-, ha⟩ | ⟨-, ha⟩
    · simp only [Op.run, ha]
      exact hprune
    simp only [Op.run, ha]
    refine hprune.addPending ⟨maxPeers, maxBurst, hardCap, hmem⟩ fun r hr => ?_
    -- a resolved probe was tried before this operation, which brings a new ID
    have hold : Tried ops r.tx := by
      rcases mem_append.1 hr with hr | hr
      · exact h.tried r hr
      · obtain ⟨t, ht, rfl⟩ := mem_map.1 hr
        exact (h₀.keyed _ _ (h₀.lookup_expired ht)).2
    intro heq
    unfold DistinctTxIDs at hdistinct
    rw [filterMap_append, nodup_append] at hdistinct
    exact hdistinct.2.2 _ hold.mem _ (by rw [heq]; exact mem_cons_self) rfl
  | _ => exact h₁.quiet rfl

/-- **Every probe ends once.**  Over every run of the manager that adds no
transaction ID twice. -/
theorem resolvedOnce_of_run (cfg : Config) (ops : List Op) (s : Traced)
    (hrun : Run (TracedStep cfg) {} ops s) (hdistinct : DistinctTxIDs ops) :
    ResolvedOnce cfg ops s := by
  have hinv : DistinctTxIDs ops → LedgerInv cfg ops s := by
    refine hrun.invariant (I := fun ops s => DistinctTxIDs ops → LedgerInv cfg ops s) ?_ ?_
    · intro _
      exact ⟨⟨by simp, by simp, by simp, by simp, by simp, by simp⟩, by simp⟩
    · intro ops s op s' ih hstep hd
      refine (ih ?_).step hd hstep
      unfold DistinctTxIDs at hd
      rw [filterMap_append] at hd
      exact hd.of_append_left
  exact (hinv hdistinct).toResolvedOnce

/-- The traced step that keeps the iteration order. -/
def Traced.exec (cfg : Config) (s : Traced) (op : Op) : Traced :=
  ⟨op.run cfg s.pm, s.ledger ++ resolutions cfg s.pm op⟩

theorem run_exec (cfg : Config) (ops : List Op) :
    Run (TracedStep cfg) {} ops (ops.foldl (Traced.exec cfg) {}) := by
  induction ops using List.reverseRecOn with
  | nil => exact .nil
  | append_singleton ops op ih =>
    rw [foldl_append]
    exact ih.snoc ⟨_, Reorder.refl _, rfl, rfl⟩

/-- A probe that is sent, answered from the wrong socket, and then answered. -/
def probeOps : List Op :=
  [.addWithBudget { txid := 1, dstDisco := 7, source := ⟨100, 1⟩, time := 10 } 4 2 8,
    .handlePong ⟨1, {}⟩ 7 {} ⟨100, 2⟩ 20, .handlePong ⟨1, {}⟩ 7 {} ⟨100, 1⟩ 30]

theorem resolvedOnce_probeOps :
    (probeOps.foldl (Traced.exec {}) {}).pm.samples.map ProbeSample.latency = [20] ∧
      ResolvedOnce {} probeOps (probeOps.foldl (Traced.exec {}) {}) :=
  ⟨by decide, resolvedOnce_of_run {} probeOps _ (run_exec {} probeOps)
    (by unfold DistinctTxIDs; decide)⟩

end Multiport.Magicsock

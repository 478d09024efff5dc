import Multiport.Magicsock.ProbeManager

/-!
# The caps of the probe manager

With positive limits, the manager stays bounded whatever its peers do: the
pending probes in total and per disco key, the number of disco keys with pending
probes, the samples and the outcomes.  `WithinCaps` holds after every run.

What is evicted for a limit is always the oldest: `Evicts` compares what an
operation leaves with what it would leave without limits.
-/

namespace Multiport.Magicsock

open Lib Net Tailcfg ProbeManager List

/-! ## Limits -/

/-- Positive limits: the budget of `addWithBudgetLocked`, and the limits on
samples and outcomes that are in the configuration. -/
structure Caps (cfg : Config) where
  maxPeers : Int
  maxBurst : Int
  hardCap : Int
  maxPeers_pos : 0 < maxPeers
  maxBurst_pos : 0 < maxBurst
  hardCap_pos : 0 < hardCap
  sampleLimit_pos : 0 < cfg.sampleLimit
  outcomeLimit_pos : 0 < cfg.outcomeLimit

/-- The operation adds with the given budget, if it adds. -/
def Op.UsesBudget {cfg : Config} (caps : Caps cfg) : Op → Prop
  | addWithBudget _ maxPeers maxBurst hardCap =>
    maxPeers = caps.maxPeers ∧ maxBurst = caps.maxBurst ∧ hardCap = caps.hardCap
  | _ => True

/-- The disco keys of the pending probes, once for each probe. -/
def ProbeManager.discos (pm : ProbeManager) : List PublicKey :=
  pm.pending.values.map ProbeTx.dstDisco

/-- The limits hold. -/
structure WithinCaps {cfg : Config} (caps : Caps cfg) (pm : ProbeManager) : Prop where
  pending : pm.pending.size ≤ caps.hardCap
  burst : ∀ d, pm.discos.count d ≤ caps.maxBurst
  peers : pm.discos.toFinset.card ≤ caps.maxPeers
  samples : pm.samples.length ≤ cfg.sampleLimit
  outcomes : pm.outcomes.length ≤ cfg.outcomeLimit

/-- The same configuration without limits on samples and outcomes. -/
def Config.unlimited (cfg : Config) : Config := { cfg with sampleLimit := 0, outcomeLimit := 0 }

/-- What a limit leaves of a list: its newest entries, in order, and as many as
the limit allows. -/
def Evicts {α : Type} (limit : Int) (left all : List α) : Prop :=
  left <:+ all ∧ (left.length : Int) = min limit all.length

/-- The samples and outcomes of `pm` are what the limits leave of those of `pm'`. -/
def EvictsAll (cfg : Config) (pm pm' : ProbeManager) : Prop :=
  Evicts cfg.sampleLimit pm.samples pm'.samples ∧ Evicts cfg.outcomeLimit pm.outcomes pm'.outcomes

/-! ## Pending probes -/

variable {cfg : Config} {caps : Caps cfg} {pm pm' : ProbeManager}

theorem size_eq_length_discos (pm : ProbeManager) : pm.pending.size = pm.discos.length := by
  rw [discos, length_map, GoMap.values, length_map, GoMap.size]

/-- The part of the caps that is about pending probes. -/
structure PendingCaps (caps : Caps cfg) (ds : List PublicKey) : Prop where
  pending : ds.length ≤ caps.hardCap
  burst : ∀ d, ds.count d ≤ caps.maxBurst
  peers : ds.toFinset.card ≤ caps.maxPeers

theorem toFinset_subset {ds ds' : List PublicKey} (h : ds' ⊆ ds) : ds'.toFinset ⊆ ds.toFinset :=
  fun _ hd => mem_toFinset.2 (h (mem_toFinset.1 hd))

theorem PendingCaps.subperm {ds ds' : List PublicKey} (h : PendingCaps caps ds)
    (hs : ds'.Subperm ds) : PendingCaps caps ds' where
  pending := le_trans (Int.ofNat_le.2 hs.length_le) h.pending
  burst := fun d => le_trans (Int.ofNat_le.2 (hs.count_le d)) (h.burst d)
  peers := le_trans (Int.ofNat_le.2 (Finset.card_le_card (toFinset_subset hs.subset))) h.peers

theorem PendingCaps.cons {ds ds' : List PublicKey} (h : PendingCaps caps ds) {d : PublicKey}
    (hs : ds'.Sublist ds) (hcap : ds.length < caps.hardCap)
    (hpeers : d ∈ ds ∨ ds.toFinset.card < caps.maxPeers) (hburst : ds.count d < caps.maxBurst) :
    PendingCaps caps (d :: ds') where
  pending := by
    have := hs.length_le
    simp only [length_cons]
    omega
  burst := by
    intro e
    have hle := hs.count_le e
    have he := h.burst e
    rw [count_cons]
    split
    next hde =>
      rw [beq_iff_eq] at hde
      subst hde
      omega
    · omega
  peers := by
    have hsub := toFinset_subset hs.subset
    rw [toFinset_cons]
    rcases hpeers with hd | hlt
    · have hins : insert d ds'.toFinset ⊆ ds.toFinset :=
        Finset.insert_subset (mem_toFinset.2 hd) hsub
      exact le_trans (Int.ofNat_le.2 (Finset.card_le_card hins)) h.peers
    · have hcard := Finset.card_le_card hsub
      have hins := Finset.card_insert_le d ds'.toFinset
      omega

theorem discos_of_sublist (h : pm'.pending.entries.Sublist pm.pending.entries) :
    pm'.discos.Sublist pm.discos := (h.map _).map _

theorem discos_insert (pm : ProbeManager) (tx : ProbeTx) :
    ∃ ds, ds.Sublist pm.discos ∧
      ProbeManager.discos { pm with pending := pm.pending.insert tx.txid tx } =
        tx.dstDisco :: ds := by
  refine ⟨((List.kerase tx.txid pm.pending.entries).map Sigma.snd).map ProbeTx.dstDisco, ?_, rfl⟩
  exact ((kerase_sublist _ _).map _).map _

theorem PendingCaps.withinCaps (h : PendingCaps caps pm.discos)
    (hs : pm.samples.length ≤ cfg.sampleLimit) (ho : pm.outcomes.length ≤ cfg.outcomeLimit) :
    WithinCaps caps pm :=
  ⟨size_eq_length_discos pm ▸ h.pending, h.burst, h.peers, hs, ho⟩

/-! ## Eviction -/

theorem length_foldl_noteOutcome (hpos : 0 < cfg.outcomeLimit) (os outcomes : List ProbeOutcome)
    (h : outcomes.length ≤ cfg.outcomeLimit) :
    ((os.foldl (noteOutcome cfg) outcomes).length : Int) ≤ cfg.outcomeLimit := by
  induction os generalizing outcomes with
  | nil => exact h
  | cons o os ih =>
    refine ih _ ?_
    rw [noteOutcome, length_evictOldest hpos]
    exact min_le_left _ _

theorem evicts_evictOldest {α : Type} {limit : Int} (h : 0 < limit) (l : List α) :
    Evicts limit (evictOldest limit l) l :=
  ⟨evictOldest_suffix limit l, length_evictOldest h l⟩

theorem evicts_rfl {α : Type} {limit : Int} {l : List α} (h : l.length ≤ limit) :
    Evicts limit l l :=
  ⟨suffix_rfl, (min_eq_right h).symm⟩

theorem noteOutcome_unlimited (outcomes : List ProbeOutcome) (o : ProbeOutcome) :
    noteOutcome cfg.unlimited outcomes o = pruneOutcomes cfg o.time (outcomes ++ [o]) :=
  evictOldest_zero _

theorem pruneOutcomes_idem (now : MonoTime) (outcomes : List ProbeOutcome) :
    pruneOutcomes cfg now (pruneOutcomes cfg now outcomes) = pruneOutcomes cfg now outcomes := by
  simp [pruneOutcomes]

theorem pruneOutcomes_append (now : MonoTime) (l₁ l₂ : List ProbeOutcome) :
    pruneOutcomes cfg now (l₁ ++ l₂) = pruneOutcomes cfg now l₁ ++ pruneOutcomes cfg now l₂ :=
  filter_append l₁ l₂

/-- Among fresh outcomes, evicting at every step is evicting at the end. -/
theorem foldl_noteOutcome_evict (hpos : 0 < cfg.outcomeLimit) (now : MonoTime)
    (os : List ProbeOutcome) (hos : ∀ o ∈ os, o.time = now) (outcomes : List ProbeOutcome)
    (hfresh : pruneOutcomes cfg now outcomes = outcomes) :
    os.foldl (noteOutcome cfg) (evictOldest cfg.outcomeLimit outcomes) =
      evictOldest cfg.outcomeLimit (os.foldl (noteOutcome cfg.unlimited) outcomes) := by
  induction os generalizing outcomes with
  | nil => rfl
  | cons o os ih =>
    have ho : o.time = now := hos o mem_cons_self
    have hkept : pruneOutcomes cfg now (evictOldest cfg.outcomeLimit outcomes) =
        evictOldest cfg.outcomeLimit outcomes := by
      refine filter_eq_self.2 fun x hx => ?_
      exact filter_eq_self.1 hfresh x ((evictOldest_suffix _ _).subset hx)
    have hhead : noteOutcome cfg (evictOldest cfg.outcomeLimit outcomes) o =
        evictOldest cfg.outcomeLimit (pruneOutcomes cfg now (outcomes ++ [o])) := by
      rw [noteOutcome, ho, pruneOutcomes_append, hkept, evictOldest_append hpos,
        pruneOutcomes_append, hfresh]
    rw [foldl_cons, foldl_cons, hhead, noteOutcome_unlimited, ho]
    exact ih (fun x hx => hos x (mem_cons_of_mem o hx)) _ (pruneOutcomes_idem now _)

theorem evicts_outcomes (hpos : 0 < cfg.outcomeLimit) (now : MonoTime) (os : List ProbeOutcome)
    (hos : ∀ o ∈ os, o.time = now) {outcomes} (h : outcomes.length ≤ cfg.outcomeLimit) :
    Evicts cfg.outcomeLimit (os.foldl (noteOutcome cfg) outcomes)
      (os.foldl (noteOutcome cfg.unlimited) outcomes) := by
  cases os with
  | nil => exact evicts_rfl h
  | cons o os =>
    have ho : o.time = now := hos o mem_cons_self
    have hrest := foldl_noteOutcome_evict hpos now os
      (fun x hx => hos x (mem_cons_of_mem o hx)) (pruneOutcomes cfg now (outcomes ++ [o]))
      (pruneOutcomes_idem now _)
    rw [foldl_cons, foldl_cons, noteOutcome_unlimited, noteOutcome, ho, hrest]
    exact evicts_evictOldest hpos _

theorem records_add (cfg : Config) (pm : ProbeManager) (tx : ProbeTx)
    (maxPeers maxBurst hardCap : Int) :
    (pm.addWithBudgetLocked cfg tx maxPeers maxBurst hardCap).1.samples = pm.samples ∧
      (pm.addWithBudgetLocked cfg tx maxPeers maxBurst hardCap).1.outcomes =
        (pm.pruneExpiredLocked cfg tx.time).1.outcomes := by
  rcases addWithBudgetLocked_cases cfg pm tx maxPeers maxBurst hardCap with ⟨-, h⟩ | ⟨-, h⟩ <;>
    rw [h, pruneExpiredLocked_fst] <;> exact ⟨rfl, rfl⟩

/-! ## Steps -/

namespace WithinCaps

variable (h : WithinCaps caps pm)

include h

theorem pendingCaps : PendingCaps caps pm.discos :=
  ⟨size_eq_length_discos pm ▸ h.pending, h.burst, h.peers⟩

theorem reorder (hr : pm.Reorder pm') : WithinCaps caps pm' :=
  (h.pendingCaps.subperm ((hr.pending.map _).map _).subperm).withinCaps
    (hr.samples_eq ▸ h.samples) (hr.outcomes_eq ▸ h.outcomes)

theorem quiet (hq : Quiet pm pm') : WithinCaps caps pm' :=
  (h.pendingCaps.subperm (discos_of_sublist hq.pending).subperm).withinCaps
    (le_trans (Int.ofNat_le.2 hq.samples.length_le) h.samples)
    (le_trans (Int.ofNat_le.2 hq.outcomes.length_le) h.outcomes)

theorem prune (now : MonoTime) : WithinCaps caps (pm.pruneExpiredLocked cfg now).1 := by
  rw [pruneExpiredLocked_fst]
  refine PendingCaps.withinCaps ?_ h.samples ?_
  · exact h.pendingCaps.subperm (discos_of_sublist filter_sublist).subperm
  · exact length_foldl_noteOutcome caps.outcomeLimit_pos _ _ h.outcomes

/-- What the code tests before it admits a probe is what keeps the caps. -/
theorem add (tx : ProbeTx) : WithinCaps caps
      (pm.addWithBudgetLocked cfg tx caps.maxPeers caps.maxBurst caps.hardCap).1 := by
  have hprune := h.prune tx.time
  rcases addWithBudgetLocked_cases cfg pm tx caps.maxPeers caps.maxBurst caps.hardCap with
    ⟨-, ha⟩ | ⟨hadmits, ha⟩
  · rw [ha]
    exact hprune
  rw [ha]
  generalize (pm.pruneExpiredLocked cfg tx.time).1 = pm₁ at hprune hadmits
  obtain ⟨ds, hds, heq⟩ := discos_insert pm₁ tx
  refine PendingCaps.withinCaps ?_ hprune.samples hprune.outcomes
  rw [heq]
  refine hprune.pendingCaps.cons hds ?_ ?_ ?_
  · rw [← size_eq_length_discos]
    exact hadmits.hardCap caps.hardCap_pos
  · exact hadmits.peers caps.maxPeers_pos
  · have hburst := hadmits.burst
    rwa [if_neg (not_le.2 caps.maxBurst_pos)] at hburst

theorem pong (pong : Pong) (sender : PublicKey) (src : EpAddr) (rxMeta : SourceRxMeta)
    (now : MonoTime) : WithinCaps caps (pm.handlePongLocked cfg pong sender src rxMeta now).1 := by
  have hpending : ∀ pm' : ProbeManager, pm'.pending = pm.pending.erase pong.txid →
      PendingCaps caps pm'.discos := by
    intro pm' hp
    refine h.pendingCaps.subperm (discos_of_sublist ?_).subperm
    rw [hp]
    exact kerase_sublist _ _
  have houtcomes : ∀ o, ((noteOutcome cfg pm.outcomes o).length : Int) ≤ cfg.outcomeLimit :=
    fun o => length_foldl_noteOutcome caps.outcomeLimit_pos [o] _ h.outcomes
  rw [handlePongLocked_eq]
  cases pongVerdict cfg pm pong sender rxMeta now with
  | ignored => exact h
  | late tx => exact (hpending _ rfl).withinCaps h.samples (houtcomes _)
  | answered tx =>
    refine (hpending _ rfl).withinCaps ?_ (houtcomes _)
    rw [length_evictOldest caps.sampleLimit_pos]
    exact min_le_left _ _

theorem run {op : Op} (hop : op.UsesBudget caps) : WithinCaps caps (op.run cfg pm) := by
  cases op with
  | addWithBudget tx maxPeers maxBurst hardCap =>
    obtain ⟨rfl, rfl, rfl⟩ := hop
    exact h.add tx
  | pruneExpired now => exact h.prune now
  | handlePong pong sender src rxMeta now => exact h.pong pong sender src rxMeta now
  | _ => exact h.quiet (Op.quiet cfg rfl pm)

theorem evicts_refl : EvictsAll cfg pm pm :=
  ⟨evicts_rfl h.samples, evicts_rfl h.outcomes⟩

theorem evicts_prune (now : MonoTime) :
    Evicts cfg.outcomeLimit (pm.pruneExpiredLocked cfg now).1.outcomes
      (pm.pruneExpiredLocked cfg.unlimited now).1.outcomes := by
  rw [pruneExpiredLocked_fst, pruneExpiredLocked_fst]
  refine evicts_outcomes caps.outcomeLimit_pos now _ (fun o ho => ?_) h.outcomes
  obtain ⟨tx, -, rfl⟩ := mem_map.1 ho
  rfl

theorem evicts_outcome (o : ProbeOutcome) : Evicts cfg.outcomeLimit (noteOutcome cfg pm.outcomes o)
      (noteOutcome cfg.unlimited pm.outcomes o) := by
  refine evicts_outcomes caps.outcomeLimit_pos o.time [o] ?_ h.outcomes
  simp

theorem evicts_pong (pong : Pong) (sender : PublicKey) (src : EpAddr) (rxMeta : SourceRxMeta)
    (now : MonoTime) : EvictsAll cfg (pm.handlePongLocked cfg pong sender src rxMeta now).1
      (pm.handlePongLocked cfg.unlimited pong sender src rxMeta now).1 := by
  -- the verdict does not read the limits
  have hverdict : pongVerdict cfg.unlimited pm pong sender rxMeta now =
      pongVerdict cfg pm pong sender rxMeta now := rfl
  rw [handlePongLocked_eq, handlePongLocked_eq, hverdict]
  cases pongVerdict cfg pm pong sender rxMeta now with
  | ignored => exact h.evicts_refl
  | late tx => exact ⟨evicts_rfl h.samples, h.evicts_outcome _⟩
  | answered tx =>
    refine ⟨?_, h.evicts_outcome _⟩
    exact evicts_evictOldest caps.sampleLimit_pos _

/-- An operation that records nothing has the same samples and outcomes with and
without limits. -/
theorem evicts_quiet {op : Op} (hop : op.records = false) :
    EvictsAll cfg (op.run cfg pm) (op.run cfg.unlimited pm) := by
  have hu : (op.run cfg.unlimited pm).samples = (op.run cfg pm).samples ∧
      (op.run cfg.unlimited pm).outcomes = (op.run cfg pm).outcomes := by
    cases op with
    | addWithBudget | pruneExpired | handlePong => exact absurd hop (by simp [Op.records])
    | _ => exact ⟨rfl, rfl⟩
  rw [EvictsAll, hu.1, hu.2]
  exact (h.quiet (Op.quiet cfg hop pm)).evicts_refl

/-- What an operation leaves of samples and outcomes is the newest of what it would
leave without limits. -/
theorem evicts (op : Op) : EvictsAll cfg (op.run cfg pm) (op.run cfg.unlimited pm) := by
  cases op with
  | addWithBudget tx maxPeers maxBurst hardCap =>
    simp only [EvictsAll, Op.run, records_add]
    exact ⟨evicts_rfl h.samples, h.evicts_prune tx.time⟩
  | pruneExpired now =>
    refine ⟨?_, h.evicts_prune now⟩
    simp only [Op.run, pruneExpiredLocked_fst]
    exact evicts_rfl h.samples
  | handlePong pong sender src rxMeta now => exact h.evicts_pong pong sender src rxMeta now
  | _ => exact h.evicts_quiet rfl

theorem step {op : Op} (hop : op.UsesBudget caps) (hs : Step cfg pm op pm') :
    WithinCaps caps pm' := by
  obtain ⟨pm₁, hr, rfl⟩ := hs
  exact (h.reorder hr).run hop

end WithinCaps

/-! ## Runs -/

theorem pending_of_rejected {tx : ProbeTx} {maxPeers maxBurst hardCap : Int}
    (h : (pm.addWithBudgetLocked cfg tx maxPeers maxBurst hardCap).2 ≠ .added) :
    (pm.addWithBudgetLocked cfg tx maxPeers maxBurst hardCap).1.pending =
      (pm.pruneExpiredLocked cfg tx.time).1.pending := by
  rcases addWithBudgetLocked_cases cfg pm tx maxPeers maxBurst hardCap with ⟨-, hr⟩ | ⟨-, ha⟩
  · rw [hr]
  · rw [ha] at h
    exact absurd rfl h

theorem withinCaps_empty (caps : Caps cfg) : WithinCaps caps {} where
  pending := caps.hardCap_pos.le
  burst := fun _ => caps.maxBurst_pos.le
  peers := caps.maxPeers_pos.le
  samples := caps.sampleLimit_pos.le
  outcomes := caps.outcomeLimit_pos.le

/-- **The caps hold after every run**, a rejected probe changes the pending probes
only by pruning, and what the limits evict is the oldest. -/
theorem withinCaps_of_run (cfg : Config) (caps : Caps cfg) (ops : List Op) (pm : ProbeManager)
    (hrun : Run (Step cfg) {} ops pm) (hbudget : ∀ op ∈ ops, op.UsesBudget caps) :
    WithinCaps caps pm ∧
      (∀ tx, (pm.addWithBudgetLocked cfg tx caps.maxPeers caps.maxBurst caps.hardCap).2 ≠ .added →
        (pm.addWithBudgetLocked cfg tx caps.maxPeers caps.maxBurst caps.hardCap).1.pending =
          (pm.pruneExpiredLocked cfg tx.time).1.pending) ∧
      ∀ pm₁, pm.Reorder pm₁ → ∀ op : Op,
        Evicts cfg.sampleLimit (op.run cfg pm₁).samples (op.run cfg.unlimited pm₁).samples ∧
          Evicts cfg.outcomeLimit (op.run cfg pm₁).outcomes
            (op.run cfg.unlimited pm₁).outcomes := by
  have hcaps : WithinCaps caps pm :=
    Run.invariant_of_forall (I := WithinCaps caps) (withinCaps_empty caps)
      (fun _ _ _ hop hI hs => hI.step hop hs) hrun hbudget
  exact ⟨hcaps, fun _ => pending_of_rejected, fun _ hr op => (hcaps.reorder hr).evicts op⟩

/-- A budget for two probes, of one peer and one at a time. -/
def tightCaps : Caps {} where
  maxPeers := 1
  maxBurst := 1
  hardCap := 2
  maxPeers_pos := by decide
  maxBurst_pos := by decide
  hardCap_pos := by decide
  sampleLimit_pos := by decide
  outcomeLimit_pos := by decide

/-- A probe to a second peer, which the tight budget does not admit. -/
def crowdOps : List Op :=
  [.addWithBudget { txid := 1, dstDisco := 7, source := ⟨100, 1⟩, time := 10 } 1 1 2,
    .addWithBudget { txid := 2, dstDisco := 8, source := ⟨100, 1⟩, time := 10 } 1 1 2]

/-- The manager after them. -/
def crowdManager : ProbeManager := crowdOps.foldl (fun pm op => op.run {} pm) {}

theorem withinCaps_crowdManager : crowdManager.discos = [7] ∧ WithinCaps tightCaps crowdManager :=
  ⟨by decide,
    (withinCaps_of_run {} tightCaps crowdOps crowdManager
      ((Run.nil.snoc ⟨_, Reorder.refl _, rfl⟩).snoc ⟨_, Reorder.refl _, rfl⟩)
      (by simp [crowdOps, Op.UsesBudget, tightCaps])).1⟩

end Multiport.Magicsock

import Multiport.Magicsock.ActiveBackup

/-!
# Sending a probe

`sendSourcePathDiscoPing` (`wgengine/magicsock/sourcepath.go`) first gives up the probes
that have timed out.  An auxiliary source that has lost too many of them in a row is to be
rotated, and its count starts anew.  The rotations are carried out after the new probe has
been admitted: if it is not, they are lost with the counts.

`rotations_eq_nil_iff` says when there is nothing to rotate, and
`sendSourcePathDiscoPing_rotates_iff` when all rotations are carried out.
-/

namespace Multiport.Magicsock

open Lib Net Tailcfg List ProbeManager

/-! ## The code -/

/-- The arguments of `sendSourcePathDiscoPing` that matter here. -/
structure DiscoPing where
  source : SourceRxMeta
  dst : EpAddr
  dstDisco : PublicKey := 0
  txid : TxID := 0
  size : Int := 0

/-- What the function looks up: whether the connection is closed and the peer known, the
time, `MaxDiscoPingSize`, the budgets of `addLocked`, and whether sockets can be bound and
written to. -/
structure PingEnv extends Env where
  closed : Bool := false
  knownPeer : Bool := true
  now : MonoTime := 0
  maxPingSize : Int := 0
  maxPeers : Int := 0
  maxBurst : Int := 0
  hardCap : Int := 0
  bindOK : SourceRxMeta → Bool := fun _ => true
  writeOK : Bool := true

/-- The errors of `sendSourcePathDiscoPing`. -/
inductive PingErr where
  | unavailable | connClosed | unknownPeer | peerBudgetExceeded | burstBudgetExceeded | write
deriving DecidableEq, Repr

/-- What a call leaves: the connection and the error, the rotations that
`noteProbeExpirationsLocked` computed, and those that were carried out. -/
structure ProbeSendResult where
  conn : Conn
  err : Option PingErr
  computed : List AuxRotation := []
  executed : List AuxRotation := []

/-- The probe that is to be added. -/
def DiscoPing.tx (p : DiscoPing) (env : PingEnv) : ProbeTx :=
  { txid := p.txid, dst := p.dst, dstDisco := p.dstDisco, source := p.source, time := env.now,
    size := min p.size env.maxPingSize }

namespace Conn

variable (env : PingEnv)

/-- The body of the loop over the rotations, with those carried out so far. -/
def runRotation (st : Conn × List AuxRotation) (r : AuxRotation) : Conn × List AuxRotation :=
  (st.1.rotateSourcePathAuxSocket env.toEnv r.source (env.bindOK r.source), st.2 ++ [r])

/-- `sourceProbes.forgetLocked`, on the connection. -/
def forgetProbe (c : Conn) (txid : TxID) : Conn :=
  { c with sourceProbes := c.sourceProbes.forgetLocked txid }

/-- The rest of `sendSourcePathDiscoPing`, once the probe has been added. -/
def sendAdded (c : Conn) (p : DiscoPing) (rotations : List AuxRotation) : ProbeSendResult :=
  let (c, executed) := rotations.foldl (runRotation env) (c, [])
  if p.source ∈ rotations.map AuxRotation.source then
    ⟨c.forgetProbe p.txid, some .unavailable, rotations, executed⟩
  else if env.writeOK then ⟨c, none, rotations, executed⟩
  else ⟨c.forgetProbe p.txid, some .write, rotations, executed⟩

def sendSourcePathDiscoPing (c : Conn) (p : DiscoPing) : ProbeSendResult :=
  if p.source.isPrimary ∨ ¬ p.dst.isDirect then ⟨c, some .unavailable, [], []⟩
  else if env.closed then ⟨c, some .connClosed, [], []⟩
  else if ¬ env.knownPeer then ⟨c, some .unknownPeer, [], []⟩
  else
    let (pm, expired) := c.sourceProbes.pruneExpiredLocked env.cfg env.now
    let (pm, rotations) := pm.noteProbeExpirationsLocked env.cfg expired env.now
    let (pm, addResult) :=
      pm.addWithBudgetLocked env.cfg (p.tx env) env.maxPeers env.maxBurst env.hardCap
    let c := { c with sourceProbes := pm }
    match addResult with
    | .added => c.sendAdded env p rotations
    | .peerBudgetExceeded => ⟨c, some .peerBudgetExceeded, rotations, []⟩
    | .burstBudgetExceeded => ⟨c, some .burstBudgetExceeded, rotations, []⟩
    | .hardCapExceeded => ⟨c, some .unavailable, rotations, []⟩

end Conn

/-! ## Which rotations are computed -/

/-- The lost probes of a path that are counted so far. -/
def ProbeManager.streak (pm : ProbeManager) (key : DualSendKey) : Int :=
  (pm.dualSendAuxProbeLoss.lookup key).getD 0

/-- The probes among `txs` that were sent on a path. -/
def losses (txs : List ProbeTx) (key : DualSendKey) : Nat :=
  txs.countP fun tx => (⟨tx.dst, tx.source⟩ : DualSendKey) = key

/-- The losses of a path are counted: its source is auxiliary and has a recent sample. -/
def ProbeManager.Counted (cfg : Config) (pm : ProbeManager) (now : MonoTime) (key : DualSendKey) :
    Prop :=
  key.source.isPrimary = false ∧ pm.hasRecentSampleLocked cfg key.dst key.source now = true

/-- The losses `txs` make the path due for rotation. -/
def ProbeManager.Due (cfg : Config) (pm : ProbeManager) (now : MonoTime) (txs : List ProbeTx)
    (key : DualSendKey) : Prop :=
  pm.Counted cfg now key ∧ 0 < losses txs key ∧
    cfg.auxProbeDropStreak ≤ pm.streak key + losses txs key

namespace ProbeManager

variable {cfg : Config} {pm : ProbeManager} {now : MonoTime} {tx : ProbeTx}

theorem losses_cons (tx : ProbeTx) (txs : List ProbeTx) (key : DualSendKey) :
    losses (tx :: txs) key =
      losses txs key + if (⟨tx.dst, tx.source⟩ : DualSendKey) = key then 1 else 0 := by
  simp [losses, countP_cons]

theorem noteProbeExpiration_of_not_counted (h : ¬ pm.Counted cfg now ⟨tx.dst, tx.source⟩)
    (rs : List AuxRotation) : noteProbeExpiration cfg now (pm, rs) tx = (pm, rs) := by
  rw [noteProbeExpiration, if_pos]
  by_contra hno
  rw [not_or, not_not] at hno
  exact h ⟨Bool.eq_false_iff.2 hno.1, hno.2⟩

/-- A counted loss below the threshold adds one to the streak of its path. -/
theorem noteProbeExpiration_of_lt (h : pm.Counted cfg now ⟨tx.dst, tx.source⟩)
    (hlt : pm.streak ⟨tx.dst, tx.source⟩ + 1 < cfg.auxProbeDropStreak) (rs : List AuxRotation) :
    noteProbeExpiration cfg now (pm, rs) tx =
      ({ pm with
          dualSendAuxProbeLoss :=
            pm.dualSendAuxProbeLoss.insert ⟨tx.dst, tx.source⟩
              (pm.streak ⟨tx.dst, tx.source⟩ + 1) }, rs) := by
  rw [noteProbeExpiration, if_neg (by simp [h.1, h.2])]
  exact if_pos hlt

/-- A counted loss that reaches the threshold makes for a rotation of its source. -/
theorem rotations_ne_nil_of_le (h : pm.Counted cfg now ⟨tx.dst, tx.source⟩)
    (hle : ¬ pm.streak ⟨tx.dst, tx.source⟩ + 1 < cfg.auxProbeDropStreak) :
    (noteProbeExpiration cfg now (pm, []) tx).2 ≠ [] := by
  rw [noteProbeExpiration, if_neg (by simp [h.1, h.2])]
  rw [streak] at hle
  rw [if_neg hle]
  simp

theorem rotations_sublist (cfg : Config) (now : MonoTime) (txs : List ProbeTx)
    (st : ProbeManager × List AuxRotation) :
    st.2.Sublist (txs.foldl (noteProbeExpiration cfg now) st).2 := by
  induction txs generalizing st with
  | nil => exact .refl _
  | cons tx txs ih =>
    refine .trans ?_ (ih _)
    unfold noteProbeExpiration
    dsimp only
    split
    · exact .refl _
    · split
      · exact .refl _
      · split
        · exact .refl _
        · exact sublist_append_left _ _

/-- **There is nothing to rotate exactly if no path is due.** -/
theorem rotations_eq_nil_iff (txs : List ProbeTx) :
    (txs.foldl (noteProbeExpiration cfg now) (pm, [])).2 = [] ↔
      ∀ key, ¬ pm.Due cfg now txs key := by
  induction txs generalizing pm with
  | nil => simp [Due, losses]
  | cons tx txs ih =>
    rw [foldl_cons]
    by_cases hc : pm.Counted cfg now ⟨tx.dst, tx.source⟩
    · by_cases hlt : pm.streak ⟨tx.dst, tx.source⟩ + 1 < cfg.auxProbeDropStreak
      · -- the streak grows by one, and one loss less is to come
        rw [noteProbeExpiration_of_lt hc hlt, ih]
        refine forall_congr' fun key => not_congr (and_congr Iff.rfl ?_)
        simp only [losses_cons, streak, GoMap.lookup_insert_eq] at hlt ⊢
        by_cases hk : (⟨tx.dst, tx.source⟩ : DualSendKey) = key
        · subst hk
          rw [if_pos rfl, if_pos rfl, Option.getD_some]
          omega
        · rw [if_neg hk, if_neg (Ne.symm hk), add_zero]
      · refine iff_of_false (fun hnil => rotations_ne_nil_of_le hc hlt ?_) fun h => ?_
        · have hsub := rotations_sublist cfg now txs (noteProbeExpiration cfg now (pm, []) tx)
          rw [hnil] at hsub
          exact eq_nil_of_sublist_nil hsub
        · refine h ⟨tx.dst, tx.source⟩ ⟨hc, ?_, ?_⟩ <;> rw [losses_cons, if_pos rfl]
          · omega
          · omega
    · rw [noteProbeExpiration_of_not_counted hc, ih]
      refine forall_congr' fun key => not_congr (and_congr_right fun hkey => ?_)
      rw [losses_cons, if_neg (by rintro rfl; exact hc hkey), add_zero]

theorem addWithBudgetLocked_eq_added_iff (cfg : Config) (pm : ProbeManager) (tx : ProbeTx)
    (maxPeers maxBurst hardCap : Int) :
    (pm.addWithBudgetLocked cfg tx maxPeers maxBurst hardCap).2 = .added ↔
      Admits (pm.pruneExpiredLocked cfg tx.time).1 tx maxPeers maxBurst hardCap := by
  refine ⟨fun h => ?_, fun h => ?_⟩
  · rcases addWithBudgetLocked_cases cfg pm tx maxPeers maxBurst hardCap with ⟨hne, -⟩ | ⟨ha, -⟩
    · exact absurd h hne
    · exact ha
  · unfold addWithBudgetLocked
    rw [if_neg, if_neg, if_neg (not_le.2 h.burst)]
    · rintro ⟨hpos, hmem, hle⟩
      exact (h.peers hpos).elim hmem fun hlt => absurd hle (not_le.2 hlt)
    · rintro ⟨hpos, hle⟩
      exact absurd hle (not_le.2 (h.hardCap hpos))

end ProbeManager

/-! ## Which rotations are carried out -/

namespace Conn

variable (env : PingEnv) (c : Conn) (p : DiscoPing)

/-- The checks before the probes are looked at. -/
def PingReaches : Prop :=
  p.source.isPrimary = false ∧ p.dst.isDirect = true ∧ env.closed = false ∧ env.knownPeer = true

/-- The probes that time out make some path due for rotation. -/
def RotationDue : Prop :=
  0 < env.cfg.auxProbeDropStreak ∧
    ∃ key, c.sourceProbes.Due env.cfg env.now (c.sourceProbes.expired env.cfg env.now) key

/-- The budgets admit the probe once those that time out are gone. -/
def PingAdmitted : Prop :=
  (c.sourceProbes.pruneExpiredLocked env.cfg env.now).1.Admits (p.tx env) env.maxPeers
    env.maxBurst env.hardCap

/-- What `noteProbeExpirationsLocked` makes of the probes that time out. -/
def noteExpired : ProbeManager × List AuxRotation :=
  (c.sourceProbes.pruneExpiredLocked env.cfg env.now).1.noteProbeExpirationsLocked env.cfg
    (c.sourceProbes.expired env.cfg env.now) env.now

theorem noteExpired_eq_nil_iff : (c.noteExpired env).2 = [] ↔ ¬ c.RotationDue env := by
  unfold noteExpired noteProbeExpirationsLocked RotationDue
  by_cases hpos : env.cfg.auxProbeDropStreak ≤ 0
  · rw [if_pos hpos]
    exact iff_of_true rfl fun h => absurd h.1 (not_lt.2 hpos)
  · rw [if_neg hpos, rotations_eq_nil_iff, pruneExpiredLocked_fst]
    -- pruning leaves the samples and the streaks alone
    simp [ProbeManager.Due, ProbeManager.Counted, streak,
      hasRecentSampleLocked, not_le.1 hpos]

/-- The budgets are checked on the probes that have not timed out. -/
theorem addWithBudgetLocked_noteExpired :
    ((c.noteExpired env).1.addWithBudgetLocked env.cfg (p.tx env) env.maxPeers env.maxBurst
      env.hardCap).2 = .added ↔ c.PingAdmitted env p := by
  have hpending : ((c.noteExpired env).1.pruneExpiredLocked env.cfg env.now).1.pending =
      (c.sourceProbes.pruneExpiredLocked env.cfg env.now).1.pending := by
    rw [pruneExpiredLocked_fst, noteExpired,
      (sameProbes_noteProbeExpirations _ _).pending,
      pruneExpiredLocked_fst]
    exact AList.ext (by simp)
  rw [addWithBudgetLocked_eq_added_iff]
  change ((c.noteExpired env).1.pruneExpiredLocked env.cfg env.now).1.Admits _ _ _ _ ↔ _
  constructor
  · rintro ⟨hcap, hpeers, hburst⟩
    rw [hpending] at hcap hpeers hburst
    exact ⟨hcap, hpeers, hburst⟩
  · rintro ⟨hcap, hpeers, hburst⟩
    rw [← hpending] at hcap hpeers hburst
    exact ⟨hcap, hpeers, hburst⟩

theorem foldl_runRotation (rs : List AuxRotation) (st : Conn × List AuxRotation) :
    (rs.foldl (runRotation env) st).2 = st.2 ++ rs := by
  induction rs generalizing st with
  | nil => simp
  | cons r rs ih =>
    rw [foldl_cons, ih]
    simp [runRotation]

/-- Once the probe has been added, all rotations are carried out. -/
theorem sendAdded_spec (rs : List AuxRotation) :
    (c.sendAdded env p rs).computed = rs ∧ (c.sendAdded env p rs).executed = rs := by
  have hall : (rs.foldl (runRotation env) (c, [])).2 = rs := by
    rw [foldl_runRotation, nil_append]
  unfold sendAdded
  dsimp only
  split
  · exact ⟨rfl, hall⟩
  · split <;> exact ⟨rfl, hall⟩

/-- A call that looks at the probes carries out all rotations or none. -/
theorem sendSourcePathDiscoPing_of_reaches (h : PingReaches env p) :
    (c.sendSourcePathDiscoPing env p).computed = (c.noteExpired env).2 ∧
      (c.PingAdmitted env p → (c.sendSourcePathDiscoPing env p).executed = (c.noteExpired env).2) ∧
      (¬ c.PingAdmitted env p → (c.sendSourcePathDiscoPing env p).executed = []) := by
  obtain ⟨hsource, hdst, hclosed, hknown⟩ := h
  rw [← addWithBudgetLocked_noteExpired]
  unfold sendSourcePathDiscoPing
  rw [if_neg (by simp [hsource, hdst]), if_neg (by simp [hclosed]), if_neg (by simp [hknown])]
  have hprune : c.sourceProbes.pruneExpiredLocked env.cfg env.now =
      ((c.sourceProbes.pruneExpiredLocked env.cfg env.now).1,
        c.sourceProbes.expired env.cfg env.now) := rfl
  have hnote : (c.sourceProbes.pruneExpiredLocked env.cfg env.now).1.noteProbeExpirationsLocked
      env.cfg (c.sourceProbes.expired env.cfg env.now) env.now = c.noteExpired env := rfl
  rw [hprune]
  dsimp only
  rw [hnote]
  obtain ⟨pm, rotations⟩ := c.noteExpired env
  obtain ⟨pm', result⟩ := pm.addWithBudgetLocked env.cfg (p.tx env) env.maxPeers env.maxBurst
    env.hardCap
  cases result with
  | added =>
    obtain ⟨hcomputed, hexecuted⟩ := sendAdded_spec env { c with sourceProbes := pm' } p rotations
    exact ⟨hcomputed, fun _ => hexecuted, fun h => absurd rfl h⟩
  | peerBudgetExceeded | burstBudgetExceeded | hardCapExceeded => simp

/-- A call that returns early computes no rotation. -/
theorem computed_of_not_reaches (h : ¬ PingReaches env p) :
    (c.sendSourcePathDiscoPing env p).computed = [] := by
  unfold sendSourcePathDiscoPing
  by_cases hkind : p.source.isPrimary ∨ ¬ p.dst.isDirect
  · rw [if_pos hkind]
  rw [if_neg hkind]
  by_cases hclosed : env.closed
  · rw [if_pos hclosed]
  rw [if_neg hclosed]
  by_cases hknown : env.knownPeer
  · rw [not_or, not_not] at hkind
    exact absurd ⟨Bool.eq_false_iff.2 hkind.1, hkind.2, Bool.eq_false_iff.2 hclosed, hknown⟩ h
  · rw [if_pos hknown]

/-- **Computed rotations are carried out** exactly when, in a call that looks at the probes and
makes a path due, the budgets admit the probe. -/
theorem sendSourcePathDiscoPing_rotates_iff :
    (∀ r ∈ (c.sendSourcePathDiscoPing env p).computed,
      r ∈ (c.sendSourcePathDiscoPing env p).executed) ↔
      (PingReaches env p → c.RotationDue env → c.PingAdmitted env p) := by
  by_cases hreach : PingReaches env p
  · obtain ⟨hcomputed, hadmitted, hrefused⟩ := c.sendSourcePathDiscoPing_of_reaches env p hreach
    rw [hcomputed]
    by_cases hadm : c.PingAdmitted env p
    · rw [hadmitted hadm]
      exact iff_of_true (fun r hr => hr) fun _ _ => hadm
    rw [hrefused hadm]
    constructor
    · intro hall _ hdue
      refine absurd ((c.noteExpired_eq_nil_iff env).1 ?_) (not_not.2 hdue)
      exact eq_nil_iff_forall_not_mem.2 fun r hr => not_mem_nil (hall r hr)
    · intro himp r hr
      rw [(c.noteExpired_eq_nil_iff env).2 fun hdue => hadm (himp hreach hdue)] at hr
      exact hr
  · rw [c.computed_of_not_reaches env p hreach]
    exact iff_of_true (fun r hr => absurd hr not_mem_nil) fun h => absurd h hreach

/-- One peer may be probed at a time. -/
def onePeerEnv : PingEnv := { now := 10 * second, maxPeers := 1, hardCap := 1024 }

/-- Two probes of a source that answered before have timed out; one of another peer is
still on its way. -/
def silentConn : Conn where
  sourceProbes :=
    { pending :=
        ((AList.singleton 1 { txid := 1, dst := directDst, source := ⟨100, 1⟩, time := 0 }).insert 2
          { txid := 2, dst := directDst, source := ⟨100, 1⟩, time := second }).insert 3
          { txid := 3, dstDisco := 7, source := ⟨100, 1⟩, time := 9 * second }
      samples := [⟨0, directDst, {}, {}, ⟨100, 1⟩, 5, 0⟩] }

/-- The two losses would be made up for by a rotation, which is dropped as the probe is
refused.  The count of losses is gone as well. -/
theorem sendSourcePathDiscoPing_drops_rotation :
    (silentConn.sendSourcePathDiscoPing onePeerEnv ⟨⟨100, 1⟩, directDst, 0, 4, 0⟩).computed =
        [⟨directDst, ⟨100, 1⟩, "source-path-probe-timeout"⟩] ∧
      (silentConn.sendSourcePathDiscoPing onePeerEnv ⟨⟨100, 1⟩, directDst, 0, 4, 0⟩).executed = [] ∧
      (silentConn.sendSourcePathDiscoPing onePeerEnv ⟨⟨100, 1⟩, directDst, 0, 4, 0⟩).err =
        some .peerBudgetExceeded ∧
      (silentConn.sendSourcePathDiscoPing onePeerEnv
        ⟨⟨100, 1⟩, directDst, 0, 4, 0⟩).conn.sourceProbes.streak ⟨directDst, ⟨100, 1⟩⟩ = 0 := by
  decide

end Conn

end Multiport.Magicsock

import Multiport.Magicsock.Score
import Multiport.Magicsock.Sockets

/-!
# Failover to an auxiliary source

With active backup, a destination whose primary sends keep failing is failed over
to an auxiliary source.  The state of this is in the `activeBackup` table of the probe
manager.

A socket that is rotated gets a new generation, and `dropSourceLocked` is to
forget the source it had.  It goes through all tables but `activeBackup`:
`Forgets` holds exactly if that table has nothing to forget.
-/

namespace Multiport.Magicsock

open Lib Net DualSendKey

/-- The parts of a `Conn` that are about source selection. -/
structure Conn where
  sourcePath : SourcePathState := {}
  sourceProbes : ProbeManager := {}

/-- What the functions look up elsewhere: the settings, and what the endpoints know
about the primary path. -/
structure Env where
  knobs : Knobs := {}
  cfg : Config := {}
  /-- `primaryPongsSinceDst`. -/
  primaryPongsSinceDst : EpAddr → MonoTime → Int := fun _ _ => 0
  /-- `primaryRTTForDst`. -/
  primaryRTTForDst : EpAddr → Duration := fun _ => 0

namespace Conn

variable (env : Env)

/-- `sourcePathProbeSources` for the family of a destination. -/
def sourcesFor (c : Conn) (dst : EpAddr) : List SourceRxMeta :=
  c.sourcePath.sourcePathProbeSources env.knobs dst.ap.addr.is4

def setActiveBackup (c : Conn) (m : GoMap EpAddr ActiveBackupState) : Conn :=
  { c with sourceProbes := { c.sourceProbes with activeBackup := m } }

def sourcePathBestFailoverCandidate (c : Conn) (dst : EpAddr) (now : MonoTime) :
    Conn × Option SourceRxMeta :=
  if !dst.isDirect then (c, none)
  else
    let sources := c.sourcesFor env dst
    if sources.length = 0 then (c, none)
    else
      let (pm, score) := c.sourceProbes.bestCandidateLocked env.cfg env.knobs dst sources now 0
      ({ c with sourceProbes := pm }, score.map CandidateScore.source)

/-- Count the failure.  The result is the source to retry the send on, if the
destination is failed over. -/
def noteSourcePathPrimarySendFailure (c : Conn) (dst : EpAddr) (now : MonoTime) :
    Conn × Option SourceRxMeta :=
  if !env.knobs.sourcePathActiveBackupEnabled || !dst.isDirect ||
      env.knobs.sourcePathAuxSocketCount = 0 then (c, none)
  else
    let st := (c.sourceProbes.activeBackup.lookup dst).getD {}
    let st := { st with sendFailStreak := st.sendFailStreak + 1 }
    if st.failoverAt ≠ 0 ∧ ¬st.source.isPrimary then
      (c.setActiveBackup (c.sourceProbes.activeBackup.insert dst st), some st.source)
    else if st.sendFailStreak < env.knobs.sourcePathActiveBackupPrimaryFailStreakValue then
      (c.setActiveBackup (c.sourceProbes.activeBackup.insert dst st), none)
    else match c.sourcePathBestFailoverCandidate env dst now with
      | (c, none) => (c, none)
      | (c, some source) =>
        -- the table is read again, so the failure that led here is not counted
        let st := (c.sourceProbes.activeBackup.lookup dst).getD {}
        let st := { st with
          failoverAt := now
          holdUntil := now + env.knobs.sourcePathActiveBackupFailoverHoldValue
          source }
        (c.setActiveBackup (c.sourceProbes.activeBackup.insert dst st), some source)

/-- Rebind the socket of a source and forget the source.  `ok` says whether the
socket can be bound. -/
def rotateSourcePathAuxSocket (c : Conn) (source : SourceRxMeta) (ok : Bool) : Conn :=
  match c.sourcePath.rebindSourcePathSocket env.knobs source ok with
  | (sourcePath, _, rebound, err) =>
    if !rebound then { c with sourcePath }
    else if err.isSome then { c with sourcePath }
    else { sourcePath, sourceProbes := (c.sourceProbes.dropSourceLocked source).1 }

end Conn

/-! ## Forgetting a source -/

/-- The source is in no table. -/
structure Unreferenced (s : SourceRxMeta) (pm : ProbeManager) : Prop where
  samples : ∀ x ∈ pm.samples, x.source ≠ s
  outcomes : ∀ x ∈ pm.outcomes, x.source ≠ s
  pending : ∀ e ∈ pm.pending.entries, e.2.source ≠ s
  flowMap : ∀ e ∈ pm.flowMap.entries, e.2.source ≠ s
  dualSendAuxFailStreak : ∀ e ∈ pm.dualSendAuxFailStreak.entries, e.1.source ≠ s
  dualSendAuxProbeLoss : ∀ e ∈ pm.dualSendAuxProbeLoss.entries, e.1.source ≠ s
  dualSendDemotedAuxTill : ∀ e ∈ pm.dualSendDemotedAuxTill.entries, e.1.source ≠ s
  activeBackup : ∀ e ∈ pm.activeBackup.entries, e.2.source ≠ s

/-- The entries of other sources are the same, in the same order. -/
structure KeepsOthers (s : SourceRxMeta) (pm pm' : ProbeManager) : Prop where
  samples : pm'.samples.filter (·.source ≠ s) = pm.samples.filter (·.source ≠ s)
  outcomes : pm'.outcomes.filter (·.source ≠ s) = pm.outcomes.filter (·.source ≠ s)
  pending : pm'.pending.entries.filter (·.2.source ≠ s) =
    pm.pending.entries.filter (·.2.source ≠ s)
  flowMap : pm'.flowMap.entries.filter (·.2.source ≠ s) =
    pm.flowMap.entries.filter (·.2.source ≠ s)
  dualSendAuxFailStreak : pm'.dualSendAuxFailStreak.entries.filter (·.1.source ≠ s) =
    pm.dualSendAuxFailStreak.entries.filter (·.1.source ≠ s)
  dualSendAuxProbeLoss : pm'.dualSendAuxProbeLoss.entries.filter (·.1.source ≠ s) =
    pm.dualSendAuxProbeLoss.entries.filter (·.1.source ≠ s)
  dualSendDemotedAuxTill : pm'.dualSendDemotedAuxTill.entries.filter (·.1.source ≠ s) =
    pm.dualSendDemotedAuxTill.entries.filter (·.1.source ≠ s)
  activeBackup : pm'.activeBackup.entries.filter (·.2.source ≠ s) =
    pm.activeBackup.entries.filter (·.2.source ≠ s)
  flowRR : pm'.flowRR = pm.flowRR

/-- The source is forgotten, and nothing else. -/
def Forgets (s : SourceRxMeta) (pm pm' : ProbeManager) : Prop :=
  Unreferenced s pm' ∧ KeepsOthers s pm pm'

/-- No destination is failed over to the source. -/
def NotFailedOverTo (s : SourceRxMeta) (pm : ProbeManager) : Prop :=
  ∀ e ∈ pm.activeBackup.entries, e.2.source ≠ s

section Drop

variable {α : Type*} (f : α → SourceRxMeta) (s : SourceRxMeta) (l : List α)

theorem source_ne_of_mem_filter : ∀ x ∈ l.filter (f · ≠ s), f x ≠ s := by
  simp

theorem filter_filter_source : (l.filter (f · ≠ s)).filter (f · ≠ s) = l.filter (f · ≠ s) := by
  simp

end Drop

section Maps

variable {K V : Type} (f : K → V → SourceRxMeta) (s : SourceRxMeta) (m : GoMap K V)

theorem source_ne_of_mem_deleteWhere :
    ∀ e ∈ (m.deleteWhere fun k v => f k v = s).entries, f e.1 e.2 ≠ s := by
  simp

theorem filter_deleteWhere_source :
    ((m.deleteWhere fun k v => f k v = s).entries.filter fun e => f e.1 e.2 ≠ s) =
      m.entries.filter fun e => f e.1 e.2 ≠ s := by
  simp

end Maps

variable {s : SourceRxMeta}

section

variable (hs : s.isPrimary = false)

include hs

variable (pm : ProbeManager)

/-- Every table is filtered, except `activeBackup`. -/
theorem dropSourceLocked_eq : (pm.dropSourceLocked s).1 = { pm with
      samples := pm.samples.filter (·.source ≠ s)
      outcomes := pm.outcomes.filter (·.source ≠ s)
      pending := pm.pending.deleteWhere fun _ tx => tx.source = s
      flowMap := pm.flowMap.deleteWhere fun _ st => st.source = s
      dualSendAuxFailStreak := pm.dualSendAuxFailStreak.deleteWhere fun key _ => key.source = s
      dualSendAuxProbeLoss := pm.dualSendAuxProbeLoss.deleteWhere fun key _ => key.source = s
      dualSendDemotedAuxTill :=
        pm.dualSendDemotedAuxTill.deleteWhere fun key _ => key.source = s } := by
  rw [ProbeManager.dropSourceLocked, hs]
  rfl

theorem keepsOthers_dropSourceLocked : KeepsOthers s pm (pm.dropSourceLocked s).1 := by
  rw [dropSourceLocked_eq hs]
  constructor
  · exact filter_filter_source ProbeSample.source s _
  · exact filter_filter_source ProbeOutcome.source s _
  · exact filter_deleteWhere_source (fun _ tx => ProbeTx.source tx) s _
  · exact filter_deleteWhere_source (fun _ st => FlowState.source st) s _
  · exact filter_deleteWhere_source (fun key _ => source key) s _
  · exact filter_deleteWhere_source (fun key _ => source key) s _
  · exact filter_deleteWhere_source (fun key _ => source key) s _
  · rfl
  · rfl

theorem unreferenced_dropSourceLocked_iff :
    Unreferenced s (pm.dropSourceLocked s).1 ↔ NotFailedOverTo s pm := by
  rw [dropSourceLocked_eq hs]
  refine ⟨fun h => h.activeBackup, fun h => ⟨?_, ?_, ?_, ?_, ?_, ?_, ?_, h⟩⟩
  · exact source_ne_of_mem_filter ProbeSample.source s _
  · exact source_ne_of_mem_filter ProbeOutcome.source s _
  · exact source_ne_of_mem_deleteWhere (fun _ tx => ProbeTx.source tx) s _
  · exact source_ne_of_mem_deleteWhere (fun _ st => FlowState.source st) s _
  · exact source_ne_of_mem_deleteWhere (fun key _ => source key) s _
  · exact source_ne_of_mem_deleteWhere (fun key _ => source key) s _
  · exact source_ne_of_mem_deleteWhere (fun key _ => source key) s _

theorem forgets_dropSourceLocked_iff :
    Forgets s pm (pm.dropSourceLocked s).1 ↔ NotFailedOverTo s pm := by
  rw [Forgets, and_iff_left (keepsOthers_dropSourceLocked hs pm),
    unreferenced_dropSourceLocked_iff hs]

end

/-- **A rotated source is forgotten exactly if no destination was failed over to
it.**  This is so for `dropSourceLocked` on any manager and for a rotation that
succeeds. -/
theorem rotate_forgets_iff (env : Env) (c : Conn) (s : SourceRxMeta) (hs : s.isPrimary = false) :
    (∀ pm : ProbeManager, Forgets s pm (pm.dropSourceLocked s).1 ↔ NotFailedOverTo s pm) ∧
      ∀ ok sourcePath current,
        c.sourcePath.rebindSourcePathSocket env.knobs s ok = (sourcePath, current, true, none) →
          (Forgets s c.sourceProbes (c.rotateSourcePathAuxSocket env s ok).sourceProbes ↔
            NotFailedOverTo s c.sourceProbes) := by
  refine ⟨forgets_dropSourceLocked_iff hs, fun ok sourcePath current h => ?_⟩
  rw [Conn.rotateSourcePathAuxSocket, h]
  exact forgets_dropSourceLocked_iff hs c.sourceProbes

/-- A connection whose first extra socket is bound, with a sample of it. -/
def boundConn : Conn where
  sourcePath := ({} : SourcePathState).rebindSourcePathSockets {} (fun _ => true) (fun _ => true)
  sourceProbes := { samples := [⟨1, {}, {}, {}, ⟨100, 1⟩, 5, 7⟩] }

theorem rotate_forgets_boundConn :
    (boundConn.rotateSourcePathAuxSocket {} ⟨100, 1⟩ true).sourceProbes.samples = [] ∧
      Forgets ⟨100, 1⟩ boundConn.sourceProbes
        (boundConn.rotateSourcePathAuxSocket {} ⟨100, 1⟩ true).sourceProbes :=
  ⟨by decide,
    ((rotate_forgets_iff {} boundConn ⟨100, 1⟩ rfl).2 true _ _ rfl).2
      (by unfold NotFailedOverTo; decide)⟩

def backupEnv : Env := { knobs := { dataStrategy := "active-backup", activeBackup := true } }

def directDst : EpAddr := { ap := ⟨.v4 0x0a000001#32, 1⟩ }

/-- The same connection, with the destination failed over to the socket. -/
def failedOverConn : Conn :=
  boundConn.setActiveBackup (AList.singleton directDst { failoverAt := 8, source := ⟨100, 1⟩ })

/-- The connection after the rotation. -/
def rotatedConn : Conn := failedOverConn.rotateSourcePathAuxSocket backupEnv ⟨100, 1⟩ true

/-- The rotation leaves the destination failed over to a source that no socket has
any more, and the next failure of the primary path returns it. -/
theorem rotate_leaves_failover :
    rotatedConn.sourcePath.boundSources true = [⟨1, 1⟩, ⟨100, 2⟩] ∧
      (rotatedConn.noteSourcePathPrimarySendFailure backupEnv directDst 9).2 = some ⟨100, 1⟩ ∧
      ¬Forgets ⟨100, 1⟩ failedOverConn.sourceProbes rotatedConn.sourceProbes := by
  refine ⟨by decide, by decide, fun h => ?_⟩
  exact h.1.activeBackup ⟨directDst, { failoverAt := 8, source := ⟨100, 1⟩ }⟩ List.mem_cons_self rfl

end Multiport.Magicsock

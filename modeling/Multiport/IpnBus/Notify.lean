import Multiport.Netmap.Mutation

/-!
# Notifications on the IPN bus

An `ipn.Notify` is a delta: a field that is set replaces what the watcher knew, a
`NetMap` replaces the peers, and `PeerChanges` patch single peers.  A watcher's state
(`Watch`) is what it has after folding the notifications it was sent.

A *boring* notification sets nothing that `isNotableNotify` looks at, and
`mergeBoringNotifies` folds one of them into an earlier one.  `apply_mergeBoringNotifies`
says that the merged notification does what the two do one after the other, provided
the later one is `Mergeable`: the merge keeps `NetMap`, `PeerChanges` and `Engine` only,
and of a peer change only the fields that a node mutation can change.
-/

namespace Multiport.IpnBus

open Lib Net Tailcfg Netmap List PeerChange Overwrite

/-! ## Data -/

/-- `netmap.NetworkMap`: its peers, and the rest of it as a payload. -/
structure NetworkMap (P H : Type) where
  peers : List (Node H) := []
  rest : P

/-- `ipn.Notify`.  The payloads that no code here looks into (`State`, `PrefsView`,
`EngineStatus`, the files, shares, client version and health) are of type `P`. -/
structure Notify (P H : Type) where
  version : String := ""
  sessionID : String := ""
  errMessage : Option String := none
  loginFinished : Option Unit := none
  state : Option P := none
  prefs : Option P := none
  netMap : Option (NetworkMap P H) := none
  peerChanges : Slice PeerChange := none
  engine : Option P := none
  browseToURL : Option String := none
  filesWaiting : Option Unit := none
  incomingFiles : Slice P := none
  outgoingFiles : Slice P := none
  localTCPPort : Option UInt16 := none
  clientVersion : Option P := none
  driveShares : Slice P := none
  health : Option P := none
  suggestedExitNode : Option String := none

/-- The fields of a notification that replace what the watcher knew: all but `Version`,
which is the same in every notification of a backend, and the two that update the
network map. -/
inductive Field where
  | sessionID | errMessage | loginFinished | state | prefs | engine | browseToURL | filesWaiting
  | incomingFiles | outgoingFiles | localTCPPort | clientVersion | driveShares | health
  | suggestedExitNode
deriving DecidableEq, Repr

/-- The type of a field's value. -/
def Field.Val (P : Type) : Field → Type
  | sessionID | errMessage | browseToURL | suggestedExitNode => String
  | loginFinished | filesWaiting => Unit
  | state | prefs | engine | clientVersion | health => P
  | incomingFiles | outgoingFiles | driveShares => List P
  | localTCPPort => UInt16

variable {P H : Type}

namespace Notify

/-- What a notification sets.  A non-nil empty list is a value like any other. -/
def toOverwrite (n : Notify P H) : Overwrite (Field.Val P)
  | .sessionID => if n.sessionID = "" then none else some n.sessionID
  | .errMessage => n.errMessage
  | .loginFinished => n.loginFinished
  | .state => n.state
  | .prefs => n.prefs
  | .engine => n.engine
  | .browseToURL => n.browseToURL
  | .filesWaiting => n.filesWaiting
  | .incomingFiles => n.incomingFiles
  | .outgoingFiles => n.outgoingFiles
  | .localTCPPort => n.localTCPPort
  | .clientVersion => n.clientVersion
  | .driveShares => n.driveShares
  | .health => n.health
  | .suggestedExitNode => n.suggestedExitNode

def isNotableNotify (n : Notify P H) : Bool :=
  n.state.isSome || n.sessionID ≠ "" || n.browseToURL.isSome || n.localTCPPort.isSome ||
    n.clientVersion.isSome || n.prefs.isSome || n.errMessage.isSome || n.loginFinished.isSome ||
    n.driveShares.isSome || n.health.isSome || decide (n.incomingFiles.elems.length > 0) ||
    decide (n.outgoingFiles.elems.length > 0) || n.filesWaiting.isSome ||
    n.suggestedExitNode.isSome

end Notify

/-! ## Merging -/

def mergePeerChangeForIpnBus (old new : PeerChange) : PeerChange :=
  { old with
    derpRegion := if new.derpRegion ≠ 0 then new.derpRegion else old.derpRegion
    online := if new.online.isSome then new.online else old.online
    lastSeen := if new.lastSeen.isSome then new.lastSeen else old.lastSeen
    endpoints := if new.endpoints.isSome then new.endpoints else old.endpoints }

/-- The first loop of `mergePeerChanges`: the last index of each node. -/
def indexByNode (dst : List PeerChange) : GoMap NodeID Nat :=
  dst.zipIdx.foldl (fun idxByNode d => idxByNode.insert d.1.nodeID d.2) ∅

/-- The body of the second loop of `mergePeerChanges`. -/
def mergeStep (st : List PeerChange × GoMap NodeID Nat) (nd : PeerChange) :
    List PeerChange × GoMap NodeID Nat :=
  match st.2.lookup nd.nodeID with
  | some oi => (st.1.modify oi (mergePeerChangeForIpnBus · nd), st.2)
  | none => (st.1 ++ [nd], st.2.insert nd.nodeID st.1.length)

def mergePeerChanges (dst src : List PeerChange) : List PeerChange :=
  (src.foldl mergeStep (dst, indexByNode dst)).1

/-- `mergePeerChanges` on slices: a nil slice to which nothing is appended stays nil. -/
def mergePeerChangeSlices (dst src : Slice PeerChange) : Slice PeerChange :=
  if dst.isNone && src.elems.isEmpty then none else some (mergePeerChanges dst.elems src.elems)

def mergeBoringNotifies (dst : Option (Notify P H)) (src : Notify P H) : Notify P H :=
  let dst := dst.getD { version := src.version }
  let dst :=
    if src.netMap.isSome then { dst with netMap := src.netMap, peerChanges := none }
    else if src.peerChanges.isSome then
      { dst with peerChanges := mergePeerChangeSlices dst.peerChanges src.peerChanges }
    else dst
  if src.engine.isSome then { dst with engine := src.engine } else dst

/-! ## Making peer changes -/

/-- One mutation recorded in the change of its node. -/
def recordChange (pc : PeerChange) : Change → PeerChange
  | .online o => { pc with online := some o }
  | .lastSeen t => { pc with lastSeen := some t }
  | .derpHome r => { pc with derpRegion := r }
  | .endpoints eps => { pc with endpoints := eps }

/-- The body of the loop of `ipnBusPeerChangesFromNodeMutations`: `byID` points to the
changes in `ordered`, so that there is one of each node. -/
def recordMutation (ordered : List PeerChange) (m : NodeMutation) : List PeerChange :=
  match ordered.findIdx? (·.nodeID = m.nodeID) with
  | some i => ordered.modify i (recordChange · m.change)
  | none => ordered ++ [recordChange { nodeID := m.nodeID } m.change]

/-- `ipnBusPeerChangesFromNodeMutations`, which fails only on a kind of mutation other
than the four there are. -/
def ipnBusPeerChangesFromNodeMutations (muts : List NodeMutation) : List PeerChange :=
  muts.foldl recordMutation []

/-! ## Watching -/

/-- What a watcher has after folding the notifications it was sent: the last value of
each field, the peers, and the rest of the network map. -/
@[ext]
structure Watch (P H : Type) where
  fields : Overwrite (Field.Val P) := .nop
  peers : List (Node H) := []
  netMap : Option P := none

/-- A list of peer changes as an overwrite of the node `k`. -/
def changesTo (pcs : List PeerChange) (k : NodeID) : Overwrite PatchField.Val :=
  .all ((pcs.filter (·.nodeID = k)).map toOverwrite)

/-- One peer change patches the peer it names. -/
def patchPeer (peers : List (Node H)) (pc : PeerChange) : List (Node H) :=
  peers.map fun n => if n.id = pc.nodeID then n.overwrite pc.toOverwrite else n

/-- Peer changes patch the peers they name, one after the other. -/
def patchPeers (peers : List (Node H)) (pcs : List PeerChange) : List (Node H) :=
  pcs.foldl patchPeer peers

/-- A watcher folds one notification: set fields replace their values, a network map
replaces the peers, then peer changes patch them. -/
def Watch.apply (w : Watch P H) (n : Notify P H) : Watch P H where
  fields := w.fields.andThen n.toOverwrite
  peers := patchPeers ((n.netMap.map NetworkMap.peers).getD w.peers) n.peerChanges.elems
  netMap := (n.netMap.map NetworkMap.rest).or w.netMap

/-! ## Peer changes as overwrites -/

@[simp] theorem changesTo_nil (k : NodeID) : changesTo [] k = .nop := rfl

theorem changesTo_append (ps qs : List PeerChange) (k : NodeID) :
    changesTo (ps ++ qs) k = (changesTo ps k).andThen (changesTo qs k) := by
  rw [changesTo, filter_append, map_append, Overwrite.all_append]
  rfl

theorem changesTo_cons (p : PeerChange) (ps : List PeerChange) (k : NodeID) :
    changesTo (p :: ps) k =
      if p.nodeID = k then p.toOverwrite.andThen (changesTo ps k) else changesTo ps k := by
  unfold changesTo
  by_cases h : p.nodeID = k <;> simp [h]

variable {pcs : List PeerChange}

theorem changesTo_of_forall_ne {k : NodeID} (h : ∀ p ∈ pcs, p.nodeID ≠ k) :
    changesTo pcs k = .nop := by
  rw [changesTo, filter_eq_nil_iff.2 fun p hp => by simpa using h p hp]
  rfl

theorem patchPeers_eq (peers : List (Node H)) (pcs : List PeerChange) :
    patchPeers peers pcs = peers.map fun n => n.overwrite (changesTo pcs n.id) := by
  induction pcs generalizing peers with
  | nil => simp [patchPeers]
  | cons p pcs ih =>
    have hcons : patchPeers peers (p :: pcs) = patchPeers (patchPeer peers p) pcs := rfl
    rw [hcons, ih, patchPeer, map_map]
    refine map_congr_left fun n _ => ?_
    rw [Function.comp_apply, changesTo_cons]
    by_cases h : n.id = p.nodeID
    · rw [if_pos h, if_pos h.symm, Node.id_overwrite, ← Node.overwrite_andThen]
    · rw [if_neg h, if_neg (Ne.symm h)]

theorem patchPeers_append (peers : List (Node H)) (ps qs : List PeerChange) :
    patchPeers peers (ps ++ qs) = patchPeers (patchPeers peers ps) qs := foldl_append

theorem patchPeers_congr {ps qs} (h : ∀ k, changesTo ps k = changesTo qs k)
    (peers : List (Node H)) : patchPeers peers ps = patchPeers peers qs := by
  rw [patchPeers_eq, patchPeers_eq]
  exact map_congr_left fun n _ => by rw [h]

/-! ## The changes a mutation can make -/

/-- A change that sets no field but those a node mutation can change. -/
def OfMutations (pc : PeerChange) : Prop := ∀ f : PeerChangeField, f.handled = false → isZero pc f

instance (pc : PeerChange) : Decidable (OfMutations pc) :=
  decidable_of_iff (∀ f ∈ peerChangeFields, f.handled = false → isZero pc f)
    ⟨fun h f => h f (by cases f <;> decide), fun h f _ => h f⟩

variable {pc : PeerChange}

/-- A change that sets only what a mutation can change leaves the other fields alone. -/
theorem OfMutations.toOverwrite_eq_none (h : OfMutations pc) :
    pc.toOverwrite .cap = none ∧ pc.toOverwrite .capMap = none ∧ pc.toOverwrite .key = none ∧
      pc.toOverwrite .keySignature = none ∧ pc.toOverwrite .discoKey = none ∧
      pc.toOverwrite .keyExpiry = none := by
  have hcap := h .cap rfl
  have hcapMap := h .capMap rfl
  have hkey := h .key rfl
  have hsig := h .keySignature rfl
  have hdisco := h .discoKey rfl
  have hexpiry := h .keyExpiry rfl
  simp only [isZero, Option.isNone_iff_eq_none, decide_eq_true_eq] at *
  exact ⟨if_neg (not_not.2 hcap), congrArg (Option.map some) hcapMap, hkey,
    congrArg (Option.map some) hsig, hdisco, hexpiry⟩

theorem ofMutations_recordChange (h : OfMutations pc) (c : Change) :
    OfMutations (recordChange pc c) := by
  intro f hf
  have hpc := h f hf
  cases c <;> cases f <;> first | exact hpc | cases hf

/-- The backend makes no other changes. -/
theorem ofMutations_of_mem_ipnBusPeerChanges {muts}
    (hpc : pc ∈ ipnBusPeerChangesFromNodeMutations muts) : OfMutations pc := by
  suffices hall : ∀ pcs : List PeerChange, (∀ p ∈ pcs, OfMutations p) →
      ∀ p ∈ muts.foldl recordMutation pcs, OfMutations p from hall [] (by simp) pc hpc
  clear hpc
  induction muts with
  | nil => exact fun _ h => h
  | cons m muts ih =>
    intro pcs hpcs
    refine ih _ fun p hp => ?_
    unfold recordMutation at hp
    split at hp
    · obtain ⟨i, hi, rfl⟩ := mem_iff_getElem.1 hp
      rw [getElem_modify]
      split
      · exact ofMutations_recordChange (hpcs _ (getElem_mem _)) _
      · exact hpcs _ (getElem_mem _)
    · rcases mem_append.1 hp with hp | hp
      · exact hpcs p hp
      · rw [mem_singleton.1 hp]
        refine ofMutations_recordChange (fun f hf => ?_) _
        cases f <;> first | rfl | cases hf

/-! ## What the watchers are told -/

/-- The values that a change can set a field to: zero and nil mean that it is unchanged. -/
def sayable : ∀ f : PatchField, f.Val → Bool
  | .homeDERP, (r : Int) => r ≠ 0
  | .endpoints, eps => Option.isSome eps
  | _, _ => true

/-- Recording a mutation replaces what was recorded in its field, possibly by nothing. -/
theorem toOverwrite_recordChange (pc : PeerChange) (c : Change) (f : PatchField) :
    (recordChange pc c).toOverwrite f =
      (c.toOverwrite f).elim (pc.toOverwrite f) fun v => (some v).filter (sayable f) := by
  cases c with
  | derpHome r =>
    by_cases hr : r = 0
    · subst hr
      cases f <;> rfl
    · have hsome : (some r).filter (fun r : Int => decide (r ≠ 0)) = some r := by simp [hr]
      cases f <;> first | rfl | exact (if_pos hr).trans hsome.symm
  | endpoints eps => cases eps <;> cases f <;> rfl
  | _ => cases f <;> rfl

theorem changesTo_of_notMem {k : NodeID} (h : k ∉ pcs.map nodeID) : changesTo pcs k = .nop :=
  changesTo_of_forall_ne fun p hp hk => h (mem_map.2 ⟨p, hp, hk⟩)

theorem recordMutation_spec (hnodup : (pcs.map nodeID).Nodup) (m : NodeMutation) :
    ((recordMutation pcs m).map nodeID).Nodup ∧
      ∀ k f, changesTo (recordMutation pcs m) k f =
        if m.nodeID = k then (m.change.toOverwrite f).elim (changesTo pcs k f)
          fun v => (some v).filter (sayable f)
        else changesTo pcs k f := by
  have hid (pc : PeerChange) : (recordChange pc m.change).nodeID = pc.nodeID := by
    cases m.change <;> rfl
  unfold recordMutation
  split
  next i hi =>
    obtain ⟨hlt, hp, -⟩ := findIdx?_eq_some_iff_getElem.1 hi
    obtain ⟨pre, d, post, rfl, rfl, hmod⟩ := exists_of_modify (recordChange · m.change) hlt
    have hd : d.nodeID = m.nodeID := by simpa using hp
    rw [map_append, map_cons, nodup_middle, nodup_cons, mem_append, not_or, hd] at hnodup
    rw [hmod, map_append, map_cons, nodup_middle, nodup_cons, mem_append, not_or, hid, hd]
    refine ⟨hnodup, fun k f => ?_⟩
    rw [changesTo_append, changesTo_append, changesTo_cons, changesTo_cons, hid, hd]
    split
    next hk =>
      subst hk
      rw [changesTo_of_notMem hnodup.1.1, changesTo_of_notMem hnodup.1.2]
      simp [toOverwrite_recordChange]
    · rfl
  next hi =>
    have hnew : m.nodeID ∉ pcs.map nodeID := by simpa using hi
    refine ⟨nodup_map_concat hnodup fun c hc h => hnew (mem_map.2 ⟨c, hc, h.trans (hid _)⟩),
      fun k f => ?_⟩
    rw [changesTo_append, changesTo_cons, hid]
    split
    next hk =>
      subst hk
      have hzero : ({ nodeID := m.nodeID } : PeerChange).toOverwrite f = none := by
        cases f <;> rfl
      rw [changesTo_of_notMem hnew]
      simp [toOverwrite_recordChange, hzero]
    · simp

/-- The changes sent for some mutations do what the mutations do, as far as it can be said. -/
theorem changesTo_ipnBusPeerChanges (muts : List NodeMutation) (k : NodeID) (f : PatchField) :
    changesTo (ipnBusPeerChangesFromNodeMutations muts) k f =
      (effectOn muts k f).filter (sayable f) := by
  suffices h : ((ipnBusPeerChangesFromNodeMutations muts).map nodeID).Nodup ∧
      ∀ k f, changesTo (ipnBusPeerChangesFromNodeMutations muts) k f =
        (effectOn muts k f).filter (sayable f) from h.2 k f
  induction muts using List.reverseRecOn with
  | nil => exact ⟨nodup_nil, fun _ _ => rfl⟩
  | append_singleton muts m ih =>
    obtain ⟨hnodup, hrec⟩ := recordMutation_spec ih.1 m
    rw [ipnBusPeerChangesFromNodeMutations, foldl_concat]
    refine ⟨hnodup, fun k f => (hrec k f).trans ?_⟩
    rw [effectOn_append, effectOn_cons, effectOn_nil, andThen_apply]
    split
    · cases h : m.change.toOverwrite f with
      | none => simp [h, ih.2]
      | some v => simp [h]
    · simp [ih.2]

/-- **The bus says what happened**: patching peers by the changes sent for some mutations does to
them what the mutations do, exactly if every new value of theirs can be said, or is the old
one. -/
theorem patchPeers_ipnBusPeerChanges_iff (muts : List NodeMutation) (peers : List (Node H)) :
    patchPeers peers (ipnBusPeerChangesFromNodeMutations muts) =
        peers.map (fun n => n.overwrite (effectOn muts n.id)) ↔
      ∀ n ∈ peers, ∀ f v, effectOn muts n.id f = some v → sayable f v = true ∨ n.get f = v := by
  rw [patchPeers_eq, map_inj_left]
  refine forall₂_congr fun n _ => ?_
  rw [Node.overwrite_eq_iff, and_iff_right rfl]
  refine forall_congr' fun f => ?_
  rw [changesTo_ipnBusPeerChanges]
  cases effectOn muts n.id f with
  | none => simp
  | some v => cases h : sayable f v <;> simp [Option.filter, h]

/-! ## Merging peer changes -/

@[simp] theorem nodeID_mergePeerChangeForIpnBus (old new : PeerChange) :
    (mergePeerChangeForIpnBus old new).nodeID = old.nodeID := rfl

theorem map_ite_isSome {α β : Type} (f : α → β) (new old : Option α) :
    (if new.isSome then new else old).map f = (new.map f).or (old.map f) := by
  cases new <;> rfl

theorem toOverwrite_mergePeerChangeForIpnBus (old : PeerChange) {new} (hnew : OfMutations new) :
    (mergePeerChangeForIpnBus old new).toOverwrite = old.toOverwrite.andThen new.toOverwrite := by
  obtain ⟨hcap, hcapMap, hkey, hsig, hdisco, hexpiry⟩ := hnew.toOverwrite_eq_none
  ext1 f
  rw [andThen_apply]
  cases f
  case homeDERP =>
    by_cases h : new.derpRegion = 0 <;>
      simp only [toOverwrite, mergePeerChangeForIpnBus, h, ne_eq, not_false_eq_true,
        if_true] <;> rfl
  case online => exact map_ite_isSome some new.online old.online
  case lastSeen => exact map_ite_isSome some new.lastSeen old.lastSeen
  case endpoints => exact map_ite_isSome some new.endpoints old.endpoints
  case cap => rw [hcap]; rfl
  case capMap => rw [hcapMap]; rfl
  case key => rw [hkey]; rfl
  case keySignature => rw [hsig]; rfl
  case discoKey => rw [hdisco]; rfl
  case keyExpiry => rw [hexpiry]; rfl

/-- `idxByNode` has the last change of each node. -/
def Indexes (idxByNode : GoMap NodeID Nat) (pcs : List PeerChange) : Prop :=
  ∀ k, match idxByNode.lookup k with
    | some i => ∃ pre d post, pcs = pre ++ d :: post ∧ pre.length = i ∧ d.nodeID = k ∧
        ∀ p ∈ post, p.nodeID ≠ k
    | none => ∀ p ∈ pcs, p.nodeID ≠ k

variable {idxByNode : GoMap NodeID Nat}

theorem Indexes.concat (h : Indexes idxByNode pcs) (d : PeerChange) :
    Indexes (idxByNode.insert d.nodeID pcs.length) (pcs ++ [d]) := by
  intro k
  rw [GoMap.lookup_insert_eq]
  by_cases hk : k = d.nodeID
  · rw [if_pos hk]
    exact ⟨pcs, d, [], rfl, rfl, hk.symm, by simp⟩
  rw [if_neg hk]
  have hold := h k
  cases hl : idxByNode.lookup k with
  | none =>
    rw [hl] at hold
    exact forall_mem_concat.2 ⟨hold, Ne.symm hk⟩
  | some i =>
    rw [hl] at hold
    obtain ⟨pre, e, post, rfl, hi, he, hpost⟩ := hold
    exact ⟨pre, e, post ++ [d], by simp, hi, he, forall_mem_concat.2 ⟨hpost, Ne.symm hk⟩⟩

theorem indexByNode_indexes (pcs : List PeerChange) : Indexes (indexByNode pcs) pcs := by
  induction pcs using List.reverseRecOn with
  | nil =>
    intro k
    simp [indexByNode]
  | append_singleton pcs d ih =>
    have hconcat : indexByNode (pcs ++ [d]) = (indexByNode pcs).insert d.nodeID pcs.length := by
      simp [indexByNode, zipIdx_append]
    rw [hconcat]
    exact ih.concat d

theorem Indexes.modify (h : Indexes idxByNode pcs) (oi : Nat) {f}
    (hf : ∀ p, (f p).nodeID = p.nodeID) : Indexes idxByNode (pcs.modify oi f) := by
  have hids : (pcs.modify oi f).map nodeID = pcs.map nodeID := by
    refine ext_getElem (by simp) fun i _ _ => ?_
    simp only [getElem_map, getElem_modify]
    split
    · exact hf _
    · rfl
  intro k
  have hold := h k
  cases hl : idxByNode.lookup k with
  | none =>
    rw [hl] at hold
    have hmem : k ∉ pcs.map nodeID := by
      simpa using hold
    rw [← hids] at hmem
    simpa using hmem
  | some i =>
    rw [hl] at hold
    obtain ⟨pre, d, post, rfl, hi, hd, hpost⟩ := hold
    simp only [map_append] at hids
    obtain ⟨pre', rest', hsplit, hpre, hrest⟩ := map_eq_append_iff.1 hids
    obtain ⟨d', post', rfl, hd', hpost'⟩ := map_eq_cons_iff.1 hrest
    refine ⟨pre', d', post', hsplit, ?_, hd'.trans hd, ?_⟩
    · rw [← hi]
      simpa using congrArg List.length hpre
    · have hmem : k ∉ post.map nodeID := by simpa using hpost
      rw [← hpost'] at hmem
      simpa using hmem

/-- One round of the loop adds the effect of its change. -/
theorem mergeStep_spec {st} (hst : Indexes st.2 st.1) {nd} (hnd : OfMutations nd) :
    Indexes (mergeStep st nd).2 (mergeStep st nd).1 ∧
      ∀ k, changesTo (mergeStep st nd).1 k = (changesTo st.1 k).andThen (changesTo [nd] k) := by
  obtain ⟨pcs, idxByNode⟩ := st
  have hat := hst nd.nodeID
  unfold mergeStep
  cases hl : idxByNode.lookup nd.nodeID with
  | none => exact ⟨hst.concat nd, fun k => changesTo_append _ _ k⟩
  | some oi =>
    rw [hl] at hat
    refine ⟨hst.modify oi fun p => rfl, fun k => ?_⟩
    obtain ⟨pre, d, post, hpcs, rfl, hd, hpost⟩ := hat
    simp only at hpcs ⊢
    -- the change that is merged into is the last one of its node
    have hmod : (pre ++ d :: post).modify pre.length (mergePeerChangeForIpnBus · nd) =
        pre ++ mergePeerChangeForIpnBus d nd :: post := by
      simp [modify_eq_set_getElem?]
    rw [hpcs, hmod, changesTo_append, changesTo_append, changesTo_cons, changesTo_cons,
      changesTo_cons, nodeID_mergePeerChangeForIpnBus]
    by_cases hk : d.nodeID = k
    · have hnk : nd.nodeID = k := hd.symm.trans hk
      have hlast : changesTo post k = .nop := changesTo_of_forall_ne (hnk ▸ hpost)
      rw [if_pos hk, if_pos hk, if_pos hnk, toOverwrite_mergePeerChangeForIpnBus d hnd, hlast]
      simp [andThen_assoc]
    · have hnk : nd.nodeID ≠ k := fun h => hk (hd.trans h)
      rw [if_neg hk, if_neg hk, if_neg hnk]
      simp

/-- **Merging two lists of peer changes composes their effects.** -/
theorem changesTo_mergePeerChanges (dst : List PeerChange) {src : List PeerChange}
    (hsrc : ∀ p ∈ src, OfMutations p) (k : NodeID) :
    changesTo (mergePeerChanges dst src) k = (changesTo dst k).andThen (changesTo src k) := by
  suffices hloop : ∀ st : List PeerChange × GoMap NodeID Nat, Indexes st.2 st.1 →
      changesTo (src.foldl mergeStep st).1 k = (changesTo st.1 k).andThen (changesTo src k) from
    hloop (dst, indexByNode dst) (indexByNode_indexes dst)
  induction src with
  | nil => simp
  | cons nd src ih =>
    intro st hst
    obtain ⟨hnd, hsrc⟩ := forall_mem_cons.1 hsrc
    obtain ⟨hst', heff⟩ := mergeStep_spec hst hnd
    rw [foldl_cons, ih hsrc _ hst', heff, andThen_assoc,
      ← changesTo_append, singleton_append]

/-- **The changes sent for any batches of mutations may be merged**: a watcher that gets them
merged into one list patches its peers as one that gets them one after the other. -/
theorem patchPeers_foldl_mergePeerChanges (batches : List (List NodeMutation))
    (peers : List (Node H)) :
    patchPeers peers ((batches.map ipnBusPeerChangesFromNodeMutations).foldl mergePeerChanges []) =
      (batches.map ipnBusPeerChangesFromNodeMutations).foldl patchPeers peers := by
  suffices h : ∀ pcs, patchPeers peers ((batches.map ipnBusPeerChangesFromNodeMutations).foldl
      mergePeerChanges pcs) = (batches.map ipnBusPeerChangesFromNodeMutations).foldl patchPeers
        (patchPeers peers pcs) from h []
  induction batches with
  | nil => exact fun pcs => rfl
  | cons muts batches ih =>
    intro pcs
    rw [map_cons, foldl_cons, foldl_cons, ih, ← patchPeers_append]
    congr 1
    refine patchPeers_congr (fun k => ?_) peers
    rw [changesTo_mergePeerChanges pcs fun pc => ofMutations_of_mem_ipnBusPeerChanges,
      changesTo_append]

theorem elems_mergePeerChangeSlices (dst src : Slice PeerChange) :
    (mergePeerChangeSlices dst src).elems = mergePeerChanges dst.elems src.elems := by
  unfold mergePeerChangeSlices
  split
  next h =>
    obtain ⟨hdst, hsrc⟩ := Bool.and_eq_true_iff.1 h
    rw [Option.isNone_iff_eq_none.1 hdst, isEmpty_iff.1 hsrc]
    rfl
  · rfl

/-! ## Merging notifications -/

namespace Notify

/-- A boring notification that a merge can take in without loss: its lists of files are
nil, not empty; it has a network map or peer changes but not both; and its peer changes
are those that mutations make. -/
structure Mergeable (n : Notify P H) : Prop where
  incomingFiles : n.incomingFiles = none
  outgoingFiles : n.outgoingFiles = none
  netMap : n.netMap.isSome → n.peerChanges = none
  peerChanges : ∀ pc ∈ n.peerChanges.elems, OfMutations pc

/-- A boring mergeable notification sets no field but `Engine`. -/
theorem Mergeable.toOverwrite_eq_none {n : Notify P H} (h : n.Mergeable)
    (hn : n.isNotableNotify = false) {f : Field} (hf : f ≠ .engine) : n.toOverwrite f = none := by
  simp only [isNotableNotify, Bool.or_eq_false_iff, Option.isSome_eq_false_iff,
    Option.isNone_iff_eq_none, decide_eq_false_iff_not, not_not] at hn
  obtain ⟨⟨⟨⟨⟨⟨⟨⟨⟨⟨⟨⟨⟨hstate, hsession⟩, hurl⟩, hport⟩, hclient⟩, hprefs⟩, herr⟩, hlogin⟩, hdrive⟩,
    hhealth⟩, -⟩, -⟩, hwaiting⟩, hexit⟩ := hn
  cases f
  case engine => exact absurd rfl hf
  case sessionID => exact if_pos hsession
  case incomingFiles => exact h.incomingFiles
  case outgoingFiles => exact h.outgoingFiles
  all_goals assumption

end Notify

theorem mergeBoringNotifies_fields (dst : Option (Notify P H)) (src : Notify P H) :
    let m := mergeBoringNotifies dst src
    let d := dst.getD { version := src.version }
    m = { d with netMap := m.netMap, peerChanges := m.peerChanges, engine := m.engine } ∧
      m.engine = src.engine.or d.engine := by
  unfold mergeBoringNotifies
  cases src.netMap <;> cases src.peerChanges <;> cases src.engine <;> exact ⟨rfl, rfl⟩

variable (dst : Option (Notify P H)) {src : Notify P H}

theorem toOverwrite_mergeBoringNotifies (hsrc : src.Mergeable)
    (hboring : src.isNotableNotify = false) : (mergeBoringNotifies dst src).toOverwrite =
      (dst.getD { version := src.version }).toOverwrite.andThen src.toOverwrite := by
  obtain ⟨hfields, hengine⟩ := mergeBoringNotifies_fields dst src
  ext1 f
  rw [andThen_apply]
  by_cases hf : f = .engine
  · subst hf
    exact hengine
  · rw [hsrc.toOverwrite_eq_none hboring hf, hfields]
    cases f
    case engine => exact absurd rfl hf
    all_goals rfl

theorem peers_mergeBoringNotifies (hsrc : src.Mergeable) (w : Watch P H) :
    let d := dst.getD { version := src.version }
    (w.apply (mergeBoringNotifies dst src)).peers = ((w.apply d).apply src).peers ∧
      (mergeBoringNotifies dst src).netMap = src.netMap.or d.netMap := by
  unfold mergeBoringNotifies
  generalize dst.getD { version := src.version } = d
  cases hmap : src.netMap with
  | some m =>
    have hnone : src.peerChanges = none := hsrc.netMap (by rw [hmap]; rfl)
    cases src.engine <;> simp [Watch.apply, hmap, hnone]
  | none =>
    cases hpcs : src.peerChanges with
    | none => cases src.engine <;> simp [Watch.apply, hmap, hpcs, patchPeers, Slice.elems]
    | some pcs =>
      have hof := hsrc.peerChanges
      rw [hpcs] at hof
      have hpeers (peers : List (Node H)) :
          patchPeers peers (mergePeerChangeSlices d.peerChanges (some pcs)).elems =
            patchPeers (patchPeers peers d.peerChanges.elems) (Slice.elems (some pcs)) := by
        rw [elems_mergePeerChangeSlices, ← patchPeers_append]
        refine patchPeers_congr (fun k => ?_) peers
        rw [changesTo_mergePeerChanges _ hof, changesTo_append]
      cases src.engine <;> simp [Watch.apply, hmap, hpcs, hpeers]

@[simp] theorem Watch.apply_version (w : Watch P H) (v : String) :
    w.apply { version := v } = w := by
  ext1
  · ext1 f
    cases f <;> rfl
  · rfl
  · rfl

/-- **A merge does what the two notifications do**, one after the other. -/
theorem apply_mergeBoringNotifies (hsrc : src.Mergeable) (hboring : src.isNotableNotify = false)
    (w : Watch P H) : w.apply (mergeBoringNotifies dst src) = ((dst.elim w w.apply).apply src) := by
  have hd : dst.elim w w.apply = w.apply (dst.getD { version := src.version }) := by
    cases dst with
    | none => exact (w.apply_version src.version).symm
    | some d => rfl
  rw [hd]
  obtain ⟨hpeers, hmap⟩ := peers_mergeBoringNotifies dst hsrc w
  ext1
  · exact (congrArg w.fields.andThen (toOverwrite_mergeBoringNotifies dst hsrc hboring)).trans
      (andThen_assoc _ _ _).symm
  · exact hpeers
  · change ((mergeBoringNotifies dst src).netMap.map NetworkMap.rest).or w.netMap =
      (src.netMap.map NetworkMap.rest).or
        (((dst.getD { version := src.version }).netMap.map NetworkMap.rest).or w.netMap)
    rw [hmap, Option.map_or, Option.or_assoc]

end Multiport.IpnBus

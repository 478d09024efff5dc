import Multiport.Lib.Lists
import Multiport.Tailcfg.Node

/-!
# Node mutations

`types/netmap/nodemut.go` turns a map response that holds nothing but patches
into a list of discrete mutations, sorted by node.  The patches come first, then
`OnlineChange`, then those entries of `PeerSeenChange` that say "seen".

* `nodeMutationsFromPatch_eq` gives the mutations of one patch in closed form,
  and `effectOn_nodeMutationsFromPatch` says that together they do what the patch
  does.
* `effectOn_mutationsFromMapResponse` says what a whole response does to one
  node when it is read this way.
-/

namespace Multiport.Netmap

open Lib Net Tailcfg List

variable {H : Type}

/-! ## Mutations -/

/-- What a `NodeMutation` changes: `NodeMutationDERPHome`, `NodeMutationEndpoints`,
`NodeMutationOnline` or `NodeMutationLastSeen`. -/
inductive Change where
  | derpHome (derpRegion : Int)
  | endpoints (endpoints : Slice AddrPort)
  | online (online : Bool)
  | lastSeen (lastSeen : Time)
deriving DecidableEq, Repr

structure NodeMutation where
  nodeID : NodeID
  change : Change
deriving DecidableEq, Repr

def NodeMutation.apply (m : NodeMutation) (n : Node H) : Node H :=
  match m.change with
  | .derpHome r => { n with homeDERP := r }
  | .endpoints eps => { n with endpoints := eps }
  | .online o => { n with online := some o }
  | .lastSeen t => { n with lastSeen := some t }

/-- A mutation as an overwrite of one field. -/
def Change.toOverwrite : Change → Overwrite PatchField.Val
  | .derpHome r => fun | .homeDERP => some r | _ => none
  | .endpoints eps => fun | .endpoints => some eps | _ => none
  | .online o => fun | .online => some (some o) | _ => none
  | .lastSeen t => fun | .lastSeen => some (some t) | _ => none

theorem NodeMutation.apply_eq (m : NodeMutation) (n : Node H) :
    m.apply n = n.overwrite m.change.toOverwrite := by
  unfold NodeMutation.apply
  cases m.change <;> rfl

/-- What a list of mutations does to the node `k`. -/
def effectOn (muts : List NodeMutation) (k : NodeID) : Overwrite PatchField.Val :=
  .all ((muts.filter (·.nodeID = k)).map (·.change.toOverwrite))

@[simp] theorem effectOn_nil (k : NodeID) : effectOn [] k = .nop := rfl

theorem effectOn_cons (m : NodeMutation) (muts : List NodeMutation) (k : NodeID) :
    effectOn (m :: muts) k =
      if m.nodeID = k then m.change.toOverwrite.andThen (effectOn muts k) else effectOn muts k := by
  unfold effectOn
  by_cases h : m.nodeID = k <;> simp [h]

theorem effectOn_append (ms ns : List NodeMutation) (k : NodeID) :
    effectOn (ms ++ ns) k = (effectOn ms k).andThen (effectOn ns k) := by
  rw [effectOn, filter_append, map_append, Overwrite.all_append]
  rfl

variable {muts : List NodeMutation}

theorem effectOn_of_forall_ne {k : NodeID} (h : ∀ m ∈ muts, m.nodeID ≠ k) :
    effectOn muts k = .nop := by
  rw [effectOn, filter_eq_nil_iff.2 fun m hm => by simpa using h m hm]
  rfl

/-! ## The mutations of a patch -/

/-- `peerChangeFields`: the fields of `tailcfg.PeerChange`. -/
inductive PeerChangeField where
  | nodeID | derpRegion | cap | capMap | endpoints | key | keySignature | discoKey | online
  | lastSeen | keyExpiry
deriving DecidableEq, Repr

/-- `peerChangeFields`, in struct order. -/
def peerChangeFields : List PeerChangeField :=
  [.nodeID, .derpRegion, .cap, .capMap, .endpoints, .key, .keySignature, .discoKey, .online,
    .lastSeen, .keyExpiry]

variable (p : PeerChange)

/-- `rv.Field(i).IsZero()`. -/
def isZero : PeerChangeField → Bool
  | .nodeID => p.nodeID = 0
  | .derpRegion => p.derpRegion = 0
  | .cap => p.cap = 0
  | .capMap => p.capMap.isNone
  | .endpoints => p.endpoints.isNone
  | .key => p.key.isNone
  | .keySignature => p.keySignature.isNone
  | .discoKey => p.discoKey.isNone
  | .online => p.online.isNone
  | .lastSeen => p.lastSeen.isNone
  | .keyExpiry => p.keyExpiry.isNone

/-- The loop body of `NodeMutationsFromPatch`: `none` is an unhandled field. -/
def mutateField (ret : List NodeMutation) (field : PeerChangeField) : Option (List NodeMutation) :=
  if isZero p field then some ret
  else
    match field with
    | .nodeID => some ret
    | .derpRegion => some (ret ++ [⟨p.nodeID, .derpHome p.derpRegion⟩])
    | .endpoints => some (ret ++ [⟨p.nodeID, .endpoints p.endpoints⟩])
    | .online => p.online.map fun o => ret ++ [⟨p.nodeID, .online o⟩]
    | .lastSeen => p.lastSeen.map fun t => ret ++ [⟨p.nodeID, .lastSeen t⟩]
    | _ => none

def nodeMutationsFromPatch : Option (List NodeMutation) :=
  if p.nodeID = 0 then none else peerChangeFields.foldlM (mutateField p) []

/-- The mutations one field of a patch gives rise to. -/
def fieldMutations : PeerChangeField → List NodeMutation
  | .derpRegion => if p.derpRegion = 0 then [] else [⟨p.nodeID, .derpHome p.derpRegion⟩]
  | .endpoints => (p.endpoints.map fun eps => ⟨p.nodeID, .endpoints (some eps)⟩).toList
  | .online => (p.online.map fun o => ⟨p.nodeID, .online o⟩).toList
  | .lastSeen => (p.lastSeen.map fun t => ⟨p.nodeID, .lastSeen t⟩).toList
  | _ => []

/-- The fields for which there is a mutation, or that need none. -/
def PeerChangeField.handled : PeerChangeField → Bool
  | .nodeID | .derpRegion | .endpoints | .online | .lastSeen => true
  | _ => false

variable {p : PeerChange} {ret ret' : List NodeMutation}

/-- A step that goes through appends the field's mutations; a field without a
mutation is zero. -/
theorem mutateField_some {f} (h : mutateField p ret f = some ret') :
    ret' = ret ++ fieldMutations p f ∧ (f.handled = false → isZero p f = true) := by
  cases f
  case nodeID => simp_all [mutateField, fieldMutations, PeerChangeField.handled]
  case derpRegion =>
    by_cases hz : p.derpRegion = 0 <;>
      simp_all [mutateField, isZero, fieldMutations, PeerChangeField.handled]
  case endpoints =>
    cases hz : p.endpoints <;>
      simp_all [mutateField, isZero, fieldMutations, PeerChangeField.handled]
  case online =>
    cases hz : p.online <;>
      simp_all [mutateField, isZero, fieldMutations, PeerChangeField.handled]
  case lastSeen =>
    cases hz : p.lastSeen <;>
      simp_all [mutateField, isZero, fieldMutations, PeerChangeField.handled]
  all_goals
    simp only [mutateField] at h
    split at h
    next hz =>
      cases h
      exact ⟨(append_nil ret).symm, fun _ => hz⟩
    · cases h

theorem foldlM_mutateField (fs : List PeerChangeField)
    (h : fs.foldlM (mutateField p) ret = some ret') : ret' = ret ++ fs.flatMap (fieldMutations p) ∧
      ∀ f ∈ fs, f.handled = false → isZero p f = true := by
  induction fs generalizing ret with
  | nil =>
    cases h
    simp
  | cons f fs ih =>
    obtain ⟨mid, hstep, hrun⟩ := foldlM_cons_eq_some.1 h
    obtain ⟨rfl, hz⟩ := mutateField_some hstep
    obtain ⟨rfl, hzs⟩ := ih hrun
    refine ⟨by simp, fun f' hf' => ?_⟩
    rcases mem_cons.1 hf' with rfl | hf'
    · exact hz
    · exact hzs f' hf'

theorem nodeMutationsFromPatch_eq (h : nodeMutationsFromPatch p = some muts) :
    muts = peerChangeFields.flatMap (fieldMutations p) ∧
      ∀ f ∈ peerChangeFields, f.handled = false → isZero p f = true := by
  unfold nodeMutationsFromPatch at h
  split at h
  · cases h
  · exact foldlM_mutateField _ h

variable {m : NodeMutation}

theorem nodeID_of_mem_fieldMutations {f} (h : m ∈ fieldMutations p f) : m.nodeID = p.nodeID := by
  cases f <;> simp only [fieldMutations, not_mem_nil] at h
  case derpRegion =>
    split at h
    · cases h
    · rw [mem_singleton.1 h]
  all_goals
    obtain ⟨v, -, rfl⟩ := Option.map_eq_some_iff.1 (Option.mem_toList.1 h)
    rfl

theorem nodeID_of_mem_nodeMutations (h : nodeMutationsFromPatch p = some muts) (hm : m ∈ muts) :
    m.nodeID = p.nodeID := by
  rw [(nodeMutationsFromPatch_eq h).1] at hm
  obtain ⟨f, -, hf⟩ := mem_flatMap.1 hm
  exact nodeID_of_mem_fieldMutations hf

/-- What the mutations of the single fields of a patch write. -/
theorem all_fieldMutations (p : PeerChange) (g : PatchField) :
    Overwrite.all ((peerChangeFields.flatMap (fieldMutations p)).map (·.change.toOverwrite)) g =
      ((p.lastSeen.bind fun t => (Change.lastSeen t).toOverwrite g).or
        (p.online.bind fun o => (Change.online o).toOverwrite g)).or
        ((p.endpoints.bind fun eps => (Change.endpoints (some eps)).toOverwrite g).or
          (if p.derpRegion = 0 then none else (Change.derpHome p.derpRegion).toOverwrite g)) := by
  have hfields : peerChangeFields.flatMap (fieldMutations p) =
      (fieldMutations p .derpRegion ++ fieldMutations p .endpoints) ++
        (fieldMutations p .online ++ fieldMutations p .lastSeen) := by
    simp [peerChangeFields, fieldMutations]
  have hopt {α : Type} (o : Option α) (mk : α → NodeMutation) :
      Overwrite.all ((o.map mk).toList.map (·.change.toOverwrite)) g =
        o.bind fun a => (mk a).change.toOverwrite g := by
    cases o <;> simp
  rw [hfields]
  simp only [map_append, Overwrite.all_append, Overwrite.andThen_apply, fieldMutations, hopt]
  split <;> simp

/-- Together the mutations of a patch do what the patch does. -/
theorem all_nodeMutations (h : nodeMutationsFromPatch p = some muts) :
    Overwrite.all (muts.map (·.change.toOverwrite)) = p.toOverwrite := by
  obtain ⟨rfl, hz⟩ := nodeMutationsFromPatch_eq h
  have hcap := hz .cap (by decide) rfl
  have hcapMap := hz .capMap (by decide) rfl
  have hkey := hz .key (by decide) rfl
  have hsig := hz .keySignature (by decide) rfl
  have hdisco := hz .discoKey (by decide) rfl
  have hexp := hz .keyExpiry (by decide) rfl
  simp only [isZero, decide_eq_true_eq,
    Option.isNone_iff_eq_none] at hcap hcapMap hkey hsig hdisco hexp
  ext1 g
  rw [all_fieldMutations]
  cases g <;>
    simp [Change.toOverwrite, PeerChange.toOverwrite, hcap, hcapMap, hkey, hsig, hdisco, hexp]
  case endpoints | online | lastSeen => exact Option.map_eq_bind.symm
  all_goals rfl

theorem effectOn_nodeMutationsFromPatch (h : nodeMutationsFromPatch p = some muts) (k : NodeID) :
    effectOn muts k = if p.nodeID = k then p.toOverwrite else .nop := by
  by_cases hk : p.nodeID = k
  · rw [if_pos hk, ← all_nodeMutations h, effectOn, filter_eq_self.2]
    exact fun m hm => by simpa using (nodeID_of_mem_nodeMutations h hm).trans hk
  · rw [if_neg hk]
    exact effectOn_of_forall_ne fun m hm => (nodeID_of_mem_nodeMutations h hm).trans_ne hk

/-! ## The mutations of a response -/

def mapResponseContainsNonPatchFields (res : MapResponse H) : Bool :=
  !res.present.isEmpty || res.peers.isSome || res.peersRemoved.isSome || res.peersChanged.isSome

/-- The loop over `PeersChangedPatch`. -/
def mutationsFromPatches (ps : List PeerChange) (ret : List NodeMutation) :
    Option (List NodeMutation) :=
  ps.foldlM (fun ret p => (nodeMutationsFromPatch p).map (ret ++ ·)) ret

/-- The loop over `OnlineChange`. -/
def onlineMutations (changes : GoMap NodeID Bool) : List NodeMutation :=
  changes.entries.map fun e => ⟨e.1, .online e.2⟩

/-- The loop over `PeerSeenChange`, which passes over the peers that are gone. -/
def seenMutations (now : Time) (changes : GoMap NodeID Bool) : List NodeMutation :=
  (changes.entries.filter (·.2)).map fun e => ⟨e.1, .lastSeen now⟩

/-- `MutationsFromMapResponse`.  A zero `now` stands for the current time `clock`. -/
def mutationsFromMapResponse (res : MapResponse H) (now clock : Time) :
    Option (List NodeMutation) :=
  let now := if now = 0 then clock else now
  if mapResponseContainsNonPatchFields res then none
  else do
    let ret ← mutationsFromPatches res.peersChangedPatch []
    let ret := ret ++ onlineMutations res.onlineChange
    let ret := ret ++ seenMutations now res.peerSeenChange
    return ret.insertionSort fun a b => a.nodeID ≤ b.nodeID

theorem effectOn_mutationsFromPatches (ps : List PeerChange)
    (h : mutationsFromPatches ps ret = some ret') (k : NodeID) :
    effectOn ret' k = (effectOn ret k).andThen
      (.all ((ps.filter (·.nodeID = k)).map PeerChange.toOverwrite)) := by
  induction ps generalizing ret with
  | nil =>
    cases h
    simp
  | cons p ps ih =>
    obtain ⟨mid, hmid, hrun⟩ := foldlM_cons_eq_some.1 h
    obtain ⟨muts, hp, rfl⟩ := Option.map_eq_some_iff.1 hmid
    rw [ih hrun, effectOn_append, effectOn_nodeMutationsFromPatch hp, Overwrite.andThen_assoc]
    by_cases hk : p.nodeID = k <;> simp [hk]

theorem mem_mutationsFromPatches (ps : List PeerChange)
    (h : mutationsFromPatches ps ret = some ret') (hm : m ∈ ret') :
    m ∈ ret ∨ ∃ p ∈ ps, p.nodeID = m.nodeID := by
  induction ps generalizing ret with
  | nil =>
    cases h
    exact .inl hm
  | cons p ps ih =>
    obtain ⟨mid, hmid, hrun⟩ := foldlM_cons_eq_some.1 h
    obtain ⟨muts, hp, rfl⟩ := Option.map_eq_some_iff.1 hmid
    rcases ih hrun with hmid | ⟨q, hq, hid⟩
    · rcases mem_append.1 hmid with hret | hmuts
      · exact .inl hret
      · exact .inr ⟨p, mem_cons_self, (nodeID_of_mem_nodeMutations hp hmuts).symm⟩
    · exact .inr ⟨q, mem_cons_of_mem p hq, hid⟩

theorem effectOn_onlineMutations (changes : GoMap NodeID Bool) (k : NodeID) :
    effectOn (onlineMutations changes) k =
      .all ((changes.lookup k).map fun o => (Change.online o).toOverwrite).toList := by
  rw [← GoMap.map_filter_entries, effectOn, onlineMutations, filter_map, map_map]
  rfl

theorem effectOn_seenMutations (now : Time) (changes : GoMap NodeID Bool) (k : NodeID) :
    effectOn (seenMutations now changes) k =
      if changes.lookup k = some true then (Change.lastSeen now).toOverwrite else .nop := by
  have hkept : changes.entries.filter (·.2) = (changes.deleteWhere fun _ v => !v).entries := by
    simp
  have hall : effectOn (seenMutations now changes) k =
      .all (((changes.deleteWhere fun _ v => !v).lookup k).map
        fun _ => (Change.lastSeen now).toOverwrite).toList := by
    rw [← GoMap.map_filter_entries, effectOn, seenMutations, hkept, filter_map, map_map]
    rfl
  rw [hall, GoMap.lookup_deleteWhere]
  rcases changes.lookup k with - | - | - <;> simp [Option.filter]

variable {res : MapResponse H} {now clock : Time}

variable (h : mutationsFromMapResponse res now clock = some muts)

include h

/-- **What a response does to one node when it is read as mutations**: its
patches, then `OnlineChange`, then `PeerSeenChange` if that says "seen". -/
theorem effectOn_mutationsFromMapResponse (k : NodeID) : effectOn muts k =
      ((Overwrite.all ((res.peersChangedPatch.filter (·.nodeID = k)).map
          PeerChange.toOverwrite)).andThen
        (.all ((res.onlineChange.lookup k).map fun o =>
          (Change.online o).toOverwrite).toList)).andThen
        (if res.peerSeenChange.lookup k = some true then
          (Change.lastSeen (if now = 0 then clock else now)).toOverwrite else .nop) := by
  simp only [mutationsFromMapResponse] at h
  split at h
  · cases h
  · obtain ⟨ret, hret, hmuts⟩ := Option.bind_eq_some_iff.1 h
    cases hmuts
    rw [effectOn, filter_insertionSort NodeMutation.nodeID, ← effectOn, effectOn_append,
      effectOn_append, effectOn_mutationsFromPatches _ hret, effectOn_onlineMutations,
      effectOn_seenMutations, effectOn_nil, Overwrite.nop_andThen]

/-- A response only mutates nodes it mentions. -/
theorem mem_mutationsFromMapResponse (hm : m ∈ muts) :
    (∃ p ∈ res.peersChangedPatch, p.nodeID = m.nodeID) ∨
      (∃ v, res.onlineChange.lookup m.nodeID = some v) ∨
      ∃ v, res.peerSeenChange.lookup m.nodeID = some v := by
  simp only [mutationsFromMapResponse] at h
  split at h
  · cases h
  obtain ⟨ret, hret, hmuts⟩ := Option.bind_eq_some_iff.1 h
  cases hmuts
  rw [mem_insertionSort, mem_append, mem_append] at hm
  rcases hm with (hp | ho) | hs
  · exact .inl ((mem_mutationsFromPatches _ hret hp).resolve_left not_mem_nil)
  · obtain ⟨e, he, rfl⟩ := mem_map.1 ho
    exact .inr (.inl ⟨e.2, GoMap.lookup_eq_some_iff.2 he⟩)
  · obtain ⟨e, he, rfl⟩ := mem_map.1 hs
    exact .inr (.inr ⟨e.2, GoMap.lookup_eq_some_iff.2 (mem_of_mem_filter he)⟩)

/-- A response that is read as mutations has no other content. -/
theorem peers_of_mutationsFromMapResponse :
    res.peers = none ∧ res.peersRemoved = none ∧ res.peersChanged = none := by
  simp only [mutationsFromMapResponse] at h
  split at h
  · cases h
  next hnp =>
    simp only [mapResponseContainsNonPatchFields, Bool.or_eq_true, not_or,
      Option.not_isSome_iff_eq_none] at hnp
    exact ⟨hnp.1.1.2, hnp.1.2, hnp.2⟩

end Multiport.Netmap

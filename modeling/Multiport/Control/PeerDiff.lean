import Multiport.Control.PeerState
import Multiport.Lib.Lists

/-!
# Diffing a peer against a new full node

`peerChangeDiff` (`control/controlclient/map.go`) compares a known peer with a
new full node field by field, in the order of the struct, and either gives up or
returns a patch (none if nothing was found to differ).

* `FieldEq` is the comparison the code makes for one field, and `InspectedEq`
  the equality of all the fields it looks at.
* `diffOverwrite` is what the patch does to the patchable fields;
  `peerChangeDiff_ok` says that a diff that succeeds has that effect and that the
  other fields agree.
* A patch writes "unchanged" as nil or zero, so some transitions cannot be
  expressed by it.  `Expressible` names those that can, and
  `inspectedEq_diff_iff` says that applying the diff arrives at the new node in
  exactly these cases.
-/

namespace Multiport.Control

open Lib Tailcfg List Finmap PatchField MapResponse

variable {H : Type}

/-! ## Fields -/

/-- The fields of `tailcfg.Node`. -/
inductive NodeField where
  | id | stableID | name | user | sharer | key | keyExpiry | keySignature | machine | discoKey
  | addresses | allowedIPs | endpoints | legacyDERPString | homeDERP | hostinfo | created | cap
  | tags | primaryRoutes | lastSeen | online | machineAuthorized | capabilities | capMap
  | unsignedPeerAPIOnly | computedName | computedHostIfDifferent | computedNameWithHost
  | dataPlaneAuditLogID | expired | selfNodeV4MasqAddrForThisPeer | selfNodeV6MasqAddrForThisPeer
  | isWireGuardOnly | isJailed | exitNodeDNSResolvers
deriving DecidableEq, Repr

/-- `nodeFields`: all of them, in struct order. -/
def nodeFields : List NodeField := (range 36).map NodeField.ofNat

theorem mem_nodeFields (f : NodeField) : f ∈ nodeFields := by
  cases f <;> decide

/-- The patchable field a field of the struct is, if it is one. -/
def NodeField.patch? : NodeField → Option PatchField
  | .key => some .key
  | .keyExpiry => some .keyExpiry
  | .keySignature => some .keySignature
  | .discoKey => some .discoKey
  | .endpoints => some .endpoints
  | .homeDERP => some .homeDERP
  | .cap => some .cap
  | .capMap => some .capMap
  | .online => some .online
  | .lastSeen => some .lastSeen
  | _ => none

/-- Equality of one field, as `peerChangeDiff` compares it: slices and maps by
their elements, pointers by what they point to.  It does not look at the computed
names, at `DataPlaneAuditLogID` and at `Capabilities`. -/
def FieldEq (was n : Node H) : NodeField → Prop
  | .id => was.id = n.id
  | .stableID => was.stableID = n.stableID
  | .name => was.name = n.name
  | .user => was.user = n.user
  | .sharer => was.sharer = n.sharer
  | .key => was.key = n.key
  | .keyExpiry => was.keyExpiry = n.keyExpiry
  | .keySignature => was.keySignature.elems = n.keySignature.elems
  | .machine => was.machine = n.machine
  | .discoKey => was.discoKey = n.discoKey
  | .addresses => was.addresses = n.addresses
  | .allowedIPs => was.allowedIPs = n.allowedIPs
  | .endpoints => was.endpoints.elems = n.endpoints.elems
  | .legacyDERPString => was.legacyDERPString = n.legacyDERPString
  | .homeDERP => was.homeDERP = n.homeDERP
  | .hostinfo => was.hostinfo = n.hostinfo
  | .created => was.created = n.created
  | .cap => was.cap = n.cap
  | .tags => was.tags = n.tags
  | .primaryRoutes => was.primaryRoutes = n.primaryRoutes
  | .lastSeen => was.lastSeen = n.lastSeen
  | .online => was.online = n.online
  | .machineAuthorized => was.machineAuthorized = n.machineAuthorized
  | .capMap => was.capMap.getD ∅ = n.capMap.getD ∅
  | .unsignedPeerAPIOnly => was.unsignedPeerAPIOnly = n.unsignedPeerAPIOnly
  | .expired => was.expired = n.expired
  | .selfNodeV4MasqAddrForThisPeer =>
    was.selfNodeV4MasqAddrForThisPeer = n.selfNodeV4MasqAddrForThisPeer
  | .selfNodeV6MasqAddrForThisPeer =>
    was.selfNodeV6MasqAddrForThisPeer = n.selfNodeV6MasqAddrForThisPeer
  | .isWireGuardOnly => was.isWireGuardOnly = n.isWireGuardOnly
  | .isJailed => was.isJailed = n.isJailed
  | .exitNodeDNSResolvers => was.exitNodeDNSResolvers = n.exitNodeDNSResolvers
  | .computedName | .computedHostIfDifferent | .computedNameWithHost | .dataPlaneAuditLogID
  | .capabilities => True

instance [DecidableEq H] (was n : Node H) (f : NodeField) : Decidable (FieldEq was n f) := by
  cases f <;> dsimp only [FieldEq] <;> infer_instance

/-- Equality in every field `peerChangeDiff` inspects. -/
def InspectedEq (m n : Node H) : Prop := ∀ f, FieldEq m n f

/-! ## The diff -/

/-- Why there is no patch: `onFalse` is called for a peer that is not known
("peer_not_found") or with the name of a field, or there is a panic. -/
inductive DiffError where
  | peerNotFound
  | miss (field : NodeField)
  | panicked (msg : String)
deriving DecidableEq, Repr

/-- A write to the patch under construction, which is allocated on the first one:
`pc().F = v`. -/
def edit (ret : Option PeerChange) (f : PeerChange → PeerChange) : Option PeerChange :=
  some (f (ret.getD {}))

/-- The `CapMap` case.  Maps of different lengths differ, and a nil map is then
sent as an empty one; otherwise the values of the old keys are compared. -/
def diffCapMap (was n : Option NodeCapMap) (ret : Option PeerChange) : Option PeerChange :=
  if (n.getD ∅).keys.card ≠ (was.getD ∅).keys.card then
    match n with
    | none => edit ret fun pc => { pc with capMap := some ∅ }
    | some m => edit ret fun pc => { pc with capMap := some m }
  else if ∃ k ∈ (was.getD ∅).keys, (n.getD ∅).lookup k ≠ (was.getD ∅).lookup k then
    edit ret fun pc => { pc with capMap := n }
  else ret

/-- The `Online` and `LastSeen` cases: two set values are compared. -/
def diffPointer {α : Type} [DecidableEq α] (was n : Option α) (ret : Option PeerChange)
    (set : Option α → PeerChange → PeerChange) : Option PeerChange :=
  match was, n with
  | some w, some v => if v ≠ w then edit ret (set (some v)) else ret
  | _, _ => ret

/-- The loop body of `peerChangeDiff`. -/
def diffField [DecidableEq H] (was n : Node H) (ret : Option PeerChange) (field : NodeField) :
    Except DiffError (Option PeerChange) :=
  match field with
  | .computedHostIfDifferent | .computedName | .computedNameWithHost | .dataPlaneAuditLogID
  | .capabilities => .ok ret
  | .key =>
    .ok (if FieldEq was n .key then ret else edit ret fun pc => { pc with key := some n.key })
  | .keyExpiry =>
    .ok (if FieldEq was n .keyExpiry then ret
      else edit ret fun pc => { pc with keyExpiry := some n.keyExpiry })
  | .keySignature =>
    .ok (if FieldEq was n .keySignature then ret
      else edit ret fun pc => { pc with keySignature := n.keySignature })
  | .discoKey =>
    .ok (if FieldEq was n .discoKey then ret
      else edit ret fun pc => { pc with discoKey := some n.discoKey })
  | .endpoints =>
    .ok (if FieldEq was n .endpoints then ret
      else edit ret fun pc => { pc with endpoints := n.endpoints })
  | .homeDERP =>
    .ok (if FieldEq was n .homeDERP then ret
      else edit ret fun pc => { pc with derpRegion := n.homeDERP })
  | .cap => .ok (if FieldEq was n .cap then ret else edit ret fun pc => { pc with cap := n.cap })
  | .capMap => .ok (diffCapMap was.capMap n.capMap ret)
  | .online => .ok (diffPointer was.online n.online ret fun v pc => { pc with online := v })
  | .lastSeen => .ok (diffPointer was.lastSeen n.lastSeen ret fun v pc => { pc with lastSeen := v })
  | .legacyDERPString =>
    if was.legacyDERPString ≠ "" ∨ n.legacyDERPString ≠ "" then
      .error (.panicked "unexpected; caller should've already called upgradeNode")
    else .ok ret
  | field => if FieldEq was n field then .ok ret else .error (.miss field)

def peerChangeDiff [DecidableEq H] (was n : Node H) : Except DiffError (Option PeerChange) := do
  let ret ← nodeFields.foldlM (diffField was n) none
  return ret.map fun pc => { pc with nodeID := n.id }

/-! ## What a diff does -/

/-- What the patch of a successful diff does to the patchable fields. -/
def diffOverwrite (was n : Node H) : Overwrite Val
  | .homeDERP =>
    if was.homeDERP = n.homeDERP then none
    else if n.homeDERP ≠ 0 then some n.homeDERP else none
  | .cap => if was.cap = n.cap then none else if n.cap ≠ 0 then some n.cap else none
  | .capMap =>
    if was.capMap.getD ∅ = n.capMap.getD ∅ then none else some (some (n.capMap.getD ∅))
  | .endpoints =>
    if was.endpoints.elems = n.endpoints.elems then none else n.endpoints.map some
  | .key => if was.key = n.key then none else some n.key
  | .keySignature =>
    if was.keySignature.elems = n.keySignature.elems then none else n.keySignature.map some
  | .discoKey => if was.discoKey = n.discoKey then none else some n.discoKey
  | .online =>
    if was.online = none ∨ n.online = none ∨ was.online = n.online then none
    else n.online.map some
  | .lastSeen =>
    if was.lastSeen = none ∨ n.lastSeen = none ∨ was.lastSeen = n.lastSeen then none
    else n.lastSeen.map some
  | .keyExpiry => if was.keyExpiry = n.keyExpiry then none else some n.keyExpiry

/-- The effect of the patch under construction. -/
def effect (ret : Option PeerChange) : Overwrite Val := (ret.getD {}).toOverwrite

theorem effect_none : effect none = .nop := by
  ext1 g
  cases g <;> rfl

theorem eq_of_lookup_keys {was n : NodeCapMap} (hc : n.keys.card = was.keys.card)
    (hl : ∀ k ∈ was.keys, n.lookup k = was.lookup k) : was = n := by
  have hsub : was.keys ⊆ n.keys := by
    intro k hk
    rw [Finmap.mem_keys, ← Finmap.lookup_isSome] at hk ⊢
    rw [hl k (mem_keys.2 (lookup_isSome.1 hk))]
    exact hk
  have hkeys : was.keys = n.keys := Finset.eq_of_subset_of_card_le hsub hc.le
  refine ext_lookup fun k => ?_
  by_cases hk : k ∈ was.keys
  · exact (hl k hk).symm
  · have hn : k ∉ n.keys := hkeys ▸ hk
    rw [lookup_eq_none.2 hk, lookup_eq_none.2 hn]

/-- The `CapMap` case sends the new map exactly when the maps differ. -/
theorem diffCapMap_eq (was n : Option NodeCapMap) (ret : Option PeerChange) :
    diffCapMap was n ret =
      if was.getD ∅ = n.getD ∅ then ret
      else edit ret fun pc => { pc with capMap := some (n.getD ∅) } := by
  unfold diffCapMap
  by_cases hc : (n.getD ∅).keys.card = (was.getD ∅).keys.card
  · rw [if_neg (not_not.2 hc)]
    by_cases hl : ∃ k ∈ (was.getD ∅).keys, (n.getD ∅).lookup k ≠ (was.getD ∅).lookup k
    · have hne : was.getD ∅ ≠ n.getD ∅ := by
        obtain ⟨k, -, hk⟩ := hl
        exact fun h => hk (by rw [h])
      rw [if_pos hl, if_neg hne]
      cases n with
      | some m => rfl
      | none =>
        have hempty : (was.getD ∅).keys = ∅ := Finset.card_eq_zero.1 (by simpa using hc.symm)
        simp [hempty] at hl
    · have hkeys : ∀ k ∈ (was.getD ∅).keys, (n.getD ∅).lookup k = (was.getD ∅).lookup k :=
        fun k hk => by_contra fun h => hl ⟨k, hk, h⟩
      rw [if_neg hl, if_pos (eq_of_lookup_keys hc hkeys)]
  · rw [if_pos hc, if_neg fun h => hc (by rw [h])]
    cases n <;> rfl

variable {α : Type}

theorem diffPointer_eq [DecidableEq α] (was n : Option α) (ret : Option PeerChange)
    (set : Option α → PeerChange → PeerChange) : diffPointer was n ret set =
      if was = none ∨ n = none ∨ was = n then ret else edit ret (set n) := by
  cases was with
  | none => rfl
  | some w =>
    cases n with
    | none => rfl
    | some v => by_cases h : v = w <;> simp [diffPointer, eq_comm (a := w)]

section Diff

variable [DecidableEq H] {was n : Node H} {ret ret' : Option PeerChange}

variable {f : NodeField}

/-- A step of the diff that goes through on a field no patch can write has found
it unchanged and leaves the patch alone. -/
theorem diffField_rest (hf : f.patch? = none) (h : diffField was n ret f = .ok ret') :
    FieldEq was n f ∧ ret' = ret := by
  cases f
  case legacyDERPString =>
    simp only [diffField] at h
    split at h
    · cases h
    next hl =>
      rw [not_or, not_not, not_not] at hl
      cases h
      exact ⟨hl.1.trans hl.2.symm, rfl⟩
  all_goals first
    | exact absurd hf (by decide)
    | (cases h; exact ⟨trivial, rfl⟩)
    | (simp only [diffField] at h
       split at h
       next he => cases h; exact ⟨he, rfl⟩
       · cases h)

/-- Two overwrites that differ at most in the field `g`. -/
def AgreeExcept (g : PatchField) (o p : Overwrite Val) : Prop := ∀ i, i ≠ g → o i = p i

theorem effect_write {c : Prop} [Decidable c] {f : PeerChange → PeerChange} {g}
    {v} (hret : effect ret g = none) (hg : ∀ pc, (f pc).toOverwrite g = v)
    (hf : ∀ pc, AgreeExcept g (f pc).toOverwrite pc.toOverwrite) :
    effect (if c then ret else edit ret f) g = (if c then none else v) ∧
      AgreeExcept g (effect (if c then ret else edit ret f)) (effect ret) := by
  by_cases hc : c
  · rw [if_pos hc, if_pos hc]
    exact ⟨hret, fun i _ => rfl⟩
  · rw [if_neg hc, if_neg hc]
    exact ⟨hg _, hf _⟩

/-- A step of the diff on a patchable field goes through and adds that field's
part of `diffOverwrite`. -/
theorem diffField_patch {g} (hf : f.patch? = some g) (hret : effect ret g = none)
    (h : diffField was n ret f = .ok ret') :
    effect ret' g = diffOverwrite was n g ∧ AgreeExcept g (effect ret') (effect ret) := by
  cases f <;> cases hf
  all_goals
    simp only [diffField, diffCapMap_eq, diffPointer_eq] at h
    cases h
    refine effect_write hret (fun pc => rfl) fun pc i hi => ?_
    cases i <;> first | rfl | exact absurd rfl hi

/-- The loop of the diff: it adds the parts of `diffOverwrite` for the fields it
passes, and finds the fields that no patch can write unchanged. -/
theorem foldlM_diffField (fs : List NodeField) (hfs : (fs.filterMap NodeField.patch?).Nodup)
    (hret : ∀ g ∈ fs.filterMap NodeField.patch?, effect ret g = none)
    (h : fs.foldlM (diffField was n) ret = .ok ret') :
    (∀ f ∈ fs, f.patch? = none → FieldEq was n f) ∧
      (∀ g ∈ fs.filterMap NodeField.patch?, effect ret' g = diffOverwrite was n g) ∧
      ∀ g ∉ fs.filterMap NodeField.patch?, effect ret' g = effect ret g := by
  induction fs generalizing ret with
  | nil =>
    cases h
    simp
  | cons f fs ih =>
    obtain ⟨mid, hstep, hrun⟩ := foldlM_cons_eq_ok.1 h
    cases hf : f.patch? with
    | none =>
      rw [filterMap_cons_none hf] at hfs hret ⊢
      obtain ⟨hsame, rfl⟩ := diffField_rest hf hstep
      obtain ⟨h₁, h₂, h₃⟩ := ih hfs hret hrun
      refine ⟨fun f' hf' hp => ?_, h₂, h₃⟩
      rcases mem_cons.1 hf' with rfl | hf'
      · exact hsame
      · exact h₁ f' hf' hp
    | some g =>
      rw [filterMap_cons_some hf] at hfs hret ⊢
      obtain ⟨hg, hfs⟩ := nodup_cons.1 hfs
      obtain ⟨hwrite, hagree⟩ := diffField_patch hf (hret g mem_cons_self) hstep
      have hmid : ∀ i ∈ fs.filterMap NodeField.patch?, effect mid i = none := by
        intro i hi
        rw [hagree i (ne_of_mem_of_not_mem hi hg)]
        exact hret i (mem_cons_of_mem g hi)
      obtain ⟨h₁, h₂, h₃⟩ := ih hfs hmid hrun
      refine ⟨fun f' hf' hp => ?_, fun i hi => ?_, fun i hi => ?_⟩
      · rcases mem_cons.1 hf' with rfl | hf'
        · cases hf.symm.trans hp
        · exact h₁ f' hf' hp
      · rcases mem_cons.1 hi with rfl | hi
        · rw [h₃ i hg, hwrite]
        · exact h₂ i hi
      · rw [mem_cons, not_or] at hi
        rw [h₃ i hi.2, hagree i hi.1]

/-- **A diff that succeeds.**  The fields no patch can write agree, and the patch
has the effect `diffOverwrite` and is for the node it was made for. -/
theorem peerChangeDiff_ok {pc} (h : peerChangeDiff was n = .ok pc) :
    (∀ f : NodeField, f.patch? = none → FieldEq was n f) ∧ effect pc = diffOverwrite was n ∧
      ∀ p ∈ pc, p.nodeID = n.id := by
  obtain ⟨ret, hrun, h⟩ := bind_eq_ok_iff.1 h
  cases h
  have hnone : ∀ g ∈ nodeFields.filterMap NodeField.patch?, effect none g = none := by
    intro g _
    rw [effect_none, Overwrite.nop_apply]
  obtain ⟨h₁, h₂, -⟩ := foldlM_diffField nodeFields (by decide) hnone hrun
  refine ⟨fun f => h₁ f (mem_nodeFields f), ?_, ?_⟩
  · ext1 g
    rw [← h₂ g (by cases g <;> decide)]
    cases ret <;> cases g <;> rfl
  · simp

/-- Why a diff fails: a field no patch can write has changed, or a node still has
its `LegacyDERPString`. -/
def Unpatchable (was n : Node H) : DiffError → Prop
  | .peerNotFound => False
  | .miss f => f.patch? = none ∧ ¬ FieldEq was n f
  | .panicked _ => was.legacyDERPString ≠ "" ∨ n.legacyDERPString ≠ ""

variable {e : DiffError}

theorem diffField_error (h : diffField was n ret f = .error e) : Unpatchable was n e := by
  cases f
  case legacyDERPString =>
    simp only [diffField] at h
    split at h
    next hl =>
      cases h
      exact hl
    · cases h
  all_goals first
    | cases h
    | (simp only [diffField] at h
       split at h
       · cases h
       next hne => cases h; exact ⟨rfl, hne⟩)

/-- **A diff that fails** says why. -/
theorem peerChangeDiff_error (h : peerChangeDiff was n = .error e) : Unpatchable was n e := by
  unfold peerChangeDiff at h
  cases hrun : nodeFields.foldlM (diffField was n) none with
  | error e' =>
    rw [hrun] at h
    cases h
    obtain ⟨f, -, ret, hf⟩ := exists_of_foldlM_eq_error hrun
    exact diffField_error hf
  | ok ret =>
    rw [hrun] at h
    cases h

end Diff

/-! ## Which updates survive -/

/-- The transitions of a patchable field that a patch can express.  Nil and zero
mean "unchanged", so a slice cannot be cleared to nil and a number not be set to
zero; and `Online` and `LastSeen` are only compared when both nodes have them. -/
def Expressible (was n : Node H) : PatchField → Prop
  | .homeDERP => was.homeDERP ≠ n.homeDERP → n.homeDERP ≠ 0
  | .cap => was.cap ≠ n.cap → n.cap ≠ 0
  | .endpoints => was.endpoints.elems ≠ n.endpoints.elems → n.endpoints ≠ none
  | .keySignature => was.keySignature.elems ≠ n.keySignature.elems → n.keySignature ≠ none
  | .online => was.online.isSome = n.online.isSome
  | .lastSeen => was.lastSeen.isSome = n.lastSeen.isSome
  | .capMap | .key | .discoKey | .keyExpiry => True

theorem getD_written [DecidableEq α] (a b : α) : (if a = b then none else some b).getD a = b := by
  by_cases h : a = b <;> simp [h]

theorem getD_nonzero_eq_iff (a b : Int) :
    (if a = b then none else if b ≠ 0 then some b else none).getD a = b ↔ (a ≠ b → b ≠ 0) := by
  by_cases h : a = b <;> by_cases h₀ : b = 0 <;> simp_all

theorem elems_getD_eq_iff [DecidableEq α] (a b : Slice α) :
    Slice.elems ((if a.elems = b.elems then none else b.map some).getD a) = b.elems ↔
      (a.elems ≠ b.elems → b ≠ none) := by
  by_cases h : a.elems = b.elems
  · simp [h]
  · cases b with
    | none | some l => simp [h]

theorem getD_pointer_eq_iff [DecidableEq α] (a b : Option α) :
    (if a = none ∨ b = none ∨ a = b then none else b.map some).getD a = b ↔
      a.isSome = b.isSome := by
  cases a with
  | none => cases b <;> simp
  | some x =>
    cases b with
    | none => simp
    | some y => by_cases h : x = y <;> simp [h]

/-- A map that is written, with nil as empty, whenever it differs. -/
theorem getD_capMap_eq (a b : Option NodeCapMap) :
    ((if a.getD ∅ = b.getD ∅ then none else some (some (b.getD ∅))).getD a).getD ∅ =
      b.getD ∅ := by
  by_cases h : a.getD ∅ = b.getD ∅ <;> simp [h]

/-- A patchable field of the patched node is that of the new node exactly when
its transition can be expressed. -/
theorem fieldEq_overwrite_diff (was n : Node H) {f : NodeField} {g} (hf : f.patch? = some g) :
    FieldEq (was.overwrite (diffOverwrite was n)) n f ↔ Expressible was n g := by
  cases f <;> cases hf
  case homeDERP => exact getD_nonzero_eq_iff was.homeDERP n.homeDERP
  case cap => exact getD_nonzero_eq_iff was.cap n.cap
  case endpoints => exact elems_getD_eq_iff was.endpoints n.endpoints
  case keySignature => exact elems_getD_eq_iff was.keySignature n.keySignature
  case online => exact getD_pointer_eq_iff was.online n.online
  case lastSeen => exact getD_pointer_eq_iff was.lastSeen n.lastSeen
  case capMap => exact iff_true_intro (getD_capMap_eq was.capMap n.capMap)
  case key => exact iff_true_intro (getD_written was.key n.key)
  case discoKey => exact iff_true_intro (getD_written was.discoKey n.discoKey)
  case keyExpiry => exact iff_true_intro (getD_written was.keyExpiry n.keyExpiry)

/-- Where the other fields agree, the patched node is the new node exactly when
every transition can be expressed. -/
theorem inspectedEq_diff_iff {was n : Node H}
    (hrest : ∀ f : NodeField, f.patch? = none → FieldEq was n f) :
    InspectedEq (was.overwrite (diffOverwrite was n)) n ↔ ∀ g, Expressible was n g := by
  constructor
  · intro h g
    obtain ⟨f, hf⟩ : ∃ f : NodeField, f.patch? = some g := by
      have hg : g ∈ nodeFields.filterMap NodeField.patch? := by cases g <;> decide
      obtain ⟨f, -, hf⟩ := mem_filterMap.1 hg
      exact ⟨f, hf⟩
    exact (fieldEq_overwrite_diff was n hf).1 (h f)
  · intro h f
    cases hf : f.patch? with
    | none =>
      -- an overwrite does not touch the fields no patch can write
      have hsame := hrest f hf
      cases f <;> first | exact absurd hf (by decide) | exact hsame
    | some g => exact (fieldEq_overwrite_diff was n hf).2 (h g)

/-! ## Applying a diff -/

section Applied

variable [DecidableEq H]

/-- A response that is only the result of a diff changes the diffed peer by the
effect of the patch. -/
theorem lookup_applied (ms : MapSession H) (now : Time) {was n : Node H} {pc}
    (hw : ms.peers.lookup n.id = some was) (hd : peerChangeDiff was n = .ok pc) :
    (ms.updatePeersStateFromResponse now { peersChangedPatch := pc.toList }).1.peers.lookup n.id =
      some (was.overwrite (diffOverwrite was n)) := by
  obtain ⟨-, heff, hid⟩ := peerChangeDiff_ok hd
  rw [MapSession.lookup_updatePeers _ _ _ rfl]
  have hb : base ({ peersChangedPatch := pc.toList } : MapResponse H) ms.peers n.id =
      some was := hw
  rw [hb, ← heff]
  cases pc with
  | none => rw [effect_none]; rfl
  | some p =>
    have hp : p.nodeID = n.id := hid p rfl
    simp [overrides, seenOnline, patchesFor, hp, effect]

/-- **Diff and apply.**  Applying the diff of a peer and a new full node arrives
at the new node, in every field the diff inspects, exactly when every changed
field went to a value that a patch can express. -/
theorem peerChangeDiff_applied_iff (ms : MapSession H) (now : Time) (was n : Node H)
    (pc : Option PeerChange) (hw : ms.peers.lookup n.id = some was)
    (hd : peerChangeDiff was n = .ok pc) :
    (∃ m, (ms.updatePeersStateFromResponse now
        { peersChangedPatch := pc.toList }).1.peers.lookup n.id = some m ∧ InspectedEq m n) ↔
      ∀ g, Expressible was n g := by
  rw [lookup_applied ms now hw hd, ← inspectedEq_diff_iff (peerChangeDiff_ok hd).1]
  simp

end Applied

/-- A peer with one endpoint and a home DERP region. -/
def peerWithEndpoint : Node Unit :=
  { id := 1, endpoints := some [⟨.v4 0x0a000001#32, 1⟩], homeDERP := 1 }

/-- The session that has received that peer. -/
def sessionWithEndpoint : MapSession Unit :=
  (newMapSession.updatePeersStateFromResponse 0 { peers := some [peerWithEndpoint] }).1

/-- A changed home region and a changed endpoint arrive. -/
theorem peerChangeDiff_applied_moved :
    ∃ m, (sessionWithEndpoint.updatePeersStateFromResponse 0
        { peersChangedPatch :=
          [{ nodeID := 1, derpRegion := 2,
             endpoints := some [⟨.v4 0x0a000002#32, 2⟩] }] }).1.peers.lookup 1 = some m ∧
      InspectedEq m
        { id := 1, endpoints := some [⟨.v4 0x0a000002#32, 2⟩], homeDERP := 2 } :=
  (peerChangeDiff_applied_iff sessionWithEndpoint 0 peerWithEndpoint
      { id := 1, endpoints := some [⟨.v4 0x0a000002#32, 2⟩], homeDERP := 2 }
      (some { nodeID := 1, derpRegion := 2, endpoints := some [⟨.v4 0x0a000002#32, 2⟩] })
      rfl rfl).2 (by intro g; cases g <;> simp [Expressible, peerWithEndpoint])

/-- A new node without endpoints gives an empty patch: the peer keeps its old endpoint. -/
theorem peerChangeDiff_cleared_endpoints :
    sessionWithEndpoint.peers.lookup 1 = some peerWithEndpoint ∧
      peerChangeDiff peerWithEndpoint { id := 1, homeDERP := 1 } = .ok (some { nodeID := 1 }) ∧
      ¬ ∃ m, (sessionWithEndpoint.updatePeersStateFromResponse 0
          { peersChangedPatch := [{ nodeID := 1 }] }).1.peers.lookup 1 = some m ∧
        InspectedEq m { id := 1, homeDERP := 1 } := by
  refine ⟨rfl, rfl, ?_⟩
  rintro ⟨m, hm, heq⟩
  cases hm
  exact absurd (heq .endpoints) (by decide)

end Multiport.Control

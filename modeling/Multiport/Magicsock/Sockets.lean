import Multiport.Magicsock.Knobs

/-!
# The auxiliary sockets

Each address family has one auxiliary socket and a number of extra ones.  They
are bound together or one by one, and every binding is numbered with a new
generation.  A source is the id of a socket and the generation of its binding;
other tables keep sources after the socket has moved on.

For all interleavings of the operations, no two bindings are the same source, and a
source that has been rebound is never rebound again.  The exception are the
sources of generation zero, which are of sockets that were never bound.
Generations are natural numbers: the `uint64` of the source does not wrap in a run.
-/

namespace Multiport.Magicsock

open Lib List SourceRxMeta

/-! ## Sockets -/

def sourceIPv4SocketID : Nat := 1

def sourceIPv6SocketID : Nat := 2

def sourceIPv4ExtraSocketIDBase : Nat := 100

def sourceIPv6ExtraSocketIDBase : Nat := 200

/-- What a `RebindingUDPConn` wraps. -/
inductive PConn where
  | none | closed | blockForever | udp
deriving DecidableEq, Repr

/-- `sourcePathSocket`, with its bound flag. -/
structure SourcePathSocket where
  id : Nat := 0
  generation : Nat := 0
  pconn : PConn := .none
  bound : Bool := false
deriving DecidableEq, Repr

def SourcePathSocket.rxMeta (s : SourcePathSocket) : SourceRxMeta := ⟨s.id, s.generation⟩

/-- The sockets of a family: `aux4` and `extraAux4`, or `aux6` and `extraAux6`. -/
structure SocketFamily where
  aux : SourcePathSocket := {}
  extraAux : List SourcePathSocket := []
deriving DecidableEq, Repr

structure SourcePathState where
  generation : Nat := 0
  family4 : SocketFamily := {}
  family6 : SocketFamily := {}
deriving DecidableEq, Repr

namespace SocketFamily

/-- The sockets in the order of `forEachSourcePathSocketLocked`. -/
def sockets (f : SocketFamily) : List SourcePathSocket := f.aux :: f.extraAux

/-- Change all sockets, knowing their indices. -/
def mapIdx (f : SocketFamily) (g : Nat → SourcePathSocket → SourcePathSocket) : SocketFamily where
  aux := g 0 f.aux
  extraAux := f.extraAux.mapIdx fun i => g (i + 1)

/-- Change the socket with an index. -/
def modify (f : SocketFamily) (i : Nat) (g : SourcePathSocket → SourcePathSocket) : SocketFamily :=
  match i with
  | 0 => { f with aux := g f.aux }
  | i + 1 => { f with extraAux := f.extraAux.modify i g }

end SocketFamily

def sourcePathAuxSocketID (is4 : Bool) (index : Nat) : Nat :=
  if index = 0 then if is4 then sourceIPv4SocketID else sourceIPv6SocketID
  else if is4 then sourceIPv4ExtraSocketIDBase + (index - 1)
  else sourceIPv6ExtraSocketIDBase + (index - 1)

/-- A socket after it was bound, or after the attempt.  If it failed, reading from
it blocks. -/
def SourcePathSocket.rebind (generation : Nat) (ok : Bool) (s : SourcePathSocket) :
    SourcePathSocket :=
  { s with generation, bound := ok, pconn := if ok then .udp else .blockForever }

/-- `closeSourcePathPConnLocked`, with the bound flag. -/
def SourcePathSocket.close (s : SourcePathSocket) : SourcePathSocket :=
  { s with bound := false, pconn := if s.pconn = .none then .none else .closed }

/-- `errSourcePathUnavailable` and the errors of `listenPacket`. -/
inductive SocketErr where
  | unavailable | listen
deriving DecidableEq, Repr

namespace SourcePathState

variable (st : SourcePathState)

def family (is4 : Bool) : SocketFamily :=
  if is4 then st.family4 else st.family6

def setFamily (is4 : Bool) (f : SocketFamily) : SourcePathState :=
  if is4 then { st with family4 := f } else { st with family6 := f }

/-- A family of the right size: sockets at the end are closed and dropped, or
added, and all get their ids. -/
def ensureFamily (is4 : Bool) (wantExtra : Nat) (f : SocketFamily) : SocketFamily :=
  let f := { f with
    extraAux := f.extraAux.take wantExtra ++
      replicate (wantExtra - f.extraAux.length) ({} : SourcePathSocket) }
  f.mapIdx fun i s => { s with id := sourcePathAuxSocketID is4 i }

def ensureSourcePathAuxSocketCountLocked (count : Int) : SourcePathState :=
  let count := if count < 1 then 1 else count
  let count := if count > sourcePathMaxAuxSockets then sourcePathMaxAuxSockets else count
  let wantExtra := (count - 1).toNat
  { st with
    family4 := ensureFamily true wantExtra st.family4
    family6 := ensureFamily false wantExtra st.family6 }

/-- The family and the index of the socket with the id. -/
def sourcePathSocketSlotLocked (id : Nat) : Option (Bool × Nat) :=
  if id = sourceIPv4SocketID then some (true, 0)
  else if id = sourceIPv6SocketID then some (false, 0)
  else if (sourceIPv4ExtraSocketIDBase ≤ id ∧
      (id : Int) < sourceIPv4ExtraSocketIDBase + sourcePathMaxAuxSockets) ∧
      id - sourceIPv4ExtraSocketIDBase < st.family4.extraAux.length then
    some (true, id - sourceIPv4ExtraSocketIDBase + 1)
  else if (sourceIPv6ExtraSocketIDBase ≤ id ∧
      (id : Int) < sourceIPv6ExtraSocketIDBase + sourcePathMaxAuxSockets) ∧
      id - sourceIPv6ExtraSocketIDBase < st.family6.extraAux.length then
    some (false, id - sourceIPv6ExtraSocketIDBase + 1)
  else none

def sourcePathProbeSources (k : Knobs) (st : SourcePathState) (is4 : Bool) : List SourceRxMeta :=
  if k.sourcePathAuxSocketCount = 0 then []
  else ((st.family is4).sockets.filter SourcePathSocket.bound).map SourcePathSocket.rxMeta

/-- Every socket of the family gets the new generation, whether it can be bound or not. -/
def bindSourcePathSocketFamilyLocked (is4 : Bool) (ok : Nat → Bool) : SourcePathState :=
  st.setFamily is4 ((st.family is4).mapIdx fun i => .rebind st.generation (ok i))

def closeSourcePathSockets : SourcePathState :=
  { st with
    family4 := st.family4.mapIdx fun _ => .close
    family6 := st.family6.mapIdx fun _ => .close }

/-- `ok4` and `ok6` say which sockets can be bound.  The error is left out: nothing
of the state depends on it. -/
def rebindSourcePathSockets (k : Knobs) (st : SourcePathState) (ok4 ok6 : Nat → Bool) :
    SourcePathState :=
  if k.sourcePathAuxSocketCount = 0 then st.closeSourcePathSockets
  else
    let st := st.ensureSourcePathAuxSocketCountLocked k.sourcePathAuxSocketCount
    let st := { st with generation := st.generation + 1 }
    (st.bindSourcePathSocketFamilyLocked true ok4).bindSourcePathSocketFamilyLocked false ok6

/-- Rebind the socket of a source, if it is still the current one.  The result is
the current source, whether it was rebound, and an error. -/
def rebindSourcePathSocket (k : Knobs) (st : SourcePathState) (source : SourceRxMeta) (ok : Bool) :
    SourcePathState × SourceRxMeta × Bool × Option SocketErr :=
  if k.sourcePathAuxSocketCount = 0 ∨ source.isPrimary then (st, {}, false, some .unavailable)
  else match st.sourcePathSocketSlotLocked source.socketID with
    | none => (st, {}, false, some .unavailable)
    | some (is4, i) =>
      let current := ((st.family is4).sockets.getD i {}).rxMeta
      if source ≠ current then (st, current, false, none)
      else
        let st := { st with generation := st.generation + 1 }
        let family := (st.family is4).modify i (.rebind st.generation ok)
        (st.setFamily is4 family, (family.sockets.getD i {}).rxMeta, true,
          if ok then none else some .listen)

end SourcePathState

/-! ## Operations -/

inductive SocketOp where
  | rebindSourcePathSockets (k : Knobs) (ok4 ok6 : Nat → Bool)
  | rebindSourcePathSocket (k : Knobs) (source : SourceRxMeta) (ok : Bool)
  | ensureSourcePathAuxSocketCountLocked (count : Int)
  | closeSourcePathSockets

/-- An operation with the sources that it bound, and whether it was a
`rebindSourcePathSocket` that found its source to be current. -/
structure SocketEvent where
  op : SocketOp
  bindings : List SourceRxMeta
  rebound : Bool

def SourcePathState.boundSources (st : SourcePathState) (is4 : Bool) : List SourceRxMeta :=
  ((st.family is4).sockets.filter SourcePathSocket.bound).map SourcePathSocket.rxMeta

namespace SocketOp

/-- The state after an operation, the sources it bound and whether it rebound one. -/
def exec (st : SourcePathState) : SocketOp → SourcePathState × List SourceRxMeta × Bool
  | rebindSourcePathSockets k ok4 ok6 =>
    let st' := st.rebindSourcePathSockets k ok4 ok6
    -- without auxiliary sockets this is a close, and otherwise all are bound anew
    (st', st'.boundSources true ++ st'.boundSources false, false)
  | rebindSourcePathSocket k source ok =>
    let (st', current, rebound, err) := st.rebindSourcePathSocket k source ok
    (st', if rebound ∧ err = none then [current] else [], rebound)
  | ensureSourcePathAuxSocketCountLocked count =>
    (st.ensureSourcePathAuxSocketCountLocked count, [], false)
  | closeSourcePathSockets => (st.closeSourcePathSockets, [], false)

end SocketOp

def SocketStep (st : SourcePathState) (e : SocketEvent) (st' : SourcePathState) : Prop :=
  e.op.exec st = (st', e.bindings, e.rebound)

def SocketEvent.Rebinds (e : SocketEvent) (source : SourceRxMeta) : Prop :=
  e.rebound = true ∧ ∃ k ok, e.op = .rebindSourcePathSocket k source ok

/-! ## Slots -/

section Slots

variable {st st' : SourcePathState} {b b' : Bool} {i j : Nat} {s s' : SourcePathSocket}

theorem SocketFamily.sockets_mapIdx (f : SocketFamily)
    (g : Nat → SourcePathSocket → SourcePathSocket) :
    (f.mapIdx g).sockets = f.sockets.mapIdx g := by
  rw [sockets, sockets, mapIdx_cons, mapIdx]

theorem SocketFamily.sockets_modify (f : SocketFamily) (i : Nat)
    (g : SourcePathSocket → SourcePathSocket) :
    (f.modify i g).sockets = f.sockets.modify i g := by
  cases i <;> rfl

namespace SourcePathState

variable (st)

@[simp] theorem family_setFamily (f : SocketFamily) :
    (st.setFamily b f).family b' = if b = b' then f else st.family b' := by
  cases b <;> cases b' <;> rfl

@[simp] theorem generation_setFamily (f : SocketFamily) :
    (st.setFamily b f).generation = st.generation := by
  cases b <;> rfl

/-- The socket at an index of a family. -/
def Slot (b : Bool) (i : Nat) (s : SourcePathSocket) : Prop :=
  (st.family b).sockets[i]? = some s

variable {st}

theorem slot_mapIdx {g}
    (h : ((st.family b).mapIdx g).sockets[i]? = some s') : ∃ s, st.Slot b i s ∧ s' = g i s := by
  rw [SocketFamily.sockets_mapIdx, getElem?_mapIdx, Option.map_eq_some_iff] at h
  obtain ⟨s, hs, rfl⟩ := h
  exact ⟨s, hs, rfl⟩

theorem slot_modify {g} (h : ((st.family b).modify i g).sockets[j]? = some s') :
    ∃ s, st.Slot b j s ∧ s' = if i = j then g s else s := by
  rw [SocketFamily.sockets_modify, getElem?_modify, Option.map_eq_map,
    Option.map_eq_some_iff] at h
  obtain ⟨s, hs, rfl⟩ := h
  exact ⟨s, hs, rfl⟩

/-- The sockets have their ids or are still unused, and there are not too many. -/
structure Numbered (st : SourcePathState) : Prop where
  length : ∀ b, (st.family b).sockets.length ≤ 32
  id : ∀ {b i s}, st.Slot b i s → s.id = sourcePathAuxSocketID b i ∨ s = {}
  generation : ∀ {b i s}, st.Slot b i s → s.generation ≤ st.generation

theorem Numbered.lt (h : Numbered st) (hs : st.Slot b i s) : i < 32 :=
  lt_of_lt_of_le (List.getElem?_eq_some_iff.1 hs).1 (h.length b)

end SourcePathState

theorem sourcePathAuxSocketID_inj (hi : i < 32) (hj : j < 32)
    (h : sourcePathAuxSocketID b i = sourcePathAuxSocketID b' j) : b = b' ∧ i = j := by
  unfold sourcePathAuxSocketID sourceIPv4SocketID sourceIPv6SocketID sourceIPv4ExtraSocketIDBase
    sourceIPv6ExtraSocketIDBase at h
  cases b <;> cases b' <;> simp only [Bool.false_eq_true, if_false, if_true] at h <;>
    split at h <;> split at h <;> simp <;> omega

theorem sourcePathAuxSocketID_ne_zero : sourcePathAuxSocketID b i ≠ 0 := by
  unfold sourcePathAuxSocketID sourceIPv4SocketID sourceIPv6SocketID sourceIPv4ExtraSocketIDBase
    sourceIPv6ExtraSocketIDBase
  cases b <;> simp <;> split <;> omega

theorem SourcePathState.Numbered.slot_eq (h : st.Numbered) (hs : st.Slot b i s)
    (hs' : st.Slot b' j s') (hne : s.id ≠ 0) (hid : s.id = s'.id) : b = b' ∧ i = j := by
  have hi : s.id = sourcePathAuxSocketID b i :=
    (h.id hs).resolve_right fun e => hne (by rw [e])
  have hj : s'.id = sourcePathAuxSocketID b' j :=
    (h.id hs').resolve_right fun e => hne (by rw [hid, e])
  exact sourcePathAuxSocketID_inj (h.lt hs) (h.lt hs') (by rw [← hi, ← hj, hid])

end Slots

/-! ## What an operation does -/

section Effect

open SourcePathState

variable {st st' : SourcePathState} {e : SocketEvent} {b : Bool} {i : Nat}
  {s s' : SourcePathSocket}

/-- Where the socket at a slot comes from: it is unused, it was there before, or it
has the new generation. -/
inductive Origin (st st' : SourcePathState) (bindings : List SourceRxMeta) (b : Bool) (i : Nat)
    (s' : SourcePathSocket) : Prop
  | unused (hgen : s'.generation = 0) (hbound : s'.bound = false)
  | kept (s : SourcePathSocket) (hs : st.Slot b i s) (hmeta : s'.rxMeta = s.rxMeta)
      (hbound : s'.bound = true → s.bound = true)
  | rebound (hlt : st.generation < st'.generation) (hgen : s'.generation = st'.generation)
      (hbound : s'.bound = true → s'.rxMeta ∈ bindings)

/-- What every operation does to the sockets. -/
structure Effect (st : SourcePathState) (bindings : List SourceRxMeta) (st' : SourcePathState) :
    Prop where
  generation : st.generation ≤ st'.generation
  numbered : st'.Numbered
  origin : ∀ {b i s'}, st'.Slot b i s' → Origin st st' bindings b i s'
  new : ∀ m ∈ bindings, st.generation < m.generation ∧ m.generation = st'.generation
  nodup : (bindings.map socketID).Nodup

theorem family_close (b : Bool) : st.closeSourcePathSockets.family b =
    (st.family b).mapIdx fun _ => .close := by
  cases b <;> rfl

theorem effect_close (h : st.Numbered) : Effect st [] st.closeSourcePathSockets where
  generation := le_refl _
  numbered := {
    length := by
      intro b
      rw [family_close, SocketFamily.sockets_mapIdx, length_mapIdx]
      exact h.length b
    id := by
      intro b i s' hs'
      obtain ⟨s, hs, rfl⟩ := slot_mapIdx (by rwa [← family_close b])
      rcases h.id hs with hid | rfl
      · exact .inl hid
      · exact .inr rfl
    generation := by
      intro b i s' hs'
      obtain ⟨s, hs, rfl⟩ := slot_mapIdx (by rwa [← family_close b])
      have hle := h.generation hs
      exact hle }
  origin := by
    intro b i s' hs'
    obtain ⟨s, hs, rfl⟩ := slot_mapIdx (by rwa [← family_close b])
    exact .kept s hs rfl fun hb => Bool.noConfusion hb
  new := by simp
  nodup := nodup_nil

/-- A socket of a family of the right size was there before or is unused. -/
theorem getElem?_ensureFamily {f} {wantExtra : Nat}
    (h : (SourcePathState.ensureFamily b wantExtra f).sockets[i]? = some s') :
    ∃ s, (f.sockets[i]? = some s ∨ s = {}) ∧ s' = { s with id := sourcePathAuxSocketID b i } := by
  unfold SourcePathState.ensureFamily at h
  rw [SocketFamily.sockets_mapIdx, getElem?_mapIdx, Option.map_eq_some_iff] at h
  obtain ⟨s, hs, rfl⟩ := h
  refine ⟨s, ?_, rfl⟩
  cases i with
  | zero => exact .inl hs
  | succ i =>
    rw [SocketFamily.sockets, getElem?_cons_succ, getElem?_append] at hs
    split at hs
    · rw [getElem?_take] at hs
      split at hs
      · exact .inl hs
      · cases hs
    · exact .inr (eq_of_mem_replicate (mem_of_getElem? hs))

theorem length_ensureFamily_le (b : Bool) {wantExtra : Nat} (h : wantExtra ≤ 31)
    (f : SocketFamily) : (ensureFamily b wantExtra f).sockets.length ≤ 32 := by
  unfold ensureFamily
  rw [SocketFamily.sockets_mapIdx, length_mapIdx, SocketFamily.sockets, length_cons,
    length_append, length_take, length_replicate]
  omega

theorem ensure_id {count : Int} (hs : (st.ensureSourcePathAuxSocketCountLocked count).Slot b i s') :
    ∃ s, (st.Slot b i s ∨ s = {}) ∧ s' = { s with id := sourcePathAuxSocketID b i } := by
  cases b <;> exact getElem?_ensureFamily hs

theorem effect_ensure (h : st.Numbered) (count : Int) :
    Effect st [] (st.ensureSourcePathAuxSocketCountLocked count) where
  generation := le_refl _
  numbered := {
    length := by
      have hwant : ((if (if count < 1 then 1 else count) > sourcePathMaxAuxSockets then
          sourcePathMaxAuxSockets else (if count < 1 then 1 else count)) - 1).toNat ≤ 31 := by
        unfold sourcePathMaxAuxSockets
        split <;> omega
      intro b
      cases b
      · exact length_ensureFamily_le false hwant _
      · exact length_ensureFamily_le true hwant _
    id := by
      intro b i s' hs'
      obtain ⟨s, -, rfl⟩ := ensure_id hs'
      exact .inl rfl
    generation := by
      intro b i s' hs'
      obtain ⟨s, hs | rfl, rfl⟩ := ensure_id hs'
      · have hle := h.generation hs
        exact hle
      · exact Nat.zero_le _ }
  origin := by
    intro b i s' hs'
    obtain ⟨s, hs | rfl, rfl⟩ := ensure_id hs'
    · rcases h.id hs with hid | rfl
      · exact .kept s hs (by rw [SourcePathSocket.rxMeta, SourcePathSocket.rxMeta, hid]) id
      · exact .unused rfl rfl
    · exact .unused rfl rfl
  new := by simp
  nodup := nodup_nil

/-- Operations in sequence, of which the first binds nothing. -/
theorem Effect.trans {st₁} {bindings}
    (h : Effect st [] st₁) (hg : st₁.generation = st.generation) (h' : Effect st₁ bindings st') :
    Effect st bindings st' where
  generation := hg ▸ h'.generation
  numbered := h'.numbered
  origin := by
    intro b i s' hs'
    cases h'.origin hs' with
    | unused hgen hbound => exact .unused hgen hbound
    | rebound hlt hgen hbound => exact .rebound (hg ▸ hlt) hgen hbound
    | kept s₁ hs₁ hmeta hbound =>
      cases h.origin hs₁ with
      | unused hgen hno =>
        refine .unused ((congrArg SourceRxMeta.generation hmeta).trans hgen) ?_
        rw [← Bool.not_eq_true]
        intro hb
        rw [hbound hb] at hno
        cases hno
      | kept s hs hmeta' hbound' =>
        exact .kept s hs (hmeta.trans hmeta') fun hb => hbound' (hbound hb)
      | rebound hlt => exact absurd hg (ne_of_gt hlt)
  new := hg ▸ h'.new
  nodup := h'.nodup

theorem nodup_boundSources (h : st.Numbered) (b : Bool) :
    ((st.boundSources b).map socketID).Nodup := by
  rw [boundSources, map_map]
  refine pairwise_map.2 (pairwise_filter.2 (pairwise_iff_getElem.2 ?_))
  intro i j hi hj hlt hbi hbj heq
  have hsi : st.Slot b i _ := getElem?_eq_getElem hi
  have hsj : st.Slot b j _ := getElem?_eq_getElem hj
  rcases h.id hsi with hid | hdef
  · refine absurd (h.slot_eq hsi hsj ?_ heq).2 (ne_of_lt hlt)
    rw [hid]
    exact sourcePathAuxSocketID_ne_zero
  · rw [hdef] at hbi
    cases hbi

theorem mem_boundSources {m} :
    m ∈ st.boundSources b ↔ ∃ i s, st.Slot b i s ∧ s.bound = true ∧ s.rxMeta = m := by
  rw [boundSources, mem_map]
  constructor
  · rintro ⟨s, hmem, hm⟩
    obtain ⟨hs, hb⟩ := mem_filter.1 hmem
    obtain ⟨i, hi⟩ := mem_iff_getElem?.1 hs
    exact ⟨i, s, hi, hb, hm⟩
  · rintro ⟨i, s, hs, hb, hm⟩
    exact ⟨s, mem_filter.2 ⟨mem_of_getElem? hs, hb⟩, hm⟩

/-- The state in which all sockets have been bound, or failed to. -/
theorem effect_bind (h : st.Numbered) (hg : st'.generation = st.generation + 1)
    (ok : Bool → Nat → Bool) (h' : ∀ b, st'.family b =
      (st.family b).mapIdx fun i => .rebind st'.generation (ok b i))
    (hids : ∀ {b i s}, st.Slot b i s → s.id = sourcePathAuxSocketID b i) :
    Effect st (st'.boundSources true ++ st'.boundSources false) st' := by
  have hslot : ∀ {b i s'}, st'.Slot b i s' →
      s'.id = sourcePathAuxSocketID b i ∧ s'.generation = st'.generation := by
    intro b i s' hs'
    obtain ⟨s, hs, rfl⟩ := slot_mapIdx (by rwa [← h' b])
    have hid := hids hs
    exact ⟨hid, rfl⟩
  have hnum : st'.Numbered :=
    { length := by
        intro b
        rw [h' b, SocketFamily.sockets_mapIdx, length_mapIdx]
        exact h.length b
      id := fun hs' => .inl (hslot hs').1
      generation := fun hs' => (hslot hs').2.le }
  have hlt : st.generation < st'.generation := hg ▸ Nat.lt_succ_self _
  refine ⟨hlt.le, hnum, fun {b i s'} hs' => .rebound hlt (hslot hs').2 fun hb => ?_,
    fun m hm => ?_, ?_⟩
  · rw [mem_append, mem_boundSources, mem_boundSources]
    cases b with
    | true => exact .inl ⟨i, s', hs', hb, rfl⟩
    | false => exact .inr ⟨i, s', hs', hb, rfl⟩
  · rw [mem_append, mem_boundSources, mem_boundSources] at hm
    have hgen : m.generation = st'.generation := by
      rcases hm with ⟨i, s, hs, -, rfl⟩ | ⟨i, s, hs, -, rfl⟩ <;> exact (hslot hs).2
    exact ⟨hgen ▸ hlt, hgen⟩
  · rw [map_append]
    refine (nodup_boundSources hnum true).append (nodup_boundSources hnum false) ?_
    intro id h4 h6
    obtain ⟨m, hm, rfl⟩ := mem_map.1 h4
    obtain ⟨m', hm', heq⟩ := mem_map.1 h6
    obtain ⟨i, s, hs, -, rfl⟩ := mem_boundSources.1 hm
    obtain ⟨j, t, ht, -, rfl⟩ := mem_boundSources.1 hm'
    have hid := (hslot hs).1 ▸ sourcePathAuxSocketID_ne_zero
    exact Bool.noConfusion (hnum.slot_eq hs ht hid heq.symm).1

theorem effect_rebindAll (h : st.Numbered) (k : Knobs) (ok4 ok6 : Nat → Bool) :
    Effect st ((st.rebindSourcePathSockets k ok4 ok6).boundSources true ++
        (st.rebindSourcePathSockets k ok4 ok6).boundSources false)
      (st.rebindSourcePathSockets k ok4 ok6) := by
  unfold rebindSourcePathSockets
  split
  · have hnone : ∀ b, st.closeSourcePathSockets.boundSources b = [] := by
      intro b
      refine eq_nil_iff_forall_not_mem.2 fun m hm => ?_
      obtain ⟨i, s', hs', hb, -⟩ := mem_boundSources.1 hm
      obtain ⟨s, -, rfl⟩ := slot_mapIdx (by rwa [← family_close b])
      cases hb
    rw [hnone, hnone]
    exact effect_close h
  · have hens := effect_ensure h k.sourcePathAuxSocketCount
    refine hens.trans rfl ?_
    refine effect_bind hens.numbered rfl (fun b => if b then ok4 else ok6) ?_ ?_
    · intro b
      cases b <;> rfl
    · intro b i s hs
      obtain ⟨s, -, rfl⟩ := ensure_id hs
      rfl

/-- The state after the socket at a slot got a new generation. -/
def rebindSlot (st : SourcePathState) (b : Bool) (i : Nat) (ok : Bool) : SourcePathState :=
  { st with generation := st.generation + 1 }.setFamily b
    ((st.family b).modify i (.rebind (st.generation + 1) ok))

theorem rebindSourcePathSocket_cases (st : SourcePathState) (k : Knobs)
    (source : SourceRxMeta) (ok : Bool) :
    (∃ current err, st.rebindSourcePathSocket k source ok = (st, current, false, err)) ∨
      ∃ b i s, st.Slot b i s ∧ s.rxMeta = source ∧ source.socketID ≠ 0 ∧
        st.rebindSourcePathSocket k source ok =
          (rebindSlot st b i ok, ⟨source.socketID, st.generation + 1⟩, true,
            if ok then none else some .listen) := by
  unfold rebindSourcePathSocket
  split
  · exact .inl ⟨_, _, rfl⟩
  next hguard =>
    split
    · exact .inl ⟨_, _, rfl⟩
    next b i hslot =>
      dsimp only
      split
      · exact .inl ⟨_, _, rfl⟩
      next hcurrent =>
        have hsource : source = ((st.family b).sockets.getD i {}).rxMeta :=
          not_not.1 hcurrent
        have hne : source.socketID ≠ 0 := fun hz => hguard (.inr (decide_eq_true hz))
        rw [getD_eq_getElem?_getD] at hsource
        cases hs : (st.family b).sockets[i]? with
        | none =>
          rw [hs] at hsource
          exact absurd (congrArg socketID hsource) hne
        | some s =>
          rw [hs] at hsource
          refine .inr ⟨b, i, s, hs, hsource.symm, hne, ?_⟩
          have hnew : ((st.family b).modify i (.rebind (st.generation + 1)
              ok)).sockets.getD i {} = .rebind (st.generation + 1) ok s := by
            rw [SocketFamily.sockets_modify, getD_eq_getElem?_getD, getElem?_modify, hs]
            simp
          have hfam : ({ st with generation := st.generation + 1 }).family b =
              st.family b := by cases b <;> rfl
          rw [hfam, hnew, hsource]
          rfl

/-- The slots after one socket was rebound. -/
theorem slot_rebindSlot {ok b' : Bool} {j : Nat} (h : (rebindSlot st b i ok).Slot b' j s') :
    ∃ s, st.Slot b' j s ∧
      s' = if b = b' ∧ i = j then .rebind (st.generation + 1) ok s else s := by
  unfold rebindSlot Slot at h
  rw [family_setFamily] at h
  split at h
  next hb =>
    subst hb
    obtain ⟨s, hs, rfl⟩ := slot_modify h
    exact ⟨s, hs, by simp⟩
  next hb =>
    refine ⟨s', ?_, by simp [hb]⟩
    cases b' <;> exact h

theorem effect_rebindSlot (h : st.Numbered) (hs : st.Slot b i s) (hne : s.id ≠ 0) (ok : Bool) :
    Effect st (if ok then [⟨s.id, st.generation + 1⟩] else []) (rebindSlot st b i ok) := by
  have hgen : (rebindSlot st b i ok).generation = st.generation + 1 := by
    rw [rebindSlot, generation_setFamily]
  refine ⟨by omega, ⟨fun b' => ?_, fun {b' j s'} hs' => ?_, fun {b' j s'} hs' => ?_⟩,
    fun {b' j s'} hs' => ?_, ?_, ?_⟩
  · rw [rebindSlot, family_setFamily]
    split
    next hb =>
      rw [SocketFamily.sockets_modify, length_modify]
      exact h.length b
    · cases b' <;> exact h.length _
  · obtain ⟨t, ht, rfl⟩ := slot_rebindSlot hs'
    split
    next heq =>
      obtain ⟨rfl, rfl⟩ := heq
      cases hs.symm.trans ht
      exact .inl ((h.id hs).resolve_right fun e => hne (by rw [e]))
    · exact h.id ht
  · obtain ⟨t, ht, rfl⟩ := slot_rebindSlot hs'
    rw [hgen]
    split
    · exact le_refl _
    · exact (h.generation ht).trans (Nat.le_succ _)
  · obtain ⟨t, ht, rfl⟩ := slot_rebindSlot hs'
    by_cases heq : b = b' ∧ i = j
    · rw [if_pos heq]
      obtain ⟨rfl, rfl⟩ := heq
      cases hs.symm.trans ht
      refine .rebound (by omega) hgen.symm fun hb => ?_
      have hok : ok = true := hb
      rw [if_pos hok]
      exact mem_cons_self
    · rw [if_neg heq]
      exact .kept t ht rfl id
  · intro m hm
    split at hm
    · obtain rfl := mem_singleton.1 hm
      exact ⟨Nat.lt_succ_self _, hgen.symm⟩
    · cases hm
  · split <;> simp

/-- **What every operation does.** -/
theorem effect_of_step (h : st.Numbered) (hstep : SocketStep st e st') :
    Effect st e.bindings st' := by
  rcases e with ⟨op, bindings, rebound⟩
  cases op with
  | rebindSourcePathSockets k ok4 ok6 =>
    cases hstep
    exact effect_rebindAll h k ok4 ok6
  | rebindSourcePathSocket k source ok =>
    rcases rebindSourcePathSocket_cases st k source ok with
      ⟨current, err, heq⟩ | ⟨b, i, s, hs, rfl, hne, heq⟩
    · simp only [SocketStep, SocketOp.exec, heq] at hstep
      cases hstep
      exact ⟨le_refl _, h, fun hs => .kept _ hs rfl id, by simp, nodup_nil⟩
    · simp only [SocketStep, SocketOp.exec, heq] at hstep
      cases hstep
      have heff := effect_rebindSlot h hs hne ok
      cases ok <;> simpa [SourcePathSocket.rxMeta] using heff
  | ensureSourcePathAuxSocketCountLocked count =>
    cases hstep
    exact effect_ensure h count
  | closeSourcePathSockets =>
    cases hstep
    exact effect_close h

theorem stale_of_rebinds (h : st.Numbered) (hstep : SocketStep st e st') {m} (hm : e.Rebinds m) :
    m.generation ≤ st.generation ∧ ∀ {b i s}, st'.Slot b i s → s.rxMeta ≠ m := by
  rcases e with ⟨op, bindings, rebound⟩
  obtain ⟨hrebound, k, ok, hop⟩ := hm
  obtain rfl : rebound = true := hrebound
  obtain rfl : op = .rebindSourcePathSocket k m ok := hop
  rcases rebindSourcePathSocket_cases st k m ok with
    ⟨current, err, heq⟩ | ⟨b, i, s, hs, rfl, hne, heq⟩
  · simp only [SocketStep, SocketOp.exec, heq] at hstep
    cases hstep
  simp only [SocketStep, SocketOp.exec, heq] at hstep
  cases hstep
  refine ⟨h.generation hs, fun {b' j s'} hs' hmeta => ?_⟩
  obtain ⟨t, ht, rfl⟩ := slot_rebindSlot hs'
  split at hmeta
  · have hgen : st.generation + 1 = s.generation := congrArg SourceRxMeta.generation hmeta
    have hle := h.generation hs
    omega
  next hother =>
    exact hother (h.slot_eq hs ht hne (congrArg socketID hmeta).symm)

end Effect

/-! ## Runs -/

section Runs

open SourcePathState

variable {st st' : SourcePathState} {evs : List SocketEvent} {e : SocketEvent}

/-- The sources that were bound, in the order in which they were. -/
def bindingLog (evs : List SocketEvent) : List SourceRxMeta := evs.flatMap SocketEvent.bindings

/-- One binding before another: generations grow, and a socket that is bound again
has a new one. -/
def Precedes (m n : SourceRxMeta) : Prop :=
  m.generation ≤ n.generation ∧ (m.socketID = n.socketID → m.generation < n.generation)

/-- What holds after every run. -/
structure SocketsInv (evs : List SocketEvent) (st : SourcePathState) : Prop where
  numbered : st.Numbered
  log : (bindingLog evs).Pairwise Precedes
  old : ∀ m ∈ bindingLog evs, m.generation ≤ st.generation
  live : ∀ {b i s}, st.Slot b i s → s.bound = true → s.rxMeta ∈ bindingLog evs
  stale : ∀ {m : SourceRxMeta}, m.generation ≠ 0 → (∃ e ∈ evs, e.Rebinds m) →
    m.generation ≤ st.generation ∧ ∀ {b i s}, st.Slot b i s → s.rxMeta ≠ m

theorem bindingLog_concat (evs : List SocketEvent) (e : SocketEvent) :
    bindingLog (evs ++ [e]) = bindingLog evs ++ e.bindings := by
  simp [bindingLog]

theorem slot_empty {b : Bool} {i : Nat} {s : SourcePathSocket}
    (h : ({} : SourcePathState).Slot b i s) : s = {} := by
  cases b <;> exact mem_singleton.1 (mem_of_getElem? h)

theorem socketsInv_empty : SocketsInv [] {} where
  numbered :=
    { length := fun b => by cases b <;> decide
      id := fun hs => .inr (slot_empty hs)
      generation := fun hs => by rw [slot_empty hs] }
  log := .nil
  old := by simp [bindingLog]
  live := by
    intro b i s hs hb
    rw [slot_empty hs] at hb
    cases hb
  stale := by simp

/-- The bindings of one operation are of different sockets. -/
theorem Effect.precedes {bindings} (h : Effect st bindings st') : bindings.Pairwise Precedes := by
  refine (pairwise_map.1 h.nodup).imp_of_mem fun {m n} hm hn hne => ⟨?_, fun e => absurd e hne⟩
  rw [(h.new m hm).2, (h.new n hn).2]

theorem SocketsInv.step (h : SocketsInv evs st) (hstep : SocketStep st e st') :
    SocketsInv (evs ++ [e]) st' := by
  have heff := effect_of_step h.numbered hstep
  constructor
  · exact heff.numbered
  · rw [bindingLog_concat]
    refine pairwise_append.2 ⟨h.log, heff.precedes, fun m hm n hn => ?_⟩
    have hlt := lt_of_le_of_lt (h.old m hm) (heff.new n hn).1
    exact ⟨hlt.le, fun _ => hlt⟩
  · rw [bindingLog_concat, forall_mem_append]
    exact ⟨fun m hm => (h.old m hm).trans heff.generation, fun m hm => (heff.new m hm).2.le⟩
  · intro b i s hs hb
    rw [bindingLog_concat, mem_append]
    cases heff.origin hs with
    | unused _ hno =>
      cases hb.symm.trans hno
    | kept t ht hmeta hbound =>
      rw [hmeta]
      exact .inl (h.live ht (hbound hb))
    | rebound _ _ hmem => exact .inr (hmem hb)
  · rintro m hm ⟨e', he', hreb⟩
    rcases mem_append.1 he' with hold | hnew
    · obtain ⟨hle, hne⟩ := h.stale hm ⟨e', hold, hreb⟩
      refine ⟨hle.trans heff.generation, fun {b i s} hs hmeta => ?_⟩
      cases heff.origin hs with
      | unused hgen => exact hm (by rw [← hmeta]; exact hgen)
      | kept t ht hmeta' => exact hne ht (hmeta'.symm.trans hmeta)
      | rebound hlt hgen =>
        have hmg : s.generation = m.generation := congrArg SourceRxMeta.generation hmeta
        omega
    · obtain rfl := mem_singleton.1 hnew
      obtain ⟨hle, hne⟩ := stale_of_rebinds h.numbered hstep hreb
      exact ⟨hle.trans heff.generation, hne⟩

theorem socketsInv_of_run (h : Run SocketStep {} evs st) : SocketsInv evs st :=
  Run.invariant (I := SocketsInv) socketsInv_empty (fun _ _ _ _ hI hs => hI.step hs) h

theorem SocketsInv.rebind_stale (h : SocketsInv evs st) {m}
    (hm : m.generation ≠ 0) (hreb : ∃ e ∈ evs, e.Rebinds m) (k : Knobs) (ok : Bool) :
    ∃ current err, st.rebindSourcePathSocket k m ok = (st, current, false, err) := by
  rcases rebindSourcePathSocket_cases st k m ok with hsame | ⟨b, i, s, hs, hmeta, -, -⟩
  · exact hsame
  · exact absurd hmeta ((h.stale hm hreb).2 hs)

theorem rebinds_once {m} (hm : m.generation ≠ 0) (h : Run SocketStep {} evs st) :
    evs.Pairwise fun e e' => e.Rebinds m → ¬e'.Rebinds m := by
  induction h with
  | nil => exact .nil
  | @snoc evs st st' e hrun hstep ih =>
    refine pairwise_append.2 ⟨ih, pairwise_singleton _ _, ?_⟩
    rintro e₁ he₁ e₂ he₂ h₁ ⟨hrebound, k, ok, hop⟩
    obtain rfl := mem_singleton.1 he₂
    obtain ⟨current, err, heq⟩ :=
      (socketsInv_of_run hrun).rebind_stale hm ⟨e₁, he₁, h₁⟩ k ok
    rw [SocketStep, hop] at hstep
    simp only [SocketOp.exec, heq, Prod.mk.injEq] at hstep
    rw [← hstep.2.2] at hrebound
    cases hrebound

theorem nodup_of_precedes {l : List SourceRxMeta} (h : l.Pairwise Precedes) : l.Nodup :=
  h.imp fun hp e => absurd (hp.2 (congrArg _ e)) (by rw [e]; exact lt_irrefl _)

theorem nodup_sourcePathProbeSources (h : st.Numbered) (k : Knobs) (is4 : Bool) :
    (st.sourcePathProbeSources k is4).Nodup := by
  unfold sourcePathProbeSources
  split
  · exact nodup_nil
  · exact (nodup_boundSources h is4).of_map _

theorem mem_sourcePathProbeSources (k : Knobs) (is4 : Bool) (m : SourceRxMeta) :
    m ∈ st.sourcePathProbeSources k is4 ↔ k.sourcePathAuxSocketCount ≠ 0 ∧
      ∃ s ∈ (st.family is4).sockets, s.bound = true ∧ s.rxMeta = m := by
  unfold sourcePathProbeSources
  split
  next hz => simp [hz]
  next hz =>
    simp [hz, and_assoc]

/-- **The sources, for every interleaving.**  No two bindings are the same source,
and generations grow.  The sources to probe are those of the bound sockets, each
once, unless there are to be no auxiliary sockets.  A source with a generation is
rebound at most once; later attempts change nothing. -/
theorem sources_of_run (evs : List SocketEvent) (st : SourcePathState)
    (hrun : Run SocketStep {} evs st) :
    (bindingLog evs).Nodup ∧ (bindingLog evs).Pairwise Precedes ∧
      (∀ e st', SocketStep st e st' → st.generation ≤ st'.generation) ∧
      (∀ k is4, (st.sourcePathProbeSources k is4).Nodup ∧
        ∀ m, m ∈ st.sourcePathProbeSources k is4 ↔ k.sourcePathAuxSocketCount ≠ 0 ∧
          ∃ s ∈ (st.family is4).sockets, s.bound = true ∧ s.rxMeta = m) ∧
      (∀ is4, ∀ s ∈ (st.family is4).sockets, s.bound = true → s.rxMeta ∈ bindingLog evs) ∧
      ∀ m : SourceRxMeta, m.generation ≠ 0 →
        (evs.Pairwise fun e e' => e.Rebinds m → ¬e'.Rebinds m) ∧
          ((∃ e ∈ evs, e.Rebinds m) → ∀ k ok, ∃ current err,
            st.rebindSourcePathSocket k m ok = (st, current, false, err)) := by
  have hinv := socketsInv_of_run hrun
  refine ⟨nodup_of_precedes hinv.log, hinv.log, fun e st' hs => ?_, fun k is4 => ?_,
    fun is4 s hs hb => ?_, fun m hm => ?_⟩
  · exact (effect_of_step hinv.numbered hs).generation
  · exact ⟨nodup_sourcePathProbeSources hinv.numbered k is4, mem_sourcePathProbeSources k is4⟩
  · obtain ⟨i, hi⟩ := mem_iff_getElem?.1 hs
    exact hinv.live hi hb
  · exact ⟨rebinds_once hm hrun, fun hreb k ok => hinv.rebind_stale hm hreb k ok⟩

/-- An operation after the events so far. -/
def socketExec (st : List SocketEvent × SourcePathState) (op : SocketOp) :
    List SocketEvent × SourcePathState :=
  let (st', bindings, rebound) := op.exec st.2
  (st.1 ++ [⟨op, bindings, rebound⟩], st')

theorem run_socketExec (ops : List SocketOp) {st : List SocketEvent × SourcePathState}
    (h : Run SocketStep {} st.1 st.2) :
    Run SocketStep {} (ops.foldl socketExec st).1 (ops.foldl socketExec st).2 := by
  induction ops generalizing st with
  | nil => exact h
  | cons op ops ih => exact ih (h.snoc rfl)

/-- All sockets are bound, and one of them is rebound. -/
def rotateOps : List SocketOp :=
  [.rebindSourcePathSockets {} (fun _ => true) (fun i => i = 0),
    .rebindSourcePathSocket {} ⟨100, 1⟩ true, .rebindSourcePathSocket {} ⟨100, 1⟩ true]

theorem sources_rotateOps :
    (rotateOps.foldl socketExec ([], {})).1.map SocketEvent.rebound = [false, true, false] ∧
      (bindingLog (rotateOps.foldl socketExec ([], {})).1).Nodup :=
  ⟨by decide, (sources_of_run _ _ (run_socketExec rotateOps .nil)).1⟩

/-- A socket that is dropped and made again has generation zero twice. -/
def recreateOps : List SocketOp :=
  [.ensureSourcePathAuxSocketCountLocked 2, .rebindSourcePathSocket {} ⟨100, 0⟩ true,
    .ensureSourcePathAuxSocketCountLocked 1, .ensureSourcePathAuxSocketCountLocked 2,
    .rebindSourcePathSocket {} ⟨100, 0⟩ true]

/-- The events of these operations and the state after them. -/
def recreated : List SocketEvent × SourcePathState := recreateOps.foldl socketExec ([], {})

/-- A source of generation zero is rebound twice, and without auxiliary sockets to
use, a bound socket is not among the sources. -/
theorem rebinds_twice :
    Run SocketStep {} recreated.1 recreated.2 ∧
      (¬recreated.1.Pairwise fun e e' => e.Rebinds ⟨100, 0⟩ → ¬e'.Rebinds ⟨100, 0⟩) ∧
      recreated.2.boundSources true = [⟨100, 2⟩] ∧
      recreated.2.sourcePathProbeSources { enable := some false } true = [] := by
  refine ⟨run_socketExec recreateOps .nil, fun h => ?_, by decide, by decide⟩
  have hsub : [⟨.rebindSourcePathSocket {} ⟨100, 0⟩ true, [⟨100, 1⟩], true⟩,
      ⟨.rebindSourcePathSocket {} ⟨100, 0⟩ true, [⟨100, 2⟩], true⟩].Sublist recreated.1 :=
    .cons _ (.cons_cons _ (.cons _ (.cons _ (.cons_cons _ .slnil))))
  have htwo := h.sublist hsub
  exact (pairwise_cons.1 htwo).1 _ mem_cons_self ⟨rfl, _, _, rfl⟩ ⟨rfl, _, _, rfl⟩

end Runs

end Multiport.Magicsock

import Multiport.Lib.Lists
import Multiport.Lib.Segments
import Multiport.Magicsock.Geneve

/-!
# Coalescing datagrams for a write

`coalesceMessages` (`net/batching/conn_linux.go`) packs the datagrams of one
`WriteBatchTo` into messages that the kernel cuts up again (generic segmentation
offload): all datagrams of a message have its GSO size, but for a shorter last one.
`coalesceMessages_spec` says that the kernel sends what was written.
-/

namespace Multiport.Batching

open Lib Magicsock List

def udpSegmentMaxDatagrams : Nat := 64

def maxIPv4PayloadLen : Nat := 2 ^ 16 - 1 - 20 - 8

def maxIPv6PayloadLen : Nat := 2 ^ 16 - 1 - 8

/-- `unix.SizeofCmsghdr`. -/
def sizeofCmsghdr : Nat := 16

/-- `unix.CmsgSpace`. -/
def cmsgSpace (datalen : Nat) : Nat := sizeofCmsghdr + (datalen + 7) / 8 * 8

def controlMessageSize : Nat := cmsgSpace 2 + cmsgSpace 4

/-- A control buffer: its capacity, and the control message `UDP_SEGMENT` if there is one. -/
structure Control where
  cap : Nat := controlMessageSize
  gsoSize : Option (BitVec 16) := none
deriving DecidableEq, Repr

/-- `net.UDPAddr`. -/
structure UDPAddr where
  ip : Bytes
  port : Nat := 0
deriving DecidableEq, Repr

/-- `net.IP.To4`. -/
def to4 (ip : Bytes) : Option Bytes :=
  if ip.length = 4 then some ip
  else if ip.length = 16 ∧ ip.take 12 = List.replicate 10 0 ++ [0xff, 0xff] then some (ip.drop 12)
  else none

/-- The local `maxPayloadLen` of `coalesceMessages`. -/
def maxPayloadLen (addr : UDPAddr) : Nat :=
  if (to4 addr.ip).isNone then maxIPv6PayloadLen else maxIPv4PayloadLen

/-- `ipv6.Message`. -/
structure Message where
  buffers : List Bytes := [[]]
  oob : Control := {}
  addr : Option UDPAddr := none
deriving DecidableEq, Repr

def setGSOSizeInControl (control : Control) (gsoSize : BitVec 16) : Control :=
  if control.cap < sizeofCmsghdr ∨ control.cap < controlMessageSize then
    { control with gsoSize := none }
  else { control with gsoSize := some gsoSize }

/-- The state of the loop of `coalesceMessages`: `msgs` is split at `base`. -/
structure Coalescing where
  done : List Message
  base : Message
  rest : List Message
  gsoSize : Nat
  dgramCnt : Nat
  endBatch : Bool
  coalescedLen : Nat

/-- What the loop does to `buff` first: the header is written into it, or the room for a
header is left off.  A failure of `Encode` is ignored. -/
def datagram (geneve : GeneveHeader) (offset : Nat) (buff : Bytes) : Bytes :=
  if geneve.vni.isSet then (geneve.encode buff).toOption.getD buff else buff.drop offset

/-- `buff` begins the next message; there is a panic where no message is left. -/
def startBatch (addr : UDPAddr) (buff : Bytes) (done : List Message) :
    List Message → Option Coalescing
  | [] => none
  | msg :: rest => some
      { done
        base := { msg with
          oob := { msg.oob with gsoSize := none }
          buffers := msg.buffers.set 0 buff
          addr := some addr }
        rest
        gsoSize := buff.length
        dgramCnt := 1
        endBatch := false
        coalescedLen := buff.length }

namespace Coalescing

/-- The control messages of `msgs[base]` with its GSO size. -/
def oobWithGSO (s : Coalescing) : Control :=
  setGSOSizeInControl s.base.oob (BitVec.ofNat 16 s.gsoSize)

/-- `buff` is appended to `msgs[base]`; `last` is `i == len(buffs)-1`. -/
def append (last : Bool) (s : Coalescing) (buff : Bytes) : Coalescing :=
  { s with
    base := { s.base with
      buffers := s.base.buffers ++ [buff]
      oob := if last then s.oobWithGSO else s.base.oob }
    dgramCnt := s.dgramCnt + 1
    coalescedLen := s.coalescedLen + buff.length
    endBatch := decide (buff.length < s.gsoSize) }

/-- `msgs[base]` when the next message begins. -/
def closed (s : Coalescing) : Message :=
  { s.base with oob := if 1 < s.dgramCnt then s.oobWithGSO else s.base.oob }

/-- One turn of the loop, after the first. -/
def step (addr : UDPAddr) (last : Bool) (s : Coalescing) (buff : Bytes) : Option Coalescing :=
  if buff.length + s.coalescedLen ≤ maxPayloadLen addr ∧ buff.length ≤ s.gsoSize ∧
      s.dgramCnt < udpSegmentMaxDatagrams ∧ s.endBatch = false then some (s.append last buff)
  else startBatch addr buff (s.done ++ [s.closed]) s.rest

/-- The loop of `coalesceMessages`, after the first turn. -/
def loop (addr : UDPAddr) : List Bytes → Coalescing → Option Coalescing
  | [], s => some s
  | buff :: buffs, s => (s.step addr buffs.isEmpty buff).bind (loop addr buffs)

end Coalescing

/-- `coalesceMessages`: `msgs` as they are left, and how many of them are to be sent. -/
def coalesceMessages (addr : UDPAddr) (geneve : GeneveHeader) (buffs : List Bytes)
    (msgs : List Message) (offset : Nat) : Option (List Message × Nat) :=
  match buffs.map (datagram geneve offset) with
  | [] => some (msgs, 0)
  | buff :: buffs => do
    let s ← startBatch addr buff [] msgs
    let s ← s.loop addr buffs
    return (s.done ++ s.base :: s.rest, s.done.length + 1)

namespace Message

/-- The datagrams that the kernel sends for a message. -/
def sent (m : Message) : List Bytes :=
  segments (m.oob.gsoSize.elim 0 BitVec.toNat) m.buffers.flatten

/-- A slot of the pool: one buffer, and room for the control message. -/
def Ready (m : Message) : Prop := m.buffers.length = 1 ∧ controlMessageSize ≤ m.oob.cap

/-- A message to `addr` that the kernel takes, and cuts up into its buffers. -/
structure Fits (addr : UDPAddr) (m : Message) : Prop where
  sent : m.sent = m.buffers
  count : m.sent.length ≤ udpSegmentMaxDatagrams
  size : m.buffers.flatten.length ≤ maxPayloadLen addr
  gso : m.oob.gsoSize.isSome ↔ 1 < m.sent.length
  addr : m.addr = some addr

end Message

/-- The buffers `ds` can be sent with the GSO size `gsoSize`; if `full`, the last one has
that size too. -/
structure Batch (limit gsoSize : Nat) (full : Bool) (ds : List Bytes) : Prop where
  pos : 0 < ds.length
  count : ds.length ≤ udpSegmentMaxDatagrams
  size : ds.flatten.length ≤ limit
  shape : ∃ bs b, ds = bs ++ [b] ∧ (∀ c ∈ bs, c.length = gsoSize) ∧
    0 < b.length ∧ b.length ≤ gsoSize ∧ (full = true → b.length = gsoSize)

namespace Batch

variable {limit gsoSize : Nat} {full : Bool} {ds : List Bytes} {b : Bytes}

theorem single (hpos : 0 < b.length) (hle : b.length ≤ limit) : Batch limit b.length true [b] :=
  ⟨by simp, Nat.le_add_left 1 63, by simpa using hle, [], b, rfl, by simp, hpos,
    le_rfl, fun _ => rfl⟩

/-- A full batch takes another datagram that is not longer than the others. -/
theorem append (h : Batch limit gsoSize true ds) (hpos : 0 < b.length)
    (hsize : b.length + ds.flatten.length ≤ limit) (hle : b.length ≤ gsoSize)
    (hcnt : ds.length < udpSegmentMaxDatagrams) :
    Batch limit gsoSize (!decide (b.length < gsoSize)) (ds ++ [b]) := by
  obtain ⟨bs, c, rfl, hbs, -, -, hc⟩ := h.shape
  refine ⟨by simp, by rw [length_append]; exact hcnt, ?_, bs ++ [c], b, rfl,
    forall_mem_concat.2 ⟨hbs, hc rfl⟩, hpos, hle, fun hf => ?_⟩
  · rw [flatten_append, length_append, flatten_singleton]
    omega
  · simp only [Bool.not_eq_true', decide_eq_false_iff_not] at hf
    omega

theorem segments_eq (h : Batch limit gsoSize full ds) : segments gsoSize ds.flatten = ds := by
  obtain ⟨bs, b, rfl, hbs, hpos, hle, -⟩ := h.shape
  exact segments_flatten hbs hpos hle

/-- The first of several datagrams is full. -/
theorem gsoSize_le (h : Batch limit gsoSize full ds) (hcnt : 1 < ds.length) : gsoSize ≤ limit := by
  obtain ⟨_ | ⟨c, bs⟩, b, rfl, hbs, -⟩ := h.shape
  · simp at hcnt
  · have hsize := h.size
    rw [cons_append, flatten_cons, length_append, hbs c mem_cons_self] at hsize
    omega

end Batch

theorem maxPayloadLen_lt (addr : UDPAddr) : maxPayloadLen addr < 2 ^ 16 := by
  rw [maxPayloadLen]
  split_ifs <;> decide

variable {addr : UDPAddr}

/-- A batch of several datagrams is a message once the GSO size is set, one of one as it is. -/
theorem Batch.fits {gsoSize : Nat} {full : Bool} {m : Message}
    (h : Batch (maxPayloadLen addr) gsoSize full m.buffers) (haddr : m.addr = some addr)
    (hoob : m.oob.gsoSize =
      if 1 < m.buffers.length then some (BitVec.ofNat 16 gsoSize) else none) :
    m.Fits addr := by
  have hsent : m.sent = m.buffers ∧ (m.oob.gsoSize.isSome ↔ 1 < m.buffers.length) := by
    by_cases hcnt : 1 < m.buffers.length
    · -- the size has not wrapped around
      have hmod : gsoSize % 65536 = gsoSize :=
        Nat.mod_eq_of_lt ((h.gsoSize_le hcnt).trans_lt (maxPayloadLen_lt addr))
      simp [Message.sent, hoob, hcnt, hmod, h.segments_eq]
    · obtain ⟨d, hd⟩ := length_eq_one_iff.1 (show m.buffers.length = 1 by have := h.pos; omega)
      simp [Message.sent, hoob, hd, segments_of_not]
  exact ⟨hsent.1, hsent.1 ▸ h.count, h.size, hsent.1 ▸ hsent.2, haddr⟩

namespace Coalescing

/-- What holds when `ds` have been taken; after the `last` of them, the size is set. -/
structure Inv (addr : UDPAddr) (last : Bool) (ds : List Bytes) (s : Coalescing) : Prop where
  taken : s.done.flatMap Message.buffers ++ s.base.buffers = ds
  done : ∀ m ∈ s.done, m.Fits addr
  base : Batch (maxPayloadLen addr) s.gsoSize (!s.endBatch) s.base.buffers
  addr : s.base.addr = some addr
  cnt : s.dgramCnt = s.base.buffers.length
  len : s.coalescedLen = s.base.buffers.flatten.length
  cap : controlMessageSize ≤ s.base.oob.cap
  oob : s.base.oob.gsoSize = if last = true ∧ 1 < s.base.buffers.length then
    some (BitVec.ofNat 16 s.gsoSize) else none
  rest : ∀ m ∈ s.rest, m.Ready

variable {last : Bool} {ds : List Bytes} {s : Coalescing} {b : Bytes} {done msgs : List Message}

theorem Inv.oobWithGSO (h : Inv addr last ds s) : s.oobWithGSO =
    { s.base.oob with gsoSize := some (BitVec.ofNat 16 s.gsoSize) } := by
  have hcap : sizeofCmsghdr ≤ controlMessageSize := by decide
  have := h.cap
  rw [Coalescing.oobWithGSO, setGSOSizeInControl, if_neg (by omega)]

theorem exists_startBatch (last : Bool) (hlen : 0 < msgs.length) (hpos : 0 < b.length)
    (hle : b.length ≤ maxPayloadLen addr) (hmsgs : ∀ m ∈ msgs, m.Ready)
    (hdone : ∀ m ∈ done, m.Fits addr) :
    ∃ s, startBatch addr b done msgs = some s ∧
      Inv addr last (done.flatMap Message.buffers ++ [b]) s ∧ s.rest.length + 1 = msgs.length := by
  obtain ⟨msg, rest, rfl⟩ := exists_cons_of_length_pos hlen
  rw [forall_mem_cons] at hmsgs
  obtain ⟨d, hd⟩ := length_eq_one_iff.1 hmsgs.1.1
  refine ⟨_, rfl, ?_, rfl⟩
  constructor
  case done => exact hdone
  case rest => exact hmsgs.2
  all_goals simp [hd, Batch.single hpos hle, hmsgs.1.2]

/-- The message that is left behind when a new one begins. -/
theorem Inv.closed (h : Inv addr false ds s) : s.closed.Fits addr := by
  refine Batch.fits h.base h.addr ?_
  by_cases hcnt : 1 < s.base.buffers.length <;>
    simp [Coalescing.closed, h.cnt, hcnt, h.oobWithGSO, h.oob]

theorem Inv.step (h : Inv addr false ds s) (last : Bool) (hpos : 0 < b.length)
    (hle : b.length ≤ maxPayloadLen addr) (hrest : 0 < s.rest.length) :
    ∃ s', s.step addr last b = some s' ∧ Inv addr last (ds ++ [b]) s' ∧
      s.rest.length ≤ s'.rest.length + 1 := by
  rw [Coalescing.step]
  split_ifs with hfit
  · obtain ⟨hsize, hgso, hcnt, hend⟩ := hfit
    have hbase := h.base
    rw [hend] at hbase
    refine ⟨_, rfl, { h with
      taken := by simp [Coalescing.append, ← h.taken]
      base := hbase.append hpos (h.len ▸ hsize) hgso (h.cnt ▸ hcnt)
      cnt := by simp [Coalescing.append, h.cnt]
      len := by simp [Coalescing.append, h.len]
      cap := ?_
      oob := ?_ }, Nat.le_succ _⟩
    all_goals cases last <;> simp [Coalescing.append, h.oobWithGSO, h.cap, h.oob, h.base.pos]
  · obtain ⟨s', hs, hinv, hlen⟩ := exists_startBatch last hrest hpos hle h.rest
      (forall_mem_concat.2 ⟨h.done, h.closed⟩)
    rw [flatMap_append, flatMap_singleton] at hinv
    exact ⟨s', hs, h.taken ▸ hinv, hlen.ge⟩

theorem Inv.loop (bs : List Bytes) (h : Inv addr bs.isEmpty ds s)
    (hbs : ∀ b ∈ bs, 0 < b.length ∧ b.length ≤ maxPayloadLen addr)
    (hrest : bs.length ≤ s.rest.length) :
    ∃ s', s.loop addr bs = some s' ∧ Inv addr true (ds ++ bs) s' := by
  induction bs generalizing ds s with
  | nil => exact ⟨s, rfl, by simpa using h⟩
  | cons b bs ih =>
    rw [forall_mem_cons] at hbs
    rw [length_cons] at hrest
    obtain ⟨s₁, hs₁, h₁, hlen⟩ := h.step bs.isEmpty hbs.1.1 hbs.1.2 (by omega)
    obtain ⟨s', hs', h'⟩ := ih h₁ hbs.2 (by omega)
    exact ⟨s', by rw [Coalescing.loop, hs₁, Option.bind_some, hs'], by simpa using h'⟩

end Coalescing

/-- The kernel sends the datagrams that were written, in order. -/
theorem coalesceMessages_spec (addr : UDPAddr) (geneve : GeneveHeader) (buffs : List Bytes)
    (msgs : List Message) (offset : Nat) (hne : buffs ≠ [])
    (hbuffs : ∀ b ∈ buffs.map (datagram geneve offset), 0 < b.length ∧
      b.length ≤ maxPayloadLen addr)
    (hlen : buffs.length ≤ msgs.length) (hready : ∀ m ∈ msgs, m.Ready) :
    ∃ msgs' n, coalesceMessages addr geneve buffs msgs offset = some (msgs', n) ∧
      (msgs'.take n).flatMap Message.sent = buffs.map (datagram geneve offset) ∧
      ∀ m ∈ msgs'.take n, m.Fits addr := by
  rw [← length_map (datagram geneve offset)] at hlen
  rw [coalesceMessages]
  obtain ⟨b, bs, hds⟩ := exists_cons_of_ne_nil (mt map_eq_nil_iff.1 hne)
  rw [hds, forall_mem_cons] at hbuffs
  rw [hds, length_cons] at hlen
  rw [hds]
  obtain ⟨s, hs, hinv, hrest⟩ := @Coalescing.exists_startBatch addr b [] msgs bs.isEmpty (by omega)
    hbuffs.1.1 hbuffs.1.2 hready (by simp)
  obtain ⟨s', hs', h⟩ := hinv.loop bs hbuffs.2 (by omega)
  have hfits : ∀ m ∈ s'.done ++ [s'.base], m.Fits addr :=
    forall_mem_concat.2 ⟨h.done, h.base.fits h.addr (by simp [h.oob])⟩
  have htake : (s'.done ++ s'.base :: s'.rest).take (s'.done.length + 1) =
      s'.done ++ [s'.base] := by
    simp [take_append]
  refine ⟨s'.done ++ s'.base :: s'.rest, s'.done.length + 1, by simp [hs, hs'], ?_, htake ▸ hfits⟩
  rw [htake, flatMap_congr fun m hm => (hfits m hm).sent]
  simpa using h.taken

/-- Two datagrams of three bytes, one of two and one of one take two messages. -/
theorem coalesceMessages_spec_fourDatagrams :
    ∃ msgs' n, coalesceMessages { ip := [10, 0, 0, 1] } {}
        [[1, 2, 3], [4, 5, 6], [7, 8], [9]] (List.replicate 4 {}) 0 = some (msgs', n) ∧
      (msgs'.take n).flatMap Message.sent = [[1, 2, 3], [4, 5, 6], [7, 8], [9]] ∧
      ∀ m ∈ msgs'.take n, m.Fits { ip := [10, 0, 0, 1] } :=
  coalesceMessages_spec _ _ _ _ 0 (by decide) (by decide) (by decide) (by simp [Message.Ready])

end Multiport.Batching

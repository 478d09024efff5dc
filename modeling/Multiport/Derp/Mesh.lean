import Mathlib.Data.List.Fold
import Mathlib.Data.List.MinMax
import Mathlib.Order.Fin.Basic
import Multiport.Lib.Maps
import Multiport.Lib.Runs

/-!
# The forwarder of a remote key

A DERP server (`derp/derpserver/derpserver.go`) knows for each key of its region the servers
it can be reached through.  Of several it uses the one that has been registered the longest:
a `multiForwarder` numbers its members in the order of their registration
(`MultiForwarder.Aged`), as long as the number of eight bits does not wrap around
(`handleFrameSendPacket_eq`).  After it has, packets go through a later one
(`exists_forward_newest`).
-/

namespace Multiport.Derp

open Lib List AList

variable {K F C : Type} [DecidableEq K] [DecidableEq F] (order : GoMap.RangeOrder F (Fin 256))

/-- `multiForwarder`; a `uint8` is a `Fin 256`. -/
structure MultiForwarder (F : Type) where
  fwd : F
  all : GoMap F (Fin 256)

/-- A `PacketForwarder`: the client of another server, or several of them. -/
inductive PacketForwarder (F : Type)
  | node (fwd : F)
  | multi (m : MultiForwarder F)

/-- `ForwardPacket`, by the client it uses. -/
def PacketForwarder.target : PacketForwarder F → F
  | .node fwd => fwd
  | .multi m => m.fwd

/-- `newMultiForwarder` of two forwarders. -/
def newMultiForwarder (prev fwd : F) : MultiForwarder F :=
  { fwd := prev, all := (insert prev 0 ∅).insert fwd 1 }

/-- The variable `max` of `multiForwarder.add`. -/
def MultiForwarder.max (f : MultiForwarder F) : Fin 256 := f.all.values.foldl Max.max 0

def MultiForwarder.add (f : MultiForwarder F) (fwd : F) : MultiForwarder F :=
  { f with all := f.all.insert fwd (f.max + 1) }

/-- `multiForwarder.deleteLocked`: what is left of `f`, as a `multiForwarder` or not. -/
def MultiForwarder.deleteLocked (f : MultiForwarder F) (fwd : F) : PacketForwarder F :=
  let all := f.all.erase fwd
  let lowest := (order.entries all).argmin Sigma.snd
  match all.keys with
  | [k] => .node k
  | _ => .multi { fwd := if fwd = f.fwd then (lowest.map Sigma.fst).getD f.fwd else f.fwd, all }

/-- What is read of a `clientSet`. -/
structure ClientSet (C : Type) where
  activeClient : Option C
  len : Nat

/-- What `Server` knows about the clients of the region. -/
structure Server (K F C : Type) where
  clients : GoMap K (ClientSet C) := ∅
  clientsMesh : GoMap K (Option (PacketForwarder F)) := ∅

/-- The entry of a key after a forwarder was added to it. -/
def addForwarder (fwd : F) : Option (PacketForwarder F) → PacketForwarder F
  | none => .node fwd
  | some (.node prev) => if prev = fwd then .node prev else .multi (newMultiForwarder prev fwd)
  | some (.multi m) => .multi (if (m.all.lookup fwd).isSome then m else m.add fwd)

namespace Server

variable (s : Server K F C)

/-- `clientsMesh[dst]`, where nil may stand for a key that is not there. -/
def entry (dst : K) : Option (PacketForwarder F) := (s.clientsMesh.lookup dst).join

def addPacketForwarder (dst : K) (fwd : F) : Server K F C :=
  { s with clientsMesh := s.clientsMesh.insert dst (some (addForwarder fwd (s.entry dst))) }

def removePacketForwarder (dst : K) (fwd : F) : Server K F C :=
  match s.entry dst with
  | none => s
  | some (.multi m) =>
    { s with clientsMesh := s.clientsMesh.insert dst (some (m.deleteLocked order fwd)) }
  | some (.node v) =>
    if v ≠ fwd then s
    else
      { s with
        clientsMesh :=
          if (s.clients.lookup dst).isSome then s.clientsMesh.insert dst none
          else s.clientsMesh.erase dst }

/-- What becomes of a packet. -/
inductive Route (F C : Type)
  | direct (dst : C)
  | forward (fwd : F)
  | dropUnknownDest
  | dropDupClient
deriving DecidableEq, Repr

def handleFrameSendPacket (dstKey : K) : Route F C :=
  let set := s.clients.lookup dstKey
  let dstLen := (set.map ClientSet.len).getD 0
  match set.bind ClientSet.activeClient with
  | some dst => .direct dst
  | none =>
    match if dstLen < 1 then s.entry dstKey else none with
    | some fwd => .forward fwd.target
    | none => if dstLen > 1 then .dropDupClient else .dropUnknownDest

end Server

/-- A call that changes the forwarders. -/
inductive Op (K F : Type)
  | add (dst : K) (fwd : F)
  | remove (dst : K) (fwd : F)

/-- The forwarders of `dst`, the longest registered first, after a call. -/
def Op.forwarders (dst : K) (l : List F) : Op K F → List F
  | .add d fwd => if d ≠ dst ∨ fwd ∈ l then l else l ++ [fwd]
  | .remove d fwd => if d = dst then l.erase fwd else l

/-- The members of `f` are `l`, with numbers that increase. -/
def MultiForwarder.Aged (l : List F) (f : MultiForwarder F) : Prop :=
  2 ≤ l.length ∧ l.head? = some f.fwd ∧ ∃ es : List (Σ _ : F, Fin 256),
    f.all.entries.Perm es ∧ es.keys = l ∧ es.Pairwise fun a b => a.2 < b.2

/-- The forwarders of an entry of `clientsMesh`. -/
def Aged (l : List F) : Option (PacketForwarder F) → Prop
  | none => l = []
  | some (.node fwd) => l = [fwd]
  | some (.multi f) => f.Aged l

namespace MultiForwarder

variable {f : MultiForwarder F} {l : List F} {fwd : F}

omit [DecidableEq F] in
theorem le_max (f : MultiForwarder F) {v : Fin 256} (hv : v ∈ f.all.values) : v ≤ f.max := by
  rw [max, foldl_eq_foldr]
  exact le_max_of_le hv le_rfl

theorem Aged.mem_iff (h : f.Aged l) (fwd : F) : fwd ∈ l ↔ (f.all.lookup fwd).isSome := by
  obtain ⟨-, -, es, hperm, rfl, -⟩ := h
  rw [lookup_isSome]
  exact (hperm.map Sigma.fst).mem_iff.symm

theorem Aged.add (h : f.Aged l) (hfwd : f.all.lookup fwd = none) (hmax : f.max ≠ Fin.last 255) :
    (f.add fwd).Aged (l ++ [fwd]) := by
  obtain ⟨htwo, hhead, es, hperm, rfl, hages⟩ := h
  have hlt : f.max < f.max + 1 := Fin.lt_add_one_iff.2 (Fin.lt_last_iff_ne_last.2 hmax)
  refine ⟨?_, ?_, es ++ [⟨fwd, f.max + 1⟩], ?_, by simp, ?_⟩
  · exact htwo.trans (length_append ▸ Nat.le_add_right _ _)
  · rw [List.head?_append, hhead]
    rfl
  · rw [MultiForwarder.add, entries_insert_of_notMem (lookup_eq_none.1 hfwd)]
    exact (hperm.cons _).trans (perm_append_singleton ..).symm
  · refine pairwise_append.2 ⟨hages, pairwise_singleton .., fun e he e' he' => ?_⟩
    obtain rfl := mem_singleton.1 he'
    exact (f.le_max (mem_map_of_mem (hperm.mem_iff.2 he))).trans_lt hlt

omit [DecidableEq F] in
/-- The lowest number is that of the first. -/
theorem argmin_eq {es es' : List (Σ _ : F, Fin 256)} (hperm : es'.Perm es)
    (hages : es.Pairwise fun a b => a.2 < b.2) : es'.argmin Sigma.snd = es.head? := by
  cases es with
  | nil =>
    rw [perm_nil.1 hperm]
    rfl
  | cons e es =>
    cases hmin : es'.argmin Sigma.snd with
    | none =>
      rw [argmin_eq_none.1 hmin] at hperm
      cases hperm.nil_eq
    | some m =>
      have hle := le_of_mem_argmin (hperm.mem_iff.2 mem_cons_self) hmin
      rcases mem_cons.1 (hperm.mem_iff.1 (argmin_mem hmin)) with rfl | hm
      · rfl
      · exact absurd hle (not_le.2 ((pairwise_cons.1 hages).1 m hm))

theorem Aged.delete (h : f.Aged l) (fwd : F) :
    Derp.Aged (l.erase fwd) (some (f.deleteLocked order fwd)) := by
  obtain ⟨htwo, hhead, es, hperm, rfl, hages⟩ := h
  have hes : (f.all.erase fwd).entries.Perm (es.kerase fwd) := hperm.kerase f.all.nodupKeys
  have hkeys : (f.all.erase fwd).keys.Perm (es.keys.erase fwd) := by
    rw [← keys_kerase]
    exact hes.map Sigma.fst
  have hages' := hages.sublist (es.kerase_sublist fwd)
  rw [deleteLocked]
  split
  next k hk =>
    rw [hk] at hkeys
    exact perm_singleton.1 hkeys.symm
  next hne =>
    have hle : es.keys.length - 1 ≤ (es.keys.erase fwd).length := le_length_erase
    have hone : (es.keys.erase fwd).length ≠ 1 := by
      rw [← hkeys.length_eq]
      exact fun hlen => (length_eq_one_iff.1 hlen).elim hne
    rw [← keys_kerase] at hle hone ⊢
    refine ⟨by omega, ?_, es.kerase fwd, hes, rfl, hages'⟩
    split_ifs with hfwd
    · rw [argmin_eq ((order.perm _).trans hes) hages']
      cases hk : es.kerase fwd with
      | nil =>
        rw [hk] at hle
        exact absurd (htwo.trans (Nat.le_add_of_sub_le hle)) (Nat.not_succ_le_self 1)
      | cons e es' => rfl
    · obtain ⟨l, hl⟩ := List.head?_eq_some_iff.1 hhead
      rw [keys_kerase, hl, erase_cons_tail (by simpa using Ne.symm hfwd)]
      rfl

end MultiForwarder

variable {l : List F} {fwd : F}

theorem aged_newMultiForwarder {prev : F} (hne : prev ≠ fwd) :
    (newMultiForwarder prev fwd).Aged [prev, fwd] := by
  refine ⟨le_rfl, rfl, [⟨prev, 0⟩, ⟨fwd, 1⟩], ?_, rfl, by simp⟩
  have hmem : fwd ∉ (insert prev 0 ∅ : GoMap F (Fin 256)) := fun hmem =>
    ((mem_insert _).1 hmem).elim (Ne.symm hne) (notMem_empty _)
  rw [newMultiForwarder, entries_insert_of_notMem hmem]
  exact .swap ..

/-- An addition that finds the number 255. -/
def Wraps (fwd : F) : Option (PacketForwarder F) → Prop
  | some (.multi m) => m.all.lookup fwd = none ∧ m.max = Fin.last 255
  | _ => False

theorem Aged.add {entry} (h : Aged l entry) (hwraps : ¬Wraps fwd entry) :
    Aged (if fwd ∈ l then l else l ++ [fwd]) (some (addForwarder fwd entry)) := by
  obtain _ | prev | f := entry
  · obtain rfl : l = [] := h
    rfl
  · obtain rfl : l = [prev] := h
    rw [addForwarder]
    by_cases heq : prev = fwd
    · rw [if_pos heq, if_pos (mem_singleton.2 heq.symm)]
      rfl
    · rw [if_neg heq, if_neg fun hmem => heq (mem_singleton.1 hmem).symm]
      exact aged_newMultiForwarder heq
  · have hmem := MultiForwarder.Aged.mem_iff h fwd
    rw [addForwarder]
    by_cases hsome : (f.all.lookup fwd).isSome = true
    · rwa [if_pos hsome, if_pos (hmem.2 hsome)]
    · rw [if_neg hsome, if_neg (mt hmem.1 hsome)]
      rw [Option.not_isSome_iff_eq_none] at hsome
      exact MultiForwarder.Aged.add h hsome fun hmax => hwraps ⟨hsome, hmax⟩

namespace Server

variable {s : Server K F C} {dst : K}

/-- One call. -/
def exec (s : Server K F C) : Op K F → Server K F C
  | .add dst fwd => s.addPacketForwarder dst fwd
  | .remove dst fwd => s.removePacketForwarder order dst fwd

/-- The calls that do not wrap around. -/
def Step (s : Server K F C) (op : Op K F) (t : Server K F C) : Prop :=
  (∀ dst fwd, op = .add dst fwd → ¬Wraps fwd (s.entry dst)) ∧ s.exec order op = t

theorem clients_exec (op : Op K F) : (s.exec order op).clients = s.clients := by
  cases op with
  | add => rfl
  | remove =>
    rw [exec, removePacketForwarder]
    split
    · rfl
    · rfl
    · split_ifs <;> rfl

theorem aged_exec {op : Op K F} {t}
    (hstep : Step order s op t) (hl : Aged l (s.entry dst)) (hdst : s.clients.lookup dst = none) :
    Aged (op.forwarders dst l) (t.entry dst) := by
  obtain ⟨hwraps, rfl⟩ := hstep
  cases op with
  | add d fwd =>
    rw [exec, Op.forwarders, addPacketForwarder, entry]
    by_cases hd : d = dst
    · subst hd
      simpa using hl.add (hwraps d fwd rfl)
    · rwa [lookup_insert_ne (Ne.symm hd), if_pos (.inl hd)]
  | remove d fwd =>
    rw [exec, Op.forwarders, removePacketForwarder]
    by_cases hd : d = dst
    · subst hd
      rw [if_pos rfl]
      cases hf : s.entry d with
      | none =>
        rw [hf] at hl
        obtain rfl : l = [] := hl
        rw [hf]
        rfl
      | some f =>
        rw [hf] at hl
        cases f with
        | node v =>
          obtain rfl : l = [v] := hl
          by_cases heq : v = fwd
          · simp [heq, hdst, entry, Aged]
          · simp [heq, hf, Aged]
        | multi f => simpa [entry] using MultiForwarder.Aged.delete order hl fwd
    · rw [if_neg hd]
      have hne := Ne.symm hd
      split
      · exact hl
      · rwa [entry, lookup_insert_ne hne]
      · split_ifs
        · exact hl
        · rwa [entry, lookup_insert_ne hne]
        · rwa [entry, lookup_erase_ne hne]

/-- **A packet is forwarded through the forwarder that has been registered the longest.** -/
theorem handleFrameSendPacket_eq (s₀ s : Server K F C) (dst : K)
    (hlocal : s₀.clients.lookup dst = none) (hmesh : s₀.entry dst = none)
    (ops : List (Op K F)) (hrun : Run (Step order) s₀ ops s) :
    s.handleFrameSendPacket dst =
      (ops.foldl (Op.forwarders dst) []).head?.elim .dropUnknownDest .forward := by
  obtain ⟨hl, hdst⟩ : Aged (ops.foldl (Op.forwarders dst) []) (s.entry dst) ∧
      s.clients.lookup dst = none := by
    refine hrun.invariant (I := fun ops s => Aged (ops.foldl (Op.forwarders dst) []) (s.entry dst) ∧
      s.clients.lookup dst = none) ⟨hmesh ▸ rfl, hlocal⟩ fun ops s op t h hstep => ?_
    rw [foldl_append]
    exact ⟨aged_exec order hstep h.1 h.2, by rw [← hstep.2, clients_exec, h.2]⟩
  rw [handleFrameSendPacket, hdst]
  generalize ops.foldl (Op.forwarders dst) [] = l at hl
  rcases hf : s.entry dst with _ | fwd | f <;> rw [hf] at hl
  · obtain rfl : l = [] := hl
    rfl
  · obtain rfl : l = [fwd] := hl
    rfl
  · rw [hl.2.1]
    rfl

/-- Two forwarders are registered, and the first is removed. -/
theorem handleFrameSendPacket_eq_second :
    (({} : Server Nat Nat Nat).exec .stored (.add 1 7) |>.exec .stored (.add 1 8)
      |>.exec .stored (.remove 1 7)).handleFrameSendPacket 1 = .forward 8 := by
  refine handleFrameSendPacket_eq .stored {} _ 1 rfl rfl [.add 1 7, .add 1 8, .remove 1 7]
    (.snoc (.snoc (.snoc .nil ⟨?_, rfl⟩) ⟨?_, rfl⟩) ⟨?_, rfl⟩)
  · rintro _ _ ⟨⟩
  · rintro _ _ ⟨⟩
    exact id
  · rintro _ _ ⟨⟩
    exact id

/-- The 257 forwarders that are registered one after another, while all but the last two
are removed. -/
def churn : List (Op Nat Nat) :=
  .add 1 0 :: .add 1 1 :: (List.range 255).flatMap fun n => [.add 1 (n + 2), .remove 1 n]

/-- The number of the last one is 0. -/
theorem exists_forward_newest :
    (churn.foldl (exec .stored) ({} : Server Nat Nat Nat)).handleFrameSendPacket 1 = .forward 256 ∧
      churn.foldl (Op.forwarders 1) [] = [255, 256] := by
  decide +kernel

end Server

end Multiport.Derp

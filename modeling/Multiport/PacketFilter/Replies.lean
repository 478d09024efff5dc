import Multiport.PacketFilter.Filter

/-!
# Flows and replies

The flows that filters share grow with what is sent and are looked up for what comes in.  Over
any run they make no difference, except for replies to what was sent.
-/

namespace Multiport.PacketFilter

open Lib Net Net.Flowtrack PacketFilter.Filter

/-- A packet that goes through one of the filters that share the flows. -/
inductive Passed
  | inbound (f : Filter) (q : Parsed)
  | outbound (f : Filter) (q : Parsed)

/-- The flows after the packet. -/
def Passed.exec (lru : Flows) : Passed → Flows
  | inbound f q => (f.runIn lru q).2
  | outbound f q => (f.runOut lru q).2

/-- A UDP or SCTP packet went out, not dropped by the first checks, whose replies have the
tuple. -/
def Sent (run : List Passed) (t : Tuple) : Prop :=
  ∃ f q, .outbound f q ∈ run ∧ (f.pre q).1 = .noVerdict ∧
    (q.ipProto = Proto.udp ∨ q.ipProto = Proto.sctp) ∧ t = makeTuple q.ipProto q.dst q.src

/-- An inbound packet only looks at the flows: from `lru` comes `x`, and from none comes `y`. -/
def Looks {α : Type} (lru : Flows) (q : Parsed) (x y : α × Flows) : Prop :=
  x.2.m = lru.m ∧ (lru.m.lookup (makeTuple q.ipProto q.src q.dst) = none → x.1 = y.1)

theorem looks_runInFamily (f : Filter) (lru : Flows) (q : Parsed) (isLocal : Addr → Bool)
    (icmp : Proto) (ms : List Match) : Looks lru q (f.runInFamily isLocal icmp ms lru q)
      (f.runInFamily isLocal icmp ms .new q) := by
  have hm := lru.m_get (makeTuple q.ipProto q.src q.dst)
  have hnone (h : lru.m.lookup (makeTuple q.ipProto q.src q.dst) = none) :
      lru.get (makeTuple q.ipProto q.src q.dst) = (none, lru) := by
    rw [Cache.get, h]
  unfold runInFamily
  generalize lru.get _ = x at hm hnone
  obtain ⟨v, lru'⟩ := x
  refine ⟨?_, fun h => ?_⟩
  · cases v <;> simp only <;> split_ifs <;> first | rfl | exact hm
  · cases hnone h
    split_ifs <;> rfl

theorem looks_runIn (f : Filter) (lru : Flows) (q : Parsed) :
    Looks lru q (f.runIn lru q) (f.runIn .new q) := by
  have hversion : Looks lru q (f.runInVersion lru q) (f.runInVersion .new q) := by
    unfold runInVersion
    split_ifs
    · exact looks_runInFamily ..
    · simp only [runIn6_eq]
      exact looks_runInFamily ..
    · exact ⟨rfl, fun _ => rfl⟩
  unfold runIn
  generalize f.runInVersion lru q = x at hversion
  generalize f.runInVersion .new q = y at hversion
  obtain ⟨⟨⟨r, why⟩, lru'⟩, ⟨_, _⟩⟩ := x, y
  simp only
  split
  · exact ⟨rfl, fun _ => rfl⟩
  refine ⟨hversion.1 ▸ ?_, fun h => ?_⟩
  · cases r <;> first | rfl | (simp only; split <;> rfl)
  · obtain rfl := hversion.2 h
    cases r <;> first | rfl | (simp only; split <;> rfl)

/-- Every flow that is remembered was sent. -/
theorem sent_of_lookup (run : List Passed) {t : Tuple} {e : Element}
    (h : (run.foldl Passed.exec .new).m.lookup t = some e) : Sent run t := by
  induction run using List.reverseRecOn generalizing e with
  | nil => cases h
  | append_singleton run p ih =>
    rw [List.foldl_concat] at h
    generalize run.foldl Passed.exec .new = lru at h ih
    have hold (hl : lru.m.lookup t = some e) : Sent (run ++ [p]) t := by
      obtain ⟨f, q, hmem, hq⟩ := ih hl
      exact ⟨f, q, List.mem_append_left _ hmem, hq⟩
    cases p with
    | inbound f q => exact hold ((looks_runIn f lru q).1 ▸ h)
    | outbound f q =>
      simp only [Passed.exec, runOut, runOutInner] at h
      split_ifs at h with hpre hproto
      · exact hold h
      · rcases Cache.lookup_of_lookup_add h with rfl | hl
        · refine ⟨f, q, List.mem_append_right _ (List.mem_singleton.2 rfl), ?_, hproto, rfl⟩
          by_contra hne
          exact hpre (pre_eq_of_ne hne)
        · exact hold hl
      · exact hold h

/-- **Flows only let replies in.**  Whatever has passed the filters before, an inbound packet gets
the verdict that it gets without any flows, or it has the tuple of a reply. -/
theorem runIn_eq_or_sent (run : List Passed) (f : Filter) (q : Parsed) :
    (f.runIn (run.foldl Passed.exec .new) q).1 = (f.runIn .new q).1 ∨
      Sent run (makeTuple q.ipProto q.src q.dst) := by
  cases h : (run.foldl Passed.exec .new).m.lookup (makeTuple q.ipProto q.src q.dst) with
  | none => exact .inl ((looks_runIn f _ q).2 h)
  | some e => exact .inr (sent_of_lookup run h)

end Multiport.PacketFilter

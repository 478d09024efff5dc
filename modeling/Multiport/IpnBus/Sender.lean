import Multiport.IpnBus.Notify
import Multiport.Lib.Coalesce
import Multiport.Lib.Runs

/-!
# The rate-limiting sender of the IPN bus

`rateLimitingBusSender` (`ipn/ipnlocal/bus.go`) passes notable notifications to `fn` at
once and collects boring ones in `pending`, which it passes on when the interval since
the last flush is over, when the timer fires, or before a notable one.

The clock and `fn` are the environment: an event says what they answer, so that a run
stands for every timing.  The invariant is that what was passed on coalesces a part of
what was received, and that the pending notification does what the rest does.
-/

namespace Multiport.IpnBus

open Lib Tailcfg List Watch Notify

variable {P H : Type}

/-! ## The code -/

/-- `rateLimitingBusSender`, with the notifications that were passed to `fn`.  The time
at which the timer is to fire is kept, but as timers may be late nothing depends on it. -/
structure Sender (P H : Type) where
  interval : Int
  lastFlush : Time := 0
  pending : Option (Notify P H) := none
  flushTimer : Option Time := none
  passed : List (Notify P H) := []

/-- What the environment answers during one call: the readings of the clock, and whether
`fn` asks to keep going. -/
structure Answers where
  now₁ : Time := 0
  now₂ : Time := 0
  keep₁ : Bool := true
  keep₂ : Bool := true

namespace Sender

variable (s : Sender P H)

/-- `rateLimitingBusSender.flushNotify`. -/
def flushNotify (now : Time) (keep : Bool) (n : Notify P H) : Sender P H × Bool :=
  ({ s with lastFlush := now, passed := s.passed ++ [n] }, keep)

/-- `rateLimitingBusSender.flush`. -/
def flush (now : Time) (keep : Bool) : Sender P H × Bool :=
  match s.pending with
  | some n => { s with pending := none }.flushNotify now keep n
  | none => (s, true)

/-- The notable branch of `send`: first the pending notification, then this one. -/
def sendNotable (a : Answers) (n : Notify P H) : Sender P H × Bool :=
  if (s.flush a.now₁ a.keep₁).2 then (s.flush a.now₁ a.keep₁).1.flushNotify a.now₂ a.keep₂ n
  else ((s.flush a.now₁ a.keep₁).1, false)

/-- The boring branch of `send`, after the merge. -/
def flushIfDue (a : Answers) : Sender P H × Bool :=
  if a.now₁ - s.lastFlush > s.interval then s.flush a.now₂ a.keep₁
  else ({ s with flushTimer := some (a.now₁ + (s.interval - (a.now₁ - s.lastFlush))) }, true)

/-- `rateLimitingBusSender.send`. -/
def send (a : Answers) (n : Notify P H) : Sender P H × Bool :=
  if s.interval ≤ 0 then ({ s with passed := s.passed ++ [n] }, a.keep₁)
  else if n.isNotableNotify then s.sendNotable a n
  else { s with pending := some (mergeBoringNotifies s.pending n) }.flushIfDue a

end Sender

/-- What can happen in `rateLimitingBusSender.Run`: a notification is received, or the
timer fires. -/
inductive Event (P H : Type) where
  | receive (n : Notify P H) (a : Answers)
  | fire (now : Time) (keep : Bool)

/-- The sender in its loop, with all that it has received. -/
structure Loop (P H : Type) where
  sender : Sender P H
  received : List (Notify P H) := []
  running : Bool := true

/-- One round of `rateLimitingBusSender.Run`. -/
inductive Step (l : Loop P H) : Event P H → Loop P H → Prop
  | receive {n a} (hrun : l.running = true) :
      Step l (.receive n a) ⟨(l.sender.send a n).1, l.received ++ [n], (l.sender.send a n).2⟩
  | fire {now keep} (hrun : l.running = true)
      (harmed : l.sender.flushTimer.isSome) :
      Step l (.fire now keep) ⟨(l.sender.flush now keep).1, l.received, (l.sender.flush now keep).2⟩

/-! ## What is passed on and what is pending -/

/-- The pending notification does what the notifications of `tail` do. -/
def StandsFor (pending : Option (Notify P H)) (tail : List (Notify P H)) : Prop :=
  match pending with
  | none => tail = []
  | some p => p.isNotableNotify = false ∧ (∀ n ∈ tail, n.isNotableNotify = false) ∧
      ∀ w : Watch P H, w.apply p = tail.foldl apply w

/-- What was passed on coalesces a part of what was received, and the pending
notification stands for the rest. -/
def Sender.Accounts (s : Sender P H) (received : List (Notify P H)) : Prop :=
  ∃ sent tail, received = sent ++ tail ∧
    Coalesces apply isNotableNotify sent s.passed ∧ StandsFor s.pending tail

variable {pending : Option (Notify P H)} {tail : List (Notify P H)}

theorem StandsFor.boring (h : StandsFor pending tail) : ∀ n ∈ tail, n.isNotableNotify = false := by
  cases pending with
  | none => simp [show tail = [] from h]
  | some p => exact h.2.1

variable {n : Notify P H}

theorem StandsFor.merge (h : StandsFor pending tail) (hn : n.Mergeable)
    (hboring : n.isNotableNotify = false) :
    StandsFor (some (mergeBoringNotifies pending n)) (tail ++ [n]) := by
  have hfold (w : Watch P H) : pending.elim w w.apply = tail.foldl apply w := by
    cases pending with
    | none =>
      rw [show tail = [] from h]
      rfl
    | some p => exact h.2.2 w
  refine ⟨?_, ?_, fun w => ?_⟩
  · rw [(mergeBoringNotifies_fields pending n).1]
    cases pending with
    | none => rfl
    | some p => exact h.1
  · exact forall_mem_concat.2 ⟨h.boring, hboring⟩
  · rw [apply_mergeBoringNotifies pending hn hboring, hfold, foldl_append]
    rfl

namespace Sender

variable {s : Sender P H} {received : List (Notify P H)}

@[simp] theorem interval_flush (s : Sender P H) (now : Time) (keep : Bool) :
    (s.flush now keep).1.interval = s.interval := by
  unfold flush
  cases s.pending <;> rfl

@[simp] theorem pending_flush (s : Sender P H) (now : Time) (keep : Bool) :
    (s.flush now keep).1.pending = none := by
  unfold flush
  split
  · rfl
  · assumption

section

variable (h : s.Accounts received)

include h

/-- With nothing pending everything received was passed on. -/
theorem Accounts.coalesces (hp : s.pending = none) :
    Coalesces apply isNotableNotify received s.passed := by
  obtain ⟨sent, tail, rfl, hc, ht⟩ := h
  rw [hp] at ht
  rw [show tail = [] from ht, append_nil]
  exact hc

/-- The notable notifications were passed on, all of them and in order. -/
theorem Accounts.filter_eq : s.passed.filter isNotableNotify = received.filter isNotableNotify := by
  obtain ⟨sent, tail, rfl, hc, ht⟩ := h
  have htail : tail.filter isNotableNotify = [] :=
    filter_eq_nil_iff.2 fun n hn => by simp [ht.boring n hn]
  rw [hc.filter_eq, filter_append, htail, append_nil]

/-- A notable notification was passed on after what came before it. -/
theorem Accounts.split {pre post} (hreceived : received = pre ++ n :: post)
    (hn : n.isNotableNotify = true) : ∃ pre' post', s.passed = pre' ++ n :: post' ∧
      ∀ w : Watch P H, pre'.foldl apply w = pre.foldl apply w := by
  obtain ⟨sent, tail, rfl, hc, ht⟩ := h
  have htail : n ∉ tail := fun hmem => Bool.false_ne_true ((ht.boring n hmem).symm.trans hn)
  obtain ⟨post₁, hsent, -⟩ := exists_of_append_eq_append_cons hreceived htail
  obtain ⟨pre', post', hpassed, hpre, -⟩ := hc.split hsent hn
  exact ⟨pre', post', hpassed, hpre.foldl_eq⟩

theorem Accounts.pass (hp : s.pending = none) {t : Sender P H}
    (hpassed : t.passed = s.passed ++ [n]) (hpending : t.pending = none) :
    t.Accounts (received ++ [n]) := by
  refine ⟨received ++ [n], [], (append_nil _).symm, ?_, ?_⟩
  · rw [hpassed]
    exact (h.coalesces hp).pass n
  · rw [hpending]
    rfl

theorem Accounts.flush (now : Time) (keep : Bool) : (s.flush now keep).1.Accounts received := by
  obtain ⟨sent, tail, rfl, hc, ht⟩ := h
  unfold Sender.flush
  cases hp : s.pending with
  | none => exact ⟨sent, tail, rfl, hc, ht⟩
  | some p =>
    rw [hp] at ht
    obtain ⟨hboring, htail, hfold⟩ := ht
    exact ⟨sent ++ tail, [], (append_nil _).symm, hc.merge htail hboring hfold, rfl⟩

/-- **A call of `send` accounts for its notification**, if it asks to keep going. -/
theorem Accounts.send {a : Answers} (hdirect : s.interval ≤ 0 → s.pending = none)
    (hsafe : 0 < s.interval → n.isNotableNotify = false → n.Mergeable)
    (hgoing : (s.send a n).2 = true) : (s.send a n).1.Accounts (received ++ [n]) := by
  unfold Sender.send at hgoing ⊢
  by_cases hint : s.interval ≤ 0
  · rw [if_pos hint]
    exact h.pass (hdirect hint) rfl (hdirect hint)
  rw [if_neg hint] at hgoing ⊢
  by_cases hn : n.isNotableNotify = true
  · rw [if_pos hn] at hgoing ⊢
    unfold sendNotable at hgoing ⊢
    split at hgoing
    next hflush =>
      rw [if_pos hflush]
      exact (h.flush a.now₁ a.keep₁).pass (pending_flush s _ _) rfl (pending_flush s _ _)
    · cases hgoing
  · rw [if_neg hn]
    obtain ⟨sent, tail, rfl, hc, ht⟩ := h
    have hboring : n.isNotableNotify = false := Bool.eq_false_iff.2 hn
    have hmerged :
        { s with pending := some (mergeBoringNotifies s.pending n) }.Accounts
          (sent ++ tail ++ [n]) :=
      ⟨sent, tail ++ [n], append_assoc _ _ _, hc,
        ht.merge (hsafe (Int.not_le.1 hint) hboring) hboring⟩
    unfold flushIfDue
    split
    · exact hmerged.flush _ _
    · exact hmerged

end

@[simp] theorem interval_send (s : Sender P H) (a : Answers) (n : Notify P H) :
    (s.send a n).1.interval = s.interval := by
  unfold send sendNotable flushIfDue
  split
  · rfl
  split
  · split
    · exact interval_flush s _ _
    · exact interval_flush s _ _
  · split
    · exact interval_flush _ _ _
    · rfl

end Sender

/-! ## Runs -/

def Loop.init (interval : Int) : Loop P H where
  sender := { interval }

/-- The condition on an event: with rate limiting, a boring notification can be merged
without loss. -/
def Event.Safe (interval : Int) : Event P H → Prop
  | .receive n _ => 0 < interval → n.isNotableNotify = false → n.Mergeable
  | .fire _ _ => True

/-- The invariant of the loop. -/
structure Loop.Sound (interval : Int) (l : Loop P H) : Prop where
  same_interval : l.sender.interval = interval
  direct : interval ≤ 0 → l.sender.pending = none
  accounts : l.running = true → l.sender.Accounts l.received

theorem Loop.sound_init (interval : Int) : (.init interval : Loop P H).Sound interval where
  same_interval := rfl
  direct _ := rfl
  accounts _ := ⟨[], [], rfl, .nil, rfl⟩

theorem Loop.Sound.step {interval : Int} {l l' : Loop P H} {ev : Event P H} (h : l.Sound interval)
    (hsafe : ev.Safe interval) (hstep : Step l ev l') : l'.Sound interval := by
  obtain ⟨rfl, hdirect, haccounts⟩ := h
  cases hstep with
  | receive hrun =>
    refine ⟨Sender.interval_send _ _ _, fun hint => ?_, fun hgoing => ?_⟩
    · rw [Sender.send, if_pos hint]
      exact hdirect hint
    · exact (haccounts hrun).send hdirect hsafe hgoing
  | fire hrun _ =>
    exact ⟨Sender.interval_flush _ _ _, fun _ => Sender.pending_flush _ _ _,
      fun _ => (haccounts hrun).flush _ _⟩

/-- **Rate limiting loses no state.**  In every run in which the boring notifications can
be merged, as long as `fn` asks to keep going: whenever nothing is pending, a watcher that
folds what was passed on has the same state as one that folds what was received, and each
notable notification is passed on unchanged, after all that came before it and before all
that comes after it. -/
theorem Loop.same_state_of_run {interval : Int} {evs : List (Event P H)} {l : Loop P H}
    (hrun : Run Step (.init interval) evs l) (hsafe : ∀ ev ∈ evs, ev.Safe interval)
    (hgoing : l.running = true) :
    (l.sender.pending = none →
      ∀ w : Watch P H, l.sender.passed.foldl apply w = l.received.foldl apply w) ∧
    l.sender.passed.filter isNotableNotify = l.received.filter isNotableNotify ∧
    ∀ pre n post, l.received = pre ++ n :: post → n.isNotableNotify = true →
      ∃ pre' post', l.sender.passed = pre' ++ n :: post' ∧
        ∀ w : Watch P H, pre'.foldl apply w = pre.foldl apply w := by
  have hsound : l.Sound interval :=
    hrun.invariant_of_forall (Loop.sound_init interval)
      (fun _ _ _ hev hl hstep => hl.step hev hstep) hsafe
  have haccounts := hsound.accounts hgoing
  exact ⟨fun hp w => (haccounts.coalesces hp).foldl_eq w, haccounts.filter_eq,
    fun _ _ _ hreceived hn => haccounts.split hreceived hn⟩

/-- A network map, a change of its peer and a notable notification: the first two are
merged, and the watcher does not notice. -/
theorem Loop.same_state_of_run_merged :
    ∃ (evs : List (Event Nat Unit)) (l : Loop Nat Unit),
      Run Step (.init 1) evs l ∧ (∀ ev ∈ evs, ev.Safe 1) ∧ l.received.length = 3 ∧
        l.sender.passed.length = 2 ∧
        ∀ w : Watch Nat Unit,
          l.sender.passed.foldl apply w = l.received.foldl apply w := by
  let netMap : Notify Nat Unit := { netMap := some { peers := [{ id := 1 }], rest := 0 } }
  let change : Notify Nat Unit := { peerChanges := some [{ nodeID := 1, online := some true }] }
  let state : Notify Nat Unit := { state := some 5 }
  let evs : List (Event Nat Unit) := [.receive netMap {}, .receive change {}, .receive state {}]
  have hsafe : ∀ ev ∈ evs, ev.Safe 1 := by
    simp only [evs, forall_mem_cons]
    refine ⟨fun _ _ => ⟨rfl, rfl, fun _ => rfl, by simp [netMap, Slice.elems]⟩,
      fun _ _ => ⟨rfl, rfl, by simp [change], ?_⟩, (fun _ => nofun), by simp⟩
    decide
  have hrun : Run Step (.init 1) evs _ :=
    ((Run.nil.snoc (.receive rfl)).snoc (.receive rfl)).snoc (.receive rfl)
  exact ⟨evs, _, hrun, hsafe, rfl, rfl, (Loop.same_state_of_run hrun hsafe rfl).1 rfl⟩

/-- A transfer ends: the notification that no files are being received is boring, and the
merge drops it.  The watcher goes on showing the file. -/
theorem Loop.end_of_transfer_is_lost :
    ∃ (evs : List (Event Nat Unit)) (l : Loop Nat Unit),
      Run Step (.init 1) evs l ∧ l.running = true ∧ l.sender.pending = none ∧
        (l.received.foldl apply {}).fields .incomingFiles = some [] ∧
        (l.sender.passed.foldl apply {}).fields .incomingFiles = some [7] := by
  let started : Notify Nat Unit := { incomingFiles := some [7] }
  let ended : Notify Nat Unit := { incomingFiles := some [] }
  let evs : List (Event Nat Unit) :=
    [.receive started { now₁ := 10, now₂ := 10 }, .receive ended { now₁ := 20, now₂ := 20 }]
  have hrun : Run Step (.init 1) evs _ := (Run.nil.snoc (.receive rfl)).snoc (.receive rfl)
  exact ⟨evs, _, hrun, rfl, rfl, rfl, rfl⟩

end Multiport.IpnBus

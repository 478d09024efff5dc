import Mathlib.Order.Lattice.Nat
import Multiport.Eventbus.Bus

/-!
# The order of events

What a client has been handed, delivered or still in its queue, is a subsequence of the events
that the bus has routed, followed by the one it is routing once that is past the client (`Inv`).
An event stays in this sequence from its routing on as long as the subscription does
(`Accounted`).
-/

namespace Multiport.Eventbus

open Lib List Function SlidingQueue

variable {Ty Cl E : Type}

/-- The events in the queue of a client that it has yet to deliver. -/
def Sub.pending (sub : Sub Ty E) : List (Nat × E) :=
  match sub.pc with
  | .calling _ => sub.vals.contents.tail
  | .stopped => []
  | _ => sub.vals.contents

/-- The events that a client has delivered or is going to. -/
def Sub.handed (sub : Sub Ty E) : List (Nat × E) := sub.delivered ++ sub.pending

/-! ## Steps of a client -/

namespace Sub

variable {sub : Sub Ty E} {x : Nat × E}

theorem handed_wait (hpc : sub.pc = .top) : { sub with pc := .selecting }.handed = sub.handed := by
  simp [handed, pending, hpc]

theorem handed_send (hpc : sub.pc = .top) : { sub with pc := .sending x }.handed = sub.handed := by
  simp [handed, pending, hpc]

/-- A call delivers the first event of the queue before it is dropped. -/
theorem handed_call (hpc : sub.pc = .top) (hpeek : sub.vals.peek = some x) :
    { sub with pc := .calling x, delivered := sub.delivered ++ [x] }.handed = sub.handed := by
  simp only [handed, pending, hpc]
  rw [contents_eq_cons hpeek]
  simp

theorem handed_accept {grow : Nat → Nat} {vals : SlidingQueue (Nat × E)}
    (haccepts : sub.pc.Accepts) (hadd : sub.vals.add grow x = some vals)
    (hdispatching : ∀ y, sub.pc = .sending y ∨ sub.pc = .calling y → sub.vals.peek = some y) :
    { sub with vals, pc := sub.pc.accepted }.handed = sub.handed ++ [x] := by
  have hcontents := contents_of_add grow hadd
  cases hsub : sub.pc with
  | top | stopped => simp [hsub, SubPc.Accepts] at haccepts
  | selecting | sending y => simp [handed, pending, hsub, SubPc.accepted, hcontents]
  | calling y =>
    have hcons := contents_eq_cons (hdispatching y (.inr hsub))
    simp only [handed, pending, hsub, SubPc.accepted, hcontents]
    rw [hcons]
    simp

variable [Inhabited E]

theorem handed_receive (hpc : sub.pc = .sending x) (hpeek : sub.vals.peek = some x) :
    { sub with
      vals := sub.vals.drop, pc := .top, delivered := sub.delivered ++ [x] }.handed =
      sub.handed := by
  simp only [handed, pending, hpc]
  rw [contents_eq_cons hpeek]
  simp

theorem handed_callDone (hpc : sub.pc = .calling x) :
    { sub with vals := sub.vals.drop, pc := .top }.handed = sub.handed := by
  simp [handed, pending, hpc]

end Sub

namespace Bus

variable [DecidableEq Cl]

/-- What the client may have been handed of the events that are not routed. -/
def ahead (s : Bus Ty Cl E) (c : Cl) : List (Nat × E) :=
  match s.pc with
  | .delivering x cs => if c ∈ cs then [] else [x]
  | .stopped => s.vals.contents
  | _ => []

/-- What every step keeps. -/
structure Inv (s : Bus Ty Cl E) : Prop where
  numbered : s.accepted.map Prod.fst = List.range s.accepted.length
  accepted : s.accepted = s.routed ++ s.vals.contents
  handed : ∀ c, (s.subs c).handed.Sublist (s.routed ++ s.ahead c)
  idle : s.pc = .selecting → s.vals.isEmpty = true
  routing : ∀ x cs, s.pc = .delivering x cs → s.vals.peek = some x ∧ cs.Nodup
  dispatching : ∀ c x, (s.subs c).pc = .sending x ∨ (s.subs c).pc = .calling x →
    (s.subs c).vals.peek = some x
  topics : ∀ t, (s.topics t).Nodup
  outputs : ∀ c t, s.Registered c t → (s.subs c).outputs t ≠ none
  stopped : ∀ c, (s.subs c).pc = .stopped → (s.subs c).isOpen = false

/-! ## Steps of the bus -/

namespace Inv

variable {s t : Bus Ty Cl E} {ty : E → Ty} {grow : Nat → Nat} {x : Nat × E} {c : Cl}

variable (h : Inv s)

include h

/-- Events are accepted in the order of their numbers. -/
theorem pairwise : s.accepted.Pairwise fun x y => x.1 < y.1 := by
  have hrange : (s.accepted.map Prod.fst).Pairwise (· < ·) := by
    rw [h.numbered]
    exact pairwise_lt_range
  exact pairwise_map.1 hrange

theorem of_subs_eq (hsubs : t.subs = s.subs) (htopics : t.topics = s.topics)
    (hnumbered : t.accepted.map Prod.fst = List.range t.accepted.length)
    (haccepted : t.accepted = t.routed ++ t.vals.contents)
    (hahead : ∀ c, (s.routed ++ s.ahead c).Sublist (t.routed ++ t.ahead c))
    (hidle : t.pc = .selecting → t.vals.isEmpty = true)
    (hrouting : ∀ x cs, t.pc = .delivering x cs → t.vals.peek = some x ∧ cs.Nodup) : Inv t where
  numbered := hnumbered
  accepted := haccepted
  handed c := by
    rw [hsubs]
    exact (h.handed c).trans (hahead c)
  idle := hidle
  routing := hrouting
  dispatching := hsubs ▸ h.dispatching
  topics := htopics ▸ h.topics
  outputs c t' hreg := by
    rw [hsubs]
    exact h.outputs c t' ⟨hsubs ▸ hreg.isOpen, htopics ▸ hreg.topic⟩
  stopped := hsubs ▸ h.stopped

theorem setSub {sub : Sub Ty E} (hhanded : sub.handed.Sublist (s.routed ++ s.ahead c))
    (hdispatching : ∀ x, sub.pc = .sending x ∨ sub.pc = .calling x → sub.vals.peek = some x)
    (houtputs : ∀ t, sub.isOpen = true → c ∈ s.topics t → sub.outputs t ≠ none)
    (hstopped : sub.pc = .stopped → sub.isOpen = false) : Inv (s.setSub c sub) := by
  -- what holds of the client and of all others before
  have hall (P : Cl → Sub Ty E → Prop) (hsub : P c sub) (hsubs : ∀ c', P c' (s.subs c')) (c' : Cl) :
      P c' ((s.setSub c sub).subs c') :=
    (forall_update_iff s.subs P).2 ⟨hsub, fun c' _ => hsubs c'⟩ c'
  exact { h with
    handed := hall (fun c sub => sub.handed.Sublist (s.routed ++ s.ahead c)) hhanded h.handed
    dispatching := hall (fun _ sub => ∀ x, sub.pc = .sending x ∨ sub.pc = .calling x →
      sub.vals.peek = some x) hdispatching h.dispatching
    outputs := fun c' t hreg => hall (fun c sub => sub.isOpen = true → c ∈ s.topics t →
      sub.outputs t ≠ none) (houtputs t) (fun c hopen htopic => h.outputs c t ⟨hopen, htopic⟩) c'
      hreg.isOpen hreg.topic
    stopped := hall (fun _ sub => sub.pc = .stopped → sub.isOpen = false) hstopped h.stopped }

variable {vals : SlidingQueue (Nat × E)}

theorem accept {e : E} {pc} (hadd : s.vals.add grow (s.accepted.length, e) = some vals)
    (hpc : pc = .top ∧ s.pc = .selecting ∨ pc = s.pc ∧ ∃ x cs, s.pc = .delivering x cs) :
    Inv { s with accepted := s.accepted ++ [(s.accepted.length, e)], vals, pc } := by
  have hcontents := contents_of_add grow hadd
  refine h.of_subs_eq rfl rfl ?_ ?_ (fun c => ?_) (fun hidle => ?_) fun x cs hdelivering => ?_
  · rw [map_append, h.numbered, length_append, map_singleton, length_singleton,
      range_succ]
  · rw [hcontents, ← append_assoc, ← h.accepted]
  · rcases hpc with ⟨rfl, hpc⟩ | ⟨rfl, x, cs, hpc⟩ <;> simp [ahead, hpc]
  · rcases hpc with ⟨rfl, -⟩ | ⟨rfl, x, cs, hpc⟩
    · cases hidle
    · cases hpc.symm.trans hidle
  · rcases hpc with ⟨rfl, hpc⟩ | ⟨rfl, -⟩
    · cases hdelivering
    · obtain ⟨hpeek, hnodup⟩ := h.routing x cs hdelivering
      refine ⟨?_, hnodup⟩
      rw [peek_eq_head?] at hpeek ⊢
      rw [hcontents, List.head?_append, hpeek]
      rfl

theorem setTopics {topics} (hnodup : ∀ t, (topics t).Nodup)
    (houtputs : ∀ c t, (s.subs c).isOpen = true → c ∈ topics t → (s.subs c).outputs t ≠ none) :
    Inv { s with topics } :=
  { h with topics := hnodup, outputs := fun c t hreg => houtputs c t hreg.isOpen hreg.topic }

theorem pass {cs : List Cl} (hpc : s.pc = .delivering x (c :: cs)) :
    Inv { s with pc := .delivering x cs } := by
  obtain ⟨hpeek, hnodup⟩ := h.routing _ _ hpc
  refine h.of_subs_eq rfl rfl h.numbered h.accepted (fun c' => ?_) nofun fun y cs' hdelivering => ?_
  · refine .append_left ?_ _
    simp only [ahead, hpc]
    by_cases hmem : c' ∈ cs
    · simp [hmem]
    · split
      · exact nil_sublist _
      · exact .refl _
  · obtain ⟨rfl, rfl⟩ := BusPc.delivering.inj hdelivering
    exact ⟨hpeek, hnodup.of_cons⟩

theorem deliver {cs : List Cl} (hpc : s.pc = .delivering x (c :: cs))
    (haccepts : (s.subs c).pc.Accepts) (hadd : (s.subs c).vals.add grow x = some vals) :
    Inv ({ s with pc := .delivering x cs }.setSub c
      { s.subs c with vals, pc := (s.subs c).pc.accepted }) := by
  obtain ⟨hpeek, hnodup⟩ := h.routing _ _ hpc
  have hcontents := contents_of_add grow hadd
  have hahead : s.ahead c = [] := by simp [ahead, hpc]
  have hahead' : { s with pc := .delivering x cs }.ahead c = [x] := by
    simp [ahead, (nodup_cons.1 hnodup).1]
  refine (h.pass hpc).setSub ?_ (fun y hy => ?_) (fun t hopen htopic => ?_) fun hstopped => ?_
  · rw [hahead', Sub.handed_accept haccepts hadd (h.dispatching c)]
    refine .append_right ?_ _
    have hhanded := h.handed c
    rw [hahead, append_nil] at hhanded
    exact hhanded
  · have hold : (s.subs c).vals.peek = some y := by
      refine h.dispatching c y ?_
      cases hsub : (s.subs c).pc <;> simp_all [SubPc.accepted]
    rw [peek_eq_head?] at hold ⊢
    rw [hcontents, List.head?_append, hold]
    rfl
  · exact h.outputs c t ⟨hopen, htopic⟩
  · refine h.stopped c ?_
    cases hsub : (s.subs c).pc <;> simp_all [SubPc.accepted]

variable [DecidableEq Ty]

theorem subscribe {t' : Ty} {kind : Kind} (hopen : (s.subs c).isOpen = true)
    (hnew : (s.subs c).outputs t' = none) :
    Inv ({ s with topics := update s.topics t' (s.topics t' ++ [c]) }.setSub c
      { s.subs c with outputs := update (s.subs c).outputs t' (some kind) }) := by
  have hnot : c ∉ s.topics t' := fun hmem => h.outputs c t' ⟨hopen, hmem⟩ hnew
  have hsub : Inv (s.setSub c
      { s.subs c with outputs := update (s.subs c).outputs t' (some kind) }) := by
    refine h.setSub (h.handed c) (h.dispatching c) (fun t hopen htopic => ?_) (h.stopped c)
    change update (s.subs c).outputs t' (some kind) t ≠ none
    rw [update_apply]
    split
    · exact Option.some_ne_none kind
    · exact h.outputs c t ⟨hopen, htopic⟩
  refine hsub.setTopics (fun t => ?_) fun c' t hopen' htopic => ?_
  · change (update s.topics t' (s.topics t' ++ [c]) t).Nodup
    rw [update_apply]
    split
    · rw [← concat_eq_append]
      exact (h.topics t').concat hnot
    · exact h.topics t
  · change c' ∈ update s.topics t' (s.topics t' ++ [c]) t at htopic
    rw [update_apply] at htopic
    split at htopic
    next ht =>
      subst ht
      rcases mem_append.1 htopic with hold | hnew
      · exact hsub.outputs c' t ⟨hopen', hold⟩
      · obtain rfl := mem_singleton.1 hnew
        change (update s.subs c' _ c').outputs t ≠ none
        simp
    next => exact hsub.outputs c' t ⟨hopen', htopic⟩

theorem unsubscribe (c : Cl) (t' : Ty) :
    Inv ({ s with topics := update s.topics t' ((s.topics t').erase c) }.setSub c
      { s.subs c with outputs := update (s.subs c).outputs t' none }) := by
  have hmem : ∀ c' t, c' ∈ update s.topics t' ((s.topics t').erase c) t →
      c' ∈ s.topics t ∧ (c' = c → t ≠ t') := by
    intro c' t htopic
    rw [update_apply] at htopic
    split at htopic
    next ht =>
      subst ht
      refine ⟨mem_of_mem_erase htopic, ?_⟩
      rintro rfl
      exact absurd htopic (h.topics t).not_mem_erase
    next ht => exact ⟨htopic, fun _ => ht⟩
  have htopics : Inv { s with topics := update s.topics t' ((s.topics t').erase c) } := by
    refine h.setTopics (fun t => ?_) fun c' t hopen htopic =>
      h.outputs c' t ⟨hopen, (hmem c' t htopic).1⟩
    rw [update_apply]
    split
    · exact (h.topics t').erase c
    · exact h.topics t
  refine htopics.setSub (h.handed c) (h.dispatching c) (fun t hopen htopic => ?_) (h.stopped c)
  obtain ⟨htopic, hne⟩ := hmem c t htopic
  change update (s.subs c).outputs t' none t ≠ none
  rw [update_of_ne (hne rfl)]
  exact h.outputs c t ⟨hopen, htopic⟩

variable [Inhabited E]

/-- **Every step keeps the invariant.** -/
theorem step {a : Action Ty Cl E} (hstep : Step ty grow s a t) : Inv t := by
  -- a client that only has less to deliver
  have hclient : ∀ {c : Cl} {sub : Sub Ty E}, sub.handed.Sublist (s.subs c).handed →
      (∀ x, sub.pc = .sending x ∨ sub.pc = .calling x → sub.vals.peek = some x) →
      sub.isOpen = (s.subs c).isOpen → sub.outputs = (s.subs c).outputs →
      (sub.pc = .stopped → sub.isOpen = false) → Inv (s.setSub c sub) := by
    intro c sub hhanded hdispatching hopen houtputs hstopped
    refine h.setSub (hhanded.trans (h.handed c)) hdispatching (fun t hopen' htopic => ?_) hstopped
    rw [houtputs]
    exact h.outputs c t ⟨hopen ▸ hopen', htopic⟩
  cases hstep with
  | acceptIdle hpc hadd => exact h.accept hadd (.inl ⟨rfl, hpc⟩)
  | acceptBusy hpc _ hadd => exact h.accept hadd (.inr ⟨rfl, _, _, hpc⟩)
  | wait hpc hempty =>
    refine h.of_subs_eq rfl rfl h.numbered h.accepted (fun c => ?_) (fun _ => hempty) nofun
    simp [ahead, hpc]
  | @route x hpc hpeek =>
    refine h.of_subs_eq rfl rfl h.numbered h.accepted (fun c => ?_) nofun fun y cs hdelivering => ?_
    · simp [ahead, hpc]
    · obtain ⟨rfl, rfl⟩ := BusPc.delivering.inj hdelivering
      exact ⟨hpeek, h.topics _⟩
  | @deliver x c cs vals hpc haccepts hadd => exact h.deliver hpc haccepts hadd
  | @skip x c cs hpc hclosed => exact h.pass hpc
  | @finish x hpc =>
    obtain ⟨hpeek, -⟩ := h.routing _ _ hpc
    refine h.of_subs_eq rfl rfl h.numbered ?_ (fun c => ?_) nofun nofun
    · rw [contents_drop, append_assoc, singleton_append,
        ← contents_eq_cons hpeek]
      exact h.accepted
    · simp [ahead, hpc]
  | stop hpc =>
    refine h.of_subs_eq rfl rfl h.numbered h.accepted (fun c => ?_) nofun nofun
    refine .append_left ?_ _
    rcases hpc with hpc | ⟨x, c', cs, hpc⟩
    · simp [ahead, hpc]
    obtain ⟨hpeek, -⟩ := h.routing _ _ hpc
    simp only [ahead, hpc]
    split
    · exact nil_sublist _
    · rw [contents_eq_cons hpeek]
      simp
  | @subscribe c t' kind hopen hnew => exact h.subscribe hopen hnew
  | unsubscribe c t' => exact h.unsubscribe c t'
  | close c =>
    exact h.setSub (h.handed c) (h.dispatching c) nofun fun _ => rfl
  | @stopSub c hclosed haccepts =>
    refine hclient ?_ (by simp) rfl rfl fun _ => hclosed
    simp [Sub.handed, Sub.pending]
  | @clear c hpc =>
    refine h.setSub (h.handed c) (h.dispatching c) (fun t hopen => ?_) (h.stopped c)
    rw [h.stopped c hpc] at hopen
    cases hopen
  | @waitSub c hpc hempty =>
    exact hclient (by rw [Sub.handed_wait hpc]) (by simp) rfl rfl nofun
  | @dropSub c x hpc hpeek hsub =>
    refine hclient ?_ (fun y hy => ?_) rfl rfl (h.stopped c)
    · simp only [Sub.handed, Sub.pending, hpc, contents_drop]
      exact .append_left (tail_sublist _) _
    · simp [hpc] at hy
  | @send c x hpc hpeek hsub =>
    exact hclient (by rw [Sub.handed_send hpc]) (by simpa using hpeek) rfl rfl nofun
  | @call c x hpc hpeek hsub =>
    exact hclient (by rw [Sub.handed_call hpc hpeek]) (by simpa using hpeek) rfl rfl nofun
  | @receive c x hpc =>
    have hpeek := h.dispatching c x (.inl hpc)
    exact hclient (by rw [Sub.handed_receive hpc hpeek]) (by simp) rfl rfl nofun
  | @callDone c x hpc =>
    exact hclient (by rw [Sub.handed_callDone hpc]) (by simp) rfl rfl nofun

end Inv

/-! ## Events that are not skipped -/

/-- The client has been handed the event, or is going to be before any later one. -/
def Accounted (s : Bus Ty Cl E) (c : Cl) (x : Nat × E) : Prop :=
  x ∈ (s.subs c).handed ∨ (∃ cs, s.pc = .delivering x cs ∧ c ∈ cs) ∨
    s.pc = .stopped ∧ ∀ y ∈ (s.subs c).handed, y.1 < x.1

variable {s t : Bus Ty Cl E} {ty : E → Ty} {grow : Nat → Nat} {x : Nat × E} {c : Cl}

/-- What the client has been handed is part of what was accepted. -/
theorem Inv.handed_sublist (h : Inv s) (c : Cl) : (s.subs c).handed.Sublist s.accepted := by
  refine (h.handed c).trans ?_
  rw [h.accepted]
  refine .append_left ?_ _
  unfold ahead
  split
  next hpc =>
    rw [contents_eq_cons (h.routing _ _ hpc).1]
    split
    · exact nil_sublist _
    · simp
  · exact .refl _
  · exact nil_sublist _

/-- While an event is on its way to a client, that has been handed only earlier ones. -/
theorem Inv.lt_of_mem_handed (h : Inv s) {cs : List Cl} (hpc : s.pc = .delivering x cs)
    (hmem : c ∈ cs) {y : Nat × E} (hy : y ∈ (s.subs c).handed) : y.1 < x.1 := by
  have hrouted : y ∈ s.routed := by
    have hsub := h.handed c
    simp only [ahead, hpc, hmem, if_true, append_nil] at hsub
    exact hsub.subset hy
  have hpairwise := h.pairwise
  rw [h.accepted, contents_eq_cons (h.routing _ _ hpc).1, pairwise_append] at hpairwise
  exact hpairwise.2.2 y hrouted x mem_cons_self

/-- A later event is delivered only after the event. -/
theorem Accounted.mem_before (h : Accounted s c x) (hinv : Inv s) {l₁ l₂}
    {y : Nat × E} (hdelivered : (s.subs c).delivered = l₁ ++ y :: l₂) (hlt : x.1 < y.1) :
    x ∈ l₁ := by
  have hhanded : (s.subs c).handed = l₁ ++ y :: (l₂ ++ (s.subs c).pending) := by
    rw [Sub.handed, hdelivered, append_assoc, cons_append]
  have hy : y ∈ (s.subs c).handed := by
    rw [hhanded]
    exact mem_append_right _ mem_cons_self
  rcases h with hx | ⟨cs, hpc, hmem⟩ | ⟨-, hall⟩
  · have hpairwise := hinv.pairwise.sublist (hinv.handed_sublist c)
    rw [hhanded] at hx hpairwise
    rcases mem_append.1 hx with hx | hx
    · exact hx
    · rcases mem_cons.1 hx with rfl | hx
      · exact absurd hlt (lt_irrefl _)
      · have hgt := rel_of_pairwise_cons (pairwise_append.1 hpairwise).2.1 hx
        exact absurd (lt_trans hlt hgt) (lt_irrefl _)
  · exact absurd (lt_trans hlt (hinv.lt_of_mem_handed hpc hmem hy)) (lt_irrefl _)
  · exact absurd (lt_trans hlt (hall y hy)) (lt_irrefl _)

theorem inv_init : Inv ({} : Bus Ty Cl E) where
  numbered := rfl
  accepted := rfl
  handed _ := .refl _
  idle _ := rfl
  routing := by simp
  dispatching := by simp
  topics _ := nodup_nil
  outputs _ _ hreg := absurd hreg.topic not_mem_nil
  stopped := by simp

variable [DecidableEq Ty] [Inhabited E]

variable {a : Action Ty Cl E}

/-- What a step does to what a client with a subscription has been handed: nothing; or the event
that the bus is routing comes to it; or the first event in its queue goes, because it has no
subscriber. -/
theorem Step.handed_cases (hinv : Inv s) (hstep : Step ty grow s a t) {t' : Ty}
    (hreg : t.Registered c t') : (t.subs c).handed = (s.subs c).handed ∨
      (∃ y cs, s.pc = .delivering y (c :: cs) ∧ (t.subs c).handed = (s.subs c).handed ++ [y]) ∨
      ∃ y l₁ l₂, ty y.2 ≠ t' ∧ (s.subs c).handed = l₁ ++ y :: l₂ ∧
        (t.subs c).handed = l₁ ++ l₂ := by
  -- a step of one client
  have hclient : ∀ {c' : Cl} {sub : Sub Ty E}, (c = c' → sub.handed = (s.subs c').handed) →
      (update s.subs c' sub c).handed = (s.subs c).handed := by
    intro c' sub heq
    rw [update_apply]
    split
    next hc =>
      subst hc
      exact heq rfl
    next => rfl
  have hinv' := hinv.step hstep
  cases hstep with
  | acceptIdle | acceptBusy | wait | route | skip | finish | stop => exact .inl rfl
  | @deliver x c' cs vals hpc haccepts hadd =>
    by_cases hc : c = c'
    · subst hc
      refine .inr (.inl ⟨x, cs, hpc, ?_⟩)
      change (update s.subs c _ c).handed = _
      rw [update_self]
      exact Sub.handed_accept haccepts hadd (hinv.dispatching c)
    · exact .inl (hclient fun heq => absurd heq hc)
  | subscribe | unsubscribe | close | clear => exact .inl (hclient fun _ => rfl)
  | @stopSub c' hclosed haccepts =>
    refine .inl (hclient fun heq => ?_)
    subst heq
    have hopen := hreg.isOpen
    change (update s.subs c _ c).isOpen = true at hopen
    rw [update_self] at hopen
    exact absurd (hclosed.symm.trans hopen) Bool.false_ne_true
  | waitSub hpc => exact .inl (hclient fun _ => Sub.handed_wait hpc)
  | send hpc => exact .inl (hclient fun _ => Sub.handed_send hpc)
  | call hpc hpeek => exact .inl (hclient fun _ => Sub.handed_call hpc hpeek)
  | @receive c' x hpc =>
    exact .inl (hclient fun _ => Sub.handed_receive hpc (hinv.dispatching c' x (.inl hpc)))
  | callDone hpc => exact .inl (hclient fun _ => Sub.handed_callDone hpc)
  | @dropSub c' x hpc hpeek hsub =>
    by_cases hc : c = c'
    · subst hc
      have houtputs := hinv'.outputs c t' hreg
      change (update s.subs c _ c).outputs t' ≠ none at houtputs
      rw [update_self] at houtputs
      refine .inr (.inr ⟨x, (s.subs c).delivered, (s.subs c).vals.contents.tail, ?_, ?_, ?_⟩)
      · rintro rfl
        exact houtputs hsub
      · rw [← contents_eq_cons hpeek]
        simp [Sub.handed, Sub.pending, hpc]
      · change (update s.subs c _ c).handed = _
        simp [Sub.handed, Sub.pending, hpc]
    · exact .inl (hclient fun heq => absurd heq hc)

/-- Where the bus is after a step, when it was routing an event. -/
theorem Step.pc_of_delivering {cs : List Cl} (hstep : Step ty grow s a t)
    (hpc : s.pc = .delivering x cs) :
    t.pc = .delivering x cs ∨ (a = .stop ∧ t.pc = .stopped) ∨ cs = [] ∨
      ∃ c cs', cs = c :: cs' ∧ t.pc = .delivering x cs' ∧ (a = .deliver c ∨ a = .skip c) := by
  cases hstep with
  | acceptIdle hpc' | wait hpc' | route hpc' =>
    cases hpc.symm.trans hpc'
  | deliver hpc' =>
    cases hpc.symm.trans hpc'
    exact .inr (.inr (.inr ⟨_, _, rfl, rfl, .inl rfl⟩))
  | skip hpc' =>
    cases hpc.symm.trans hpc'
    exact .inr (.inr (.inr ⟨_, _, rfl, rfl, .inr rfl⟩))
  | finish hpc' => exact .inr (.inr (.inl (BusPc.delivering.inj (hpc.symm.trans hpc')).2))
  | stop => exact .inr (.inl ⟨rfl, rfl⟩)
  | _ => exact .inl hpc

theorem Step.pc_of_stopped (hstep : Step ty grow s a t) (hpc : s.pc = .stopped) :
    t.pc = .stopped := by
  cases hstep with
  | acceptIdle hpc' | acceptBusy hpc' | wait hpc' | route hpc' | deliver hpc' | skip hpc'
  | finish hpc' =>
    cases hpc.symm.trans hpc'
  | stop => rfl
  | _ => exact hpc

/-- A step keeps account of an event as long as its subscription is registered. -/
theorem Accounted.step (h : Accounted s c x) (hinv : Inv s) (hstep : Step ty grow s a t)
    (hreg : t.Registered c (ty x.2)) : Accounted t c x := by
  have hcases := hstep.handed_cases hinv hreg
  rcases h with hx | ⟨cs, hpc, hmem⟩ | ⟨hpc, hall⟩
  · -- the event stays with the client
    rcases hcases with heq | ⟨y, -, -, heq⟩ | ⟨y, l₁, l₂, hne, heq, heq'⟩
    · exact .inl (heq ▸ hx)
    · rw [Accounted, heq]
      exact .inl (mem_append_left _ hx)
    rw [heq] at hx
    rw [Accounted, heq']
    refine .inl ?_
    rcases mem_append.1 hx with hx | hx
    · exact mem_append_left _ hx
    · rcases mem_cons.1 hx with rfl | hx
      · exact absurd rfl hne
      · exact mem_append_right _ hx
  · -- the event is on its way
    rcases hstep.pc_of_delivering hpc with hpc' | ⟨rfl, hpc'⟩ | rfl | ⟨c', cs', rfl, hpc', ha⟩
    · exact .inr (.inl ⟨cs, hpc', hmem⟩)
    · cases hstep
      exact .inr (.inr ⟨hpc', fun y hy => hinv.lt_of_mem_handed hpc hmem hy⟩)
    · exact absurd hmem not_mem_nil
    rcases mem_cons.1 hmem with rfl | hmem
    · rcases ha with rfl | rfl
      · cases hstep with
        | deliver hpc'' haccepts hadd =>
          cases hpc.symm.trans hpc''
          refine .inl ?_
          change x ∈ (update s.subs c _ c).handed
          rw [update_self, Sub.handed_accept haccepts hadd (hinv.dispatching c)]
          exact mem_append_right _ mem_cons_self
      · cases hstep with
        | skip _ hclosed =>
          have hopen : (s.subs c).isOpen = true := hreg.isOpen
          exact absurd ((hinv.stopped c hclosed).symm.trans hopen) Bool.false_ne_true
    · exact .inr (.inl ⟨cs', hpc', hmem⟩)
  · -- the bus has stopped and hands out nothing any more
    refine .inr (.inr ⟨hstep.pc_of_stopped hpc, fun y hy => hall y ?_⟩)
    rcases hcases with heq | ⟨z, cs, hpc', -⟩ | ⟨z, l₁, l₂, -, heq, heq'⟩
    · rwa [heq] at hy
    · cases hpc.symm.trans hpc'
    · rw [heq'] at hy
      rw [heq]
      exact mem_append.2 ((mem_append.1 hy).imp_right (mem_cons_of_mem z))

/-! ## Runs -/

/-- **Clients deliver in the order of acceptance and skip nothing.**  In every run, what a client
has delivered is a subsequence of the accepted events, which are all different; and when the
routing of an event begins while the client has a subscription to its type that stays registered,
no later event is delivered before it. -/
theorem delivered_sublist_of_run {acts : List (Action Ty Cl E)}
    (hrun : Run (Step ty grow) ({} : Bus Ty Cl E) acts s) (c : Cl) :
    (s.subs c).delivered.Sublist s.accepted ∧ s.accepted.Nodup ∧
    ∀ (x : Nat × E) (s₁ t : Bus Ty Cl E) (acts' : List (Action Ty Cl E)),
      s.vals.peek = some x → Step ty grow s .route s₁ → s.Registered c (ty x.2) →
      Run (fun u a v => Step ty grow u a v ∧ v.Registered c (ty x.2)) s₁ acts' t →
      ∀ (l₁ l₂ : List (Nat × E)) (y : Nat × E), (t.subs c).delivered = l₁ ++ y :: l₂ →
        x.1 < y.1 → x ∈ l₁ := by
  have hinv : s.Inv := Run.invariant (I := fun _ s => s.Inv) inv_init
    (fun _ _ _ _ hinv hstep => hinv.step hstep) hrun
  refine ⟨?_, ?_, fun x s₁ t acts' hpeek hroute hreg hrun' l₁ l₂ y hdelivered hlt => ?_⟩
  · exact (sublist_append_left _ _).trans (hinv.handed_sublist c)
  · refine hinv.pairwise.imp ?_
    rintro a b hlt rfl
    exact lt_irrefl _ hlt
  · -- the event is accounted for from its routing on
    have hstart : s₁.Inv ∧ s₁.Accounted c x := by
      refine ⟨hinv.step hroute, ?_⟩
      cases hroute with
      | route hpc hpeek' =>
        cases hpeek.symm.trans hpeek'
        exact .inr (.inl ⟨_, rfl, hreg.topic⟩)
    have hend : t.Inv ∧ t.Accounted c x :=
      Run.invariant (I := fun _ u => u.Inv ∧ u.Accounted c x) hstart
        (fun _ _ _ _ hu hstep => ⟨hu.1.step hstep.1, hu.2.step hu.1 hstep.1 hstep.2⟩) hrun'
    exact hend.2.mem_before hend.1 hdelivered hlt

/-- A bus with one client, subscribed on a channel. -/
def subscribed (accepted : List (Nat × Nat)) (vals : SlidingQueue (Nat × Nat))
    (pc : BusPc Unit Nat) (sub : Sub Unit Nat) : Bus Unit Unit Nat where
  accepted
  vals
  pc
  topics _ := [()]
  subs _ := { sub with outputs := fun _ => some .chan }

def oneEvent (capacity : Nat) : SlidingQueue (Nat × Nat) where
  vals := [(0, 7)]
  cap := 1
  capacity

/-- The client hands out the event while the bus still routes it. -/
def sending : Bus Unit Unit Nat :=
  subscribed [(0, 7)] (oneEvent 16) (.delivering (0, 7) [])
    { vals := oneEvent 0, pc := .sending (0, 7) }

/-- The client has delivered the event. -/
def delivered : Bus Unit Unit Nat :=
  subscribed [(0, 7)] (oneEvent 16) (.delivering (0, 7) [])
    { vals := { cap := 1 }, delivered := [(0, 7)] }

theorem exists_run_accepted : ∃ acts, Run (Step (fun _ => ()) (fun n => 2 * n + 1)) {} acts
    (subscribed [(0, 7)] (oneEvent 16) .top { pc := .selecting }) := by
  have h : Run (Step (fun _ : Nat => ()) (fun n => 2 * n + 1)) ({} : Bus Unit Unit Nat) [] {} :=
    .nil
  have h₁ := h.snoc (a := .subscribe () ()) (t := subscribed [] { capacity := 16 } .top {})
    (.subscribe .chan rfl rfl)
  have h₂ := (h₁.snoc (a := .waitSub ()) (.waitSub rfl rfl)).snoc (a := .wait) (.wait rfl rfl)
  exact ⟨_, h₂.snoc (a := .accept 7) (.acceptIdle rfl rfl)⟩

theorem exists_run_sending :
    ∃ acts, Run (Step (fun _ : Nat => ()) (fun n => 2 * n + 1)) {} acts sending := by
  obtain ⟨acts, h⟩ := exists_run_accepted
  have h₁ := (h.snoc (a := .route) (.route rfl rfl)).snoc (a := .deliver ())
    (.deliver rfl (by trivial) rfl)
  exact ⟨_, h₁.snoc (a := .dispatch ()) (.send rfl rfl rfl)⟩

/-- The client delivers two events. -/
theorem delivered_sublist_of_run_second : ∃ acts acts' s s₁ t,
    Run (Step (fun _ => ()) (fun n => 2 * n + 1)) ({} : Bus Unit Unit Nat) acts s ∧
    Step (fun _ => ()) (fun n => 2 * n + 1) s .route s₁ ∧
    Run (fun u a v => Step (fun _ => ()) (fun n => 2 * n + 1) u a v ∧ v.Registered () ()) s₁ acts'
      t ∧
    (t.subs ()).delivered = [(0, 7), (1, 8)] ∧
    ∀ l₁ l₂, (t.subs ()).delivered = l₁ ++ (1, 8) :: l₂ → (0, 7) ∈ l₁ := by
  obtain ⟨acts, h⟩ := exists_run_accepted
  have hreg : () ∈ [()] := mem_cons_self
  have h₁ : Run (fun u a v => Step (fun _ => ()) (fun n => 2 * n + 1) u a v ∧ v.Registered () ())
      (subscribed [(0, 7)] (oneEvent 16) (.delivering (0, 7) [()]) { pc := .selecting }) _ _ :=
    Run.nil.snoc (a := .deliver ()) ⟨.deliver rfl (by trivial) rfl, rfl, hreg⟩
  have h₂ := h₁.snoc (a := .dispatch ()) ⟨.send rfl rfl rfl, rfl, hreg⟩
  have h₃ := h₂.snoc (a := .receive ()) ⟨.receive rfl, rfl, hreg⟩
  have h₄ := h₃.snoc (a := .waitSub ()) ⟨.waitSub rfl rfl, rfl, hreg⟩
  have h₅ := h₄.snoc (a := .finish) ⟨.finish rfl, rfl, hreg⟩
  have h₆ := h₅.snoc (a := .wait) ⟨.wait rfl rfl, rfl, hreg⟩
  have h₇ := h₆.snoc (a := .accept 8) ⟨.acceptIdle rfl rfl, rfl, hreg⟩
  have h₈ := h₇.snoc (a := .route) ⟨.route rfl rfl, rfl, hreg⟩
  have h₉ := h₈.snoc (a := .deliver ()) ⟨.deliver rfl (by trivial) rfl, rfl, hreg⟩
  have h₁₀ := h₉.snoc (a := .dispatch ()) ⟨.send rfl rfl rfl, rfl, hreg⟩
  have h₁₁ := h₁₀.snoc (a := .receive ()) ⟨.receive rfl, rfl, hreg⟩
  refine ⟨_, _, _, _, _, h, .route rfl rfl, h₁₁, rfl, fun l₁ l₂ hl => ?_⟩
  exact (delivered_sublist_of_run h ()).2.2 _ _ _ _ rfl (.route rfl rfl) ⟨rfl, hreg⟩ h₁₁ l₁ l₂ _ hl
    (by decide)

end Bus

end Multiport.Eventbus

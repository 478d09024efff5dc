import Multiport.Eventbus.Order

/-!
# Closing a subscriber

`Close` takes the subscriber out of the table in which the pump of its client looks it up.  From
then on the pump drops the events of the type, unless it had looked up the subscriber before: it
then still waits for the event to be received, and the events behind it wait with it.  A
subscriber is known by its client and type, so this holds until the client subscribes again.
-/

namespace Multiport.Eventbus

open Lib Function

variable {Ty Cl E : Type} {ty : E → Ty} {t : Ty}

/-- The client has no subscriber for the type and is not handing out one of its events. -/
structure Sub.Silent (sub : Sub Ty E) (ty : E → Ty) (t : Ty) : Prop where
  outputs : sub.outputs t = none
  pc : ∀ x, sub.pc = .sending x ∨ sub.pc = .calling x → ty x.2 ≠ t

/-- The client is silent on the type and has been since it was `sub`. -/
structure Sub.SilentSince (sub sub' : Sub Ty E) (ty : E → Ty) (t : Ty) : Prop
    extends sub'.Silent ty t where
  delivered : ∃ l, sub'.delivered = sub.delivered ++ l ∧ ∀ x ∈ l, ty x.2 ≠ t

namespace Sub

variable {sub₀ sub sub' : Sub Ty E} {x : Nat × E}

theorem Silent.ne (h : sub.Silent ty t) {kind : Kind} (hsub : sub.outputs (ty x.2) = some kind) :
    ty x.2 ≠ t := by
  rintro rfl
  cases h.outputs.symm.trans hsub

theorem SilentSince.keep (h : SilentSince sub₀ sub ty t) (hsub : sub'.Silent ty t)
    (hdelivered : sub'.delivered = sub.delivered) : SilentSince sub₀ sub' ty t :=
  ⟨hsub, by rw [hdelivered]; exact h.delivered⟩

theorem SilentSince.deliver (h : SilentSince sub₀ sub ty t) (hsub : sub'.Silent ty t)
    (hx : ty x.2 ≠ t) (hdelivered : sub'.delivered = sub.delivered ++ [x]) :
    SilentSince sub₀ sub' ty t := by
  obtain ⟨l, hl, hall⟩ := h.delivered
  refine ⟨hsub, l ++ [x], by rw [hdelivered, hl, List.append_assoc], ?_⟩
  exact List.forall_mem_append.2 ⟨hall, List.forall_mem_singleton.2 hx⟩

end Sub

namespace Bus

variable [DecidableEq Ty] [DecidableEq Cl] [Inhabited E] {s s₁ u v : Bus Ty Cl E}
  {grow : Nat → Nat} {a : Action Ty Cl E} {acts : List (Action Ty Cl E)} {c : Cl} {sub : Sub Ty E}

theorem Step.silentSince (hstep : Step ty grow u a v) (ha : a ≠ .subscribe c t)
    (h : sub.SilentSince (u.subs c) ty t) : sub.SilentSince (v.subs c) ty t := by
  have hclient : ∀ {c' : Cl} {sub' : Sub Ty E}, (c' = c → sub.SilentSince (u.subs c') ty t →
      sub.SilentSince sub' ty t) → sub.SilentSince (update u.subs c' sub' c) ty t := by
    intro c' sub' hsub
    rw [update_apply]
    split
    next hc => exact hsub hc.symm (hc ▸ h)
    next => exact h
  cases hstep with
  | acceptIdle | acceptBusy | wait | route | skip | finish | stop => exact h
  | deliver =>
    refine hclient fun _ h => h.keep ⟨h.outputs, fun x hx => h.pc x ?_⟩ rfl
    cases hpc : (u.subs _).pc <;> simp_all [SubPc.accepted]
  | subscribe =>
    refine hclient fun hc h => h.keep ⟨(update_of_ne ?_ ..).trans h.outputs, h.pc⟩ rfl
    rintro rfl
    exact ha (by rw [hc])
  | unsubscribe =>
    exact hclient fun _ h => h.keep ⟨by simp [update_apply, h.outputs], h.pc⟩ rfl
  | close | dropSub => exact hclient fun _ h => h.keep ⟨h.outputs, h.pc⟩ rfl
  | clear => exact hclient fun _ h => h.keep ⟨rfl, h.pc⟩ rfl
  | stopSub | waitSub | callDone => exact hclient fun _ h => h.keep ⟨h.outputs, by simp⟩ rfl
  | send _ _ hsub =>
    exact hclient fun _ h => h.keep ⟨h.outputs, by simpa using h.ne hsub⟩ rfl
  | call _ _ hsub =>
    exact hclient fun _ h => h.deliver ⟨h.outputs, by simpa using h.ne hsub⟩ (h.ne hsub) rfl
  | receive hpc =>
    exact hclient fun _ h => h.deliver ⟨h.outputs, by simp⟩ (h.pc _ (.inl hpc)) rfl

/-- **After `Close`, nothing of its type is handed out, and no other event waits behind one of
its type**, unless the pump was handing out an event of the type when the subscriber was
removed: the pump only waits with events of other types, and drops those of this type. -/
theorem silent_of_close (hclose : Step ty grow s (.unsubscribe c t) s₁)
    (hpc : ∀ x, (s.subs c).pc = .sending x ∨ (s.subs c).pc = .calling x → ty x.2 ≠ t)
    (hrun : Run (Step ty grow) s₁ acts u) (hacts : .subscribe c t ∉ acts) :
    (∃ l, (u.subs c).delivered = (s.subs c).delivered ++ l ∧ ∀ x ∈ l, ty x.2 ≠ t) ∧
    (∀ x, (u.subs c).pc = .sending x ∨ (u.subs c).pc = .calling x → ty x.2 ≠ t) ∧
    ∀ x, (u.subs c).pc = .top → (u.subs c).vals.peek = some x → ty x.2 = t →
      ∃ v, Step ty grow u (.dropSub c) v := by
  have hstart : (s.subs c).SilentSince (s₁.subs c) ty t := by
    cases hclose
    simp only [setSub, update_self]
    exact ⟨⟨update_self .., hpc⟩, [], (List.append_nil _).symm, nofun⟩
  have hend : (s.subs c).SilentSince (u.subs c) ty t :=
    Run.invariant_of_forall (P := fun a => a ≠ .subscribe c t)
      (I := fun u => (s.subs c).SilentSince (u.subs c) ty t) hstart
      (fun _ _ _ ha h hstep => hstep.silentSince ha h) hrun fun a ha heq => hacts (heq ▸ ha)
  refine ⟨hend.delivered, hend.pc, ?_⟩
  rintro x htop hpeek rfl
  exact ⟨_, .dropSub htop hpeek hend.outputs⟩

theorem silent_of_close_delivered :
    ∃ s₁, Step (fun _ => ()) (fun n => 2 * n + 1) delivered (.unsubscribe () ()) s₁ ∧
      ∃ l, (s₁.subs ()).delivered = [(0, 7)] ++ l ∧ ∀ x ∈ l, () ≠ () :=
  have h : Step (fun _ => ()) (fun n => 2 * n + 1) delivered (.unsubscribe () ()) _ :=
    .unsubscribe () ()
  ⟨_, h, (silent_of_close h (by simp [delivered, subscribed]) .nil (by simp)).1⟩

/-- An event that is handed out when its subscriber is closed is received after that. -/
theorem exists_received_after_close : ∃ acts s s₁ u,
    Run (Step (fun _ => ()) (fun n => 2 * n + 1)) ({} : Bus Unit Unit Nat) acts s ∧
    Step (fun _ => ()) (fun n => 2 * n + 1) s (.unsubscribe () ()) s₁ ∧
    Step (fun _ => ()) (fun n => 2 * n + 1) s₁ (.receive ()) u ∧
    (s.subs ()).delivered = [] ∧ (u.subs ()).delivered = [(0, 7)] := by
  obtain ⟨acts, hrun⟩ := exists_run_sending
  exact ⟨acts, _, _, _, hrun, .unsubscribe () (), .receive rfl, rfl, rfl⟩

end Bus

end Multiport.Eventbus

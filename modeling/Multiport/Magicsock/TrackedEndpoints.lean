import Multiport.Magicsock.EndpointTracker

/-!
# What the endpoint tracker remembers

Each phase of `update` is first described for the heap of one IP address: extending is a map
over its entries, removing is a filter, and adding drops an entry only in favour of
`endpointTrackerMaxPerAddr` entries that expire no earlier.  `Tracks` relates the heap to the
updates so far, and is kept by a whole update.
-/

namespace Multiport.Magicsock

open Lib Net Tailcfg List EndpointTrackerEntry Tailcfg.Endpoint

/-! ## The phases on one heap -/

namespace EndpointHeap

open EndpointTrackerEntry (untilTime)

/-- The heap order of `Less`. -/
abbrev Ordered (h : EndpointHeap) : Prop := Heap.IsHeap untilTime h

/-- No endpoint has two entries. -/
def Distinct (h : EndpointHeap) : Prop := (h.map endpoint).Nodup

/-- The entry after its endpoint was extended, if that is one of `eps`. -/
def renew (t : Time) (eps : List Tailcfg.Endpoint) (x : EndpointTrackerEntry) :
    EndpointTrackerEntry :=
  if x.endpoint ∈ eps then ⟨x.endpoint, t⟩ else x

variable {h h' : EndpointHeap} {x y : EndpointTrackerEntry} {t now : Time} {fuel : Nat}
  {ep : Tailcfg.Endpoint} {eps : List Tailcfg.Endpoint}

theorem endpoint_renew (t : Time) (eps : List Tailcfg.Endpoint) (x : EndpointTrackerEntry) :
    (renew t eps x).endpoint = x.endpoint := by
  rw [renew]
  split <;> rfl

theorem le_untilTime_renew {s : Time} (ht : s ≤ t) (hx : s ≤ x.untilTime)
    (eps : List Tailcfg.Endpoint) : s ≤ (renew t eps x).untilTime := by
  rw [renew]
  split
  · exact ht
  · exact hx

theorem map_renew_of_notMem (hne : ∀ x ∈ h, x.endpoint ∉ eps) : h.map (renew t eps) = h :=
  (map_congr_left fun x hx => if_neg (hne x hx)).trans (map_id' h)

theorem Distinct.subperm (hd : h.Distinct) (hsub : h'.Subperm h) : h'.Distinct := by
  obtain ⟨l, hperm, hsublist⟩ := hsub
  exact (hperm.map _).nodup_iff.1 (List.Nodup.sublist (hsublist.map _) hd)

theorem Distinct.map_renew (hd : h.Distinct) (t : Time) (eps : List Tailcfg.Endpoint) :
    Distinct (h.map (renew t eps)) := by
  have hmap : (h.map (renew t eps)).map endpoint =
      h.map endpoint := by
    rw [map_map]
    exact map_congr_left fun x _ => endpoint_renew t eps x
  rwa [Distinct, hmap]

/-- The entry that `extendLocked` finds is the only one that it has to change. -/
theorem Distinct.set_eq_map_renew (hd : h.Distinct) {i : Nat} (hi : i < h.length)
    (hep : h[i].endpoint = ep) : h.set i ⟨ep, t⟩ = h.map (renew t [ep]) := by
  apply ext_getElem (by simp)
  intro k hk hk'
  rw [length_map] at hk'
  rw [getElem_set, getElem_map, renew]
  rcases eq_or_ne i k with rfl | hne
  · rw [if_pos rfl, if_pos (mem_singleton.2 hep), hep]
  have hother : h[k].endpoint ≠ ep := by
    intro heq
    have hinj := nodup_iff_injective_getElem.1 hd
    have hik : (⟨i, by simpa using hi⟩ : Fin (h.map endpoint).length) =
        ⟨k, by simpa using hk'⟩ := by
      apply hinj
      simp only [getElem_map]
      exact hep.trans heq.symm
    exact hne (Fin.mk.inj hik)
  rw [if_neg hne, if_neg (mt mem_singleton.1 hother)]

section

variable (ho : h.Ordered)

include ho

theorem extend_spec (hd : h.Distinct) (t : Time) (ep : Tailcfg.Endpoint) :
    (h.extend t ep).Ordered ∧ (h.extend t ep).Perm (h.map (renew t [ep])) := by
  rw [extend]
  split
  next i hi =>
    obtain ⟨hlt, hep, -⟩ := List.findIdx?_eq_some_iff_getElem.1 hi
    rw [← hd.set_eq_map_renew hlt (of_decide_eq_true hep)]
    exact ho.fix hlt _
  next hi =>
    rw [map_renew_of_notMem fun x hx heq => ?_]
    · exact ⟨ho, .refl _⟩
    · have hne := List.findIdx?_eq_none_iff.1 hi x hx
      exact of_decide_eq_false hne (mem_singleton.1 heq)

theorem extendAll_spec (hd : h.Distinct) (t : Time) (eps : List Tailcfg.Endpoint) :
    Ordered (eps.foldl (extend t) h) ∧ (eps.foldl (extend t) h).Perm (h.map (renew t eps)) := by
  induction eps generalizing h with
  | nil =>
    rw [map_renew_of_notMem fun _ _ => not_mem_nil]
    exact ⟨ho, .refl _⟩
  | cons ep eps ih =>
    obtain ⟨ho', hperm⟩ := extend_spec ho hd t ep
    have hd' : (h.extend t ep).Distinct := (hd.map_renew t [ep]).subperm hperm.subperm
    obtain ⟨ho'', hperm'⟩ := ih ho' hd'
    refine ⟨ho'', hperm'.trans ((hperm.map _).trans ?_)⟩
    rw [map_map]
    refine .of_eq (map_congr_left fun x _ => ?_)
    simp only [Function.comp_apply, renew]
    split_ifs <;> simp_all

theorem popExpired_spec (hfuel : h.length ≤ fuel) (now : Time) : (popExpired now fuel h).Ordered ∧
      (popExpired now fuel h).Perm (h.filter fun x => now ≤ x.untilTime) := by
  induction fuel generalizing h with
  | zero =>
    obtain rfl := length_eq_zero_iff.1 (Nat.le_zero.1 hfuel)
    exact ⟨ho, .refl _⟩
  | succ fuel ih =>
    rw [popExpired]
    split
    next hexp =>
      obtain ⟨ho', hperm⟩ := ho.pop (length_pos_iff.1 hexp.1)
      have hlen := hperm.length_eq
      rw [length_cons] at hlen
      obtain ⟨ho'', hperm'⟩ := ih ho' (by omega)
      have hfilter := hperm.filter fun x => decide (now ≤ x.untilTime)
      rw [filter_cons_of_neg (by simpa using hexp.2)] at hfilter
      exact ⟨ho'', hperm'.trans hfilter⟩
    next hexp =>
      have hall : ∀ x ∈ h, decide (now ≤ x.untilTime) = true := by
        intro x hx
        have hpos := length_pos_of_mem hx
        have hmin := not_lt.1 fun hlt => hexp ⟨hpos, hlt⟩
        exact decide_eq_true (hmin.trans (ho.head_le hx))
      rw [filter_eq_self.2 hall]
      exact ⟨ho, .refl _⟩

omit ho in
/-- What a loop of pops down to `max` entries does to a heap: an entry is dropped only if
`max` entries are left that expire no earlier. -/
structure Evicts (max : Nat) (h h' : EndpointHeap) : Prop where
  ordered : h'.Ordered
  subperm : h'.Subperm h
  length : h'.length = min max h.length
  dropped : ∀ x ∈ h, x ∉ h' → h'.length = max ∧ ∀ y ∈ h', x.untilTime ≤ y.untilTime

theorem Evicts.refl {max : Nat} (hlen : h.length ≤ max) : Evicts max h h where
  ordered := ho
  subperm := List.Subperm.refl _
  length := (min_eq_right hlen).symm
  dropped := fun _ hx hx' => absurd hx hx'

/-- One pop before the others: the entry that it drops is the first to expire. -/
theorem Evicts.of_pop {max : Nat} (hover : max < h.length)
    (hev : Evicts max (Heap.pop untilTime h) h') : Evicts max h h' := by
  obtain ⟨-, hperm⟩ := ho.pop (length_pos_iff.1 (by omega))
  have hsub : (Heap.pop untilTime h).Subperm h :=
    (sublist_cons_self _ _).subperm.trans hperm.subperm
  have hlen := hperm.length_eq
  rw [length_cons] at hlen
  have hmax : h'.length = max := by rw [hev.length]; omega
  refine ⟨hev.ordered, hev.subperm.trans hsub, by omega, fun x hx hx' => ?_⟩
  rcases mem_cons.1 (hperm.mem_iff.2 hx) with rfl | hx
  · exact ⟨hmax, fun y hy => ho.head_le ((hev.subperm.trans hsub).subset hy)⟩
  · exact hev.dropped x hx hx'

theorem popOver_spec (hfuel : h.length ≤ fuel) :
    Evicts endpointTrackerMaxPerAddr h (popOver fuel h) := by
  induction fuel generalizing h with
  | zero => exact Evicts.refl ho (hfuel.trans (Nat.zero_le _))
  | succ fuel ih =>
    rw [popOver]
    split
    next hover =>
      obtain ⟨ho', hperm⟩ := ho.pop (length_pos_iff.1 (by omega))
      have hlen := hperm.length_eq
      rw [length_cons] at hlen
      exact Evicts.of_pop ho hover (ih ho' (by omega))
    next hover => exact Evicts.refl ho (not_lt.1 hover)

/-- `addLocked` adds an entry if the endpoint has none, and then evicts. -/
theorem add_spec (hd : h.Distinct) (t : Time) (ep : Tailcfg.Endpoint) :
    ∃ h₁ : EndpointHeap, Evicts endpointTrackerMaxPerAddr h₁ (h.add t ep) ∧ h₁.Distinct ∧
      (∀ x ∈ h, x ∈ h₁) ∧ (∀ x ∈ h₁, x ∈ h ∨ x = ⟨ep, t⟩) ∧ ∃ x ∈ h₁, x.endpoint = ep := by
  rw [add]
  split
  next hany =>
    obtain ⟨x, hx, hep⟩ := any_eq_true.1 hany
    exact ⟨h, popOver_spec ho le_rfl, hd, fun _ => id, fun _ => .inl, x, hx, of_decide_eq_true hep⟩
  next hany =>
    obtain ⟨ho', hperm⟩ := Heap.IsHeap.push ho ⟨ep, t⟩
    refine ⟨_, popOver_spec ho' le_rfl, ?_, fun x hx => ?_, fun x hx => ?_, ⟨ep, t⟩, ?_, rfl⟩
    · refine Distinct.subperm ?_ hperm.subperm
      refine nodup_cons.2 ⟨fun hmem => hany ?_, hd⟩
      obtain ⟨x, hx, hep⟩ := mem_map.1 hmem
      exact any_eq_true.2 ⟨x, hx, decide_eq_true hep⟩
    · exact hperm.mem_iff.2 (mem_cons_of_mem _ hx)
    · exact (mem_cons.1 (hperm.mem_iff.1 hx)).symm
    · exact hperm.mem_iff.2 mem_cons_self

end

/-- What `update` makes of the heap of an address. -/
def afterUpdate (a : Addr) (u : TrackerUpdate) (h : EndpointHeap) : EndpointHeap :=
  let t := u.now + endpointTrackerLifetime
  let eps := u.eps.filter fun ep => ipOf ep = a
  let h := eps.foldl (extend t) h
  eps.foldl (add t) (popExpired u.now h.length h)

end EndpointHeap

namespace EndpointTracker

/-- The cached endpoints of an address. -/
def heapOf (a : Addr) (et : EndpointTracker) : EndpointHeap := (et.endpoints.lookup a).getD []

variable (a : Addr) (t : Time) (et : EndpointTracker) (ep : Tailcfg.Endpoint)

theorem heapOf_insert (b : Addr) (h : EndpointHeap) :
    heapOf a ⟨et.endpoints.insert b h⟩ = if b = a then h else heapOf a et := by
  rw [heapOf, GoMap.lookup_insert_eq]
  rcases eq_or_ne b a with rfl | hne
  · rw [if_pos rfl, if_pos rfl, Option.getD_some]
  · rw [if_neg hne, if_neg hne.symm, heapOf]

theorem heapOf_extendLocked :
    heapOf a (et.extendLocked t ep) =
      if ipOf ep = a then (heapOf a et).extend t ep else heapOf a et := by
  rw [extendLocked]
  split
  next hnone =>
    split
    next ha =>
      rw [heapOf, ← ha, hnone]
      rfl
    · rfl
  next h hsome =>
    rw [heapOf_insert]
    refine ite_congr rfl (fun ha => ?_) fun _ => rfl
    rw [heapOf, ← ha, hsome, Option.getD_some]

theorem heapOf_removeExpiredLocked (now : Time) :
    heapOf a (et.removeExpiredLocked now) =
      .popExpired now (heapOf a et).length (heapOf a et) := by
  rw [removeExpiredLocked, heapOf, GoMap.lookup_filterMapValues, heapOf]
  cases et.endpoints.lookup a with
  | none => rfl
  | some h =>
    change (if _ then none else some _).getD [] = _
    split
    next hempty => exact (length_eq_zero_iff.1 hempty).symm
    · rfl

theorem heapOf_addLocked :
    heapOf a (et.addLocked t ep) = if ipOf ep = a then (heapOf a et).add t ep else heapOf a et := by
  rw [addLocked, heapOf_insert]
  refine ite_congr rfl (fun ha => ?_) fun _ => rfl
  rw [heapOf, ← ha]

/-- A loop over the endpoints changes the heap of an address by those of that address. -/
theorem heapOf_foldl {a : Addr} {op} {f}
    (hop : ∀ et ep, heapOf a (op et ep) = if ipOf ep = a then f (heapOf a et) ep else heapOf a et)
    (eps : List Tailcfg.Endpoint) :
    heapOf a (eps.foldl op et) = (eps.filter fun ep => ipOf ep = a).foldl f (heapOf a et) := by
  rw [foldl_filter]
  refine (foldl_hom (heapOf a) fun et ep => ?_).symm
  rw [hop]
  simp

theorem heapOf_afterUpdate (u : TrackerUpdate) :
    heapOf a (et.afterUpdate u) = (heapOf a et).afterUpdate a u := by
  rw [afterUpdate, heapOf_foldl _ (heapOf_addLocked a _), heapOf_removeExpiredLocked,
    heapOf_foldl _ (heapOf_extendLocked a _), EndpointHeap.afterUpdate]

end EndpointTracker

/-! ## The heap of an address and the updates so far -/

namespace EndpointHeap

/-- Other endpoints of the IP address of `e`, as many as the cache has room for, were input
at the time `t` or later. -/
def Crowded (us : List TrackerUpdate) (e : Tailcfg.Endpoint) (t : Time) : Prop :=
  ∃ others : Finset Tailcfg.Endpoint, endpointTrackerMaxPerAddr ≤ others.card ∧
    ∀ f ∈ others, f ≠ e ∧ ipOf f = ipOf e ∧ ∃ q ∈ us, t ≤ q.now ∧ f ∈ q.eps

/-- The endpoint `e`, input at the time `t`, has an entry, unless others crowded it out. -/
def Kept (us : List TrackerUpdate) (h : EndpointHeap) (e : Tailcfg.Endpoint) (t : Time) : Prop :=
  (∃ x ∈ h, x.endpoint = e ∧ t + endpointTrackerLifetime ≤ x.untilTime) ∨ Crowded us e t

/-- The heap of the address `a` is well formed and has only entries that come from updates. -/
structure Cached (us : List TrackerUpdate) (a : Addr) (h : EndpointHeap) : Prop where
  ordered : h.Ordered
  distinct : h.Distinct
  input : ∀ x ∈ h, ipOf x.endpoint = a ∧
    ∃ q ∈ us, x.endpoint ∈ q.eps ∧ x.untilTime = q.now + endpointTrackerLifetime

/-- The entries of the endpoints of `u` have their expiry from `u`. -/
def Renewed (u : TrackerUpdate) (h : EndpointHeap) : Prop :=
  ∀ x ∈ h, x.endpoint ∈ u.eps → x.untilTime = u.now + endpointTrackerLifetime

variable {us : List TrackerUpdate} {u : TrackerUpdate} {a : Addr} {h h' : EndpointHeap}
  {e ep : Tailcfg.Endpoint} {t : Time}

theorem Crowded.mono {us'} (hc : Crowded us e t) (hsub : us ⊆ us') : Crowded us' e t := by
  obtain ⟨others, hcard, hall⟩ := hc
  refine ⟨others, hcard, fun f hf => ?_⟩
  obtain ⟨hne, hip, q, hq, hf⟩ := hall f hf
  exact ⟨hne, hip, q, hsub hq, hf⟩

theorem Renewed.add (hr : Renewed u h) (hc : Cached us a h) (ep : Tailcfg.Endpoint) :
    Renewed u (h.add (u.now + endpointTrackerLifetime) ep) := by
  obtain ⟨h₁, hev, -, -, hnew, -⟩ := add_spec hc.ordered hc.distinct
    (u.now + endpointTrackerLifetime) ep
  intro x hx hmem
  rcases hnew x (hev.subperm.subset hx) with hx | rfl
  · exact hr x hx hmem
  · rfl

namespace Cached

variable {eps : List Tailcfg.Endpoint} (hc : Cached us a h)

include hc

/-- A full heap crowds out an endpoint that has no entry and would expire first. -/
theorem crowded (hfull : h.length = endpointTrackerMaxPerAddr)
    (ha : ipOf e = a) (he : ∀ y ∈ h, y.endpoint ≠ e)
    (hle : ∀ y ∈ h, t + endpointTrackerLifetime ≤ y.untilTime) : Crowded us e t := by
  refine ⟨(h.map endpoint).toFinset, ?_, fun f hf => ?_⟩
  · rw [toFinset_card_of_nodup hc.distinct, length_map, hfull]
  · obtain ⟨y, hy, rfl⟩ := mem_map.1 (mem_toFinset.1 hf)
    obtain ⟨hip, q, hq, hmem, huntil⟩ := hc.input y hy
    refine ⟨he y hy, hip.trans ha.symm, q, hq, ?_, hmem⟩
    have hlate := hle y hy
    rw [huntil] at hlate
    exact Int.le_of_add_le_add_right hlate

theorem add (hu : u ∈ us) (hep : ep ∈ u.eps) (ha : ipOf ep = a) :
    Cached us a (h.add (u.now + endpointTrackerLifetime) ep) := by
  obtain ⟨h₁, hev, hd, -, hnew, -⟩ := add_spec hc.ordered hc.distinct
    (u.now + endpointTrackerLifetime) ep
  refine ⟨hev.ordered, hd.subperm hev.subperm, fun x hx => ?_⟩
  rcases hnew x (hev.subperm.subset hx) with hx | rfl
  · exact hc.input x hx
  · exact ⟨ha, u, hu, hep, rfl⟩

/-- Adding an endpoint drops an entry only by crowding it out. -/
theorem kept_add (hu : u ∈ us) (hep : ep ∈ u.eps) (ha : ipOf ep = a)
    (hr : Renewed u h) (he : ipOf e = a) (hk : Kept us h e t ∨ e = ep ∧ t = u.now) :
    Kept us (h.add (u.now + endpointTrackerLifetime) ep) e t := by
  have hc' := hc.add hu hep ha
  obtain ⟨h₁, hev, hd, hold, hnew, hself⟩ := add_spec hc.ordered hc.distinct
    (u.now + endpointTrackerLifetime) ep
  have hentry : (∃ x ∈ h₁, x.endpoint = e ∧ t + endpointTrackerLifetime ≤ x.untilTime) ∨
      Crowded us e t := by
    rcases hk with (⟨x, hx, hxe, hle⟩ | hcrowd) | ⟨rfl, rfl⟩
    · exact .inl ⟨x, hold x hx, hxe, hle⟩
    · exact .inr hcrowd
    · obtain ⟨x, hx, hxe⟩ := hself
      refine .inl ⟨x, hx, hxe, ?_⟩
      rcases hnew x hx with hx | rfl
      · rw [hr x hx (hxe ▸ hep)]
      · rfl
  rcases hentry with ⟨x, hx, hxe, hle⟩ | hcrowd
  · by_cases hx' : x ∈ h.add (u.now + endpointTrackerLifetime) ep
    · exact .inl ⟨x, hx', hxe, hle⟩
    · obtain ⟨hfull, hlate⟩ := hev.dropped x hx hx'
      refine .inr (hc'.crowded hfull he (fun y hy hye => hx' ?_) fun y hy => hle.trans (hlate y hy))
      rwa [inj_on_of_nodup_map hd hx (hev.subperm.subset hy) (hxe.trans hye.symm)]
  · exact .inr hcrowd

theorem addAll (hr : Renewed u h) (hu : u ∈ us)
    (hlen : h.length ≤ endpointTrackerMaxPerAddr) (heps : ∀ ep ∈ eps, ep ∈ u.eps ∧ ipOf ep = a) :
    Cached us a (eps.foldl (.add (u.now + endpointTrackerLifetime)) h) ∧
      (eps.foldl (.add (u.now + endpointTrackerLifetime)) h).length ≤ endpointTrackerMaxPerAddr ∧
      ∀ e t, ipOf e = a → Kept us h e t ∨ e ∈ eps ∧ t = u.now →
        Kept us (eps.foldl (.add (u.now + endpointTrackerLifetime)) h) e t := by
  induction eps generalizing h with
  | nil => exact ⟨hc, hlen, fun e t _ hk => hk.resolve_right fun hmem => not_mem_nil hmem.1⟩
  | cons ep eps ih =>
    obtain ⟨hep, ha⟩ := heps ep mem_cons_self
    obtain ⟨h₁, hev, -⟩ := add_spec hc.ordered hc.distinct (u.now + endpointTrackerLifetime) ep
    have hlen' := hev.length.trans_le (min_le_left _ _)
    obtain ⟨hc', hlen'', hkept⟩ := ih (hc.add hu hep ha) (hr.add hc ep) hlen'
      fun ep hmem => heps ep (mem_cons_of_mem _ hmem)
    refine ⟨hc', hlen'', fun e t he hk => hkept e t he ?_⟩
    rcases hk with hk | ⟨hmem, rfl⟩
    · exact .inl (hc.kept_add hu hep ha hr he (.inl hk))
    · rcases mem_cons.1 hmem with rfl | hmem
      · exact .inl (hc.kept_add hu hep ha hr he (.inr ⟨rfl, rfl⟩))
      · exact .inr ⟨hmem, rfl⟩

/-- The first two phases of an update: the entries are those that were there and have not
expired, renewed where the update has their endpoint. -/
theorem renewed (u : TrackerUpdate)
    (heps : ∀ ep, ep ∈ eps ↔ ep ∈ u.eps ∧ ipOf ep = a) : let t := u.now + endpointTrackerLifetime
    let h₁ := eps.foldl (extend t) h
    let h₂ := popExpired u.now h₁.length h₁
    Cached (us ++ [u]) a h₂ ∧ Renewed u h₂ ∧ h₂.length ≤ h.length ∧
      ∀ x ∈ h, u.now ≤ (renew t eps x).untilTime → renew t eps x ∈ h₂ := by
  intro t h₁ h₂
  obtain ⟨ho₁, hperm₁⟩ := extendAll_spec hc.ordered hc.distinct t eps
  obtain ⟨ho₂, hperm₂⟩ := popExpired_spec ho₁ le_rfl u.now
  have hsub : h₂.Subperm (h.map (renew t eps)) :=
    hperm₂.subperm.trans (filter_sublist.subperm.trans hperm₁.subperm)
  have hmem : ∀ y ∈ h₂, ∃ x ∈ h, renew t eps x = y := fun y hy => mem_map.1 (hsub.subset hy)
  refine ⟨⟨ho₂, (hc.distinct.map_renew t eps).subperm hsub, fun y hy => ?_⟩, fun y hy hyu => ?_, ?_,
    fun x hx hnow => ?_⟩
  · obtain ⟨x, hx, rfl⟩ := hmem y hy
    obtain ⟨hip, q, hq, hxq, huntil⟩ := hc.input x hx
    rw [endpoint_renew, renew]
    refine ⟨hip, ?_⟩
    split
    next hx' => exact ⟨u, by simp, ((heps _).1 hx').1, rfl⟩
    · exact ⟨q, mem_append_left _ hq, hxq, huntil⟩
  · obtain ⟨x, hx, rfl⟩ := hmem y hy
    rw [endpoint_renew] at hyu
    rw [renew, if_pos ((heps _).2 ⟨hyu, (hc.input x hx).1⟩)]
  · simpa using hsub.length_le
  · apply hperm₂.mem_iff.2
    refine mem_filter.2 ⟨hperm₁.mem_iff.2 (mem_map_of_mem hx), decide_eq_true hnow⟩

end Cached

/-- The heap of the address `a` after the updates `us`. -/
structure Tracks (us : List TrackerUpdate) (a : Addr) (h : EndpointHeap) : Prop where
  cached : Cached us a h
  size : h.length ≤ endpointTrackerMaxPerAddr
  kept : ∀ p ∈ us, ∀ e ∈ p.eps, ipOf e = a →
    (∀ q ∈ us, q.now ≤ p.now + endpointTrackerLifetime) → Kept us h e p.now

theorem Tracks.nil (a : Addr) : Tracks [] a [] where
  cached := ⟨Heap.IsHeap.nil, nodup_nil, fun _ hx => absurd hx not_mem_nil⟩
  size := Nat.zero_le _
  kept := fun _ hp => absurd hp not_mem_nil

theorem Tracks.afterUpdate (ht : Tracks us a h) (hu : ∀ p ∈ us, p.now ≤ u.now) :
    Tracks (us ++ [u]) a (h.afterUpdate a u) := by
  have heps : ∀ ep, ep ∈ u.eps.filter (fun ep => ipOf ep = a) ↔ ep ∈ u.eps ∧ ipOf ep = a :=
    fun ep => by rw [mem_filter, decide_eq_true_eq]
  obtain ⟨hc, hr, hlen, hmem⟩ := ht.cached.renewed u heps
  obtain ⟨hc', hlen', hkept⟩ := hc.addAll hr (by simp) (hlen.trans ht.size) fun ep => (heps ep).1
  refine ⟨hc', hlen', fun p hp e he ha hnow => hkept e p.now ha ?_⟩
  rcases mem_append.1 hp with hp | hp
  · -- an endpoint of an earlier update: its entry was renewed or has not expired
    refine .inl ?_
    rcases ht.kept p hp e he ha fun q hq => hnow q (mem_append_left _ hq) with
      ⟨x, hx, hxe, hle⟩ | hcrowd
    · have hle' := le_untilTime_renew (Int.add_le_add_right (hu p hp) _) hle
        (u.eps.filter fun ep => ipOf ep = a)
      have hlast := hnow u (by simp)
      exact .inl ⟨_, hmem x hx (hlast.trans hle'), (endpoint_renew _ _ x).trans hxe, hle'⟩
    · exact .inr (hcrowd.mono (subset_append_left _ _))
  · obtain rfl := mem_singleton.1 hp
    exact .inr ⟨(heps e).2 ⟨he, ha⟩, rfl⟩

end EndpointHeap

namespace EndpointTracker

open EndpointHeap (Crowded Kept Tracks)

/-- The cache after some updates. -/
def run (us : List TrackerUpdate) : EndpointTracker :=
  us.foldl (fun et u => (et.update u).1) {}

theorem tracks_run {us : List TrackerUpdate} (hus : us.Pairwise fun p q => p.now ≤ q.now)
    (a : Addr) : Tracks us a (heapOf a (run us)) := by
  induction us using List.reverseRecOn with
  | nil => exact Tracks.nil a
  | append_singleton us u ih =>
    obtain ⟨hus, -, hu⟩ := pairwise_append.1 hus
    rw [run, foldl_append]
    change Tracks _ a (heapOf a ((run us).afterUpdate u))
    rw [heapOf_afterUpdate]
    exact (ih hus).afterUpdate fun p hp => hu p hp u mem_cons_self

theorem mem_fresh {u : TrackerUpdate} {h : EndpointHeap} {ep : Tailcfg.Endpoint} :
    ep ∈ fresh u h ↔ ∃ x ∈ h, x.endpoint = ep ∧ ep.addr ∉ u.eps.map addr ∧
      u.now ≤ x.untilTime := by
  have hcond : ∀ x : EndpointTrackerEntry,
      (!(u.eps.map addr).contains x.endpoint.addr && !decide (x.untilTime < u.now)) =
        true ↔ x.endpoint.addr ∉ u.eps.map addr ∧ u.now ≤ x.untilTime := by
    simp
  simp only [fresh, mem_map (l := h.filter _), mem_filter, hcond]
  constructor
  · rintro ⟨x, ⟨hx, haddr, hnow⟩, rfl⟩
    exact ⟨x, hx, rfl, haddr, hnow⟩
  · rintro ⟨x, hx, rfl, haddr, hnow⟩
    exact ⟨x, ⟨hx, haddr, hnow⟩, rfl⟩

theorem mem_cached {et : EndpointTracker} {u : TrackerUpdate} {ep : Tailcfg.Endpoint} :
    ep ∈ (et.endpoints.valuesBy u.rank).flatMap (fresh u) ↔ ∃ a, ep ∈ fresh u (heapOf a et) := by
  simp only [mem_flatMap, GoMap.mem_valuesBy]
  constructor
  · rintro ⟨h, ⟨a, ha⟩, hep⟩
    refine ⟨a, ?_⟩
    rwa [heapOf, ha]
  · rintro ⟨a, hep⟩
    rw [heapOf] at hep
    cases ha : et.endpoints.lookup a with
    | none =>
      rw [ha] at hep
      exact absurd hep not_mem_nil
    | some h =>
      rw [ha] at hep
      exact ⟨h, ⟨a, ha⟩, hep⟩

/-- **The endpoint tracker**: after any updates whose times do not go back, an update returns
its own endpoints and then endpoints that an update has had within the lifetime, and whose
address is none of its own.  No IP address has more than `endpointTrackerMaxPerAddr` entries.
The address of an endpoint is in the results up to its lifetime, unless so many others of the
same IP address were input at that time or later. -/
theorem update_advertises (us : List TrackerUpdate) (u : TrackerUpdate)
    (htimes : (us ++ [u]).Pairwise fun p q => p.now ≤ q.now) :
    (∃ cached, ((run us).update u).2 = u.eps ++ cached ∧
      ∀ ep ∈ cached, ep.addr ∉ u.eps.map addr ∧
        ∃ p ∈ us, ep ∈ p.eps ∧ u.now ≤ p.now + endpointTrackerLifetime) ∧
    (∀ a h, ((run us).update u).1.endpoints.lookup a = some h →
      h.length ≤ endpointTrackerMaxPerAddr) ∧
    ∀ p ∈ us ++ [u], ∀ e ∈ p.eps, u.now ≤ p.now + endpointTrackerLifetime →
      e.addr ∈ ((run us).update u).2.map addr ∨ Crowded (us ++ [u]) e p.now := by
  have htracks : ∀ a, Tracks (us ++ [u]) a (heapOf a ((run us).update u).1) := fun a => by
    have h := tracks_run htimes a
    rwa [run, foldl_append] at h
  refine ⟨⟨_, rfl, fun ep hep => ?_⟩, fun a h hlookup => ?_, fun p hp e he hnow => ?_⟩
  · obtain ⟨a, hfresh⟩ := mem_cached.1 hep
    obtain ⟨x, hx, rfl, haddr, hnow⟩ := mem_fresh.1 hfresh
    obtain ⟨-, q, hq, hxq, huntil⟩ := (htracks a).cached.input x hx
    refine ⟨haddr, q, ?_, hxq, huntil ▸ hnow⟩
    rcases mem_append.1 hq with hq | hq
    · exact hq
    · rw [mem_singleton.1 hq] at hxq
      exact absurd (mem_map_of_mem hxq) haddr
  · have hsize := (htracks a).size
    rwa [heapOf, hlookup] at hsize
  · by_cases haddr : e.addr ∈ u.eps.map addr
    · refine .inl ?_
      rw [update, map_append]
      exact mem_append_left _ haddr
    have hlast : ∀ q ∈ us ++ [u], q.now ≤ p.now + endpointTrackerLifetime := by
      refine forall_mem_concat.2 ⟨fun q hq => le_trans ?_ hnow, hnow⟩
      exact (pairwise_append.1 htimes).2.2 q hq u mem_cons_self
    refine ((htracks (ipOf e)).kept p hp e he rfl hlast).imp_left ?_
    rintro ⟨x, hx, rfl, hle⟩
    have hfresh := mem_fresh.2 ⟨x, hx, rfl, haddr, hnow.trans hle⟩
    rw [update, map_append]
    exact mem_append_right _ (mem_map_of_mem (mem_cached.2 ⟨_, hfresh⟩))

/-- A STUN endpoint of one IP address. -/
def stunEndpoint (port : UInt16) : Tailcfg.Endpoint := ⟨⟨.v4 1, port⟩, .stun⟩

theorem update_advertises_withdrawn :
    ∃ cached, ((run [⟨0, [stunEndpoint 1, stunEndpoint 2], fun _ => 0⟩]).update
        ⟨endpointTrackerLifetime, [stunEndpoint 2], fun _ => 0⟩).2 = [stunEndpoint 2] ++ cached ∧
      ∀ ep ∈ cached, ep.addr ∉ [(stunEndpoint 2).addr] := by
  obtain ⟨⟨cached, heq, hall⟩, -⟩ := update_advertises
    [⟨0, [stunEndpoint 1, stunEndpoint 2], fun _ => 0⟩]
    ⟨endpointTrackerLifetime, [stunEndpoint 2], fun _ => 0⟩ (by decide)
  exact ⟨cached, heq, fun ep hep => (hall ep hep).1⟩

/-- The first update fills the cache of the IP address. -/
def fillingUpdate : TrackerUpdate := { now := 0, eps := [1, 2, 3, 4, 5, 6].map stunEndpoint }

/-- The second update is at the same time. -/
def tiedUpdate : TrackerUpdate := { now := 0, eps := [7, 8].map stunEndpoint }

/-- The third update is at the same time, too. -/
def emptyUpdate : TrackerUpdate := { now := 0, eps := [] }

/-- **A tie**: the second update's first endpoint is dropped for its other one, although all
entries expire at the same time, and only one other endpoint was input since. -/
theorem update_drops_tied :
    ([fillingUpdate, tiedUpdate] ++ [emptyUpdate]).Pairwise (fun p q => p.now ≤ q.now) ∧
      stunEndpoint 7 ∈ tiedUpdate.eps ∧
      emptyUpdate.now ≤ tiedUpdate.now + endpointTrackerLifetime ∧
      (stunEndpoint 7).addr ∉ ((run [fillingUpdate, tiedUpdate]).update emptyUpdate).2.map addr ∧
      ¬Crowded [tiedUpdate, emptyUpdate] (stunEndpoint 7) tiedUpdate.now := by
  refine ⟨by decide, by decide, by decide, by decide, ?_⟩
  rintro ⟨others, hcard, hall⟩
  have hsub : others ⊆ {stunEndpoint 8} := by
    intro f hf
    obtain ⟨hne, -, q, hq, -, hfq⟩ := hall f hf
    rw [Finset.mem_singleton]
    rcases mem_cons.1 hq with rfl | hq
    · rcases mem_cons.1 hfq with rfl | hfq
      · exact absurd rfl hne
      · exact mem_singleton.1 hfq
    · rw [mem_singleton.1 hq] at hfq
      exact absurd hfq not_mem_nil
  have hle := hcard.trans (Finset.card_le_card hsub)
  rw [Finset.card_singleton, endpointTrackerMaxPerAddr] at hle
  omega

end EndpointTracker

end Multiport.Magicsock

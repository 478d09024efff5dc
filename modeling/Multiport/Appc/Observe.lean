import Multiport.Appc.Connector

/-!
# What a DNS response does to a connector

`ObserveDNSResponse` scans the answers of a response, and then walks from each name with an
address along the CNAME records back to a name that is routed.

The walk writes to the table on its way: a name below a wildcard is tracked once the walk
has come by.  `Grows` says what such writes can do, and `Ends` where the walk breaks off.
It decides when the function returns (`observeDNSResponse_returns_iff`).
-/

namespace Multiport.Appc

open Lib Net Dns List Answer Nat AddrList

variable {ε : Type}

namespace AppConnector

variable {e e' e₁ e₂ : AppConnector} {d x : Name} {a : Addr}

/-! ## Writes to the table -/

theorem tracks_iff : e.tracks d = true ↔ ∃ l, e.lookup d = some l := Option.isSome_iff_exists

theorem domains_isSome_of_tracks (h : e.tracks d = true) : e.domains.isSome = true := by
  obtain ⟨l, hl⟩ := tracks_iff.1 h
  obtain ⟨m, hm, -⟩ := Option.bind_eq_some_iff.1 hl
  rw [hm]
  rfl

theorem tracks_of_mem (h : a ∈ e.domainAddrs d) : e.tracks d = true := by
  rw [domainAddrs] at h
  cases hl : e.lookup d with
  | none =>
    rw [hl] at h
    exact absurd h not_mem_default
  | some l => exact tracks_iff.2 ⟨l, hl⟩

theorem exists_setDomain (h : e.domains.isSome = true) (d : Name) (l : AddrList) :
    ∃ e', e.setDomain d l = .ok e' := by
  obtain ⟨m, hm⟩ := Option.isSome_iff_exists.1 h
  rw [setDomain, hm]
  exact ⟨_, rfl⟩

theorem setDomain_eq_nilMap (h : e.domains = none) (d : Name) (l : AddrList) :
    e.setDomain d l = .error .nilMap := by
  rw [setDomain, h]

theorem of_setDomain {l : AddrList} (h : e.setDomain d l = .ok e') :
    e' = { e with domains := e'.domains } ∧ e.domains.isSome = true ∧ e'.domains.isSome = true ∧
      ∀ x, e'.lookup x = if x = d then some l else e.lookup x := by
  rw [setDomain] at h
  split at h
  · cases h
  next m hm =>
    cases h
    refine ⟨rfl, by rw [hm]; rfl, rfl, fun x => ?_⟩
    rw [lookup, lookup, hm]
    exact GoMap.lookup_insert_eq d x l m

/-- `e'` is `e` with more domains, below the wildcards, and with more addresses, inside the
control routes. -/
structure Grows (e e' : AppConnector) : Prop where
  same : e' = { e with domains := e'.domains }
  isSome : e'.domains.isSome = e.domains.isSome
  tracks : ∀ x, e.tracks x = true → e'.tracks x = true
  of_tracks : ∀ x, e'.tracks x = true → e.tracks x = true ∨ e.below x = true
  mem : ∀ x a, a ∈ e.domainAddrs x → a ∈ e'.domainAddrs x
  of_mem : ∀ x a, a ∈ e'.domainAddrs x →
    a ∈ e.domainAddrs x ∨ ∃ p ∈ e.controlRoutes, p.contains a = true

namespace Grows

theorem wildcards (h : Grows e e') : e'.wildcards = e.wildcards := by rw [h.same]

theorem controlRoutes (h : Grows e e') : e'.controlRoutes = e.controlRoutes := by rw [h.same]

theorem hasAdvertiser (h : Grows e e') : e'.hasAdvertiser = e.hasAdvertiser := by rw [h.same]

theorem below (h : Grows e e') (x : Name) : e'.below x = e.below x := by
  rw [AppConnector.below, h.wildcards, AppConnector.below]

theorem refl (e : AppConnector) : Grows e e :=
  ⟨rfl, rfl, fun _ h => h, fun _ h => .inl h, fun _ _ h => h, fun _ _ h => .inl h⟩

theorem trans (h : Grows e e₁) (h' : Grows e₁ e₂) : Grows e e₂ where
  same := by rw [h'.same, h.same]
  isSome := h'.isSome.trans h.isSome
  tracks x hx := h'.tracks x (h.tracks x hx)
  of_tracks x hx := by
    rcases h'.of_tracks x hx with hx | hx
    · exact h.of_tracks x hx
    · exact .inr ((h.below x).symm.trans hx)
  mem x a ha := h'.mem x a (h.mem x a ha)
  of_mem x a ha := by
    rcases h'.of_mem x a ha with ha | ⟨p, hp, hpa⟩
    · exact h.of_mem x a ha
    · exact .inr ⟨p, h.controlRoutes ▸ hp, hpa⟩

end Grows

theorem grows_of_setDomain {l : AddrList} (h : e.setDomain d l = .ok e')
    (hd : e.tracks d = true ∨ e.below d = true) (hmem : ∀ a ∈ e.domainAddrs d, a ∈ l)
    (hnew : ∀ a ∈ l, a ∈ e.domainAddrs d ∨ ∃ p ∈ e.controlRoutes, p.contains a = true) :
    Grows e e' := by
  obtain ⟨hsame, hsome, hsome', hlookup⟩ := of_setDomain h
  refine ⟨hsame, hsome'.trans hsome.symm, ?_, ?_, ?_, ?_⟩
  · intro x hx
    rw [tracks, hlookup]
    split
    · rfl
    · exact hx
  · intro x hx
    rw [tracks, hlookup] at hx
    split at hx
    next hxd => exact hxd ▸ hd
    · exact .inl hx
  · intro x a ha
    rw [domainAddrs, hlookup]
    split
    next hxd => exact hmem a (hxd ▸ ha)
    · exact ha
  · intro x a ha
    rw [domainAddrs, hlookup] at ha
    split at ha
    next hxd => exact hxd ▸ hnew a ha
    · exact .inl ha

/-! ## The walk -/

variable {chain : GoMap Name Name} {n : Nat}

theorem findRoutedDomainLocked_of_tracks (h : e.tracks d = true) (n : Nat) :
    findRoutedDomainLocked chain (n + 1) e d = .ok ((d, true), e) := by
  rw [findRoutedDomainLocked, if_pos h]

theorem findRoutedDomainLocked_succ (h : e.tracks d = false) (n : Nat) :
    findRoutedDomainLocked chain (n + 1) e d = (e.touch d).bind fun e' =>
      match chain.lookup d with
      | none => .ok ((d, e.below d), e')
      | some next => findRoutedDomainLocked chain n e' next := by
  rw [findRoutedDomainLocked, h]
  rfl

/-- A round writes to the table when the name is below a wildcard. -/
theorem touch_cases (e : AppConnector) (d : Name) :
    (e.domains = none ∧ e.below d = true ∧ e.touch d = .error .nilMap) ∨
      ∃ e', e.touch d = .ok e' ∧ (e.domains = none → e.below d = false) := by
  rw [touch]
  split
  next hbelow =>
    cases hdom : e.domains with
    | none => exact .inl ⟨rfl, hbelow, setDomain_eq_nilMap hdom d {}⟩
    | some m =>
      obtain ⟨e', he'⟩ := exists_setDomain (by rw [hdom]; rfl) d {}
      exact .inr ⟨e', he', nofun⟩
  next hbelow => exact .inr ⟨e, rfl, fun _ => Bool.eq_false_of_not_eq_true hbelow⟩

theorem grows_of_touch (hd : e.tracks d = false) (h : e.touch d = .ok e') : Grows e e' := by
  rw [touch] at h
  split at h
  next hbelow =>
    refine grows_of_setDomain h (.inr hbelow) (fun a ha => ?_) fun a ha => ?_
    · rw [tracks_of_mem ha] at hd
      cases hd
    · exact absurd ha not_mem_default
  · cases h
    exact .refl e

theorem tracks_of_touch (h : e.touch d = .ok e') (hx : e'.tracks x = true) :
    e.tracks x = true ∨ (x = d ∧ e.below d = true) := by
  rw [touch] at h
  split at h
  next hbelow =>
    rw [tracks, (of_setDomain h).2.2.2] at hx
    split at hx
    next hxd => exact .inr ⟨hxd, hbelow⟩
    · exact .inl hx
  · cases h
    exact .inl hx

theorem tracks_touch (h : e.touch d = .ok e') (hbelow : e.below d = true) : e'.tracks d = true := by
  rw [touch, if_pos hbelow] at h
  rw [tracks, (of_setDomain h).2.2.2, if_pos rfl]
  rfl

/-- The walk breaks off at this name when it comes by, or fails there. -/
def Halts (e : AppConnector) (chain : GoMap Name Name) (x : Name) : Prop :=
  chain.lookup x = none ∨ e.tracks x = true ∨ (e.below x = true ∧ e.domains = none)

/-- One round of the walk: it halts, with a table that has grown and has the name it finds, or
it goes on. -/
theorem round_cases (chain : GoMap Name Name) (e : AppConnector) (d : Name) :
    (e.Halts chain d ∧ ∃ res, (∀ n, findRoutedDomainLocked chain (n + 1) e d = res) ∧
      res ≠ .error .outOfRounds ∧
      ∀ r e', res = .ok (r, e') → Grows e e' ∧ (r.2 = true → e'.tracks r.1 = true)) ∨
    ∃ e₁ next, e.tracks d = false ∧ e.touch d = .ok e₁ ∧ chain.lookup d = some next ∧
      ∀ n, findRoutedDomainLocked chain (n + 1) e d = findRoutedDomainLocked chain n e₁ next := by
  cases hd : e.tracks d with
  | true =>
    refine .inl ⟨.inr (.inl hd), _, findRoutedDomainLocked_of_tracks hd, nofun, ?_⟩
    rintro _ _ ⟨⟩
    exact ⟨.refl e, fun _ => hd⟩
  | false =>
    rcases touch_cases e d with ⟨hdom, hbelow, htouch⟩ | ⟨e₁, htouch, -⟩
    · refine .inl ⟨.inr (.inr ⟨hbelow, hdom⟩), .error .nilMap, fun n => ?_, nofun, nofun⟩
      rw [findRoutedDomainLocked_succ hd, htouch]
      rfl
    cases hnext : chain.lookup d with
    | none =>
      refine .inl ⟨.inl hnext, .ok ((d, e.below d), e₁), fun n => ?_, nofun, ?_⟩
      · rw [findRoutedDomainLocked_succ hd, htouch, hnext]
        rfl
      · rintro _ _ ⟨⟩
        exact ⟨grows_of_touch hd htouch, tracks_touch htouch⟩
    | some next =>
      refine .inr ⟨e₁, next, rfl, htouch, rfl, fun n => ?_⟩
      rw [findRoutedDomainLocked_succ hd, htouch, hnext]
      rfl

/-- **The walk grows the table, and the name it finds is in it.** -/
theorem grows_of_find {r} (h : findRoutedDomainLocked chain n e d = .ok (r, e')) :
    Grows e e' ∧ (r.2 = true → e'.tracks r.1 = true) := by
  induction n generalizing e d with
  | zero => cases h
  | succ n ih =>
    rcases round_cases chain e d with ⟨-, res, hfind, -, hres⟩ | ⟨e₁, next, hd, htouch, -, hfind⟩
    · exact hres r e' ((hfind n).symm.trans h)
    · rw [hfind] at h
      obtain ⟨hgrows, htracks⟩ := ih h
      exact ⟨(grows_of_touch hd htouch).trans hgrows, htracks⟩

/-! ## Where the walk ends -/

/-- One step of the walk: a CNAME record of `y` has the target `x`. -/
def Follow (chain : GoMap Name Name) (x y : Name) : Prop := chain.lookup x = some y

/-- `y` is one of the names of the walk from `x`. -/
def Reaches (chain : GoMap Name Name) (x y : Name) : Prop := ∃ n, Steps (Follow chain) n x y

theorem functional_follow : Functional (Follow chain) := by
  intro x y z hy hz
  exact Option.mem_unique hy hz

/-- The walk breaks off at this name, at the latest when it comes by again: a name below a
wildcard is tracked by then. -/
def Stops (e : AppConnector) (chain : GoMap Name Name) (x : Name) : Prop :=
  e.Halts chain x ∨ (e.below x = true ∧ ∃ n, Steps (Follow chain) (n + 1) x x)

/-- The walk from `d` comes to a name where it stops. -/
def Ends (e : AppConnector) (chain : GoMap Name Name) (d : Name) : Prop :=
  ∃ y, Reaches chain d y ∧ e.Stops chain y

theorem Grows.domains_eq_none (h : Grows e e') : e'.domains = none ↔ e.domains = none := by
  rw [← Option.not_isSome_iff_eq_none, h.isSome, Option.not_isSome_iff_eq_none]

theorem Grows.halts (h : Grows e e') (hx : e.Halts chain x) : e'.Halts chain x := by
  rcases hx with hx | hx | ⟨hx, hnone⟩
  · exact .inl hx
  · exact .inr (.inl (h.tracks x hx))
  · exact .inr (.inr ⟨(h.below x).trans hx, h.domains_eq_none.2 hnone⟩)

/-- A table that has grown stops the walk where it stopped before. -/
theorem Grows.ends (h : Grows e e') (hd : e.Ends chain d) : e'.Ends chain d := by
  obtain ⟨y, hy, hstop | ⟨hbelow, hcycle⟩⟩ := hd
  · exact ⟨y, hy, .inl (h.halts hstop)⟩
  · exact ⟨y, hy, .inr ⟨(h.below y).trans hbelow, hcycle⟩⟩

/-- The walk from `d` comes to its end. -/
def Returns (chain : GoMap Name Name) (e : AppConnector) (d : Name) (n : Nat) : Prop :=
  findRoutedDomainLocked chain n e d ≠ .error .outOfRounds

/-- The walk goes on along a CNAME record, with a table that has grown, if it does not halt. -/
theorem returns_of_follow {d' : Name} (hdd' : Follow chain d d')
    (h : ∀ e₁, Grows e e₁ → e.touch d = .ok e₁ → Returns chain e₁ d' n) :
    Returns chain e d (n + 1) := by
  rcases round_cases chain e d with ⟨-, res, hfind, hres, -⟩ | ⟨e₁, next, hd, htouch, hnext, hfind⟩
  · rwa [Returns, hfind]
  · obtain rfl := functional_follow hdd' hnext
    rw [Returns, hfind]
    exact h e₁ (grows_of_touch hd htouch) htouch

theorem returns_of_halts {y : Name} (hy : Steps (Follow chain) n d y) (hstop : e.Halts chain y) :
    Returns chain e d (n + 1) := by
  induction hy generalizing e with
  | zero d =>
    rcases round_cases chain e d with ⟨-, res, hfind, hres, -⟩ | ⟨e₁, next, hd, htouch, hnext, -⟩
    · rwa [Returns, hfind]
    -- the walk does not go on from a name where it stops
    rcases hstop with hlast | htracks | ⟨hbelow, hnone⟩
    · cases hnext.symm.trans hlast
    · cases hd.symm.trans htracks
    · rw [touch, if_pos hbelow, setDomain_eq_nilMap hnone] at htouch
      cases htouch
  | succ hdd' _ ih => exact returns_of_follow hdd' fun e₁ hgrows _ => ih (hgrows.halts hstop)

/-- A name below a wildcard stops the walk on its second visit. -/
theorem returns_of_cycle {y : Name} {k : Nat} (hy : Steps (Follow chain) n d y)
    (hbelow : e.below y = true) (hcycle : Steps (Follow chain) (k + 1) y y) :
    Returns chain e d (k + 2 + n) := by
  induction hy generalizing e with
  | zero d =>
    obtain - | ⟨hdd', t⟩ := hcycle
    exact returns_of_follow hdd' fun e₁ _ htouch =>
      returns_of_halts t (.inr (.inl (tracks_touch htouch hbelow)))
  | succ hdd' _ ih =>
    exact returns_of_follow hdd' fun e₁ hgrows _ => ih ((hgrows.below _).trans hbelow) hcycle

/-- A walk that returns has come to a name where it stops. -/
theorem ends_of_returns (h : Returns chain e d n) : e.Ends chain d := by
  induction n generalizing e d with
  | zero => exact absurd rfl h
  | succ n ih =>
    rcases round_cases chain e d with ⟨hhalts, -⟩ | ⟨e₁, next, hd, htouch, hnext, hfind⟩
    · exact ⟨d, ⟨0, .zero d⟩, .inl hhalts⟩
    rw [Returns, hfind] at h
    obtain ⟨y, ⟨k, hk⟩, hstop⟩ := ih h
    have hdy : Steps (Follow chain) (k + 1) d y := .succ hnext hk
    have hgrows := grows_of_touch hd htouch
    rcases hstop with (hlast | htracks | ⟨hbelow, hnone⟩) | ⟨hbelow, hcycle⟩
    · exact ⟨y, ⟨_, hdy⟩, .inl (.inl hlast)⟩
    · rcases tracks_of_touch htouch htracks with htracks | ⟨rfl, hbelow⟩
      · exact ⟨y, ⟨_, hdy⟩, .inl (.inr (.inl htracks))⟩
      · -- the walk has come back to the name that this round has made tracked
        exact ⟨y, ⟨0, .zero y⟩, .inr ⟨hbelow, k, hdy⟩⟩
    · exact ⟨y, ⟨_, hdy⟩,
        .inl (.inr (.inr ⟨(hgrows.below y).symm.trans hbelow, hgrows.domains_eq_none.1 hnone⟩))⟩
    · exact ⟨y, ⟨_, hdy⟩, .inr ⟨(hgrows.below y).symm.trans hbelow, hcycle⟩⟩

/-- **The walk comes to its end where it comes to a name that stops it.** -/
theorem exists_returns_iff : (∃ n, Returns chain e d n) ↔ e.Ends chain d := by
  constructor
  · rintro ⟨n, h⟩
    exact ends_of_returns h
  · rintro ⟨y, ⟨n, hn⟩, hstop | ⟨hbelow, k, hcycle⟩⟩
    · exact ⟨n + 1, returns_of_halts hn hstop⟩
    · exact ⟨k + 2 + n, returns_of_cycle hn hbelow hcycle⟩

/-- More rounds do not change what the walk returns. -/
theorem find_eq_of_le {m : Nat} (h : Returns chain e d n) (hnm : n ≤ m) :
    findRoutedDomainLocked chain m e d = findRoutedDomainLocked chain n e d := by
  induction n generalizing e d m with
  | zero => exact absurd rfl h
  | succ n ih =>
    obtain ⟨m, rfl⟩ := Nat.exists_eq_add_of_le' (Nat.le_trans (Nat.succ_le_succ n.zero_le) hnm)
    rcases round_cases chain e d with ⟨-, res, hfind, -, -⟩ | ⟨e₁, next, -, -, -, hfind⟩
    · rw [hfind, hfind]
    · rw [Returns, hfind] at h
      rw [hfind, hfind]
      exact ih h (le_of_succ_le_succ hnm)

/-! ## The addresses of a routed domain -/

/-- What `isAddrKnownLocked` returns. -/
def knows (e : AppConnector) (d : Name) (a : Addr) : Bool :=
  e.hasDomainAddrLocked d a || e.controlRoutes.any (·.contains a)

theorem knows_iff : e.knows d a = true ↔
    a ∈ e.domainAddrs d ∨ ∃ p ∈ e.controlRoutes, p.contains a = true := by
  rw [knows, Bool.or_eq_true, hasDomainAddrLocked, decide_eq_true_eq, any_eq_true]

theorem Grows.knows (h : Grows e e') (d : Name) (a : Addr) : e'.knows d a = e.knows d a := by
  rw [Bool.eq_iff_iff, knows_iff, knows_iff, h.controlRoutes]
  constructor
  · rintro (ha | ha)
    · exact h.of_mem d a ha
    · exact .inr ha
  · exact Or.imp_left (h.mem d a)

/-- A known address is in the table from now on. -/
theorem isAddrKnownLocked_eq (hd : e.tracks d = true) (a : Addr) :
    ∃ e', e.isAddrKnownLocked d a = .ok (e.knows d a, e') ∧ Grows e e' ∧
      (e.knows d a = true → a ∈ e'.domainAddrs d) := by
  rw [isAddrKnownLocked, knows]
  split
  next hmem =>
    rw [hmem]
    exact ⟨e, rfl, .refl e, fun _ => of_decide_eq_true hmem⟩
  next hmem =>
    rw [Bool.not_eq_true] at hmem
    rw [hmem]
    split
    next hroute =>
      obtain ⟨e', he'⟩ := exists_setDomain (domains_isSome_of_tracks hd) d ((e.domainAddrs d).add a)
      refine ⟨e', ?_, grows_of_setDomain he' (.inl hd) ?_ ?_, fun _ => ?_⟩
      · rw [addDomainAddrLocked, he', hroute]
        rfl
      · exact fun b hb => mem_add.2 (.inl hb)
      · intro b hb
        rcases mem_add.1 hb with hb | rfl
        · exact .inl hb
        · exact .inr (any_eq_true.1 hroute)
      · rw [domainAddrs, (of_setDomain he').2.2.2, if_pos rfl]
        exact mem_add.2 (.inr rfl)
    next hroute =>
      rw [Bool.not_eq_true] at hroute
      rw [hroute]
      exact ⟨e, rfl, .refl e, nofun⟩

/-- The routes of the addresses that are not known. -/
def newRoutes (e : AppConnector) (d : Name) (addrs : List Addr) : List Prefix :=
  (addrs.filter fun a => !e.knows d a).map single

/-- **Every address of a routed domain is in the table afterwards or among the new routes.** -/
theorem observeAddrs_eq (hd : e.tracks d = true) (addrs : List Addr) (toAdvertise : List Prefix) :
    ∃ e', addrs.foldlM (observeAddr d) (e, toAdvertise) =
        .ok (e', toAdvertise ++ e.newRoutes d addrs) ∧ Grows e e' ∧
      ∀ a ∈ addrs, e.knows d a = true → a ∈ e'.domainAddrs d := by
  induction addrs generalizing e toAdvertise with
  | nil => exact ⟨e, by rw [newRoutes]; simp [pure, Except.pure], .refl e, by simp⟩
  | cons a addrs ih =>
    obtain ⟨e₁, hknown, hgrows₁, hmem₁⟩ := isAddrKnownLocked_eq hd a
    obtain ⟨e₂, hfold, hgrows₂, hmem₂⟩ := ih (hgrows₁.tracks d hd)
      (if e.knows d a then toAdvertise else toAdvertise ++ [single a])
    refine ⟨e₂, ?_, hgrows₁.trans hgrows₂, ?_⟩
    · have hobserve : observeAddr d (e, toAdvertise) a =
          .ok (e₁, if e.knows d a then toAdvertise else toAdvertise ++ [single a]) := by
        rw [observeAddr, hknown]
        rfl
      have hroutes : e₁.newRoutes d addrs = e.newRoutes d addrs := by
        rw [newRoutes, newRoutes]
        simp only [hgrows₁.knows]
      rw [foldlM_cons, hobserve]
      change addrs.foldlM (observeAddr d) _ = _
      rw [hfold, hroutes, newRoutes, newRoutes, filter_cons]
      cases e.knows d a <;> simp
    · intro b hb hknows
      rcases mem_cons.1 hb with rfl | hb
      · exact hgrows₂.mem d b (hmem₁ hknows)
      · exact hmem₂ b hb ((hgrows₁.knows d b).trans hknows)

/-- What the connector queues for the addresses of a routed domain. -/
def advertisement (e : AppConnector) (d : Name) (addrs : List Addr) : List Op :=
  if e.newRoutes d addrs = [] then [] else e.scheduleAdvertisement d (e.newRoutes d addrs)

variable {queued : List Op} {name : Name} {addrs : List Addr}

theorem observeRecord_of_routed
    (h : findRoutedDomainLocked chain n e name = .ok ((d, true), e')) (queued : List Op)
    (addrs : List Addr) :
    ∃ e₂, observeRecord chain n (e, queued) ⟨name, addrs⟩ =
        .ok (e₂, queued ++ e'.advertisement d addrs) ∧ Grows e' e₂ ∧
      ∀ a ∈ addrs, e'.knows d a = true → a ∈ e₂.domainAddrs d := by
  obtain ⟨e₂, hfold, hgrows, hmem⟩ := observeAddrs_eq ((grows_of_find h).2 rfl) addrs []
  refine ⟨e₂, ?_, hgrows, hmem⟩
  rw [observeRecord, h]
  change (addrs.foldlM (observeAddr d) (e', [])).bind _ = _
  rw [hfold, nil_append]
  change Except.ok _ = _
  have hads : e₂.scheduleAdvertisement d = e'.scheduleAdvertisement d := by
    funext routes
    rw [scheduleAdvertisement, scheduleAdvertisement, hgrows.hasAdvertiser]
  rw [hads, advertisement]
  split
  · rw [append_nil]
  · rfl

theorem observeRecord_of_error {fault : Fault}
    (h : findRoutedDomainLocked chain n e name = .error fault) :
    observeRecord chain n (e, queued) ⟨name, addrs⟩ = .error fault := by
  rw [observeRecord, h]
  rfl

/-- What one record does: its walk fails, or the connector grows and queues. -/
theorem observeRecord_cases (chain : GoMap Name Name) (n : Nat) (e : AppConnector)
    (queued : List Op) (name : Name) (addrs : List Addr) :
    (∃ fault, findRoutedDomainLocked chain n e name = .error fault ∧
      observeRecord chain n (e, queued) ⟨name, addrs⟩ = .error fault) ∨
    ∃ e₂ ops, observeRecord chain n (e, queued) ⟨name, addrs⟩ = .ok (e₂, queued ++ ops) ∧
      Grows e e₂ ∧ (ops = [] ∨ ∃ d, e₂.tracks d = true ∧ ops = e₂.advertisement d addrs) := by
  cases h : findRoutedDomainLocked chain n e name with
  | error fault => exact .inl ⟨fault, rfl, observeRecord_of_error h⟩
  | ok x =>
    obtain ⟨⟨d, isRouted⟩, e₁⟩ := x
    obtain ⟨hgrows, htracks⟩ := grows_of_find h
    cases isRouted with
    | false =>
      refine .inr ⟨e₁, [], ?_, hgrows, .inl rfl⟩
      rw [observeRecord, h, append_nil]
      rfl
    | true =>
      obtain ⟨e₂, hrecord, hgrows', -⟩ := observeRecord_of_routed h queued addrs
      refine .inr ⟨e₂, _, hrecord, hgrows.trans hgrows', .inr ⟨d, ?_, ?_⟩⟩
      · exact hgrows'.tracks d (htracks rfl)
      · rw [advertisement, advertisement, newRoutes, newRoutes]
        simp only [hgrows'.knows, scheduleAdvertisement, hgrows'.hasAdvertiser]

/-! ## All records of a response -/

variable {records : List (Σ _ : Name, List Addr)}

/-- **The loop over the records only grows the connector**, and queues advertisements for
domains that are tracked. -/
theorem grows_of_observeRecords {out : List Op}
    (h : records.foldlM (observeRecord chain n) (e, queued) = .ok (e', out)) :
    Grows e e' ∧ ∃ ops, out = queued ++ ops := by
  induction records generalizing e queued with
  | nil =>
    cases h
    exact ⟨.refl _, [], (append_nil _).symm⟩
  | cons r records ih =>
    rw [foldlM_cons] at h
    rcases observeRecord_cases chain n e queued r.1 r.2 with ⟨fault, -, hr⟩ |
      ⟨e₂, ops, hr, hgrows, -⟩
    · rw [hr] at h
      cases h
    · rw [hr] at h
      obtain ⟨hgrows', ops', rfl⟩ := ih h
      exact ⟨hgrows.trans hgrows', ops ++ ops', append_assoc ..⟩

/-- With enough rounds, the loop over the records returns when all of their walks end. -/
theorem exists_observeRecords_returns (h : ∀ r ∈ records, e.Ends chain r.1) : ∃ n, ∀ m ≥ n,
      records.foldlM (observeRecord chain m) (e, queued) ≠ .error .outOfRounds := by
  induction records generalizing e queued with
  | nil => exact ⟨0, fun m _ => nofun⟩
  | cons r records ih =>
    rw [forall_mem_cons] at h
    obtain ⟨n, hn⟩ := exists_returns_iff.2 h.1
    -- the record does the same for every number of rounds that is large enough
    have hsame : ∀ m ≥ n, observeRecord chain m (e, queued) r =
        observeRecord chain n (e, queued) r := by
      intro m hm
      rw [observeRecord, observeRecord, find_eq_of_le hn hm]
    rcases observeRecord_cases chain n e queued r.1 r.2 with ⟨fault, hfind, hr⟩ |
      ⟨e₂, ops, hr, hgrows, -⟩
    · refine ⟨n, fun m hm heq => ?_⟩
      rw [foldlM_cons, hsame m hm, hr] at heq
      cases heq
      exact hn hfind
    · obtain ⟨k, hk⟩ := @ih e₂ (queued ++ ops) fun r' hr' => hgrows.ends (h.2 r' hr')
      refine ⟨max n k, fun m hm heq => hk m (le_of_max_le_right hm) ?_⟩
      rw [foldlM_cons, hsame m (le_of_max_le_left hm), hr] at heq
      exact heq

end AppConnector

/-! ## The scan of the answers -/

variable {toLower : Name → Name}

namespace Answer

/-- The records the scan is about: addresses and CNAMEs. -/
def relevant (h : ResourceHeader) : Bool :=
  h.cls = .inet && match h.type with
    | .other _ => false
    | _ => true

/-- A record that the scan would read, without a name. -/
def Stuck (toLower : Name → Name) (ans : Answer ε) : Prop :=
  ∃ h, ans.header = .ok h ∧ relevant h = true ∧ trimName toLower h.name = []

def errorOf {α : Type} : Except ε α → Option ε
  | .error err => some err
  | .ok _ => none

/-- The error on which the scan gives up at this answer. -/
def readError (toLower : Name → Name) (ans : Answer ε) : Option ε :=
  match ans.header with
  | .error err => some err
  | .ok h =>
    if !relevant h then ans.skipError
    else if trimName toLower h.name = [] then none
    else
      match h.type with
      | .cname => errorOf ans.cname
      | .a => errorOf ans.a
      | .aaaa => errorOf ans.aaaa
      | .other _ => none

/-- The target and the name of a CNAME record. -/
def cnameRecord (toLower : Name → Name) (ans : Answer ε) : Option (Name × Name) :=
  match ans.header, ans.cname with
  | .ok ⟨name, .cname, .inet⟩, .ok target =>
    if trimName toLower target = [] then none
    else some (trimName toLower target, trimName toLower name)
  | _, _ => none

def addressRecord (toLower : Name → Name) (ans : Answer ε) : Option (Name × Addr) :=
  match ans.header, ans.a, ans.aaaa with
  | .ok ⟨name, .a, .inet⟩, .ok addr, _ => some (trimName toLower name, .v4 addr)
  | .ok ⟨name, .aaaa, .inet⟩, _, .ok addr => some (trimName toLower name, .addrFrom16 addr)
  | _, _, _ => none

/-- The answers before the first one that cannot be read. -/
def readable (toLower : Name → Name) (answers : List (Answer ε)) : List (Answer ε) :=
  answers.takeWhile fun ans => (ans.readError toLower).isNone

end Answer

namespace Scan

/-- The scan past an answer that it has read. -/
def read (toLower : Name → Name) (x : Scan ε) (ans : Answer ε) : Scan ε where
  answers := x.answers.tail
  cnameChain := match ans.cnameRecord toLower with
    | none => x.cnameChain
    | some (target, name) => x.cnameChain.insert target name
  addressRecords := match ans.addressRecord toLower with
    | none => x.addressRecords
    | some (name, addr) => x.addressRecords.append name addr

variable {x : Scan ε} {ans : Answer ε} {rest : List (Answer ε)} {n : Nat}

/-- **One round of the scan**: at a record without a name it stays, at one that cannot be
read it fails, and past all others it goes on. -/
theorem step_cons (toLower : Name → Name) (hx : x.answers = ans :: rest) :
    (ans.Stuck toLower ∧ ans.readError toLower = none ∧ x.step toLower = .ok (some x)) ∨
    (¬ ans.Stuck toLower ∧ ∃ err, ans.readError toLower = some err ∧
      x.step toLower = .error (some err)) ∨
    (¬ ans.Stuck toLower ∧ ans.readError toLower = none ∧
      x.step toLower = .ok (some (x.read toLower ans))) := by
  obtain ⟨answers, cnameChain, addressRecords⟩ := x
  obtain ⟨header, cname, a, aaaa, skipError⟩ := ans
  subst hx
  simp only [step, Answer.Stuck, readError, read, cnameRecord, addressRecord]
  cases header with
  | error err => simp
  | ok h =>
    obtain ⟨name, type, cls⟩ := h
    cases cls with
    | other code => cases skipError <;> simp [relevant, skip]
    | inet =>
      by_cases hname : trimName toLower name = []
      · cases type with
        | other code => cases skipError <;> simp [relevant, skip]
        | a | aaaa | cname => simp [relevant, hname]
      cases type with
      | other code => cases skipError <;> simp [relevant, skip]
      | a =>
        cases a <;>
          simp [relevant, hname, errorOf, Except.mapError, Except.map, addAddr]
      | aaaa =>
        cases aaaa <;>
          simp [relevant, hname, errorOf, Except.mapError, Except.map, addAddr]
      | cname =>
        cases cname with
        | error err =>
          simp [relevant, hname, errorOf, Except.mapError, Except.map]
        | ok target =>
          by_cases htarget : trimName toLower target = [] <;>
            simp [relevant, hname, errorOf, Except.mapError, Except.map, addCname,
              htarget]

theorem readable_cons_of_none (h : ans.readError toLower = none) (rest : List (Answer ε)) :
    readable toLower (ans :: rest) = ans :: readable toLower rest := by
  rw [readable, takeWhile_cons, h]
  rfl

variable {answers : List (Answer ε)}

/-- A scan that comes to a record without a name never returns. -/
theorem walk_of_stuck (hx : x.answers = answers)
    (h : ∃ ans ∈ readable toLower answers, ans.Stuck toLower) (n : Nat) :
    walk (step toLower) none n x = .error none := by
  induction answers generalizing x n with
  | nil =>
    obtain ⟨ans, hans, -⟩ := h
    cases hans
  | cons ans rest ih =>
    rcases step_cons toLower hx with ⟨-, -, hstep⟩ | ⟨-, err, herr, -⟩ | ⟨hstuck, hnone, hstep⟩
    · induction n with
      | zero => rfl
      | succ n ihn =>
        rw [walk, hstep]
        exact ihn
    · obtain ⟨b, hb, -⟩ := h
      rw [readable, takeWhile_cons, herr] at hb
      cases hb
    · rw [readable_cons_of_none hnone, exists_mem_cons_iff, or_iff_right hstuck] at h
      cases n with
      | zero => rfl
      | succ n =>
        rw [walk, hstep]
        have htail : (x.read toLower ans).answers = rest := congrArg List.tail hx
        exact ih htail h n

/-- A scan that comes to none reads all answers, or fails at one that cannot be read. -/
theorem walk_of_not_stuck (hx : x.answers = answers)
    (h : ∀ ans ∈ readable toLower answers, ¬ ans.Stuck toLower) :
    ((∀ ans ∈ answers, ans.readError toLower = none) ∧ ∀ n, walk (step toLower) none n x =
      if answers.length < n then .ok (answers.foldl (read toLower) x) else .error none) ∨
    ((¬ ∀ ans ∈ answers, ans.readError toLower = none) ∧ ∃ err, ∀ n > answers.length,
      walk (step toLower) none n x = .error (some err)) := by
  induction answers generalizing x with
  | nil =>
    refine .inl ⟨by simp, fun n => ?_⟩
    cases n with
    | zero => rfl
    | succ n =>
      rw [walk, step, hx]
      rfl
  | cons ans rest ih =>
    rcases step_cons toLower hx with ⟨hstuck, hnone, -⟩ | ⟨-, err, herr, hstep⟩ | ⟨-, hnone, hstep⟩
    · exact absurd hstuck (h ans (by rw [readable_cons_of_none hnone]; exact mem_cons_self))
    · refine .inr ⟨fun hall => ?_, err, fun n hn => ?_⟩
      · rw [hall ans mem_cons_self] at herr
        cases herr
      · obtain ⟨n, rfl⟩ := exists_eq_succ_of_ne_zero (ne_zero_of_lt hn)
        rw [walk, hstep]
    · rw [readable_cons_of_none hnone, forall_mem_cons] at h
      have htail : (x.read toLower ans).answers = rest := congrArg List.tail hx
      rcases ih htail h.2 with ⟨hall, hwalk⟩ | ⟨hsome, err, hwalk⟩
      · refine .inl ⟨forall_mem_cons.2 ⟨hnone, hall⟩, fun n => ?_⟩
        cases n with
        | zero => rfl
        | succ n =>
          rw [walk, hstep, length_cons]
          simp only [add_lt_add_iff_right]
          exact hwalk n
      · refine .inr ⟨fun hall => hsome (forall_mem_cons.1 hall).2, err, fun n hn => ?_⟩
        obtain ⟨n, rfl⟩ := exists_eq_succ_of_ne_zero (ne_zero_of_lt hn)
        rw [walk, hstep]
        exact hwalk n (lt_of_succ_lt_succ hn)

end Scan

/-! ### What the answers say -/

namespace Answer

/-- The CNAME records of a response, from targets to names. -/
def cnameChain (toLower : Name → Name) (answers : List (Answer ε)) : GoMap Name Name :=
  (answers.filterMap (cnameRecord toLower)).foldl (fun m r => m.insert r.1 r.2) ∅

/-- The addresses of a response, by name. -/
def addressRecords (toLower : Name → Name) (answers : List (Answer ε)) : GoMap Name (List Addr) :=
  (answers.filterMap (addressRecord toLower)).foldl (fun m r => m.append r.1 r.2) ∅

end Answer

/-- **The scan collects the records of a response.** -/
theorem Scan.foldl_read (toLower : Name → Name) (answers : List (Answer ε)) (x : Scan ε) :
    (answers.foldl (read toLower) x).cnameChain =
        (answers.filterMap (cnameRecord toLower)).foldl (fun m r => m.insert r.1 r.2) x.cnameChain ∧
      (answers.foldl (read toLower) x).addressRecords =
        (answers.filterMap (addressRecord toLower)).foldl (fun m r => m.append r.1 r.2)
          x.addressRecords := by
  induction answers generalizing x with
  | nil => exact ⟨rfl, rfl⟩
  | cons ans answers ih =>
    obtain ⟨hchain, hrecords⟩ := ih (x.read toLower ans)
    rw [foldl_cons, hchain, hrecords, filterMap_cons, filterMap_cons, read]
    constructor
    · cases ans.cnameRecord toLower <;> rfl
    · cases ans.addressRecord toLower <;> rfl

theorem Answer.lookup_addressRecords (answers : List (Answer ε)) (name : Name) :
    (addressRecords toLower answers).lookup name =
      if (answers.filterMap (addressRecord toLower)).filter (·.1 = name) = [] then none
      else some (((answers.filterMap (addressRecord toLower)).filter (·.1 = name)).map Prod.snd) :=
  GoMap.lookup_foldl_append _ ∅ name

theorem Answer.lookup_addressRecords_of_mem {answers : List (Answer ε)} {r}
    (h : r ∈ answers.filterMap (addressRecord toLower)) :
    ((addressRecords toLower answers).lookup r.1).isSome = true := by
  have hmem : r ∈ (answers.filterMap (addressRecord toLower)).filter (·.1 = r.1) := by
    simpa using h
  rw [lookup_addressRecords, if_neg (ne_nil_of_mem hmem)]
  rfl

theorem Answer.mem_of_lookup_addressRecords {answers : List (Answer ε)} {name : Name}
    {addrs : List Addr} (h : (addressRecords toLower answers).lookup name = some addrs) :
    addrs ≠ [] ∧ ∀ a ∈ addrs, (name, a) ∈ answers.filterMap (addressRecord toLower) := by
  rw [lookup_addressRecords] at h
  split at h
  · cases h
  next hne =>
    cases h
    refine ⟨fun hnil => hne (map_eq_nil_iff.1 hnil), fun a ha => ?_⟩
    obtain ⟨r, hr, rfl⟩ := mem_map.1 ha
    obtain ⟨hr, hname⟩ := mem_filter.1 hr
    rw [← of_decide_eq_true hname]
    exact hr

namespace AppConnector

variable {parse : Parser ε} {e : AppConnector} {res : List UInt8} {answers : List (Answer ε)}
  {order : GoMap.RangeOrder Name (List Addr)} {rounds : Nat}

theorem eq_error_of_map {α β : Type} {f : α → β} {x : Except Fault α} {fault : Fault}
    (h : x.map f = .error fault) : x = .error fault := by
  cases x with
  | error fault' =>
    cases h
    rfl
  | ok a => cases h

/-- A response with a record without a name keeps the function from returning. -/
theorem observeDNSResponse_of_stuck (hres : parse res = .ok answers)
    (h : ∃ ans ∈ readable toLower answers, ans.Stuck toLower) :
    observeDNSResponse parse toLower rounds order e res = .error .outOfRounds := by
  rw [observeDNSResponse, hres]
  dsimp only
  rw [Scan.walk_of_stuck rfl h]

theorem observeDNSResponse_of_readable (hres : parse res = .ok answers)
    (h : ∀ ans ∈ readable toLower answers, ¬ ans.Stuck toLower)
    (hall : ∀ ans ∈ answers, ans.readError toLower = none) (rounds : Nat) :
    observeDNSResponse parse toLower rounds order e res =
      if answers.length < rounds then
        ((order.entries (addressRecords toLower answers)).foldlM
          (observeRecord (cnameChain toLower answers) rounds) (e, [])).map (none, ·)
      else .error .outOfRounds := by
  obtain ⟨hchain, hrecords⟩ := Scan.foldl_read toLower answers { answers }
  rcases Scan.walk_of_not_stuck (x := { answers }) rfl h with ⟨-, hwalk⟩ | ⟨hsome, -⟩
  · generalize answers.foldl (Scan.read toLower) { answers } = x at hchain hrecords hwalk
    rw [observeDNSResponse, hres]
    dsimp only
    have hlength := hwalk rounds
    by_cases hlt : answers.length < rounds
    · rw [if_pos hlt] at hlength
      rw [hlength, if_pos hlt]
      change ((order.entries x.addressRecords).foldlM (observeRecord x.cnameChain rounds)
        (e, [])).map _ = _
      rw [hchain, hrecords]
      rfl
    · rw [if_neg hlt] at hlength
      rw [hlength, if_neg hlt]
  · exact absurd hall hsome

theorem observeDNSResponse_of_error (hres : parse res = .ok answers)
    (h : ∀ ans ∈ readable toLower answers, ¬ ans.Stuck toLower)
    (hsome : ¬ ∀ ans ∈ answers, ans.readError toLower = none) :
    ∃ err, ∀ rounds > answers.length,
      observeDNSResponse parse toLower rounds order e res = .ok (some err, e, []) := by
  rcases Scan.walk_of_not_stuck (x := { answers }) rfl h with ⟨hall, -⟩ | ⟨-, err, hwalk⟩
  · exact absurd hall hsome
  · refine ⟨err, fun rounds hrounds => ?_⟩
    rw [observeDNSResponse, hres]
    dsimp only
    rw [hwalk rounds hrounds]

/-- **The function returns on a response, whatever the order of its names, when no answer
it comes to is an address or CNAME record without a name, and the walk from each name with
an address ends.** -/
theorem observeDNSResponse_returns_iff (parse : Parser ε) (toLower : Name → Name)
    (e : AppConnector) (res : List UInt8) :
    (∀ order, ∃ rounds,
        observeDNSResponse parse toLower rounds order e res ≠ .error .outOfRounds) ↔
      ∀ answers, parse res = .ok answers → (∀ ans ∈ readable toLower answers, ¬ ans.Stuck toLower) ∧
        ((∀ ans ∈ answers, ans.readError toLower = none) →
          ∀ r ∈ answers.filterMap (addressRecord toLower),
            e.Ends (cnameChain toLower answers) r.1) := by
  constructor
  · intro h answers hres
    have hstuck : ∀ ans ∈ readable toLower answers, ¬ ans.Stuck toLower := by
      intro ans hans hans'
      obtain ⟨rounds, hrounds⟩ := h .stored
      exact hrounds (observeDNSResponse_of_stuck hres ⟨ans, hans, hans'⟩)
    refine ⟨hstuck, fun hall r hr => ?_⟩
    -- in one of the orders the walk from the name of `r` comes first
    obtain ⟨rounds, hrounds⟩ := h (.first r.1)
    obtain ⟨addrs, rest, hentries⟩ :=
      GoMap.RangeOrder.exists_entries_first (lookup_addressRecords_of_mem hr)
    rw [observeDNSResponse_of_readable hres hstuck hall, hentries, foldlM_cons] at hrounds
    refine ends_of_returns (n := rounds) fun hfind => hrounds ?_
    rw [observeRecord_of_error hfind]
    split <;> rfl
  · intro h order
    cases hres : parse res with
    | error err => exact ⟨0, by simp [observeDNSResponse, hres]⟩
    | ok answers =>
      obtain ⟨hstuck, hends⟩ := h answers hres
      by_cases hall : ∀ ans ∈ answers, ans.readError toLower = none
      · have hrecords : ∀ r ∈ order.entries (addressRecords toLower answers),
            e.Ends (cnameChain toLower answers) r.1 := by
          intro r hr
          obtain ⟨hne, hmem⟩ := mem_of_lookup_addressRecords
            (GoMap.lookup_eq_some_iff.2 ((order.perm _).mem_iff.1 hr))
          obtain ⟨a, ha⟩ := exists_mem_of_ne_nil _ hne
          exact hends hall _ (hmem a ha)
        obtain ⟨n, hn⟩ := @exists_observeRecords_returns e _ [] _ hrecords
        let rounds := max n (answers.length + 1)
        refine ⟨rounds, fun heq => hn rounds (le_max_left ..) ?_⟩
        have hlt : answers.length < rounds := le_max_right n (answers.length + 1)
        rw [observeDNSResponse_of_readable hres hstuck hall, if_pos hlt] at heq
        exact eq_error_of_map heq
      · obtain ⟨err, herr⟩ := observeDNSResponse_of_error (e := e) hres hstuck hall
        refine ⟨answers.length + 1, ?_⟩
        rw [herr _ (lt_succ_self _)]
        simp

/-- A response whose only answer is an A record of the root. -/
def rootResponse : List UInt8 :=
  [0, 0, 0x84, 0, 0, 0, 0, 1, 0, 0, 0, 0, 0, 0, 1, 0, 1, 0, 0, 0, 0, 0, 4, 192, 0, 2, 1]

/-- What the parser returns at that answer. -/
def rootAnswer : Answer Unit :=
  { header := .ok ⟨['.'], .a, .inet⟩, cname := .error (), a := .ok 0xc0000201#32
    aaaa := .error () }

/-- A parser that can read that response only. -/
def rootParser : Parser Unit := fun res =>
  if res = rootResponse then .ok [rootAnswer] else .error ()

/-- The scan stays at a record of the root for ever. -/
theorem observeDNSResponse_rootResponse : ¬ ∀ order, ∃ rounds,
    observeDNSResponse rootParser id rounds order (newAppConnector true true none) rootResponse ≠
      .error .outOfRounds := by
  intro h
  obtain ⟨rounds, hrounds⟩ := h .stored
  have hstuck : rootAnswer.Stuck id := ⟨⟨['.'], .a, .inet⟩, rfl, rfl, by decide⟩
  exact hrounds (observeDNSResponse_of_stuck rfl ⟨rootAnswer, mem_cons_self, hstuck⟩)

end AppConnector

end Multiport.Appc

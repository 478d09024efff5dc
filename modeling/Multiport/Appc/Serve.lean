import Multiport.Appc.Observe

/-!
# What the walk along the CNAME records finds

The walk of `findRoutedDomainLocked` is to tell whether an address record belongs to a routed
name, and which one, so that its addresses are advertised (`Serves`).  On a chain without
cycles `serves_iff` says when it does.
-/

namespace Multiport.Appc

open Lib Net Dns List

namespace AppConnector

variable {e : AppConnector} {chain : GoMap Name Name} {d z : Name} {n : Nat}

/-- No name is reached from itself. -/
def Acyclic (chain : GoMap Name Name) : Prop := ∀ x n, ¬ Steps (Follow chain) (n + 1) x x

variable (e)

/-- A name that is routed: a tracked one, or one below a wildcard. -/
def Routed (x : Name) : Prop := e.tracks x = true ∨ e.below x = true

theorem Acyclic.exists_last (hchain : Acyclic chain) (d : Name) :
    ∃ n z, Steps (Follow chain) n d z ∧ chain.lookup z = none := by
  have hkeys : ∀ {x y}, Follow chain x y → x ∈ chain.keys := fun {x y} hxy =>
    GoMap.mem_keys_iff.2 ⟨y, hxy⟩
  obtain ⟨n, z, hn, hz⟩ := Steps.exists_final hkeys hchain d
  exact ⟨n, z, hn, Option.eq_none_iff_forall_ne_some.2 hz⟩

theorem acyclic_of_lt (r : Name → Nat) (h : ∀ {x y}, Follow chain x y → r x < r y) :
    Acyclic chain := by
  rintro x n (_ | ⟨hxy, t⟩)
  exact (t.keeps (P := (r x < r ·)) (fun hx hab => hx.trans (h hab)) (h hxy)).false

theorem reaches_self (chain : GoMap Name Name) (d : Name) : Reaches chain d d := ⟨0, .zero d⟩

/-- The names of the walk are the first one and those of the rest of it. -/
theorem reaches_iff_of_follow {next y : Name} (h : Follow chain d next) :
    Reaches chain d y ↔ y = d ∨ Reaches chain next y := by
  constructor
  · rintro ⟨n, hn⟩
    obtain - | ⟨hdx, t⟩ := hn
    · exact .inl rfl
    · obtain rfl := functional_follow h hdx
      exact .inr ⟨_, t⟩
  · rintro (rfl | ⟨n, hn⟩)
    · exact reaches_self chain y
    · exact ⟨n + 1, .succ h hn⟩

theorem not_follow_of_last (h : chain.lookup d = none) (y : Name) : ¬Follow chain d y := by
  rw [Follow, h]
  simp

theorem reaches_iff_of_last {y : Name} (h : chain.lookup d = none) : Reaches chain d y ↔ y = d := by
  constructor
  · rintro ⟨n, hn⟩
    exact (hn.length_zero_of_final (not_follow_of_last h)).2
  · rintro rfl
    exact reaches_self chain y

/-- What the walk finds is the first tracked name, or what the last one is.  Without a table it
fails at a name below a wildcard. -/
theorem find_spec (hchain : Acyclic chain) (hn : Steps (Follow chain) n d z)
    (hz : chain.lookup z = none) :
    (e.domains = none ∧ (∃ y, Reaches chain d y ∧ e.below y = true) ∧
      findRoutedDomainLocked chain (n + 1) e d = .error .nilMap) ∨
    ∃ r e', findRoutedDomainLocked chain (n + 1) e d = .ok (r, e') ∧
      ((∃ y, Reaches chain d y ∧ e.tracks y = true ∧ r = (y, true)) ∨
        (∀ y, Reaches chain d y → e.tracks y = false ∧ (e.domains = none → e.below y = false)) ∧
          r = (z, e.below z)) := by
  induction n using Nat.strong_induction_on generalizing e d with
  | _ n ih =>
    cases hd : e.tracks d with
    | true =>
      exact .inr ⟨_, _, findRoutedDomainLocked_of_tracks hd n,
        .inl ⟨d, reaches_self chain d, hd, rfl⟩⟩
    | false =>
      rw [findRoutedDomainLocked_succ hd]
      rcases touch_cases e d with ⟨hdom, hbelow, htouch⟩ | ⟨e₁, htouch, hbelow⟩ <;> rw [htouch]
      · exact .inl ⟨hdom, ⟨d, reaches_self chain d, hbelow⟩, rfl⟩
      rcases hn with _ | ⟨hdd', hn⟩
      · rw [hz]
        refine .inr ⟨_, e₁, rfl, .inr ⟨fun y hy => ?_, rfl⟩⟩
        rw [(reaches_iff_of_last hz).1 hy]
        exact ⟨hd, hbelow⟩
      rw [hdd']
      have hgrows := grows_of_touch hd htouch
      rcases ih _ (Nat.lt_succ_self _) e₁ hn with
        ⟨hdom, ⟨y, hy, hbelow⟩, herr⟩ | ⟨r, e', hr, hfound⟩
      · exact .inl ⟨hgrows.domains_eq_none.1 hdom,
          ⟨y, (reaches_iff_of_follow hdd').2 (.inr hy), (hgrows.below y).symm.trans hbelow⟩, herr⟩
      refine .inr ⟨r, e', hr, ?_⟩
      rcases hfound with ⟨y, ⟨k, hk⟩, hy, rfl⟩ | ⟨hnone, rfl⟩
      · refine .inl ⟨y, ⟨k + 1, .succ hdd' hk⟩, ?_, rfl⟩
        rcases tracks_of_touch htouch hy with hy | ⟨rfl, -⟩
        · exact hy
        · -- the walk does not come back to the name that this round has made tracked
          exact absurd (Steps.succ hdd' hk) (hchain y k)
      · refine .inr ⟨fun y hy => ?_, by rw [hgrows.below]⟩
        rcases (reaches_iff_of_follow hdd').1 hy with rfl | hy
        · exact ⟨hd, hbelow⟩
        · obtain ⟨htracks, hbelow'⟩ := hnone y hy
          rw [hgrows.below, hgrows.domains_eq_none] at hbelow'
          rw [← Bool.not_eq_true] at htracks ⊢
          exact ⟨fun h => htracks (hgrows.tracks y h), hbelow'⟩

/-- An address that the connector has recorded for a domain, or queued to be advertised and
recorded. -/
def Handled (queued : List Op) (d : Name) (a : Addr) : Prop :=
  a ∈ e.domainAddrs d ∨ ∃ routes, single a ∈ routes ∧ Op.record d routes ∈ queued ∧
    (e.hasAdvertiser = true → Op.advertise routes ∈ queued)

/-- What the walk is for: it tells whether the record of `name` is that of a routed name, and
which one, and the addresses of such a record are taken care of, whatever records the loop
comes to afterwards. -/
def Serves (chain : GoMap Name Name) (name : Name) (addrs : List Addr) : Prop :=
  ∃ n, ∀ m ≥ n, ∃ d isRouted e',
    findRoutedDomainLocked chain m e name = .ok ((d, isRouted), e') ∧
    (isRouted = true ↔ ∃ x, Reaches chain name x ∧ e.Routed x) ∧
    (isRouted = true → Reaches chain name d ∧ e.Routed d) ∧
    ((∃ x, Reaches chain name x ∧ e.Routed x) → ∀ queued, ∃ e₁ queued₁,
      observeRecord chain m (e, queued) ⟨name, addrs⟩ = .ok (e₁, queued₁) ∧
      (∀ a ∈ addrs, e₁.Handled queued₁ d a) ∧
      ∀ (records : List (Σ _ : Name, List Addr)) e₂ queued₂,
        records.foldlM (observeRecord chain m) (e₁, queued₁) = .ok (e₂, queued₂) →
          ∀ a ∈ addrs, e₂.Handled queued₂ d a)

variable {e}

theorem Grows.handled {e'} {queued ops : List Op} {a : Addr} (h : Grows e e')
    (ha : e.Handled queued d a) : e'.Handled (queued ++ ops) d a := by
  rcases ha with ha | ⟨routes, hroutes, hrecord, hadvertise⟩
  · exact .inl (h.mem d a ha)
  · refine .inr ⟨routes, hroutes, mem_append_left _ hrecord, fun had => ?_⟩
    exact mem_append_left _ (hadvertise (h.hasAdvertiser ▸ had))

/-- The addresses of a name that is found are taken care of. -/
theorem handled_of_routed {e'} {m : Nat} {name : Name}
    (h : findRoutedDomainLocked chain m e name = .ok ((d, true), e')) (queued : List Op)
    (addrs : List Addr) : ∃ e₁ queued₁,
      observeRecord chain m (e, queued) ⟨name, addrs⟩ = .ok (e₁, queued₁) ∧
      ∀ a ∈ addrs, e₁.Handled queued₁ d a := by
  obtain ⟨e₁, hrecord, hgrows, hmem⟩ := observeRecord_of_routed h queued addrs
  refine ⟨e₁, _, hrecord, fun a ha => ?_⟩
  cases hknows : e'.knows d a with
  | true => exact .inl (hmem a ha hknows)
  | false =>
    have hroute : single a ∈ e'.newRoutes d addrs :=
      mem_map_of_mem (mem_filter.2 ⟨ha, by rw [hknows]; rfl⟩)
    rw [advertisement, if_neg (ne_nil_of_mem hroute), scheduleAdvertisement]
    refine .inr ⟨_, hroute, ?_, fun had => ?_⟩
    · simp
    · rw [hgrows.hasAdvertiser] at had
      simp [had]

/-- **The walk does what it is for when no name of it is routed, when one of them is tracked,
or when the last one is below a wildcard and there is a table**; a match of an earlier name
with a wildcard is lost. -/
theorem serves_iff (e : AppConnector) (chain : GoMap Name Name) (hchain : Acyclic chain)
    (name : Name) (addrs : List Addr) :
    e.Serves chain name addrs ↔
      (∀ x, Reaches chain name x → ¬ e.Routed x) ∨
      (∃ x, Reaches chain name x ∧ e.tracks x = true) ∨
      (e.domains.isSome = true ∧
        ∃ z, Reaches chain name z ∧ chain.lookup z = none ∧ e.below z = true) := by
  obtain ⟨n, z, hn, hz⟩ := hchain.exists_last name
  have hlast : ∀ {y}, Reaches chain name y → chain.lookup y = none → y = z := by
    rintro y ⟨k, hk⟩ hy
    exact (hn.final_unique functional_follow (not_follow_of_last hz) hk (not_follow_of_last hy)).2
  have hstable : ∀ m ≥ n + 1, findRoutedDomainLocked chain m e name =
      findRoutedDomainLocked chain (n + 1) e name := fun m hm =>
    find_eq_of_le (returns_of_halts hn (.inl hz)) hm
  constructor
  · rintro ⟨k, hk⟩
    obtain ⟨d, isRouted, e', hfind, hiff, -, -⟩ := hk (max k (n + 1)) (le_max_left ..)
    rw [hstable _ (le_max_right ..)] at hfind
    rcases find_spec e hchain hn hz with ⟨-, -, herr⟩ | ⟨r, e₁, hr, hfound⟩
    · cases herr.symm.trans hfind
    rcases hfound with ⟨y, hy, htracks, -⟩ | ⟨hnone, rfl⟩
    · exact .inr (.inl ⟨y, hy, htracks⟩)
    cases hr.symm.trans hfind
    refine or_iff_not_imp_left.2 fun hrouted => .inr ?_
    push Not at hrouted
    obtain ⟨x, hx, hx'⟩ := hrouted
    refine ⟨?_, z, ⟨n, hn⟩, hz, hiff.2 ⟨x, hx, hx'⟩⟩
    -- without a table no name is routed
    by_contra hdom
    rw [Option.not_isSome_iff_eq_none] at hdom
    simp [Routed, hnone x hx, hdom] at hx'
  · intro hcond
    -- what the walk returns, in each of the cases
    obtain ⟨d, isRouted, e', hfind, hiff, hd⟩ : ∃ d isRouted e',
        findRoutedDomainLocked chain (n + 1) e name = .ok ((d, isRouted), e') ∧
        (isRouted = true ↔ ∃ x, Reaches chain name x ∧ e.Routed x) ∧
        (isRouted = true → Reaches chain name d ∧ e.Routed d) := by
      rcases find_spec e hchain hn hz with ⟨hdom, ⟨y, hy, hbelow⟩, -⟩ | ⟨r, e', hr, hfound⟩
      · -- a match with a wildcard fails
        have hsome : e.domains.isSome = true := by
          rcases hcond with hnone | ⟨x, -, htracks⟩ | ⟨hsome, -⟩
          · exact absurd (.inr hbelow) (hnone y hy)
          · exact domains_isSome_of_tracks htracks
          · exact hsome
        rw [hdom] at hsome
        cases hsome
      · rcases hfound with ⟨y, hy, htracks, rfl⟩ | ⟨hnotracks, rfl⟩
        · exact ⟨y, true, e', hr, ⟨fun _ => ⟨y, hy, .inl htracks⟩, fun _ => rfl⟩,
            fun _ => ⟨hy, .inl htracks⟩⟩
        refine ⟨z, e.below z, e', hr, ⟨fun h => ⟨z, ⟨n, hn⟩, .inr h⟩, ?_⟩,
          fun h => ⟨⟨n, hn⟩, .inr h⟩⟩
        rintro ⟨x, hx, hx'⟩
        rcases hcond with hnone | ⟨y, hy, htracks⟩ | ⟨-, y, hy, hy', hbelow⟩
        · exact absurd hx' (hnone x hx)
        · rw [(hnotracks y hy).1] at htracks
          cases htracks
        · rw [← hlast hy hy']
          exact hbelow
    refine ⟨n + 1, fun m hm => ⟨d, isRouted, e', (hstable m hm).trans hfind, hiff, hd, ?_⟩⟩
    intro hrouted queued
    rw [hiff.2 hrouted] at hfind
    obtain ⟨e₁, queued₁, hrecord, hhandled⟩ :=
      handled_of_routed ((hstable m hm).trans hfind) queued addrs
    refine ⟨e₁, queued₁, hrecord, hhandled, fun records e₂ queued₂ hfold a ha => ?_⟩
    obtain ⟨hgrows, ops, rfl⟩ := grows_of_observeRecords hfold
    exact hgrows.handled (hhandled a ha)

/-- A table without domains, and a wildcard. -/
def wildcardConnector : AppConnector :=
  { hasAdvertiser := true, hasStoredRoutes := true, domains := some ∅, wildcards := [['w']] }

/-- The record `c CNAME a.w`. -/
def cnameChain : GoMap Name Name := (∅ : GoMap Name Name).insert ['c'] ['a', '.', 'w']

/-- With `a.w CNAME o` as well. -/
def wildcardChain : GoMap Name Name := cnameChain.insert ['a', '.', 'w'] ['o']

theorem eq_of_follow_cnameChain {x y : Name} (h : Follow cnameChain x y) :
    x = ['c'] ∧ y = ['a', '.', 'w'] := by
  rw [Follow, cnameChain, GoMap.lookup_insert_eq] at h
  split at h
  next hx => exact ⟨hx, (Option.some.inj h).symm⟩
  · cases h

theorem acyclic_cnameChain : Acyclic cnameChain := by
  refine acyclic_of_lt List.length fun h => ?_
  obtain ⟨rfl, rfl⟩ := eq_of_follow_cnameChain h
  decide

theorem acyclic_wildcardChain : Acyclic wildcardChain := by
  refine acyclic_of_lt [['c'], ['a', '.', 'w'], ['o']].idxOf fun h => ?_
  rw [Follow, wildcardChain, GoMap.lookup_insert_eq] at h
  split at h
  next hx =>
    cases h
    subst hx
    decide
  · obtain ⟨rfl, rfl⟩ := eq_of_follow_cnameChain h
    decide

/-- A record of `c`, which leads to a name below the wildcard. -/
theorem serves_iff_below : Acyclic cnameChain ∧
    wildcardConnector.Serves cnameChain ['c'] [.v4 1#32] :=
  ⟨acyclic_cnameChain, (serves_iff _ _ acyclic_cnameChain _ _).2 (.inr (.inr
    ⟨rfl, ['a', '.', 'w'], ⟨1, .single rfl⟩, rfl, by decide +kernel⟩))⟩

/-- The match of `a.w` with the wildcard is lost on the way from `c` to `o`. -/
theorem not_serves_wildcardChain : Acyclic wildcardChain ∧
    ¬ wildcardConnector.Serves wildcardChain ['c'] [.v4 1#32] := by
  refine ⟨acyclic_wildcardChain, ?_⟩
  rintro ⟨n, h⟩
  obtain ⟨d, isRouted, e', hfind, hiff, -, -⟩ := h (max n 3) (le_max_left ..)
  have hthree : (findRoutedDomainLocked wildcardChain 3 wildcardConnector ['c']).map Prod.fst =
      .ok (['o'], false) := by
    decide +kernel
  have hreturns : Returns wildcardChain wildcardConnector ['c'] 3 := by
    intro hfault
    rw [hfault] at hthree
    cases hthree
  rw [find_eq_of_le hreturns (le_max_right ..)] at hfind
  rw [hfind] at hthree
  cases hthree
  have hbelow : wildcardConnector.below ['a', '.', 'w'] = true := by decide +kernel
  have hfollow : wildcardChain.lookup ['c'] = some ['a', '.', 'w'] := by decide +kernel
  have htrue := hiff.2 ⟨['a', '.', 'w'], ⟨1, .single hfollow⟩, .inr hbelow⟩
  cases htrue

end AppConnector

end Multiport.Appc

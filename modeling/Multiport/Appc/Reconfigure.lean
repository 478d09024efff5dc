import Multiport.Appc.Connector

/-!
# Reconfiguring an app connector

What becomes of the addresses of a domain when the control server sends other domains.
-/

namespace Multiport.Appc

open Lib Net Dns List

namespace AppConnector

/-- The domains of a configuration that are not wildcards. -/
def listed (toLower : Name → Name) (domains : List Name) : List Name :=
  (domains.map toLower).filter fun d => d ≠ [] ∧ ¬ ['*', '.'].isPrefixOf d

variable (toLower : Name → Name) (domains : List Name)

/-- A domain takes its addresses along when it is listed, and loses them when it is listed again. -/
theorem lookup_foldl_configure (x : Configure) (d : Name) :
    (domains.foldl (configure toLower) x).domains.lookup d =
      (if (listed toLower domains).count d = 0 then x.domains.lookup d
      else some (if (listed toLower domains).count d = 1 then (x.oldDomains.lookup d).getD {}
        else {})) ∧
    (domains.foldl (configure toLower) x).oldDomains.lookup d =
      if (listed toLower domains).count d = 0 then x.oldDomains.lookup d else none := by
  induction domains generalizing x with
  | nil => exact ⟨rfl, rfl⟩
  | cons d' domains ih =>
    rw [foldl_cons, (ih _).1, (ih _).2]
    by_cases hl : toLower d' ≠ [] ∧ ¬ ['*', '.'].isPrefixOf (toLower d')
    · have hlisted : listed toLower (d' :: domains) = toLower d' :: listed toLower domains :=
        filter_cons_of_pos (decide_eq_true hl)
      rw [hlisted, configure, if_neg hl.1, if_neg hl.2, GoMap.lookup_insert_eq,
        GoMap.lookup_erase_eq]
      by_cases hd : d = toLower d'
      · subst hd
        split_ifs <;> simp_all
      · rw [count_cons_of_ne (Ne.symm hd), if_neg hd, if_neg hd]
        exact ⟨rfl, rfl⟩
    · have hlisted : listed toLower (d' :: domains) = listed toLower domains :=
        filter_cons_of_neg (by simpa using hl)
      have hsame : (configure toLower x d').domains = x.domains ∧
          (configure toLower x d').oldDomains = x.oldDomains := by
        rw [configure]
        split_ifs <;> simp_all
      rw [hlisted, hsame.1, hsame.2]
      exact ⟨rfl, rfl⟩

theorem lookup_updateDomains (e : AppConnector) (d : Name) :
    (e.updateDomains toLower domains).1.lookup d =
      if (listed toLower domains).count d = 0 then
        (e.lookup d).filter fun _ => (e.updateDomains toLower domains).1.below d
      else some (if (listed toLower domains).count d = 1 then e.domainAddrs d else {}) := by
  obtain ⟨hdomains, hold⟩ :=
    lookup_foldl_configure toLower domains { oldDomains := e.domains.getD ∅ } d
  have he : (e.domains.getD ∅).lookup d = e.lookup d := by
    rw [lookup]
    cases e.domains <;> rfl
  change (GoMap.insertAll _ _).lookup d = _
  rw [GoMap.lookup_insertAll, GoMap.lookup_deleteWhere, hdomains, hold, he]
  split_ifs <;> simp [below, updateDomains, keepBelow, domainAddrs]

/-- **A domain that stays configured keeps its addresses**, by its name or by a wildcard, exactly
if none with addresses is listed twice. -/
theorem updateDomains_keeps_iff (e : AppConnector) :
    (∀ d, d ∈ listed toLower domains ∨ (e.updateDomains toLower domains).1.below d = true →
        (e.updateDomains toLower domains).1.domainAddrs d = e.domainAddrs d) ↔
      ∀ d, 2 ≤ (listed toLower domains).count d → e.domainAddrs d = {} := by
  refine forall_congr' fun d => ?_
  rw [domainAddrs, lookup_updateDomains, ← count_pos_iff]
  rcases (listed toLower domains).count d with - | - | n
  · refine iff_of_true (fun hd => ?_) fun h => absurd h (by decide)
    rw [if_pos rfl, hd.resolve_left (lt_irrefl 0), domainAddrs]
    cases e.lookup d <;> rfl
  · simp
  · simpa using eq_comm

end AppConnector

end Multiport.Appc

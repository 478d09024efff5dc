import Mathlib.Data.List.Sort
import Multiport.Lib.Checks

/-!
# List lemmas

* `evictOldest` bounds a list that grows at its end by dropping its oldest
  entries.
* A stable sort by a key changes the order of elements with different keys only.
  So a function that treats the keys one by one cannot tell a list from its
  sorted form: `filter_insertionSort`.
-/

namespace Multiport.Lib

open List

variable {α β κ : Type*}

theorem filterMap_cons_toList (f : α → Option β) (a : α) (l : List α) :
    (a :: l).filterMap f = (f a).toList ++ l.filterMap f := by
  cases h : f a <;> simp [h]

variable {l : List α} {a : α}

theorem forall_mem_concat {p : α → Prop} : (∀ x ∈ l ++ [a], p x) ↔ (∀ x ∈ l, p x) ∧ p a := by
  rw [forall_mem_append, forall_mem_singleton]

theorem getLast?_filter_of_last {p : α → Bool} (hl : l.getLast? = some a) (ha : p a = true) :
    (l.filter p).getLast? = some a := by
  obtain ⟨l, rfl⟩ := List.getLast?_eq_some_iff.1 hl
  simp [ha]

/-! ## Bounded lists -/

/-- Keep the last `limit` entries, if there is a limit:
`if limit > 0 && len(l) > limit { copy(l, l[len(l)-limit:]); l = l[:limit] }`. -/
def evictOldest (limit : Int) (l : List α) : List α :=
  if 0 < limit ∧ limit < l.length then l.drop (l.length - limit.toNat) else l

@[simp] theorem evictOldest_zero (l : List α) : evictOldest 0 l = l := by
  rw [evictOldest, if_neg (by simp)]

theorem evictOldest_suffix (limit : Int) (l : List α) : evictOldest limit l <:+ l := by
  unfold evictOldest
  split
  · exact drop_suffix _ _
  · exact suffix_rfl

variable {limit : Int}

theorem evictOldest_eq_drop (h : 0 < limit) (l : List α) :
    evictOldest limit l = l.drop (l.length - limit.toNat) := by
  unfold evictOldest
  split
  · rfl
  next hl =>
    have hz : l.length - limit.toNat = 0 := by omega
    rw [hz, drop_zero]

theorem length_evictOldest (h : 0 < limit) (l : List α) :
    ((evictOldest limit l).length : Int) = min limit l.length := by
  rw [evictOldest_eq_drop h, length_drop]
  omega

/-- Evicting early makes no difference. -/
theorem evictOldest_append (h : 0 < limit) (l m : List α) :
    evictOldest limit (evictOldest limit l ++ m) = evictOldest limit (l ++ m) := by
  have hle : l.length - limit.toNat ≤ l.length := Nat.sub_le _ _
  rw [evictOldest_eq_drop h, evictOldest_eq_drop h, evictOldest_eq_drop h,
    ← drop_append_of_le_length hle, drop_drop]
  congr 1
  simp only [length_drop, length_append]
  omega

/-! ## Sorting by a key -/

variable [LinearOrder κ]

theorem filter_orderedInsert (key : α → κ) (k : κ) (a : α) (l : List α) :
    (l.orderedInsert (fun x y => key x ≤ key y) a).filter (key · = k) =
      (a :: l).filter (key · = k) := by
  induction l with
  | nil => rfl
  | cons b l ih =>
    by_cases hab : key a ≤ key b
    · rw [List.orderedInsert, if_pos hab]
    · rw [List.orderedInsert, if_neg hab, filter_cons, ih]
      by_cases hb : key b = k
      · have ha : key a ≠ k := fun h => hab (h.trans hb.symm).le
        simp [hb, ha]
      · simp [filter_cons, hb]

theorem filter_insertionSort (key : α → κ) (k : κ) (l : List α) :
    (l.insertionSort fun x y => key x ≤ key y).filter (key · = k) = l.filter (key · = k) := by
  induction l with
  | nil => rfl
  | cons a l ih =>
    rw [insertionSort_cons, filter_orderedInsert, filter_cons, ih, filter_cons]

theorem getD_of_findIdx? {f : α → Bool} {i : Nat} (h : l.findIdx? f = some i) (d : α) :
    l.getD i d ∈ l ∧ f (l.getD i d) = true := by
  obtain ⟨hlt, hf, -⟩ := List.findIdx?_eq_some_iff_getElem.1 h
  rw [getD_eq_getElem?_getD, List.getElem?_eq_getElem hlt]
  exact ⟨getElem_mem hlt, hf⟩

theorem two_le_length {b : α} (ha : a ∈ l) (hb : b ∈ l) (hne : a ≠ b) : 2 ≤ l.length := by
  rcases l with _ | ⟨x, _ | ⟨y, l⟩⟩
  · simp at ha
  · rw [mem_singleton] at ha hb
    exact absurd (ha.trans hb.symm) hne
  · simp

theorem nodup_map_concat {f : α → β} (h : (l.map f).Nodup) (hnew : ∀ c ∈ l, f c ≠ f a) :
    ((l ++ [a]).map f).Nodup := by
  rw [map_append, map_singleton, ← concat_eq_append]
  refine h.concat fun hmem => ?_
  obtain ⟨c, hc, heq⟩ := mem_map.1 hmem
  exact hnew c hc heq

theorem head?_insertionSort {key : α → κ} {r : α → α → Prop} [DecidableRel r]
    (hr : ∀ a b, r a b ↔ key a ≤ key b) (h : (l.insertionSort r).head? = some a) :
    a ∈ l ∧ ∀ b ∈ l, key a ≤ key b := by
  have : Std.Total r := ⟨fun a b => by rw [hr, hr]; exact le_total _ _⟩
  have : IsTrans α r := ⟨fun a b c hab hbc => (hr a c).2 (((hr a b).1 hab).trans ((hr b c).1 hbc))⟩
  have hp := pairwise_insertionSort r l
  obtain ⟨t, ht⟩ := List.head?_eq_some_iff.1 h
  have hmem : ∀ b, b ∈ l ↔ b = a ∨ b ∈ t := by
    intro b
    rw [← mem_insertionSort r, ht, mem_cons]
  refine ⟨(hmem a).2 (.inl rfl), fun b hb => ?_⟩
  rcases (hmem b).1 hb with rfl | hbt
  · exact le_rfl
  · rw [ht, pairwise_cons] at hp
    exact (hr a b).1 (hp.1 b hbt)

theorem le_of_getLast?_filter {key : α → κ} {p : α → Bool}
    (hl : l.Pairwise fun a b => key a ≤ key b)
    (h : (l.filter p).getLast? = some a) : a ∈ l ∧ p a ∧ ∀ b ∈ l, p b → key b ≤ key a := by
  have ha := mem_filter.1 (mem_of_getLast? h)
  refine ⟨ha.1, ha.2, fun b hb hpb => ?_⟩
  obtain ⟨t, ht⟩ := List.getLast?_eq_some_iff.1 h
  have hp := hl.filter p
  have hbt : b ∈ t ++ [a] := ht ▸ mem_filter.2 ⟨hb, hpb⟩
  rw [ht, pairwise_append] at hp
  rcases mem_append.1 hbt with hbt | hba
  · exact hp.2.2 b hbt a (by simp)
  · rw [mem_singleton.1 hba]

theorem foldl_keeps {γ : Type*} {op : β → α → β} (f : β → γ) (h : ∀ b a, f (op b a) = f b)
    (l : List α) (b : β) : f (l.foldl op b) = f b := by
  induction l generalizing b with
  | nil => rfl
  | cons a l ih => rw [foldl_cons, ih, h]

/-- What one round of a loop may make true, the loop makes true. -/
theorem foldl_iff_or_exists {op : β → α → β} {P : β → Prop} {Q : α → Prop}
    (h : ∀ b a, P (op b a) ↔ P b ∨ Q a) (l : List α) (b : β) :
    P (l.foldl op b) ↔ P b ∨ ∃ a ∈ l, Q a := by
  induction l generalizing b with
  | nil => simp
  | cons a l ih => rw [foldl_cons, ih, h, or_assoc, exists_mem_cons_iff]

theorem foldlM_cons_eq_ok {ε : Type*} {f : β → α → Except ε β} {b c : β} :
    (a :: l).foldlM f b = .ok c ↔ ∃ mid, f b a = .ok mid ∧ l.foldlM f mid = .ok c := by
  exact bind_eq_ok_iff

theorem foldlM_cons_eq_some {f} {b c : β} :
    (a :: l).foldlM f b = some c ↔ ∃ mid, f b a = some mid ∧ l.foldlM f mid = some c := by
  rw [foldlM_cons]
  exact Option.bind_eq_some_iff

/-- A loop that fails does so in one of its steps. -/
theorem exists_of_foldlM_eq_error {ε : Type*} {f : β → α → Except ε β} {b : β} {e : ε}
    (h : l.foldlM f b = .error e) : ∃ a ∈ l, ∃ b, f b a = .error e := by
  induction l generalizing b with
  | nil => cases h
  | cons a l ih =>
    rw [foldlM_cons] at h
    cases hstep : f b a with
    | error e' =>
      rw [hstep] at h
      cases h
      exact ⟨a, mem_cons_self, b, hstep⟩
    | ok b' =>
      rw [hstep] at h
      obtain ⟨a', ha, hfail⟩ := ih h
      exact ⟨a', mem_cons_of_mem _ ha, hfail⟩

/-- A loop that goes through keeps an invariant of the elements it has seen. -/
theorem foldlM_invariant {ε : Type*} {f : β → α → Except ε β} {I : List α → β → Prop}
    (hstep : ∀ {seen b a b'}, I seen b → f b a = .ok b' → I (seen ++ [a]) b') {seen : List α}
    {b c : β} (hb : I seen b) (h : l.foldlM f b = .ok c) : I (seen ++ l) c := by
  induction l generalizing seen b with
  | nil =>
    cases h
    simpa using hb
  | cons a l ih =>
    obtain ⟨mid, hmid, hrest⟩ := foldlM_cons_eq_ok.1 h
    have := ih (hstep hb hmid) hrest
    rwa [append_assoc] at this

end Multiport.Lib

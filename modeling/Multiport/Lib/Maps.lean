import Mathlib.Data.List.AList
import Mathlib.Data.List.Induction

/-!
# Go maps and slices

A Go map is an association list with distinct keys, in the order in which the
next `range` over it happens to run; nothing else observes that order.  Two maps
are the `Same` when all look-ups agree.

A Go slice is an optional list, because `nil` and an empty slice are told apart
by some code (`s != nil`) and not by other code (`slices.Equal`).
-/

namespace Multiport.Lib

open List

universe u v

/-- A Go map, in the iteration order of the next `range` over it. -/
abbrev GoMap (K : Type u) (V : Type v) : Type max u v := AList (fun _ : K => V)

namespace GoMap

variable {K : Type u} {V : Type v}

/-- `len(m)`. -/
def size (m : GoMap K V) : Nat := m.entries.length

/-- The values of a map, in iteration order. -/
def values (m : GoMap K V) : List V := m.entries.map Sigma.snd

/-- `for k, v := range m { if p(k, v) { delete(m, k) } }`. -/
def deleteWhere (p : K → V → Bool) (m : GoMap K V) : GoMap K V :=
  ⟨m.entries.filter fun e => !p e.1 e.2, m.nodupKeys.sublist filter_sublist⟩

/-- A `range` that changes each value, or deletes it. -/
def filterMapValues (f : V → Option V) (m : GoMap K V) : GoMap K V where
  entries := m.entries.filterMap fun e => (f e.2).map fun v => ⟨e.1, v⟩
  nodupKeys := by
    have h := nodupKeys_iff_pairwise.1 m.nodupKeys
    refine nodupKeys_iff_pairwise.2 (h.filterMap _ ?_)
    simp only [Option.map_eq_some_iff]
    rintro e e' hne _ ⟨v, -, rfl⟩ _ ⟨v', -, rfl⟩
    exact hne

/-- An order in which Go may iterate over maps. -/
structure RangeOrder (K : Type u) (V : Type v) where
  entries : GoMap K V → List (Sigma fun _ : K => V)
  perm : ∀ m, (entries m).Perm m.entries

/-- The order in which a map is stored here. -/
def RangeOrder.stored : RangeOrder K V := ⟨AList.entries, fun _ => .refl _⟩

variable [DecidableEq K]

/-- The order that starts with one key. -/
def RangeOrder.first (k : K) : RangeOrder K V where
  entries m := m.entries.filter (fun x => x.1 = k) ++ m.entries.filter (fun x => !decide (x.1 = k))
  perm m := filter_append_perm _ m.entries

/-- Two maps with the same look-ups. -/
def Same (m n : GoMap K V) : Prop := ∀ k, m.lookup k = n.lookup k

/-- `if v, ok := m[k]; ok { m[k] = f(v) }`. -/
def modify (k : K) (f : V → V) (m : GoMap K V) : GoMap K V :=
  match m.lookup k with
  | some v => m.insert k (f v)
  | none => m

omit [DecidableEq K] in
@[simp] theorem entries_deleteWhere (p : K → V → Bool) (m : GoMap K V) :
    (m.deleteWhere p).entries = m.entries.filter fun e => !p e.1 e.2 := rfl

variable {m : GoMap K V} {k : K}

theorem lookup_eq_some_iff {v : V} :
    m.lookup k = some v ↔ ⟨k, v⟩ ∈ m.entries := AList.mem_lookup_iff

/-- A key of the map is what its order starts with. -/
theorem RangeOrder.exists_entries_first (h : (m.lookup k).isSome = true) :
    ∃ v rest, (RangeOrder.first k).entries m = ⟨k, v⟩ :: rest := by
  obtain ⟨v, hv⟩ := Option.isSome_iff_exists.1 h
  have hmem : (⟨k, v⟩ : Σ _ : K, V) ∈ m.entries.filter (fun x => x.1 = k) := by
    simpa using lookup_eq_some_iff.1 hv
  obtain ⟨⟨k', w⟩, l, hl⟩ := exists_cons_of_ne_nil (ne_nil_of_mem hmem)
  have hk : k' = k := by
    have hfirst : (⟨k', w⟩ : Σ _ : K, V) ∈ m.entries.filter (fun x => x.1 = k) := by
      rw [hl]
      exact mem_cons_self
    simpa using (mem_filter.1 hfirst).2
  subst hk
  exact ⟨w, _, congrArg (· ++ _) hl⟩

theorem lookup_deleteWhere (p : K → V → Bool) (m : GoMap K V) (k : K) :
    (m.deleteWhere p).lookup k = (m.lookup k).filter fun v => !p k v := by
  ext v
  rw [Option.filter_eq_some_iff, lookup_eq_some_iff, lookup_eq_some_iff, entries_deleteWhere,
    mem_filter]

theorem lookup_filterMapValues (f : V → Option V) (m : GoMap K V) (k : K) :
    (m.filterMapValues f).lookup k = (m.lookup k).bind f := by
  ext v
  rw [lookup_eq_some_iff, Option.bind_eq_some_iff]
  change (⟨k, v⟩ : Σ _ : K, V) ∈ m.entries.filterMap _ ↔ _
  simp only [mem_filterMap, Option.map_eq_some_iff, lookup_eq_some_iff]
  simp

theorem lookup_insert_eq (k k' : K) (v : V) (m : GoMap K V) :
    (m.insert k v).lookup k' = if k' = k then some v else m.lookup k' := by
  by_cases h : k' = k
  · subst h
    simp
  · simp [h]

theorem lookup_erase_eq (k k' : K) (m : GoMap K V) :
    (m.erase k).lookup k' = if k' = k then none else m.lookup k' := by
  by_cases h : k' = k
  · subst h
    simp
  · simp [h]

section Some

variable {k' : K} {v w : V}

theorem lookup_erase_iff : (m.erase k).lookup k' = some w ↔ m.lookup k' = some w ∧ k' ≠ k := by
  rw [lookup_erase_eq]
  split
  next h => exact iff_of_false nofun fun hk => hk.2 h
  next h => exact (and_iff_left h).symm

theorem lookup_insert_iff :
    (m.insert k v).lookup k' = some w ↔ (k' = k ∧ w = v) ∨ (m.erase k).lookup k' = some w := by
  rw [lookup_insert_eq, lookup_erase_eq]
  split
  next h => simp [h, eq_comm]
  next h => simp [h]

theorem lookup_insert_of_none (h : m.lookup k = none) :
    (m.insert k v).lookup k' = some w ↔ (k' = k ∧ w = v) ∨ m.lookup k' = some w := by
  have hne : m.lookup k' = some w → k' ≠ k := by
    rintro hk rfl
    cases h.symm.trans hk
  rw [lookup_insert_iff, lookup_erase_iff, and_iff_left_of_imp hne]

end Some

theorem lookup_modify (k k' : K) (f : V → V) (m : GoMap K V) :
    (m.modify k f).lookup k' = if k' = k then (m.lookup k').map f else m.lookup k' := by
  unfold modify
  cases h : m.lookup k with
  | none =>
    by_cases hk : k' = k
    · subst hk
      simp [h]
    · simp [hk]
  | some v =>
    by_cases hk : k' = k
    · subst hk
      simp [h]
    · simp [hk]

/-- `for k, v := range n { m[k] = v }`. -/
def insertAll (m n : GoMap K V) : GoMap K V := n.entries.foldl (fun m e => m.insert e.1 e.2) m

theorem lookup_insertAll (m n : GoMap K V) (k : K) :
    (m.insertAll n).lookup k = (n.lookup k).or (m.lookup k) := by
  have h : ∀ (l : List (Sigma fun _ : K => V)) (m : GoMap K V), l.NodupKeys →
      (l.foldl (fun m e => m.insert e.1 e.2) m).lookup k = (l.dlookup k).or (m.lookup k) := by
    intro l
    induction l with
    | nil => exact fun m _ => rfl
    | cons e l ih =>
      intro m hl
      rw [nodupKeys_cons] at hl
      rw [foldl_cons, ih _ hl.2, lookup_insert_eq]
      obtain ⟨k', v⟩ := e
      by_cases hk : k = k'
      · subst hk
        rw [dlookup_eq_none.2 hl.1]
        simp
      · rw [dlookup_cons_ne _ _ hk, if_neg hk]
  exact h n.entries m n.nodupKeys

theorem mem_values {v : V} : v ∈ m.values ↔ ∃ k, m.lookup k = some v := by
  rw [values, mem_map]
  constructor
  · rintro ⟨⟨k, w⟩, he, rfl⟩
    exact ⟨k, lookup_eq_some_iff.2 he⟩
  · rintro ⟨k, hk⟩
    exact ⟨⟨k, v⟩, lookup_eq_some_iff.1 hk, rfl⟩

theorem mem_keys_iff : k ∈ m.keys ↔ ∃ v, m.lookup k = some v := by
  rw [← AList.mem_keys, ← AList.lookup_isSome, Option.isSome_iff_exists]

variable {f : V → K}

/-- `for _, v := range l { m[f(v)] = v }`, for values with distinct keys. -/
theorem lookup_foldl_insert {l : List V} (hl : (l.map f).Nodup) (m : GoMap K V) {v : V} :
    (l.foldl (fun m v => m.insert (f v) v) m).lookup k = some v ↔
      (v ∈ l ∧ f v = k) ∨ (k ∉ l.map f ∧ m.lookup k = some v) := by
  induction l generalizing m with
  | nil => simp
  | cons w l ih =>
    rw [map_cons, nodup_cons] at hl
    rw [foldl_cons, ih hl.2, lookup_insert_eq, map_cons, mem_cons, mem_cons]
    by_cases hk : k = f w
    · subst hk
      have hv : ¬(v ∈ l ∧ f v = f w) := fun hv => hl.1 (hv.2 ▸ mem_map_of_mem hv.1)
      rw [if_pos rfl, or_iff_right hv, and_iff_right hl.1, Option.some_inj]
      constructor
      · rintro rfl
        exact .inl ⟨.inl rfl, rfl⟩
      · rintro (⟨rfl | hmem, hf⟩ | ⟨hnot, -⟩)
        · rfl
        · exact absurd ⟨hmem, hf⟩ hv
        · exact absurd (.inl rfl) hnot
    · have hv : v = w → f v ≠ k := by
        rintro rfl heq
        exact hk heq.symm
      rw [if_neg hk]
      constructor
      · rintro (⟨hmem, hf⟩ | ⟨hnot, hm⟩)
        · exact .inl ⟨.inr hmem, hf⟩
        · exact .inr ⟨fun hor => hor.elim hk hnot, hm⟩
      · rintro (⟨hmem | hmem, hf⟩ | ⟨hnot, hm⟩)
        · exact absurd hf (hv hmem)
        · exact .inl ⟨hmem, hf⟩
        · exact .inr ⟨fun hmem => hnot (.inr hmem), hm⟩

/-- `for _, x := range l { m[f(x)] = g(x) }`: the last element with a key decides. -/
theorem lookup_foldl_insert_last {A : Type*} (f : A → K) (g : A → V) (l : List A) (k : K) :
    (l.foldl (fun m x => m.insert (f x) (g x)) (∅ : GoMap K V)).lookup k =
      ((l.filter (f · = k)).getLast?).map g := by
  induction l using List.reverseRecOn with
  | nil => rfl
  | append_singleton l x ih =>
    rw [foldl_append, foldl_cons, foldl_nil, lookup_insert_eq, ih]
    by_cases hk : k = f x
    · subst hk
      simp
    · simp [hk, Ne.symm hk]

/-- `m[k] = append(m[k], v)`. -/
def append (m : GoMap K (List V)) (k : K) (v : V) : GoMap K (List V) :=
  m.insert k ((m.lookup k).getD [] ++ [v])

/-- `for _, x := range l { m[x.k] = append(m[x.k], x.v) }`. -/
theorem lookup_foldl_append (l : List (K × V)) (m : GoMap K (List V)) (k : K) :
    (l.foldl (fun m x => m.append x.1 x.2) m).lookup k =
      if l.filter (·.1 = k) = [] then m.lookup k
      else some ((m.lookup k).getD [] ++ (l.filter (·.1 = k)).map Prod.snd) := by
  induction l generalizing m with
  | nil => rfl
  | cons x l ih =>
    rw [foldl_cons, ih, append, lookup_insert_eq]
    by_cases hk : x.1 = k
    · rw [filter_cons_of_pos (by simpa using hk), hk]
      simp
    · rw [filter_cons_of_neg (by simpa using hk), if_neg (Ne.symm hk)]

theorem size_foldl_insert {l : List V} (hl : (l.map f).Nodup) :
    (l.foldl (fun m v => m.insert (f v) v) (∅ : GoMap K V)).size = l.length := by
  have hperm : (l.foldl (fun m v => m.insert (f v) v) (∅ : GoMap K V)).keys.Perm (l.map f) := by
    refine (perm_ext_iff_of_nodup (AList.keys_nodup _) hl).2 fun k => ?_
    simp only [mem_keys_iff, lookup_foldl_insert hl]
    simp
  rw [size, ← length_map (f := Sigma.fst), ← length_map (f := f)]
  exact hperm.length_eq

theorem lookup_of_sublist {n : GoMap K V} (h : m.entries.Sublist n.entries) {v : V}
    (hk : m.lookup k = some v) : n.lookup k = some v :=
  lookup_eq_some_iff.2 (h.subset (lookup_eq_some_iff.1 hk))

/-- Values that know their key are told apart by it. -/
theorem nodup_map_values (hf : ∀ k v, m.lookup k = some v → f v = k) : (m.values.map f).Nodup := by
  have hkeys : m.values.map f = m.keys := by
    rw [values, map_map]
    refine map_congr_left fun e he => ?_
    exact hf e.1 e.2 (lookup_eq_some_iff.2 he)
  rw [hkeys]
  exact m.keys_nodup

/-- A map mentions a key at most once: the entries of `k` are what a look-up of
`k` finds. -/
theorem map_filter_entries {W : Type*} (m : GoMap K V) (k : K) (f : V → W) :
    (m.entries.filter fun e => e.1 = k).map (fun e => f e.2) = ((m.lookup k).map f).toList := by
  have h : ∀ l : List (Sigma fun _ : K => V),
      (l.filter fun e => e.1 = k).map (fun e => f e.2) = (l.lookupAll k).map f := by
    intro l
    induction l with
    | nil => rfl
    | cons e l ih =>
      obtain ⟨k', v⟩ := e
      by_cases hk : k = k'
      · subst hk
        simp [ih]
      · rw [lookupAll_cons_ne _ _ hk, ← ih, filter_cons_of_neg (by simpa using Ne.symm hk)]
  rw [h, lookupAll_eq_dlookup _ m.nodupKeys, ← Option.toList_map]
  rfl

end GoMap

/-- A Go slice: `none` is the nil slice. -/
abbrev Slice (α : Type u) : Type u := Option (List α)

/-- The elements of a slice; a nil slice has none. -/
def Slice.elems {α : Type u} (s : Slice α) : List α := s.getD []

end Multiport.Lib

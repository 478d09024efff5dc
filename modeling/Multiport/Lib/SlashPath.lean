import Mathlib.Data.List.DropRight

/-!
# Slash-separated paths

A path is cleaned by its elements: empty ones and `.` are dropped, and `..` takes the element
before it away.  The directory of a cleaned path is the path without its last element, so that
the directories above a path are its `ancestor`s, and those end at the root for a rooted path
and at `.` for a relative one.
-/

namespace Multiport.Lib

open List

/-- A path, or an element of one. -/
abbrev Path : Type := List Char

namespace Path

/-! ## Cleaning -/

variable (p : Path)

/-- The path starts with a slash. -/
def rooted : Bool := p.head? == some '/'

def dot : Path := ['.']

def dotdot : Path := ['.', '.']

/-- The next element, after those before it (the last one first). -/
def push (rooted : Bool) (es : List Path) (e : Path) : List Path :=
  if e = [] ∨ e = dot then es
  else if e = dotdot then
    match es with
    | [] => if rooted then [] else [e]
    | x :: rest => if x = dotdot then e :: es else rest
  else e :: es

/-- The elements that are left of a path, the last one first. -/
def stack : List Path := (p.splitOn '/').foldl (push p.rooted) []

/-- The elements that are left of a path. -/
def elements : List Path := p.stack.reverse

/-- The path with some elements. -/
def render (rooted : Bool) (es : List Path) : Path :=
  if rooted then '/' :: ['/'].intercalate es
  else if es = [] then dot else ['/'].intercalate es

def clean : Path := render p.rooted p.elements

/-- `path.Dir`: what is left of the path before its last slash. -/
def dir : Path := clean (p.rdropWhile (· ≠ '/'))

/-- The cleaned path with its first elements only. -/
def ancestor (k : Nat) : Path := render p.rooted (p.elements.take k)

variable {r : Bool} {e p : Path} {es : List Path}

/-! ## Elements of cleaned paths -/

/-- An element that stands for itself, or for the directory above. -/
structure Plain (e : Path) : Prop where
  ne_nil : e ≠ []
  ne_dot : e ≠ dot
  slash : '/' ∉ e

/-- What is left of a path: `..` stands only at the start of a relative path. -/
def Settled (r : Bool) : List Path → Prop
  | [] => True
  | e :: es => Plain e ∧ (e = dotdot → r = false ∧ ∀ x ∈ es, x = dotdot) ∧ Settled r es

theorem Settled.plain (h : Settled r es) : ∀ e ∈ es, Plain e := by
  induction es with
  | nil => exact fun e he => absurd he not_mem_nil
  | cons x es ih =>
    rintro e (_ | ⟨_, he⟩)
    · exact h.1
    · exact ih h.2.2 e he

theorem Settled.drop (h : Settled r es) (n : Nat) : Settled r (es.drop n) := by
  induction n generalizing es with
  | zero => exact h
  | succ n ih =>
    cases es with
    | nil => exact h
    | cons e es => exact ih h.2.2

theorem push_of_skipped (h : e = [] ∨ e = dot) : push r es e = es := if_pos h

theorem push_of_settled (h : Settled r (e :: es)) : push r es e = e :: es := by
  obtain ⟨hplain, hdotdot, -⟩ := h
  unfold push
  rw [if_neg (not_or.2 ⟨hplain.ne_nil, hplain.ne_dot⟩)]
  split
  next he =>
    obtain ⟨hr, hall⟩ := hdotdot he
    cases es with
    | nil => simp [hr]
    | cons x es => simp [hall x mem_cons_self]
  next => rfl

theorem Settled.push (h : Settled r es) (he : '/' ∉ e) : Settled r (push r es e) := by
  unfold Path.push
  split
  next => exact h
  next hskip =>
    have hplain : Plain e := ⟨fun hnil => hskip (.inl hnil), fun hdot => hskip (.inr hdot), he⟩
    split
    next hdotdot =>
      match es, h with
      | [], _ =>
        cases r with
        | false => exact ⟨hplain, fun _ => ⟨rfl, fun x hx => absurd hx not_mem_nil⟩, trivial⟩
        | true => trivial
      | x :: rest, h =>
        change Settled r (if x = dotdot then e :: x :: rest else rest)
        split
        next hx =>
          obtain ⟨hr, hall⟩ := h.2.1 hx
          refine ⟨hplain, fun _ => ⟨hr, ?_⟩, h⟩
          rintro y (_ | ⟨_, hy⟩)
          · exact hx
          · exact hall y hy
        next => exact h.2.2
    next hne => exact ⟨hplain, fun hdotdot => absurd hdotdot hne, h⟩

theorem slash_notMem_of_mem_splitOn (he : e ∈ p.splitOn '/') : '/' ∉ e := by
  induction p generalizing e with
  | nil =>
    rw [splitOn_nil, mem_singleton] at he
    subst he
    exact not_mem_nil
  | cons c p ih =>
    rw [splitOn_cons_eq_if_modifyHead] at he
    split at he
    next =>
      rcases mem_cons.1 he with rfl | he
      · exact not_mem_nil
      · exact ih he
    next hc =>
      cases hsplit : p.splitOn '/' with
      | nil => exact absurd hsplit (splitOn_ne_nil _ _)
      | cons d ds =>
        rw [hsplit] at he
        rcases mem_cons.1 he with rfl | he
        · rintro (_ | ⟨_, hmem⟩)
          · exact hc (by simp)
          · exact ih (hsplit ▸ mem_cons_self) hmem
        · exact ih (hsplit ▸ mem_cons_of_mem _ he)

theorem settled_stack (p : Path) : Settled p.rooted p.stack := by
  have hfold : ∀ (l es : List Path), (∀ e ∈ l, '/' ∉ e) → Settled p.rooted es →
      Settled p.rooted (l.foldl (push p.rooted) es) := by
    intro l
    induction l with
    | nil => exact fun es _ h => h
    | cons e l ih =>
      intro es hl h
      exact ih _ (fun x hx => hl x (mem_cons_of_mem _ hx)) (h.push (hl e mem_cons_self))
  exact hfold _ [] (fun _ => slash_notMem_of_mem_splitOn) trivial

theorem foldl_push_of_settled (h : Settled r es) : es.reverse.foldl (push r) [] = es := by
  induction es with
  | nil => rfl
  | cons e es ih =>
    rw [reverse_cons, foldl_append, ih h.2.2]
    exact push_of_settled h

/-! ## Cleaned paths -/

theorem rooted_render (h : ∀ e ∈ es, Plain e) : (render r es).rooted = r := by
  cases r with
  | true => rfl
  | false =>
    cases es with
    | nil => rfl
    | cons e es =>
      have hplain := h e mem_cons_self
      obtain ⟨c, e, rfl⟩ := exists_cons_of_ne_nil hplain.ne_nil
      have hc : c ≠ '/' := fun heq => hplain.slash (heq ▸ mem_cons_self)
      cases es with
      | nil | cons x es => simpa [render, rooted] using hc

/-- The elements of a cleaned path, up to some that are skipped. -/
theorem foldl_splitOn_render (h : ∀ e ∈ es, Plain e) :
    ((render r es).splitOn '/').foldl (push r) [] = es.foldl (push r) [] := by
  have hsplit (hne : es ≠ []) : (['/'].intercalate es).splitOn '/' = es :=
    splitOn_intercalate '/' (fun e he => (h e he).slash) hne
  have hslash (q : Path) : ('/' :: q).splitOn '/' = [] :: q.splitOn '/' := by rfl
  by_cases hne : es = []
  · subst hne
    cases r <;> decide
  · cases r with
    | true => rw [render, if_pos rfl, hslash, hsplit hne, foldl_cons, push_of_skipped (.inl rfl)]
    | false => rw [render, if_neg Bool.false_ne_true, if_neg hne, hsplit hne]

theorem stack_render (h : Settled r es) : (render r es.reverse).stack = es := by
  have hplain : ∀ e ∈ es.reverse, Plain e := fun e he => h.plain e (mem_reverse.1 he)
  rw [stack, rooted_render hplain, foldl_splitOn_render hplain, foldl_push_of_settled h]

theorem clean_render (h : Settled r es) : clean (render r es.reverse) = render r es.reverse := by
  have hplain : ∀ e ∈ es.reverse, Plain e := fun e he => h.plain e (mem_reverse.1 he)
  rw [clean, elements, stack_render h, rooted_render hplain]

theorem clean_concat_slash (h : p ≠ []) : clean (p ++ ['/']) = clean p := by
  have hrooted : (p ++ ['/'] : Path).rooted = p.rooted := by
    obtain ⟨c, p, rfl⟩ := exists_cons_of_ne_nil h
    rfl
  have hstack : (p ++ ['/'] : Path).stack = p.stack := by
    rw [stack, stack, hrooted, splitOn_append_cons_self, splitOn_nil, foldl_append,
      foldl_cons, foldl_nil, push_of_skipped (.inl rfl)]
  rw [clean, clean, elements, elements, hrooted, hstack]

/-! ## Directories -/

theorem render_ne_nil (h : ∀ e ∈ es, Plain e) : render r es ≠ [] := by
  cases r with
  | true => exact cons_ne_nil _ _
  | false =>
    cases es with
    | nil => exact cons_ne_nil _ _
    | cons e es =>
      obtain ⟨c, e, rfl⟩ := exists_cons_of_ne_nil (h e mem_cons_self).ne_nil
      cases es <;> simp [render]

/-- What stands before the last slash of a path. -/
theorem rdropWhile_append_of_notMem (he : '/' ∉ e) :
    (p ++ e).rdropWhile (· ≠ '/') = p.rdropWhile (· ≠ '/') := by
  induction e using List.reverseRecOn with
  | nil => rw [append_nil]
  | append_singleton e c ih =>
    rw [mem_append, not_or, mem_singleton] at he
    rw [← append_assoc, rdropWhile_concat_pos _ _ _ (by simpa using Ne.symm he.2),
      ih he.1]

theorem render_concat (hne : es ≠ []) : render r (es ++ [e]) = render r es ++ '/' :: e := by
  have hjoin : ∀ es : List Path, es ≠ [] →
      ['/'].intercalate (es ++ [e]) = ['/'].intercalate es ++ '/' :: e := by
    intro es
    induction es with
    | nil => exact fun h => absurd rfl h
    | cons x es ih =>
      cases es with
      | nil => simp
      | cons y es =>
        have ih := ih (cons_ne_nil _ _)
        rw [cons_append, cons_append, intercalate_cons_cons, ← cons_append, ih]
        simp
  cases r with
  | true => simp [render, hjoin es hne]
  | false => simp [render, hjoin es hne, hne]

theorem dir_render (h : Settled r (e :: es)) :
    dir (render r (e :: es).reverse) = render r es.reverse := by
  rw [reverse_cons, dir]
  cases es with
  | nil =>
    have hslash := h.1.slash
    cases r with
    | true =>
      have hsplit : render true ([].reverse ++ [e]) = ['/'] ++ e := by
        simp [render]
      rw [hsplit, rdropWhile_append_of_notMem hslash]
      rfl
    | false =>
      have hsplit : render false ([].reverse ++ [e]) = [] ++ e := by
        simp [render]
      rw [hsplit, rdropWhile_append_of_notMem hslash]
      rfl
  | cons x es =>
    have hne : (x :: es).reverse ≠ [] := by simp
    have hplain : ∀ y ∈ (x :: es).reverse, Plain y :=
      fun y hy => h.2.2.plain y (mem_reverse.1 hy)
    rw [render_concat hne, append_cons, rdropWhile_append_of_notMem h.1.slash,
      rdropWhile_concat_neg _ _ _ (by simp), clean_concat_slash (render_ne_nil hplain),
      clean_render h.2.2]

/-! ## Ancestors -/

theorem ancestor_length (p : Path) : p.ancestor p.elements.length = p.clean := by
  rw [ancestor, take_length, clean]

theorem plain_of_mem_elements (he : e ∈ p.elements) : Plain e :=
  (settled_stack p).plain e (mem_reverse.1 he)

theorem rooted_ancestor (p : Path) (k : Nat) : (p.ancestor k).rooted = p.rooted :=
  rooted_render fun _ he => plain_of_mem_elements (mem_of_mem_take he)

/-- The first elements of a path, the last one first. -/
theorem reverse_take_elements {k : Nat} (hk : k ≤ p.elements.length) :
    p.elements.take k = (p.stack.drop (p.elements.length - k)).reverse := by
  rw [elements, length_reverse] at *
  rw [reverse_drop]
  congr 1
  omega

/-- **The directory of an ancestor is the next one.** -/
theorem dir_ancestor {k : Nat} (hk : k < p.elements.length) :
    dir (p.ancestor (k + 1)) = p.ancestor k := by
  have hlen : p.stack.length = p.elements.length := (length_reverse).symm
  have hlt : p.elements.length - (k + 1) < p.stack.length := by omega
  have hdrop := drop_eq_getElem_cons hlt
  have hnext : p.elements.length - (k + 1) + 1 = p.elements.length - k := by omega
  rw [hnext] at hdrop
  have hsettled := (settled_stack p).drop (p.elements.length - (k + 1))
  rw [hdrop] at hsettled
  rw [ancestor, ancestor, reverse_take_elements hk, reverse_take_elements (le_of_lt hk), hdrop]
  exact dir_render hsettled

/-- The directory of the last ancestor of a relative path is itself. -/
theorem dir_ancestor_zero (h : p.rooted = false) : dir (p.ancestor 0) = p.ancestor 0 := by
  rw [ancestor, h]
  rfl

theorem ancestor_eq_root_iff {k : Nat} (hk : k ≤ p.elements.length) :
    p.ancestor k = ['/'] ↔ p.rooted = true ∧ k = 0 := by
  constructor
  · intro hroot
    have hrooted : p.rooted = true := (rooted_ancestor p k).symm.trans (congrArg rooted hroot)
    refine ⟨hrooted, ?_⟩
    rw [ancestor, hrooted] at hroot
    have hnil := (List.cons.inj hroot).2
    cases htake : p.elements.take k with
    | nil =>
      have hlen := congrArg List.length htake
      rw [length_take, length_nil] at hlen
      omega
    | cons e es =>
      have hne := (plain_of_mem_elements (mem_of_mem_take (htake ▸ mem_cons_self))).ne_nil
      obtain ⟨c, e, rfl⟩ := exists_cons_of_ne_nil hne
      rw [htake] at hnil
      cases es <;> simp at hnil
  · rintro ⟨hrooted, rfl⟩
    rw [ancestor, hrooted]
    rfl

end Path

end Multiport.Lib

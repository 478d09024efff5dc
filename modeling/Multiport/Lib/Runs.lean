import Mathlib.Data.List.Induction

/-!
# Runs

A run of a labelled transition relation is a list of labels, in the order in
which the steps were taken, together with the state it ends in.  Runs grow at
their end, so that an invariant may speak about the labels so far.
-/

namespace Multiport.Lib

open List

universe u v

variable {S : Type u} {A : Type v}

/-- The runs of `step` from `s₀`. -/
inductive Run (step : S → A → S → Prop) (s₀ : S) : List A → S → Prop
  | nil : Run step s₀ [] s₀
  | snoc {as : List A} {s t : S} {a : A} :
      Run step s₀ as s → step s a t → Run step s₀ (as ++ [a]) t

namespace Run

variable {step : S → A → S → Prop} {s₀ s : S} {as : List A}

/-- What holds at the start and is kept by every step holds along every run. -/
theorem invariant {I : List A → S → Prop} (h₀ : I [] s₀)
    (hs : ∀ as s a t, I as s → step s a t → I (as ++ [a]) t) (h : Run step s₀ as s) : I as s := by
  induction h with
  | nil => exact h₀
  | snoc _ hstep ih => exact hs _ _ _ _ ih hstep

variable {P : A → Prop} {I : S → Prop}

/-- An invariant that is kept by the steps with labels in `P`, along the runs with
labels in `P`. -/
theorem invariant_of_forall (h₀ : I s₀) (hs : ∀ s a t, P a → I s → step s a t → I t)
    (h : Run step s₀ as s) (hP : ∀ a ∈ as, P a) : I s := by
  induction h with
  | nil => exact h₀
  | snoc _ hstep ih =>
    rw [forall_mem_append] at hP
    exact hs _ _ _ (hP.2 _ mem_cons_self) (ih hP.1) hstep

/-- What the steps with labels in `P` from states in `I` show of their labels. -/
theorem forall_labels {Q : A → Prop} (h₀ : I s₀) (hs : ∀ s a t, P a → I s → step s a t → I t ∧ Q a)
    (h : Run step s₀ as s) (hP : ∀ a ∈ as, P a) : I s ∧ ∀ a ∈ as, Q a := by
  induction h with
  | nil => exact ⟨h₀, by simp⟩
  | snoc _ hstep ih =>
    rw [forall_mem_append] at hP
    obtain ⟨hI, hQ⟩ := ih hP.1
    obtain ⟨hI', hQ'⟩ := hs _ _ _ (hP.2 _ mem_cons_self) hI hstep
    exact ⟨hI', forall_mem_append.2 ⟨hQ, forall_mem_singleton.2 hQ'⟩⟩

/-- Two properties of labels that agree as long as an invariant holds, which holds as long
as the second one does. -/
theorem forall_labels_iff {Q : A → Prop} (h₀ : I s₀)
    (hs : ∀ s a t, I s → step s a t → (P a ↔ Q a) ∧ (Q a → I t)) (h : Run step s₀ as s) :
    (∀ a ∈ as, P a) ↔ ∀ a ∈ as, Q a := by
  suffices hall : ((∀ a ∈ as, P a) ↔ ∀ a ∈ as, Q a) ∧ ((∀ a ∈ as, Q a) → I s) from hall.1
  induction h with
  | nil => exact ⟨by simp, fun _ => h₀⟩
  | snoc _ hstep ih =>
    simp only [forall_mem_append, forall_mem_singleton]
    refine ⟨?_, fun hQ => (hs _ _ _ (ih.2 hQ.1) hstep).2 hQ.2⟩
    rw [ih.1]
    exact and_congr_right fun hQ => (hs _ _ _ (ih.2 hQ) hstep).1

theorem of_append_left {bs : List A} (h : Run step s₀ (as ++ bs) s) :
    ∃ s₁, Run step s₀ as s₁ ∧ Run step s₁ bs s := by
  induction bs using List.reverseRecOn generalizing s with
  | nil => exact ⟨s, by simpa using h, .nil⟩
  | append_singleton bs b ih =>
    rw [← append_assoc] at h
    generalize hl : as ++ bs ++ [b] = l at h
    cases h with
    | nil => simp at hl
    | snoc hrun hstep =>
      obtain ⟨rfl, hb⟩ := append_inj' hl rfl
      obtain rfl := singleton_inj.1 hb
      obtain ⟨s₁, h₁, h₂⟩ := ih hrun
      exact ⟨s₁, h₁, h₂.snoc hstep⟩

theorem mono {step' : S → A → S → Prop} (h : Run step s₀ as s)
    (himp : ∀ s a t, a ∈ as → step s a t → step' s a t) : Run step' s₀ as s := by
  induction h with
  | nil => exact .nil
  | snoc _ hstep ih =>
    refine (ih fun s a t ha => himp s a t (mem_append_left _ ha)).snoc ?_
    exact himp _ _ _ (mem_append_right _ mem_cons_self) hstep

end Run

/-! ## Traces of a function -/

/-- A step that was taken, with the states around it. -/
structure Taken (S : Type u) (A : Type v) where
  before : S
  act : A
  after : S

/-- The step of the function. -/
def Taken.Of (exec : S → A → S) (s : S) (τ : Taken S A) (t : S) : Prop :=
  τ.before = s ∧ τ.after = t ∧ exec s τ.act = t

/-- The step of a function that may fail, and does not. -/
def Taken.Ok {ε : Type*} (exec : S → A → Except ε S) (s : S) (τ : Taken S A) (t : S) : Prop :=
  τ.before = s ∧ τ.after = t ∧ exec s τ.act = .ok t

/-- The steps that `exec` takes from `s` on a list of actions. -/
def trace (exec : S → A → S) : S → List A → List (Taken S A)
  | _, [] => []
  | s, a :: as => ⟨s, a, exec s a⟩ :: trace exec (exec s a) as

variable {exec : S → A → S}

theorem run_trace (exec : S → A → S) (s : S) (as : List A) :
    Run (Taken.Of exec) s (trace exec s as) (as.foldl exec s) := by
  have h : ∀ (as : List A) (s₀ s : S) (τs : List (Taken S A)), Run (Taken.Of exec) s₀ τs s →
      Run (Taken.Of exec) s₀ (τs ++ trace exec s as) (as.foldl exec s) := by
    intro as
    induction as with
    | nil => simp [trace]
    | cons a as ih =>
      intro s₀ s τs hrun
      have hstep : Taken.Of exec s ⟨s, a, exec s a⟩ (exec s a) := ⟨rfl, rfl, rfl⟩
      simpa [trace] using ih s₀ (exec s a) _ (hrun.snoc hstep)
  exact h as s s [] .nil

variable {as : List A}

theorem exists_run_of_foldlM {ε : Type*} {exec : S → A → Except ε S} {s t : S}
    (h : as.foldlM exec s = .ok t) : ∃ τs, Run (Taken.Ok exec) s τs t ∧ τs.map Taken.act = as := by
  induction as using List.reverseRecOn generalizing t with
  | nil =>
    cases h
    exact ⟨[], .nil, rfl⟩
  | append_singleton as a ih =>
    rw [foldlM_append] at h
    cases hmid : as.foldlM exec s with
    | error e =>
      rw [hmid] at h
      cases h
    | ok mid =>
      rw [hmid] at h
      obtain ⟨τs, hrun, hacts⟩ := ih hmid
      have hstep : exec mid a = .ok t := (bind_pure _).symm.trans h
      exact ⟨τs ++ [⟨mid, a, t⟩], hrun.snoc ⟨rfl, rfl, hstep⟩, by simp [hacts]⟩

theorem map_act_trace (s : S) (as : List A) : (trace exec s as).map Taken.act = as := by
  induction as generalizing s with
  | nil => rfl
  | cons a as ih => rw [trace, map_cons, ih]

/-- The last step of a trace ends where the actions lead. -/
theorem exists_mem_trace_after (exec : S → A → S) (s : S) (h : as ≠ []) :
    ∃ τ ∈ trace exec s as, τ.after = as.foldl exec s := by
  induction as generalizing s with
  | nil => exact absurd rfl h
  | cons a as ih =>
    cases as with
    | nil => exact ⟨_, mem_cons_self, rfl⟩
    | cons b bs =>
      obtain ⟨τ, hτ, hafter⟩ := ih (exec s a) (cons_ne_nil b bs)
      exact ⟨τ, mem_cons_of_mem _ hτ, hafter⟩

theorem invariant_of_mem_trace {I : S → Prop} {s : S} (h₀ : I s) (hs : ∀ s a, I s → I (exec s a))
    {τ : Taken S A} (hτ : τ ∈ trace exec s as) : I τ.before ∧ τ.after = exec τ.before τ.act := by
  induction as generalizing s with
  | nil => exact absurd hτ not_mem_nil
  | cons a as ih =>
    rcases mem_cons.1 hτ with rfl | hτ
    · exact ⟨h₀, rfl⟩
    · exact ih (hs s a h₀) hτ

/-- A property that every step keeps exactly when it is a good one holds all along a
trace exactly when all its steps are good. -/
theorem forall_trace_iff {I : S → Prop} {P Q : Taken S A → Prop} {s : S} (h₀ : I s)
    (hs : ∀ s a, I s → (I (exec s a) ∧ P ⟨s, a, exec s a⟩ ↔ Q ⟨s, a, exec s a⟩)) (as : List A) :
    (∀ τ ∈ trace exec s as, I τ.after ∧ P τ) ↔ ∀ τ ∈ trace exec s as, Q τ := by
  induction as generalizing s with
  | nil => simp [trace]
  | cons a as ih =>
    rw [trace, forall_mem_cons, forall_mem_cons]
    constructor
    · rintro ⟨hhead, hrest⟩
      exact ⟨(hs s a h₀).1 hhead, (ih hhead.1).1 hrest⟩
    · rintro ⟨hhead, hrest⟩
      have hgood := (hs s a h₀).2 hhead
      exact ⟨hgood, (ih hgood.1).2 hrest⟩

end Multiport.Lib

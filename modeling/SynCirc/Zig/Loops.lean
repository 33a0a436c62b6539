import SynCirc.Zig.Outcome
import Mathlib.Data.List.Forall2

/-!
# Loops over related lists

A loop over a list returns what a pure loop over a related list computes, if every turn returns what
the pure turn computes.
-/

namespace Zig

variable {ε σ α β γ : Type}

/-- The elements of a list and their images under a partial function. -/
theorem forall₂_of_mapM {f : α → Option β} {xs : List α} {ys : List β}
    (h : xs.mapM f = some ys) :
  List.Forall₂ (fun x y => f x = some y) xs ys
  := by
  induction xs generalizing ys with
  | nil =>
      rw [List.mapM_nil, Option.pure_def, Option.some.injEq] at h
      rw [← h]
      apply List.Forall₂.nil
  | cons x xs ih =>
      simp only [List.mapM_cons, Option.pure_def, Option.bind_eq_bind, Option.bind_eq_some_iff,
        Option.some.injEq] at h
      obtain ⟨y, hy, ys', hys, rfl⟩ := h
      exact .cons hy (ih hys)

/-- An element of the second of two related lists is related to one of the first. -/
theorem exists_mem_of_forall₂ {R : α → β → Prop} {xs : List α} {ys : List β}
    (h : List.Forall₂ R xs ys) {y : β} (hy : y ∈ ys) :
  ∃ x ∈ xs, R x y
  := by
  induction h with
  | nil => cases hy
  | @cons x y' xs ys hxy _ ih =>
      rcases List.mem_cons.mp hy with rfl | hy
      · exact ⟨x, List.mem_cons_self, hxy⟩
      · obtain ⟨x', hx', hxy'⟩ := ih hy
        exact ⟨x', List.mem_cons_of_mem x hx', hxy'⟩

/-- The elements at the same position of two related lists. -/
theorem getElem?_of_forall₂ {R : α → β → Prop} {xs : List α} {ys : List β}
    (h : List.Forall₂ R xs ys) {i : Nat} {x : α} (hx : xs[i]? = some x) :
  ∃ y, ys[i]? = some y ∧ R x y
  := by
  obtain ⟨hi, rfl⟩ := List.getElem?_eq_some_iff.mp hx
  have hi' : i < ys.length := h.length_eq ▸ hi
  exact ⟨ys.get ⟨i, hi'⟩, List.getElem?_eq_getElem hi', h.get hi hi'⟩

/-- The position of the first occurrence of an element. -/
theorem idxOf_eq_of_notMem_take {xs : List Nat} {i w : Nat} (hw : xs[i]? = some w)
    (hnew : w ∉ xs.take i) :
  xs.idxOf w = i
  := by
  obtain ⟨hi, hget⟩ := List.getElem?_eq_some_iff.mp hw
  conv_lhs => rw [← List.take_append_drop i xs]
  rw [List.idxOf_append_of_notMem hnew, List.drop_eq_getElem_cons hi, hget, List.idxOf_cons_self,
    List.length_take]
  omega

namespace Outcome

/-- A program on every element of a list. -/
theorem mapM_of_forall₂ {f : α → Outcome ε γ} {g : β → γ} {R : α → β → Prop} {xs : List α}
    {ys : List β} (step : ∀ x, ∀ y ∈ ys, R x y → f x = ok (g y)) (h : List.Forall₂ R xs ys) :
  xs.mapM f = ok (ys.map g)
  := by
  induction h with
  | nil => rfl
  | @cons x y xs ys hxy _ ih =>
      have hrest : ∀ x, ∀ y ∈ ys, R x y → f x = ok (g y) :=
        fun x y' hy' => step x y' (List.mem_cons_of_mem y hy')
      rw [List.mapM_cons, step x y List.mem_cons_self hxy, ok_bind, ih hrest]
      rfl

/-- A loop with a state, where `P rest s` holds of the state when the elements `rest` are left. -/
theorem foldlM_of_forall₂ {f : σ → α → Outcome ε σ} {g : σ → β → σ} {R : α → β → Prop}
    {P : List β → σ → Prop}
    (step : ∀ x y rest s, R x y → P (y :: rest) s → f s x = ok (g s y) ∧ P rest (g s y))
    {xs : List α} {ys : List β} (h : List.Forall₂ R xs ys) (rest : List β) {s : σ}
    (hs : P (ys ++ rest) s) :
  xs.foldlM f s = ok (ys.foldl g s) ∧ P rest (ys.foldl g s)
  := by
  induction h generalizing s with
  | nil => exact ⟨rfl, hs⟩
  | cons hxy _ ih =>
      obtain ⟨hf, hP⟩ := step _ _ _ s hxy hs
      obtain ⟨hfold, hrest⟩ := ih hP
      refine ⟨?_, hrest⟩
      rw [List.foldlM_cons, hf, ok_bind, hfold]
      rfl

/-- A loop that collects a list, of which every turn appends a part. -/
theorem foldlM_collect {f : σ → α → Outcome ε σ} {state : List β → σ} {part : α → List β}
    {xs : List α} (step : ∀ x ∈ xs, ∀ ys, f (state ys) x = ok (state (ys ++ part x)))
    (ys : List β) :
  xs.foldlM f (state ys) = ok (state (ys ++ xs.flatMap part))
  := by
  induction xs generalizing ys with
  | nil =>
      rw [List.flatMap_nil, List.append_nil]
      rfl
  | cons x xs ih =>
      rw [List.forall_mem_cons] at step
      rw [List.foldlM_cons, step.1, ok_bind, ih step.2, List.flatMap_cons, List.append_assoc]

/-- A loop that follows a loop over an abstract state, turn by turn. -/
theorem foldlM_of_some {f : σ → α → Option σ} {g : γ → α → Outcome ε γ} {state : σ → γ}
    {xs : List α} (step : ∀ x ∈ xs, ∀ s s', f s x = some s' → g (state s) x = ok (state s'))
    {s s' : σ} (h : xs.foldlM f s = some s') :
  xs.foldlM g (state s) = ok (state s')
  := by
  induction xs generalizing s with
  | nil =>
      obtain rfl := Option.some.inj h
      rfl
  | cons x xs ih =>
      rw [List.forall_mem_cons] at step
      rw [List.foldlM_cons] at h
      obtain ⟨s₁, hs₁, h⟩ := Option.bind_eq_some_iff.mp h
      rw [List.foldlM_cons, step.1 s s₁ hs₁, ok_bind, ih step.2 h]

/-- A loop that returns, and that follows a loop over an abstract state. -/
theorem some_of_foldlM {f : σ → α → Option σ} {g : γ → α → Outcome ε γ} {state : σ → γ}
    {xs : List α}
    (step : ∀ x ∈ xs, ∀ s t, g (state s) x = ok t → ∃ s', t = state s' ∧ f s x = some s')
    {s : σ} {t : γ} (h : xs.foldlM g (state s) = ok t) :
  ∃ s', t = state s' ∧ xs.foldlM f s = some s'
  := by
  induction xs generalizing s with
  | nil =>
      obtain rfl := ok.inj h
      exact ⟨s, rfl, rfl⟩
  | cons x xs ih =>
      rw [List.forall_mem_cons] at step
      rw [List.foldlM_cons] at h
      obtain ⟨t₁, ht₁, h⟩ := bind_eq_ok.mp h
      obtain ⟨s₁, rfl, hs₁⟩ := step.1 s t₁ ht₁
      obtain ⟨s', rfl, hs'⟩ := ih step.2 h
      refine ⟨s', rfl, ?_⟩
      rw [List.foldlM_cons, hs₁]
      apply hs'

/-- A loop all of whose turns return. -/
theorem exists_foldlM_eq_ok {f : σ → α → Outcome ε σ} {xs : List α}
    (step : ∀ x ∈ xs, ∀ s, ∃ s', f s x = ok s') (s : σ) :
  ∃ s', xs.foldlM f s = ok s'
  := by
  induction xs generalizing s with
  | nil => exact ⟨s, rfl⟩
  | cons x xs ih =>
      rw [List.forall_mem_cons] at step
      obtain ⟨s₁, hs₁⟩ := step.1 s
      obtain ⟨s', hs'⟩ := ih step.2 s₁
      exact ⟨s', by rw [List.foldlM_cons, hs₁, ok_bind, hs']⟩

end Outcome

end Zig

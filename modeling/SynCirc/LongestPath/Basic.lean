import Mathlib.Logic.Function.Basic
import Mathlib.Logic.Relation
import Mathlib.Data.List.Basic
import Mathlib.Order.Bounds.Basic
import Mathlib.Data.Fintype.EquivFin

/-!
# Longest paths by relaxation

A graph has a list of successors for every vertex, and leaving a vertex `x` costs `weight x`.  A
search enters a vertex with a length, and keeps for every vertex the largest length it has been
entered with; 0 stands for a vertex that has not been entered.  When the length grows, the search
enters the successors again.

On an acyclic graph the search ends, and what it keeps is closed: no edge leads to a vertex with a
length that is too small (`exists_visit`).  So the lengths are those of the longest paths
(`Visited.isGreatest`).
-/

namespace LongestPath

/-- A relation without cycles on finitely many numbers is well-founded. -/
theorem wellFounded_of_acyclic {r : Nat → Nat → Prop} {bound : Nat}
    (hlt : ∀ x y, r x y → x < bound) (hacyclic : ∀ x, ¬ Relation.TransGen r x x) :
  WellFounded r
  := by
  let before : Fin bound → Fin bound → Prop := fun x y => Relation.TransGen r x.val y.val
  have : IsTrans _ before := ⟨fun _ _ _ h h' => h.trans h'⟩
  have : Std.Irrefl before := ⟨fun x => hacyclic x.val⟩
  have hbounded : ∀ x : Fin bound, Acc r x.val := by
    intro x
    induction x using (Finite.wellFounded_of_trans_of_irrefl before).induction with
    | h x ih =>
        constructor
        intro y hy
        apply ih ⟨y, hlt y _ hy⟩ (.single hy)
  constructor
  intro x
  constructor
  intro y hy
  apply hbounded ⟨y, hlt y x hy⟩

variable {V : Type} (succ : V → List V) (weight : V → Nat)

/-- Enter a vertex with the given length, and its successors if the length grows.  The search has
`fuel` calls that are nested in each other. -/
def visit [DecidableEq V] : Nat → V → Nat → (V → Nat) → Option (V → Nat)
  | 0, _, _, _ => none
  | fuel + 1, x, length, lengths =>
      if lengths x < length then
        (succ x).foldlM (fun lengths y => visit fuel y (length + weight x) lengths)
          (Function.update lengths x length)
      else some lengths

/-- The lengths of the paths that begin at a root.  A path that is a root has length 1, and the last
vertex of a path does not count. -/
inductive Path (root : V → Prop) : V → Nat → Prop where
  | root {x : V} (hx : root x) : Path root x 1
  | step {x y : V} {length : Nat} (hpath : Path root x length) (hy : y ∈ succ x) :
      Path root y (length + weight x)

/-- No edge from a vertex outside of `exempt` leads to a length that is too small. -/
def ClosedOff (exempt : V → Prop) (lengths : V → Nat) : Prop :=
  ∀ x, ¬ exempt x → lengths x ≠ 0 → ∀ y ∈ succ x, lengths x + weight x ≤ lengths y

/-- There is a path from one vertex to another. -/
def Reaches : V → V → Prop := Relation.ReflTransGen (fun x y => y ∈ succ x)

/-- What a search does that enters the vertices of a list with the given length. -/
structure Visited (exempt : V → Prop) (xs : List V) (length : Nat) (before after : V → Nat) : Prop
    where
  le : ∀ x, before x ≤ after x
  entered : ∀ x ∈ xs, length ≤ after x
  closed : ClosedOff succ weight exempt after
  frame : ∀ y, (∀ x ∈ xs, ¬ Reaches succ x y) → after y = before y
  sound : ∀ possible : V → Nat → Prop,
    (∀ x k y, possible x k → y ∈ succ x → possible y (k + weight x)) →
    (∀ x ∈ xs, possible x length) → (∀ x, before x ≠ 0 → possible x (before x)) →
    ∀ x, after x ≠ 0 → possible x (after x)

variable {succ weight} {exempt : V → Prop} {length : Nat} {before between after : V → Nat}

theorem Visited.refl {xs : List V} (h : ClosedOff succ weight exempt before)
    (hentered : ∀ x ∈ xs, length ≤ before x) :
  Visited succ weight exempt xs length before before
  := ⟨fun _ => le_rfl, hentered, h, fun _ _ => rfl, fun _ _ _ hbefore => hbefore⟩

theorem Visited.append {xs ys : List V} (h : Visited succ weight exempt xs length before between)
    (h' : Visited succ weight exempt ys length between after) :
  Visited succ weight exempt (xs ++ ys) length before after
  := by
  constructor
  · intro x
    apply (h.le x).trans (h'.le x)
  · rw [List.forall_mem_append]
    constructor
    · intro x hx
      apply (h.entered x hx).trans (h'.le x)
    · apply h'.entered
  · apply h'.closed
  · intro y hy
    rw [List.forall_mem_append] at hy
    rw [h'.frame y hy.2, h.frame y hy.1]
  · intro possible hstep hpossible hbefore
    rw [List.forall_mem_append] at hpossible
    apply h'.sound possible hstep hpossible.2
    apply h.sound possible hstep hpossible.1 hbefore

/-- A loop whose turns all return what the turns of another one do. -/
theorem foldlM_some_of_some {S : Type} {f g : S → V → Option S} {xs : List V}
    (step : ∀ x ∈ xs, ∀ s s', f s x = some s' → g s x = some s') {s s' : S}
    (h : xs.foldlM f s = some s') :
  xs.foldlM g s = some s'
  := by
  induction xs generalizing s with
  | nil => apply h
  | cons x xs ih =>
      rw [List.forall_mem_cons] at step
      rw [List.foldlM_cons] at h ⊢
      obtain ⟨s₁, hs₁, h⟩ := Option.bind_eq_some_iff.mp h
      rw [step.1 s s₁ hs₁]
      apply ih step.2 h

variable [DecidableEq V]

/-- More fuel does not change the result of a search. -/
theorem visit_mono {fuel fuel' : Nat} (hle : fuel ≤ fuel') {x : V}
    (h : visit succ weight fuel x length before = some after) :
  visit succ weight fuel' x length before = some after
  := by
  induction fuel generalizing fuel' x length before after with
  | zero => contradiction
  | succ fuel ih =>
      obtain ⟨fuel', rfl⟩ : ∃ k, fuel' = k + 1 := ⟨fuel' - 1, by omega⟩
      rw [visit] at h ⊢
      split
      case isTrue hlt =>
        rw [if_pos hlt] at h
        apply foldlM_some_of_some _ h
        intro y _ between after' hvisit
        apply ih (Nat.le_of_succ_le_succ hle) hvisit
      case isFalse hlt =>
        rw [if_neg hlt] at h
        apply h

/-- The search from a vertex ends within `limit` nested calls. -/
def Ends (succ : V → List V) (weight : V → Nat) (limit : Nat) (x : V) : Prop :=
  ∀ fuel ≥ limit, ∀ (exempt : V → Prop) (length : Nat) (before : V → Nat),
    ClosedOff succ weight exempt before → (∀ y, Reaches succ x y → ¬ exempt y) →
    ∃ after, visit succ weight fuel x length before = some after
      ∧ Visited succ weight exempt [x] length before after

theorem Ends.mono {limit limit' : Nat} {x : V} (h : Ends succ weight limit x)
    (hle : limit ≤ limit') :
  Ends succ weight limit' x
  := fun fuel hfuel => h fuel (hle.trans hfuel)

/-- Vertices that are entered one after the other. -/
theorem foldlM_visit {limit : Nat} {xs : List V} (h : ∀ x ∈ xs, Ends succ weight limit x)
    {fuel : Nat} (hfuel : limit ≤ fuel) (hclosed : ClosedOff succ weight exempt before)
    (hexempt : ∀ x ∈ xs, ∀ y, Reaches succ x y → ¬ exempt y) :
  ∃ after, xs.foldlM (fun lengths x => visit succ weight fuel x length lengths) before = some after
    ∧ Visited succ weight exempt xs length before after
  := by
  induction xs generalizing before with
  | nil => exact ⟨before, rfl, .refl hclosed (by simp)⟩
  | cons x xs ih =>
      rw [List.forall_mem_cons] at h hexempt
      obtain ⟨between, hvisit, hx⟩ := h.1 fuel hfuel exempt length before hclosed hexempt.1
      obtain ⟨after, hfold, hxs⟩ := ih h.2 hx.closed hexempt.2
      refine ⟨after, ?_, hx.append hxs⟩
      rw [List.foldlM_cons, hvisit]
      apply hfold

/-- Setting a length that grows keeps the other vertices closed. -/
theorem ClosedOff.update (h : ClosedOff succ weight exempt before) {x : V}
    (hlt : before x < length) :
  ClosedOff succ weight (fun y => y = x ∨ exempt y) (Function.update before x length)
  := by
  intro u hu hne v hv
  rw [not_or] at hu
  rw [Function.update_of_ne hu.1] at hne ⊢
  apply (h u hu.2 hne v hv).trans
  by_cases hvx : v = x
  · rw [hvx, Function.update_self]
    apply Nat.le_of_lt hlt
  · rw [Function.update_of_ne hvx]

/-- A vertex whose successors have been entered with its length is closed. -/
theorem Visited.close {x : V} (hlt : before x < length)
    (hx : ∀ y ∈ succ x, ¬ Reaches succ y x)
    (h : Visited succ weight (fun y => y = x ∨ exempt y) (succ x) (length + weight x)
      (Function.update before x length) after) :
  Visited succ weight exempt [x] length before after
  := by
  have hafter : after x = length := by
    rw [h.frame x hx, Function.update_self]
  constructor
  · intro y
    by_cases hyx : y = x
    · rw [hyx, hafter]
      apply Nat.le_of_lt hlt
    · have hle := h.le y
      rw [Function.update_of_ne hyx] at hle
      apply hle
  · rw [List.forall_mem_singleton, hafter]
  · intro u hu hne v hv
    by_cases hux : u = x
    · subst u
      rw [hafter]
      apply h.entered v hv
    · apply h.closed u _ hne v hv
      rintro (heq | hex)
      · apply hux heq
      · apply hu hex
  · intro y hy
    rw [List.forall_mem_singleton] at hy
    have hyx : y ≠ x := by
      rintro rfl
      apply hy Relation.ReflTransGen.refl
    rw [h.frame y, Function.update_of_ne hyx]
    intro z hz hzy
    apply hy (Relation.ReflTransGen.head hz hzy)
  · intro possible hstep hpossible hbefore
    rw [List.forall_mem_singleton] at hpossible
    apply h.sound possible hstep
    · intro y hy
      apply hstep x length y hpossible hy
    · intro u hne
      by_cases hux : u = x
      · rw [hux, Function.update_self]
        apply hpossible
      · rw [Function.update_of_ne hux] at hne ⊢
        apply hbefore u hne

theorem exists_limit {xs : List V} (h : ∀ x ∈ xs, ∃ limit, Ends succ weight limit x) :
  ∃ limit, ∀ x ∈ xs, Ends succ weight limit x
  := by
  induction xs with
  | nil => exact ⟨0, by simp⟩
  | cons x xs ih =>
      rw [List.forall_mem_cons] at h
      obtain ⟨limit₁, hx⟩ := h.1
      obtain ⟨limit₂, hxs⟩ := ih h.2
      use max limit₁ limit₂
      rw [List.forall_mem_cons]
      use hx.mono (le_max_left _ _)
      intro y hy
      apply (hxs y hy).mono (le_max_right _ _)

omit [DecidableEq V] in
/-- A vertex where no infinite path begins is on no cycle. -/
theorem not_reaches_of_acc {x : V} (hacc : Acc (fun y x => y ∈ succ x) x) :
  ∀ y ∈ succ x, ¬ Reaches succ y x
  := by
  induction hacc with
  | intro x _ ih =>
      intro y hy hreaches
      rcases Relation.ReflTransGen.cases_head hreaches with rfl | ⟨z, hz, hzx⟩
      · apply ih y hy y hy .refl
      · apply ih y hy z hz (hzx.tail hy)

/-- The search from a vertex ends if no infinite path begins there. -/
theorem exists_ends {x : V} (hacc : Acc (fun y x => y ∈ succ x) x) :
  ∃ limit, Ends succ weight limit x
  := by
  induction hacc with
  | intro x hacc ih =>
      obtain ⟨limit, hlimit⟩ := exists_limit ih
      have hcycle := not_reaches_of_acc (.intro x hacc)
      use limit + 1
      intro fuel hfuel exempt length before hclosed hexempt
      obtain ⟨fuel, rfl⟩ : ∃ k, fuel = k + 1 := ⟨fuel - 1, by omega⟩
      rw [visit]
      split
      case isTrue hlt =>
        have hsucc : ∀ y ∈ succ x, ∀ z, Reaches succ y z → ¬ (z = x ∨ exempt z) := by
          intro y hy z hyz
          rintro (rfl | hz)
          · apply hcycle y hy hyz
          · apply hexempt z (.head hy hyz) hz
        obtain ⟨after, hfold, hafter⟩ := foldlM_visit hlimit (Nat.le_of_succ_le_succ hfuel)
          (hclosed.update hlt) hsucc
        exact ⟨after, hfold, hafter.close hlt hcycle⟩
      case isFalse hlt =>
        refine ⟨before, rfl, .refl hclosed ?_⟩
        rw [List.forall_mem_singleton]
        apply Nat.le_of_not_lt hlt

/-- The search from roots ends on an acyclic graph, and what it keeps is closed. -/
theorem exists_visit (hwf : WellFounded (fun y x => y ∈ succ x)) (roots : List V) :
  ∃ limit, ∀ fuel ≥ limit, ∃ after,
    roots.foldlM (fun lengths x => visit succ weight fuel x 1 lengths) (fun _ => 0) = some after
      ∧ Visited succ weight (fun _ => False) roots 1 (fun _ => 0) after
  := by
  have hends : ∀ x ∈ roots, ∃ limit, Ends succ weight limit x :=
    fun x _ => exists_ends (hwf.apply x)
  obtain ⟨limit, hlimit⟩ := exists_limit hends
  use limit
  intro fuel hfuel
  apply foldlM_visit hlimit hfuel
  · intro x _ hx
    contradiction
  · intro x _ y _ hy
    apply hy

omit [DecidableEq V] in
theorem Path.pos {root : V → Prop} {x : V} {k : Nat} (h : Path succ weight root x k) :
  0 < k
  := by
  induction h with
  | root => decide
  | step _ _ ih => omega

omit [DecidableEq V] in
/-- What a search from the roots keeps are the lengths of the longest paths, and 0 where no path
leads. -/
theorem Visited.isGreatest {roots : List V} {root : V → Prop} (hroot : ∀ x, root x ↔ x ∈ roots)
    (h : Visited succ weight (fun _ => False) roots 1 (fun _ => 0) after) (x : V) :
  IsGreatest {k | Path succ weight root x k} (after x)
    ∨ (∀ k, ¬ Path succ weight root x k) ∧ after x = 0
  := by
  have hbound : ∀ y k, Path succ weight root y k → k ≤ after y := by
    intro y k hpath
    induction hpath with
    | root hy => apply h.entered _ ((hroot _).mp hy)
    | @step u v k hpath hv ih =>
        have hpos := hpath.pos
        have hclosed := h.closed u (fun hu => hu) (by omega) v hv
        omega
  by_cases hx : after x = 0
  · right
    refine ⟨?_, hx⟩
    intro k hpath
    have hpos := hpath.pos
    have hle := hbound x k hpath
    omega
  · left
    constructor
    · apply h.sound (Path succ weight root)
      · intro u k v hpath hv
        apply hpath.step hv
      · intro y hy
        apply Path.root ((hroot y).mpr hy)
      · intro y hy
        contradiction
      · apply hx
    · apply hbound

end LongestPath

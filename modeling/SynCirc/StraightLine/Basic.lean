import Mathlib.Logic.Function.Basic
import Mathlib.Data.List.Basic
import Mathlib.Data.Set.Function

/-!
# Straight-line programs

A straight-line program over wires `W` with values in `V` is a list of assignments.  An
assignment reads a list of wires and writes a function of their values to its target.
Running a program transforms valuations of the wires.

`Agree D ρ v v'` says that the valuation `v'` holds, at the new name `ρ w` of every wire
`w` of `D`, the value `v` holds at `w`.  Running an assignment and its renaming keeps the
agreement, and so does an assignment whose target is not the new name of a wire of `D`.

A program is `InOrder K` if every assignment reads only wires of `K` and targets of earlier
assignments.  If the targets are distinct and not in `K`, the valuation after the program
solves all assignments as equations, and it is the only solution that agrees with the initial
valuation outside the targets.  So the order of the assignments makes no difference
(`run_perm`).
-/

namespace StraightLine

/-- The assignment `target := fn reads`. -/
structure Assignment (W V : Type) where
  reads : List W
  fn : List V → V
  target : W

variable {W W' V : Type} [DecidableEq W] [DecidableEq W']

/-- The valuation after an assignment. -/
def exec (v : W → V) (a : Assignment W V) : W → V :=
  Function.update v a.target (a.fn (a.reads.map v))

/-- The valuation after a program. -/
def run (v : W → V) (p : List (Assignment W V)) : W → V := p.foldl exec v

@[simp]
theorem run_nil (v : W → V) :
  run v [] = v
  := rfl

@[simp]
theorem run_cons (v : W → V) (a : Assignment W V) (p : List (Assignment W V)) :
  run v (a :: p) = run (exec v a) p
  := rfl

theorem run_append (v : W → V) (p q : List (Assignment W V)) :
  run v (p ++ q) = run (run v p) q
  := List.foldl_append

@[simp]
theorem exec_target (v : W → V) (a : Assignment W V) :
  exec v a a.target = a.fn (a.reads.map v)
  := Function.update_self ..

theorem exec_of_ne {v : W → V} {a : Assignment W V} {w : W} (h : w ≠ a.target) :
  exec v a w = v w
  := Function.update_of_ne h ..

/-- A program leaves the wires that none of its assignments targets as they are. -/
theorem run_of_not_target {p : List (Assignment W V)} {w : W}
    (h : ∀ a ∈ p, w ≠ a.target) (v : W → V) :
  run v p w = v w
  := by
  induction p generalizing v with
  | nil => rfl
  | cons a p ih =>
      rw [run_cons, ih (fun b hb => h b (List.mem_cons_of_mem a hb))]
      apply exec_of_ne (h a List.mem_cons_self)

/-! ### The order of the assignments -/

/-- Every assignment reads only wires of `K` and targets of earlier assignments. -/
def InOrder : Set W → List (Assignment W V) → Prop
  | _, [] => True
  | K, a :: p => (∀ w ∈ a.reads, w ∈ K) ∧ InOrder (insert a.target K) p

/-- The assignments hold as equations. -/
def Solves (u : W → V) (p : List (Assignment W V)) : Prop :=
  ∀ a ∈ p, u a.target = a.fn (a.reads.map u)

/-- The targets are distinct and not in `K`. -/
structure FreshTargets (K : Set W) (p : List (Assignment W V)) : Prop where
  nodup : (p.map Assignment.target).Nodup
  notMem : ∀ a ∈ p, a.target ∉ K

omit [DecidableEq W] in
/-- After the first assignment its target is known, and the other targets are still fresh. -/
theorem FreshTargets.tail {K : Set W} {a : Assignment W V} {p : List (Assignment W V)}
    (h : FreshTargets K (a :: p)) :
  FreshTargets (insert a.target K) p ∧ ∀ b ∈ p, a.target ≠ b.target
  := by
  obtain ⟨hnodup, hnotMem⟩ := h
  rw [List.map_cons, List.nodup_cons] at hnodup
  have hne : ∀ b ∈ p, a.target ≠ b.target := by
    intro b hb heq
    apply hnodup.1
    rw [heq]
    apply List.mem_map_of_mem hb
  refine ⟨⟨hnodup.2, ?_⟩, hne⟩
  intro b hb hmem
  rcases hmem with heq | hmem
  · apply hne b hb heq.symm
  · apply hnotMem b (List.mem_cons_of_mem a hb) hmem

/-- The valuation after a program in order solves its assignments. -/
theorem run_solves {K : Set W} {p : List (Assignment W V)} (horder : InOrder K p)
    (hfresh : FreshTargets K p) (v : W → V) :
  Solves (run v p) p
  := by
  induction p generalizing K v with
  | nil => simp [Solves]
  | cons a p ih =>
      obtain ⟨hreads, horder⟩ := horder
      obtain ⟨hfresh', hne⟩ := hfresh.tail
      rw [Solves, List.forall_mem_cons, run_cons]
      constructor
      · have hkept : a.reads.map (run (exec v a) p) = a.reads.map v := by
          apply List.map_congr_left
          intro w hw
          rw [← run_cons]
          apply run_of_not_target
          intro b hb heq
          apply hfresh.notMem b hb (heq ▸ hreads w hw)
        rw [run_of_not_target hne, exec_target, hkept]
      · apply ih horder hfresh'

omit [DecidableEq W] in
/-- Two solutions that agree on the known wires agree on the targets. -/
theorem Solves.unique {K : Set W} {p : List (Assignment W V)} (horder : InOrder K p)
    {u u' : W → V} (h : Solves u p) (h' : Solves u' p) (hK : ∀ w ∈ K, u w = u' w) :
  ∀ a ∈ p, u a.target = u' a.target
  := by
  induction p generalizing K with
  | nil => simp
  | cons a p ih =>
      obtain ⟨hreads, horder⟩ := horder
      rw [Solves, List.forall_mem_cons] at h h'
      have ha : u a.target = u' a.target := by
        rw [h.1, h'.1]
        congr 1
        apply List.map_congr_left
        intro w hw
        apply hK w (hreads w hw)
      rw [List.forall_mem_cons]
      use ha
      apply ih horder h.2 h'.2
      intro w hw
      rcases hw with rfl | hw
      · apply ha
      · apply hK w hw

/-- Two orders of the same assignments compute the same valuation. -/
theorem run_perm {K : Set W} {p p' : List (Assignment W V)} (hperm : p.Perm p')
    (horder : InOrder K p) (horder' : InOrder K p') (hfresh : FreshTargets K p) (v : W → V) :
  run v p = run v p'
  := by
  have hfresh' : FreshTargets K p' := by
    constructor
    · apply (hperm.map Assignment.target).nodup_iff.mp hfresh.nodup
    · intro a ha
      apply hfresh.notMem a (hperm.mem_iff.mpr ha)
  have hsolves : Solves (run v p') p := by
    intro a ha
    apply run_solves horder' hfresh' v a (hperm.mem_iff.mp ha)
  have hkept : ∀ w, (∀ a ∈ p, w ≠ a.target) → run v p w = run v p' w := by
    intro w hw
    rw [run_of_not_target hw, run_of_not_target]
    intro a ha
    apply hw a (hperm.mem_iff.mpr ha)
  funext w
  by_cases hw : ∃ a ∈ p, w = a.target
  · obtain ⟨a, ha, rfl⟩ := hw
    apply (run_solves horder hfresh v).unique horder hsolves _ a ha
    intro w hw
    apply hkept w
    intro a ha heq
    apply hfresh.notMem a ha (heq ▸ hw)
  · apply hkept w
    intro a ha heq
    apply hw ⟨a, ha, heq⟩

/-! ### Renaming -/

/-- The assignment with its wires renamed. -/
def Assignment.rename (ρ : W → W') (a : Assignment W V) : Assignment W' V :=
  ⟨a.reads.map ρ, a.fn, ρ a.target⟩

/-- At the new name of every wire of `D`, `v'` holds what `v` holds at the wire. -/
def Agree (D : Set W) (ρ : W → W') (v : W → V) (v' : W' → V) : Prop :=
  ∀ w ∈ D, v' (ρ w) = v w

variable {D : Set W} {ρ : W → W'} {v : W → V} {v' : W' → V}

omit [DecidableEq W] [DecidableEq W'] in
/-- Valuations in agreement give the same values to wires of `D`. -/
theorem Agree.map_eq (h : Agree D ρ v v') {ws : List W} (hws : ∀ w ∈ ws, w ∈ D) :
  (ws.map ρ).map v' = ws.map v
  := by
  rw [List.map_map]
  apply List.map_congr_left
  intro w hw
  apply h w (hws w hw)

/-- Giving a wire of `D` and its new name the same value keeps the agreement. -/
theorem Agree.update
    (hρ : Set.InjOn ρ D) (h : Agree D ρ v v') {x : W} (hx : x ∈ D) (b : V) :
  Agree D ρ (Function.update v x b) (Function.update v' (ρ x) b)
  := by
  intro w hw
  by_cases hwx : w = x
  · rw [hwx, Function.update_self, Function.update_self]
  · rw [Function.update_of_ne hwx, Function.update_of_ne]
    · apply h w hw
    · intro heq
      apply hwx (hρ hw hx heq)

/-- Executing an assignment over `D` and its renaming keeps the agreement. -/
theorem Agree.exec_rename
    (hρ : Set.InjOn ρ D) (h : Agree D ρ v v') {a : Assignment W V}
    (hreads : ∀ w ∈ a.reads, w ∈ D) (htarget : a.target ∈ D) :
  Agree D ρ (exec v a) (exec v' (a.rename ρ))
  := by
  rw [exec, exec, Assignment.rename, h.map_eq hreads]
  apply h.update hρ htarget

omit [DecidableEq W] in
/-- An assignment to a wire that is not the new name of a wire of `D` keeps the
agreement. -/
theorem Agree.exec_fresh
    (h : Agree D ρ v v') {a : Assignment W' V} (ha : ∀ w ∈ D, ρ w ≠ a.target) :
  Agree D ρ v (exec v' a)
  := by
  intro w hw
  rw [exec_of_ne (ha w hw)]
  apply h w hw

/-- Two assignments that read corresponding wires of `D` and compute the same value bring
their targets into agreement. -/
theorem Agree.exec_insert
    (hρ : Function.Injective ρ) (h : Agree D ρ v v') {a : Assignment W V} {a' : Assignment W' V}
    (hreads : a'.reads = a.reads.map ρ) (hmem : ∀ w ∈ a.reads, w ∈ D)
    (htarget : a'.target = ρ a.target) (hfn : a'.fn (a.reads.map v) = a.fn (a.reads.map v)) :
  Agree (insert a.target D) ρ (exec v a) (exec v' a')
  := by
  have hvalue : a'.fn (a'.reads.map v') = a.fn (a.reads.map v) := by
    rw [hreads, h.map_eq hmem, hfn]
  intro w hw
  by_cases hwt : w = a.target
  · rw [exec, exec, hwt, htarget, Function.update_self, Function.update_self, hvalue]
  · have hne : ρ w ≠ a'.target := by
      rw [htarget]
      apply fun heq => hwt (hρ heq)
    rw [exec_of_ne hwt, exec_of_ne hne]
    apply h w (hw.resolve_left hwt)

end StraightLine

import SynCirc.Linearize.Basic
import Mathlib.Data.Finset.Card
import Mathlib.Data.Finset.Dedup
import Mathlib.Data.Finset.Range
import Mathlib.Data.List.Induction

/-!
# The wire budget

The output at a position is copied when its wire is an input or is listed among the outputs
before.  The budget pays two wires for every copy: counted over the positions, the copies
are as many as the inputs among the outputs and the repeated outputs together
(`budget_copies`).  The wires of the inputs and outputs together with the copies are as many
as the inputs and output positions (`card_add_copyCount`), which leaves room for the output
slots (`outputs_le_wireBudget`).
-/

namespace SynCirc

/-- The positions of `ys ++ [y]`. -/
theorem zipIdx_snoc {α : Type} (ys : List α) (y : α) :
  (ys ++ [y]).zipIdx = ys.zipIdx ++ [(y, ys.length)]
  := by
  rw [List.zipIdx_append, Nat.zero_add]
  rfl

/-- A count over the positions of `ys` that looks at earlier elements only does not change
when `ys` is extended. -/
theorem countP_zipIdx_snoc {α : Type} (q : List α → α → Bool) (ys : List α) (y : α) :
  (ys ++ [y]).zipIdx.countP (fun p => q ((ys ++ [y]).take p.2) p.1)
    = ys.zipIdx.countP (fun p => q (ys.take p.2) p.1) + (q ys y).toNat
  := by
  rw [zipIdx_snoc, List.countP_append, List.countP_singleton, List.take_left]
  congr 1
  · apply List.countP_congr
    intro p hp
    rw [List.take_append_of_le_length (Nat.le_of_lt (List.snd_lt_of_mem_zipIdx hp))]
  · cases q ys y with
    | false => rfl
    | true => rfl

/-- The elements of `xs` that occur in `ys ++ [y]`, for `xs` without repetitions. -/
theorem countP_mem_snoc {xs : List Nat} (hxs : xs.Nodup) (ys : List Nat) (y : Nat) :
  xs.countP (· ∈ ys ++ [y])
    = xs.countP (· ∈ ys) + (decide (y ∈ xs ∧ y ∉ ys)).toNat
  := by
  induction xs with
  | nil => rfl
  | cons x xs ih =>
      obtain ⟨hx, hxs⟩ := List.nodup_cons.mp hxs
      rw [List.countP_cons, List.countP_cons, ih hxs]
      by_cases hy : y = x
      · subst hy
        by_cases hys : y ∈ ys
        · simp [hx, hys]
        · simp [hx, hys]
      · have hmem : y ∈ x :: xs ↔ y ∈ xs := by simp [hy]
        have hx' : x ∈ ys ++ [y] ↔ x ∈ ys := by simp [Ne.symm hy]
        simp only [hmem, hx']
        omega

/-- The elements of `xs` among `ys`, together with the positions of `ys` that repeat an
earlier one, are as many as the positions of `ys` that hold an element of `xs` or repeat an
earlier one. -/
theorem countP_mem_add_repeated {xs : List Nat} (hxs : xs.Nodup) (ys : List Nat) :
  xs.countP (· ∈ ys) + ys.zipIdx.countP (fun p => p.1 ∈ ys.take p.2)
    = ys.zipIdx.countP (fun p => p.1 ∈ xs ∨ p.1 ∈ ys.take p.2)
  := by
  induction ys using List.reverseRecOn with
  | nil => simp
  | append_singleton ys y ih =>
      rw [countP_mem_snoc hxs, countP_zipIdx_snoc (fun before y => decide (y ∈ before)),
        countP_zipIdx_snoc (fun before y => decide (y ∈ xs ∨ y ∈ before)), ← ih]
      by_cases hx : y ∈ xs
      · by_cases hy : y ∈ ys
        · simp only [hx, hy, not_true, and_false, or_self, decide_false, decide_true,
            Bool.toNat_false, Bool.toNat_true]
          omega
        · simp only [hx, hy, not_false_eq_true, and_self, or_false, decide_false, decide_true,
            Bool.toNat_false, Bool.toNat_true]
          omega
      · by_cases hy : y ∈ ys
        · simp only [hx, hy, not_true, and_self, or_true, decide_false, decide_true,
            Bool.toNat_false, Bool.toNat_true]
          omega
        · simp only [hx, hy, not_false_eq_true, false_and, or_self, decide_false,
            Bool.toNat_false]
          omega

/-- The distinct elements of `xs` and `ys`, together with the positions of `ys` that hold an
element of `xs` or repeat an earlier one, are as many as the positions of `xs` and `ys`. -/
theorem card_add_repeated {xs : List Nat} (hxs : xs.Nodup) (ys : List Nat) :
  (xs ++ ys).toFinset.card + ys.zipIdx.countP (fun p => p.1 ∈ xs ∨ p.1 ∈ ys.take p.2)
    = xs.length + ys.length
  := by
  induction ys using List.reverseRecOn with
  | nil =>
      rw [List.append_nil, List.toFinset_card_of_nodup hxs]
      rfl
  | append_singleton ys y ih =>
      have hinsert : (xs ++ (ys ++ [y])).toFinset = insert y (xs ++ ys).toFinset := by
        ext w
        simp only [List.mem_toFinset, List.mem_append, List.mem_singleton, Finset.mem_insert]
        tauto
      rw [countP_zipIdx_snoc (fun before y => decide (y ∈ xs ∨ y ∈ before)), hinsert,
        List.length_append, List.length_singleton]
      by_cases hy : y ∈ xs ∨ y ∈ ys
      · rw [Finset.insert_eq_of_mem (by simpa using hy), decide_eq_true hy, Bool.toNat_true]
        omega
      · rw [Finset.card_insert_of_notMem (by simpa using hy), decide_eq_false hy,
          Bool.toNat_false]
        omega

namespace Circuit

variable (c : Circuit)

/-- The output at the position `p.2` is copied. -/
def isCopy (p : Nat × Nat) : Bool :=
  p.1 ∈ c.inputs ∨ p.1 ∈ c.outputs.take p.2

/-- The number of copied outputs. -/
def copyCount : Nat := c.outputs.zipIdx.countP c.isCopy

variable {c} (hc : c.Renumberable)
include hc

/-- The budget is the old wires, a wire for every constant and two for every copy. -/
theorem wireBudget_eq :
  c.wireBudget = c.maxWireNumber + c.constantCount + 2 * c.copyCount
  := by
  have h : c.inputOutputCount + c.repeatedOutputCount = c.copyCount :=
    countP_mem_add_repeated hc.inputs_nodup c.outputs
  rw [wireBudget, ← h]
  omega

/-- The wires of the inputs and outputs and the copies are as many as the inputs and the
output positions. -/
theorem card_add_copyCount :
  (c.inputs ++ c.outputs).toFinset.card + c.copyCount = c.inputs.length + c.outputs.length
  := card_add_repeated hc.inputs_nodup c.outputs

/-- There is room for the output slots. -/
theorem outputs_le_wireBudget :
  c.outputs.length ≤ c.wireBudget
  := by
  have hsub : (c.inputs ++ c.outputs).toFinset ⊆ Finset.range (c.maxWireNumber + 1) := by
    intro w hw
    rw [List.mem_toFinset] at hw
    rw [Finset.mem_range]
    apply Nat.lt_succ_of_le
    apply hc.wires w (List.mem_append_left _ hw)
  have hcard := Finset.card_le_card hsub
  rw [Finset.card_range] at hcard
  have hcount := card_add_copyCount hc
  have hpos := List.length_pos_of_ne_nil hc.inputs_ne_nil
  rw [wireBudget_eq hc]
  omega

end Circuit

end SynCirc

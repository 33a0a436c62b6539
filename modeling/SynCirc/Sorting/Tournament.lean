import Mathlib.Algebra.Group.Nat.Defs
import Mathlib.Order.Bounds.Basic
import Mathlib.Order.Interval.Set.LinearOrder

/-!
# Tournaments

In a tournament the elements of a linear order are compared in pairs, and the greater ones go on to
the next round.  The winner of a tournament of `j` rounds is the greatest of its `2 ^ j` elements.
-/

namespace Tournament

variable {α : Type}

/-- The winner at place `k` after round `j`. -/
def winner [LinearOrder α] (v : Nat → α) : Nat → Nat → α
  | 0, k => v k
  | j + 1, k => max (winner v j (2 * k)) (winner v j (2 * k + 1))

/-- The elements that meet at place `k` after round `j`. -/
def contenders (v : Nat → α) (j k : Nat) : Set α := v '' Set.Ico (k * 2 ^ j) ((k + 1) * 2 ^ j)

theorem contenders_succ (v : Nat → α) (j k : Nat) :
  contenders v (j + 1) k = contenders v j (2 * k) ∪ contenders v j (2 * k + 1)
  := by
  have hlow : k * 2 ^ (j + 1) = 2 * k * 2 ^ j := by
    rw [Nat.pow_succ', Nat.mul_comm 2 k, Nat.mul_assoc]
  have hhigh : (k + 1) * 2 ^ (j + 1) = (2 * k + 1 + 1) * 2 ^ j := by
    rw [Nat.pow_succ', ← Nat.mul_assoc, Nat.mul_comm _ 2, Nat.mul_add]
  rw [contenders, contenders, contenders, ← Set.image_union, hlow, hhigh,
    Set.Ico_union_Ico_eq_Ico]
  · apply Nat.mul_le_mul_right _ (by omega)
  · apply Nat.mul_le_mul_right _ (by omega)

/-- The winner is the greatest of those that meet. -/
theorem isGreatest_winner [LinearOrder α] (v : Nat → α) (j k : Nat) :
  IsGreatest (contenders v j k) (winner v j k)
  := by
  induction j generalizing k with
  | zero =>
      have hplace : Set.Ico k (k + 1) = {k} := by
        ext i
        rw [Set.mem_Ico, Set.mem_singleton_iff]
        omega
      rw [contenders, Nat.pow_zero, Nat.mul_one, Nat.mul_one, hplace, Set.image_singleton]
      exact isGreatest_singleton
  | succ j ih =>
      rw [contenders_succ]
      exact (ih _).union (ih _)

end Tournament

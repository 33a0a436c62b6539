import SynCirc.Library.Add
import Mathlib.Data.Nat.ModEq
import Mathlib.Tactic.Linarith

/-!
# The subtractors of the library

`SUB8`, `SUB16`, `SUB32`, `SUBC16`, `SUBC32` and `SUBC64` write the difference as a sum of three
words, the first operand, the complement of the second one and the constant `One`.  They bring the
three words down to two, the sums and the carries of the positions, which they give to the adders.

The carries are those of the two operands only.  At position 0, where the constant has its 1-bit,
this is wrong if the operands have the same bit there: the result is too small by 2.
-/

open Signal

section Circuits

variable {α : Type} [Signal α]

/-- The bits of the constant `One`. -/
def one : Nat → α
  | 0 => high
  | _ + 1 => low

/-- The net `_x_a` of the subtractors. -/
def sumWord (x_a x_b : Nat → α) (j : Nat) : α := x_a j ^^^ ~~~ x_b j ^^^ one j

/-- The net `_x_b` of the subtractors. -/
def carryWord (x_a x_b : Nat → α) : Nat → α
  | 0 => low
  | j + 1 => x_a j &&& ~~~ x_b j

end Circuits

/-- The module `SUB8`. -/
def sub8 (x_a x_b : BitVec 8) : BitVec 8 :=
  let _x_a := sumWord x_a.getLsbD x_b.getLsbD
  let _x_b := carryWord x_a.getLsbD x_b.getLsbD
  word 8 (adder8 _x_a _x_b)

/-- The module `SUB16`. -/
def sub16 (x_a x_b : BitVec 16) : BitVec 16 :=
  let _x_a := sumWord x_a.getLsbD x_b.getLsbD
  let _x_b := carryWord x_a.getLsbD x_b.getLsbD
  word 16 (adder _x_a _x_b).wx

/-- The module `SUB32`. -/
def sub32 (x_a x_b : BitVec 32) : BitVec 32 :=
  let _x_a := sumWord x_a.getLsbD x_b.getLsbD
  let _x_b := carryWord x_a.getLsbD x_b.getLsbD
  word 32 (adder _x_a _x_b).wx

/-- The module `SUBC16`, with the outputs `wx` and `cout`. -/
def subc16 (x_a x_b : BitVec 16) : BitVec 16 × Bool :=
  let _x_a := sumWord x_a.getLsbD x_b.getLsbD
  let _x_b := carryWord x_a.getLsbD x_b.getLsbD
  (word 16 (adder _x_a _x_b).wx, cout16 _x_a _x_b)

/-- The module `SUBC32`, with the outputs `wx` and `cout`. -/
def subc32 (x_a x_b : BitVec 32) : BitVec 32 × Bool :=
  let _x_a := sumWord x_a.getLsbD x_b.getLsbD
  let _x_b := carryWord x_a.getLsbD x_b.getLsbD
  (word 32 (adder _x_a _x_b).wx, cout32 _x_a _x_b)

/-- The module `SUBC64`, with the outputs `wx` and `cout`. -/
def subc64 (x_a x_b : BitVec 64) : BitVec 64 × Bool :=
  let _x_a := sumWord x_a.getLsbD x_b.getLsbD
  let _x_b := carryWord x_a.getLsbD x_b.getLsbD
  (word 64 (adder _x_a _x_b).wx, cout64 _x_a _x_b)

/-! ### The two words -/

/-- The error of the difference. -/
def borrowError (a b : Nat → Bool) : Nat := if a 0 = b 0 then 2 else 0

/-- The two words add up to the difference, except for the error. -/
theorem value_words (a b : Nat → Bool) (k : Nat) :
  value (sumWord a b) (k + 1) + value (carryWord a b) (k + 2) + value b (k + 1) + borrowError a b
    = value a (k + 1) + 2 ^ (k + 1)
  := by
  induction k with
  | zero =>
      simp only [value, sumWord, carryWord, borrowError, one]
      cases a 0 <;> cases b 0 <;> rfl
  | succ k ih =>
      have hbit : (sumWord a b (k + 1)).toNat + 2 * (carryWord a b (k + 2)).toNat
          + (b (k + 1)).toNat = (a (k + 1)).toNat + 1 := by
        simp only [sumWord, carryWord, one]
        cases a (k + 1) <;> cases b (k + 1) <;> rfl
      have hmul := congrArg (2 ^ (k + 1) * ·) hbit
      simp only [value, Nat.mul_add, Nat.pow_succ] at hmul ih ⊢
      linarith

/-! ### The difference -/

/-- The sum of the two words has the value of the difference, except for the error. -/
theorem value_difference (a b : Nat → Bool) (k : Nat) :
  value (sum (sumWord a b) (carryWord a b)) (k + 1) + (value b (k + 1) + borrowError a b)
    ≡ value a (k + 1) [MOD 2 ^ (k + 1)]
  := by
  have hwords := value_words a b k
  have hcarry : value (carryWord a b) (k + 2)
    = value (carryWord a b) (k + 1) + 2 ^ (k + 1) * (carryWord a b (k + 1)).toNat := rfl
  rw [value_sum_mod]
  calc
    _ ≡ value (sumWord a b) (k + 1) + value (carryWord a b) (k + 1)
          + (value b (k + 1) + borrowError a b) [MOD 2 ^ (k + 1)] := by
      apply Nat.ModEq.add_right
      apply Nat.mod_modEq
    _ ≡ value (sumWord a b) (k + 1) + value (carryWord a b) (k + 1)
          + (value b (k + 1) + borrowError a b)
          + 2 ^ (k + 1) * (carryWord a b (k + 1)).toNat [MOD 2 ^ (k + 1)] := by
      symm
      apply Nat.add_mul_mod_self_left
    _ = value a (k + 1) + 2 ^ (k + 1) := by
      linarith
    _ ≡ value a (k + 1) [MOD 2 ^ (k + 1)] := by
      apply Nat.add_mod_right

/-- The difference of the words is too small by 2 if they have the same bit at position 0. -/
theorem word_difference {n : Nat} (hn : 0 < n) (x y : BitVec n) :
  word n ((List.range n).map
      (sum (sumWord x.getLsbD y.getLsbD) (carryWord x.getLsbD y.getLsbD)))
    = x - y - BitVec.ofNat n (borrowError x.getLsbD y.getLsbD)
  := by
  obtain ⟨k, rfl⟩ := Nat.exists_eq_succ_of_ne_zero hn.ne'
  have hdiff := value_difference x.getLsbD y.getLsbD k
  rw [value_getLsbD, value_getLsbD, Nat.mod_eq_of_lt x.isLt, Nat.mod_eq_of_lt y.isLt] at hdiff
  apply BitVec.eq_sub_iff_add_eq.mpr
  apply BitVec.eq_sub_iff_add_eq.mpr
  apply BitVec.eq_of_toNat_eq
  rw [BitVec.add_assoc, BitVec.toNat_add, BitVec.toNat_add, BitVec.toNat_ofNat, toNat_word,
    Nat.add_mod_mod, Nat.add_comm (_ % _), ← Nat.add_assoc, Nat.add_mod_mod, Nat.add_assoc, hdiff,
    Nat.mod_eq_of_lt x.isLt]

/-- The difference is right if and only if the words have different bits at position 0. -/
theorem difference_eq_iff {n : Nat} (hn : 2 ≤ n) (x y : BitVec n) :
  x - y - BitVec.ofNat n (borrowError x.getLsbD y.getLsbD) = x - y ↔ x.getLsbD 0 ≠ y.getLsbD 0
  := by
  rw [borrowError]
  split
  case isTrue h =>
    apply iff_of_false
    · intro heq
      have hzero : BitVec.ofNat n 2 = 0#n := by
        apply (BitVec.sub_right_inj (x - y)).mp
        rw [heq, BitVec.sub_zero]
      have hmod : 2 % 2 ^ n = 0 := by
        simpa using congrArg BitVec.toNat hzero
      have hpow : 2 ^ 2 ≤ 2 ^ n := Nat.pow_le_pow_right Nat.two_pos hn
      rw [Nat.mod_eq_of_lt (by omega)] at hmod
      contradiction
    · apply not_not_intro h
  case isFalse h =>
    rw [BitVec.sub_zero]
    apply iff_of_true rfl h

section Difference

variable {n : Nat} (hn : 2 ≤ n) (hn' : n ≤ 51) (x_a x_b : BitVec n)
include hn hn'

/-- The output `wx` of the subtractors up to 51 bits. -/
theorem word_adder_words :
  word n (adder (sumWord x_a.getLsbD x_b.getLsbD) (carryWord x_a.getLsbD x_b.getLsbD)).wx
    = x_a - x_b - BitVec.ofNat n (borrowError x_a.getLsbD x_b.getLsbD)
  := by
  rw [word_adder hn', word_difference (by omega)]

/-- It is the difference if and only if the operands have different bits at position 0. -/
theorem word_adder_words_eq_iff :
  word n (adder (sumWord x_a.getLsbD x_b.getLsbD) (carryWord x_a.getLsbD x_b.getLsbD)).wx
      = x_a - x_b
    ↔ x_a.getLsbD 0 ≠ x_b.getLsbD 0
  := by
  rw [word_adder_words hn hn', difference_eq_iff hn]

end Difference

/-- The subtractors subtract if and only if the operands have different bits at position 0. -/
theorem sub_eq_sub_iff (x_a x_b : BitVec 8) (y_a y_b : BitVec 16) (z_a z_b : BitVec 32) :
  (sub8 x_a x_b = x_a - x_b ↔ x_a.getLsbD 0 ≠ x_b.getLsbD 0)
    ∧ (sub16 y_a y_b = y_a - y_b ↔ y_a.getLsbD 0 ≠ y_b.getLsbD 0)
    ∧ (sub32 z_a z_b = z_a - z_b ↔ z_a.getLsbD 0 ≠ z_b.getLsbD 0)
    ∧ ((subc16 y_a y_b).1 = y_a - y_b ↔ y_a.getLsbD 0 ≠ y_b.getLsbD 0)
    ∧ ((subc32 z_a z_b).1 = z_a - z_b ↔ z_a.getLsbD 0 ≠ z_b.getLsbD 0)
  := by
  refine ⟨?_, ?_, ?_, ?_, ?_⟩
  · rw [sub8, adder8_eq, word_difference (by decide), difference_eq_iff (by decide)]
  · apply word_adder_words_eq_iff (by decide) (by decide)
  · apply word_adder_words_eq_iff (by decide) (by decide)
  · apply word_adder_words_eq_iff (by decide) (by decide)
  · apply word_adder_words_eq_iff (by decide) (by decide)

/-- No subtractor subtracts 0 from 0. -/
theorem sub_zero_ne :
  sub8 0 0 ≠ 0 - 0 ∧ sub16 0 0 ≠ 0 - 0 ∧ sub32 0 0 ≠ 0 - 0 ∧ (subc16 0 0).1 ≠ 0 - 0
    ∧ (subc32 0 0).1 ≠ 0 - 0
  := by
  decide +kernel

/-! ### The carry output -/

section CarryOut

variable (a b : Nat → Bool)

theorem sumWord_succ (k : Nat) :
  sumWord a b (k + 1) = decide (a (k + 1) = b (k + 1))
  := by
  rw [sumWord, one]
  cases a (k + 1) <;> cases b (k + 1) <;> rfl

/-- The error of the difference does not change its sign. -/
theorem value_lt_iff_borrowError (k : Nat) :
  value b (k + 1) < value a (k + 1) ↔ value b (k + 1) + borrowError a b ≤ value a (k + 1)
  := by
  have ha := value_mod_two a k
  have hb := value_mod_two b k
  rw [borrowError]
  split
  case isTrue h =>
    rw [h] at ha
    omega
  case isFalse h =>
    have hne : (a 0).toNat ≠ (b 0).toNat := by
      revert h
      cases a 0 <;> cases b 0 <;> decide
    omega

/-- The carry of the two words tells whether the first operand is greater. -/
theorem carry_words (k : Nat) :
  carry (sumWord a b) (carryWord a b) (k + 2) = true ↔
    a (k + 1) = b (k + 1) ∧ value b (k + 1) < value a (k + 1)
  := by
  have hwords := value_words a b k
  have hsum : value (sumWord a b) (k + 2)
    = value (sumWord a b) (k + 1) + 2 ^ (k + 1) * (sumWord a b (k + 1)).toNat := rfl
  have hla := value_lt a (k + 1)
  have hpow : 2 ^ (k + 2) = 2 * 2 ^ (k + 1) := Nat.pow_succ'
  rw [carry_iff, value_lt_iff_borrowError]
  rw [sumWord_succ] at hsum
  by_cases h : a (k + 1) = b (k + 1)
  · rw [decide_eq_true h, Bool.toNat_true, Nat.mul_one] at hsum
    rw [and_iff_right h]
    omega
  · rw [decide_eq_false h, Bool.toNat_false, Nat.mul_zero] at hsum
    apply iff_of_false
    · omega
    · intro hand
      apply h hand.1

/-- Where the operands are equal below a position, the two words propagate a carry there if the
operands are equal at it. -/
theorem words_ne_iff {m : Nat} (hm : a m = b m) :
  sumWord a b (m + 1) ≠ carryWord a b (m + 1) ↔ a (m + 1) = b (m + 1)
  := by
  have hcarry : carryWord a b (m + 1) = false := by
    rw [carryWord, hm]
    apply Bool.and_not_self
  rw [sumWord_succ, hcarry, ne_eq, decide_eq_false_iff_not, not_not]

theorem forall_words_ne_iff {m : Nat} (hm : a m = b m) (l : Nat) :
  (∀ i ∈ List.range' (m + 1) l, sumWord a b i ≠ carryWord a b i) ↔
    ∀ i ∈ List.range' (m + 1) l, a i = b i
  := by
  induction l generalizing m with
  | zero => simp only [List.range'_zero, List.not_mem_nil, false_imp_iff, implies_true]
  | succ l ih =>
      rw [List.range'_succ, List.forall_mem_cons, List.forall_mem_cons, words_ne_iff a b hm]
      apply and_congr_right
      intro h
      apply ih h

/-- The carry out of the lowest 12 positions is propagated up to a position if the operands are
equal from position 11 on. -/
theorem chain_words (l : Nat) :
  chain (sumWord a b) (carryWord a b) (List.range' 12 l) = true ↔
    (∀ i ∈ List.range' 11 (l + 1), a i = b i) ∧ value b 11 < value a 11
  := by
  rw [chain_iff, ← carry_iff, carry_words a b 10, List.range'_succ, List.forall_mem_cons]
  constructor
  · rintro ⟨⟨h11, hlt⟩, hne⟩
    refine ⟨⟨h11, ?_⟩, hlt⟩
    apply (forall_words_ne_iff a b h11 l).mp hne
  · rintro ⟨⟨h11, heq⟩, hlt⟩
    refine ⟨⟨h11, hlt⟩, ?_⟩
    apply (forall_words_ne_iff a b h11 l).mpr heq

end CarryOut

theorem subc16_cout (x_a x_b : BitVec 16) :
  (subc16 x_a x_b).2 = true ↔
    x_a.toNat / 2 ^ 11 = x_b.toNat / 2 ^ 11 ∧ x_b.toNat < x_a.toNat
  := by
  change cout16 _ _ = true ↔ _
  rw [cout16_eq, chain_words, forall_getLsbD_eq_iff _ _ (by decide), value_getLsbD, value_getLsbD]
  omega

theorem subc32_cout (x_a x_b : BitVec 32) :
  (subc32 x_a x_b).2 = true ↔
    x_a.toNat / 2 ^ 11 = x_b.toNat / 2 ^ 11 ∧ x_b.toNat < x_a.toNat
  := by
  change cout32 _ _ = true ↔ _
  rw [cout32_eq, chain_words, forall_getLsbD_eq_iff _ _ (by decide), value_getLsbD, value_getLsbD]
  omega

/-- The carry output of `ADDC64` is the carry out of the lowest 12 positions if it is propagated at
the positions 12 to 31, 44 to 55 and 60 to 62. -/
def CarriesOut (x_a x_b : BitVec 64) : Prop :=
  2 ^ 12 ≤ x_a.toNat % 2 ^ 12 + x_b.toNat % 2 ^ 12
    ∧ ∀ i, 12 ≤ i ∧ i ≤ 31 ∨ 44 ≤ i ∧ i ≤ 55 ∨ 60 ≤ i ∧ i ≤ 62 → x_a.getLsbD i ≠ x_b.getLsbD i

/-- The carry output of `SUBC64` is 1 if the lowest 11 bits of the operands are decreasing, the
bits 11 to 31 are equal, and the difference propagates a carry at the positions 44 to 55 and 60
to 62. -/
def BorrowsNot (x_a x_b : BitVec 64) : Prop :=
  x_b.toNat % 2 ^ 11 < x_a.toNat % 2 ^ 11
    ∧ (∀ i, 11 ≤ i → i ≤ 31 → x_a.getLsbD i = x_b.getLsbD i)
    ∧ ∀ i, 43 ≤ i ∧ i ≤ 54 ∨ 59 ≤ i ∧ i ≤ 61 →
      (x_a.getLsbD (i + 1) = x_b.getLsbD (i + 1)
        ↔ ¬ (x_a.getLsbD i = true ∧ x_b.getLsbD i = false))

theorem addc64_cout (x_a x_b : BitVec 64) :
  (addc64 x_a x_b).2 = true ↔ CarriesOut x_a x_b
  := by
  change cout64 _ _ = true ↔ _
  rw [cout64_eq, chain_iff, value_getLsbD, value_getLsbD, CarriesOut]
  apply and_congr_right
  intro _
  simp only [List.mem_append, List.mem_range'_1]
  apply forall_congr'
  intro i
  apply imp_congr_left
  omega

theorem words_ne_iff_propagate (a b : Nat → Bool) (i : Nat) :
  sumWord a b (i + 1) ≠ carryWord a b (i + 1) ↔
    (a (i + 1) = b (i + 1) ↔ ¬ (a i = true ∧ b i = false))
  := by
  rw [sumWord_succ, carryWord]
  cases a i <;> cases b i <;> simp

theorem subc64_cout (x_a x_b : BitVec 64) :
  (subc64 x_a x_b).2 = true ↔ BorrowsNot x_a x_b
  := by
  change cout64 _ _ = true ↔ _
  rw [cout64_eq, List.append_assoc, chain_iff, List.forall_mem_append, ← and_assoc, ← chain_iff,
    chain_words, value_getLsbD, value_getLsbD, BorrowsNot, ← and_assoc]
  apply and_congr
  · rw [and_comm]
    apply and_congr_right
    intro _
    constructor
    · intro h i hi hi'
      apply h i (List.mem_range'_1.mpr ⟨hi, by omega⟩)
    · intro h i hi
      obtain ⟨hi, hi'⟩ := List.mem_range'_1.mp hi
      apply h i hi (by omega)
  · simp only [List.mem_append, List.mem_range'_1]
    constructor
    · intro h i hi
      apply (words_ne_iff_propagate _ _ i).mp
      apply h (i + 1) (by omega)
    · intro h i hi
      obtain ⟨j, rfl⟩ := Nat.exists_eq_succ_of_ne_zero (show i ≠ 0 by omega)
      apply (words_ne_iff_propagate _ _ j).mpr
      apply h j (by omega)

/-- The positions at which the carry output of `ADDC64` looks whether a carry is propagated. -/
def LooksAt (i : Nat) : Prop := 12 ≤ i ∧ i ≤ 31 ∨ 44 ≤ i ∧ i ≤ 55 ∨ 60 ≤ i ∧ i ≤ 62

/-- The lowest 12 positions have a carry, and it passes those below `i` at which the output looks. -/
def CarryReaches (x_a x_b : BitVec 64) (i : Nat) : Prop :=
  2 ^ 12 ≤ x_a.toNat % 2 ^ 12 + x_b.toNat % 2 ^ 12
    ∧ ∀ j < i, LooksAt j → x_a.getLsbD j ≠ x_b.getLsbD j

/-- The highest position with the same bit of both operands, if it is 12 or above, does not mislead
the carry output of `ADDC64`.  If the bits there are 1, then the output does not look there, and what
reaches it from below is a carry.  If they are 0, the output looks there, or no carry reaches it. -/
def AddcFits (x_a x_b : BitVec 64) : Prop :=
  ∀ i, 12 ≤ i → i < 64 → x_a.getLsbD i = x_b.getLsbD i →
    (∀ j, i < j → j < 64 → x_a.getLsbD j ≠ x_b.getLsbD j) →
    if x_a.getLsbD i = true then ¬ LooksAt i ∧ CarryReaches x_a x_b i
    else LooksAt i ∨ ¬ CarryReaches x_a x_b i

/-- The lowest 11 bits of the operands are decreasing, the bits 11 to 31 are equal, and the carry of
the difference passes the positions up to `i` at which the carry output of `SUBC64` looks. -/
def DecreaseReaches (x_a x_b : BitVec 64) (i : Nat) : Prop :=
  x_b.toNat % 2 ^ 11 < x_a.toNat % 2 ^ 11
    ∧ (∀ j, 11 ≤ j → j ≤ 31 → x_a.getLsbD j = x_b.getLsbD j)
    ∧ ∀ j < i, 31 < j → LooksAt (j + 1) →
      (x_a.getLsbD (j + 1) = x_b.getLsbD (j + 1)
        ↔ ¬ (x_a.getLsbD j = true ∧ x_b.getLsbD j = false))

/-- The highest position with different bits of the operands, if it is 11 or above, does not mislead
the carry output of `SUBC64`.  If the first operand has the 1 there, then the output does not look at
the next position, and what reaches the position from below is a decrease.  If it has the 0, no
decrease reaches it. -/
def SubcFits (x_a x_b : BitVec 64) : Prop :=
  ∀ i, 11 ≤ i → i < 64 → x_a.getLsbD i ≠ x_b.getLsbD i →
    (∀ j, i < j → j < 64 → x_a.getLsbD j = x_b.getLsbD j) →
    if x_a.getLsbD i = true then ¬ LooksAt (i + 1) ∧ DecreaseReaches x_a x_b i
    else ¬ DecreaseReaches x_a x_b i

/-- The carry output at the highest position with the same bits. -/
theorem carriesOut_iff {x_a x_b : BitVec 64} {i : Nat} (heq : x_a.getLsbD i = x_b.getLsbD i)
    (hne : ∀ j, i < j → j < 64 → x_a.getLsbD j ≠ x_b.getLsbD j) :
  CarriesOut x_a x_b ↔ ¬ LooksAt i ∧ CarryReaches x_a x_b i
  := by
  constructor
  · rintro ⟨hcarry, hpropagate⟩
    use fun hi => hpropagate i hi heq, hcarry
    intro j _ hj
    apply hpropagate j hj
  · rintro ⟨hi, hcarry, hpropagate⟩
    use hcarry
    intro j hj
    rcases Nat.lt_trichotomy j i with hlt | rfl | hlt
    · apply hpropagate j hlt hj
    · contradiction
    · apply hne j hlt (by omega)

/-- The carry output at the highest position with different bits. -/
theorem borrowsNot_iff {x_a x_b : BitVec 64} {i : Nat} (hne : x_a.getLsbD i ≠ x_b.getLsbD i)
    (heq : ∀ j, i < j → j < 64 → x_a.getLsbD j = x_b.getLsbD j) (hi : 11 ≤ i) :
  BorrowsNot x_a x_b ↔
    (x_a.getLsbD i = true → ¬ LooksAt (i + 1)) ∧ DecreaseReaches x_a x_b i
  := by
  constructor
  · rintro ⟨hlow, hagree, hpropagate⟩
    have hhigh : 31 < i := by
      by_contra hle
      apply hne (hagree i hi (Nat.le_of_not_lt hle))
    have hlooks : ∀ j, 31 < j → LooksAt (j + 1) → 43 ≤ j ∧ j ≤ 54 ∨ 59 ≤ j ∧ j ≤ 61 := by
      intro j hj hlook
      rw [LooksAt] at hlook
      omega
    refine ⟨?_, hlow, hagree, fun j _ hj hlook => hpropagate j (hlooks j hj hlook)⟩
    -- the bits above agree, so a carry of the difference does not pass
    intro hone hlook
    have hpos := hlooks i hhigh hlook
    apply (hpropagate i hpos).mp (heq (i + 1) (by omega) (by omega))
    use hone
    rw [hone] at hne
    apply Bool.eq_false_of_not_eq_true hne.symm
  · rintro ⟨hlook, hlow, hagree, hpropagate⟩
    use hlow, hagree
    intro j hj
    have hlooks : LooksAt (j + 1) := by
      rw [LooksAt]
      omega
    rcases Nat.lt_trichotomy j i with hlt | rfl | hlt
    · apply hpropagate j hlt (by omega) hlooks
    · apply iff_of_true (heq (j + 1) (by omega) (by omega))
      intro hbits
      apply hlook hbits.1 hlooks
    · apply iff_of_true (heq (j + 1) (by omega) (by omega))
      rintro ⟨ha, hb⟩
      rw [heq j hlt (by omega), hb] at ha
      contradiction

theorem carry_getLsbD_iff (x_a x_b : BitVec 64) :
  carry x_a.getLsbD x_b.getLsbD 64 = true ↔ 2 ^ 64 ≤ x_a.toNat + x_b.toNat
  := by
  rw [carry_iff, value_getLsbD, value_getLsbD, Nat.mod_eq_of_lt x_a.isLt,
    Nat.mod_eq_of_lt x_b.isLt]

/-- When the carry output of `ADDC64` is the carry. -/
theorem addc64_cout_iff_carry (x_a x_b : BitVec 64) :
  ((addc64 x_a x_b).2 = true ↔ 2 ^ 64 ≤ x_a.toNat + x_b.toNat) ↔ AddcFits x_a x_b
  := by
  rw [addc64_cout, ← carry_getLsbD_iff]
  constructor
  · intro h i hi hi' heq hne
    rw [carry_of_eq hi' heq hne, carriesOut_iff heq hne] at h
    split
    case isTrue hone => apply h.mpr hone
    case isFalse hzero =>
      by_contra hfits
      rw [not_or, not_not] at hfits
      apply hzero (h.mp hfits)
  · intro h
    by_cases hex : ∃ i, 12 ≤ i ∧ i < 64 ∧ x_a.getLsbD i = x_b.getLsbD i
    · obtain ⟨j, hj, hj', hjeq⟩ := hex
      obtain ⟨i, hi, hi', heq, hne⟩ := exists_highest
        (fun k => x_a.getLsbD k = x_b.getLsbD k) hj' hjeq
      have hfits := h i (hj.trans hi) hi' heq hne
      rw [carry_of_eq hi' heq hne, carriesOut_iff heq hne]
      split at hfits
      case isTrue hone => apply iff_of_true hfits hone
      case isFalse hzero =>
        apply iff_of_false _ hzero
        rintro ⟨hlook, hreaches⟩
        rcases hfits with hlook' | hreaches'
        · apply hlook hlook'
        · apply hreaches' hreaches
    · -- the carry out of the lowest 12 positions is propagated by all others
      have hne : ∀ i, 12 ≤ i → i < 64 → x_a.getLsbD i ≠ x_b.getLsbD i :=
        fun i hi hi' heq => hex ⟨i, hi, hi', heq⟩
      have hcarry : carry x_a.getLsbD x_b.getLsbD (12 + 52) = carry x_a.getLsbD x_b.getLsbD 12 :=
        carry_add_of_ne hne
      rw [hcarry, carry_iff, value_getLsbD, value_getLsbD, CarriesOut]
      apply and_iff_left
      intro i hi
      apply hne i (by omega) (by omega)

/-- The highest position with different bits decides the order. -/
theorem lt_iff_of_getLsbD_ne {n i : Nat} {x y : BitVec n}
    (hne : x.getLsbD i ≠ y.getLsbD i) (heq : ∀ j, i < j → j < n → x.getLsbD j = y.getLsbD j) :
  y.toNat < x.toNat ↔ x.getLsbD i = true
  := by
  have habove : ∀ j, i < j → x.getLsbD j = y.getLsbD j := by
    intro j hj
    by_cases hjn : j < n
    · apply heq j hj hjn
    · rw [BitVec.getLsbD_of_ge x _ (by omega), BitVec.getLsbD_of_ge y _ (by omega)]
  cases hx : x.getLsbD i with
  | true =>
      have hy : y.getLsbD i = false := by
        rw [hx] at hne
        apply Bool.eq_false_of_not_eq_true hne.symm
      apply iff_of_true _ rfl
      apply Nat.lt_of_testBit i hy hx
      intro j hj
      apply (habove j hj).symm
  | false =>
      have hy : y.getLsbD i = true := by
        rw [hx] at hne
        apply Bool.eq_true_of_not_eq_false hne.symm
      apply iff_of_false _ Bool.false_ne_true
      apply Nat.not_lt_of_lt
      apply Nat.lt_of_testBit i hx hy habove

/-- If the operands agree above the lowest 11 bits, then these decide the order, and the carry output
of `SUBC64` looks at them. -/
theorem borrowsNot_iff_of_eq {x_a x_b : BitVec 64}
    (heq : ∀ i, 11 ≤ i → x_a.getLsbD i = x_b.getLsbD i) :
  BorrowsNot x_a x_b ↔ x_b.toNat < x_a.toNat
  := by
  have hquot : x_a.toNat / 2 ^ 11 = x_b.toNat / 2 ^ 11 := by
    apply (forall_getLsbD_eq_iff x_a x_b (m := 11) (l := 53) (by decide)).mp
    intro i hi
    apply heq i (List.mem_range'_1.mp hi).1
  have hborrows : BorrowsNot x_a x_b ↔ x_b.toNat % 2 ^ 11 < x_a.toNat % 2 ^ 11 := by
    apply and_iff_left
    use fun i hi _ => heq i hi
    intro i hi
    apply iff_of_true (heq (i + 1) (by omega))
    rintro ⟨ha, hb⟩
    rw [heq i (by omega), hb] at ha
    contradiction
  rw [hborrows]
  omega

/-- When the carry output of `SUBC64` tells that there is no borrow. -/
theorem subc64_cout_iff_carry (x_a x_b : BitVec 64) :
  ((subc64 x_a x_b).2 = true ↔ x_b.toNat ≤ x_a.toNat) ↔ x_a ≠ x_b ∧ SubcFits x_a x_b
  := by
  have hle : x_a ≠ x_b → (x_b.toNat ≤ x_a.toNat ↔ x_b.toNat < x_a.toNat) := by
    intro hne
    rw [ne_eq, ← BitVec.toNat_inj] at hne
    omega
  rw [subc64_cout]
  constructor
  · intro h
    have hdiffer : x_a ≠ x_b := by
      rintro rfl
      apply Nat.lt_irrefl _ (h.mpr (Nat.le_refl _)).1
    use hdiffer
    intro i hi hi' hne heq
    rw [hle hdiffer, lt_iff_of_getLsbD_ne hne heq, borrowsNot_iff hne heq hi] at h
    split
    case isTrue hone =>
      obtain ⟨hlook, hreaches⟩ := h.mpr hone
      exact ⟨hlook hone, hreaches⟩
    case isFalse hzero =>
      intro hreaches
      apply hzero (h.mp ⟨fun hone => absurd hone hzero, hreaches⟩)
  · rintro ⟨hdiffer, h⟩
    rw [hle hdiffer]
    by_cases hex : ∃ i, 11 ≤ i ∧ i < 64 ∧ x_a.getLsbD i ≠ x_b.getLsbD i
    · obtain ⟨j, hj, hj', hjne⟩ := hex
      obtain ⟨i, hi, hi', hne, heq⟩ := exists_highest
        (fun k => x_a.getLsbD k ≠ x_b.getLsbD k) hj' hjne
      have heq' : ∀ k, i < k → k < 64 → x_a.getLsbD k = x_b.getLsbD k :=
        fun k hk hk' => not_not.mp (heq k hk hk')
      have hfits := h i (hj.trans hi) hi' hne heq'
      rw [lt_iff_of_getLsbD_ne hne heq', borrowsNot_iff hne heq' (hj.trans hi)]
      split at hfits
      case isTrue hone => apply iff_of_true ⟨fun _ => hfits.1, hfits.2⟩ hone
      case isFalse hzero =>
        apply iff_of_false _ hzero
        rintro ⟨-, hreaches⟩
        apply hfits hreaches
    · apply borrowsNot_iff_of_eq
      intro i hi
      by_cases hi' : i < 64
      · apply not_not.mp fun hne => hex ⟨i, hi, hi', hne⟩
      · rw [BitVec.getLsbD_of_ge x_a _ (by omega), BitVec.getLsbD_of_ge x_b _ (by omega)]

/-- When the carry outputs are the carries. -/
theorem cout_iff_carry (x_a x_b : BitVec 16) (y_a y_b : BitVec 32) (z_a z_b : BitVec 64) :
  (((addc64 z_a z_b).2 = true ↔ 2 ^ 64 ≤ z_a.toNat + z_b.toNat) ↔ AddcFits z_a z_b)
    ∧ (((subc16 x_a x_b).2 = true ↔ x_b.toNat ≤ x_a.toNat) ↔
      x_a.toNat < x_b.toNat ∨ x_a ≠ x_b ∧ x_a.toNat / 2 ^ 11 = x_b.toNat / 2 ^ 11)
    ∧ (((subc32 y_a y_b).2 = true ↔ y_b.toNat ≤ y_a.toNat) ↔
      y_a.toNat < y_b.toNat ∨ y_a ≠ y_b ∧ y_a.toNat / 2 ^ 11 = y_b.toNat / 2 ^ 11)
    ∧ (((subc64 z_a z_b).2 = true ↔ z_b.toNat ≤ z_a.toNat) ↔ z_a ≠ z_b ∧ SubcFits z_a z_b)
  := by
  refine ⟨addc64_cout_iff_carry z_a z_b, ?_, ?_, subc64_cout_iff_carry z_a z_b⟩
  · rw [subc16_cout, ne_eq, ← BitVec.toNat_inj]
    omega
  · rw [subc32_cout, ne_eq, ← BitVec.toNat_inj]
    omega

/-- No carry output is the carry for these operands: the sum of the greatest words carries, and 0 is
not below 0. -/
theorem cout_ne_carry :
  ¬ ((addc64 (BitVec.allOnes 64) (BitVec.allOnes 64)).2 = true ↔
      2 ^ 64 ≤ (BitVec.allOnes 64).toNat + (BitVec.allOnes 64).toNat)
    ∧ ¬ ((subc16 0 0).2 = true ↔ (0#16).toNat ≤ (0#16).toNat)
    ∧ ¬ ((subc32 0 0).2 = true ↔ (0#32).toNat ≤ (0#32).toNat)
    ∧ ¬ ((subc64 0 0).2 = true ↔ (0#64).toNat ≤ (0#64).toNat)
  := by
  decide +kernel

/-! ### The difference with a carry output -/

theorem subc16_wx (x_a x_b : BitVec 16) :
  (subc16 x_a x_b).1 = x_a - x_b - BitVec.ofNat 16 (borrowError x_a.getLsbD x_b.getLsbD)
  := word_adder_words (by decide) (by decide) x_a x_b

theorem subc32_wx (x_a x_b : BitVec 32) :
  (subc32 x_a x_b).1 = x_a - x_b - BitVec.ofNat 32 (borrowError x_a.getLsbD x_b.getLsbD)
  := word_adder_words (by decide) (by decide) x_a x_b

/-- If the carry output of the two words is 1, then their sum has no fault: where a carry into bit 3
is lost, none comes out of the lowest 12 positions. -/
theorem fault_words {a b : Nat → Bool} (h : cout64 (sumWord a b) (carryWord a b) = true) :
  fault (sumWord a b) (carryWord a b) = false
  := by
  rw [cout64_eq, chain_iff, ← carry_iff] at h
  rw [← Bool.not_eq_true, fault_iff, ← carry_iff, carry_words a b 1]
  rintro ⟨h3, ⟨h2, -⟩, hne⟩
  have hcarry : carry (sumWord a b) (carryWord a b) 4 = true := by
    rw [← h.1]
    symm
    apply carry_add_of_ne (l := 8)
    intro i hi hi'
    apply hne i hi (by omega)
  obtain ⟨hab, -⟩ := (carry_words a b 2).mp hcarry
  apply (words_ne_iff a b h2).mpr hab h3

theorem subc64_wx {x_a x_b : BitVec 64} (h : (subc64 x_a x_b).2 = true) :
  (subc64 x_a x_b).1 = x_a - x_b - BitVec.ofNat 64 (borrowError x_a.getLsbD x_b.getLsbD)
  := by
  change word 64 (adder _ _).wx = _
  rw [word_adder_of_fault (fault_words h), word_difference (by decide)]

import SynCirc.Library.Add

/-!
# The multiplexers and multipliers of the library

A multiplier goes through the bits of its first operand.  For each of them it adds the second
operand, moved to the position of the bit, if the bit is 1.  `MULT32` adds with `ADD64`, which is
not an adder for all operands, but it is one for those of the multiplier.
-/

open Signal

/-- The multiplexers. -/
def mux {n : Nat} (x_a x_b : BitVec n) (x_s : Bool) : BitVec n :=
  word n ((List.range n).map fun i =>
    ((x_a.getLsbD i ^^^ x_b.getLsbD i) &&& x_s) ^^^ x_a.getLsbD i)

/-- The module `MUX16`. -/
def mux16 (x_a x_b : BitVec 16) (x_s : Bool) : BitVec 16 := mux x_a x_b x_s

/-- The module `MUX32`. -/
def mux32 (x_a x_b : BitVec 32) (x_s : Bool) : BitVec 32 := mux x_a x_b x_s

/-- The module `MUX64`. -/
def mux64 (x_a x_b : BitVec 64) (x_s : Bool) : BitVec 64 := mux x_a x_b x_s

/-- The partial sums `w` of a multiplier. -/
def multUnit {n m : Nat} (muxM : BitVec m → BitVec m → Bool → BitVec m)
    (addM : BitVec m → BitVec m → BitVec m) (A : BitVec n) (B_ : BitVec m) : Nat → BitVec m
  | 0 => if A.getLsbD 0 then B_ else 0
  | g + 1 => addM (muxM 0 (B_ <<< (g + 1)) (A.getLsbD (g + 1))) (multUnit muxM addM A B_ g)

/-- The module `MULT8`. -/
def mult8 (A B : BitVec 8) : BitVec 16 := multUnit mux16 add16 A (B.setWidth 16) 7

/-- The module `MULT16`. -/
def mult16 (A B : BitVec 16) : BitVec 32 := multUnit mux32 add32 A (B.setWidth 32) 15

/-- The module `MULT32`. -/
def mult32 (A B : BitVec 32) : BitVec 64 := multUnit mux64 add64 A (B.setWidth 64) 31

/-! ### Multiplexers -/

/-- A multiplexer takes the second operand if the signal is 1. -/
theorem mux_eq {n : Nat} (x_a x_b : BitVec n) (x_s : Bool) :
  mux x_a x_b x_s = if x_s then x_b else x_a
  := by
  apply BitVec.eq_of_getLsbD_eq
  intro i hi
  rw [mux, getLsbD_word, decide_eq_true hi, Bool.true_and, getD_map_range _ hi]
  cases x_s with
  | false =>
      change ((x_a.getLsbD i ^^ x_b.getLsbD i) && false ^^ x_a.getLsbD i) = x_a.getLsbD i
      rw [Bool.and_false, Bool.false_xor]
  | true =>
      change ((x_a.getLsbD i ^^ x_b.getLsbD i) && true ^^ x_a.getLsbD i) = x_b.getLsbD i
      rw [Bool.and_true, Bool.xor_comm, ← Bool.xor_assoc, Bool.xor_self, Bool.false_xor]

/-! ### Multipliers -/

section Mult

variable {n m : Nat} (A : BitVec n) {B_ : BitVec m}

/-- The summand for bit `g`. -/
def summand (A : BitVec n) (B_ : BitVec m) (g : Nat) : BitVec m :=
  mux 0 (B_ <<< g) (A.getLsbD g)

theorem toNat_summand (hm : 2 * n ≤ m) (hB : B_.toNat < 2 ^ n) {g : Nat} (hg : g < n) :
  (summand A B_ g).toNat = 2 ^ g * (A.getLsbD g).toNat * B_.toNat
  := by
  rw [summand, mux_eq]
  cases A.getLsbD g with
  | false =>
      rw [Bool.toNat_false, Nat.mul_zero, Nat.zero_mul]
      rfl
  | true =>
      rw [if_pos rfl, toNat_shiftLeft_of_lt hB (by omega), Bool.toNat_true, Nat.mul_one,
        Nat.mul_comm]

/-- If the adder adds the summands, then the partial sums are the products with the lowest bits. -/
theorem toNat_multUnit (hm : 2 * n ≤ m) (hB : B_.toNat < 2 ^ n)
    {addM : BitVec m → BitVec m → BitVec m}
    (hadd : ∀ g < n, ∀ w : BitVec m, w.toNat < 2 ^ (n + g) →
      addM (summand A B_ g) w = summand A B_ g + w) {g : Nat} (hg : g < n) :
  (multUnit mux addM A B_ g).toNat = value A.getLsbD (g + 1) * B_.toNat
  := by
  have hlt : ∀ k ≤ n, value A.getLsbD k * B_.toNat < 2 ^ (n + k) := by
    intro k _
    rw [Nat.pow_add, Nat.mul_comm (2 ^ n)]
    apply Nat.mul_lt_mul'' (value_lt _ k) hB
  induction g with
  | zero =>
      rw [multUnit, value, value]
      cases A.getLsbD 0 with
      | false =>
          rw [Bool.toNat_false, Nat.mul_zero, Nat.zero_mul]
          rfl
      | true =>
          rw [Bool.toNat_true, Nat.pow_zero, Nat.mul_one, Nat.zero_add, Nat.one_mul]
          rfl
  | succ g ih =>
      have hw := ih (by omega)
      change (addM (summand A B_ (g + 1)) (multUnit mux addM A B_ g)).toNat = _
      rw [hadd (g + 1) hg _ (hw ▸ hlt (g + 1) (by omega)), BitVec.toNat_add, hw,
        toNat_summand A hm hB hg, ← Nat.add_mul, Nat.add_comm (2 ^ (g + 1) * _), ← value,
        Nat.mod_eq_of_lt]
      apply (hlt (g + 2) (by omega)).trans_le
      apply Nat.pow_le_pow_right Nat.two_pos (by omega)

end Mult

/-- `ADD64` adds the summands of `MULT32`: a summand with a 1-bit below position 3 and the sum of
the summands before it have no bits at the positions from 34 on. -/
theorem add64_summand (A : BitVec 32) {B_ : BitVec 64} (hB : B_.toNat < 2 ^ 32) {g : Nat}
    (hg : g < 32) {w : BitVec 64} (hw : w.toNat < 2 ^ (32 + g)) :
  add64 (summand A B_ g) w = summand A B_ g + w
  := by
  have htoNat := toNat_summand A (by decide) hB hg
  rw [add64_eq_iff_fault, ← Bool.not_eq_true, fault_iff, value_getLsbD, value_getLsbD]
  rintro ⟨-, hcarry, hne⟩
  have hlow : g < 3 := by
    by_contra hge
    have hdvd : 2 ^ 3 ∣ (summand A B_ g).toNat := by
      rw [htoNat, Nat.mul_assoc]
      apply Dvd.dvd.mul_right
      apply Nat.pow_dvd_pow 2 (by omega)
    rw [Nat.mod_eq_zero_of_dvd hdvd] at hcarry
    omega
  have hsummand : (summand A B_ g).toNat < 2 ^ 34 := by
    calc
      (summand A B_ g).toNat = 2 ^ g * ((A.getLsbD g).toNat * B_.toNat) := by
        rw [htoNat, Nat.mul_assoc]
      _ ≤ 2 ^ 2 * (1 * B_.toNat) := by
        apply Nat.mul_le_mul
        · apply Nat.pow_le_pow_right Nat.two_pos (by omega)
        · apply Nat.mul_le_mul_right _ (Bool.toNat_le _)
      _ < 2 ^ 34 := by omega
  have hsum : w.toNat < 2 ^ 34 := by
    apply hw.trans_le
    apply Nat.pow_le_pow_right Nat.two_pos (by omega)
  apply hne 34 (by decide) (by decide)
  rw [BitVec.getLsbD, BitVec.getLsbD, Nat.testBit_lt_two_pow hsummand, Nat.testBit_lt_two_pow hsum]

/-- If the adder adds the summands, then a multiplier multiplies. -/
theorem toNat_multUnit_setWidth {n m : Nat} (hn : 0 < n) (hm : 2 * n ≤ m) (A B : BitVec n)
    {addM : BitVec m → BitVec m → BitVec m}
    (hadd : ∀ g < n, ∀ w : BitVec m, w.toNat < 2 ^ (n + g) →
      addM (summand A (B.setWidth m) g) w = summand A (B.setWidth m) g + w) :
  (multUnit mux addM A (B.setWidth m) (n - 1)).toNat = A.toNat * B.toNat
  := by
  have hB : (B.setWidth m).toNat = B.toNat := BitVec.toNat_setWidth_of_le (by omega)
  rw [toNat_multUnit A hm (hB ▸ B.isLt) hadd (by omega), value_getLsbD, hB, Nat.sub_add_cancel hn,
    Nat.mod_eq_of_lt A.isLt]

theorem toNat_mult8 (A B : BitVec 8) :
  (mult8 A B).toNat = A.toNat * B.toNat
  := toNat_multUnit_setWidth (by decide) (by decide) A B (fun _ _ _ _ => add16_eq _ _)

theorem toNat_mult16 (A B : BitVec 16) :
  (mult16 A B).toNat = A.toNat * B.toNat
  := toNat_multUnit_setWidth (by decide) (by decide) A B (fun _ _ _ _ => add32_eq _ _)

theorem toNat_mult32 (A B : BitVec 32) :
  (mult32 A B).toNat = A.toNat * B.toNat
  := by
  apply toNat_multUnit_setWidth (by decide) (by decide)
  intro g hg w hw
  apply add64_summand A _ hg hw
  rw [BitVec.toNat_setWidth_of_le (by decide)]
  exact B.isLt

/-- The multipliers multiply. -/
theorem toNat_mult :
  (∀ A B, (mult16 A B).toNat = A.toNat * B.toNat)
    ∧ ∀ A B, (mult32 A B).toNat = A.toNat * B.toNat
  := ⟨toNat_mult16, toNat_mult32⟩

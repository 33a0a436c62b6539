import SynCirc.Library.Float

/-!
# The floating-point multipliers of the library

`f32mul` and `f64mul` multiply the significands, move the leading bit of the product to one place,
and by one place more where the exponent is not positive, and collect the bits that are lost in the
last bit.  Then they round to the nearest significand with ties to even.
-/

open Rounding FloatWord

namespace FloatMul

variable {F E : Nat}

/-! ### Nets -/

/-- The nets `x_fraction__6` and `y_fraction__5`, the fraction with the leading bit. -/
def wideFraction (x : BitVec (1 + E + F)) : BitVec (F + 1) :=
  ((fraction x).setWidth (F + 1) ||| BitVec.ofNat (F + 1) (2 ^ F)) &&& fill (F + 1) (bexp x != 0)

variable (x y : BitVec (1 + E + F))

def product : BitVec (2 * (F + 1)) :=
  (wideFraction x).setWidth (2 * (F + 1)) * (wideFraction y).setWidth (2 * (F + 1))

/-- The highest bit of the product. -/
def high : Bool := (product x y).getLsbD (2 * F + 1)

def has_0_arg : Bool := bexp x == 0 || bexp y == 0

def exp : BitVec (E + 2) :=
  ((bexp x).setWidth (E + 1) + (bexp y).setWidth (E + 1)).setWidth (E + 2)
    + BitVec.ofNat (E + 2) (2 ^ (E + 2) - bias E)

def fraction1 : BitVec (2 * (F + 1)) := product x y >>> (high x y).toNat

def sticky : BitVec (2 * (F + 1)) :=
  (BitVec.ofBool ((product x y).getLsbD 0)).setWidth (2 * (F + 1))

def exp1 : BitVec (E + 2) := exp x y &&& fill (E + 2) (!has_0_arg x y)

def fraction2 : BitVec (2 * (F + 1)) := fraction1 x y ||| sticky x y

def exp2 : BitVec (E + 2) := exp1 x y + (BitVec.ofBool (high x y)).setWidth (E + 2)

def fraction3 : BitVec (2 * (F + 1)) :=
  if (exp2 x y).sle 0 then ((fraction2 x y).extractLsb' 1 (2 * F + 1)).setWidth (2 * (F + 1))
  else fraction2 x y

def sticky1 : BitVec (2 * (F + 1)) :=
  (BitVec.ofBool ((fraction2 x y).getLsbD 0)).setWidth (2 * (F + 1))

def fraction4 : BitVec (2 * (F + 1)) := fraction3 x y ||| sticky1 x y

def fraction5 : BitVec F := (fraction4 x y).extractLsb' F F

def greater_than_half_way : Bool :=
  (fraction4 x y).getLsbD (F - 1) && (fraction4 x y).extractLsb' 0 (F - 1) != 0

def fraction6 : BitVec (F + 1) := (fraction5 x y).setWidth (F + 1)

def do_round_up : Bool :=
  greater_than_half_way x y
    || (fraction4 x y).getLsbD (F - 1) && (fraction4 x y).extractLsb' 0 (F - 1) == 0
      && (fraction4 x y).getLsbD F

def fraction7 : BitVec (F + 1) :=
  if do_round_up x y then fraction6 x y + 1 else fraction6 x y

def exp3 : BitVec (E + 2) :=
  if (fraction7 x y).getLsbD F then exp2 x y + 1 else exp2 x y

def result_exp : BitVec (E + 1) := (exp3 x y).extractLsb' 0 (E + 1)

def result_exp1 : BitVec (E + 1) := result_exp x y &&& fill (E + 1) ((0 : BitVec _).slt (exp3 x y))

def has_inf_arg : Bool :=
  bexp x == BitVec.allOnes E && fraction x == 0 || bexp y == BitVec.allOnes E && fraction y == 0

/-- The exponent does not fit in the word. -/
def overflow : Bool :=
  (result_exp1 x y).getLsbD E || (result_exp1 x y).extractLsb' 0 E == BitVec.allOnes E

def is_subnormal : Bool := (exp3 x y).sle 0

def is_result_nan : Bool :=
  bexp x == BitVec.allOnes E && fraction x != 0 || bexp y == BitVec.allOnes E && fraction y != 0
    || has_0_arg x y && has_inf_arg x y

def result_sign : Bool := sign x ^^ sign y

def result_fraction3 : BitVec F :=
  (fraction7 x y).extractLsb' 0 F
    &&& fill F (!(has_inf_arg x y || overflow x y || is_subnormal x y))

def result_sign1 : Bool := !is_result_nan x y && result_sign x y

def result_exp4 : BitVec E :=
  if is_result_nan x y || has_inf_arg x y || overflow x y then BitVec.allOnes E
  else (result_exp1 x y).extractLsb' 0 E

def result_fraction4 : BitVec F :=
  if is_result_nan x y then BitVec.ofNat F (2 ^ (F - 1)) else result_fraction3 x y

def out : BitVec (1 + E + F) :=
  mk (result_sign1 x y) (result_exp4 x y) (result_fraction4 x y)

/-! ### Significands -/

theorem toNat_wideFraction (x : BitVec (1 + E + F)) :
  (wideFraction x).toNat = significand x
  := by
  have hlt := (fraction x).isLt
  have hpow : 2 ^ F < 2 ^ (F + 1) := Nat.pow_lt_pow_succ one_lt_two
  rw [wideFraction, and_fill, significand]
  by_cases hx : bexp x = 0
  · simp [hx]
  · rw [if_pos (by simpa using hx), if_neg hx, BitVec.toNat_or, BitVec.toNat_setWidth,
      BitVec.toNat_ofNat, Nat.mod_eq_of_lt (hlt.trans hpow), Nat.mod_eq_of_lt hpow, Nat.or_comm]
    have hadd := Nat.two_pow_add_eq_or_of_lt hlt 1
    rw [Nat.mul_one] at hadd
    rw [hadd]

theorem product_lt :
  significand x * significand y < 2 ^ (2 * (F + 1))
  := by
  have hlt := Nat.mul_lt_mul'' (significand_lt x) (significand_lt y)
  rw [← Nat.pow_add, ← Nat.two_mul] at hlt
  apply hlt

theorem toNat_product :
  (product x y).toNat = significand x * significand y
  := by
  have hle : 2 ^ (F + 1) ≤ 2 ^ (2 * (F + 1)) := Nat.pow_le_pow_right two_pos (by omega)
  rw [product, BitVec.toNat_mul, BitVec.toNat_setWidth, BitVec.toNat_setWidth, toNat_wideFraction,
    toNat_wideFraction, Nat.mod_eq_of_lt ((significand_lt x).trans_le hle),
    Nat.mod_eq_of_lt ((significand_lt y).trans_le hle), Nat.mod_eq_of_lt (product_lt x y)]

theorem high_eq :
  high x y = decide (2 ^ (2 * F + 1) ≤ significand x * significand y)
  := by
  have hlt : significand x * significand y < 2 ^ (2 * F + 1 + 1) := product_lt x y
  rw [high, BitVec.getLsbD, toNat_product, testBit_top hlt]

theorem or_mod_two (m : Nat) :
  m ||| m % 2 = m
  := by
  apply Nat.eq_of_testBit_eq
  intro i
  rw [Nat.testBit_or, show m % 2 = m % 2 ^ 1 from rfl, Nat.testBit_mod_two_pow]
  cases m.testBit i <;> simp

theorem toNat_fraction2 :
  (fraction2 x y).toNat = significand x * significand y / 2 ^ (high x y).toNat
    ||| significand x * significand y % 2
  := by
  rw [fraction2, BitVec.toNat_or, fraction1, BitVec.toNat_ushiftRight, sticky,
    toNat_lowest _ (by omega), toNat_product, Nat.shiftRight_eq_div_pow]

/-- The product with its leading bit at one place is rounded to odd. -/
theorem roundsToOdd_fraction2 :
  RoundsToOdd ((significand x * significand y : ℕ) / 2 ^ (high x y).toNat : ℚ)
    (fraction2 x y).toNat
  := by
  rw [toNat_fraction2]
  cases high x y with
  | false =>
      left
      rw [Bool.toNat_false, Nat.pow_zero, Nat.div_one, or_mod_two]
      simp
  | true =>
      rw [Bool.toNat_true, Nat.pow_one, pow_one]
      apply RoundsToOdd.half (.inl (Int.cast_natCast _).symm)

theorem fraction2_lt :
  (fraction2 x y).toNat < 2 ^ (2 * F + 1)
  := by
  have hlt : significand x * significand y < 2 ^ (2 * F + 1 + 1) := product_lt x y
  rw [Nat.pow_succ] at hlt
  rw [toNat_fraction2, high_eq]
  apply Nat.or_lt_two_pow
  · by_cases hhigh : 2 ^ (2 * F + 1) ≤ significand x * significand y
    · rw [decide_eq_true hhigh, Bool.toNat_true, Nat.pow_one]
      omega
    · rw [decide_eq_false hhigh, Bool.toNat_false, Nat.pow_zero, Nat.div_one]
      omega
  · have hpos := Nat.two_pow_pos (2 * F)
    rw [Nat.pow_succ]
    omega

theorem le_fraction2 (hx : bexp x ≠ 0) (hy : bexp y ≠ 0) :
  2 ^ (2 * F) ≤ (fraction2 x y).toNat
  := by
  have hle := Nat.mul_le_mul (le_significand hx) (le_significand hy)
  rw [← Nat.pow_add, ← Nat.two_mul] at hle
  rw [toNat_fraction2, high_eq]
  apply le_trans _ Nat.left_le_or
  by_cases hhigh : 2 ^ (2 * F + 1) ≤ significand x * significand y
  · rw [decide_eq_true hhigh, Bool.toNat_true, Nat.pow_one]
    rw [Nat.pow_succ] at hhigh
    omega
  · rw [decide_eq_false hhigh, Bool.toNat_false, Nat.pow_zero, Nat.div_one]
    apply hle

/-! ### Rounding -/

/-- The significand is halved if the exponent is not positive. -/
def halved : Bool := (exp2 x y).sle 0

theorem toNat_fraction4 :
  (fraction4 x y).toNat = if halved x y
    then (fraction2 x y).toNat / 2 ||| (fraction2 x y).toNat % 2 else (fraction2 x y).toNat
  := by
  have hlt := (fraction2 x y).isLt
  rw [fraction4, BitVec.toNat_or, sticky1, toNat_lowest _ (by omega), fraction3, ← halved]
  cases halved x y with
  | false => rw [if_neg Bool.false_ne_true, if_neg Bool.false_ne_true, or_mod_two]
  | true =>
      have hhalf : (fraction2 x y).toNat / 2 < 2 ^ (2 * F + 1) := by
        rw [Nat.div_lt_iff_lt_mul two_pos, ← Nat.pow_succ]
        apply hlt
      have hle : 2 ^ (2 * F + 1) ≤ 2 ^ (2 * (F + 1)) := Nat.pow_le_pow_right two_pos (by omega)
      rw [if_pos rfl, if_pos rfl, BitVec.toNat_setWidth, BitVec.extractLsb'_toNat,
        Nat.shiftRight_eq_div_pow, Nat.pow_one, Nat.mod_eq_of_lt hhalf,
        Nat.mod_eq_of_lt (hhalf.trans_le hle)]

theorem halved_eq :
  halved x y = decide ((exp2 x y).toInt ≤ 0)
  := by
  rw [halved, BitVec.sle_eq_decide]
  congr 2
  apply BitVec.toInt_zero

theorem roundsToOdd_fraction4 :
  RoundsToOdd ((significand x * significand y : ℕ) / 2 ^ (high x y).toNat
    / 2 ^ (halved x y).toNat : ℚ) (fraction4 x y).toNat
  := by
  have hodd := roundsToOdd_fraction2 x y
  rw [toNat_fraction4]
  cases halved x y with
  | false =>
      rw [Bool.toNat_false, pow_zero, div_one, if_neg Bool.false_ne_true]
      apply hodd
  | true =>
      rw [Bool.toNat_true, pow_one, if_pos rfl]
      apply hodd.half

/-- The significand is rounded to the nearest integer with ties to even. -/
theorem nearestEven_fraction4 (hF : 2 ≤ F) {v : ℚ}
    (h : RoundsToOdd v (fraction4 x y).toNat) :
  NearestEven (v / 2 ^ F) (roundShift (fraction4 x y).toNat F)
  := by
  apply h.nearestEven hF
  rw [Int.cast_natCast]
  apply nearestEven_roundShift

theorem do_round_up_eq (hF : F ≠ 0) :
  do_round_up x y = decide (2 ^ F < 2 * ((fraction4 x y).toNat % 2 ^ F)
    ∨ (2 * ((fraction4 x y).toNat % 2 ^ F) = 2 ^ F ∧ (fraction4 x y).toNat / 2 ^ F % 2 = 1))
  := by
  obtain ⟨t, rfl⟩ := Nat.exists_eq_add_one_of_ne_zero hF
  rw [← roundUp_eq, do_round_up, greater_than_half_way, bne, bne, extractLsb'_beq_zero]
  rfl

/-- The fraction is the rounded significand without its leading bit. -/
theorem toNat_fraction7 (hF : F ≠ 0) {q : Nat}
    (hq : (fraction4 x y).toNat / 2 ^ F = q) :
  (fraction7 x y).toNat + 2 ^ F * (q / 2 ^ F) = roundShift (fraction4 x y).toNat F
  := by
  have hlt := Nat.mod_lt q (Nat.two_pow_pos F)
  have hdiv := Nat.mod_add_div q (2 ^ F)
  have hpow : 2 ^ (F + 1) = 2 ^ F * 2 := pow_succ 2 F
  have hfraction6 : (fraction6 x y).toNat = q % 2 ^ F := by
    rw [fraction6, BitVec.toNat_setWidth, fraction5, BitVec.extractLsb'_toNat,
      Nat.shiftRight_eq_div_pow, hq, Nat.mod_eq_of_lt (by omega)]
  rw [fraction7, do_round_up_eq x y hF, roundShift, hq]
  split
  case isTrue h =>
    have hone : (1 : BitVec (F + 1)).toNat = 1 := by
      apply BitVec.toNat_one
      apply Nat.succ_pos
    rw [if_pos (of_decide_eq_true h), BitVec.toNat_add, hfraction6, hone,
      Nat.mod_eq_of_lt (by omega)]
    omega
  case isFalse h =>
    rw [if_neg (fun hif => h (decide_eq_true hif)), hfraction6]
    omega

theorem fraction7_le (hF : F ≠ 0) :
  (fraction7 x y).toNat ≤ 2 ^ F
  := by
  have hfraction7 := toNat_fraction7 x y hF rfl
  have hround := roundShift_le (fraction4 x y).toNat F
  generalize (fraction4 x y).toNat / 2 ^ F = q at *
  have hlt := Nat.mod_lt q (Nat.two_pow_pos F)
  have hdiv := Nat.mod_add_div q (2 ^ F)
  omega

/-! ### Exponents -/

theorem bias_lt (hE : E ≠ 0) :
  bias E < 2 ^ E
  := by
  apply (Nat.sub_le _ _).trans_lt
  apply Nat.pow_lt_pow_right one_lt_two
  omega

theorem toInt_sub_bias (hE : E ≠ 0) :
  (BitVec.ofNat (E + 2) (2 ^ (E + 2) - bias E)).toInt = -bias E
  := by
  obtain ⟨k, rfl⟩ := Nat.exists_eq_add_one_of_ne_zero hE
  have hpos := Nat.two_pow_pos k
  have hbias : bias (k + 1) = 2 ^ k - 1 := rfl
  have hpow : 2 ^ (k + 1 + 2) = 8 * 2 ^ k := by ring
  rw [BitVec.toInt_eq_toNat_cond, BitVec.toNat_ofNat, hbias, hpow]
  rcases Nat.eq_zero_or_pos (2 ^ k - 1) with hzero | hlt
  · rw [hzero, Nat.sub_zero, Nat.mod_self]
    simp
  · rw [Nat.mod_eq_of_lt (by omega), if_neg (by omega)]
    omega

theorem toInt_exp (hE : E ≠ 0) :
  (exp x y).toInt = (bexp x).toNat + (bexp y).toNat - bias E
  := by
  have hx := (bexp x).isLt
  have hy := (bexp y).isLt
  have hpow : 2 ^ (E + 1) = 2 ^ E * 2 := pow_succ 2 E
  have hpow' : 2 ^ (E + 2) = 2 ^ E * 4 := pow_add 2 E 2
  have hbias := bias_lt hE
  have hsum : (((bexp x).setWidth (E + 1) + (bexp y).setWidth (E + 1)).setWidth (E + 2)).toNat
      = (bexp x).toNat + (bexp y).toNat := by
    have hx' : (bexp x).toNat % 2 ^ (E + 1) = (bexp x).toNat := Nat.mod_eq_of_lt (by omega)
    have hy' : (bexp y).toNat % 2 ^ (E + 1) = (bexp y).toNat := Nat.mod_eq_of_lt (by omega)
    rw [BitVec.toNat_setWidth, BitVec.toNat_add, BitVec.toNat_setWidth, BitVec.toNat_setWidth, hx',
      hy']
    have hfit : (bexp x).toNat + (bexp y).toNat < 2 ^ (E + 1) := by omega
    rw [Nat.mod_eq_of_lt hfit, Nat.mod_eq_of_lt (by omega)]
  rw [exp, toInt_add_of_fits (toInt_of_lt hsum (by omega)) (toInt_sub_bias hE)]
  · push_cast
    rfl
  · push_cast
    rw [pow_succ]
    have hle : (bias E : Int) < 2 ^ E := by exact_mod_cast hbias
    omega
  · push_cast
    rw [pow_succ]
    have hx : ((bexp x).toNat : Int) < 2 ^ E := by exact_mod_cast hx
    have hy : ((bexp y).toNat : Int) < 2 ^ E := by exact_mod_cast hy
    omega

theorem toInt_highBit :
  ((BitVec.ofBool (high x y)).setWidth (E + 2)).toInt = (high x y).toNat
  := by
  have hlt := Bool.toNat_lt (high x y)
  have hle : 2 ^ 1 ≤ 2 ^ (E + 1) := Nat.pow_le_pow_right two_pos (Nat.succ_pos E)
  apply toInt_of_lt
  · rw [BitVec.toNat_setWidth, BitVec.toNat_ofBool, Nat.mod_eq_of_lt]
    rw [pow_succ 2 (E + 1)]
    omega
  · omega

theorem toInt_exp2 (hE : E ≠ 0) (hx : bexp x ≠ 0) (hy : bexp y ≠ 0) :
  (exp2 x y).toInt = (bexp x).toNat + (bexp y).toNat - bias E + (high x y).toNat
  := by
  have hx' := (bexp x).isLt
  have hy' := (bexp y).isLt
  have hlt := Bool.toNat_lt (high x y)
  have hbias := bias_lt hE
  have hpow : (2 : Int) ^ (E + 1) = (2 ^ E : ℕ) * 2 := by
    push_cast
    apply pow_succ
  have harg : has_0_arg x y = false := by
    rw [has_0_arg, beq_eq_false_iff_ne.mpr hx, beq_eq_false_iff_ne.mpr hy, Bool.or_self]
  have hexp1 : (exp1 x y).toInt = (bexp x).toNat + (bexp y).toNat - bias E := by
    rw [exp1, and_fill, harg, Bool.not_false, if_pos rfl, toInt_exp x y hE]
  rw [exp2, toInt_add_of_fits hexp1 (toInt_highBit x y)]
  · rw [hpow]
    omega
  · rw [hpow]
    omega

theorem toInt_exp2_of_zero (h : bexp x = 0 ∨ bexp y = 0) :
  (exp2 x y).toInt = 0
  := by
  have harg : has_0_arg x y = true := by simpa [has_0_arg] using h
  have hproduct : significand x * significand y = 0 := by
    rw [Nat.mul_eq_zero]
    apply h.imp significand_of_zero significand_of_zero
  have hhigh : high x y = false := by
    rw [high_eq, hproduct]
    simp
  rw [exp2, exp1, and_fill, harg, hhigh]
  simp

/-- The exact product has the exponent `exp2` and the significand that is rounded. -/
theorem product_eq (hF : F ≠ 0) (hE : E ≠ 0) :
  (magnitude x * magnitude y / 2 ^ (bias E + F - 1) : ℚ)
    = (significand x * significand y : ℕ) / 2 ^ (high x y).toNat / 2 ^ F
      * 2 ^ ((exp2 x y).toInt - 1)
  := by
  by_cases h : bexp x = 0 ∨ bexp y = 0
  · have hproduct : significand x * significand y = 0 := by
      rw [Nat.mul_eq_zero]
      apply h.imp significand_of_zero significand_of_zero
    have hmagnitude : magnitude x * magnitude y = 0 := by
      rw [magnitude, magnitude, Nat.mul_mul_mul_comm, hproduct, Nat.zero_mul]
    have hcast : (magnitude x * magnitude y : ℚ) = 0 := by exact_mod_cast hmagnitude
    rw [hproduct, hcast]
    simp
  · rw [not_or] at h
    obtain ⟨i, hi⟩ := Nat.exists_eq_add_one_of_ne_zero (bexp_pos h.1).ne'
    obtain ⟨j, hj⟩ := Nat.exists_eq_add_one_of_ne_zero (bexp_pos h.2).ne'
    obtain ⟨t, rfl⟩ := Nat.exists_eq_add_one_of_ne_zero hF
    rw [toInt_exp2 x y hE h.1 h.2, magnitude, magnitude, hi, hj]
    generalize significand x = m
    generalize significand y = n
    generalize (high x y).toNat = b
    generalize bias E = c
    rw [Nat.add_sub_cancel, Nat.add_sub_cancel, ← Nat.add_assoc, Nat.add_sub_cancel]
    have hexp : ((i + 1 : ℕ) + (j + 1 : ℕ) - c + b - 1 : ℤ) = (i + j + b + 1 : ℕ) - (c : ℕ) := by
      omega
    rw [hexp, zpow_sub₀ two_ne_zero, zpow_natCast, zpow_natCast]
    push_cast
    field_simp
    ring

theorem toInt_exp3 (hF : F ≠ 0) (hE : E ≠ 0) (hx : (bexp x).toNat < 2 ^ E - 1)
    (hy : (bexp y).toNat < 2 ^ E - 1) :
  (exp3 x y).toInt = (exp2 x y).toInt + ((fraction7 x y).toNat / 2 ^ F : ℕ)
  := by
  have hpow : (2 : Int) ^ (E + 1) = (2 ^ E : ℕ) * 2 := by
    push_cast
    apply pow_succ
  have hfits : -(2 : Int) ^ (E + 1) ≤ (exp2 x y).toInt + 1
      ∧ (exp2 x y).toInt + 1 < 2 ^ (E + 1) := by
    rw [hpow]
    by_cases h : bexp x = 0 ∨ bexp y = 0
    · have hE' := Nat.two_pow_pos E
      rw [toInt_exp2_of_zero x y h]
      omega
    · rw [not_or] at h
      have hlt := Bool.toNat_lt (high x y)
      have hbias := bias_lt hE
      rw [toInt_exp2 x y hE h.1 h.2]
      omega
  have hpos := Nat.two_pow_pos F
  have hle := fraction7_le x y hF
  have hlt := Nat.lt_of_le_of_lt hle (Nat.pow_lt_pow_right one_lt_two (Nat.lt_succ_self F))
  have hone : (1 : BitVec (E + 2)).toInt = 1 := by
    apply BitVec.toInt_one
    omega
  rw [exp3, BitVec.getLsbD, testBit_top hlt]
  rcases hle.lt_or_eq with hlt | heq
  · rw [if_neg (by simpa using hlt), Nat.div_eq_of_lt hlt]
    simp
  · rw [heq, Nat.div_self hpos, if_pos (by simp), toInt_add_of_fits rfl hone hfits.1 hfits.2]
    rfl

/-! ### Results -/

theorem has_inf_arg_eq :
  has_inf_arg x y = decide (IsInf x ∨ IsInf y)
  := by
  rw [has_inf_arg, Bool.eq_iff_iff]
  simp only [Bool.or_eq_true, Bool.and_eq_true, beq_iff_eq, decide_eq_true_iff]
  rfl

theorem is_result_nan_eq (hE : E ≠ 0) :
  is_result_nan x y
    = decide (IsNaN x ∨ IsNaN y ∨ (IsInf x ∧ IsZero y) ∨ (IsZero x ∧ IsInf y))
  := by
  have hne : (0 : BitVec E) ≠ BitVec.allOnes E := by
    intro h
    have hNat := congrArg BitVec.toNat h
    rw [BitVec.toNat_allOnes] at hNat
    have hpow := Nat.pow_lt_pow_right one_lt_two (Nat.pos_of_ne_zero hE)
    have hzero : (0 : BitVec E).toNat = 0 := BitVec.toNat_zero
    omega
  have hdisjoint : ∀ z : BitVec (1 + E + F), IsZero z → ¬ IsInf z :=
    fun z hzero hinf => hne (hzero.symm.trans hinf.1)
  have hx := hdisjoint x
  have hy := hdisjoint y
  rw [is_result_nan, has_inf_arg_eq, has_0_arg, Bool.eq_iff_iff]
  simp only [Bool.or_eq_true, Bool.and_eq_true, beq_iff_eq, bne_iff_ne, decide_eq_true_iff]
  change (IsNaN x ∨ IsNaN y) ∨ (IsZero x ∨ IsZero y) ∧ (IsInf x ∨ IsInf y) ↔ _
  tauto

/-- The result where both arguments are finite. -/
theorem out_of_finite (hE : E ≠ 0) (hx : ¬ IsNaN x) (hx' : ¬ IsInf x) (hy : ¬ IsNaN y)
    (hy' : ¬ IsInf y) :
  out x y = pack (sign x ^^ sign y) (exp3 x y).toInt ((fraction7 x y).extractLsb' 0 F)
  := by
  have hnan : is_result_nan x y = false := by
    rw [is_result_nan_eq x y hE, decide_eq_false]
    tauto
  have hinf : has_inf_arg x y = false := by
    rw [has_inf_arg_eq, decide_eq_false]
    tauto
  have hsub : is_subnormal x y = decide ((exp3 x y).toInt ≤ 0) := by
    rw [is_subnormal, BitVec.sle_eq_decide]
    congr 2
    apply BitVec.toInt_zero
  rw [out, result_sign1, result_exp4, result_fraction4, result_fraction3, hnan, hinf, hsub,
    Bool.or_self, Bool.false_or, Bool.not_false, Bool.true_and, if_neg Bool.false_ne_true]
  apply mk_eq_pack
  apply toNat_positive (exp3 x y)

/-- The significand that is rounded has its leading bit at one place. -/
theorem le_product (hx : bexp x ≠ 0) (hy : bexp y ≠ 0) :
  2 ^ F ≤ ((significand x * significand y : ℕ) / 2 ^ (high x y).toNat / 2 ^ F : ℚ)
  := by
  have hle := Nat.mul_le_mul (le_significand hx) (le_significand hy)
  rw [high_eq, le_div_iff₀ (by positivity), le_div_iff₀ (by positivity)]
  by_cases hhigh : 2 ^ (2 * F + 1) ≤ significand x * significand y
  · rw [decide_eq_true hhigh, Bool.toNat_true, ← pow_add, ← pow_add, ← Nat.two_mul]
    exact_mod_cast hhigh
  · rw [decide_eq_false hhigh, Bool.toNat_false, pow_zero, mul_one]
    exact_mod_cast hle

theorem product_lt_two_pow :
  ((significand x * significand y : ℕ) / 2 ^ (high x y).toNat / 2 ^ F : ℚ) < 2 ^ (F + 1)
  := by
  have hlt := product_lt x y
  rw [high_eq, div_lt_iff₀ (by positivity), div_lt_iff₀ (by positivity), ← pow_add]
  by_cases hhigh : 2 ^ (2 * F + 1) ≤ significand x * significand y
  · rw [decide_eq_true hhigh, Bool.toNat_true, ← pow_add]
    rw [show F + 1 + F + 1 = 2 * (F + 1) by omega]
    exact_mod_cast hlt
  · rw [decide_eq_false hhigh, Bool.toNat_false, pow_zero, mul_one]
    rw [show F + 1 + F = 2 * F + 1 by omega]
    exact_mod_cast Nat.lt_of_not_le hhigh

/-- The significand is rounded where the exponent is positive. -/
theorem exists_of_normal (hF : 2 ≤ F) (hE : E ≠ 0) (hx : (bexp x).toNat < 2 ^ E - 1)
    (hy : (bexp y).toNat < 2 ^ E - 1) (hexp : 0 < (exp2 x y).toInt) (s : Bool) :
  ∃ n, RoundsTo (fun n => (grid F n : ℚ))
      (magnitude x * magnitude y / 2 ^ (bias E + F - 1)) n
    ∧ (encode s n : BitVec (1 + E + F))
      = pack s (exp3 x y).toInt ((fraction7 x y).extractLsb' 0 F)
  := by
  have hzero : ¬ (bexp x = 0 ∨ bexp y = 0) := by
    intro h
    rw [toInt_exp2_of_zero x y h] at hexp
    apply hexp.false
  rw [not_or] at hzero
  obtain ⟨e, he⟩ : ∃ e : ℕ, (exp2 x y).toInt = e + 1 := ⟨((exp2 x y).toInt - 1).toNat, by omega⟩
  have hhalved : halved x y = false := by
    rw [halved_eq, decide_eq_false]
    omega
  have hfraction4 : (fraction4 x y).toNat = (fraction2 x y).toNat := by
    rw [toNat_fraction4, hhalved, if_neg Bool.false_ne_true]
  have hodd := roundsToOdd_fraction4 x y
  rw [hhalved, Bool.toNat_false, pow_zero, div_one] at hodd
  have hnear := nearestEven_fraction4 x y hF hodd
  have hle : 2 ^ F * 2 ^ F ≤ (fraction4 x y).toNat := by
    rw [← Nat.pow_add, ← Nat.two_mul, hfraction4]
    apply le_fraction2 x y hzero.1 hzero.2
  have hlt : (fraction4 x y).toNat < 2 ^ (F + 1) * 2 ^ F := by
    rw [← Nat.pow_add, Nat.add_right_comm, ← Nat.two_mul, hfraction4]
    apply fraction2_lt
  have hpos := Nat.two_pow_pos F
  have hq : 2 ^ F ≤ (fraction4 x y).toNat / 2 ^ F := (Nat.le_div_iff_mul_le hpos).mpr hle
  have hq' : (fraction4 x y).toNat / 2 ^ F < 2 ^ (F + 1) := (Nat.div_lt_iff_lt_mul hpos).mpr hlt
  have hpow : 2 ^ (F + 1) = 2 ^ F * 2 := pow_succ 2 F
  have hone : (fraction4 x y).toNat / 2 ^ F / 2 ^ F = 1 := by
    rw [Nat.div_eq_iff hpos]
    omega
  have hfraction7 := toNat_fraction7 x y (by omega) rfl
  rw [hone, Nat.mul_one] at hfraction7
  have hround := roundShift_le (fraction4 x y).toNat F
  generalize roundShift (fraction4 x y).toNat F = N at *
  have hdiv : N / 2 ^ F = (fraction7 x y).toNat / 2 ^ F + 1 := by
    rw [← hfraction7, Nat.add_div_right _ hpos]
  have hexp3 := toInt_exp3 x y (by omega) hE hx hy
  rw [he] at hexp3
  use e * 2 ^ F + N
  constructor
  · rw [product_eq x y (by omega) hE, he, add_sub_cancel_right, zpow_natCast]
    apply roundsTo_grid (by omega) (.inl (by omega)) (by omega)
    · rw [mul_div_cancel_right₀ _ (by positivity)]
      apply hnear
    · left
      have hp := le_product x y hzero.1 hzero.2
      have hscale : (0 : ℚ) < 2 ^ e := by positivity
      nlinarith
  · apply encode_eq_pack s (by omega)
    · rw [hexp3, hdiv]
      push_cast
      ring
    · rw [BitVec.extractLsb'_toNat, Nat.shiftRight_zero, ← hfraction7, Nat.add_mod_right]

/-- The significand is halved before it is rounded where the exponent is zero. -/
theorem exists_of_zero_exp (hF : 2 ≤ F) (hE : 2 ≤ E) (hx : (bexp x).toNat < 2 ^ E - 1)
    (hy : (bexp y).toNat < 2 ^ E - 1) (hexp : (exp2 x y).toInt = 0) (s : Bool) :
  ∃ n, RoundsTo (fun n => (grid F n : ℚ))
      (magnitude x * magnitude y / 2 ^ (bias E + F - 1)) n
    ∧ (encode s n : BitVec (1 + E + F))
      = pack s (exp3 x y).toInt ((fraction7 x y).extractLsb' 0 F)
  := by
  have hhalved : halved x y = true := by
    rw [halved_eq, hexp]
    rfl
  have hodd := roundsToOdd_fraction4 x y
  rw [hhalved, Bool.toNat_true, pow_one] at hodd
  have hnear := nearestEven_fraction4 x y hF hodd
  have hlt : (fraction4 x y).toNat < 2 ^ F * 2 ^ F := by
    have hlt := fraction2_lt x y
    rw [pow_succ] at hlt
    rw [toNat_fraction4, hhalved, if_pos rfl, ← Nat.pow_add, ← Nat.two_mul]
    have hpos := Nat.two_pow_pos (2 * F)
    apply Nat.or_lt_two_pow
    · omega
    · have hpow := Nat.pow_le_pow_right two_pos (show 1 ≤ 2 * F by omega)
      apply (Nat.mod_lt _ two_pos).trans_le hpow
  have hpos := Nat.two_pow_pos F
  have hq : (fraction4 x y).toNat / 2 ^ F < 2 ^ F := (Nat.div_lt_iff_lt_mul hpos).mpr hlt
  have hfraction7 := toNat_fraction7 x y (by omega) rfl
  rw [Nat.div_eq_of_lt hq, Nat.mul_zero, Nat.add_zero] at hfraction7
  have hround := roundShift_le (fraction4 x y).toNat F
  generalize roundShift (fraction4 x y).toNat F = N at *
  have hN : N ≤ 2 ^ F := by omega
  have hexp3 := toInt_exp3 x y (by omega) (by omega) hx hy
  rw [hexp, zero_add, hfraction7] at hexp3
  use N
  constructor
  · rw [product_eq x y (by omega) (by omega), hexp, zero_sub, zpow_neg_one, ← div_eq_mul_inv,
      div_right_comm]
    rw [← div_one (_ / _ / _ / _ : ℚ), ← pow_zero 2] at hnear
    rw [← Nat.zero_add N, ← Nat.zero_mul (2 ^ F)]
    apply roundsTo_grid (by omega) (.inr rfl) _ hnear (.inr rfl)
    rw [pow_succ]
    omega
  · rcases hN.lt_or_eq with hN | rfl
    · rw [Nat.div_eq_of_lt hN] at hexp3
      rw [encode_of_lt s hN, pack_of_nonpos (by omega) s hexp3.le]
    · have hsum : 2 ^ F = 0 * 2 ^ F + 2 ^ F := by rw [Nat.zero_mul, Nat.zero_add]
      calc encode s (2 ^ F) = encode s (0 * 2 ^ F + 2 ^ F) := congrArg _ hsum
        _ = _ := by
          apply encode_eq_pack s le_rfl
          · rw [hexp3, Int.natCast_zero, zero_add]
          · rw [BitVec.extractLsb'_toNat, Nat.shiftRight_zero, hfraction7]

/-- The number is too small where the exponent is negative. -/
theorem exists_of_neg_exp (hF : F ≠ 0) (hE : E ≠ 0) (hexp : (exp2 x y).toInt < 0) (s : Bool) :
  ∃ n, RoundsTo (fun n => (grid F n : ℚ))
      (magnitude x * magnitude y / 2 ^ (bias E + F - 1)) n
    ∧ encode s n = (mk s 0 0 : BitVec (1 + E + F))
  := by
  have hpos := Nat.two_pow_pos F
  have hpow : 2 ^ 1 ≤ 2 ^ F := Nat.pow_le_pow_right two_pos (Nat.pos_of_ne_zero hF)
  have hv : (magnitude x * magnitude y / 2 ^ (bias E + F - 1) : ℚ) ≤ grid F (2 ^ F - 1) := by
    have hp := product_lt_two_pow x y
    have hscale : (2 : ℚ) ^ ((exp2 x y).toInt - 1) ≤ 2 ^ (-2 : ℤ) := by
      apply zpow_le_zpow_right₀ one_le_two
      omega
    have hpowQ : (2 : ℚ) ≤ 2 ^ F := by exact_mod_cast hpow
    rw [product_eq x y hF hE, grid, if_pos (by omega), Nat.cast_sub hpos]
    calc _ ≤ (2 : ℚ) ^ (F + 1) * 2 ^ (-2 : ℤ) := by
          apply mul_le_mul hp.le hscale (zpow_pos two_pos _).le (by positivity)
      _ = 2 ^ F / 2 := by
        rw [pow_succ]
        norm_num
        ring
      _ ≤ _ := by
        push_cast
        linarith
  obtain ⟨n, hn⟩ := exists_roundsTo (strictMono_grid ℚ F) (v := magnitude x * magnitude y
      / 2 ^ (bias E + F - 1)) (by simp [grid]; positivity)
    ⟨2 ^ F, hv.trans_lt (strictMono_grid ℚ F (Nat.sub_lt hpos one_pos))⟩
  have hle := hn.le (strictMono_grid ℚ F) hv
  use n, hn
  apply encode_of_lt
  omega
/-- The circuit returns the rounded product. -/
theorem isProduct_out (hF : 2 ≤ F) (hE : 2 ≤ E) :
  IsProduct x y (out x y)
  := by
  have hE' : E ≠ 0 := by omega
  have hnan := is_result_nan_eq x y hE'
  have hinf := has_inf_arg_eq x y
  rw [IsProduct]
  split
  case isTrue h =>
    rw [out, result_sign1, result_exp4, result_fraction4, hnan, decide_eq_true h]
    rfl
  case isFalse h =>
    rw [decide_eq_false h] at hnan
    split
    case isTrue h' =>
      rw [decide_eq_true h'] at hinf
      rw [out, result_sign1, result_exp4, result_fraction4, result_fraction3, and_fill, hnan, hinf]
      rfl
    case isFalse h' =>
      rw [not_or, not_or] at h
      rw [not_or] at h'
      have hx := bexp_lt h.1 h'.1
      have hy := bexp_lt h.2.1 h'.2
      rw [out_of_finite x y hE' h.1 h'.1 h.2.1 h'.2]
      rcases lt_trichotomy (exp2 x y).toInt 0 with hexp | hexp | hexp
      · obtain ⟨n, hn, hencode⟩ := exists_of_neg_exp x y (by omega) hE' hexp (sign x ^^ sign y)
        have hle : (exp3 x y).toInt ≤ 0 := by
          have hdiv := Nat.div_le_div_right (c := 2 ^ F) (fraction7_le x y (by omega))
          rw [Nat.div_self (Nat.two_pow_pos F)] at hdiv
          rw [toInt_exp3 x y (by omega) hE' hx hy]
          omega
        use n, hn
        rw [hencode, pack_of_nonpos hE' _ hle]
      · obtain ⟨n, hn, hencode⟩ := exists_of_zero_exp x y hF hE hx hy hexp (sign x ^^ sign y)
        use n, hn
        apply hencode.symm
      · obtain ⟨n, hn, hencode⟩ := exists_of_normal x y hF hE' hx hy hexp (sign x ^^ sign y)
        use n, hn
        apply hencode.symm

theorem isProduct_iff (hF : 2 ≤ F) (hE : 2 ≤ E) {z : BitVec (1 + E + F)} :
  IsProduct x y z ↔ z = out x y
  := by
  have hout := isProduct_out x y hF hE
  constructor
  · intro h
    apply h.unique hout
  · rintro rfl
    apply hout

end FloatMul

/-- The module `__f32mul__main`. -/
def f32mul (x y : BitVec 32) : BitVec 32 := FloatMul.out (F := 23) (E := 8) x y

/-- The module `__f64mul__main`. -/
def f64mul (x y : BitVec 64) : BitVec 64 := FloatMul.out (F := 52) (E := 11) x y

/-- The multipliers of both formats return the rounded products, and these are the only ones. -/
theorem floatMul_isProduct :
  (∀ x y out : BitVec 32, IsProduct (F := 23) (E := 8) x y out ↔ out = f32mul x y)
    ∧ ∀ x y out : BitVec 64, IsProduct (F := 52) (E := 11) x y out ↔ out = f64mul x y
  := by
  constructor
  · intro x y out
    apply FloatMul.isProduct_iff (F := 23) (E := 8) x y (by decide) (by decide)
  · intro x y out
    apply FloatMul.isProduct_iff (F := 52) (E := 11) x y (by decide) (by decide)

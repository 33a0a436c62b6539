import SynCirc.Library.Float
import SynCirc.Signal.Word
import Mathlib.Data.Nat.Size

/-!
# The floating-point adders of the library

`f32add` and `f64add` add the argument with the smaller exponent, shifted to the right, to the other
one.  The sum has three bits below the significand, and the bits that are lost are collected in the
last one.  The absolute value of the sum is shifted until its leading bit is at one place, and then
it is rounded to the nearest significand with ties to even.  `f32sub` and `f64sub` are the same
circuits where the sign of the second argument is complemented.
-/

open Rounding FloatWord Signal

namespace FloatAdd

variable {F E : Nat}

/-! ### Nets -/

section

variable (x y : BitVec (1 + E + F))

/-- The highest bit tells whether the exponent of the first argument is larger. -/
def sum : BitVec (E + 1) := (bexp x).setWidth (E + 1) + (~~~bexp y).setWidth (E + 1)

/-- The argument with the larger exponent, whose parts are `x_sign__2`, `x_bexp__2` and
`x_fraction__2`. -/
def x2 : BitVec (1 + E + F) := if (sum x y).getLsbD E then x else y

/-- The argument with the smaller exponent, whose parts are `y_sign__2`, `y_bexp__2` and
`y_fraction__1`. -/
def y2 : BitVec (1 + E + F) := if (sum x y).getLsbD E then y else x

def x_bexpbs_difference : BitVec E :=
  if (sum x y).getLsbD E then (sum x y).extractLsb' 0 E + 1 else ~~~(sum x y).extractLsb' 0 E

end

/-- The nets `wide_x__1` and `wide_y__1`, the significand with three bits below it. -/
def wide (x : BitVec (1 + E + F)) : BitVec (2 + F + 3) :=
  (1#2 ++ fraction x ++ 0#3) &&& fill (2 + F + 3) (bexp x != 0)

/-- The lowest bit of a word alone, with one more bit for the word 0. -/
def one_hot {n : Nat} (z : BitVec n) : BitVec (n + 1) :=
  word (n + 1) ((List.range (n + 1)).map fun i =>
    if i < n then z.getLsbD i && z.extractLsb' 0 i == 0 else z == 0)

/-- The position of the only bit of a word. -/
def encode {n : Nat} (k : Nat) (z : BitVec n) : BitVec k :=
  word k ((List.range k).map fun j => (List.range n).any fun i => i.testBit j && z.getLsbD i)

/-- The number of bits of the number of leading zeros. -/
def width (F : Nat) : Nat := (F + 5).log2 + 1

section

/- The nets after the arguments are ordered, where `d` is the difference of the exponents. -/
variable (x y : BitVec (1 + E + F)) (d : BitVec E)

def dropped : BitVec (2 + F + 3) :=
  if BitVec.ofNat E (F + 5) ≤ BitVec.ofNat E (F + 5) - d then 0
  else wide y <<< (BitVec.ofNat E (F + 5) - d)

def sticky : BitVec (2 + F + 3) :=
  (BitVec.ofBool ((dropped y d).extractLsb' 3 (2 + F) != 0)).setWidth (2 + F + 3)

def xddend_y : BitVec (2 + F + 3) :=
  (if BitVec.ofNat E (F + 5) ≤ d then 0 else wide y >>> d) ||| sticky y d

def sel : BitVec (2 + F) :=
  if sign x ^^ sign y then (-wide x).extractLsb' 3 (2 + F) else (wide x).extractLsb' 3 (2 + F)

def add : BitVec (2 + F + 1) :=
  (sel x y).signExtend (2 + F + 1) + ((xddend_y y d).extractLsb' 3 (2 + F)).setWidth (2 + F + 1)

def concat : BitVec (2 + F + 3) :=
  (add x y d).extractLsb' 0 (2 + F) ++ (xddend_y y d).extractLsb' 0 3

/-- The absolute value of the sum. -/
def xbs_fraction : BitVec (2 + F + 3) :=
  if (add x y d).getLsbD (2 + F) then -concat x y d else concat x y d

/-- The number of leading zeros. -/
def leading_zeroes : BitVec (width F) := encode (width F) (one_hot (xbs_fraction x y d).reverse)

def cancel : Bool := (leading_zeroes x y d).extractLsb' 1 ((F + 5).log2) != 0

def carry_bit : Bool := (xbs_fraction x y d).getLsbD (2 + F + 2)

def carry_fraction : BitVec (2 + F + 2) :=
  (xbs_fraction x y d).extractLsb' 1 (2 + F + 2)
    ||| (BitVec.ofBool ((xbs_fraction x y d).getLsbD 0)).setWidth (2 + F + 2)

def cancel_shift : BitVec (2 + F + 3) :=
  (leading_zeroes x y d).setWidth (2 + F + 3) + BitVec.allOnes (2 + F + 3)

def cancel_fraction : BitVec (2 + F + 2) :=
  if BitVec.ofNat (2 + F + 3) (F + 4) ≤ cancel_shift x y d then 0
  else (xbs_fraction x y d).extractLsb' 0 (2 + F + 2) <<< cancel_shift x y d

def shifted_fraction : BitVec (2 + F + 2) :=
  carry_fraction x y d &&& fill (2 + F + 2) (!(!carry_bit x y d || cancel x y d))
    ||| cancel_fraction x y d &&& fill (2 + F + 2) (!(carry_bit x y d || !cancel x y d))
    ||| (xbs_fraction x y d).extractLsb' 0 (2 + F + 2)
      &&& fill (2 + F + 2) (!(carry_bit x y d || cancel x y d))

def normal_chunk : BitVec 3 := (shifted_fraction x y d).extractLsb' 0 3

def half_way_chunk : BitVec 2 := (shifted_fraction x y d).extractLsb' 2 2

def do_round_up : Bool := decide (4 < normal_chunk x y d) || half_way_chunk x y d == 3

def rounded_fraction : BitVec (2 + F + 3) :=
  if do_round_up x y d then
    (((shifted_fraction x y d).extractLsb' 3 (1 + F)).setWidth (2 + F) + 1) ++ normal_chunk x y d
  else (shifted_fraction x y d).setWidth (2 + F + 3)

def rounding_carry : Bool := (rounded_fraction x y d).getLsbD (2 + F + 2)

def wide_exponent : BitVec (E + 2) :=
  ((bexp x).setWidth (E + 1) + (BitVec.ofBool (rounding_carry x y d)).setWidth (E + 1)).setWidth
      (E + 2) + 1
    - (leading_zeroes x y d).setWidth (E + 2)

def fraction_is_zero : Bool := add x y d == 0 && (xddend_y y d).extractLsb' 0 3 == 0

def wide_exponent1 : BitVec (E + 2) :=
  wide_exponent x y d &&& fill (E + 2) (add x y d != 0 || (xddend_y y d).extractLsb' 0 3 != 0)

def wide_exponent2 : BitVec (E + 1) :=
  (wide_exponent1 x y d).extractLsb' 0 (E + 1)
    &&& fill (E + 1) (!(wide_exponent1 x y d).getLsbD (E + 1))

/-- The exponent does not fit in the word. -/
def overflow : Bool :=
  (wide_exponent2 x y d).getLsbD E || (wide_exponent2 x y d).extractLsb' 0 E == BitVec.allOnes E

def is_operand_inf : Bool :=
  bexp x == BitVec.allOnes E && fraction x == 0 || bexp y == BitVec.allOnes E && fraction y == 0

def has_pos_inf : Bool :=
  !(bexp x != BitVec.allOnes E || fraction x != 0 || sign x)
    || !(bexp y != BitVec.allOnes E || fraction y != 0 || sign y)

def has_neg_inf : Bool :=
  bexp x == BitVec.allOnes E && fraction x == 0 && sign x
    || bexp y == BitVec.allOnes E && fraction y == 0 && sign y

def is_result_nan : Bool :=
  bexp x == BitVec.allOnes E && fraction x != 0 || bexp y == BitVec.allOnes E && fraction y != 0
    || has_pos_inf x y && has_neg_inf x y

def result_sign : Bool :=
  sign x && sign y && fraction_is_zero x y d || !sign y && (add x y d).getLsbD (2 + F)
    || sign y && !((add x y d).getLsbD (2 + F) || fraction_is_zero x y d)

def result_fraction : BitVec F :=
  (rounded_fraction x y d >>> if rounding_carry x y d then 4 else 3).extractLsb' 0 F

def result_sign1 : Bool :=
  if is_operand_inf x y then !has_pos_inf x y else result_sign x y d

def result_fraction3 : BitVec F :=
  result_fraction x y d
    &&& fill F (!(is_operand_inf x y || overflow x y d || wide_exponent2 x y d == 0))

def result_sign2 : Bool := !is_result_nan x y && result_sign1 x y d

def result_exponent2 : BitVec E :=
  if is_result_nan x y || is_operand_inf x y || overflow x y d then BitVec.allOnes E
  else (wide_exponent2 x y d).extractLsb' 0 E

def result_fraction4 : BitVec F :=
  if is_result_nan x y then BitVec.ofNat F (2 ^ (F - 1)) else result_fraction3 x y d

/-- The result for ordered arguments. -/
def result : BitVec (1 + E + F) :=
  mk (result_sign2 x y d) (result_exponent2 x y d) (result_fraction4 x y d)

end

def out (x y : BitVec (1 + E + F)) : BitVec (1 + E + F) :=
  result (x2 x y) (y2 x y) (x_bexpbs_difference x y)

/-! ### Order of the arguments -/

section

variable (x y : BitVec (1 + E + F))

theorem toNat_sum :
  (sum x y).toNat = (bexp x).toNat + (2 ^ E - 1 - (bexp y).toNat)
  := by
  have hx := (bexp x).isLt
  have hpow : 2 ^ (E + 1) = 2 ^ E * 2 := pow_succ 2 E
  rw [sum, BitVec.toNat_add, BitVec.toNat_setWidth, BitVec.toNat_setWidth, BitVec.toNat_not,
    Nat.mod_eq_of_lt (a := (bexp x).toNat) (by omega),
    Nat.mod_eq_of_lt (a := 2 ^ E - 1 - (bexp y).toNat) (by omega), Nat.mod_eq_of_lt (by omega)]

theorem getLsbD_sum :
  (sum x y).getLsbD E = decide ((bexp y).toNat < (bexp x).toNat)
  := by
  have hy := (bexp y).isLt
  rw [BitVec.getLsbD, testBit_top (sum x y).isLt, toNat_sum]
  congr 1
  rw [eq_iff_iff]
  omega

/-- The arguments are ordered by their exponents. -/
theorem bexp_y2_le :
  (bexp (y2 x y)).toNat ≤ (bexp (x2 x y)).toNat
  := by
  rw [x2, y2, getLsbD_sum]
  by_cases h : (bexp y).toNat < (bexp x).toNat
  · rw [decide_eq_true h, if_pos rfl, if_pos rfl]
    apply h.le
  · rw [decide_eq_false h, if_neg Bool.false_ne_true, if_neg Bool.false_ne_true]
    omega

theorem toNat_difference :
  (x_bexpbs_difference x y).toNat = (bexp (x2 x y)).toNat - (bexp (y2 x y)).toNat
  := by
  have hx := (bexp x).isLt
  have hy := (bexp y).isLt
  rw [x_bexpbs_difference, x2, y2, getLsbD_sum]
  by_cases h : (bexp y).toNat < (bexp x).toNat
  · have hone : (1 : BitVec E).toNat = 1 := by
      apply BitVec.toNat_one
      apply Nat.pos_of_ne_zero
      rintro rfl
      omega
    have hsum : (bexp x).toNat + (2 ^ E - 1 - (bexp y).toNat)
        = ((bexp x).toNat - (bexp y).toNat - 1) + 2 ^ E := by omega
    rw [decide_eq_true h, if_pos rfl, if_pos rfl, if_pos rfl, BitVec.toNat_add, hone,
      BitVec.extractLsb'_toNat, Nat.shiftRight_zero, toNat_sum, hsum, Nat.add_mod_right,
      Nat.mod_eq_of_lt (a := _ - _ - _) (by omega), Nat.mod_eq_of_lt (by omega)]
    omega
  · rw [decide_eq_false h, if_neg Bool.false_ne_true, if_neg Bool.false_ne_true,
      if_neg Bool.false_ne_true, BitVec.toNat_not, BitVec.extractLsb'_toNat, Nat.shiftRight_zero,
      toNat_sum, Nat.mod_eq_of_lt (by omega)]
    omega

end

/-! ### Sums -/

theorem toNat_wide (x : BitVec (1 + E + F)) :
  (wide x).toNat = 8 * significand x
  := by
  have hlt := (fraction x).isLt
  rw [wide, and_fill, significand]
  by_cases hx : bexp x = 0
  · simp [hx]
  · have hor : 1 <<< F ||| (fraction x).toNat = 2 ^ F + (fraction x).toNat := by
      rw [Nat.shiftLeft_eq, Nat.mul_comm, ← Nat.two_pow_add_eq_or_of_lt hlt, Nat.mul_one]
    rw [if_pos (by simpa using hx), if_neg hx, BitVec.toNat_append, BitVec.toNat_append,
      BitVec.toNat_ofNat, BitVec.toNat_ofNat, Nat.zero_mod, Nat.or_zero]
    change (1 <<< F ||| (fraction x).toNat) <<< 3 = _
    rw [hor, Nat.shiftLeft_eq, Nat.mul_comm]

section

variable (x y : BitVec (1 + E + F)) {d : BitVec E}

theorem wide_lt :
  8 * significand x < 2 ^ (F + 4)
  := by
  have hlt := significand_lt x
  rw [pow_add] at hlt ⊢
  omega

/-- The bits that are shifted out. -/
theorem toNat_dropped (hE : F + 5 < 2 ^ E) (hd : d.toNat ≤ F + 5) :
  (dropped y d).toNat = 2 ^ (F + 5 - d.toNat) * (8 * significand y % 2 ^ d.toNat)
  := by
  have hd' := d.isLt
  have hwidth : (BitVec.ofNat E (F + 5)).toNat = F + 5 := Nat.mod_eq_of_lt hE
  have hsub : (BitVec.ofNat E (F + 5) - d).toNat = F + 5 - d.toNat := by
    rw [BitVec.toNat_sub, hwidth, show 2 ^ E - d.toNat + (F + 5) = F + 5 - d.toNat + 2 ^ E by omega,
      Nat.add_mod_right, Nat.mod_eq_of_lt (by omega)]
  have hle : BitVec.ofNat E (F + 5) ≤ BitVec.ofNat E (F + 5) - d ↔ d.toNat = 0 := by
    rw [BitVec.le_def, hwidth, hsub]
    omega
  rw [dropped]
  rcases Nat.eq_zero_or_pos d.toNat with hzero | hpos
  · rw [if_pos (hle.mpr hzero), hzero, Nat.pow_zero, Nat.mod_one, Nat.mul_zero]
    rfl
  · have hpow : 2 ^ (2 + F + 3) = 2 ^ (F + 5 - d.toNat) * 2 ^ d.toNat := by
      rw [← Nat.pow_add]
      congr 1
      omega
    rw [if_neg (fun h => hpos.ne' (hle.mp h)), BitVec.shiftLeft_eq', BitVec.toNat_shiftLeft, hsub,
      toNat_wide, Nat.shiftLeft_eq, hpow, Nat.mul_comm, Nat.mul_mod_mul_left]

theorem toNat_sticky (hE : F + 5 < 2 ^ E) (hd : d.toNat ≤ F + 5) :
  (sticky y d).toNat = if 8 * significand y % 2 ^ d.toNat = 0 then 0 else 1
  := by
  have hdropped := toNat_dropped y hE hd
  have hlt := (dropped y d).isLt
  have hpos := Nat.two_pow_pos (F + 5 - d.toNat)
  have hpow : 2 ^ (2 + F + 3) = 8 * 2 ^ (2 + F) := by
    rw [Nat.pow_add, Nat.mul_comm]
  -- The lowest three bits of the significand are zero.
  have hdvd : 8 ∣ (dropped y d).toNat := by
    have hmod : 8 ∣ 2 ^ (F + 5) := pow_dvd_pow 2 (show 3 ≤ F + 5 by omega)
    rw [hdropped, ← Nat.mul_mod_mul_left, ← Nat.pow_add, Nat.sub_add_cancel hd,
      Nat.dvd_mod_iff hmod, Nat.mul_left_comm]
    apply Nat.dvd_mul_right
  have hnonzero : ((dropped y d).extractLsb' 3 (2 + F) != 0)
      = decide (8 * significand y % 2 ^ d.toNat ≠ 0) := by
    have hzero : (0 : BitVec (2 + F)).toNat = 0 := BitVec.toNat_zero
    have hdiv : (dropped y d).toNat / 2 ^ 3 < 2 ^ (2 + F) := by omega
    rw [Bool.eq_iff_iff, bne_iff_ne, decide_eq_true_iff, Ne, ← BitVec.toNat_inj,
      BitVec.extractLsb'_toNat, Nat.shiftRight_eq_div_pow, hzero, Nat.mod_eq_of_lt hdiv]
    rw [hdropped] at hdvd ⊢
    rcases Nat.eq_zero_or_pos (8 * significand y % 2 ^ d.toNat) with hrem | hrem
    · rw [hrem]
      simp
    · have hprod := Nat.mul_pos hpos hrem
      omega
  rw [sticky, hnonzero, BitVec.toNat_setWidth, BitVec.toNat_ofBool,
    Nat.mod_eq_of_lt ((Bool.toNat_lt _).trans_le (by have := Nat.two_pow_pos (2 + F); omega))]
  by_cases hrem : 8 * significand y % 2 ^ d.toNat = 0
  · rw [if_pos hrem, decide_eq_false (not_not_intro hrem)]
    rfl
  · rw [if_neg hrem, decide_eq_true hrem]
    rfl

theorem toNat_xddend_y (hE : F + 5 < 2 ^ E) (hd : d.toNat ≤ F + 5) :
  (xddend_y y d).toNat = 8 * significand y / 2 ^ d.toNat
    ||| if 8 * significand y % 2 ^ d.toNat = 0 then 0 else 1
  := by
  have hwidth : (BitVec.ofNat E (F + 5)).toNat = F + 5 := Nat.mod_eq_of_lt hE
  rw [xddend_y, BitVec.toNat_or, toNat_sticky y hE hd]
  congr 1
  split
  case isTrue h =>
    rw [BitVec.le_def, hwidth] at h
    have hlt := wide_lt y
    rw [Nat.le_antisymm hd h, Nat.div_eq_of_lt (by rw [pow_succ]; omega)]
    rfl
  case isFalse h =>
    rw [BitVec.ushiftRight_eq', BitVec.toNat_ushiftRight, toNat_wide, Nat.shiftRight_eq_div_pow]

/-- A number with a much smaller exponent is left out. -/
theorem toNat_xddend_y_of_lt (hE : F + 5 < 2 ^ E) (hd : F + 5 < d.toNat) :
  (xddend_y y d).toNat = 0
  := by
  have hd' := d.isLt
  have hwidth : (BitVec.ofNat E (F + 5)).toNat = F + 5 := Nat.mod_eq_of_lt hE
  have hle : BitVec.ofNat E (F + 5) ≤ d := by
    rw [BitVec.le_def, hwidth]
    apply hd.le
  have hsub : BitVec.ofNat E (F + 5) ≤ BitVec.ofNat E (F + 5) - d := by
    rw [BitVec.le_def, BitVec.toNat_sub, hwidth, Nat.mod_eq_of_lt (by omega)]
    omega
  rw [xddend_y, sticky, dropped, if_pos hle, if_pos hsub]
  simp

theorem xddend_y_lt (hE : F + 5 < 2 ^ E) :
  (xddend_y y d).toNat < 2 ^ (F + 4)
  := by
  rcases Nat.lt_or_ge (F + 5) d.toNat with hd | hd
  · rw [toNat_xddend_y_of_lt y hE hd]
    apply Nat.two_pow_pos
  · rw [toNat_xddend_y y hE hd]
    apply Nat.or_lt_two_pow
    · apply (Nat.div_le_self _ _).trans_lt (wide_lt y)
    · have hone : 1 < 2 ^ (F + 4) := Nat.one_lt_two_pow (by omega)
      split <;> omega

/-- The sum without the bits that are lost, where a positive number has the sign of `y`. -/
def total (x y : BitVec (1 + E + F)) (d : BitVec E) : Int :=
  8 * (if sign x ^^ sign y then -(significand x : Int) else significand x) + (xddend_y y d).toNat

theorem toInt_sel :
  (sel x y).toInt = if sign x ^^ sign y then -(significand x : Int) else significand x
  := by
  have hlt := significand_lt x
  have hpow : 2 ^ (2 + F) = 2 ^ (F + 1) * 2 := by ring
  have hpow' : 2 ^ (2 + F + 3) = 2 ^ (F + 1) * 16 := by ring
  rw [sel]
  cases sign x ^^ sign y with
  | false =>
      rw [if_neg Bool.false_ne_true, if_neg Bool.false_ne_true, BitVec.toInt_eq_toNat_cond,
        BitVec.extractLsb'_toNat, toNat_wide, Nat.shiftRight_eq_div_pow,
        show 8 * significand x / 2 ^ 3 = significand x by omega, Nat.mod_eq_of_lt (by omega),
        if_pos (by omega)]
  | true =>
      rw [if_pos rfl, if_pos rfl, BitVec.toInt_eq_toNat_cond, BitVec.extractLsb'_toNat,
        BitVec.toNat_neg, toNat_wide, Nat.shiftRight_eq_div_pow]
      rcases Nat.eq_zero_or_pos (significand x) with hzero | hpos
      · rw [hzero]
        simp
      · have hdiv : (2 ^ (2 + F + 3) - 8 * significand x) % 2 ^ (2 + F + 3) / 2 ^ 3
            = 2 ^ (2 + F) - significand x := by
          rw [Nat.mod_eq_of_lt (by omega)]
          omega
        rw [hdiv, Nat.mod_eq_of_lt (by omega), if_neg (by omega)]
        omega

theorem toInt_sel_lt :
  -(2 ^ (F + 1) : ℕ) < (sel x y).toInt ∧ (sel x y).toInt < (2 ^ (F + 1) : ℕ)
  := by
  have hlt := significand_lt x
  rw [toInt_sel]
  split <;> omega

theorem toInt_add (hE : F + 5 < 2 ^ E) :
  (add x y d).toInt = (sel x y).toInt + ((xddend_y y d).toNat / 8 : ℕ)
  := by
  have hlt := significand_lt x
  have hlt' := xddend_y_lt (d := d) y hE
  have hpow : 2 ^ (F + 4) = 2 ^ (F + 1) * 8 := by ring
  have hpow' : 2 ^ (2 + F) = 2 ^ (F + 1) * 2 := by ring
  have hhigh : (((xddend_y y d).extractLsb' 3 (2 + F)).setWidth (2 + F + 1)).toInt
      = ((xddend_y y d).toNat / 8 : ℕ) := by
    apply toInt_of_lt _ (show (xddend_y y d).toNat / 8 < 2 ^ (2 + F) by omega)
    rw [BitVec.toNat_setWidth, BitVec.extractLsb'_toNat, Nat.shiftRight_eq_div_pow,
      Nat.mod_eq_of_lt (by omega), Nat.mod_eq_of_lt (by rw [pow_succ]; omega)]
  have hsel : ((sel x y).signExtend (2 + F + 1)).toInt = (sel x y).toInt :=
    BitVec.toInt_signExtend_of_le (Nat.le_succ _)
  have hpowInt : (2 : Int) ^ (2 + F) = (2 ^ (F + 1) : ℕ) * 2 := by
    push_cast
    ring
  have hbounds := toInt_sel_lt x y
  rw [add, toInt_add_of_fits hsel hhigh]
  · rw [hpowInt]
    omega
  · rw [hpowInt]
    omega

theorem total_eq (hE : F + 5 < 2 ^ E) :
  total x y d = 8 * (add x y d).toInt + ((xddend_y y d).toNat % 8 : ℕ)
  := by
  rw [toInt_add x y hE, toInt_sel, total]
  generalize (xddend_y y d).toNat = u
  omega

theorem getLsbD_add (hE : F + 5 < 2 ^ E) :
  (add x y d).getLsbD (2 + F) = decide (total x y d < 0)
  := by
  have hmsb : (add x y d).getLsbD (2 + F) = decide ((add x y d).toInt < 0) := by
    rw [← BitVec.msb_eq_toInt, BitVec.msb_eq_getLsbD_last, Nat.add_sub_cancel]
  rw [hmsb, total_eq x y hE]
  congr 1
  rw [eq_iff_iff]
  omega

/-- The circuit returns the absolute value of the sum. -/
theorem toNat_xbs_fraction (hE : F + 5 < 2 ^ E) :
  (xbs_fraction x y d).toNat = (total x y d).natAbs
  := by
  have hlt := (add x y d).isLt
  have htotal := total_eq (d := d) x y hE
  have hcond := BitVec.toInt_eq_toNat_cond (add x y d)
  have hpow : 2 ^ (2 + F + 1) = 2 ^ (2 + F) * 2 := pow_succ 2 _
  have hpow' : 2 ^ (2 + F + 3) = 2 ^ (2 + F) * 8 := pow_add 2 _ 3
  have hconcat : (concat x y d).toNat = 8 * ((add x y d).toNat % 2 ^ (2 + F))
      + (xddend_y y d).toNat % 8 := by
    have hrem := Nat.mod_lt (xddend_y y d).toNat (show 0 < 2 ^ 3 by decide)
    rw [concat, BitVec.toNat_append, BitVec.extractLsb'_toNat, BitVec.extractLsb'_toNat,
      Nat.shiftRight_zero, Nat.shiftRight_zero, Nat.shiftLeft_eq, Nat.mul_comm,
      ← Nat.two_pow_add_eq_or_of_lt hrem]
    rfl
  have hlow : -(2 ^ (2 + F) : ℕ) < (add x y d).toInt := by
    have hbounds := toInt_sel_lt x y
    have hpow : 2 ^ (2 + F) = 2 ^ (F + 1) * 2 := by ring
    rw [toInt_add x y hE]
    omega
  have hpos := Nat.two_pow_pos (2 + F)
  rw [xbs_fraction, getLsbD_add x y hE]
  by_cases hneg : total x y d < 0
  · have hmod : (add x y d).toNat % 2 ^ (2 + F) = (add x y d).toNat - 2 ^ (2 + F) := by
      rw [Nat.mod_eq_sub_mod (by omega), Nat.mod_eq_of_lt (by omega)]
    rw [decide_eq_true hneg, if_pos rfl, BitVec.toNat_neg, hconcat, hmod,
      Nat.mod_eq_of_lt (by omega)]
    omega
  · rw [decide_eq_false hneg, if_neg Bool.false_ne_true, hconcat, Nat.mod_eq_of_lt (by omega)]
    omega

theorem fraction_is_zero_eq (hE : F + 5 < 2 ^ E) :
  fraction_is_zero x y d = decide (total x y d = 0)
  := by
  have hzero : (0 : BitVec 3).toNat = 0 := rfl
  have hzero' : (0 : BitVec (2 + F + 1)).toInt = 0 := BitVec.toInt_zero
  rw [fraction_is_zero, total_eq x y hE, Bool.eq_iff_iff, Bool.and_eq_true, beq_iff_eq, beq_iff_eq,
    decide_eq_true_iff, ← BitVec.toInt_inj, ← BitVec.toNat_inj, BitVec.extractLsb'_toNat,
    Nat.shiftRight_zero, hzero, hzero']
  omega

end

/-! ### Leading zeros -/

/-- The highest bits of a word are zero. -/
theorem extractLsb'_reverse_beq_zero {n : Nat} (z : BitVec n) {i : Nat} (hi : i ≤ n) :
  (z.reverse.extractLsb' 0 i == 0) = decide (z.toNat < 2 ^ (n - i))
  := by
  rw [Bool.eq_iff_iff, beq_iff_eq, decide_eq_true_iff]
  constructor
  · intro h
    apply Nat.lt_pow_two_of_testBit
    intro j hj
    change z.getLsbD j = false
    rcases Nat.lt_or_ge j n with hjn | hjn
    · have hbit := congrArg (fun w => w.getLsbD (n - 1 - j)) h
      rw [BitVec.getLsbD_extractLsb', BitVec.getLsbD_reverse, BitVec.getMsbD_eq_getLsbD,
        Nat.zero_add, show n - 1 - (n - 1 - j) = j by omega, decide_eq_true (by omega),
        decide_eq_true (by omega)] at hbit
      simpa using hbit
    · apply BitVec.getLsbD_of_ge z j hjn
  · intro h
    apply BitVec.eq_of_getLsbD_eq
    intro j hj
    rw [BitVec.getLsbD_extractLsb', BitVec.getLsbD_reverse, BitVec.getMsbD_eq_getLsbD,
      BitVec.getLsbD, Nat.testBit_lt_two_pow]
    · simp
    · apply h.trans_le (Nat.pow_le_pow_right two_pos (by omega))

theorem getLsbD_one_hot_reverse {n : Nat} (z : BitVec n) {i : Nat} (hi : i ≤ n) :
  (one_hot z.reverse).getLsbD i = decide (i = n - z.toNat.size)
  := by
  have hsize : z.toNat.size ≤ n := Nat.size_le.mpr z.isLt
  rw [one_hot, getLsbD_word, getD_map_range _ (Nat.lt_succ_of_le hi),
    decide_eq_true (Nat.lt_succ_of_le hi), Bool.true_and]
  rcases hi.lt_or_eq with hlt | rfl
  · rw [if_pos hlt, extractLsb'_reverse_beq_zero z hi, BitVec.getLsbD_reverse,
      BitVec.getMsbD_eq_getLsbD, decide_eq_true hlt, Bool.true_and, BitVec.getLsbD]
    by_cases hsmall : z.toNat < 2 ^ (n - i)
    · rw [testBit_top (by rwa [show n - 1 - i + 1 = n - i by omega]), decide_eq_true hsmall,
        Bool.and_true]
      congr 1
      rw [← Nat.lt_size, eq_iff_iff]
      rw [← Nat.size_le] at hsmall
      omega
    · rw [decide_eq_false hsmall, Bool.and_false]
      rw [← Nat.size_le] at hsmall
      symm
      apply decide_eq_false
      omega
  · have hall := extractLsb'_reverse_beq_zero z le_rfl
    rw [BitVec.extractLsb'_eq_self] at hall
    rw [if_neg (lt_irrefl _), hall]
    congr 1
    rw [eq_iff_iff, ← Nat.size_le]
    omega

/-- The circuit counts the leading zeros of a word. -/
theorem toNat_encode_one_hot {n k : Nat} (z : BitVec n) (hk : n < 2 ^ k) :
  (encode k (one_hot z.reverse)).toNat = n - z.toNat.size
  := by
  apply Nat.eq_of_testBit_eq
  intro j
  change (encode k (one_hot z.reverse)).getLsbD j = _
  rw [encode, getLsbD_word]
  rcases Nat.lt_or_ge j k with hj | hj
  · rw [getD_map_range _ hj, decide_eq_true hj, Bool.true_and, Bool.eq_iff_iff, List.any_eq_true]
    simp only [List.mem_range, Bool.and_eq_true]
    constructor
    · rintro ⟨i, hi, hbit, hhot⟩
      rw [getLsbD_one_hot_reverse z (Nat.le_of_lt_succ hi), decide_eq_true_iff] at hhot
      rw [← hhot]
      apply hbit
    · intro hbit
      use n - z.toNat.size, by omega, hbit
      rw [getLsbD_one_hot_reverse z (Nat.sub_le _ _), decide_eq_true rfl]
  · rw [decide_eq_false (by omega), Bool.false_and, Nat.testBit_lt_two_pow]
    apply lt_of_lt_of_le _ (Nat.pow_le_pow_right two_pos hj)
    omega

section

variable (x y : BitVec (1 + E + F)) {d : BitVec E}

theorem size_total_le (hE : F + 5 < 2 ^ E) :
  (total x y d).natAbs.size ≤ F + 5
  := by
  have hlt := (xbs_fraction x y d).isLt
  rw [toNat_xbs_fraction x y hE] at hlt
  rw [Nat.size_le, show F + 5 = 2 + F + 3 by omega]
  apply hlt

theorem toNat_leading_zeroes (hE : F + 5 < 2 ^ E) :
  (leading_zeroes x y d).toNat = F + 5 - (total x y d).natAbs.size
  := by
  have hwidth : 2 + F + 3 < 2 ^ width F := by
    rw [show 2 + F + 3 = F + 5 by omega]
    apply Nat.lt_log2_self
  rw [leading_zeroes, toNat_encode_one_hot _ hwidth, toNat_xbs_fraction x y hE,
    show 2 + F + 3 = F + 5 by omega]

theorem carry_bit_eq (hE : F + 5 < 2 ^ E) :
  carry_bit x y d = decide (F + 4 < (total x y d).natAbs.size)
  := by
  rw [carry_bit, BitVec.getLsbD, testBit_top (xbs_fraction x y d).isLt,
    toNat_xbs_fraction x y hE, show 2 + F + 2 = F + 4 by omega]
  congr 1
  rw [Nat.lt_size]

theorem cancel_eq (hE : F + 5 < 2 ^ E) :
  cancel x y d = decide ((total x y d).natAbs.size < F + 4)
  := by
  have hlt := (leading_zeroes x y d).isLt
  have hpow : 2 ^ width F = 2 ^ (F + 5).log2 * 2 := pow_succ 2 _
  have hzero : (0 : BitVec (F + 5).log2).toNat = 0 := BitVec.toNat_zero
  rw [cancel, Bool.eq_iff_iff, bne_iff_ne, decide_eq_true_iff, Ne, ← BitVec.toNat_inj,
    BitVec.extractLsb'_toNat, hzero, Nat.shiftRight_eq_div_pow, Nat.mod_eq_of_lt (by omega),
    toNat_leading_zeroes x y hE]
  omega

theorem toNat_cancel_shift (hE : F + 5 < 2 ^ E) (h : (total x y d).natAbs.size ≤ F + 4) :
  (cancel_shift x y d).toNat = F + 4 - (total x y d).natAbs.size
  := by
  have hlt : F + 5 < 2 ^ (2 + F + 3) := by
    rw [show 2 + F + 3 = F + 5 by omega]
    apply Nat.lt_two_pow_self
  rw [cancel_shift, BitVec.toNat_add, BitVec.toNat_setWidth, toNat_leading_zeroes x y hE,
    BitVec.toNat_allOnes, Nat.mod_eq_of_lt (a := F + 5 - _) (by omega),
    show F + 5 - (total x y d).natAbs.size + (2 ^ (2 + F + 3) - 1)
      = F + 4 - (total x y d).natAbs.size + 2 ^ (2 + F + 3) by omega,
    Nat.add_mod_right, Nat.mod_eq_of_lt (by omega)]

theorem toNat_cancel_fraction (hE : F + 5 < 2 ^ E) (h : (total x y d).natAbs.size ≤ F + 4) :
  (cancel_fraction x y d).toNat
    = (total x y d).natAbs * 2 ^ (F + 4 - (total x y d).natAbs.size)
  := by
  have hshift := toNat_cancel_shift x y hE h
  have hwidth : (BitVec.ofNat (2 + F + 3) (F + 4)).toNat = F + 4 := by
    apply Nat.mod_eq_of_lt
    rw [show 2 + F + 3 = F + 4 + 1 by omega]
    apply Nat.lt_two_pow_self.trans
    apply Nat.pow_lt_pow_right one_lt_two (Nat.lt_succ_self _)
  have hle : BitVec.ofNat (2 + F + 3) (F + 4) ≤ cancel_shift x y d ↔ (total x y d).natAbs = 0 := by
    rw [BitVec.le_def, hwidth, hshift, ← Nat.size_eq_zero]
    omega
  rw [cancel_fraction]
  by_cases hzero : (total x y d).natAbs = 0
  · rw [if_pos (hle.mpr hzero), hzero, Nat.zero_mul]
    rfl
  · have hlt : (total x y d).natAbs * 2 ^ (F + 4 - (total x y d).natAbs.size) < 2 ^ (F + 4) := by
      have hself := Nat.lt_size_self (total x y d).natAbs
      calc _ < 2 ^ (total x y d).natAbs.size * 2 ^ (F + 4 - (total x y d).natAbs.size) :=
            Nat.mul_lt_mul_of_pos_right hself (Nat.two_pow_pos _)
        _ = 2 ^ (F + 4) := by
            rw [← Nat.pow_add, Nat.add_sub_cancel' h]
    rw [if_neg (fun h' => hzero (hle.mp h')), BitVec.shiftLeft_eq', BitVec.toNat_shiftLeft, hshift,
      BitVec.extractLsb'_toNat, Nat.shiftRight_zero, toNat_xbs_fraction x y hE,
      show 2 + F + 2 = F + 4 by omega, Nat.mod_eq_of_lt (Nat.size_le.mp h), Nat.shiftLeft_eq,
      Nat.mod_eq_of_lt hlt]

/-- A sum with a carry is halved, and the bit that is lost is kept in the last one. -/
theorem toNat_shifted_fraction_of_carry (hE : F + 5 < 2 ^ E)
    (h : F + 4 < (total x y d).natAbs.size) :
  (shifted_fraction x y d).toNat = (total x y d).natAbs / 2 ||| (total x y d).natAbs % 2
  := by
  have hlt := (xbs_fraction x y d).isLt
  have hpow : 2 ^ (2 + F + 3) = 2 ^ (2 + F + 2) * 2 := pow_succ 2 _
  rw [shifted_fraction, carry_bit_eq x y hE, cancel_eq x y hE, decide_eq_true h,
    decide_eq_false (by omega)]
  simp only [and_fill, Bool.not_true, Bool.not_false, Bool.or_false, Bool.or_true, if_true,
    Bool.false_eq_true, if_false, BitVec.ofNat_eq_ofNat, BitVec.or_zero]
  rw [carry_fraction, BitVec.toNat_or, toNat_lowest _ (by omega), BitVec.extractLsb'_toNat,
    Nat.shiftRight_eq_div_pow, Nat.mod_eq_of_lt (by omega), toNat_xbs_fraction x y hE, pow_one]

/-- A sum without a carry is shifted to the left until its leading bit is in place. -/
theorem toNat_shifted_fraction (hE : F + 5 < 2 ^ E)
    (h : (total x y d).natAbs.size ≤ F + 4) :
  (shifted_fraction x y d).toNat
    = (total x y d).natAbs * 2 ^ (F + 4 - (total x y d).natAbs.size)
  := by
  rw [shifted_fraction, carry_bit_eq x y hE, cancel_eq x y hE, decide_eq_false (by omega)]
  rcases h.lt_or_eq with hlt | heq
  · rw [decide_eq_true hlt]
    simp only [and_fill, Bool.not_true, Bool.not_false, Bool.or_false, Bool.or_true, if_true,
      Bool.false_eq_true, if_false, BitVec.ofNat_eq_ofNat, BitVec.or_zero, BitVec.zero_or]
    apply toNat_cancel_fraction x y hE h
  · rw [decide_eq_false (by omega)]
    simp only [and_fill, Bool.not_true, Bool.not_false, Bool.or_false, Bool.or_true, if_true,
      Bool.false_eq_true, if_false, BitVec.ofNat_eq_ofNat, BitVec.zero_or]
    rw [BitVec.extractLsb'_toNat, Nat.shiftRight_zero, toNat_xbs_fraction x y hE, heq, Nat.sub_self,
      pow_zero, Nat.mul_one, Nat.mod_eq_of_lt]
    rw [show 2 + F + 2 = F + 4 by omega]
    apply Nat.size_le.mp h

end

/-! ### Rounding -/

section

variable (x y : BitVec (1 + E + F)) (d : BitVec E)

/-- The rounded significand. -/
def rounded : Nat := roundShift (shifted_fraction x y d).toNat 3

theorem do_round_up_eq :
  do_round_up x y d = decide (2 ^ 3 < 2 * ((shifted_fraction x y d).toNat % 2 ^ 3)
    ∨ (2 * ((shifted_fraction x y d).toNat % 2 ^ 3) = 2 ^ 3
      ∧ (shifted_fraction x y d).toNat / 2 ^ 3 % 2 = 1))
  := by
  have hfour : (4 : BitVec 3).toNat = 4 := rfl
  have hthree : (3 : BitVec 2).toNat = 3 := rfl
  rw [do_round_up, normal_chunk, half_way_chunk, Bool.eq_iff_iff, Bool.or_eq_true,
    decide_eq_true_iff, decide_eq_true_iff, beq_iff_eq, BitVec.lt_def, ← BitVec.toNat_inj,
    BitVec.extractLsb'_toNat, BitVec.extractLsb'_toNat, hfour, hthree, Nat.shiftRight_zero,
    Nat.shiftRight_eq_div_pow]
  omega

theorem toNat_rounded_fraction :
  (rounded_fraction x y d).toNat / 8 = rounded x y d
  := by
  have hlt := (shifted_fraction x y d).isLt
  have hpow : 2 ^ (2 + F + 2) = 2 ^ (1 + F) * 8 := by ring
  have hpow' : 2 ^ (2 + F) = 2 ^ (1 + F) * 2 := by ring
  have hpow'' : 2 ^ (2 + F + 3) = 2 ^ (1 + F) * 16 := by ring
  rw [rounded_fraction, do_round_up_eq, rounded, roundShift]
  split
  case isTrue h =>
    have hone : (1 : BitVec (2 + F)).toNat = 1 := by
      apply BitVec.toNat_one
      omega
    have hrem := Nat.mod_lt (shifted_fraction x y d).toNat (show 0 < 2 ^ 3 by decide)
    rw [if_pos (of_decide_eq_true h), BitVec.toNat_append, BitVec.toNat_add, BitVec.toNat_setWidth,
      BitVec.extractLsb'_toNat, normal_chunk, BitVec.extractLsb'_toNat, Nat.shiftRight_zero,
      Nat.shiftRight_eq_div_pow, Nat.mod_eq_of_lt (a := _ / 2 ^ 3) (by omega), hone,
      Nat.mod_eq_of_lt (a := _ / 2 ^ 3) (by omega), Nat.mod_eq_of_lt (by omega), Nat.shiftLeft_eq,
      Nat.mul_comm, ← Nat.two_pow_add_eq_or_of_lt hrem]
    omega
  case isFalse h =>
    rw [if_neg (fun hif => h (decide_eq_true hif)), BitVec.toNat_setWidth,
      Nat.mod_eq_of_lt (by omega)]
    rfl

theorem rounded_le :
  rounded x y d ≤ 2 ^ (F + 1)
  := by
  have hlt := (shifted_fraction x y d).isLt
  have hpow : 2 ^ (2 + F + 2) = 2 ^ (F + 1) * 8 := by ring
  have hround := roundShift_le (shifted_fraction x y d).toNat 3
  rw [rounded]
  omega

theorem rounding_carry_eq :
  rounding_carry x y d = decide (rounded x y d = 2 ^ (F + 1))
  := by
  have hle := rounded_le x y d
  have hpow : 2 ^ (2 + F + 2) = 2 ^ (F + 1) * 8 := by ring
  rw [rounding_carry, BitVec.getLsbD, testBit_top (rounded_fraction x y d).isLt]
  rw [← toNat_rounded_fraction] at hle ⊢
  congr 1
  rw [eq_iff_iff]
  omega

theorem toNat_result_fraction :
  (result_fraction x y d).toNat = rounded x y d % 2 ^ F
  := by
  rw [result_fraction, BitVec.extractLsb'_toNat, Nat.shiftRight_zero, BitVec.toNat_ushiftRight,
    Nat.shiftRight_eq_div_pow, rounding_carry_eq, ← toNat_rounded_fraction]
  split
  case isTrue h =>
    have hpow : 2 ^ (F + 1) = 2 * 2 ^ F := pow_succ' 2 F
    rw [decide_eq_true_iff] at h
    rw [h, show 2 ^ 4 = 8 * 2 from rfl, ← Nat.div_div_eq_div_mul, h, hpow,
      Nat.mul_div_cancel_left _ two_pos, Nat.mod_self, Nat.mul_mod_left]
  case isFalse h => rfl

theorem toInt_wide_exponent (hE : F + 5 < 2 ^ E) :
  (wide_exponent x y d).toInt
    = (bexp x).toNat + (rounding_carry x y d).toNat + 1
      - (F + 5 - (total x y d).natAbs.size : ℕ)
  := by
  have hx := (bexp x).isLt
  have hcarry := Bool.toNat_lt (rounding_carry x y d)
  have hpow : 2 ^ (E + 1) = 2 ^ E * 2 := pow_succ 2 E
  have hpow' : 2 ^ (E + 2) = 2 ^ E * 4 := pow_add 2 E 2
  have hpowInt : (2 : Int) ^ (E + 1) = (2 ^ E : ℕ) * 2 := by
    push_cast
    apply pow_succ
  have hone : (1 : BitVec (E + 2)).toNat = 1 := by
    apply BitVec.toNat_one
    omega
  have hadd : (((bexp x).setWidth (E + 1)
      + (BitVec.ofBool (rounding_carry x y d)).setWidth (E + 1)).setWidth (E + 2) + 1).toNat
      = (bexp x).toNat + (rounding_carry x y d).toNat + 1 := by
    rw [BitVec.toNat_add, BitVec.toNat_setWidth, BitVec.toNat_add, BitVec.toNat_setWidth,
      BitVec.toNat_setWidth, BitVec.toNat_ofBool, hone,
      Nat.mod_eq_of_lt (a := (bexp x).toNat) (by omega),
      Nat.mod_eq_of_lt (a := (rounding_carry x y d).toNat) (by omega),
      Nat.mod_eq_of_lt (a := (bexp x).toNat + _) (by omega),
      Nat.mod_eq_of_lt (a := (bexp x).toNat + _) (by omega), Nat.mod_eq_of_lt (by omega)]
  have hzeros : ((leading_zeroes x y d).setWidth (E + 2)).toNat
      = F + 5 - (total x y d).natAbs.size := by
    rw [BitVec.toNat_setWidth, toNat_leading_zeroes x y hE, Nat.mod_eq_of_lt (by omega)]
  rw [wide_exponent, toInt_sub_of_fits (toInt_of_lt hadd (by omega))
    (toInt_of_lt hzeros (by omega))]
  · push_cast
    rfl
  · rw [hpowInt]
    omega
  · rw [hpowInt]
    omega

/-- The exponent of the result, which is zero if the sum is. -/
def exponent (x y : BitVec (1 + E + F)) (d : BitVec E) : Int :=
  if total x y d = 0 then 0
  else (bexp x).toNat + (rounding_carry x y d).toNat + 1 - (F + 5 - (total x y d).natAbs.size : ℕ)

theorem toInt_wide_exponent1 (hE : F + 5 < 2 ^ E) :
  (wide_exponent1 x y d).toInt = exponent x y d
  := by
  have hnonzero : (add x y d != 0 || (xddend_y y d).extractLsb' 0 3 != 0)
      = decide (total x y d ≠ 0) := by
    have hzero := fraction_is_zero_eq (d := d) x y hE
    rw [fraction_is_zero] at hzero
    rw [bne, bne, ← Bool.not_and, hzero, decide_not]
  rw [wide_exponent1, hnonzero, and_fill, exponent]
  by_cases hzero : total x y d = 0
  · rw [if_pos hzero, decide_eq_false (not_not_intro hzero)]
    apply BitVec.toInt_zero
  · rw [if_neg hzero, decide_eq_true hzero, if_pos rfl, toInt_wide_exponent x y d hE]

theorem toNat_wide_exponent2 (hE : F + 5 < 2 ^ E) :
  (wide_exponent2 x y d).toNat = (exponent x y d).toNat
  := by
  rw [wide_exponent2, toNat_nonneg, toInt_wide_exponent1 x y d hE]

/-! ### Results -/

theorem is_operand_inf_eq :
  is_operand_inf x y = decide (IsInf x ∨ IsInf y)
  := by
  rw [is_operand_inf, Bool.eq_iff_iff]
  simp only [Bool.or_eq_true, Bool.and_eq_true, beq_iff_eq, decide_eq_true_iff]
  rfl

theorem has_pos_inf_eq :
  has_pos_inf x y = decide ((IsInf x ∧ sign x = false) ∨ (IsInf y ∧ sign y = false))
  := by
  rw [has_pos_inf, Bool.eq_iff_iff]
  simp only [Bool.or_eq_true, Bool.not_eq_true', Bool.or_eq_false_iff, bne_eq_false_iff_eq,
    decide_eq_true_iff]
  rfl

theorem has_neg_inf_eq :
  has_neg_inf x y = decide ((IsInf x ∧ sign x = true) ∨ (IsInf y ∧ sign y = true))
  := by
  rw [has_neg_inf, Bool.eq_iff_iff]
  simp only [Bool.or_eq_true, Bool.and_eq_true, beq_iff_eq, decide_eq_true_iff]
  rfl

theorem is_result_nan_eq :
  is_result_nan x y = decide (IsNaN x ∨ IsNaN y ∨ (IsInf x ∧ IsInf y ∧ sign x ≠ sign y))
  := by
  rw [is_result_nan, has_pos_inf_eq, has_neg_inf_eq, Bool.eq_iff_iff]
  simp only [Bool.or_eq_true, Bool.and_eq_true, beq_iff_eq, bne_iff_ne, decide_eq_true_iff]
  change (IsNaN x ∨ IsNaN y) ∨ _ ↔ _
  cases sign x <;> cases sign y <;> simp <;> tauto

/-- The result where both arguments are finite. -/
theorem result_of_finite (hE : F + 5 < 2 ^ E) (hx : ¬ IsNaN x) (hx' : ¬ IsInf x) (hy : ¬ IsNaN y)
    (hy' : ¬ IsInf y) :
  result x y d = pack (result_sign x y d) (exponent x y d) (result_fraction x y d)
  := by
  have hnan : is_result_nan x y = false := by
    rw [is_result_nan_eq, decide_eq_false]
    tauto
  have hinf : is_operand_inf x y = false := by
    rw [is_operand_inf_eq, decide_eq_false]
    tauto
  have hzero : (wide_exponent2 x y d == 0) = decide (exponent x y d ≤ 0) := by
    have htoNat : (0 : BitVec (E + 1)).toNat = 0 := BitVec.toNat_zero
    rw [Bool.eq_iff_iff, beq_iff_eq, decide_eq_true_iff, ← BitVec.toNat_inj,
      toNat_wide_exponent2 x y d hE, htoNat]
    omega
  rw [result, result_sign2, result_exponent2, result_fraction4, result_fraction3, result_sign1,
    hnan, hinf, hzero, Bool.or_self, Bool.false_or, Bool.not_false, Bool.true_and,
    if_neg Bool.false_ne_true, if_neg Bool.false_ne_true]
  apply mk_eq_pack
  apply toNat_wide_exponent2 x y d hE

end

end FloatAdd

/-- The module `__f32add__main`. -/
def f32add (x y : BitVec 32) : BitVec 32 := FloatAdd.out (F := 23) (E := 8) x y

/-- The module `__f32sub__main`, which uses the complement of the sign of `y`. -/
def f32sub (x y : BitVec 32) : BitVec 32 :=
  FloatAdd.out (F := 23) (E := 8) x (negate (F := 23) (E := 8) y)

/-- The module `__f64add__main`. -/
def f64add (x y : BitVec 64) : BitVec 64 := FloatAdd.out (F := 52) (E := 11) x y

/-- The module `__f64sub__main`, which uses the complement of the sign of `y`. -/
def f64sub (x y : BitVec 64) : BitVec 64 :=
  FloatAdd.out (F := 52) (E := 11) x (negate (F := 52) (E := 11) y)

import SynCirc.Library.FloatAdd

/-!
# The floating-point adders round the exact sum

The sum in the circuit is the exact one rounded to odd, or it is exact because the exponents are
close, or the argument with the smaller exponent is too small to matter.  The bits that are lost do
not change the rounding, since they are only lost where the sum is shifted to the left by one place
at most.
-/

open Rounding FloatWord

namespace FloatAdd

variable {F E : Nat} (x y : BitVec (1 + E + F)) (d : BitVec E)

/-- The exact sum, in the units of the circuit and with the sign relative to that of `y`. -/
def exact : ℚ :=
  (8 * (if sign x ^^ sign y then -(significand x : Int) else significand x) : Int)
    + (8 * significand y : ℕ) / 2 ^ d.toNat

variable {d} (hd : d.toNat = (bexp x).toNat - (bexp y).toNat)
  (hle : (bexp y).toNat ≤ (bexp x).toNat)

/-! ### The exact sum -/

include hd hle in
theorem magnitude_eq :
  (magnitude y : ℚ) = significand y / 2 ^ d.toNat * 2 ^ ((bexp x).toNat - 1)
  := by
  rw [magnitude]
  by_cases hy : bexp y = 0
  · rw [significand_of_zero hy]
    simp
  · have hpos := bexp_pos hy
    have hexp : (bexp x).toNat - 1 = d.toNat + ((bexp y).toNat - 1) := by omega
    rw [hexp, pow_add]
    push_cast
    field_simp

include hd hle in
theorem value_eq :
  ((value x + value y : Int) : ℚ)
    = (if sign y then -1 else 1) * (exact x y d * 2 ^ ((bexp x).toNat - 1) / 8)
  := by
  have hmagnitude := magnitude_eq x y hd hle
  have hx : (magnitude x : ℚ) = significand x * 2 ^ ((bexp x).toNat - 1) := by
    rw [magnitude]
    push_cast
    rfl
  rw [value, value, exact]
  cases sign x <;> cases sign y <;> simp <;> rw [hx, hmagnitude] <;> ring

include hd hle in
theorem abs_value_eq :
  |((value x + value y : Int) : ℚ)| = |exact x y d| * 2 ^ ((bexp x).toNat - 1) / 8
  := by
  have hpow : (0 : ℚ) < 2 ^ ((bexp x).toNat - 1) := by positivity
  have hsign : |(if sign y then -1 else 1 : ℚ)| = 1 := by
    split <;> simp
  rw [value_eq x y hd hle, abs_mul, hsign, one_mul, abs_div, abs_mul, abs_of_pos hpow,
    abs_of_pos (show (0 : ℚ) < 8 by norm_num)]

/-! ### The sum of the circuit -/

theorem roundsToOdd_total (hE : F + 5 < 2 ^ E) (hnear : d.toNat ≤ F + 5) :
  RoundsToOdd (exact x y d) (total x y d)
  := by
  have hshift := RoundsToOdd.shift (K := ℚ) (8 * significand y) d.toNat
  have heven : Even (8 * (if sign x ^^ sign y then -(significand x : Int) else significand x)) := by
    apply Even.mul_right
    decide
  rw [exact, total, toNat_xddend_y y hE hnear, add_comm, add_comm (8 * _ : Int)]
  apply hshift.add_even heven

/-- The sum is exact where the exponents are close. -/
theorem exact_of_close (hE : F + 5 < 2 ^ E) (hclose : d.toNat ≤ 3) :
  exact x y d = total x y d
  := by
  have hdvd : 2 ^ d.toNat ∣ 8 * significand y := by
    apply Dvd.dvd.mul_right
    apply pow_dvd_pow 2 hclose
  have hpos : (0 : ℚ) < 2 ^ d.toNat := by positivity
  rw [exact, total, toNat_xddend_y y hE (by omega), if_pos (Nat.mod_eq_zero_of_dvd hdvd),
    Nat.or_zero, Int.cast_add, Int.cast_natCast]
  obtain ⟨k, hk⟩ := hdvd
  rw [hk, Nat.mul_div_cancel_left k (Nat.two_pow_pos _), Nat.cast_mul, Nat.cast_pow, Nat.cast_two,
    mul_div_cancel_left₀ _ hpos.ne']

section Far

variable (hfar : F + 5 < d.toNat)
include hfar

/-- An argument that is left out adds less than a quarter of a unit. -/
theorem exact_of_far (hE : F + 5 < 2 ^ E) :
  (total x y d : ℚ) ≤ exact x y d ∧ exact x y d < total x y d + 1 / 4
  := by
  have hlt : ((8 * significand y : ℕ) : ℚ) < 2 ^ (F + 4) := by exact_mod_cast wide_lt y
  have hpow : (2 : ℚ) ^ (F + 4) * 4 ≤ 2 ^ d.toNat := by
    rw [show (4 : ℚ) = 2 ^ 2 by norm_num, ← pow_add]
    apply pow_le_pow_right₀ one_le_two (by omega)
  have hpos : (0 : ℚ) < 2 ^ d.toNat := by positivity
  have hquotient : ((8 * significand y : ℕ) / 2 ^ d.toNat : ℚ) < 1 / 4 := by
    rw [div_lt_iff₀ hpos]
    linarith
  have hnonneg : (0 : ℚ) ≤ (8 * significand y : ℕ) / 2 ^ d.toNat := by positivity
  rw [exact, total, toNat_xddend_y_of_lt y hE hfar, Nat.cast_zero, add_zero]
  constructor <;> linarith

theorem natAbs_total_of_far (hE : F + 5 < 2 ^ E) :
  (total x y d).natAbs = 8 * significand x
  := by
  rw [total, toNat_xddend_y_of_lt y hE hfar]
  split <;> omega

theorem abs_exact_of_far (hE : F + 5 < 2 ^ E) :
  |(|exact x y d| - 8 * significand x)| < 1 / 4
  := by
  have hexact := exact_of_far x y hfar hE
  have hnatAbs : |(total x y d : ℚ)| = 8 * significand x := by
    rw [← Int.cast_abs, ← Nat.cast_natAbs, natAbs_total_of_far x y hfar hE]
    push_cast
    rfl
  rw [← hnatAbs]
  apply (abs_abs_sub_abs_le _ _).trans_lt
  rw [abs_lt]
  constructor <;> linarith

end Far

include hd in
theorem bexp_ne_zero (hpos : 0 < d.toNat) :
  bexp x ≠ 0
  := by
  intro hx
  rw [hx] at hd
  have hzero : (0 : BitVec E).toNat = 0 := BitVec.toNat_zero
  omega

include hd in
/-- At most one leading bit is cancelled where the exponents are not close. -/
theorem le_size_total (hF : F ≠ 0) (hE : F + 5 < 2 ^ E) (hd' : 3 < d.toNat) :
  F + 3 ≤ (total x y d).natAbs.size
  := by
  have hx := le_significand (bexp_ne_zero x y hd (by omega))
  have hpow : 2 ^ (F + 2) = 2 ^ F * 4 := pow_add 2 F 2
  have hsmall : (xddend_y y d).toNat < 2 ^ F := by
    rcases Nat.lt_or_ge (F + 5) d.toNat with hfar | hnear
    · rw [toNat_xddend_y_of_lt y hE hfar]
      apply Nat.two_pow_pos
    · have hlt := wide_lt y
      have hdiv : 8 * significand y / 2 ^ d.toNat < 2 ^ F := by
        rw [Nat.div_lt_iff_lt_mul (Nat.two_pow_pos _), ← Nat.pow_add]
        apply hlt.trans_le
        apply Nat.pow_le_pow_right two_pos (by omega)
      have hone : 2 ^ 1 ≤ 2 ^ F := Nat.pow_le_pow_right two_pos (Nat.pos_of_ne_zero hF)
      rw [toNat_xddend_y y hE hnear]
      apply Nat.or_lt_two_pow hdiv
      split <;> omega
  apply Nat.succ_le_of_lt
  rw [Nat.lt_size, total]
  split <;> omega

include hd in
theorem size_total_of_far (hE : F + 5 < 2 ^ E) (hfar : F + 5 < d.toNat) :
  (total x y d).natAbs.size = F + 4
  := by
  have hx := le_significand (bexp_ne_zero x y hd (by omega))
  have hx' := wide_lt x
  have hpow : 2 ^ (F + 3) = 2 ^ F * 8 := pow_add 2 F 3
  rw [natAbs_total_of_far x y hfar hE]
  apply Nat.le_antisymm
  · rw [Nat.size_le]
    apply hx'
  · apply Nat.succ_le_of_lt
    rw [Nat.lt_size]
    omega

include hd in
/-- The circuit has the sign of the exact sum. -/
theorem sign_total (hE : F + 5 < 2 ^ E) :
  (total x y d < 0 → exact x y d < 0) ∧ (total x y d = 0 → exact x y d = 0)
    ∧ (0 < total x y d → 0 < exact x y d)
  := by
  rcases Nat.lt_or_ge (F + 5) d.toNat with hfar | hnear
  · have hexact := exact_of_far x y hfar hE
    have hx := le_significand (bexp_ne_zero x y hd (by omega))
    have habs := natAbs_total_of_far x y hfar hE
    have hpos := Nat.two_pow_pos F
    refine ⟨?_, ?_, ?_⟩
    · intro hneg
      have hle : (total x y d : ℚ) ≤ -1 := by exact_mod_cast Int.le_sub_one_of_lt hneg
      linarith
    · intro hzero
      omega
    · intro hpos
      have hle : (0 : ℚ) < total x y d := by exact_mod_cast hpos
      linarith
  · have hodd := roundsToOdd_total x y hE hnear
    refine ⟨?_, ?_, ?_⟩
    · intro hneg
      have hlt := hodd.lt_of_lt hneg
      rwa [Int.cast_zero] at hlt
    · intro hzero
      rw [hzero] at hodd
      rcases hodd with h | ⟨h, -⟩
      · rw [h, Int.cast_zero]
      · simp at h
    · intro hpos
      have hlt := hodd.gt_of_gt hpos
      rwa [Int.cast_zero] at hlt

/-! ### Rounding -/

/-- The significand that is rounded, which has its leading bit at one place. -/
def significand_exact (x y : BitVec (1 + E + F)) (d : BitVec E) : ℚ :=
  |exact x y d| * 2 ^ (F + 5 - (total x y d).natAbs.size) / 16

include hd in
/-- The sum is exact, or at most one leading bit is cancelled. -/
theorem exact_or_le_size (hF : F ≠ 0) (hE : F + 5 < 2 ^ E) :
  |exact x y d| = (total x y d).natAbs ∨ F + 3 ≤ (total x y d).natAbs.size
  := by
  rcases Nat.lt_or_ge 3 d.toNat with hd' | hclose
  · right
    apply le_size_total x y hd hF hE hd'
  · left
    rw [exact_of_close x y hE hclose, Nat.cast_natAbs, Int.cast_abs]

/-- The bits that are lost do not change the rounding. -/
theorem nearestEven_of_roundsToOdd {v : ℚ} {s j N : Nat} (hodd : RoundsToOdd v j) (hs : 2 ≤ s)
    (hround : NearestEven ((j : ℚ) / 2 ^ s) N) :
  NearestEven (v / 2 ^ s) N
  := by
  apply hodd.nearestEven hs
  rw [Int.cast_natCast]
  apply hround

include hd in
theorem nearestEven_of_near (hF : F ≠ 0) (hE : F + 5 < 2 ^ E) (hnear : d.toNat ≤ F + 5) :
  NearestEven (significand_exact x y d) (rounded x y d)
  := by
  have hround := nearestEven_roundShift (K := ℚ) (shifted_fraction x y d).toNat 3
  have hodd := (roundsToOdd_total x y hE hnear).abs
  rw [← Int.natCast_natAbs] at hodd
  rw [significand_exact, rounded]
  rcases (size_total_le (d := d) x y hE).lt_or_eq with hsize | hcarry
  · rw [toNat_shifted_fraction x y hE (by omega)] at hround ⊢
    rcases exact_or_le_size x y hd hF hE with hexact | hle
    · have hscale : (|exact x y d| * 2 ^ (F + 5 - (total x y d).natAbs.size) / 16 : ℚ)
          = ((total x y d).natAbs * 2 ^ (F + 4 - (total x y d).natAbs.size) : ℕ) / 2 ^ 3 := by
        rw [hexact, show F + 5 - (total x y d).natAbs.size
          = F + 4 - (total x y d).natAbs.size + 1 by omega, pow_succ]
        push_cast
        ring
      rw [hscale]
      apply hround
    · rcases (Nat.le_of_lt_succ hsize).lt_or_eq with hlt | heq
      · -- The number is shifted by one place, and one bit less is lost when it is rounded.
        have hsize : (total x y d).natAbs.size = F + 3 := by omega
        rw [hsize, show F + 4 - (F + 3) = 1 by omega] at hround
        rw [hsize, show F + 4 - (F + 3) = 1 by omega, show F + 5 - (F + 3) = 2 by omega]
        have hround' : NearestEven (((total x y d).natAbs : ℚ) / 2 ^ 2)
            (roundShift ((total x y d).natAbs * 2 ^ 1) 3) := by
          convert hround using 1
          push_cast
          ring
        have hnear := nearestEven_of_roundsToOdd hodd le_rfl hround'
        convert hnear using 1
        ring
      · rw [heq, Nat.sub_self, pow_zero, Nat.mul_one] at hround
        rw [heq, Nat.sub_self, pow_zero, Nat.mul_one, show F + 5 - (F + 4) = 1 by omega]
        have hnear := nearestEven_of_roundsToOdd hodd (show 2 ≤ 3 by decide) hround
        convert hnear using 1
        ring
  · rw [toNat_shifted_fraction_of_carry x y hE (by omega)] at hround ⊢
    have hnear := nearestEven_of_roundsToOdd hodd.half (show 2 ≤ 3 by decide) hround
    rw [hcarry, Nat.sub_self, pow_zero, mul_one]
    convert hnear using 1
    ring

include hd in
theorem nearestEven_of_far (hE : F + 5 < 2 ^ E) (hfar : F + 5 < d.toNat) :
  NearestEven (significand_exact x y d) (rounded x y d)
  := by
  have hnatAbs := natAbs_total_of_far x y hfar hE
  have hsize := size_total_of_far x y hd hE hfar
  have habs := abs_exact_of_far x y hfar hE
  have hrounded : rounded x y d = significand x := by
    rw [rounded, toNat_shifted_fraction x y hE hsize.le, hsize, hnatAbs, Nat.sub_self, pow_zero,
      Nat.mul_one, roundShift, show 8 * significand x % 2 ^ 3 = 0 by omega]
    simp
  left
  rw [hrounded, significand_exact, hsize, show F + 5 - (F + 4) = 1 by omega]
  rw [abs_lt] at habs
  rw [← lt_div_iff₀' two_pos, abs_lt]
  constructor <;> linarith

include hd in
theorem nearestEven_rounded (hF : F ≠ 0) (hE : F + 5 < 2 ^ E) :
  NearestEven (significand_exact x y d) (rounded x y d)
  := by
  rcases Nat.lt_or_ge (F + 5) d.toNat with hfar | hnear
  · apply nearestEven_of_far x y hd hE hfar
  · apply nearestEven_of_near x y hd hF hE hnear

/-- The highest bit of a sum is in place after it is shifted. -/
theorem two_pow_mul_le {m n : Nat} (hm : m ≠ 0) (hn : m.size ≤ n) :
  2 ^ n ≤ 2 * (m * 2 ^ (n - m.size))
  := by
  have hpos : 0 < m.size := Nat.size_pos.mpr (Nat.pos_of_ne_zero hm)
  have hle : 2 ^ (m.size - 1) ≤ m := Nat.lt_size.mp (Nat.sub_lt hpos one_pos)
  calc 2 ^ n = 2 * (2 ^ (m.size - 1) * 2 ^ (n - m.size)) := by
        rw [← Nat.pow_add, ← Nat.pow_succ']
        congr 1
        omega
    _ ≤ 2 * (m * 2 ^ (n - m.size)) := Nat.mul_le_mul_left 2 (Nat.mul_le_mul_right _ hle)

theorem le_rounded (hE : F + 5 < 2 ^ E) (hzero : total x y d ≠ 0) :
  2 ^ F ≤ rounded x y d
  := by
  have hzero' : (total x y d).natAbs ≠ 0 := Int.natAbs_ne_zero.mpr hzero
  have hround := (roundShift_le (shifted_fraction x y d).toNat 3).1
  have hpow : 2 ^ (F + 4) = 2 ^ F * 16 := pow_add 2 F 4
  have hle : 2 ^ F * 8 ≤ (shifted_fraction x y d).toNat := by
    rcases Nat.lt_or_ge (F + 4) (total x y d).natAbs.size with hcarry | hsize
    · rw [toNat_shifted_fraction_of_carry x y hE hcarry]
      rw [Nat.lt_size] at hcarry
      apply le_trans _ Nat.left_le_or
      omega
    · have hle := two_pow_mul_le hzero' hsize
      rw [toNat_shifted_fraction x y hE hsize]
      omega
  rw [rounded]
  omega

include hd in
/-- The significand is not so small that the next smaller number is nearer. -/
theorem lt_significand_exact (hF : F ≠ 0) (hE : F + 5 < 2 ^ E) (hzero : total x y d ≠ 0) :
  4 * 2 ^ F - 1 < 4 * significand_exact x y d
  := by
  have hzero' : (total x y d).natAbs ≠ 0 := Int.natAbs_ne_zero.mpr hzero
  have hle : (2 : ℚ) ^ (F + 5) ≤ 2 * ((total x y d).natAbs
      * 2 ^ (F + 5 - (total x y d).natAbs.size)) := by
    exact_mod_cast two_pow_mul_le hzero' (size_total_le x y hE)
  have hpow : (2 : ℚ) ^ (F + 5) = 2 ^ F * 32 := by
    rw [pow_add]
    norm_num
  rw [hpow] at hle
  rw [significand_exact]
  rcases exact_or_le_size x y hd hF hE with hexact | hsize
  · rw [hexact]
    linarith
  · have hscale : (2 : ℚ) ^ (F + 5 - (total x y d).natAbs.size) ≤ 2 ^ 2 := by
      apply pow_le_pow_right₀ one_le_two
      omega
    have hscale' : (0 : ℚ) < 2 ^ (F + 5 - (total x y d).natAbs.size) := by positivity
    have hlt : ((total x y d).natAbs : ℚ) - 1 < |exact x y d| := by
      rcases Nat.lt_or_ge (F + 5) d.toNat with hfar | hnear
      · have habs := abs_lt.mp (abs_exact_of_far x y hfar hE)
        rw [natAbs_total_of_far x y hfar hE]
        push_cast
        linarith
      · have hodd := (roundsToOdd_total x y hE hnear).abs
        rw [← Int.natCast_natAbs] at hodd
        rcases hodd with heq | ⟨-, hlt⟩
        · rw [heq, Int.cast_natCast]
          linarith
        · rw [Int.cast_natCast, abs_lt] at hlt
          linarith
    nlinarith

/-! ### Results -/

include hd hle in
/-- The exact sum is the significand at the exponent of the result. -/
theorem abs_value_eq_significand {e : Nat} (hx : bexp x ≠ 0)
    (he : (bexp x).toNat = e + (F + 5 - (total x y d).natAbs.size)) :
  |((value x + value y : Int) : ℚ)| = significand_exact x y d * 2 ^ e
  := by
  have hpos := bexp_pos hx
  rw [abs_value_eq x y hd hle, significand_exact]
  obtain ⟨i, hi⟩ := Nat.exists_eq_add_one_of_ne_zero hpos.ne'
  rw [hi, Nat.add_sub_cancel]
  rw [hi] at he
  have hpow : (2 : ℚ) ^ i * 2 = 2 ^ e * 2 ^ (F + 5 - (total x y d).natAbs.size) := by
    rw [← pow_succ, ← pow_add, he]
  calc |exact x y d| * 2 ^ i / 8 = |exact x y d| * (2 ^ i * 2) / 16 := by ring
    _ = _ := by
      rw [hpow]
      ring

include hd hle in
theorem bexp_ne_zero_of_total (hE : F + 5 < 2 ^ E) (hzero : total x y d ≠ 0) :
  bexp x ≠ 0
  := by
  intro hx
  have hzeroNat : (0 : BitVec E).toNat = 0 := BitVec.toNat_zero
  rw [hx, hzeroNat] at hle hd
  have hy : bexp y = 0 := by
    apply BitVec.eq_of_toNat_eq
    rw [hzeroNat]
    omega
  apply hzero
  rw [total, toNat_xddend_y y hE (by omega), significand_of_zero hx, significand_of_zero hy]
  simp

include hd hle in
/-- A sum that is a normal number. -/
theorem exists_of_size_le (hF : F ≠ 0) (hE : F + 5 < 2 ^ E) (hzero : total x y d ≠ 0)
    (hsize : F + 5 - (total x y d).natAbs.size ≤ (bexp x).toNat) (s : Bool) :
  ∃ n, RoundsTo (fun n => (grid F n : ℚ)) |((value x + value y : Int) : ℚ)| n
    ∧ (FloatWord.encode s n : BitVec (1 + E + F)) = pack s (exponent x y d) (result_fraction x y d)
  := by
  obtain ⟨e, he⟩ := Nat.exists_eq_add_of_le' hsize
  have hx := bexp_ne_zero_of_total x y hd hle hE hzero
  have hpos : (0 : ℚ) < 2 ^ e := by positivity
  have hlow := lt_significand_exact x y hd hF hE hzero
  have hrounded := le_rounded x y hE hzero
  have hrounded' := rounded_le x y d
  have hpow : 2 ^ (F + 1) = 2 ^ F * 2 := pow_succ 2 F
  have hdiv : rounded x y d / 2 ^ F = (rounding_carry x y d).toNat + 1 := by
    rw [rounding_carry_eq]
    by_cases hcarry : rounded x y d = 2 ^ (F + 1)
    · rw [decide_eq_true hcarry, hcarry, hpow, Nat.mul_div_cancel_left _ (Nat.two_pow_pos F)]
      rfl
    · rw [decide_eq_false hcarry, Nat.div_eq_iff (Nat.two_pow_pos F), Bool.toNat_false]
      omega
  use e * 2 ^ F + rounded x y d
  rw [abs_value_eq_significand x y hd hle hx he]
  constructor
  · apply roundsTo_grid hF (.inl hrounded) hrounded'
    · rw [mul_div_cancel_right₀ _ hpos.ne']
      apply nearestEven_rounded x y hd hF hE
    · left
      calc (4 * 2 ^ F - 1 : ℚ) * 2 ^ e < 4 * significand_exact x y d * 2 ^ e :=
            mul_lt_mul_of_pos_right hlow hpos
        _ = 4 * (significand_exact x y d * 2 ^ e) := mul_assoc _ _ _
  · apply encode_eq_pack s hrounded
    · rw [exponent, if_neg hzero, hdiv]
      omega
    · apply toNat_result_fraction

include hd hle in
/-- A sum that is below the smallest normal number, and hence exact. -/
theorem exists_of_lt_size (hF : F ≠ 0) (hE : F + 5 < 2 ^ E) (hzero : total x y d ≠ 0)
    (hsize : (bexp x).toNat < F + 5 - (total x y d).natAbs.size) (s : Bool) :
  ∃ n, RoundsTo (fun n => (grid F n : ℚ)) |((value x + value y : Int) : ℚ)| n
    ∧ (FloatWord.encode s n : BitVec (1 + E + F)) = pack s (exponent x y d) (result_fraction x y d)
  := by
  have hx := bexp_pos (bexp_ne_zero_of_total x y hd hle hE hzero)
  have hclose : d.toNat ≤ 3 := by
    by_contra hd'
    have hsize' := le_size_total x y hd hF hE (Nat.lt_of_not_le hd')
    omega
  obtain ⟨k, hk⟩ := Nat.exists_eq_add_of_lt hsize
  obtain ⟨i, hi⟩ := Nat.exists_eq_add_one_of_ne_zero hx.ne'
  have hvalue : (total x y d).natAbs * 2 ^ i = 8 * (value x + value y).natAbs := by
    have habs := abs_value_eq x y hd hle
    rw [exact_of_close x y hE hclose, ← Int.cast_abs, ← Int.cast_abs, ← Int.natCast_natAbs,
      ← Int.natCast_natAbs, hi, Nat.add_sub_cancel] at habs
    have hcast : (((total x y d).natAbs * 2 ^ i : ℕ) : ℚ)
        = (8 * (value x + value y).natAbs : ℕ) := by
      rw [Int.cast_natCast, Int.cast_natCast] at habs
      rw [Nat.cast_mul, Nat.cast_mul, Nat.cast_pow, habs]
      push_cast
      ring
    exact_mod_cast hcast
  generalize hv : (value x + value y).natAbs = v at hvalue
  have hshifted : (shifted_fraction x y d).toNat = 8 * (v * 2 ^ (k + 1)) := by
    rw [toNat_shifted_fraction x y hE (by omega),
      show F + 4 - (total x y d).natAbs.size = i + (k + 1) by omega, Nat.pow_add, ← Nat.mul_assoc,
      hvalue, Nat.mul_assoc]
  have hrounded : rounded x y d = v * 2 ^ (k + 1) := by
    rw [rounded, hshifted, roundShift, show 8 * (v * 2 ^ (k + 1)) % 2 ^ 3 = 0 by omega]
    simp
  have hlt : v * 2 ^ (k + 1) < 2 ^ (F + 1) := by
    have hlt := (shifted_fraction x y d).isLt
    have hpow : 2 ^ (2 + F + 2) = 8 * 2 ^ (F + 1) := by ring
    rw [hshifted, hpow] at hlt
    apply Nat.lt_of_mul_lt_mul_left hlt
  have hv' : v < 2 ^ F := by
    have hpow : v * 2 ^ (k + 1) = v * 2 ^ k * 2 := by ring
    have hle := Nat.le_mul_of_pos_right v (Nat.two_pow_pos k)
    rw [hpow, pow_succ] at hlt
    omega
  have hcarry : rounding_carry x y d = false := by
    rw [rounding_carry_eq, hrounded, decide_eq_false hlt.ne]
  use v
  constructor
  · have hgrid := roundsTo_self (strictMono_grid ℚ F) v
    rw [grid, if_pos hv'] at hgrid
    rw [← Int.cast_abs, ← Int.natCast_natAbs, hv, Int.cast_natCast]
    apply hgrid
  · have hE' : E ≠ 0 := by
      rintro rfl
      omega
    rw [encode_of_lt s hv', pack_of_nonpos hE']
    rw [exponent, if_neg hzero, hcarry, Bool.toNat_false]
    omega

include hd hle in
/-- The result is rounded where both arguments are finite. -/
theorem exists_of_finite (hF : F ≠ 0) (hE : F + 5 < 2 ^ E) (s : Bool) :
  ∃ n, RoundsTo (fun n => (grid F n : ℚ)) |((value x + value y : Int) : ℚ)| n
    ∧ (FloatWord.encode s n : BitVec (1 + E + F))
      = pack s (exponent x y d) (result_fraction x y d)
  := by
  by_cases hzero : total x y d = 0
  · have hE' : E ≠ 0 := by
      rintro rfl
      omega
    have hexact := (sign_total x y hd hE).2.1 hzero
    use 0
    constructor
    · have hgrid := roundsTo_self (strictMono_grid ℚ F) 0
      rw [grid, if_pos (Nat.two_pow_pos F), Nat.cast_zero] at hgrid
      rw [abs_value_eq x y hd hle, hexact, abs_zero, zero_mul, zero_div]
      apply hgrid
    · rw [encode_of_lt s (Nat.two_pow_pos F), pack_of_nonpos hE']
      rw [exponent, if_pos hzero]
  · rcases Nat.lt_or_ge (bexp x).toNat (F + 5 - (total x y d).natAbs.size) with hlt | hge
    · apply exists_of_lt_size x y hd hle hF hE hzero hlt
    · apply exists_of_size_le x y hd hle hF hE hzero hge

include hd hle in
theorem result_sign_eq (hE : F + 5 < 2 ^ E) :
  result_sign x y d = if value x + value y = 0 then sign x && sign y
    else decide (value x + value y < 0)
  := by
  have hpos : (0 : ℚ) < 2 ^ ((bexp x).toNat - 1) / 8 := by positivity
  have hvalue := value_eq x y hd hle
  rw [mul_div_assoc] at hvalue
  obtain ⟨hneg, hzero, hpos'⟩ := sign_total x y hd hE
  rw [result_sign, fraction_is_zero_eq x y hE, getLsbD_add x y hE]
  generalize value x + value y = v at *
  rcases lt_trichotomy (total x y d) 0 with htotal | htotal | htotal
  · have hprod := mul_neg_of_neg_of_pos (hneg htotal) hpos
    rw [decide_eq_true htotal, decide_eq_false htotal.ne]
    cases hy : sign y with
    | false =>
        have hv : v < 0 := by
          rw [← Int.cast_lt_zero (R := ℚ), hvalue, hy]
          simpa using hprod
        rw [if_neg hv.ne, decide_eq_true hv]
        simp
    | true =>
        have hv : 0 < v := by
          rw [← Int.cast_pos (R := ℚ), hvalue, hy]
          simpa using hprod
        rw [if_neg hv.ne', decide_eq_false hv.not_gt]
        simp
  · have hv : v = 0 := by
      rw [hzero htotal, zero_mul, mul_zero] at hvalue
      exact_mod_cast hvalue
    rw [if_pos hv, decide_eq_false htotal.not_lt, decide_eq_true htotal]
    simp
  · have hprod := mul_pos (hpos' htotal) hpos
    rw [decide_eq_false htotal.not_gt, decide_eq_false htotal.ne']
    cases hy : sign y with
    | false =>
        have hv : 0 < v := by
          rw [← Int.cast_pos (R := ℚ), hvalue, hy]
          simpa using hprod
        rw [if_neg hv.ne', decide_eq_false hv.not_gt]
        simp
    | true =>
        have hv : v < 0 := by
          rw [← Int.cast_lt_zero (R := ℚ), hvalue, hy]
          simpa using hprod
        rw [if_neg hv.ne, decide_eq_true hv]
        simp

include hd hle in
/-- The circuit returns the rounded sum of ordered arguments. -/
theorem isSum_result (hF : F ≠ 0) (hE : F + 5 < 2 ^ E) :
  IsSum x y (result x y d)
  := by
  have hnan := is_result_nan_eq x y
  have hinf := is_operand_inf_eq x y
  have hpos := has_pos_inf_eq x y
  rw [IsSum]
  split
  case isTrue h =>
    rw [result, result_sign2, result_exponent2, result_fraction4, hnan, decide_eq_true h]
    rfl
  case isFalse h =>
    have hnan' := hnan.trans (decide_eq_false h)
    have hsigns : IsInf x → IsInf y → sign x = sign y := by
      intro hx hy
      by_contra hne
      apply h (.inr (.inr ⟨hx, hy, hne⟩))
    have hresult : ∀ s, (IsInf x ∨ IsInf y) → has_pos_inf x y = !s →
        result x y d = infinity s := by
      intro s hor hs
      rw [result, result_sign2, result_exponent2, result_fraction4, result_fraction3, result_sign1,
        and_fill, hnan', hinf, decide_eq_true hor, hs, Bool.not_not]
      rfl
    split
    case isTrue hx =>
      apply hresult _ (.inl hx)
      rw [hpos]
      cases hs : sign x with
      | false => apply decide_eq_true (.inl ⟨hx, rfl⟩)
      | true =>
          apply decide_eq_false
          rintro (⟨-, hs'⟩ | ⟨hy, hs'⟩)
          · contradiction
          · rw [← hsigns hx hy, hs] at hs'
            contradiction
    case isFalse hx =>
      split
      case isTrue hy =>
        apply hresult _ (.inr hy)
        rw [hpos]
        cases hs : sign y with
        | false => apply decide_eq_true (.inr ⟨hy, rfl⟩)
        | true =>
            apply decide_eq_false
            rintro (⟨hx', -⟩ | ⟨-, hs'⟩)
            · contradiction
            · contradiction
      case isFalse hy =>
        rw [not_or, not_or] at h
        obtain ⟨n, hn, hencode⟩ := exists_of_finite x y hd hle hF hE (result_sign x y d)
        use n, hn
        rw [result_of_finite x y d hE h.1 hx h.2.1 hy, ← hencode, result_sign_eq x y hd hle hE]

/-- The circuit returns the rounded sum. -/
theorem isSum_out (hF : F ≠ 0) (hE : F + 5 < 2 ^ E) :
  IsSum x y (out x y)
  := by
  have hresult := isSum_result (x2 x y) (y2 x y) (toNat_difference x y) (bexp_y2_le x y) hF hE
  rw [out]
  rw [x2, y2] at hresult ⊢
  cases hsum : (sum x y).getLsbD E with
  | true =>
      rw [hsum, if_pos rfl, if_pos rfl] at hresult
      rw [if_pos rfl, if_pos rfl]
      apply hresult
  | false =>
      rw [hsum, if_neg Bool.false_ne_true, if_neg Bool.false_ne_true] at hresult
      rw [if_neg Bool.false_ne_true, if_neg Bool.false_ne_true]
      apply hresult.comm

theorem isSum_iff (hF : F ≠ 0) (hE : F + 5 < 2 ^ E) {z : BitVec (1 + E + F)} :
  IsSum x y z ↔ z = out x y
  := by
  have hout := isSum_out x y hF hE
  constructor
  · intro h
    apply h.unique hout
  · rintro rfl
    apply hout

end FloatAdd

/-- The adders of both formats return the rounded sums, and the subtracters those with the number of
the other sign, and these are the only ones. -/
theorem floatAdd_isSum :
  (∀ x y out : BitVec 32, (IsSum (F := 23) (E := 8) x y out ↔ out = f32add x y)
      ∧ (IsSum (F := 23) (E := 8) x (negate (F := 23) (E := 8) y) out ↔ out = f32sub x y))
    ∧ ∀ x y out : BitVec 64, (IsSum (F := 52) (E := 11) x y out ↔ out = f64add x y)
      ∧ (IsSum (F := 52) (E := 11) x (negate (F := 52) (E := 11) y) out ↔ out = f64sub x y)
  := by
  constructor
  · intro x y out
    constructor
    · apply FloatAdd.isSum_iff (F := 23) (E := 8) x y (by decide) (by decide)
    · apply FloatAdd.isSum_iff (F := 23) (E := 8) x _ (by decide) (by decide)
  · intro x y out
    constructor
    · apply FloatAdd.isSum_iff (F := 52) (E := 11) x y (by decide) (by decide)
    · apply FloatAdd.isSum_iff (F := 52) (E := 11) x _ (by decide) (by decide)

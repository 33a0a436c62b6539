import Mathlib.Algebra.Order.Field.Basic
import Mathlib.Algebra.Order.Group.Abs
import Mathlib.Algebra.Group.Nat.Even
import Mathlib.Algebra.Ring.Int.Parity
import Mathlib.Tactic.FieldSimp
import Mathlib.Tactic.Linarith
import Mathlib.Tactic.Ring

/-!
# Rounding to the nearest value

The values of a strictly increasing sequence are the numbers that can be represented.  A number is
rounded to the nearest one of them, and between two nearest ones to the one at the even position
(`RoundsTo`).  A number has one such value (`RoundsTo.unique`), and it suffices to compare it with
the middles between neighbours (`roundsTo_of_neighbours`).

For the integers this is `NearestEven`.  A number may first be rounded to an integer that is odd
unless it is exact (`RoundsToOdd`), since such an integer lies on the same side of every even
number.
-/

namespace Rounding

variable {K : Type*} [Field K] [LinearOrder K] [IsStrictOrderedRing K]

/-! ### Sequences of values -/

/-- `g n` is the nearest value to `v`, or one of two nearest ones and `n` is even. -/
def RoundsTo (g : ℕ → K) (v : K) (n : ℕ) : Prop :=
  ∀ m, m ≠ n → |v - g n| < |v - g m| ∨ (|v - g n| = |v - g m| ∧ Even n)

/-- Above the middle of two numbers the larger one is nearer. -/
theorem abs_sub_lt_of_lt_two_mul {a b v : K} (hab : a < b) (hv : a + b < 2 * v) :
  |v - b| < |v - a|
  := by
  rw [abs_of_pos (show 0 < v - a by linarith), abs_lt]
  constructor <;> linarith

/-- Below the middle of two numbers the smaller one is nearer. -/
theorem abs_sub_lt_of_two_mul_lt {a b v : K} (hab : a < b) (hv : 2 * v < a + b) :
  |v - a| < |v - b|
  := by
  rw [abs_of_neg (show v - b < 0 by linarith), abs_lt]
  constructor <;> linarith

/-- In the middle of two numbers both are equally near. -/
theorem abs_sub_eq_of_two_mul_eq {a b v : K} (hv : 2 * v = a + b) :
  |v - a| = |v - b|
  := by
  rw [show v - a = -(v - b) by linarith, abs_neg]

section

variable {g : ℕ → K} (hg : StrictMono g) {v : K}
include hg

/-- A number is rounded to a value if it is not beyond the middles to its neighbours, and only at an
even position on a middle. -/
theorem roundsTo_of_neighbours {n : ℕ}
    (hlow : ∀ k, k + 1 = n → g k + g n < 2 * v ∨ (2 * v = g k + g n ∧ Even n))
    (hhigh : 2 * v < g n + g (n + 1) ∨ (2 * v = g n + g (n + 1) ∧ Even n)) :
  RoundsTo g v n
  := by
  intro m hm
  rcases Nat.lt_or_gt_of_ne hm with hlt | hgt
  · obtain ⟨k, rfl⟩ := Nat.exists_eq_add_one_of_ne_zero (Nat.ne_zero_of_lt hlt)
    have hle : g m ≤ g k := hg.monotone (Nat.le_of_lt_succ hlt)
    have hmn := hg hlt
    rcases hlow k rfl with hv | ⟨hv, heven⟩
    · left
      apply abs_sub_lt_of_lt_two_mul hmn
      linarith
    · rcases hle.lt_or_eq with hlt' | heq
      · left
        apply abs_sub_lt_of_lt_two_mul hmn
        linarith
      · right
        rw [heq]
        exact ⟨(abs_sub_eq_of_two_mul_eq hv).symm, heven⟩
  · have hle : g (n + 1) ≤ g m := hg.monotone hgt
    have hnm := hg hgt
    rcases hhigh with hv | ⟨hv, heven⟩
    · left
      apply abs_sub_lt_of_two_mul_lt hnm
      linarith
    · rcases hle.lt_or_eq with hlt' | heq
      · left
        apply abs_sub_lt_of_two_mul_lt hnm
        linarith
      · right
        rw [← heq]
        exact ⟨abs_sub_eq_of_two_mul_eq hv, heven⟩

/-- A value is rounded to itself. -/
theorem roundsTo_self (n : ℕ) :
  RoundsTo g (g n) n
  := by
  intro m hm
  left
  rw [sub_self, abs_zero, abs_pos, sub_ne_zero]
  apply hg.injective.ne hm.symm

/-- A number below a value is not rounded to a larger one. -/
theorem RoundsTo.le {n k : ℕ} (h : RoundsTo g v n) (hv : v ≤ g k) :
  n ≤ k
  := by
  by_contra hlt
  have hkn : g k < g n := hg (Nat.lt_of_not_le hlt)
  have hnear := abs_sub_lt_of_two_mul_lt hkn (show 2 * v < g k + g n by linarith)
  rcases h k (Nat.ne_of_lt (Nat.lt_of_not_le hlt)) with h | ⟨h, -⟩
  · apply lt_asymm h hnear
  · apply hnear.ne h.symm

/-- A number is rounded to one value. -/
theorem RoundsTo.unique {n n' : ℕ} (h : RoundsTo g v n) (h' : RoundsTo g v n') :
  n = n'
  := by
  by_contra hne
  wlog hlt : n < n' generalizing n n'
  · apply this h' h (Ne.symm hne)
    omega
  have hnn := hg hlt
  -- Both are equally near and at even positions, so that the position after `n` is between them.
  have hnot : ¬ |v - g n'| < |v - g n| := by
    intro hlt'
    rcases h n' (Ne.symm hne) with h | ⟨h, -⟩
    · apply lt_asymm h hlt'
    · apply hlt'.ne h.symm
  rcases h' n hne with h' | ⟨heq, heven'⟩
  · contradiction
  · rcases h n' (Ne.symm hne) with h | ⟨-, heven⟩
    · apply h.ne heq.symm
    · have hmiddle : 2 * v = g n + g n' := by
        rcases abs_eq_abs.mp heq with heq | heq <;> linarith
      have hsucc : n + 1 < n' := by
        apply Nat.lt_of_le_of_ne hlt
        rintro rfl
        rw [Nat.even_add_one] at heven'
        contradiction
      have hlow := hg (Nat.lt_succ_self n)
      have hhigh := hg hsucc
      have hnear := abs_sub_lt_of_lt_two_mul hlow (show g n + g (n + 1) < 2 * v by linarith)
      rcases h (n + 1) (Nat.succ_ne_self n) with h | ⟨h, -⟩
      · apply lt_asymm h hnear
      · apply hnear.ne h.symm

/-- A number between values is rounded to some value. -/
theorem exists_roundsTo (hv : g 0 ≤ v) (hbound : ∃ n, v < g n) :
  ∃ n, RoundsTo g v n
  := by
  classical
  have hfind := Nat.find_spec hbound
  obtain ⟨n, hn⟩ : ∃ n, Nat.find hbound = n + 1 := by
    apply Nat.exists_eq_add_one_of_ne_zero
    intro hzero
    rw [hzero] at hfind
    apply hfind.not_ge hv
  have hle : g n ≤ v := not_lt.mp (Nat.find_min hbound (by omega))
  rw [hn] at hfind
  have hlow : ∀ k, k + 1 = n → g k < g n := fun k hk => hg (by omega)
  have hhigh := hg (Nat.lt_succ_self (n + 1))
  rcases lt_trichotomy (2 * v) (g n + g (n + 1)) with hv | hv | hv
  · use n
    apply roundsTo_of_neighbours hg _ (.inl hv)
    intro k hk
    left
    linarith [hlow k hk]
  · rcases Nat.even_or_odd n with heven | hodd
    · use n
      apply roundsTo_of_neighbours hg _ (.inr ⟨hv, heven⟩)
      intro k hk
      left
      linarith [hlow k hk]
    · use n + 1
      apply roundsTo_of_neighbours hg
      · intro k hk
        obtain rfl : k = n := by omega
        exact .inr ⟨hv, hodd.add_one⟩
      · left
        linarith
  · use n + 1
    apply roundsTo_of_neighbours hg
    · intro k hk
      obtain rfl : k = n := by omega
      exact .inl hv
    · left
      linarith

end

/-! ### Integers -/

/-- `n` is the nearest integer to `w`, or one of two nearest ones and even. -/
def NearestEven (w : K) (n : ℕ) : Prop := 2 * |w - n| < 1 ∨ (2 * |w - n| = 1 ∧ Even n)

/-- A natural number divided by a power of two and rounded. -/
def roundShift (m s : ℕ) : ℕ :=
  m / 2 ^ s
    + if 2 ^ s < 2 * (m % 2 ^ s) ∨ (2 * (m % 2 ^ s) = 2 ^ s ∧ m / 2 ^ s % 2 = 1) then 1 else 0

theorem roundShift_le (m s : ℕ) :
  m / 2 ^ s ≤ roundShift m s ∧ roundShift m s ≤ m / 2 ^ s + 1
  := by
  rw [roundShift]
  split <;> omega

theorem nearestEven_roundShift (m s : ℕ) :
  NearestEven ((m : K) / 2 ^ s) (roundShift m s)
  := by
  have hpos : (0 : K) < 2 ^ s := by positivity
  have hm : (m : K) = 2 ^ s * (m / 2 ^ s : ℕ) + (m % 2 ^ s : ℕ) := by
    exact_mod_cast (Nat.div_add_mod m (2 ^ s)).symm
  have hdiv : (m : K) / 2 ^ s = (m / 2 ^ s : ℕ) + (m % 2 ^ s : ℕ) / 2 ^ s := by
    rw [div_eq_iff hpos.ne', add_mul, div_mul_cancel₀ _ hpos.ne', hm]
    ring
  rw [NearestEven, roundShift, hdiv]
  have hrem : m % 2 ^ s < 2 ^ s := Nat.mod_lt m (Nat.two_pow_pos s)
  generalize m / 2 ^ s = q at *
  generalize m % 2 ^ s = r at *
  have hlow : (0 : K) ≤ r / 2 ^ s := by positivity
  have hhigh : (r : K) / 2 ^ s < 1 := by
    rw [div_lt_one hpos]
    exact_mod_cast hrem
  rcases lt_trichotomy (2 * r) (2 ^ s) with hr | hr | hr
  · have hhalf : 2 * ((r : K) / 2 ^ s) < 1 := by
      rw [← mul_div_assoc, div_lt_one hpos]
      exact_mod_cast hr
    left
    rw [if_neg (by omega), Nat.add_zero, add_sub_cancel_left, abs_of_nonneg hlow]
    apply hhalf
  · have hhalf : 2 * ((r : K) / 2 ^ s) = 1 := by
      rw [← mul_div_assoc, div_eq_one_iff_eq hpos.ne']
      exact_mod_cast hr
    right
    rcases Nat.even_or_odd q with heven | hodd
    · have hif : ¬ (2 ^ s < 2 * r ∨ (2 * r = 2 ^ s ∧ q % 2 = 1)) := by
        rw [Nat.even_iff] at heven
        omega
      rw [if_neg hif, Nat.add_zero, add_sub_cancel_left, abs_of_nonneg hlow]
      exact ⟨hhalf, heven⟩
    · rw [if_pos (.inr ⟨hr, Nat.odd_iff.mp hodd⟩), Nat.cast_add_one, add_sub_add_left_eq_sub,
        abs_of_neg (by linarith)]
      exact ⟨by linarith, hodd.add_one⟩
  · have hhalf : 1 < 2 * ((r : K) / 2 ^ s) := by
      rw [← mul_div_assoc, one_lt_div hpos]
      exact_mod_cast hr
    left
    rw [if_pos (.inl hr), Nat.cast_add_one, add_sub_add_left_eq_sub, abs_of_neg (by linarith)]
    linarith

/-- The highest bit that a number may have. -/
theorem testBit_top {m i : ℕ} (h : m < 2 ^ (i + 1)) :
  m.testBit i = decide (2 ^ i ≤ m)
  := by
  rw [Nat.testBit_eq_decide_div_mod_eq]
  rw [Nat.pow_succ] at h
  congr 1
  rcases Nat.lt_or_ge m (2 ^ i) with hlt | hge
  · rw [Nat.div_eq_of_lt hlt]
    simpa using hlt
  · have hdiv : m / 2 ^ i = 1 := by
      rw [Nat.div_eq_iff (Nat.two_pow_pos i)]
      omega
    rw [hdiv]
    simpa using hge

/-- The bits below a position decide whether a number is rounded up there. -/
theorem roundUp_eq (m t : ℕ) :
  (m.testBit t && m % 2 ^ t != 0 || m.testBit t && m % 2 ^ t == 0 && m.testBit (t + 1))
    = decide (2 ^ (t + 1) < 2 * (m % 2 ^ (t + 1))
      ∨ (2 * (m % 2 ^ (t + 1)) = 2 ^ (t + 1) ∧ m / 2 ^ (t + 1) % 2 = 1))
  := by
  have hlt := Nat.mod_lt m (Nat.two_pow_pos t)
  have hmod : m % 2 ^ (t + 1) = m % 2 ^ t + 2 ^ t * (m / 2 ^ t % 2) := Nat.mod_pow_succ
  have hpow : 2 ^ (t + 1) = 2 ^ t * 2 := pow_succ 2 t
  rw [Nat.testBit_eq_decide_div_mod_eq, Nat.testBit_eq_decide_div_mod_eq, Bool.eq_iff_iff]
  simp only [Bool.or_eq_true, Bool.and_eq_true, decide_eq_true_eq, bne_iff_ne, beq_iff_eq]
  rcases Nat.mod_two_eq_zero_or_one (m / 2 ^ t) with hbit | hbit <;> rw [hbit] at hmod <;> omega

/-! ### Rounding to odd -/

/-- `j` is the number itself, or an odd integer next to it. -/
def RoundsToOdd (v : K) (j : ℤ) : Prop := v = j ∨ (Odd j ∧ |v - j| < 1)

namespace RoundsToOdd

variable {v : K} {j : ℤ}

omit [IsStrictOrderedRing K] in
theorem neg (h : RoundsToOdd v j) :
  RoundsToOdd (-v) (-j)
  := by
  rcases h with rfl | ⟨hodd, hlt⟩
  · left
    rw [Int.cast_neg]
  · right
    rw [Int.cast_neg, ← neg_sub', abs_neg, odd_neg]
    exact ⟨hodd, hlt⟩

omit [IsStrictOrderedRing K] in
/-- An even number is added. -/
theorem add_even (h : RoundsToOdd v j) {e : ℤ} (he : Even e) :
  RoundsToOdd (v + e) (j + e)
  := by
  rcases h with rfl | ⟨hodd, hlt⟩
  · left
    rw [Int.cast_add]
  · right
    rw [Int.cast_add, add_sub_add_right_eq_sub]
    exact ⟨hodd.add_even he, hlt⟩

/-- The number is on the same side of another integer. -/
theorem lt_of_lt (h : RoundsToOdd v j) {e : ℤ} (hj : j < e) :
  v < e
  := by
  rcases h with rfl | ⟨hodd, hlt⟩
  · exact_mod_cast hj
  · have hle : (j : K) + 1 ≤ e := by exact_mod_cast hj
    linarith [(abs_lt.mp hlt).2]

theorem gt_of_gt (h : RoundsToOdd v j) {e : ℤ} (hj : e < j) :
  (e : K) < v
  := by
  have hneg := h.neg.lt_of_lt (neg_lt_neg hj)
  rw [Int.cast_neg] at hneg
  apply neg_lt_neg_iff.mp hneg

theorem abs (h : RoundsToOdd v j) :
  RoundsToOdd |v| |j|
  := by
  rcases lt_trichotomy j 0 with hj | rfl | hj
  · have hv := h.lt_of_lt hj
    rw [Int.cast_zero] at hv
    rw [abs_of_neg hv, abs_of_neg hj]
    apply h.neg
  · rcases h with rfl | ⟨hodd, -⟩
    · left
      simp
    · simp at hodd
  · have hv := h.gt_of_gt hj
    rw [Int.cast_zero] at hv
    rw [abs_of_pos hv, abs_of_pos hj]
    apply h

/-- A number and its rounding to odd have the same nearest even multiple of a power of two, if the
middles are even. -/
theorem nearestEven {s n : ℕ} (h : RoundsToOdd v j) (hs : 2 ≤ s)
    (hnear : NearestEven ((j : K) / 2 ^ s) n) :
  NearestEven (v / 2 ^ s) n
  := by
  obtain ⟨t, rfl⟩ := Nat.exists_eq_add_of_le' (Nat.le_of_succ_le hs)
  have hpos : (0 : K) < 2 ^ (t + 1) := by positivity
  have hscale : ∀ w : K, 2 * |w / 2 ^ (t + 1) - n| = |w - n * 2 ^ (t + 1)| / 2 ^ t := by
    intro w
    rw [div_sub' hpos.ne', abs_div, abs_of_pos hpos, mul_comm (2 ^ (t + 1) : K), pow_succ]
    field_simp
  rw [NearestEven, hscale, div_lt_one (by positivity), div_eq_one_iff_eq (by positivity)] at hnear
  rw [NearestEven, hscale, div_lt_one (by positivity), div_eq_one_iff_eq (by positivity)]
  rcases h with rfl | ⟨hodd, hlt⟩
  · apply hnear
  · left
    -- The middles around `n` are even, and so none of them is the odd integer.
    have heven : ∀ k : ℤ, Even (k * 2 ^ t) := by
      intro k
      apply Even.mul_left
      apply even_two.pow_of_ne_zero
      omega
    have hle : |j - n * 2 ^ (t + 1)| ≤ 2 ^ t := by
      have hle : |(j : K) - n * 2 ^ (t + 1)| ≤ 2 ^ t := by
        rcases hnear with h | ⟨h, -⟩
        · apply h.le
        · apply h.le
      exact_mod_cast hle
    have hne : ∀ k : ℤ, j ≠ k * 2 ^ t := by
      rintro k rfl
      rw [← Int.not_even_iff_odd] at hodd
      apply hodd (heven k)
    rw [abs_le] at hle
    have hhigh : j < (2 * n + 1) * 2 ^ t := by
      apply lt_of_le_of_ne _ (hne _)
      rw [pow_succ] at hle
      linarith [hle.2]
    have hlow : (2 * n - 1) * 2 ^ t < j := by
      apply lt_of_le_of_ne _ (hne _).symm
      rw [pow_succ] at hle
      linarith [hle.1]
    have h : RoundsToOdd v j := .inr ⟨hodd, hlt⟩
    have hv := h.lt_of_lt hhigh
    have hv' := h.gt_of_gt hlow
    push_cast at hv hv'
    rw [abs_lt, pow_succ]
    constructor <;> linarith

theorem or_one (k : ℕ) :
  k ||| 1 = 2 * (k / 2) + 1
  := by
  apply Nat.eq_of_testBit_eq
  intro i
  cases i with
  | zero => simp
  | succ i =>
      rw [Nat.testBit_succ, Nat.testBit_succ, Nat.or_div_two, Nat.mul_add_div two_pos]
      simp

/-- A number that is not an integer. -/
theorem of_floor {k : ℕ} (hlow : k < v) (hhigh : v < k + 1) :
  RoundsToOdd v (k ||| 1 : ℕ)
  := by
  have hodd : Odd (k ||| 1) := by
    rw [or_one]
    apply odd_two_mul_add_one
  have hle : k ≤ k ||| 1 ∧ k ||| 1 ≤ k + 1 := by
    rw [or_one]
    omega
  have hle₁ : (k : K) ≤ (k ||| 1 : ℕ) := by exact_mod_cast hle.1
  have hle₂ : ((k ||| 1 : ℕ) : K) ≤ k + 1 := by exact_mod_cast hle.2
  right
  rw [Int.odd_coe_nat, Int.cast_natCast, abs_lt]
  refine ⟨hodd, ?_, ?_⟩ <;> linarith

/-- A natural number is shifted to the right, and the bits that are lost are collected in the last
one. -/
theorem shift (m d : ℕ) :
  RoundsToOdd ((m : K) / 2 ^ d) (m / 2 ^ d ||| if m % 2 ^ d = 0 then 0 else 1 : ℕ)
  := by
  have hpos : (0 : K) < 2 ^ d := by positivity
  have hm : (m : K) = 2 ^ d * (m / 2 ^ d : ℕ) + (m % 2 ^ d : ℕ) := by
    exact_mod_cast (Nat.div_add_mod m (2 ^ d)).symm
  rcases Nat.eq_zero_or_pos (m % 2 ^ d) with hzero | hlt
  · left
    rw [hzero, Nat.cast_zero, add_zero] at hm
    rw [if_pos hzero, Nat.or_zero, Int.cast_natCast, hm, mul_div_cancel_left₀ _ hpos.ne']
  · rw [if_neg hlt.ne']
    have hrem : ((m % 2 ^ d : ℕ) : K) < 2 ^ d := by
      exact_mod_cast Nat.mod_lt m (Nat.two_pow_pos d)
    have hrem₀ : (0 : K) < (m % 2 ^ d : ℕ) := by exact_mod_cast hlt
    apply of_floor
    · rw [lt_div_iff₀ hpos]
      linarith
    · rw [div_lt_iff₀ hpos]
      linarith

/-- A number is halved, and the bit that is lost is kept in the last one. -/
theorem half {j : ℕ} (h : RoundsToOdd v j) :
  RoundsToOdd (v / 2) (j / 2 ||| j % 2 : ℕ)
  := by
  rcases Nat.mod_two_eq_zero_or_one j with heven | hodd
  · left
    rcases h with rfl | ⟨hodd, -⟩
    · have hj : (j : K) = 2 * (j / 2 : ℕ) := by
        exact_mod_cast (Nat.mul_div_cancel' (Nat.dvd_of_mod_eq_zero heven)).symm
      rw [heven, Nat.or_zero, Int.cast_natCast, Int.cast_natCast, hj,
        mul_div_cancel_left₀ _ two_ne_zero]
    · rw [Int.odd_coe_nat, Nat.odd_iff] at hodd
      omega
  · rw [hodd]
    have hj : (j : K) = 2 * (j / 2 : ℕ) + 1 := by
      exact_mod_cast (show j = 2 * (j / 2) + 1 by omega)
    have hnear : |v - j| < 1 := by
      rcases h with rfl | ⟨-, hlt⟩
      · simp
      · rw [Int.cast_natCast] at hlt
        apply hlt
    rw [abs_lt] at hnear
    apply of_floor <;> linarith

end RoundsToOdd

end Rounding

import SynCirc.Rounding.Grid
import Mathlib.Data.Rat.Cast.Order

/-!
# The floating-point words of the library

A word has a sign, an exponent of `E` bits and a fraction of `F` bits.  The circuits read the words
with exponent 0 as zeros, and they never return a word with exponent 0 and another fraction than 0.
The result of an operation is the exact one, rounded to the nearest number with ties to even, where
the numbers below the smallest normal one become zero and those that are too large become infinite
(`FloatWord.encode`).  Magnitudes are counted in units of the smallest positive number.
-/

open Rounding

/-- All bits of a word are the given one. -/
def fill (n : Nat) (b : Bool) : BitVec n := if b then BitVec.allOnes n else 0

theorem and_fill {n : Nat} (x : BitVec n) (b : Bool) :
  x &&& fill n b = if b then x else 0
  := by
  cases b with
  | false => simp [fill]
  | true => simp [fill]

/-- The bit of a word at the lowest position. -/
theorem toNat_lowest {n w : Nat} (z : BitVec n) (hw : 0 < w) :
  ((BitVec.ofBool (z.getLsbD 0)).setWidth w).toNat = z.toNat % 2
  := by
  rw [BitVec.toNat_setWidth, BitVec.toNat_ofBool, BitVec.getLsbD, Nat.testBit_zero,
    Nat.mod_eq_of_lt]
  · rcases Nat.mod_two_eq_zero_or_one z.toNat with h | h <;> simp [h]
  · apply (Bool.toNat_lt _).trans_le
    apply Nat.pow_le_pow_right two_pos hw

/-- The lowest bits of a word are zero. -/
theorem extractLsb'_beq_zero {n : Nat} (z : BitVec n) (k : Nat) :
  (z.extractLsb' 0 k == 0) = (z.toNat % 2 ^ k == 0)
  := by
  rw [Bool.eq_iff_iff, beq_iff_eq, beq_iff_eq, ← BitVec.toNat_inj, BitVec.extractLsb'_toNat,
    Nat.shiftRight_zero]
  rfl

/-- The sum of signed numbers that fits in the word. -/
theorem toInt_add_of_fits {n : Nat} {x y : BitVec (n + 1)} {i j : Int} (hx : x.toInt = i)
    (hy : y.toInt = j) (hlow : -2 ^ n ≤ i + j) (hhigh : i + j < 2 ^ n) :
  (x + y).toInt = i + j
  := by
  rw [BitVec.toInt_add, hx, hy]
  apply Int.bmod_eq_of_le_mul_two
  · push_cast
    rw [pow_succ]
    omega
  · push_cast
    rw [pow_succ]
    omega

/-- The difference of signed numbers that fits in the word. -/
theorem toInt_sub_of_fits {n : Nat} {x y : BitVec (n + 1)} {i j : Int} (hx : x.toInt = i)
    (hy : y.toInt = j) (hlow : -2 ^ n ≤ i - j) (hhigh : i - j < 2 ^ n) :
  (x - y).toInt = i - j
  := by
  rw [BitVec.toInt_sub, hx, hy]
  apply Int.bmod_eq_of_le_mul_two
  · push_cast
    rw [pow_succ]
    omega
  · push_cast
    rw [pow_succ]
    omega

/-- An unsigned number that is also the signed one. -/
theorem toInt_of_lt {n : Nat} {x : BitVec (n + 1)} {m : Nat} (hx : x.toNat = m) (hm : m < 2 ^ n) :
  x.toInt = m
  := by
  rw [BitVec.toInt_eq_toNat_cond, hx, if_pos]
  rw [Nat.pow_succ]
  omega

/-- The positive part of a signed number. -/
theorem toNat_and_fill {n : Nat} (z : BitVec (n + 1)) {b : Bool} (hpos : 0 < z.toInt → b = true)
    (hneg : z.toInt < 0 → b = false) :
  (z.extractLsb' 0 n &&& fill n b).toNat = z.toInt.toNat
  := by
  have hlt := z.isLt
  rw [Nat.pow_succ] at hlt
  have hcond := BitVec.toInt_eq_toNat_cond z
  rw [Nat.pow_succ] at hcond
  rcases lt_trichotomy z.toInt 0 with hz | hz | hz
  · have hzero : (0 : BitVec n).toNat = 0 := BitVec.toNat_zero
    rw [and_fill, hneg hz, if_neg Bool.false_ne_true, hzero]
    omega
  · have hzero : z.toNat = 0 := by omega
    rw [BitVec.toNat_and, BitVec.extractLsb'_toNat, Nat.shiftRight_zero, hzero, Nat.zero_mod,
      Nat.zero_and]
    omega
  · rw [and_fill, hpos hz, if_pos rfl, BitVec.extractLsb'_toNat, Nat.shiftRight_zero,
      Nat.mod_eq_of_lt (by omega)]
    omega

theorem toNat_positive {n : Nat} (z : BitVec (n + 1)) :
  (z.extractLsb' 0 n &&& fill n ((0 : BitVec (n + 1)).slt z)).toNat = z.toInt.toNat
  := by
  have hzero : (0 : BitVec (n + 1)).toInt = 0 := BitVec.toInt_zero
  rw [BitVec.slt_eq_decide, hzero]
  apply toNat_and_fill z
  · apply decide_eq_true
  · intro hz
    apply decide_eq_false hz.not_gt

theorem toNat_nonneg {n : Nat} (z : BitVec (n + 1)) :
  (z.extractLsb' 0 n &&& fill n (!z.getLsbD n)).toNat = z.toInt.toNat
  := by
  have hsign : z.getLsbD n = decide (z.toInt < 0) := by
    rw [← BitVec.msb_eq_toInt, BitVec.msb_eq_getLsbD_last, Nat.add_sub_cancel]
  rw [hsign]
  apply toNat_and_fill z
  · intro hz
    rw [decide_eq_false hz.not_gt, Bool.not_false]
  · intro hz
    rw [decide_eq_true hz, Bool.not_true]

/-- The exponent does not fit in its part of the word. -/
theorem overflow_eq {n : Nat} (r : BitVec (n + 1)) :
  (r.getLsbD n || r.extractLsb' 0 n == BitVec.allOnes n) = decide (2 ^ n - 1 ≤ r.toNat)
  := by
  have hlt := r.isLt
  have hmod := Nat.mod_add_div r.toNat (2 ^ n)
  have hpos := Nat.two_pow_pos n
  have hrem := Nat.mod_lt r.toNat hpos
  rw [BitVec.getLsbD, testBit_top hlt, Bool.eq_iff_iff, Bool.or_eq_true, decide_eq_true_iff,
    decide_eq_true_iff, beq_iff_eq, ← BitVec.toNat_inj, BitVec.extractLsb'_toNat,
    Nat.shiftRight_zero, BitVec.toNat_allOnes]
  rcases Nat.lt_or_ge r.toNat (2 ^ n) with hr | hr
  · rw [Nat.mod_eq_of_lt hr]
    omega
  · omega

namespace FloatWord

variable {F E : Nat}

/-! ### Words -/

section

variable (x : BitVec (1 + E + F))

def fraction : BitVec F := x.extractLsb' 0 F

def bexp : BitVec E := x.extractLsb' F E

def sign : Bool := x.getLsbD (E + F)

def IsNaN : Prop := bexp x = BitVec.allOnes E ∧ fraction x ≠ 0

def IsInf : Prop := bexp x = BitVec.allOnes E ∧ fraction x = 0

def IsZero : Prop := bexp x = 0

instance : Decidable (IsNaN x) := inferInstanceAs (Decidable (_ ∧ _))

instance : Decidable (IsInf x) := inferInstanceAs (Decidable (_ ∧ _))

instance : Decidable (IsZero x) := inferInstanceAs (Decidable (_ = _))

/-- The fraction with the leading bit. -/
def significand : Nat := if bexp x = 0 then 0 else 2 ^ F + (fraction x).toNat

/-- The absolute value, in units of the smallest positive number. -/
def magnitude : Nat := significand x * 2 ^ ((bexp x).toNat - 1)

/-- The value, in units of the smallest positive number. -/
def value : Int := if sign x then -magnitude x else magnitude x

end

/-- The word with the given parts. -/
def mk (sign : Bool) (exp : BitVec E) (fraction : BitVec F) : BitVec (1 + E + F) :=
  BitVec.ofBool sign ++ exp ++ fraction

/-- The number with the other sign. -/
def negate (x : BitVec (1 + E + F)) : BitVec (1 + E + F) := mk (!sign x) (bexp x) (fraction x)

/-- The word that the circuits return where there is no number. -/
def nan : BitVec (1 + E + F) := mk false (BitVec.allOnes E) (BitVec.ofNat F (2 ^ (F - 1)))

def infinity (sign : Bool) : BitVec (1 + E + F) := mk sign (BitVec.allOnes E) 0

/-- The number at a position of the grid of floating-point numbers, with a sign. -/
def encode (sign : Bool) (n : Nat) : BitVec (1 + E + F) :=
  if n < 2 ^ F then mk sign 0 0
  else if (2 ^ E - 1) * 2 ^ F ≤ n then infinity sign
  else mk sign (BitVec.ofNat E (n / 2 ^ F)) (BitVec.ofNat F n)

/-- The word with a signed exponent, which may not fit in its part of the word. -/
def pack (sign : Bool) (exp : Int) (fraction : BitVec F) : BitVec (1 + E + F) :=
  if 2 ^ E - 1 ≤ exp.toNat then infinity sign
  else if exp ≤ 0 then mk sign 0 0
  else mk sign (BitVec.ofNat E exp.toNat) fraction

/-- The largest exponent of a number below 2. -/
def bias (E : Nat) : Nat := 2 ^ (E - 1) - 1

/-! ### Operations -/

/-- `out` is the rounded product. -/
def IsProduct (x y out : BitVec (1 + E + F)) : Prop :=
  if IsNaN x ∨ IsNaN y ∨ (IsInf x ∧ IsZero y) ∨ (IsZero x ∧ IsInf y) then out = nan
  else if IsInf x ∨ IsInf y then out = infinity (sign x ^^ sign y)
  else ∃ n, RoundsTo (fun n => (grid F n : ℚ))
      (magnitude x * magnitude y / 2 ^ (bias E + F - 1)) n
    ∧ out = encode (sign x ^^ sign y) n

/-- `out` is the rounded sum. -/
def IsSum (x y out : BitVec (1 + E + F)) : Prop :=
  if IsNaN x ∨ IsNaN y ∨ (IsInf x ∧ IsInf y ∧ sign x ≠ sign y) then out = nan
  else if IsInf x then out = infinity (sign x)
  else if IsInf y then out = infinity (sign y)
  else ∃ n, RoundsTo (fun n => (grid F n : ℚ)) |((value x + value y : Int) : ℚ)| n
    ∧ out = encode (if value x + value y = 0 then sign x && sign y
        else decide (value x + value y < 0)) n

theorem IsProduct.unique {x y out out' : BitVec (1 + E + F)} (h : IsProduct x y out)
    (h' : IsProduct x y out') :
  out = out'
  := by
  rw [IsProduct] at h h'
  split at h
  case isTrue hnan =>
    rw [if_pos hnan] at h'
    rw [h, h']
  case isFalse hnan =>
    rw [if_neg hnan] at h'
    split at h
    case isTrue hinf =>
      rw [if_pos hinf] at h'
      rw [h, h']
    case isFalse hinf =>
      rw [if_neg hinf] at h'
      obtain ⟨n, hn, rfl⟩ := h
      obtain ⟨n', hn', rfl⟩ := h'
      rw [hn.unique (strictMono_grid ℚ F) hn']

theorem IsSum.unique {x y out out' : BitVec (1 + E + F)} (h : IsSum x y out)
    (h' : IsSum x y out') :
  out = out'
  := by
  rw [IsSum] at h h'
  split at h
  case isTrue hnan =>
    rw [if_pos hnan] at h'
    rw [h, h']
  case isFalse hnan =>
    rw [if_neg hnan] at h'
    split at h
    case isTrue hx =>
      rw [if_pos hx] at h'
      rw [h, h']
    case isFalse hx =>
      rw [if_neg hx] at h'
      split at h
      case isTrue hy =>
        rw [if_pos hy] at h'
        rw [h, h']
      case isFalse hy =>
        rw [if_neg hy] at h'
        obtain ⟨n, hn, rfl⟩ := h
        obtain ⟨n', hn', rfl⟩ := h'
        rw [hn.unique (strictMono_grid ℚ F) hn']

theorem IsSum.comm {x y out : BitVec (1 + E + F)} (h : IsSum x y out) :
  IsSum y x out
  := by
  have hsymm : (IsNaN y ∨ IsNaN x ∨ (IsInf y ∧ IsInf x ∧ sign y ≠ sign x))
      ↔ (IsNaN x ∨ IsNaN y ∨ (IsInf x ∧ IsInf y ∧ sign x ≠ sign y)) := by
    rw [or_left_comm, and_left_comm, ne_comm]
  rw [IsSum] at h ⊢
  simp only [hsymm]
  split at h
  case isTrue hnan =>
    rw [if_pos hnan]
    apply h
  case isFalse hnan =>
    rw [if_neg hnan]
    by_cases hx : IsInf x
    · rw [if_pos hx] at h
      by_cases hy : IsInf y
      · rw [if_pos hy, h]
        congr 1
        by_contra hne
        apply hnan (.inr (.inr ⟨hx, hy, hne⟩))
      · rw [if_neg hy, if_pos hx]
        apply h
    · rw [if_neg hx] at h
      rw [if_neg hx, Int.add_comm, Bool.and_comm]
      apply h

/-! ### Parts of words -/

@[simp]
theorem fraction_mk (s : Bool) (e : BitVec E) (f : BitVec F) :
  fraction (mk s e f) = f
  := by
  apply BitVec.eq_of_getLsbD_eq
  intro i hi
  rw [fraction, mk, BitVec.getLsbD_extractLsb', Nat.zero_add, BitVec.getLsbD_append, if_pos hi,
    decide_eq_true hi, Bool.true_and]

@[simp]
theorem bexp_mk (s : Bool) (e : BitVec E) (f : BitVec F) :
  bexp (mk s e f) = e
  := by
  apply BitVec.eq_of_getLsbD_eq
  intro i hi
  rw [bexp, mk, BitVec.getLsbD_extractLsb', BitVec.getLsbD_append, if_neg (by omega),
    Nat.add_sub_cancel_left, BitVec.getLsbD_append, if_pos hi, decide_eq_true hi, Bool.true_and]

@[simp]
theorem sign_mk (s : Bool) (e : BitVec E) (f : BitVec F) :
  sign (mk s e f) = s
  := by
  rw [sign, mk, BitVec.getLsbD_append, if_neg (by omega), Nat.add_sub_cancel,
    BitVec.getLsbD_append, if_neg (Nat.lt_irrefl E), Nat.sub_self]
  simp

theorem magnitude_mk (s : Bool) (e : BitVec E) (f : BitVec F) (he : e ≠ 0) :
  magnitude (mk s e f) = (2 ^ F + f.toNat) * 2 ^ (e.toNat - 1)
  := by
  rw [magnitude, significand, bexp_mk, fraction_mk, if_neg he]

theorem value_negate (x : BitVec (1 + E + F)) :
  value (negate x) = -value x
  := by
  have hmagnitude : magnitude (negate x) = magnitude x := by
    rw [magnitude, magnitude, significand, significand, negate, bexp_mk, fraction_mk]
  rw [value, value, hmagnitude, negate, sign_mk]
  cases sign x <;> simp

/-- The word at a position of the grid has the value there. -/
theorem magnitude_encode (s : Bool) {n : Nat} (hlow : 2 ^ F ≤ n) (hhigh : n < (2 ^ E - 1) * 2 ^ F) :
  magnitude (encode s n : BitVec (1 + E + F)) = grid F n
  := by
  have hpos := Nat.two_pow_pos F
  have hdiv : n / 2 ^ F < 2 ^ E - 1 := (Nat.div_lt_iff_lt_mul hpos).mpr hhigh
  have hexp : (BitVec.ofNat E (n / 2 ^ F)).toNat = n / 2 ^ F :=
    Nat.mod_eq_of_lt (hdiv.trans_le (Nat.sub_le _ _))
  rw [encode, if_neg (by omega), if_neg (by omega), magnitude_mk, hexp, BitVec.toNat_ofNat, grid,
    if_neg (by omega)]
  intro hzero
  rw [hzero] at hexp
  have hzeroNat : (0 : BitVec E).toNat = 0 := BitVec.toNat_zero
  rw [hzeroNat] at hexp
  have hquotient := Nat.div_pos hlow hpos
  omega

/-! ### Significands -/

theorem significand_lt (x : BitVec (1 + E + F)) :
  significand x < 2 ^ (F + 1)
  := by
  have hlt := (fraction x).isLt
  have hpos := Nat.two_pow_pos F
  rw [significand, Nat.pow_succ]
  split <;> omega

theorem le_significand {x : BitVec (1 + E + F)} (hx : bexp x ≠ 0) :
  2 ^ F ≤ significand x
  := by
  rw [significand, if_neg hx]
  apply Nat.le_add_right

theorem significand_of_zero {x : BitVec (1 + E + F)} (hx : bexp x = 0) :
  significand x = 0
  := if_pos hx

theorem bexp_lt {x : BitVec (1 + E + F)} (hnan : ¬ IsNaN x) (hinf : ¬ IsInf x) :
  (bexp x).toNat < 2 ^ E - 1
  := by
  have hne : bexp x ≠ BitVec.allOnes E := by
    intro hx
    by_cases hzero : fraction x = 0
    · apply hinf ⟨hx, hzero⟩
    · apply hnan ⟨hx, hzero⟩
  have hlt := (bexp x).isLt
  have hneNat : (bexp x).toNat ≠ 2 ^ E - 1 := by
    rw [← BitVec.toNat_allOnes]
    apply fun h => hne (BitVec.eq_of_toNat_eq h)
  omega

theorem bexp_pos {x : BitVec (1 + E + F)} (hx : bexp x ≠ 0) :
  0 < (bexp x).toNat
  := by
  apply Nat.pos_of_ne_zero
  intro hzero
  apply hx
  apply BitVec.eq_of_toNat_eq
  rw [hzero]
  rfl

/-- A significand at an exponent, where the significand may be a power of two that belongs to the
next exponent. -/
theorem encode_add (sign : Bool) {e N : Nat} (hN : 2 ^ F ≤ N) :
  (encode sign (e * 2 ^ F + N) : BitVec (1 + E + F))
    = if 2 ^ E - 1 ≤ e + N / 2 ^ F then infinity sign
      else mk sign (BitVec.ofNat E (e + N / 2 ^ F)) (BitVec.ofNat F N)
  := by
  have hpos := Nat.two_pow_pos F
  have hdiv : (e * 2 ^ F + N) / 2 ^ F = e + N / 2 ^ F := by
    rw [Nat.add_comm, Nat.add_mul_div_right _ _ hpos, Nat.add_comm]
  have hmod : BitVec.ofNat F (e * 2 ^ F + N) = BitVec.ofNat F N := by
    apply BitVec.eq_of_toNat_eq
    rw [BitVec.toNat_ofNat, BitVec.toNat_ofNat, Nat.mul_add_mod_self_right]
  have hle : (2 ^ E - 1) * 2 ^ F ≤ e * 2 ^ F + N ↔ 2 ^ E - 1 ≤ e + N / 2 ^ F := by
    rw [← hdiv, Nat.le_div_iff_mul_le hpos]
  rw [encode, if_neg (by omega), hdiv, hmod]
  simp only [hle]

theorem encode_of_lt (sign : Bool) {n : Nat} (hn : n < 2 ^ F) :
  (encode sign n : BitVec (1 + E + F)) = mk sign 0 0
  := if_pos hn

/-- The parts of the number with the significand `N`. -/
theorem encode_eq_pack (sign : Bool) {e N : Nat} {exp : Int} {fraction : BitVec F}
    (hN : 2 ^ F ≤ N) (hexp : exp = e + (N / 2 ^ F : ℕ)) (hfraction : fraction.toNat = N % 2 ^ F) :
  (encode sign (e * 2 ^ F + N) : BitVec (1 + E + F)) = pack sign exp fraction
  := by
  have hpos : 0 < N / 2 ^ F := Nat.div_pos hN (Nat.two_pow_pos F)
  have htoNat : exp.toNat = e + N / 2 ^ F := by
    rw [hexp]
    generalize N / 2 ^ F = k
    omega
  have hN' : BitVec.ofNat F N = fraction := by
    apply BitVec.eq_of_toNat_eq
    rw [BitVec.toNat_ofNat, hfraction]
  have hexp' : ¬ exp ≤ 0 := by omega
  rw [encode_add sign hN, pack, htoNat, if_neg hexp', hN']

theorem pack_of_nonpos (hE : E ≠ 0) (sign : Bool) {exp : Int} (hexp : exp ≤ 0)
    (fraction : BitVec F) :
  (pack sign exp fraction : BitVec (1 + E + F)) = mk sign 0 0
  := by
  have hpow := Nat.pow_lt_pow_right one_lt_two (Nat.pos_of_ne_zero hE)
  rw [pack, Int.toNat_of_nonpos hexp, if_neg (by omega), if_pos hexp]

/-- The word that a circuit makes from the positive part of an exponent. -/
theorem mk_eq_pack (sign : Bool) {r : BitVec (E + 1)} {exp : Int} (hr : r.toNat = exp.toNat)
    (fraction : BitVec F) :
  mk sign
      (if r.getLsbD E || r.extractLsb' 0 E == BitVec.allOnes E then BitVec.allOnes E
        else r.extractLsb' 0 E)
      (fraction &&& fill F (!(r.getLsbD E || r.extractLsb' 0 E == BitVec.allOnes E
        || decide (exp ≤ 0))))
    = pack sign exp fraction
  := by
  have hpart : r.extractLsb' 0 E = BitVec.ofNat E exp.toNat := by
    rw [← hr]
    rfl
  rw [overflow_eq, hr, hpart, and_fill, pack]
  simp only [Bool.not_eq_true', Bool.or_eq_false_iff, decide_eq_false_iff_not, decide_eq_true_iff]
  by_cases hlarge : 2 ^ E - 1 ≤ exp.toNat
  · rw [if_pos hlarge, if_pos hlarge, if_neg (fun h => h.1 hlarge)]
    rfl
  · rw [if_neg hlarge, if_neg hlarge]
    by_cases hsmall : exp ≤ 0
    · rw [if_pos hsmall, if_neg (fun h => h.2 hsmall), Int.toNat_of_nonpos hsmall]
      rfl
    · rw [if_neg hsmall, if_pos ⟨hlarge, hsmall⟩]

end FloatWord

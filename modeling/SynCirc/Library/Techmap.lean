import SynCirc.Library.Comp
import SynCirc.Library.Mult
import Mathlib.Algebra.Ring.Divisibility.Basic
import Mathlib.Tactic.Ring

/-!
# The techmap wrappers

The wrappers replace cells by blocks of the library.  A cell has two operands and a result, whose
widths are parameters, and the operands may be signed.  The wrappers choose a block by the widths
only.  An operand that is connected to a longer port is extended by zeros, and a result that is
connected to a shorter net is cut off.

For each wrapper we say when it computes what the cell does.
-/

open Signal

/-- The parameters of a cell. -/
structure CellParams where
  A_SIGNED : Bool := false
  B_SIGNED : Bool := false
  A_WIDTH : Nat := 1
  B_WIDTH : Nat := 1
  Y_WIDTH : Nat := 1

namespace CellParams

/-- The operands are exchanged. -/
def swap (p : CellParams) : CellParams where
  A_SIGNED := p.B_SIGNED
  B_SIGNED := p.A_SIGNED
  A_WIDTH := p.B_WIDTH
  B_WIDTH := p.A_WIDTH
  Y_WIDTH := p.Y_WIDTH

/-- A cell is signed if both operands are. -/
def signed (p : CellParams) : Bool := p.A_SIGNED && p.B_SIGNED

theorem signed_swap (p : CellParams) :
  p.swap.signed = p.signed
  := Bool.and_comm _ _

end CellParams

/-! ### The cells -/

/-- The number that an operand stands for. -/
def operandInt (signed : Bool) {n : Nat} (x : BitVec n) : Int :=
  if signed then x.toInt else x.toNat

/-- An operand that is extended, or cut off, to the width of the result. -/
def extend (signed : Bool) {n : Nat} (w : Nat) (x : BitVec n) : BitVec w :=
  if signed then x.signExtend w else x.setWidth w

/-- The net `Y` of the given width has the bits of a word. -/
def HasBits (w : Nat) (Y : Nat → Logic) (x : BitVec w) : Prop :=
  ∀ i < w, Y i = some (x.getLsbD i)

/-- The net `Y` of the given width has the truth value at position 0, and zeros above. -/
def HasTruth (w : Nat) (Y : Nat → Logic) (b : Bool) : Prop :=
  ∀ i < w, Y i = some (decide (i = 0) && b)

namespace Techmap

variable (p : CellParams) (A : BitVec p.A_WIDTH) (B : BitVec p.B_WIDTH)

/-- The result of the cell `$gt`. -/
def gtCell : Bool := decide (operandInt p.signed B < operandInt p.signed A)

/-! ### The wrappers

A wrapper that is declined has no result. -/

/-- The wrapper `ADD`. -/
def add : Option (Nat → Logic) :=
  if p.A_WIDTH ≤ 8 ∧ p.B_WIDTH ≤ 8 ∧ p.Y_WIDTH ≤ 8 then
    some fun i => some ((add8 (A.setWidth 8) (B.setWidth 8)).getLsbD i)
  else if p.A_WIDTH ≤ 16 ∧ p.B_WIDTH ≤ 16 ∧ p.Y_WIDTH ≤ 16 then
    some fun i => some ((add16 (A.setWidth 16) (B.setWidth 16)).getLsbD i)
  else if p.A_WIDTH ≤ 32 ∧ p.B_WIDTH ≤ 32 ∧ p.Y_WIDTH ≤ 32 then
    some fun i => some ((add32 (A.setWidth 32) (B.setWidth 32)).getLsbD i)
  else if p.A_WIDTH ≤ 64 ∧ p.B_WIDTH ≤ 64 ∧ p.Y_WIDTH ≤ 64 then
    some fun i => some ((add64 (A.setWidth 64) (B.setWidth 64)).getLsbD i)
  else
    none

/-- The wrapper `SUB`.  The nets `a` and `b`, of which bit 63 is read in the branch for 64 bits, are
not declared and have no driver. -/
def sub : Nat → Logic :=
  if p.A_WIDTH = 64 ∧ p.B_WIDTH = 64 ∧ p.Y_WIDTH = 64 then
    let add_a : BitVec 64 := A.setWidth 63 ++ 1#1
    let add_b : BitVec 64 := ~~~ B.setWidth 63 ++ 1#1
    let (add_y, cout) := addc64 add_a add_b
    let a63 : Logic := none
    let b63 : Logic := none
    let msb := a63 ^^^ ~~~ b63 ^^^ some cout
    fun i => if i = 63 then msb else some (add_y.getLsbD (i + 1))
  else
    let w := max (p.Y_WIDTH + 1) (max (p.A_WIDTH + 1) (p.B_WIDTH + 1))
    let Y_full : BitVec (p.Y_WIDTH + 1) :=
      ((A ++ 1#1).setWidth w + (~~~ B ++ 1#1).setWidth w).setWidth (p.Y_WIDTH + 1)
    fun i => some (Y_full.getLsbD (i + 1))

/-- The wrapper `MULT`. -/
def mult : Option (Nat → Logic) :=
  if p.A_WIDTH = 8 ∧ p.B_WIDTH = 8 ∧ p.Y_WIDTH = 16 then
    some fun i => some ((mult8 (A.setWidth 8) (B.setWidth 8)).getLsbD i)
  else if p.A_WIDTH = 16 ∧ p.B_WIDTH = 16 ∧ p.Y_WIDTH = 32 then
    some fun i => some ((mult16 (A.setWidth 16) (B.setWidth 16)).getLsbD i)
  else if p.A_WIDTH = 32 ∧ p.B_WIDTH = 32 ∧ p.Y_WIDTH = 64 then
    some fun i => some ((mult32 (A.setWidth 32) (B.setWidth 32)).getLsbD i)
  else
    none

/-- The wrapper `GT`. -/
def gt : Option (Nat → Logic) :=
  if p.A_WIDTH = 8 ∧ p.B_WIDTH = 8 ∧ p.Y_WIDTH = 1 then
    some fun _ => some (comp8 (A.setWidth 8) (B.setWidth 8))
  else if p.A_WIDTH = 16 ∧ p.B_WIDTH = 16 ∧ p.Y_WIDTH = 1 then
    some fun _ => some (comp16 (A.setWidth 16) (B.setWidth 16))
  else if p.A_WIDTH = 32 ∧ p.B_WIDTH = 32 ∧ p.Y_WIDTH = 1 then
    some fun _ => some (comp32 (A.setWidth 32) (B.setWidth 32))
  else if p.A_WIDTH = 64 ∧ p.B_WIDTH = 64 ∧ p.Y_WIDTH = 1 then
    some fun _ => comp64 (A.setWidth 64) (B.setWidth 64)
  else
    none

/-- The cell `$gt` in a wrapper, which remains a cell if `GT` is declined. -/
def gtOrCell : Nat → Logic :=
  (gt p A B).getD fun i => some (decide (i = 0) && gtCell p A B)

/-- A net of 1 bit that is extended by zeros. -/
def zeroExtend (b : Logic) (i : Nat) : Logic := if i = 0 then b else some false

/-- The wrapper `GE`. -/
def ge : Nat → Logic :=
  let LT := gtOrCell p.swap B A 0
  fun i => ~~~ zeroExtend LT i

/-- The wrapper `LT`. -/
def lt : Nat → Logic := gtOrCell p.swap B A

/-- The wrapper `LE`. -/
def le : Nat → Logic :=
  let GT := gtOrCell p A B 0
  fun i => ~~~ zeroExtend GT i

end Techmap

/-! ### Numbers and nets -/

/-- The operand is extended to the word of the number it stands for. -/
theorem extend_eq_ofInt (signed : Bool) {n : Nat} (w : Nat) (x : BitVec n) :
  extend signed w x = BitVec.ofInt w (operandInt signed x)
  := by
  cases signed with
  | false =>
      change x.setWidth w = BitVec.ofInt w x.toNat
      rw [BitVec.ofInt_natCast, BitVec.ofNat_toNat]
  | true => rfl

/-- What the bits of an operand exceed the number by that it stands for. -/
def excess (b : Bool) (n : Nat) : Nat := if b then 2 ^ n else 0

theorem toNat_eq_operandInt (signed : Bool) {n : Nat} (x : BitVec n) :
  (x.toNat : Int) = operandInt signed x + excess (signed && x.msb) n
  := by
  cases signed with
  | false =>
      change (x.toNat : Int) = x.toNat + 0
      rw [Int.add_zero]
  | true =>
      change (x.toNat : Int) = x.toInt + _
      rw [BitVec.toInt_eq_msb_cond, Bool.true_and]
      cases x.msb with
      | false =>
          change (x.toNat : Int) = x.toNat + 0
          rw [Int.add_zero]
      | true =>
          change (x.toNat : Int) = x.toNat - (2 ^ n : Nat) + (2 ^ n : Nat)
          rw [Int.sub_add_cancel]

theorem excess_add_excess_not (b : Bool) (n : Nat) :
  excess b n + excess (!b) n = 2 ^ n
  := by
  cases b with
  | false => exact Nat.zero_add _
  | true => exact Nat.add_zero _

/-- The sum of two excesses makes no difference in a result of the given width.  Either each of them
is zero or too long for the result, or together they are one carry out of it. -/
def Unaffected (s t : Bool) (m n w : Nat) : Prop :=
  (¬ (s = true ∧ m < w) ∧ ¬ (t = true ∧ n < w)) ∨ (s = true ∧ t = true ∧ m = n ∧ m + 1 = w)

theorem two_pow_dvd_excess_iff (s t : Bool) (m n w : Nat) :
  2 ^ w ∣ excess s m + excess t n ↔ Unaffected s t m n w
  := by
  rw [Unaffected]
  cases s with
  | false =>
      cases t with
      | false => simp [excess]
      | true =>
          rw [excess, excess, if_neg Bool.false_ne_true, if_pos rfl, Nat.zero_add,
            Nat.pow_dvd_pow_iff_le_right (by decide)]
          simp
  | true =>
      cases t with
      | false =>
          rw [excess, excess, if_neg Bool.false_ne_true, if_pos rfl, Nat.add_zero,
            Nat.pow_dvd_pow_iff_le_right (by decide)]
          simp
      | true =>
          rw [excess, excess, if_pos rfl, if_pos rfl, two_pow_dvd_add_iff]
          simp

theorem setWidth_add_setWidth {m n : Nat} (w : Nat) (x : BitVec m) (y : BitVec n) :
  x.setWidth w + y.setWidth w = BitVec.ofNat w (x.toNat + y.toNat)
  := by
  rw [BitVec.ofNat_add, BitVec.ofNat_toNat, BitVec.ofNat_toNat]

/-- The net with the bits of a number has the bits of another one if they differ by a multiple. -/
theorem hasBits_ofInt_iff {n w : Nat} (h : w ≤ n) (m : Nat) (k : Int) :
  HasBits w (fun i => some ((BitVec.ofNat n m).getLsbD i)) (BitVec.ofInt w k) ↔
    ((2 ^ w : Nat) : Int) ∣ m - k
  := by
  rw [← ofInt_eq_ofInt_iff, BitVec.ofInt_natCast, ← BitVec.setWidth_ofNat_of_le h]
  constructor
  · intro hbits
    apply BitVec.eq_of_getLsbD_eq
    intro i hi
    rw [BitVec.getLsbD_setWidth, decide_eq_true hi, Bool.true_and]
    exact Option.some.inj (hbits i hi)
  · intro heq i hi
    rw [← heq, BitVec.getLsbD_setWidth, decide_eq_true hi, Bool.true_and]

namespace Techmap

variable (p : CellParams) (A : BitVec p.A_WIDTH) (B : BitVec p.B_WIDTH)

/-! ### The sum -/

/-- For operands and results of at most 32 bits the sum of the bits is taken. -/
theorem add_eq (h : p.A_WIDTH ≤ 32 ∧ p.B_WIDTH ≤ 32 ∧ p.Y_WIDTH ≤ 32) :
  ∃ n, p.Y_WIDTH ≤ n ∧
    add p A B = some fun i => some ((BitVec.ofNat n (A.toNat + B.toNat)).getLsbD i)
  := by
  rw [add]
  split
  next h8 =>
    use 8, h8.2.2
    rw [add8_eq, setWidth_add_setWidth]
  next =>
    split
    next h16 =>
      use 16, h16.2.2
      rw [add16_eq, setWidth_add_setWidth]
    next =>
      use 32, h.2.2
      rw [add32_eq, setWidth_add_setWidth]

/-- The wrapper is right if the excesses of the operands make no difference. -/
theorem hasBits_add_iff (h : p.A_WIDTH ≤ 32 ∧ p.B_WIDTH ≤ 32 ∧ p.Y_WIDTH ≤ 32) :
  ∃ Y, add p A B = some Y ∧
    (HasBits p.Y_WIDTH Y (extend p.signed p.Y_WIDTH A + extend p.signed p.Y_WIDTH B) ↔
      Unaffected (p.signed && A.msb) (p.signed && B.msb) p.A_WIDTH p.B_WIDTH p.Y_WIDTH)
  := by
  obtain ⟨n, hn, hadd⟩ := add_eq p A B h
  refine ⟨_, hadd, ?_⟩
  rw [extend_eq_ofInt, extend_eq_ofInt, ← BitVec.ofInt_add, hasBits_ofInt_iff hn,
    ← two_pow_dvd_excess_iff, ← Int.natCast_dvd_natCast, Int.natCast_add, Int.natCast_add,
    toNat_eq_operandInt p.signed A, toNat_eq_operandInt p.signed B]
  ring_nf

/-! ### The difference -/

theorem toNat_append_one {n : Nat} (x : BitVec n) :
  (x ++ 1#1).toNat = 2 * x.toNat + 1
  := by
  rw [BitVec.toNat_append, BitVec.toNat_one Nat.one_pos,
    ← Nat.shiftLeft_add_eq_or_of_lt (by decide), Nat.shiftLeft_eq, Nat.pow_one, Nat.mul_comm]

/-- Except for 64 bits the wrapper takes the difference of the bits, with an excess of its own. -/
theorem sub_eq (h : ¬ (p.A_WIDTH = 64 ∧ p.B_WIDTH = 64 ∧ p.Y_WIDTH = 64)) :
  sub p A B =
    fun i => some ((BitVec.ofNat p.Y_WIDTH (A.toNat + (2 ^ p.B_WIDTH - B.toNat))).getLsbD i)
  := by
  rw [sub, if_neg h]
  funext i
  have hB := B.isLt
  have hsum : (A ++ 1#1).toNat + (~~~ B ++ 1#1).toNat
      = 2 * (A.toNat + (2 ^ p.B_WIDTH - B.toNat)) := by
    rw [toNat_append_one, toNat_append_one, BitVec.toNat_not]
    omega
  rw [setWidth_add_setWidth, hsum, BitVec.setWidth_ofNat_of_le (by omega), BitVec.getLsbD_ofNat,
    BitVec.getLsbD_ofNat, Nat.testBit_succ, Nat.mul_div_cancel_left _ Nat.two_pos]
  simp only [Nat.add_lt_add_iff_right]

/-- The wrapper for 64 bits does not drive the last bit of its result. -/
theorem sub_last (h : p.A_WIDTH = 64 ∧ p.B_WIDTH = 64 ∧ p.Y_WIDTH = 64) :
  sub p A B 63 = none
  := by
  rw [sub, if_pos h]
  rfl

/-- The wrapper is right if the excess of the first operand and that of the complement make no
difference.  It is never right for 64 bits. -/
theorem hasBits_sub_iff :
  HasBits p.Y_WIDTH (sub p A B) (extend p.signed p.Y_WIDTH A - extend p.signed p.Y_WIDTH B) ↔
    ¬ (p.A_WIDTH = 64 ∧ p.B_WIDTH = 64 ∧ p.Y_WIDTH = 64) ∧
      Unaffected (p.signed && A.msb) (!(p.signed && B.msb)) p.A_WIDTH p.B_WIDTH p.Y_WIDTH
  := by
  by_cases h : p.A_WIDTH = 64 ∧ p.B_WIDTH = 64 ∧ p.Y_WIDTH = 64
  · constructor
    · intro hbits
      have hlast := hbits 63 (by omega)
      rw [sub_last p A B h] at hlast
      cases hlast
    · rintro ⟨hnot, -⟩
      contradiction
  · rw [and_iff_right h, sub_eq p A B h, extend_eq_ofInt, extend_eq_ofInt, BitVec.sub_eq_add_neg,
      ← BitVec.ofInt_neg, ← BitVec.ofInt_add, hasBits_ofInt_iff le_rfl, ← two_pow_dvd_excess_iff,
      ← Int.natCast_dvd_natCast]
    have hA := toNat_eq_operandInt p.signed A
    have hB := toNat_eq_operandInt p.signed B
    have hlt := B.isLt
    have hnot := excess_add_excess_not (p.signed && B.msb) p.B_WIDTH
    have hdiff : ((A.toNat + (2 ^ p.B_WIDTH - B.toNat) : Nat) : Int)
        - (operandInt p.signed A + -operandInt p.signed B)
        = (excess (p.signed && A.msb) p.A_WIDTH
          + excess (!(p.signed && B.msb)) p.B_WIDTH : Nat) := by
      omega
    rw [hdiff]

/-- The difference of two zeros of 1 bit is wrong in a result of 2 bits, and that of two zeros of
64 bits is not known. -/
theorem sub_zero_zero_ne :
  ¬ HasBits 2 (sub ⟨false, false, 1, 1, 2⟩ 0 0) (extend false 2 0#1 - extend false 2 0#1)
    ∧ ¬ HasBits 64 (sub ⟨false, false, 64, 64, 64⟩ 0 0)
      (extend false 64 0#64 - extend false 64 0#64)
  := by
  constructor
  · intro h
    have hbit := h 1 (by decide)
    revert hbit
    decide
  · intro h
    have hlast := h 63 (by decide)
    rw [sub_last ⟨false, false, 64, 64, 64⟩ 0 0 ⟨rfl, rfl, rfl⟩] at hlast
    cases hlast

/-! ### The product -/

/-- The net has the product of the bits of the operands, in a result of twice their width. -/
structure HasProduct (Y : Nat → Logic) : Prop where
  pos : 0 < p.A_WIDTH
  width_eq : p.A_WIDTH = p.B_WIDTH
  width : p.Y_WIDTH = 2 * p.A_WIDTH
  net : Y = fun i => some ((BitVec.ofNat p.Y_WIDTH (A.toNat * B.toNat)).getLsbD i)

/-- A multiplier of the library takes the product of the bits. -/
theorem hasProduct_of_toNat {n : Nat} {multM : BitVec n → BitVec n → BitVec (2 * n)} (hn : 0 < n)
    (hmult : ∀ x y, (multM x y).toNat = x.toNat * y.toNat)
    (hw : p.A_WIDTH = n ∧ p.B_WIDTH = n ∧ p.Y_WIDTH = 2 * n) :
  HasProduct p A B fun i => some ((multM (A.setWidth n) (B.setWidth n)).getLsbD i)
  := by
  obtain ⟨hA, hB, hY⟩ := hw
  refine ⟨by omega, by omega, by omega, ?_⟩
  rw [hY, ← BitVec.toNat_setWidth_of_le (b := A) hA.le,
    ← BitVec.toNat_setWidth_of_le (b := B) hB.le, ← hmult, BitVec.ofNat_toNat, BitVec.setWidth_eq]

theorem hasProduct_of_mult {Y : Nat → Logic} (h : mult p A B = some Y) :
  HasProduct p A B Y
  := by
  rw [mult] at h
  split at h
  next h8 =>
    obtain rfl := Option.some.inj h
    exact hasProduct_of_toNat p A B (by decide) toNat_mult8 h8
  next =>
    split at h
    next h16 =>
      obtain rfl := Option.some.inj h
      exact hasProduct_of_toNat p A B (by decide) toNat_mult16 h16
    next =>
      split at h
      next h32 =>
        obtain rfl := Option.some.inj h
        exact hasProduct_of_toNat p A B (by decide) toNat_mult32 h32
      next => cases h

/-- The excesses of two operands of the same width make no difference in their product. -/
def ProductUnaffected (signed : Bool) {m n : Nat} (A : BitVec m) (B : BitVec n) : Prop :=
  signed = true →
    (A.msb = false ∧ B.msb = false) ∨ A = 0 ∨ B = 0 ∨ (A = BitVec.intMin m ∧ B = BitVec.intMin n)

/-- Each operand is multiplied by the excess of the other one. -/
theorem two_pow_dvd_product_iff (signed : Bool) {m n : Nat} (hmn : m = n) (A : BitVec m)
    (B : BitVec n) :
  ((2 ^ (2 * m) : Nat) : Int) ∣
      (A.toNat * B.toNat : Nat) - operandInt signed A * operandInt signed B ↔
    2 ^ m ∣ (signed && A.msb).toNat * B.toNat + (signed && B.msb).toNat * A.toNat
  := by
  subst hmn
  have hexcess : ∀ b : Bool, excess b m = 2 ^ m * b.toNat := by
    intro b
    cases b with
    | false => rfl
    | true => exact (Nat.mul_one _).symm
  have hA := toNat_eq_operandInt signed A
  have hB := toNat_eq_operandInt signed B
  rw [hexcess] at hA hB
  generalize (signed && A.msb).toNat = s at *
  generalize (signed && B.msb).toNat = t at *
  have hdiff : ((A.toNat * B.toNat : Nat) : Int) - operandInt signed A * operandInt signed B
      = (2 ^ m * (s * B.toNat + t * A.toNat) : Nat) - (2 ^ (2 * m) : Nat) * (s * t : Nat) := by
    rw [← sub_eq_iff_eq_add] at hA hB
    rw [← hA, ← hB]
    push_cast
    ring
  rw [hdiff, dvd_sub_left (Dvd.intro _ rfl), Int.natCast_dvd_natCast, Nat.two_mul, Nat.pow_add,
    Nat.mul_dvd_mul_iff_left (Nat.two_pow_pos m)]

/-- Two numbers below `2 * k`, each counted if the other one is at least `k`. -/
theorem two_mul_dvd_iff {a b k : Nat} (ha : a < 2 * k) (hb : b < 2 * k) :
  2 * k ∣ (decide (k ≤ a)).toNat * b + (decide (k ≤ b)).toNat * a ↔
    (a < k ∧ b < k) ∨ a = 0 ∨ b = 0 ∨ (a = k ∧ b = k)
  := by
  have hzero : ∀ {c : Nat}, c < 2 * k → (2 * k ∣ c ↔ c = 0) := by
    intro c hc
    constructor
    · intro hdvd
      exact Nat.eq_zero_of_dvd_of_lt hdvd hc
    · rintro rfl
      exact Nat.dvd_zero _
  rcases Nat.lt_or_ge a k with hak | hak
  · rcases Nat.lt_or_ge b k with hbk | hbk
    · rw [decide_eq_false hak.not_ge, decide_eq_false hbk.not_ge, Bool.toNat_false, Nat.zero_mul,
        Nat.zero_mul, hzero (by omega)]
      omega
    · rw [decide_eq_false hak.not_ge, decide_eq_true hbk, Bool.toNat_false, Bool.toNat_true,
        Nat.zero_mul, Nat.zero_add, Nat.one_mul, hzero ha]
      omega
  · rcases Nat.lt_or_ge b k with hbk | hbk
    · rw [decide_eq_true hak, decide_eq_false hbk.not_ge, Bool.toNat_false, Bool.toNat_true,
        Nat.zero_mul, Nat.add_zero, Nat.one_mul, hzero hb]
      omega
    · rw [decide_eq_true hak, decide_eq_true hbk, Bool.toNat_true, Nat.one_mul, Nat.one_mul]
      constructor
      · intro hdvd
        have hsum := Nat.eq_of_dvd_of_lt_two_mul (by omega) hdvd (by omega)
        omega
      · intro h
        have hsum : b + a = 2 * k := by omega
        rw [hsum]

/-- The excesses make no difference if they are zero or are multiplied by zero.  For two operands of
the least value they make one together. -/
theorem productUnaffected_iff (signed : Bool) {m n : Nat} (hm : 0 < m) (hmn : m = n) (A : BitVec m)
    (B : BitVec n) :
  ProductUnaffected signed A B ↔
    2 ^ m ∣ (signed && A.msb).toNat * B.toNat + (signed && B.msb).toNat * A.toNat
  := by
  subst hmn
  cases signed with
  | false =>
      rw [Bool.false_and, Bool.false_and, Bool.toNat_false, Nat.zero_mul, Nat.zero_mul]
      simp [ProductUnaffected]
  | true =>
      have hpow : 2 ^ m = 2 * 2 ^ (m - 1) := by
        rw [← Nat.pow_succ', Nat.succ_eq_add_one, Nat.sub_add_cancel hm]
      have hmod : 2 ^ (m - 1) % 2 ^ m = 2 ^ (m - 1) := by
        apply Nat.mod_eq_of_lt
        apply Nat.pow_lt_pow_right (by decide) (by omega)
      have hA := A.isLt
      have hB := B.isLt
      rw [hpow] at hA hB
      rw [ProductUnaffected, ← BitVec.toNat_inj, ← BitVec.toNat_inj, ← BitVec.toNat_inj,
        ← BitVec.toNat_inj, BitVec.toNat_intMin, hmod, BitVec.msb_eq_decide, BitVec.msb_eq_decide,
        Bool.true_and, Bool.true_and, hpow, two_mul_dvd_iff hA hB]
      simp

/-- The wrapper is right if the excesses of the operands make no difference. -/
theorem hasBits_mult_iff {Y : Nat → Logic} (h : mult p A B = some Y) :
  HasBits p.Y_WIDTH Y (extend p.signed p.Y_WIDTH A * extend p.signed p.Y_WIDTH B) ↔
    ProductUnaffected p.signed A B
  := by
  obtain ⟨hpos, hwidth, hY, rfl⟩ := hasProduct_of_mult p A B h
  rw [extend_eq_ofInt, extend_eq_ofInt, ← BitVec.ofInt_mul, hasBits_ofInt_iff le_rfl, hY,
    two_pow_dvd_product_iff _ hwidth, productUnaffected_iff _ hpos hwidth]

/-- The wrappers `ADD` and `MULT` are right if the excesses of the operands make no difference. -/
theorem hasBits_add_mult_iff :
  (p.A_WIDTH ≤ 32 ∧ p.B_WIDTH ≤ 32 ∧ p.Y_WIDTH ≤ 32 → ∃ Y, add p A B = some Y ∧
      (HasBits p.Y_WIDTH Y (extend p.signed p.Y_WIDTH A + extend p.signed p.Y_WIDTH B) ↔
        Unaffected (p.signed && A.msb) (p.signed && B.msb) p.A_WIDTH p.B_WIDTH p.Y_WIDTH))
    ∧ ∀ Y, mult p A B = some Y →
      (HasBits p.Y_WIDTH Y (extend p.signed p.Y_WIDTH A * extend p.signed p.Y_WIDTH B) ↔
        ProductUnaffected p.signed A B)
  := ⟨hasBits_add_iff p A B, fun _ => hasBits_mult_iff p A B⟩

/-- For 127 and 3 the sum and the product of signed operands of 8 bits are right. -/
theorem hasBits_add_mult_127_3 :
  (∃ Y, add ⟨true, true, 8, 8, 16⟩ 127#8 3#8 = some Y
      ∧ HasBits 16 Y (extend true 16 127#8 + extend true 16 3#8))
    ∧ ∃ Y, mult ⟨true, true, 8, 8, 16⟩ 127#8 3#8 = some Y
      ∧ HasBits 16 Y (extend true 16 127#8 * extend true 16 3#8)
  := by
  obtain ⟨hadd, hmult⟩ := hasBits_add_mult_iff ⟨true, true, 8, 8, 16⟩ 127#8 3#8
  obtain ⟨Y, hY, hiff⟩ := hadd (by decide)
  constructor
  · exact ⟨Y, hY, hiff.mpr (Or.inl ⟨by decide, by decide⟩)⟩
  · exact ⟨_, rfl, (hmult _ rfl).mpr fun _ => Or.inl ⟨by decide, by decide⟩⟩

/-- For the signed operands -1 and 1 of 8 bits the sum and the product in 16 bits are wrong. -/
theorem add_mult_neg_one_one_ne :
  (¬ ∃ Y, add ⟨true, true, 8, 8, 16⟩ 255#8 1#8 = some Y
      ∧ HasBits 16 Y (extend true 16 255#8 + extend true 16 1#8))
    ∧ ¬ ∃ Y, mult ⟨true, true, 8, 8, 16⟩ 255#8 1#8 = some Y
      ∧ HasBits 16 Y (extend true 16 255#8 * extend true 16 1#8)
  := by
  constructor
  · rintro ⟨Y, h, hbits⟩
    obtain rfl := Option.some.inj h
    have hbit := hbits 8 (by decide)
    revert hbit
    decide +kernel
  · rintro ⟨Y, h, hbits⟩
    obtain rfl := Option.some.inj h
    have hbit := hbits 8 (by decide)
    revert hbit
    decide +kernel

/-! ### The comparisons -/

/-- The widths for which `GT` has a comparator. -/
def Mapped : Prop :=
  p.A_WIDTH = p.B_WIDTH ∧ (p.A_WIDTH = 8 ∨ p.A_WIDTH = 16 ∨ p.A_WIDTH = 32 ∨ p.A_WIDTH = 64) ∧
    p.Y_WIDTH = 1

/-- The comparator compares the operands correctly: signed operands have the same sign, and operands
of 64 bits differ in the upper 16 bits or the first of them is not the greater one. -/
def Comparable : Prop :=
  (p.signed = true → A.msb = B.msb) ∧
    (p.A_WIDTH = 64 → ¬ (A.toNat / 2 ^ 48 = B.toNat / 2 ^ 48 ∧ B.toNat < A.toNat))

/-- Signed operands are compared as their bits are if they have the same sign. -/
theorem decide_operandInt_lt_iff (signed : Bool) {m n : Nat} (hmn : m = n) (x : BitVec m)
    (y : BitVec n) :
  decide (y.toNat < x.toNat) = decide (operandInt signed y < operandInt signed x) ↔
    (signed = true → x.msb = y.msb)
  := by
  subst hmn
  cases signed with
  | false =>
      change decide (y.toNat < x.toNat) = decide ((y.toNat : Int) < x.toNat) ↔ _
      simp
  | true =>
      change y.ult x = y.slt x ↔ _
      by_cases h : y.msb = x.msb
      · rw [BitVec.slt_eq_ult_of_msb_eq h]
        simp [h]
      · rw [BitVec.slt_eq_not_ult_of_msb_neq h]
        simp [Ne.symm h]

theorem setWidth_comp {n : Nat} {compN : BitVec n → BitVec n → Bool}
    (hcomp : ∀ x y, compN x y = decide (y.toNat < x.toNat)) {a b : Nat} (ha : a = n) (hb : b = n)
    (x : BitVec a) (y : BitVec b) :
  compN (x.setWidth n) (y.setWidth n) = decide (y.toNat < x.toNat)
  := by
  rw [hcomp, BitVec.toNat_setWidth_of_le ha.le, BitVec.toNat_setWidth_of_le hb.le]

/-- What the wrapper `GT` computes if it is not declined. -/
theorem gt_cases {Y : Nat → Logic} (h : gt p A B = some Y) :
  Mapped p ∧ ((p.A_WIDTH ≠ 64 ∧ Y = fun _ => some (decide (B.toNat < A.toNat))) ∨
    (p.A_WIDTH = 64 ∧ Y = fun _ => comp64 (A.setWidth 64) (B.setWidth 64)))
  := by
  rw [gt] at h
  split_ifs at h with h8 h16 h32 h64
  · obtain rfl := Option.some.inj h
    obtain ⟨hA, hB, hY⟩ := h8
    rw [setWidth_comp comp8_eq hA hB]
    refine ⟨⟨by omega, by omega, hY⟩, Or.inl ⟨by omega, rfl⟩⟩
  · obtain rfl := Option.some.inj h
    obtain ⟨hA, hB, hY⟩ := h16
    rw [setWidth_comp comp16_eq hA hB]
    refine ⟨⟨by omega, by omega, hY⟩, Or.inl ⟨by omega, rfl⟩⟩
  · obtain rfl := Option.some.inj h
    obtain ⟨hA, hB, hY⟩ := h32
    rw [setWidth_comp comp32_eq hA hB]
    refine ⟨⟨by omega, by omega, hY⟩, Or.inl ⟨by omega, rfl⟩⟩
  · obtain rfl := Option.some.inj h
    obtain ⟨hA, hB, hY⟩ := h64
    refine ⟨⟨by omega, by omega, hY⟩, Or.inr ⟨hA, rfl⟩⟩

theorem gt_ne_none (h : Mapped p) :
  gt p A B ≠ none
  := by
  obtain ⟨hwidth, hA, hY⟩ := h
  rw [gt]
  split_ifs
  · exact Option.some_ne_none _
  · exact Option.some_ne_none _
  · exact Option.some_ne_none _
  · exact Option.some_ne_none _
  · omega

/-- The comparator that `GT` chooses yields the result of the cell. -/
theorem gt_eq_gtCell_iff {Y : Nat → Logic} (h : gt p A B = some Y) :
  Y 0 = some (gtCell p A B) ↔ Comparable p A B
  := by
  obtain ⟨⟨hwidth, _⟩, ⟨h64, rfl⟩ | ⟨h64, rfl⟩⟩ := gt_cases p A B h
  · rw [Option.some.injEq, gtCell, decide_operandInt_lt_iff p.signed hwidth, Comparable]
    simp only [h64, false_imp_iff, and_true]
  · rw [comp64_eq_ite, BitVec.toNat_setWidth_of_le h64.le,
      BitVec.toNat_setWidth_of_le (hwidth ▸ h64).le, Comparable]
    split_ifs with hupper
    · simp only [h64, hupper, not_true, and_self, imp_false, and_false]
    · rw [Option.some.injEq, gtCell, decide_operandInt_lt_iff p.signed hwidth]
      simp only [h64, hupper, not_false_iff, implies_true, and_true]

/-- The cell `$gt` in a wrapper is wrong only if it is replaced by a comparator. -/
theorem gtOrCell_eq_gtCell_iff :
  gtOrCell p A B 0 = some (gtCell p A B) ↔ (Mapped p → Comparable p A B)
  := by
  rw [gtOrCell]
  cases h : gt p A B with
  | none =>
      have hnot : ¬ Mapped p := by
        intro hmapped
        exact gt_ne_none p A B hmapped h
      simp [hnot]
  | some Y =>
      have hmapped := (gt_cases p A B h).1
      rw [Option.getD_some, gt_eq_gtCell_iff p A B h]
      simp only [hmapped, true_imp_iff]

/-- Above position 0 the cell `$gt` in a wrapper has zeros. -/
theorem gtOrCell_of_pos {i : Nat} (hi : 0 < i) (hY : i < p.Y_WIDTH) :
  gtOrCell p A B i = some false
  := by
  rw [gtOrCell]
  cases h : gt p A B with
  | none => simp [hi.ne']
  | some Y =>
      obtain ⟨⟨-, -, hone⟩, -⟩ := gt_cases p A B h
      omega

theorem hasTruth_gtOrCell_iff :
  HasTruth p.Y_WIDTH (gtOrCell p A B) (gtCell p A B) ↔ (Mapped p → Comparable p A B)
  := by
  constructor
  · intro h hmapped
    have hone := hmapped.2.2
    apply (gtOrCell_eq_gtCell_iff p A B).mp (h 0 (by omega)) hmapped
  · intro h i hi
    rcases Nat.eq_zero_or_pos i with rfl | hpos
    · exact (gtOrCell_eq_gtCell_iff p A B).mpr h
    · rw [gtOrCell_of_pos p A B hpos hi, decide_eq_false hpos.ne', Bool.false_and]

/-- The inverse of a net of 1 bit has ones above position 0. -/
theorem hasTruth_not_zeroExtend_iff {w : Nat} (b : Logic) (t : Bool) :
  HasTruth w (fun i => ~~~ zeroExtend b i) (!t) ↔ w ≤ 1 ∧ (w = 1 → b = some t)
  := by
  have hzero : ~~~ b = some (!t) ↔ b = some t := by
    cases b with
    | none => simp [Complement.complement]
    | some b => simp [Complement.complement]
  constructor
  · intro h
    constructor
    · by_contra hw
      have hbit := h 1 (by omega)
      cases hbit
    · intro hw
      exact hzero.mp (h 0 (by omega))
  · rintro ⟨hw, hb⟩ i hi
    obtain rfl : i = 0 := by omega
    exact hzero.mpr (hb (by omega))

/-- A comparison by the inverse of the cell `$gt` has one bit only. -/
theorem hasTruth_not_gtOrCell_iff :
  HasTruth p.Y_WIDTH (fun i => ~~~ zeroExtend (gtOrCell p A B 0) i) (!gtCell p A B) ↔
    p.Y_WIDTH ≤ 1 ∧ (Mapped p → Comparable p A B)
  := by
  rw [hasTruth_not_zeroExtend_iff, gtOrCell_eq_gtCell_iff]
  apply and_congr_right
  intro _
  constructor
  · intro h hmapped
    exact h hmapped.2.2 hmapped
  · intro h _
    exact h

theorem gtCell_swap :
  gtCell p.swap B A = decide (operandInt p.signed A < operandInt p.signed B)
  := by
  change decide (operandInt p.swap.signed A < operandInt p.swap.signed B) = _
  rw [CellParams.signed_swap]

/-- The wrapper `GT` is right if the comparator that it chooses is.  The other ones are right if the
cell `$gt` that they use is, and `GE` and `LE` have in addition a result of one bit only. -/
theorem hasTruth_comparisons_iff :
  (∀ Y, gt p A B = some Y →
      (HasTruth p.Y_WIDTH Y (decide (operandInt p.signed B < operandInt p.signed A)) ↔
        Comparable p A B))
    ∧ (HasTruth p.Y_WIDTH (ge p A B) (decide (operandInt p.signed B ≤ operandInt p.signed A)) ↔
      p.Y_WIDTH ≤ 1 ∧ (Mapped p.swap → Comparable p.swap B A))
    ∧ (HasTruth p.Y_WIDTH (lt p A B) (decide (operandInt p.signed A < operandInt p.signed B)) ↔
      (Mapped p.swap → Comparable p.swap B A))
    ∧ (HasTruth p.Y_WIDTH (le p A B) (decide (operandInt p.signed A ≤ operandInt p.signed B)) ↔
      p.Y_WIDTH ≤ 1 ∧ (Mapped p → Comparable p A B))
  := by
  have hge : decide (operandInt p.signed B ≤ operandInt p.signed A) = !gtCell p.swap B A := by
    rw [gtCell_swap, ← decide_not]
    simp only [not_lt]
  have hle : decide (operandInt p.signed A ≤ operandInt p.signed B) = !gtCell p A B := by
    rw [gtCell, ← decide_not]
    simp only [not_lt]
  refine ⟨?_, ?_, ?_, ?_⟩
  · intro Y h
    have hmapped := (gt_cases p A B h).1
    have hcell : gtOrCell p A B = Y := by
      rw [gtOrCell, h, Option.getD_some]
    rw [← hcell, ← gtCell, hasTruth_gtOrCell_iff]
    simp only [hmapped, true_imp_iff]
  · rw [hge]
    exact hasTruth_not_gtOrCell_iff p.swap B A
  · rw [← gtCell_swap]
    exact hasTruth_gtOrCell_iff p.swap B A
  · rw [hle]
    exact hasTruth_not_gtOrCell_iff p A B

/-- Signed operands of 8 bits with the same sign are compared. -/
theorem hasTruth_comparisons_two_one :
  (∃ Y, gt ⟨true, true, 8, 8, 1⟩ 2#8 1#8 = some Y
      ∧ HasTruth 1 Y (decide (operandInt true 1#8 < operandInt true 2#8)))
    ∧ HasTruth 1 (ge ⟨true, true, 8, 8, 1⟩ 2#8 1#8)
      (decide (operandInt true 1#8 ≤ operandInt true 2#8))
    ∧ HasTruth 1 (lt ⟨true, true, 8, 8, 1⟩ 2#8 1#8)
      (decide (operandInt true 2#8 < operandInt true 1#8))
    ∧ HasTruth 1 (le ⟨true, true, 8, 8, 1⟩ 2#8 1#8)
      (decide (operandInt true 2#8 ≤ operandInt true 1#8))
  := by
  obtain ⟨hgt, hge, hlt, hle⟩ := hasTruth_comparisons_iff ⟨true, true, 8, 8, 1⟩ 2#8 1#8
  refine ⟨⟨_, rfl, (hgt _ rfl).mpr ⟨by decide, by decide⟩⟩, ?_, ?_, ?_⟩
  · exact hge.mpr ⟨by decide, fun _ => ⟨by decide, by decide⟩⟩
  · exact hlt.mpr fun _ => ⟨by decide, by decide⟩
  · exact hle.mpr ⟨by decide, fun _ => ⟨by decide, by decide⟩⟩

/-- For the signed operands 0 and -1 of 8 bits the result of `GT` is wrong, and for two zeros that
of `GE` is wrong in 2 bits. -/
theorem comparisons_ne :
  (¬ ∃ Y, gt ⟨true, true, 8, 8, 1⟩ 0#8 255#8 = some Y
      ∧ HasTruth 1 Y (decide (operandInt true 255#8 < operandInt true 0#8)))
    ∧ ¬ HasTruth 2 (ge ⟨false, false, 8, 8, 2⟩ 0#8 0#8)
      (decide (operandInt false 0#8 ≤ operandInt false 0#8))
  := by
  constructor
  · rintro ⟨Y, h, htruth⟩
    obtain rfl := Option.some.inj h
    have hbit := htruth 0 (by decide)
    revert hbit
    decide +kernel
  · intro h
    have hbit := h 1 (by decide)
    cases hbit

end Techmap

import SynCirc.Library.Sub
import SynCirc.Library.Mult
import Mathlib.Data.Nat.Digits.Defs
import Mathlib.Tactic.Ring

/-!
# The dividers of the library

`DIV8`, `DIV16` and `DIV32` divide from the highest position of the quotient to the lowest one.  At
each position they subtract the divisor, moved to the position, from what is left of the dividend.
The carry output of the subtractor is the bit of the quotient, and if it is 1, then the difference
is what is left.

Both outputs of the subtractors may be wrong.  So the quotient is right if and only if at each
position the carry output is right for what is left there, in which the errors of the differences
so far are taken into account.  This comes down to conditions on the dividend, the divisor and the
1-bits of the quotient (`dividers_divide_iff`).
-/

open Signal

section Circuits

variable {m : Nat} (subcM : BitVec m → BitVec m → BitVec m × Bool)
  (muxM : BitVec m → BitVec m → Bool → BitVec m)

/-- The net `A_[n-k]`, which is what is left of the dividend after `k` positions. -/
def divUnit (n : Nat) (A_ B_ : BitVec m) : Nat → BitVec m
  | 0 => A_
  | k + 1 =>
    let A_' := divUnit n A_ B_ k
    let (D, O) := subcM A_' (B_ <<< (n - 1 - k))
    muxM A_' D O

/-- The bit `O[g]` of the quotient. -/
def divBit (n : Nat) (A_ B_ : BitVec m) (g : Nat) : Bool :=
  (subcM (divUnit subcM muxM n A_ B_ (n - 1 - g)) (B_ <<< g)).2

end Circuits

/-- The module `DIV8`. -/
def div8 (A B : BitVec 8) : BitVec 8 :=
  word 8 ((List.range 8).map (divBit subc16 mux16 8 (A.setWidth 16) (B.setWidth 16)))

/-- The module `DIV16`. -/
def div16 (A B : BitVec 16) : BitVec 16 :=
  word 16 ((List.range 16).map (divBit subc32 mux32 16 (A.setWidth 32) (B.setWidth 32)))

/-- The module `DIV32`. -/
def div32 (A B : BitVec 32) : BitVec 32 :=
  word 32 ((List.range 32).map (divBit subc64 mux64 32 (A.setWidth 64) (B.setWidth 64)))

/-! ### Division with a faulty subtractor -/

/-- What is known about the outputs of a subtractor in a divider of `n` bits. -/
structure Subtracts (n : Nat) {m : Nat} (subcM : BitVec m → BitVec m → BitVec m × Bool)
    (keeps : Nat → Nat → Prop) : Prop where
  /-- The carry output of operands of which the first one is short. -/
  cout : ∀ a b : BitVec m, a.toNat < 2 ^ n → ((subcM a b).2 = true ↔ keeps a.toNat b.toNat)
  /-- The difference if the carry output is 1. -/
  wx : ∀ a b : BitVec m, (subcM a b).2 = true →
    (subcM a b).1 = a - b - BitVec.ofNat m (borrowError a.getLsbD b.getLsbD)
  /-- For short operands the carry output is 1 only if the second one is smaller. -/
  lt : ∀ a b, a < 2 ^ n → b < 2 ^ n → keeps a b → b < a

/-- The number of 1-bits. -/
def bitCount (q : Nat) : Nat := (Nat.digits 2 q).sum

/-- The error of a difference that is taken from an even or an odd dividend. -/
def divError (A : Nat) : Nat := if A % 2 = 0 then 2 else 0

/-- What a divider has taken from `A` before the positions below `j`, if the quotient is right so
far.  Besides the multiple of `B` there is the error of the difference for each 1-bit. -/
def taken (A B j : Nat) : Nat :=
  B * (A / B / 2 ^ j * 2 ^ j) + divError A * bitCount (A / B / 2 ^ j)

/-- What a divider has left of `A` before the positions below `j`, if the quotient is right so
far. -/
def remaining (A B j : Nat) : Nat := A - taken A B j

theorem bitCount_eq (q : Nat) :
  bitCount q = q % 2 + bitCount (q / 2)
  := by
  by_cases h : q = 0
  · rw [h]
    rfl
  · rw [bitCount, Nat.digits_eq_cons_digits_div (by decide) h, List.sum_cons]
    rfl

/-- What is taken at a position. -/
theorem taken_eq (A B j : Nat) :
  taken A B j = taken A B (j + 1) + A / B / 2 ^ j % 2 * (B * 2 ^ j + divError A)
  := by
  have hquot : A / B / 2 ^ (j + 1) = A / B / 2 ^ j / 2 := by
    rw [Nat.pow_succ, ← Nat.div_div_eq_div_mul]
  have hdiv := Nat.div_add_mod (A / B / 2 ^ j) 2
  rw [taken, taken, hquot, bitCount_eq, Nat.pow_succ]
  generalize A / B / 2 ^ j = q at hdiv ⊢
  calc
    B * (q * 2 ^ j) + divError A * (q % 2 + bitCount (q / 2))
      = B * ((2 * (q / 2) + q % 2) * 2 ^ j) + divError A * (q % 2 + bitCount (q / 2)) := by
        rw [hdiv]
    _ = _ := by ring

/-- A position with a 0-bit of the quotient. -/
theorem remaining_of_testBit_eq_false {A B j : Nat} (h : (A / B).testBit j = false) :
  remaining A B j = remaining A B (j + 1)
  := by
  rw [Nat.testBit_eq_decide_div_mod_eq, decide_eq_false_iff_not] at h
  rw [remaining, taken_eq, Nat.mod_two_ne_one.mp h, Nat.zero_mul]
  rfl

/-- A position with a 1-bit of the quotient. -/
theorem remaining_of_testBit_eq_true {A B j : Nat} (h : (A / B).testBit j = true) :
  remaining A B j = remaining A B (j + 1) - (B * 2 ^ j + divError A)
  := by
  rw [Nat.testBit_eq_decide_div_mod_eq, decide_eq_true_eq] at h
  rw [remaining, taken_eq, h, Nat.one_mul, Nat.sub_add_eq]
  rfl

theorem remaining_of_le {A B n : Nat} (h : A < 2 ^ n) :
  remaining A B n = A
  := by
  have hquot : A / B / 2 ^ n = 0 := by
    apply Nat.div_eq_of_lt
    apply (Nat.div_le_self A B).trans_lt h
  rw [remaining, taken, hquot, Nat.zero_mul, Nat.mul_zero]
  rfl

/-- A 1-bit of the quotient is at a position to which the divisor can be moved. -/
theorem mul_two_pow_le_of_testBit {A B j : Nat} (h : (A / B).testBit j = true) :
  B * 2 ^ j ≤ A
  := by
  apply (Nat.mul_le_mul_left B (Nat.ge_two_pow_of_testBit h)).trans
  apply Nat.mul_div_le

theorem bitCount_div_le (q g : Nat) :
  bitCount (q / 2 ^ g) ≤ bitCount q
  := by
  induction g with
  | zero => rw [Nat.pow_zero, Nat.div_one]
  | succ g ih =>
      rw [Nat.pow_succ, ← Nat.div_div_eq_div_mul]
      have heq := bitCount_eq (q / 2 ^ g)
      omega

/-- A 1-bit is counted besides those above it. -/
theorem bitCount_lt_of_testBit {q g : Nat} (h : q.testBit g = true) :
  bitCount (q / 2 ^ (g + 1)) < bitCount q
  := by
  rw [Nat.testBit_eq_decide_div_mod_eq, decide_eq_true_eq] at h
  have heq := bitCount_eq (q / 2 ^ g)
  have hle := bitCount_div_le q g
  rw [Nat.pow_succ, ← Nat.div_div_eq_div_mul]
  omega

theorem bitCount_mul_two_pow (q g : Nat) :
  bitCount (q * 2 ^ g) = bitCount q
  := by
  induction g with
  | zero => rw [Nat.pow_zero, Nat.mul_one]
  | succ g ih =>
      rw [Nat.pow_succ, ← Nat.mul_assoc, bitCount_eq, Nat.mul_mod_left, Nat.zero_add,
        Nat.mul_div_cancel _ Nat.two_pos, ih]

/-- The lowest 1-bit is counted besides all other ones. -/
theorem exists_lowest_bit {q : Nat} (hq : q ≠ 0) :
  ∃ g, q.testBit g = true ∧ q % 2 ^ g = 0 ∧ bitCount q = bitCount (q / 2 ^ (g + 1)) + 1
  := by
  classical
  have hex : ∃ g, q.testBit g = true := Nat.exists_testBit_of_ne_zero hq
  have hbit := Nat.find_spec hex
  have hmod : q % 2 ^ Nat.find hex = 0 := by
    apply Nat.zero_of_testBit_eq_false
    intro i
    rw [Nat.testBit_mod_two_pow]
    by_cases hi : i < Nat.find hex
    · rw [Bool.eq_false_of_not_eq_true (Nat.find_min hex hi), Bool.and_false]
    · rw [decide_eq_false hi, Bool.false_and]
  refine ⟨Nat.find hex, hbit, hmod, ?_⟩
  have heq := bitCount_eq (q / 2 ^ Nat.find hex)
  rw [Nat.testBit_eq_decide_div_mod_eq, decide_eq_true_eq] at hbit
  have hcount : bitCount q = bitCount (q / 2 ^ Nat.find hex) := by
    rw [← bitCount_mul_two_pow (q / 2 ^ Nat.find hex) (Nat.find hex),
      Nat.div_mul_cancel (Nat.dvd_of_mod_eq_zero hmod)]
  rw [Nat.pow_succ, ← Nat.div_div_eq_div_mul]
  omega

/-- A dividend is what is taken without errors and what is then left. -/
theorem eq_add_mul_mod (A B j : Nat) :
  A = B * (A / B / 2 ^ j * 2 ^ j) + (B * (A / B % 2 ^ j) + A % B)
  := by
  calc
    A = B * (A / B) + A % B := (Nat.div_add_mod A B).symm
    _ = B * (2 ^ j * (A / B / 2 ^ j) + A / B % 2 ^ j) + A % B := by
      rw [Nat.div_add_mod (A / B) (2 ^ j)]
    _ = _ := by ring

/-- At a 1-bit, what is left exceeds the divisor if the errors are less than the remainder for the
lower positions. -/
theorem lt_remaining_iff {A B g : Nat} (h : (A / B).testBit g = true) :
  B * 2 ^ g < remaining A B (g + 1) ↔
    divError A * bitCount (A / B / 2 ^ (g + 1)) < B * (A / B % 2 ^ g) + A % B
  := by
  have hA := eq_add_mul_mod A B (g + 1)
  rw [Nat.testBit_eq_decide_div_mod_eq, decide_eq_true_eq] at h
  rw [Nat.mod_pow_succ, h, Nat.mul_one, Nat.mul_add] at hA
  rw [remaining, taken]
  omega

/-- At a 0-bit, what is left is less than the divisor. -/
theorem remaining_lt {A B g : Nat} (hB : 0 < B) (h : (A / B).testBit g = false) :
  remaining A B (g + 1) < B * 2 ^ g
  := by
  have hA := eq_add_mul_mod A B (g + 1)
  rw [Nat.testBit_eq_decide_div_mod_eq, decide_eq_false_iff_not] at h
  rw [Nat.mod_pow_succ, Nat.mod_two_ne_one.mp h, Nat.mul_zero, Nat.add_zero (_ % _)] at hA
  calc
    remaining A B (g + 1) ≤ B * (A / B % 2 ^ g) + A % B := by
      rw [remaining, taken]
      omega
    _ < B * (A / B % 2 ^ g) + B := Nat.add_lt_add_left (Nat.mod_lt A hB) _
    _ = B * (A / B % 2 ^ g + 1) := (Nat.mul_succ _ _).symm
    _ ≤ B * 2 ^ g := Nat.mul_le_mul_left B (Nat.mod_lt _ (Nat.two_pow_pos g))

/-- What is left exceeds the divisor at all 1-bits if it does so at the lowest one. -/
theorem forall_lt_remaining_iff (A : Nat) {B : Nat} (hB : 0 < B) :
  (∀ g, (A / B).testBit g = true → B * 2 ^ g < remaining A B (g + 1)) ↔
    A < B ∨ divError A * (bitCount (A / B) - 1) < A % B
  := by
  constructor
  · intro h
    by_cases hq : A / B = 0
    · left
      apply (Nat.div_eq_zero_iff_lt hB).mp hq
    · right
      obtain ⟨g, hbit, hmod, hcount⟩ := exists_lowest_bit hq
      have hlt := (lt_remaining_iff hbit).mp (h g hbit)
      rw [hmod, Nat.mul_zero, Nat.zero_add] at hlt
      rw [hcount, Nat.add_sub_cancel]
      apply hlt
  · rintro (h | h) g hbit
    · rw [Nat.div_eq_of_lt h, Nat.zero_testBit] at hbit
      contradiction
    · rw [lt_remaining_iff hbit]
      have hle : bitCount (A / B / 2 ^ (g + 1)) ≤ bitCount (A / B) - 1 :=
        Nat.le_sub_one_of_lt (bitCount_lt_of_testBit hbit)
      have hmul := Nat.mul_le_mul_left (divError A) hle
      omega

/-- The remainder of the division exceeds the errors of all 1-bits of the quotient but the lowest
one, if there is one. -/
def RemainderFits (A B : Nat) : Prop :=
  A < B ∨ divError A * (bitCount (A / B) - 1) < A % B

/-- At each 1-bit of the quotient, what is left after the subtraction fits in the lowest 11 bits
besides those of the moved divisor. -/
def LowBitsFit (A B : Nat) : Prop :=
  ∀ g, (A / B).testBit g = true →
    B * 2 ^ g % 2 ^ 11 + (B * (A / B % 2 ^ g) + A % B)
      < 2 ^ 11 + divError A * bitCount (A / B / 2 ^ (g + 1))

/-- The carry output of `SUBC16` and `SUBC32` is 1. -/
def Keeps (a b : Nat) : Prop := b < a ∧ a / 2 ^ 11 = b / 2 ^ 11

/-- At a 1-bit, the carry output is 1 if what is left exceeds the divisor in the lowest 11 bits. -/
theorem keeps_remaining_iff {A B g : Nat} (h : (A / B).testBit g = true) :
  Keeps (remaining A B (g + 1)) (B * 2 ^ g) ↔
    B * 2 ^ g < remaining A B (g + 1)
      ∧ B * 2 ^ g % 2 ^ 11 + (B * (A / B % 2 ^ g) + A % B)
        < 2 ^ 11 + divError A * bitCount (A / B / 2 ^ (g + 1))
  := by
  have hlt := lt_remaining_iff h
  have hA := eq_add_mul_mod A B (g + 1)
  rw [Nat.testBit_eq_decide_div_mod_eq, decide_eq_true_eq] at h
  rw [Nat.mod_pow_succ, h, Nat.mul_one, Nat.mul_add] at hA
  rw [Keeps]
  apply and_congr_right
  intro hgt
  have hrest := hlt.mp hgt
  rw [remaining, taken] at hgt ⊢
  omega

/-- The carry outputs are 1 at all 1-bits. -/
theorem forall_keeps_remaining_iff (A : Nat) {B : Nat} (hB : 0 < B) :
  (∀ g, (A / B).testBit g = true → Keeps (remaining A B (g + 1)) (B * 2 ^ g)) ↔
    RemainderFits A B ∧ LowBitsFit A B
  := by
  rw [RemainderFits, LowBitsFit, ← forall_lt_remaining_iff A hB, ← forall_and]
  apply forall_congr'
  intro g
  rw [← imp_and]
  apply imp_congr_right
  intro hbit
  apply keeps_remaining_iff hbit

/-- The error of the difference of an even subtrahend depends on the minuend only. -/
theorem borrowError_of_even {m : Nat} (a : BitVec m) {b : BitVec m} (hb : b.toNat % 2 = 0) :
  borrowError a.getLsbD b.getLsbD = divError a.toNat
  := by
  have ha : a.getLsbD 0 = b.getLsbD 0 ↔ a.toNat % 2 = 0 := by
    rw [BitVec.getLsbD, BitVec.getLsbD, Nat.testBit_zero, Nat.testBit_zero, hb, decide_eq_decide]
    omega
  simp only [borrowError, divError, ha]

section Division

variable {n m : Nat} {subcM : BitVec m → BitVec m → BitVec m × Bool} {keeps : Nat → Nat → Prop}
  (hsubc : Subtracts n subcM keeps)
include hsubc

/-- The difference of an even subtrahend. -/
theorem Subtracts.toNat_wx {a b : BitVec m} (ha : a.toNat < 2 ^ n) (hb : b.toNat < 2 ^ n)
    (heven : b.toNat % 2 = 0) (h : (subcM a b).2 = true) :
  (subcM a b).1.toNat = a.toNat - (b.toNat + divError a.toNat)
    ∧ b.toNat + divError a.toNat ≤ a.toNat
  := by
  have hlt := hsubc.lt _ _ ha hb ((hsubc.cout a b ha).mp h)
  have hle : b.toNat + divError a.toNat ≤ a.toNat := by
    rw [divError]
    split <;> omega
  have herr : (BitVec.ofNat m (divError a.toNat)).toNat = divError a.toNat := by
    rw [BitVec.toNat_ofNat]
    apply Nat.mod_eq_of_lt
    apply Nat.lt_of_le_of_lt _ a.isLt
    omega
  have hdiff : (a - b).toNat = a.toNat - b.toNat := BitVec.toNat_sub_of_le hlt.le
  refine ⟨?_, hle⟩
  rw [hsubc.wx a b h, borrowError_of_even a heven, BitVec.toNat_sub_of_le, hdiff, herr, Nat.sub_sub]
  rw [BitVec.le_def, hdiff, herr]
  omega

variable {A_ B_ : BitVec m} (hA : A_.toNat < 2 ^ n) (hB : B_.toNat < 2 ^ n) (hm : 2 * n ≤ m)
include hA hB hm

/-- If the bits of the quotient are right so far, then what is left is known. -/
theorem toNat_divUnit {k : Nat} (hk : k < n)
    (hbits : ∀ g, n - k ≤ g → g < n →
      divBit subcM mux n A_ B_ g = (A_.toNat / B_.toNat).testBit g) :
  (divUnit subcM mux n A_ B_ k).toNat = remaining A_.toNat B_.toNat (n - k)
    ∧ remaining A_.toNat B_.toNat (n - k) % 2 = A_.toNat % 2
  := by
  induction k with
  | zero =>
      rw [Nat.sub_zero, remaining_of_le hA]
      exact ⟨rfl, rfl⟩
  | succ k ih =>
      obtain ⟨g, hg⟩ : ∃ g, n - (k + 1) = g + 1 := ⟨n - (k + 1) - 1, by omega⟩
      obtain ⟨hrest, hparity⟩ := ih (by omega) fun g hg hg' => hbits g (by omega) hg'
      have hbit := hbits (g + 1) (by omega) (by omega)
      rw [divBit, show n - 1 - (g + 1) = k by omega] at hbit
      rw [show n - k = g + 1 + 1 by omega] at hrest hparity
      change (mux _ (subcM _ _).1 (subcM _ _).2).toNat = _ ∧ _
      rw [show n - 1 - k = g + 1 by omega, mux_eq, hbit, hg]
      cases hq : (A_.toNat / B_.toNat).testBit (g + 1) with
      | false =>
          rw [remaining_of_testBit_eq_false hq]
          exact ⟨hrest, hparity⟩
      | true =>
          have hshift : (B_ <<< (g + 1)).toNat = B_.toNat * 2 ^ (g + 1) :=
            toNat_shiftLeft_of_lt hB (by omega)
          have heven : B_.toNat * 2 ^ (g + 1) % 2 = 0 := by
            rw [Nat.pow_succ, ← Nat.mul_assoc, Nat.mul_mod_left]
          obtain ⟨hwx, hle⟩ := hsubc.toNat_wx (hrest ▸ (Nat.sub_le _ _).trans_lt hA)
            (hshift ▸ (mul_two_pow_le_of_testBit hq).trans_lt hA) (hshift ▸ heven)
            (hbit.trans hq)
          have herr : divError (remaining A_.toNat B_.toNat (g + 1 + 1)) = divError A_.toNat := by
            rw [divError, divError, hparity]
          have herreven : divError A_.toNat % 2 = 0 := by
            rw [divError]
            split <;> rfl
          rw [hshift, hrest, herr] at hwx hle
          rw [if_pos rfl, hwx, remaining_of_testBit_eq_true hq]
          refine ⟨rfl, ?_⟩
          omega

/-- If the bits of the quotient above a position are right, then the bit at it is the carry output
for what is left. -/
theorem divBit_iff {g : Nat} (hg : g < n)
    (hbits : ∀ g', g < g' → g' < n →
      divBit subcM mux n A_ B_ g' = (A_.toNat / B_.toNat).testBit g') :
  divBit subcM mux n A_ B_ g = true ↔
    keeps (remaining A_.toNat B_.toNat (g + 1)) (B_.toNat * 2 ^ g)
  := by
  have hrest := (toNat_divUnit hsubc hA hB hm (k := n - 1 - g) (by omega)
    fun g' hg' => hbits g' (by omega)).1
  rw [show n - (n - 1 - g) = g + 1 by omega] at hrest
  rw [divBit, hsubc.cout _ _ (hrest ▸ (Nat.sub_le _ _).trans_lt hA), hrest,
    toNat_shiftLeft_of_lt hB (by omega)]

/-- The bits are those of the quotient if and only if the carry outputs are right for what is left
at each position. -/
theorem divBit_eq_testBit_iff :
  (∀ g < n, divBit subcM mux n A_ B_ g = (A_.toNat / B_.toNat).testBit g) ↔
    ∀ g < n, (A_.toNat / B_.toNat).testBit g = true ↔
      keeps (remaining A_.toNat B_.toNat (g + 1)) (B_.toNat * 2 ^ g)
  := by
  constructor
  · intro h g hg
    rw [← h g hg]
    apply divBit_iff hsubc hA hB hm hg fun g' _ hg' => h g' hg'
  · intro h
    have hall : ∀ k, ∀ g, n - k ≤ g → g < n →
        divBit subcM mux n A_ B_ g = (A_.toNat / B_.toNat).testBit g := by
      intro k
      induction k with
      | zero =>
          intro g hg hg'
          omega
      | succ k ih =>
          intro g hg hg'
          apply Bool.eq_iff_iff.mpr
          rw [h g hg']
          apply divBit_iff hsubc hA hB hm hg' fun g' hg' => ih g' (by omega)
    intro g hg
    apply hall n g (by omega) hg

end Division

/-! ### The subtractors of the dividers -/

/-- The carry output of `SUBC64` is 1, for a first operand of 32 bits. -/
def Keeps64 (a b : Nat) : Prop :=
  b % 2 ^ 11 < a % 2 ^ 11
    ∧ (∀ i, 11 ≤ i → i ≤ 31 → a.testBit i = b.testBit i)
    ∧ ∀ i, 44 ≤ i ∧ i ≤ 55 ∨ 60 ≤ i ∧ i ≤ 62 → b.testBit i = false

/-- For short operands the carry output of `SUBC64` is that of the other subtractors. -/
theorem keeps_of_keeps64 {a b : Nat} (ha : a < 2 ^ 32) (hb : b < 2 ^ 32) (h : Keeps64 a b) :
  Keeps a b
  := by
  have hdiv : a / 2 ^ 11 = b / 2 ^ 11 := by
    apply Nat.eq_of_testBit_eq
    intro i
    rw [Nat.testBit_div_two_pow, Nat.testBit_div_two_pow]
    by_cases hi : i + 11 ≤ 31
    · apply h.2.1 _ (by omega) hi
    · have hpow : 2 ^ 32 ≤ 2 ^ (i + 11) := Nat.pow_le_pow_right Nat.two_pos (by omega)
      rw [Nat.testBit_lt_two_pow (ha.trans_le hpow), Nat.testBit_lt_two_pow (hb.trans_le hpow)]
  have hmod := h.1
  refine ⟨?_, hdiv⟩
  omega

theorem keeps64_iff {a b : Nat} (ha : a < 2 ^ 32) (hb : b < 2 ^ 32) :
  Keeps64 a b ↔ Keeps a b
  := by
  use keeps_of_keeps64 ha hb
  rintro ⟨hlt, hdiv⟩
  refine ⟨by omega, ?_, ?_⟩
  · intro i hi _
    have hbit := congrArg (fun q => q.testBit (i - 11)) hdiv
    simp only [Nat.testBit_div_two_pow, Nat.sub_add_cancel hi] at hbit
    apply hbit
  · intro i hi
    apply Nat.testBit_lt_two_pow
    apply hb.trans_le
    apply Nat.pow_le_pow_right Nat.two_pos
    omega

theorem subtracts_subc16 :
  Subtracts 8 subc16 Keeps
  := by
  constructor
  · intro a b _
    rw [subc16_cout, Keeps, and_comm]
  · intro a b _
    apply subc16_wx
  · intro a b _ _ h
    apply h.1

theorem subtracts_subc32 :
  Subtracts 16 subc32 Keeps
  := by
  constructor
  · intro a b _
    rw [subc32_cout, Keeps, and_comm]
  · intro a b _
    apply subc32_wx
  · intro a b _ _ h
    apply h.1

theorem subtracts_subc64 :
  Subtracts 32 subc64 Keeps64
  := by
  constructor
  · intro a b ha
    have hhigh : ∀ i, 32 ≤ i → a.getLsbD i = false := by
      intro i hi
      apply Nat.testBit_lt_two_pow
      apply ha.trans_le
      apply Nat.pow_le_pow_right Nat.two_pos hi
    rw [subc64_cout, BorrowsNot, Keeps64]
    apply and_congr_right
    intro _
    apply and_congr_right
    intro _
    constructor
    · intro h i hi
      obtain ⟨j, rfl⟩ := Nat.exists_eq_succ_of_ne_zero (show i ≠ 0 by omega)
      have heq := (h j (by omega)).mpr fun hj => by
        rw [hhigh j (by omega)] at hj
        exact Bool.false_ne_true hj.1
      rw [hhigh (j + 1) (by omega)] at heq
      exact heq.symm
    · intro h i hi
      rw [hhigh i (by omega), hhigh (i + 1) (by omega)]
      apply iff_of_true
      · exact (h (i + 1) (by omega)).symm
      · exact fun hi => Bool.false_ne_true hi.1
  · intro a b h
    apply subc64_wx h
  · intro a b ha hb h
    apply (keeps_of_keeps64 ha hb h).1

/-! ### The dividers -/

/-- The output of a divider is the quotient if and only if the carry outputs are right for what is
left at each position. -/
theorem toNat_div_iff {n m : Nat} {subcM : BitVec m → BitVec m → BitVec m × Bool}
    {keeps : Nat → Nat → Prop} (hsubc : Subtracts n subcM keeps) (hm : 2 * n ≤ m)
    (A B : BitVec n) :
  (word n ((List.range n).map (divBit subcM mux n (A.setWidth m) (B.setWidth m)))).toNat
      = A.toNat / B.toNat
    ↔ ∀ g < n, (A.toNat / B.toNat).testBit g = true ↔
      keeps (remaining A.toNat B.toNat (g + 1)) (B.toNat * 2 ^ g)
  := by
  have hwidth : ∀ x : BitVec n, (x.setWidth m).toNat = x.toNat := by
    intro x
    rw [BitVec.toNat_setWidth, Nat.mod_eq_of_lt]
    apply x.isLt.trans_le
    apply Nat.pow_le_pow_right Nat.two_pos (by omega)
  have hA : (A.setWidth m).toNat < 2 ^ n := hwidth A ▸ A.isLt
  have hB : (B.setWidth m).toNat < 2 ^ n := hwidth B ▸ B.isLt
  have hbits := divBit_eq_testBit_iff hsubc hA hB hm
  rw [hwidth, hwidth] at hbits
  rw [toNat_word_eq_iff ((Nat.div_le_self _ _).trans_lt A.isLt), hbits]

/-- No divider divides a number by itself. -/
theorem toNat_div_self_ne {n m : Nat} {subcM : BitVec m → BitVec m → BitVec m × Bool}
    {keeps : Nat → Nat → Prop} (hsubc : Subtracts n subcM keeps) (hm : 2 * n ≤ m)
    {A : BitVec n} (hA : A ≠ 0) :
  (word n ((List.range n).map (divBit subcM mux n (A.setWidth m) (A.setWidth m)))).toNat
    ≠ A.toNat / A.toNat
  := by
  intro h
  have hpos := BitVec.toNat_pos_of_ne_zero hA
  have hn : 0 < n := by
    apply Nat.pos_of_ne_zero
    rintro rfl
    apply hA
    apply BitVec.eq_nil
  have hremaining : remaining A.toNat A.toNat 1 = A.toNat := by
    rw [remaining, taken, Nat.div_self hpos]
    rfl
  -- the only 1-bit of the quotient would have to subtract the number from itself
  have hkeeps := ((toNat_div_iff hsubc hm A A).mp h 0 hn).mp (by rw [Nat.div_self hpos]; rfl)
  rw [hremaining, Nat.pow_zero, Nat.mul_one] at hkeeps
  exact (hsubc.lt _ _ A.isLt A.isLt hkeeps).false

/-- If the carry output is 1 only for a smaller subtrahend, then it is right at the 0-bits. -/
theorem forall_testBit_iff {A B n : Nat} (hB : 0 < B) (hA : A < 2 ^ n) :
  (∀ g < n, (A / B).testBit g = true ↔ Keeps (remaining A B (g + 1)) (B * 2 ^ g)) ↔
    ∀ g, (A / B).testBit g = true → Keeps (remaining A B (g + 1)) (B * 2 ^ g)
  := by
  constructor
  · intro h g hg
    by_cases hn : g < n
    · apply (h g hn).mp hg
    · have hle := (Nat.ge_two_pow_of_testBit hg).trans (Nat.div_le_self A B)
      have hpow : 2 ^ n ≤ 2 ^ g := Nat.pow_le_pow_right Nat.two_pos (by omega)
      omega
  · intro h g _
    refine ⟨h g, ?_⟩
    intro hkeeps
    by_contra hbit
    have hlt := remaining_lt hB (Bool.eq_false_of_not_eq_true hbit)
    have hgt := hkeeps.1
    omega

/-- No divisor that has been moved beyond 32 bits, and so exceeds the dividend, looks smaller to
`SUBC64`. -/
def NoFalseBit (A B : Nat) : Prop :=
  ∀ g < 32, 2 ^ 32 ≤ B * 2 ^ g → ¬ Keeps64 A (B * 2 ^ g)

/-- The carry outputs of `SUBC64` are those of the other subtractors, except for divisors that have
been moved beyond 32 bits. -/
theorem forall_keeps64_iff {A B : Nat} (hB : 0 < B) (hA : A < 2 ^ 32) :
  (∀ g < 32, (A / B).testBit g = true ↔ Keeps64 (remaining A B (g + 1)) (B * 2 ^ g)) ↔
    (∀ g, (A / B).testBit g = true → Keeps (remaining A B (g + 1)) (B * 2 ^ g))
      ∧ NoFalseBit A B
  := by
  have hrest : ∀ g, remaining A B (g + 1) < 2 ^ 32 := fun g => (Nat.sub_le _ _).trans_lt hA
  have hbeyond : ∀ g, 2 ^ 32 ≤ B * 2 ^ g →
      (A / B).testBit g = false ∧ remaining A B (g + 1) = A := by
    intro g hg
    have hquot : A / B < 2 ^ g := by
      apply (Nat.div_lt_iff_lt_mul hB).mpr
      rw [Nat.mul_comm]
      apply hA.trans_le hg
    use Nat.testBit_lt_two_pow hquot
    have hzero : A / B / 2 ^ (g + 1) = 0 := by
      apply Nat.div_eq_of_lt
      apply hquot.trans
      apply Nat.pow_lt_pow_right Nat.one_lt_two (Nat.lt_succ_self g)
    rw [remaining, taken, hzero, Nat.zero_mul, Nat.mul_zero]
    rfl
  rw [← forall_testBit_iff hB hA]
  constructor
  · intro h
    constructor
    · intro g hg
      by_cases hshift : B * 2 ^ g < 2 ^ 32
      · rw [h g hg, keeps64_iff (hrest g) hshift]
      · obtain ⟨hbit, hremaining⟩ := hbeyond g (Nat.le_of_not_lt hshift)
        rw [hbit, hremaining]
        apply iff_of_false Bool.false_ne_true
        intro hkeeps
        have hlt := hkeeps.1
        omega
    · intro g hg hshift hkeeps
      obtain ⟨hbit, hremaining⟩ := hbeyond g hshift
      rw [← hremaining, ← h g hg, hbit] at hkeeps
      contradiction
  · rintro ⟨h, hfalse⟩ g hg
    by_cases hshift : B * 2 ^ g < 2 ^ 32
    · rw [h g hg, keeps64_iff (hrest g) hshift]
    · have hge := Nat.le_of_not_lt hshift
      obtain ⟨hbit, hremaining⟩ := hbeyond g hge
      rw [hbit, hremaining]
      apply iff_of_false Bool.false_ne_true (hfalse g hg hge)

/-- When the dividers divide. -/
theorem dividers_divide_iff (A₁ B₁ : BitVec 8) (A₂ B₂ : BitVec 16) (A₃ B₃ : BitVec 32)
    (h₁ : B₁ ≠ 0) (h₂ : B₂ ≠ 0) (h₃ : B₃ ≠ 0) :
  ((div8 A₁ B₁).toNat = A₁.toNat / B₁.toNat ↔ RemainderFits A₁.toNat B₁.toNat)
    ∧ ((div16 A₂ B₂).toNat = A₂.toNat / B₂.toNat ↔
      RemainderFits A₂.toNat B₂.toNat ∧ LowBitsFit A₂.toNat B₂.toNat)
    ∧ ((div32 A₃ B₃).toNat = A₃.toNat / B₃.toNat ↔
      (RemainderFits A₃.toNat B₃.toNat ∧ LowBitsFit A₃.toNat B₃.toNat)
        ∧ NoFalseBit A₃.toNat B₃.toNat)
  := by
  refine ⟨?_, ?_, ?_⟩
  · have hpos := BitVec.toNat_pos_of_ne_zero h₁
    apply (toNat_div_iff subtracts_subc16 (by decide) A₁ B₁).trans
    rw [forall_testBit_iff hpos A₁.isLt, RemainderFits, ← forall_lt_remaining_iff _ hpos]
    apply forall_congr'
    intro g
    apply imp_congr_right
    intro _
    have hle : remaining A₁.toNat B₁.toNat (g + 1) ≤ A₁.toNat := Nat.sub_le _ _
    have hA := A₁.isLt
    rw [Keeps]
    omega
  · have hpos := BitVec.toNat_pos_of_ne_zero h₂
    apply (toNat_div_iff subtracts_subc32 (by decide) A₂ B₂).trans
    rw [forall_testBit_iff hpos A₂.isLt, forall_keeps_remaining_iff _ hpos]
  · have hpos := BitVec.toNat_pos_of_ne_zero h₃
    apply (toNat_div_iff subtracts_subc64 (by decide) A₃ B₃).trans
    rw [forall_keeps64_iff hpos A₃.isLt, forall_keeps_remaining_iff _ hpos]

theorem dividers_divide_seven_two :
  (div8 7 2).toNat = (7#8).toNat / (2#8).toNat
    ∧ ¬ (div16 10 3).toNat = (10#16).toNat / (3#16).toNat
    ∧ ¬ (div32 1 1).toNat = (1#32).toNat / (1#32).toNat
  := by
  obtain ⟨h8, h16, h32⟩ :=
    dividers_divide_iff 7 2 10 3 1 1 (by decide) (by decide) (by decide)
  refine ⟨?_, ?_, ?_⟩
  · apply h8.mpr
    rw [RemainderFits]
    decide
  · intro h
    have hfits := (h16.mp h).1
    rw [RemainderFits] at hfits
    revert hfits
    decide
  · intro h
    have hfits := (h32.mp h).1.1
    rw [RemainderFits] at hfits
    revert hfits
    decide

/-- No divider divides 1 by 1. -/
theorem dividers_one_one :
  (div8 1 1).toNat ≠ (1#8).toNat / (1#8).toNat
    ∧ (div16 1 1).toNat ≠ (1#16).toNat / (1#16).toNat
    ∧ (div32 1 1).toNat ≠ (1#32).toNat / (1#32).toNat
  := by
  refine ⟨?_, ?_, ?_⟩
  · apply toNat_div_self_ne subtracts_subc16 (by decide) (A := 1) (by decide)
  · apply toNat_div_self_ne subtracts_subc32 (by decide) (A := 1) (by decide)
  · apply toNat_div_self_ne subtracts_subc64 (by decide) (A := 1) (by decide)

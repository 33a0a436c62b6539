import SynCirc.Signal.Basic
import Mathlib.Data.Nat.Bitwise
import Mathlib.Data.Nat.Find

/-!
# Words

The bits of a word are a signal for each position.  This file has the circuits that compute the
carries of a sum and the order of two words one position after the other, and their values on the
bits of words.  They are what a circuit that does the same in fewer levels of gates is compared
with.
-/

namespace Signal

/-- The word with the given bits, of which the first one is the least significant. -/
def word (n : Nat) (l : List Bool) : BitVec n := (BitVec.ofBoolListLE l).setWidth n

@[simp]
theorem getLsbD_word (n : Nat) (l : List Bool) (i : Nat) :
  (word n l).getLsbD i = (decide (i < n) && l.getD i false)
  := by
  rw [word, BitVec.getLsbD_setWidth, BitVec.getLsbD_ofBoolListLE]

theorem getD_map_range {α : Type} (f : Nat → α) {n i : Nat} (hi : i < n) (d : α) :
  ((List.range n).map f).getD i d = f i
  := by
  rw [List.getD_eq_getElem?_getD, List.getElem?_map, List.getElem?_range hi]
  rfl

variable {α : Type} [Signal α]

/-- The conjunction of the signals at the given positions. -/
def all (p : Nat → α) (l : List Nat) : α := l.foldr (fun i c => p i &&& c) high

/-- The carry into a position. -/
def carry (a b : Nat → α) : Nat → α
  | 0 => low
  | i + 1 => (a i &&& b i) ^^^ ((a i ^^^ b i) &&& carry a b i)

/-- The sum at a position. -/
def sum (a b : Nat → α) (i : Nat) : α := (a i ^^^ b i) ^^^ carry a b i

/-- The positions below the given one are greater in `a` than in `b`. -/
def greater (a b : Nat → α) : Nat → α
  | 0 => low
  | i + 1 => (a i &&& ~~~ b i) ^^^ (~~~ (a i ^^^ b i) &&& greater a b i)

/-! ### The circuits are made of gates only -/

section Natural

variable (v : Nat → α) (a b : Nat → Expr Nat)

theorem eval_all (p : Nat → Expr Nat) (l : List Nat) :
  (all p l).eval v = all (fun i => (p i).eval v) l
  := by
  induction l with
  | nil => rfl
  | cons i l ih =>
      change (p i).eval v &&& (all p l).eval v = _
      rw [ih]
      rfl

theorem eval_carry (i : Nat) :
  (carry a b i).eval v = carry (fun i => (a i).eval v) (fun i => (b i).eval v) i
  := by
  induction i with
  | zero => rfl
  | succ i ih =>
      change ((a i).eval v &&& (b i).eval v)
        ^^^ (((a i).eval v ^^^ (b i).eval v) &&& (carry a b i).eval v) = _
      rw [ih]
      rfl

theorem eval_sum (i : Nat) :
  (sum a b i).eval v = sum (fun i => (a i).eval v) (fun i => (b i).eval v) i
  := by
  change ((a i).eval v ^^^ (b i).eval v) ^^^ (carry a b i).eval v = _
  rw [eval_carry]
  rfl

theorem eval_greater (i : Nat) :
  (greater a b i).eval v = greater (fun i => (a i).eval v) (fun i => (b i).eval v) i
  := by
  induction i with
  | zero => rfl
  | succ i ih =>
      change ((a i).eval v &&& ~~~ (b i).eval v)
        ^^^ (~~~ ((a i).eval v ^^^ (b i).eval v) &&& (greater a b i).eval v) = _
      rw [ih]
      rfl

end Natural

theorem natural_sum (n : Nat) :
  Natural fun _ _ a b => (List.range n).map (sum a b)
  := by
  intro α _ v a b
  rw [List.map_map]
  apply List.map_congr_left
  intro i _
  apply eval_sum

theorem natural_greater (i : Nat) :
  Natural fun _ _ a b => [greater a b i]
  := by
  intro α _ v a b
  rw [List.map_singleton, eval_greater]

/-! ### Their values on numbers -/

/-- The number whose bits are the ones below the given position. -/
def value (f : Nat → Bool) : Nat → Nat
  | 0 => 0
  | k + 1 => value f k + 2 ^ k * (f k).toNat

theorem value_lt (f : Nat → Bool) (k : Nat) :
  value f k < 2 ^ k
  := by
  induction k with
  | zero => exact Nat.one_pos
  | succ k ih =>
      rw [value, Nat.pow_succ]
      cases f k <;> simp only [Bool.toNat_true, Bool.toNat_false] <;> omega

theorem value_congr {f g : Nat → Bool} {k : Nat} (h : ∀ i < k, f i = g i) :
  value f k = value g k
  := by
  induction k with
  | zero => rfl
  | succ k ih =>
      rw [value, value, h k k.lt_succ_self, ih fun i hi => h i (hi.trans k.lt_succ_self)]

theorem value_mod_two (f : Nat → Bool) (k : Nat) :
  value f (k + 1) % 2 = (f 0).toNat
  := by
  induction k with
  | zero =>
      rw [value, value]
      cases f 0 <;> rfl
  | succ k ih =>
      rw [value, Nat.pow_succ', Nat.mul_assoc, Nat.add_mul_mod_self_left, ih]

/-- The lowest bits of a number give its remainder. -/
theorem value_testBit (q k : Nat) :
  value q.testBit k = q % 2 ^ k
  := by
  induction k with
  | zero => rw [value, Nat.pow_zero, Nat.mod_one]
  | succ k ih => rw [value, ih, Nat.mod_pow_succ, ← Nat.toNat_testBit]

theorem value_getLsbD {n : Nat} (x : BitVec n) (k : Nat) :
  value x.getLsbD k = x.toNat % 2 ^ k
  := value_testBit x.toNat k

/-- The bits of a word from a position on give its quotient. -/
theorem value_add_getLsbD {n : Nat} (x : BitVec n) (k m : Nat) :
  value (fun i => x.getLsbD (k + i)) m = x.toNat / 2 ^ k % 2 ^ m
  := by
  rw [← Nat.shiftRight_eq_div_pow, ← BitVec.toNat_ushiftRight, ← value_getLsbD]
  apply value_congr
  intro i _
  rw [BitVec.getLsbD_ushiftRight]

/-- The bits of words are equal from a position on if their quotients are equal. -/
theorem forall_getLsbD_eq_iff {n : Nat} (x y : BitVec n) {m l : Nat} (hn : n ≤ m + l) :
  (∀ i ∈ List.range' m l, x.getLsbD i = y.getLsbD i) ↔ x.toNat / 2 ^ m = y.toNat / 2 ^ m
  := by
  constructor
  · intro h
    apply Nat.eq_of_testBit_eq
    intro i
    rw [Nat.testBit_div_two_pow, Nat.testBit_div_two_pow]
    change x.getLsbD (i + m) = y.getLsbD (i + m)
    by_cases hi : i < l
    · apply h
      rw [List.mem_range'_1]
      omega
    · rw [BitVec.getLsbD_of_ge x _ (by omega), BitVec.getLsbD_of_ge y _ (by omega)]
  · intro h i hi
    obtain ⟨hmi, -⟩ := List.mem_range'_1.mp hi
    have hbit := congrArg (fun q => q.testBit (i - m)) h
    simp only [Nat.testBit_div_two_pow, Nat.sub_add_cancel hmi] at hbit
    apply hbit

/-- A short word that is moved within its width. -/
theorem toNat_shiftLeft_of_lt {n m g : Nat} {x : BitVec m} (hx : x.toNat < 2 ^ n)
    (hg : n + g ≤ m) :
  (x <<< g).toNat = x.toNat * 2 ^ g
  := by
  rw [BitVec.toNat_shiftLeft, Nat.shiftLeft_eq, Nat.mod_eq_of_lt]
  calc
    x.toNat * 2 ^ g < 2 ^ n * 2 ^ g := Nat.mul_lt_mul_of_pos_right hx (Nat.two_pow_pos g)
    _ = 2 ^ (n + g) := (Nat.pow_add 2 n g).symm
    _ ≤ 2 ^ m := Nat.pow_le_pow_right Nat.two_pos hg

theorem toNat_word (f : Nat → Bool) (n : Nat) :
  (word n ((List.range n).map f)).toNat = value f n
  := by
  rw [← Nat.mod_eq_of_lt (BitVec.isLt _), ← value_getLsbD]
  apply value_congr
  intro i hi
  rw [getLsbD_word, decide_eq_true hi, Bool.true_and, getD_map_range f hi]

/-- A word is the number with the given bits. -/
theorem toNat_word_eq_iff {n q : Nat} (hq : q < 2 ^ n) (f : Nat → Bool) :
  (word n ((List.range n).map f)).toNat = q ↔ ∀ g < n, f g = q.testBit g
  := by
  constructor
  · rintro rfl g hg
    change f g = (word n ((List.range n).map f)).getLsbD g
    rw [getLsbD_word, decide_eq_true hg, Bool.true_and, getD_map_range f hg]
  · intro h
    rw [toNat_word, value_congr h, value_testBit, Nat.mod_eq_of_lt hq]

theorem all_iff (p : Nat → Bool) (l : List Nat) :
  all p l = true ↔ ∀ i ∈ l, p i = true
  := by
  induction l with
  | nil => simp only [all, List.foldr_nil, high_bool, List.not_mem_nil, false_imp_iff, implies_true]
  | cons i l ih =>
      change (p i && all p l) = true ↔ _
      rw [Bool.and_eq_true, ih, List.forall_mem_cons]

/-- The sum and the carry out of it are the sum of the numbers. -/
theorem value_sum (a b : Nat → Bool) (k : Nat) :
  value (sum a b) k + 2 ^ k * (carry a b k).toNat = value a k + value b k
  := by
  induction k with
  | zero => rfl
  | succ k ih =>
      rw [value, value, value, carry, sum, Nat.pow_succ]
      cases a k <;> cases b k <;> cases hc : carry a b k <;> rw [hc] at ih <;>
        simp at ih ⊢ <;> omega

/-- The carry into a position is the carry out of the positions below it. -/
theorem carry_iff (a b : Nat → Bool) (k : Nat) :
  carry a b k = true ↔ 2 ^ k ≤ value a k + value b k
  := by
  have hsum := value_sum a b k
  have hlt := value_lt (sum a b) k
  cases hc : carry a b k <;> rw [hc] at hsum <;> simp at hsum ⊢ <;> omega

/-- A carry is propagated by positions with different bits. -/
theorem carry_add_of_ne {a b : Nat → Bool} {m l : Nat}
    (h : ∀ i, m ≤ i → i < m + l → a i ≠ b i) :
  carry a b (m + l) = carry a b m
  := by
  induction l with
  | zero => rfl
  | succ l ih =>
      have hne := h (m + l) (by omega) (by omega)
      rw [← Nat.add_assoc, carry, ih fun i hi hi' => h i hi (by omega)]
      revert hne
      cases a (m + l) <;> cases b (m + l) <;> cases carry a b m <;> decide

/-- The highest position with the same bit decides the carry. -/
theorem carry_of_eq {a b : Nat → Bool} {i n : Nat} (hi : i < n) (heq : a i = b i)
    (hne : ∀ j, i < j → j < n → a j ≠ b j) :
  carry a b n = a i
  := by
  obtain ⟨l, rfl⟩ := Nat.exists_eq_add_of_le hi
  rw [carry_add_of_ne fun j hj hj' => hne j hj hj', carry]
  rw [← heq]
  cases a i <;> cases carry a b i <;> rfl

/-- The highest position with a property. -/
theorem exists_highest (p : Nat → Prop) {j n : Nat} (hj : j < n) (hp : p j) :
  ∃ i, j ≤ i ∧ i < n ∧ p i ∧ ∀ k, i < k → k < n → ¬ p k
  := by
  classical
  have hle : j ≤ n - 1 := Nat.le_sub_one_of_lt hj
  refine ⟨Nat.findGreatest p (n - 1), Nat.le_findGreatest hle hp, ?_,
    Nat.findGreatest_spec hle hp, ?_⟩
  · apply Nat.lt_of_le_of_lt (Nat.findGreatest_le (n - 1))
    omega
  · intro k hk hkn
    apply Nat.findGreatest_is_greatest hk (Nat.le_sub_one_of_lt hkn)

theorem value_sum_mod (a b : Nat → Bool) (k : Nat) :
  value (sum a b) k = (value a k + value b k) % 2 ^ k
  := by
  rw [← value_sum a b k, Nat.add_mul_mod_self_left, Nat.mod_eq_of_lt (value_lt _ k)]

/-- The sums at all positions are the sum of the words. -/
theorem word_sum {n : Nat} (x y : BitVec n) :
  word n ((List.range n).map (sum x.getLsbD y.getLsbD)) = x + y
  := by
  apply BitVec.eq_of_toNat_eq
  rw [toNat_word, value_sum_mod, value_getLsbD, value_getLsbD, ← Nat.add_mod, BitVec.toNat_add]

theorem sum_getLsbD {n : Nat} (x y : BitVec n) {i : Nat} (hi : i < n) :
  sum x.getLsbD y.getLsbD i = (x + y).getLsbD i
  := by
  rw [← word_sum, getLsbD_word, decide_eq_true hi, Bool.true_and, getD_map_range _ hi]

/-- The positions below the given one are compared as numbers. -/
theorem greater_iff (a b : Nat → Bool) (k : Nat) :
  greater a b k = true ↔ value b k < value a k
  := by
  induction k with
  | zero => simp only [greater, value, low_bool, Bool.false_eq_true, lt_irrefl]
  | succ k ih =>
      have ha := value_lt a k
      have hb := value_lt b k
      rw [value, value, greater]
      generalize greater a b k = g at ih
      cases g <;> cases a k <;> cases b k <;> simp at ih ⊢ <;> omega

/-! ### The words of numbers -/

/-- Two numbers give the same word if they differ by a multiple of a power of two. -/
theorem ofInt_eq_ofInt_iff {w : Nat} (i j : Int) :
  BitVec.ofInt w i = BitVec.ofInt w j ↔ ((2 ^ w : Nat) : Int) ∣ i - j
  := by
  have hpos : ((2 ^ w : Nat) : Int) ≠ 0 := by
    exact_mod_cast (Nat.two_pow_pos w).ne'
  have hi := Int.emod_nonneg i hpos
  have hj := Int.emod_nonneg j hpos
  rw [← BitVec.toNat_inj, BitVec.toNat_ofInt, BitVec.toNat_ofInt, Int.dvd_iff_emod_eq_zero,
    ← Int.emod_eq_emod_iff_emod_sub_eq_zero]
  omega

/-- A power of two does not divide the sum of a smaller one and a greater one. -/
theorem not_two_pow_dvd_add {m n w : Nat} (hn : m < n) (hw : m < w) :
  ¬ 2 ^ w ∣ 2 ^ m + 2 ^ n
  := by
  intro h
  have hdvd : 2 ^ (m + 1) ∣ 2 ^ m + 2 ^ n := Nat.dvd_trans (Nat.pow_dvd_pow 2 hw) h
  rw [Nat.dvd_add_left (Nat.pow_dvd_pow 2 hn), Nat.pow_dvd_pow_iff_le_right (by decide)] at hdvd
  omega

theorem two_pow_dvd_add_iff {m n w : Nat} :
  2 ^ w ∣ 2 ^ m + 2 ^ n ↔ (w ≤ m ∧ w ≤ n) ∨ (m = n ∧ m + 1 = w)
  := by
  constructor
  · intro h
    by_cases hw : w ≤ m ∧ w ≤ n
    · left
      exact hw
    · right
      rcases Nat.lt_trichotomy m n with hlt | rfl | hlt
      · have hnot := not_two_pow_dvd_add (w := w) hlt (by omega)
        contradiction
      · rw [← Nat.two_mul, ← Nat.pow_succ', Nat.pow_dvd_pow_iff_le_right (by decide)] at h
        omega
      · have hnot := not_two_pow_dvd_add (w := w) hlt (by omega)
        rw [Nat.add_comm] at h
        contradiction
  · rintro (⟨hm, hn⟩ | ⟨rfl, rfl⟩)
    · apply Nat.dvd_add (Nat.pow_dvd_pow 2 hm) (Nat.pow_dvd_pow 2 hn)
    · rw [← Nat.two_mul, ← Nat.pow_succ']

end Signal

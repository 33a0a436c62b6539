import SynCirc.Library.Comp
import SynCirc.Library.Mult
import SynCirc.Library.Sub
import Mathlib.Data.Nat.Sqrt

/-!
# The square roots of the library

`square_root_comb32` and `square_root_comb64` search for the root of `A` bit by bit, in a row of
units.  A unit compares `A` with the square of `y`.  It subtracts the step `y0` from `y` if the
square is not below `A`, and then adds half of the step.  Most of the units come after the step has
become 0.

The subtractors have no port `cout`, to which the units connect a net that is not read.  The
comparator of 64 bits has no known output for some operands.  Then the net `t` has an arbitrary
value, which is given for each unit.

The subtractors subtract 2 too much where the operands have the same lowest bit.  So a bit that is
tried in vain not only takes back its step but lowers the candidate by 2, and what is searched for
is not found by the steps that are left.
-/

open Signal

/-- The units. -/
def squarRootUnit {n m : Nat} (multM : BitVec n → BitVec n → BitVec m)
    (compM : BitVec m → BitVec m → Bool) (subM addM : BitVec n → BitVec n → BitVec n)
    (x : BitVec m) (y_in y0_in : BitVec n) : BitVec n × BitVec n :=
  let y_sqr := multM y_in y_in
  let t := compM x y_sqr
  let y_min_y0 := subM y_in y0_in
  let y_mid := mux y_min_y0 y_in t
  let y0 := y0_in >>> 1
  (addM y_mid y0, y0)

/-- The module `squar_root_unit32`, with the outputs `y` and `y0`. -/
def squarRootUnit32 (x : BitVec 32) (y_in y0_in : BitVec 16) : BitVec 16 × BitVec 16 :=
  squarRootUnit mult16 comp32 sub16 add16 x y_in y0_in

/-- The module `squar_root_unit64`, with the outputs `y` and `y0`.  The value of the net `t` is
`unknown` if it is not known. -/
def squarRootUnit64 (unknown : Bool) (x : BitVec 64) (y_in y0_in : BitVec 32) :
    BitVec 32 × BitVec 32 :=
  squarRootUnit mult32 (fun x_a x_b => (comp64 x_a x_b).getD unknown) sub32 add32 x y_in y0_in

/-- The nets `Y` and `Y0` of a row of units. -/
def squareRootNets {n : Nat} (unit : Nat → BitVec n → BitVec n → BitVec n × BitVec n)
    (init : BitVec n) : Nat → BitVec n × BitVec n
  | 0 => (init, init)
  | gv + 1 => unit gv (squareRootNets unit init gv).1 (squareRootNets unit init gv).2

/-- The module `square_root_comb32`. -/
def squareRootComb32 (A : BitVec 32) : BitVec 16 :=
  (squareRootNets (fun _ => squarRootUnit32 A) (1#1 ++ 0#15) 64).1

/-- The module `square_root_comb64`, with the values of the nets `t` that are not known. -/
def squareRootComb64 (unknown : Nat → Bool) (A : BitVec 64) : BitVec 32 :=
  (squareRootNets (fun gv => squarRootUnit64 (unknown gv) A) (1#1 ++ 0#31) 128).1

/-! ### The search -/

namespace SquareRoot

/-- The error of the subtractor. -/
def error (y w : Nat) : Nat := if y % 2 = w % 2 then 2 else 0

/-- A step of the search for the numbers below `u`, in words of `N + 1` bits. -/
def step (N u y w : Nat) : Nat :=
  if y < u then (y + w / 2) % 2 ^ (N + 1)
  else (y + w / 2 + (2 ^ (N + 1) - (w + error y w))) % 2 ^ (N + 1)

/-- The candidates of the search. -/
def candidate (N u : Nat) : Nat → Nat
  | 0 => 2 ^ N
  | k + 1 => step N u (candidate N u k) (2 ^ N / 2 ^ k)

/-- What is left of a number from which the powers from `2 ^ i` down to 2 are taken one after the
other.  A power that is greater than what is left adds 2 instead. -/
def leftover : Nat → Nat → Nat
  | 0, d => d
  | i + 1, d => leftover i (if 2 ^ (i + 1) ≤ d then d - 2 ^ (i + 1) else d + 2)

section Step

variable {N u y w : Nat}

theorem step_of_lt (h : y < u) (hfits : y + w / 2 < 2 ^ (N + 1)) :
  step N u y w = y + w / 2
  := by
  rw [step, if_pos h, Nat.mod_eq_of_lt hfits]

theorem step_of_le {e : Nat} (h : u ≤ y) (he : error y w = e) (hy : y < 2 ^ (N + 1))
    (hw : w + e ≤ 2 ^ (N + 1)) (hle : w + e ≤ y + w / 2) :
  step N u y w = y + w / 2 - (w + e)
  := by
  have hsplit : y + w / 2 + (2 ^ (N + 1) - (w + e)) = 2 ^ (N + 1) + (y + w / 2 - (w + e)) := by
    omega
  rw [step, if_neg h.not_gt, he, hsplit, Nat.add_mod_left, Nat.mod_eq_of_lt (by omega)]

/-- The candidate goes below 0. -/
theorem step_of_wrap {e : Nat} (h : u ≤ y) (he : error y w = e) (hw : w + e ≤ 2 ^ (N + 1))
    (hlt : y + w / 2 < w + e) :
  step N u y w = 2 ^ (N + 1) + (y + w / 2) - (w + e)
  := by
  rw [step, if_neg h.not_gt, he, Nat.mod_eq_of_lt (by omega)]
  omega

end Step

/-- What the width has to satisfy: after `c` bits tried in vain the candidate is positive, and after
one more it is not. -/
structure Width (N c : Nat) : Prop where
  lt : c < N
  pos : 2 * c < 2 ^ (N - c)
  hit : 2 * N ≤ 2 ^ (N - c) + 2
  miss : 2 ^ (N - c - 1) < 2 * (c + 1)
  big : 2 ^ (N - c) + 8 * (N + 1) < 2 ^ (N + 1)

theorem two_pow_sub {N k : Nat} (hk : k < N) :
  2 ^ (N - k) = 2 * 2 ^ (N - (k + 1))
  := by
  rw [← Nat.pow_succ']
  congr 1
  omega

theorem two_pow_sub_le {N k l : Nat} (h : k ≤ l) :
  2 ^ (N - l) ≤ 2 ^ (N - k)
  := Nat.pow_le_pow_right Nat.two_pos (by omega)

section Miss

variable {N c u : Nat} (width : Width N c) (hu : u ≤ 2 ^ (N - c) - 2 * c)
include width hu

/-- No bit is hit, and the candidate is positive. -/
theorem candidate_low {k : Nat} (hk : k ≤ c) :
  candidate N u k = 2 ^ (N - k) - 2 * k
  := by
  induction k with
  | zero => rfl
  | succ k ih =>
      have hc := width.lt
      have hpos := width.pos
      have hpow := two_pow_sub (N := N) (k := k) (by omega)
      have hle := two_pow_sub_le (N := N) hk
      have hbig : 2 ^ (N - k) ≤ 2 ^ N := two_pow_sub_le (N := N) (Nat.zero_le k)
      have hN : 2 ^ (N + 1) = 2 * 2 ^ N := Nat.pow_succ'
      have herror : error (2 ^ (N - k) - 2 * k) (2 ^ (N - k)) = 2 := if_pos (by omega)
      rw [candidate, ih (by omega), Nat.pow_div (by omega) Nat.two_pos,
        step_of_le (by omega) herror (by omega) (by omega) (by omega)]
      omega

/-- The candidate has gone below 0. -/
theorem candidate_high {k : Nat} (hk : c < k) (hkN : k ≤ N) :
  candidate N u k = 2 ^ (N + 1) + 2 ^ (N - k) - 2 * k
  := by
  induction k with
  | zero => omega
  | succ k ih =>
      have hpos := width.pos
      have hbig := width.big
      have hmiss := width.miss
      have hpow := two_pow_sub (N := N) (k := k) (by omega)
      have hN : 2 ^ (N + 1) = 2 * 2 ^ N := Nat.pow_succ'
      have hstep : 2 ^ (N - k) ≤ 2 ^ N := two_pow_sub_le (N := N) (Nat.zero_le k)
      rw [candidate, Nat.pow_div (by omega) Nat.two_pos]
      rcases Nat.lt_or_ge c k with hck | hck
      · have hle : 2 ^ (N - k) ≤ 2 ^ (N - c - 1) := two_pow_sub_le (N := N) (k := c + 1) hck
        have herror : error (2 ^ (N + 1) + 2 ^ (N - k) - 2 * k) (2 ^ (N - k)) = 2 :=
          if_pos (by omega)
        rw [ih hck (by omega),
          step_of_le (by omega) herror (by omega) (by omega) (by omega)]
        omega
      · obtain rfl : k = c := by omega
        have hlow : 2 ^ (N - k - 1) = 2 ^ (N - (k + 1)) := rfl
        have herror : error (2 ^ (N - k) - 2 * k) (2 ^ (N - k)) = 2 := if_pos (by omega)
        rw [candidate_low width hu le_rfl,
          step_of_wrap (by omega) herror (by omega) (by omega)]
        omega

/-- After the last bit the candidate is lowered by 2 in every unit. -/
theorem candidate_miss {i : Nat} (hi : i ≤ 3 * (N + 1)) :
  candidate N u (N + 1 + i) = 2 ^ (N + 1) - 2 * (N + 1) - 2 * i
  := by
  have hlt := width.lt
  have hpos := width.pos
  have hbig := width.big
  have hN : 2 ^ (N + 1) = 2 * 2 ^ N := Nat.pow_succ'
  induction i with
  | zero =>
      have hhigh := candidate_high width hu width.lt le_rfl
      rw [Nat.sub_self, Nat.pow_zero] at hhigh
      have herror : error (2 ^ (N + 1) + 1 - 2 * N) 1 = 2 := if_pos (by omega)
      rw [Nat.add_zero, candidate, hhigh, Nat.div_self (Nat.two_pow_pos N),
        step_of_le (by omega) herror (by omega) (by omega) (by omega)]
      omega
  | succ i ih =>
      have herror : error (2 ^ (N + 1) - 2 * (N + 1) - 2 * i) 0 = 2 := if_pos (by omega)
      have hzero : 2 ^ N / 2 ^ (N + 1 + i) = 0 := by
        apply Nat.div_eq_of_lt
        apply Nat.pow_lt_pow_right (by decide) (by omega)
      rw [← Nat.add_assoc, candidate, ih (by omega), hzero,
        step_of_le (by omega) herror (by omega) (by omega) (by omega)]
      omega

end Miss

section Hit

variable {N c ρ : Nat}

/-- The candidate `y` and what is left of the number that is searched for, after `k` bits. -/
structure Tracks (N c ρ k y d : Nat) : Prop where
  le : k ≤ N
  sum : y + d = ρ + 2 ^ (N - k)
  parity : d % 2 = ρ % 2
  fits : y + 2 ^ (N - k) ≤ 2 ^ (N + 1)
  near : (d = ρ + 2 * k ∧ k ≤ c) ∨ d + 2 * (N - k) ≤ ρ
  left : leftover (N - k) d = leftover N ρ

theorem tracks_zero :
  Tracks N c ρ 0 (2 ^ N) ρ
  := by
  refine ⟨Nat.zero_le N, Nat.add_comm _ _, rfl, ?_, Or.inl ⟨rfl, Nat.zero_le c⟩, rfl⟩
  rw [Nat.sub_zero, Nat.pow_succ']
  omega

variable (width : Width N c) (hρ : 2 ^ (N - c) ≤ ρ + 2 * c)
include width hρ

/-- A bit is hit if it is not greater than what is left. -/
theorem tracks_succ {k y d : Nat} (h : Tracks N c ρ k y d) (hk : k < N) :
  Tracks N c ρ (k + 1) (step N (ρ + 1) y (2 ^ N / 2 ^ k))
    (if 2 ^ (N - k) ≤ d then d - 2 ^ (N - k) else d + 2)
  := by
  obtain ⟨-, hsum, hparity, hfits, hnear, hleft⟩ := h
  have hpos := width.pos
  have hhit := width.hit
  have hpow := two_pow_sub hk
  have hone := Nat.two_pow_pos (N - (k + 1))
  have hpowc : k ≤ c → 2 ^ (N - c) ≤ 2 ^ (N - k) := two_pow_sub_le
  have hpowc' : k < c → 2 ^ (N - c) ≤ 2 ^ (N - (k + 1)) := two_pow_sub_le
  have hindex : N - k = N - (k + 1) + 1 := by omega
  rw [hindex, leftover, ← hindex] at hleft
  rw [Nat.pow_div hk.le Nat.two_pos]
  by_cases hd : 2 ^ (N - k) ≤ d
  · rw [if_pos hd] at hleft ⊢
    rw [step_of_lt (by omega) (by omega)]
    refine ⟨hk, by omega, by omega, by omega, ?_, hleft⟩
    right
    rcases hnear with ⟨rfl, hkc⟩ | hnear
    · have hle := hpowc hkc
      omega
    · omega
  · rw [if_neg hd] at hleft ⊢
    have herror : error y (2 ^ (N - k)) = 2 := if_pos (by omega)
    have hbound : d + 2 ≤ ρ + 2 ^ (N - (k + 1)) := by
      rcases hnear with ⟨rfl, hkc⟩ | hnear
      · have hkc' : k < c := by
          by_contra hnot
          obtain rfl : k = c := by omega
          omega
        have hle := hpowc' hkc'
        omega
      · omega
    rw [step_of_le (by omega) herror (by omega) (by omega) (by omega)]
    refine ⟨hk, by omega, by omega, by omega, ?_, hleft⟩
    rcases hnear with ⟨rfl, hkc⟩ | hnear
    · left
      constructor
      · omega
      · by_contra hnot
        obtain rfl : k = c := by omega
        omega
    · right
      omega

/-- What is left after the last bit. -/
theorem tracks_last :
  Tracks N c ρ N (candidate N (ρ + 1) N) (leftover N ρ)
  := by
  have hrun : ∀ k ≤ N, ∃ d, Tracks N c ρ k (candidate N (ρ + 1) k) d := by
    intro k hk
    induction k with
    | zero => exact ⟨ρ, tracks_zero⟩
    | succ k ih =>
        obtain ⟨d, hd⟩ := ih (by omega)
        exact ⟨_, tracks_succ width hρ hd hk⟩
  obtain ⟨d, hd⟩ := hrun N le_rfl
  have hleft := hd.left
  rw [Nat.sub_self, leftover] at hleft
  rwa [← hleft]

/-- After the last bit the candidate is at most the number that is searched for, and it stays. -/
theorem candidate_hit (i : Nat) :
  candidate N (ρ + 1) (N + 1 + i)
    = if leftover N ρ = 0 then ρ - 2 else ρ + 1 - leftover N ρ
  := by
  have hpos := width.pos
  have hlt := width.lt
  have hbig := width.big
  obtain ⟨-, hsum, hparity, hfits, hnear, -⟩ := tracks_last width hρ
  rw [Nat.sub_self, Nat.pow_zero] at hsum hfits
  induction i with
  | zero =>
      rw [Nat.add_zero, candidate, Nat.div_self (Nat.two_pow_pos N)]
      split
      · have herror : error (candidate N (ρ + 1) N) 1 = 2 := if_pos (by omega)
        rw [step_of_le (by omega) herror (by omega) (by omega) (by omega)]
        omega
      · rw [step_of_lt (by omega) (by omega)]
        omega
  | succ i ih =>
      have hzero : 2 ^ N / 2 ^ (N + 1 + i) = 0 := by
        apply Nat.div_eq_of_lt
        apply Nat.pow_lt_pow_right (by decide) (by omega)
      rw [← Nat.add_assoc, candidate, ih, hzero]
      split
      · rw [step_of_lt (by omega) (by omega), Nat.zero_div, Nat.add_zero]
      · rw [step_of_lt (by omega) (by omega), Nat.zero_div, Nat.add_zero]

end Hit

/-- When the search finds the root of a number. -/
theorem candidate_eq_sqrt_iff {N c A u : Nat} (width : Width N c)
    (hu : ∀ y, y * y < A ↔ y < u) :
  candidate N u (4 * (N + 1)) = A.sqrt ↔
    A.sqrt * A.sqrt ≠ A ∧ 2 ^ (N - c) - 2 * c ≤ A.sqrt ∧ leftover N A.sqrt = 1
  := by
  have hpos := width.pos
  have hbig := width.big
  have hle := A.sqrt_le
  have hlt := hu A.sqrt
  have hupper : u ≤ A.sqrt + 1 := by
    by_contra hnot
    have hlow := (hu (A.sqrt + 1)).mpr (by omega)
    exact hlow.not_gt A.lt_succ_sqrt
  have hlower : A.sqrt ≤ u := by
    by_contra hnot
    apply lt_irrefl u
    apply (hu u).mp
    exact (Nat.mul_self_lt_mul_self (by omega)).trans_le hle
  have hiff : A.sqrt * A.sqrt ≠ A ↔ u = A.sqrt + 1 := by
    omega
  rw [hiff]
  rcases Nat.lt_or_ge (2 ^ (N - c) - 2 * c) u with hmiss | hmiss
  · obtain ⟨ρ, rfl⟩ := Nat.exists_eq_succ_of_ne_zero (show u ≠ 0 by omega)
    have hsteps : 4 * (N + 1) = N + 1 + 3 * (N + 1) := by omega
    rw [hsteps, candidate_hit width (by omega)]
    rcases Nat.lt_or_ge A.sqrt (ρ + 1) with hr | hr
    · obtain rfl : ρ = A.sqrt := by omega
      split <;> omega
    · split <;> omega
  · have hsteps : 4 * (N + 1) = N + 1 + 3 * (N + 1) := by omega
    rw [hsteps, candidate_miss width hmiss le_rfl]
    omega

/-! ### The units -/

theorem borrowError_eq_error {n : Nat} (x y : BitVec n) :
  borrowError x.getLsbD y.getLsbD = error x.toNat y.toNat
  := by
  rw [borrowError, error, BitVec.getLsbD, BitVec.getLsbD, Nat.testBit_zero, Nat.testBit_zero]
  apply if_congr _ rfl rfl
  rw [decide_eq_decide]
  omega

/-- A unit makes a step of the search. -/
theorem toNat_squarRootUnit {N m u : Nat} (hN : 0 < N)
    {multM : BitVec (N + 1) → BitVec (N + 1) → BitVec m} {compM : BitVec m → BitVec m → Bool}
    {subM addM : BitVec (N + 1) → BitVec (N + 1) → BitVec (N + 1)} {x : BitVec m}
    (hcomp : ∀ y, compM x (multM y y) = decide (y.toNat < u))
    (hsub : ∀ a b, subM a b = a - b - BitVec.ofNat (N + 1) (borrowError a.getLsbD b.getLsbD))
    (hadd : ∀ a b, addM a b = a + b) {y w : BitVec (N + 1)} (hw : w.toNat ≤ 2 ^ N) :
  (squarRootUnit multM compM subM addM x y w).1.toNat = step N u y.toNat w.toNat
    ∧ (squarRootUnit multM compM subM addM x y w).2.toNat = w.toNat / 2
  := by
  have hpow : 2 ^ (N + 1) = 2 * 2 ^ N := Nat.pow_succ'
  have htwo : 2 ^ 1 ≤ 2 ^ N := Nat.pow_le_pow_right Nat.two_pos hN
  have hhalf : (w >>> 1).toNat = w.toNat / 2 := by
    rw [BitVec.toNat_ushiftRight, Nat.shiftRight_eq_div_pow, Nat.pow_one]
  constructor
  · change (addM (mux (subM y w) y (compM x (multM y y))) (w >>> 1)).toNat = _
    rw [hadd, hcomp, hsub, mux_eq, BitVec.toNat_add, hhalf, step, borrowError_eq_error]
    have herror : error y.toNat w.toNat ≤ 2 := by
      rw [error]
      split <;> omega
    by_cases h : y.toNat < u
    · rw [decide_eq_true h, if_pos rfl, if_pos h]
    · rw [decide_eq_false h, if_neg Bool.false_ne_true, if_neg h, BitVec.toNat_sub,
        BitVec.toNat_sub, BitVec.toNat_ofNat, Nat.mod_eq_of_lt (a := error _ _) (by omega),
        Nat.mod_add_mod, Nat.add_right_comm, Nat.add_mod_mod]
      have hsum : 2 ^ (N + 1) - error y.toNat w.toNat + w.toNat / 2
          + (2 ^ (N + 1) - w.toNat + y.toNat)
          = 2 ^ (N + 1) + (y.toNat + w.toNat / 2
            + (2 ^ (N + 1) - (w.toNat + error y.toNat w.toNat))) := by
        omega
      rw [hsum, Nat.add_mod_left]
  · exact hhalf

/-- The nets of a row of units that make steps of the search. -/
theorem toNat_squareRootNets {N u : Nat}
    {unit : Nat → BitVec (N + 1) → BitVec (N + 1) → BitVec (N + 1) × BitVec (N + 1)}
    (hunit : ∀ k y w, w.toNat ≤ 2 ^ N → (unit k y w).1.toNat = step N u y.toNat w.toNat
      ∧ (unit k y w).2.toNat = w.toNat / 2)
    {init : BitVec (N + 1)} (hinit : init.toNat = 2 ^ N) (k : Nat) :
  (squareRootNets unit init k).1.toNat = candidate N u k
    ∧ (squareRootNets unit init k).2.toNat = 2 ^ N / 2 ^ k
  := by
  induction k with
  | zero =>
      rw [Nat.pow_zero, Nat.div_one]
      exact ⟨hinit, hinit⟩
  | succ k ih =>
      obtain ⟨hy, hw⟩ := ih
      obtain ⟨hy', hw'⟩ := hunit k (squareRootNets unit init k).1 (squareRootNets unit init k).2
        (hw ▸ Nat.div_le_self _ _)
      rw [squareRootNets, candidate, hy', hw', hy, hw, Nat.div_div_eq_div_mul, Nat.pow_succ]
      exact ⟨rfl, rfl⟩

end SquareRoot

theorem sub16_eq (x_a x_b : BitVec 16) :
  sub16 x_a x_b = x_a - x_b - BitVec.ofNat 16 (borrowError x_a.getLsbD x_b.getLsbD)
  := word_adder_words (by decide) (by decide) x_a x_b

theorem sub32_eq (x_a x_b : BitVec 32) :
  sub32 x_a x_b = x_a - x_b - BitVec.ofNat 32 (borrowError x_a.getLsbD x_b.getLsbD)
  := word_adder_words (by decide) (by decide) x_a x_b

/-- The output of `square_root_comb32`, where `u` is the first number whose square is not below
`A`. -/
theorem toNat_squareRootComb32 (A : BitVec 32) {u : Nat}
    (hu : ∀ y, y * y < A.toNat ↔ y < u) :
  (squareRootComb32 A).toNat = SquareRoot.candidate 15 u 64
  := by
  have hcomp : ∀ y, comp32 A (mult16 y y) = decide (y.toNat < u) := by
    intro y
    rw [comp32_eq, toNat_mult16, decide_eq_decide]
    exact hu y.toNat
  apply (SquareRoot.toNat_squareRootNets (N := 15) _ rfl 64).1
  intro _ y w hw
  exact SquareRoot.toNat_squarRootUnit (by decide) hcomp sub16_eq add16_eq hw

/-- The output of `square_root_comb64` for values of the nets that are not known with which the
comparisons are those with `u`. -/
theorem toNat_squareRootComb64 (unknown : Nat → Bool) (A : BitVec 64) {u : Nat}
    (hcomp : ∀ gv y, (comp64 A (mult32 y y)).getD (unknown gv) = decide (y.toNat < u)) :
  (squareRootComb64 unknown A).toNat = SquareRoot.candidate 31 u 128
  := by
  apply (SquareRoot.toNat_squareRootNets (N := 31) _ rfl 128).1
  intro gv y w hw
  apply SquareRoot.toNat_squarRootUnit (by decide) _ sub32_eq add32_eq hw
  exact hcomp gv

/-! ### The roots -/

/-- The greatest word whose square is not above `A`. -/
def IsSquareRoot {m n : Nat} (A : BitVec m) (y : BitVec n) : Prop :=
  y.toNat * y.toNat ≤ A.toNat
    ∧ ∀ z : BitVec n, z.toNat * z.toNat ≤ A.toNat → z.toNat ≤ y.toNat

namespace SquareRoot

theorem isSquareRoot_iff {m n : Nat} (hm : m ≤ 2 * n) (A : BitVec m) (y : BitVec n) :
  IsSquareRoot A y ↔ y.toNat = A.toNat.sqrt
  := by
  have hsqrt : A.toNat.sqrt < 2 ^ n := by
    apply Nat.sqrt_lt.mpr
    apply A.isLt.trans_le
    rw [← Nat.pow_add, ← Nat.two_mul]
    exact Nat.pow_le_pow_right Nat.two_pos hm
  constructor
  · rintro ⟨hle, hmax⟩
    apply le_antisymm
    · exact Nat.le_sqrt.mpr hle
    · have hroot := hmax (BitVec.ofNat n A.toNat.sqrt)
      rw [BitVec.toNat_ofNat, Nat.mod_eq_of_lt hsqrt] at hroot
      exact hroot A.toNat.sqrt_le
  · intro hy
    constructor
    · rw [hy]
      exact A.toNat.sqrt_le
    · intro z hz
      rw [hy]
      exact Nat.le_sqrt.mpr hz

/-- The numbers whose squares are below a number are those below a bound. -/
theorem exists_bound (A : Nat) :
  ∃ u, ∀ y, y * y < A ↔ y < u
  := by
  rcases Nat.eq_zero_or_pos A with rfl | hA
  · use 0
    intro y
    simp only [Nat.not_lt_zero]
  · use (A - 1).sqrt + 1
    intro y
    rw [Nat.lt_succ_iff, Nat.le_sqrt]
    omega

theorem width_15 :
  Width 15 10
  := by constructor <;> decide

theorem width_31 :
  Width 31 25
  := by constructor <;> decide

/-- A candidate that does not go below 0 ends below the bound. -/
theorem candidate_lt {N c u : Nat} (width : Width N c) (hu : 2 ^ (N - c) - 2 * c < u) :
  candidate N u (4 * (N + 1)) < u
  := by
  obtain ⟨ρ, rfl⟩ := Nat.exists_eq_succ_of_ne_zero (show u ≠ 0 by omega)
  have hsteps : 4 * (N + 1) = N + 1 + 3 * (N + 1) := by omega
  rw [hsteps, candidate_hit width (by omega)]
  split <;> omega

/-- With the correct values of the nets that are not known, the comparison is correct. -/
theorem getD_comp64_true (x_a x_b : BitVec 64) :
  (comp64 x_a x_b).getD true = decide (x_b.toNat < x_a.toNat)
  := by
  rw [comp64_eq_ite]
  split
  next h => rw [decide_eq_true h.2, Option.getD_none]
  next => rw [Option.getD_some]

/-- With the wrong values of the nets that are not known, the highest 16 bits are compared. -/
theorem getD_comp64_false (x_a x_b : BitVec 64) :
  (comp64 x_a x_b).getD false
    = decide (x_b.toNat < x_a.toNat / 2 ^ 48 * 2 ^ 48)
  := by
  rw [comp64_eq_ite]
  split
  next h =>
    rw [Option.getD_none, decide_eq_false]
    omega
  next h =>
    rw [Option.getD_some, decide_eq_decide]
    omega

/-- If the square of the root is smaller in the highest 16 bits, then all comparisons with squares
are known. -/
theorem getD_comp64_of_lt {A : BitVec 64}
    (h : A.toNat.sqrt * A.toNat.sqrt / 2 ^ 48 < A.toNat / 2 ^ 48) (unknown : Bool) (y : BitVec 32) :
  (comp64 A (mult32 y y)).getD unknown = decide (y.toNat < A.toNat.sqrt + 1)
  := by
  rw [comp64_eq_ite, toNat_mult32]
  rcases Nat.lt_or_ge y.toNat (A.toNat.sqrt + 1) with hy | hy
  · have hle : y.toNat * y.toNat ≤ A.toNat.sqrt * A.toNat.sqrt :=
      Nat.mul_self_le_mul_self (Nat.lt_succ_iff.mp hy)
    rw [if_neg (by omega), Option.getD_some, decide_eq_true hy, decide_eq_true (by omega)]
  · have hge : A.toNat < y.toNat * y.toNat :=
      (A.toNat.lt_succ_sqrt).trans_le (Nat.mul_self_le_mul_self hy)
    rw [if_neg (by omega), Option.getD_some, decide_eq_false hy.not_gt, decide_eq_false (by omega)]

/-- If the root is found whatever the nets that are not known are, then its square is smaller in the
highest 16 bits. -/
theorem lt_of_candidate_eq {A v : Nat} (hv : ∀ y, y * y < A / 2 ^ 48 * 2 ^ 48 ↔ y < v)
    (h : candidate 31 v 128 = A.sqrt) :
  A.sqrt * A.sqrt / 2 ^ 48 < A / 2 ^ 48
  := by
  have hle := A.sqrt_le
  rcases Nat.lt_or_ge 14 v with hmiss | hmiss
  · have hlt := (hv A.sqrt).mpr (h ▸ candidate_lt width_31 hmiss)
    omega
  · have hsmall := (hv 14).not.mpr (by omega)
    have hlast := candidate_miss width_31 hmiss (i := 3 * (31 + 1)) le_rfl
    have hroot : A.sqrt = 2 ^ (31 + 1) - 2 * (31 + 1) - 2 * (3 * (31 + 1)) := h.symm.trans hlast
    rw [hroot] at hle
    omega

/-- If the square of the root is smaller in the highest 16 bits, then the squares below a number are
those of the numbers up to the root, and the root is great enough. -/
theorem mul_self_lt_iff {A : Nat} (h : A.sqrt * A.sqrt / 2 ^ 48 < A / 2 ^ 48) :
  A.sqrt * A.sqrt ≠ A ∧ 14 ≤ A.sqrt ∧ ∀ y, y * y < A ↔ y < A.sqrt + 1
  := by
  have hle := A.sqrt_le
  refine ⟨by omega, ?_, ?_⟩
  · apply Nat.le_sqrt.mpr
    omega
  · intro y
    rw [Nat.lt_succ_iff, Nat.le_sqrt]
    constructor
    · exact Nat.le_of_lt
    · intro hy
      have hroot := Nat.mul_self_le_mul_self (Nat.le_sqrt.mpr hy)
      omega

end SquareRoot

open SquareRoot in
/-- When the outputs are the square roots. -/
theorem squareRoots_iff (A : BitVec 32) (B : BitVec 64) :
  (IsSquareRoot A (squareRootComb32 A) ↔
      A.toNat.sqrt * A.toNat.sqrt ≠ A.toNat ∧ 12 ≤ A.toNat.sqrt ∧ leftover 15 A.toNat.sqrt = 1)
    ∧ ((∀ unknown, IsSquareRoot B (squareRootComb64 unknown B)) ↔
      B.toNat.sqrt * B.toNat.sqrt / 2 ^ 48 < B.toNat / 2 ^ 48 ∧ leftover 31 B.toNat.sqrt = 1)
  := by
  constructor
  · obtain ⟨u, hu⟩ := exists_bound A.toNat
    rw [isSquareRoot_iff (by decide), toNat_squareRootComb32 A hu]
    exact candidate_eq_sqrt_iff width_15 hu
  · simp only [isSquareRoot_iff (show 64 ≤ 2 * 32 by decide)]
    constructor
    · intro h
      obtain ⟨u, hu⟩ := exists_bound B.toNat
      obtain ⟨v, hv⟩ := exists_bound (B.toNat / 2 ^ 48 * 2 ^ 48)
      have htrue : candidate 31 u 128 = B.toNat.sqrt := by
        rw [← h fun _ => true, toNat_squareRootComb64]
        intro _ y
        rw [getD_comp64_true, toNat_mult32, decide_eq_decide]
        exact hu y.toNat
      have hfalse : candidate 31 v 128 = B.toNat.sqrt := by
        rw [← h fun _ => false, toNat_squareRootComb64]
        intro _ y
        rw [getD_comp64_false, toNat_mult32, decide_eq_decide]
        exact hv y.toNat
      exact ⟨lt_of_candidate_eq hv hfalse, ((candidate_eq_sqrt_iff width_31 hu).mp htrue).2.2⟩
    · rintro ⟨hlt, hleft⟩ unknown
      obtain ⟨hne, hbound, hu⟩ := mul_self_lt_iff hlt
      rw [toNat_squareRootComb64 unknown B fun gv => getD_comp64_of_lt hlt (unknown gv)]
      exact (candidate_eq_sqrt_iff width_31 hu).mpr ⟨hne, hbound, hleft⟩

/-- The outputs for 0 are not 0. -/
theorem squareRoots_zero :
  ¬ IsSquareRoot 0#32 (squareRootComb32 0)
    ∧ ¬ ∀ unknown, IsSquareRoot 0#64 (squareRootComb64 unknown 0)
  := by
  have hzero : ∀ y, y * y < 0 ↔ y < 0 := by
    intro y
    simp only [Nat.not_lt_zero]
  constructor
  · intro h
    rw [SquareRoot.isSquareRoot_iff (by decide), toNat_squareRootComb32 0 hzero] at h
    revert h
    decide +kernel
  · intro h
    have htrue := h fun _ => true
    rw [SquareRoot.isSquareRoot_iff (by decide), toNat_squareRootComb64 (u := 0)] at htrue
    · revert htrue
      decide +kernel
    · intro _ y
      rw [SquareRoot.getD_comp64_true, decide_eq_decide]
      exact ⟨fun hlt => absurd hlt (Nat.not_lt_zero _), fun hlt => absurd hlt (Nat.not_lt_zero _)⟩

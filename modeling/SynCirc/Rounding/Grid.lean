import SynCirc.Rounding.Nearest

/-!
# Floating-point numbers

The floating-point numbers with `F` fraction bits and without a largest exponent, in units of the
smallest positive one, are the values `grid F n` of their encodings `n`, where the exponent stands
above the fraction.  The encoding is a sum of an exponent and a significand, which may be a power of
two that belongs to the next exponent (`grid_add`).  So rounding the significand to an integer
rounds to a floating-point number (`roundsTo_grid`).
-/

namespace Rounding

/-- The floating-point number with the given encoding. -/
def grid (F n : ℕ) : ℕ :=
  if n < 2 ^ F then n else (2 ^ F + n % 2 ^ F) * 2 ^ (n / 2 ^ F - 1)

variable {F : ℕ}

/-- The significand `N` at the exponent `e`. -/
theorem grid_add {e N : ℕ} (hN : 2 ^ F ≤ N ∨ e = 0) (hN' : N ≤ 2 ^ (F + 1)) :
  grid F (e * 2 ^ F + N) = N * 2 ^ e
  := by
  have hpos := Nat.two_pow_pos F
  rw [Nat.pow_succ] at hN'
  rcases Nat.lt_or_ge N (2 ^ F) with hlt | hge
  · obtain rfl : e = 0 := hN.resolve_left (Nat.not_le_of_lt hlt)
    rw [Nat.zero_mul, Nat.zero_add, grid, if_pos hlt, Nat.pow_zero, Nat.mul_one]
  · obtain ⟨r, rfl⟩ := Nat.exists_eq_add_of_le hge
    have hn : e * 2 ^ F + (2 ^ F + r) = 2 ^ F * (e + 1) + r := by ring
    rw [grid, if_neg (by omega), hn]
    rcases Nat.lt_or_ge r (2 ^ F) with hr | hr
    · rw [Nat.mul_add_mod, Nat.mod_eq_of_lt hr, Nat.mul_add_div hpos, Nat.div_eq_of_lt hr,
        Nat.add_zero, Nat.add_sub_cancel]
    · obtain rfl : r = 2 ^ F := by omega
      rw [Nat.mul_add_mod, Nat.mod_self, Nat.mul_add_div hpos, Nat.div_self hpos,
        Nat.add_sub_cancel]
      ring

/-- Every encoding is one of a significand. -/
theorem exists_eq_add (F n : ℕ) :
  ∃ e N, n = e * 2 ^ F + N ∧ (2 ^ F ≤ N ∨ e = 0) ∧ N < 2 ^ (F + 1)
  := by
  have hpos := Nat.two_pow_pos F
  have hmod := Nat.mod_lt n hpos
  have hdiv := Nat.div_add_mod n (2 ^ F)
  rw [Nat.pow_succ]
  cases he : n / 2 ^ F with
  | zero =>
      rw [he, Nat.mul_zero, Nat.zero_add] at hdiv
      refine ⟨0, n, by omega, .inr rfl, by omega⟩
  | succ e =>
      rw [he] at hdiv
      refine ⟨e, 2 ^ F + n % 2 ^ F, ?_, .inl (Nat.le_add_right _ _), by omega⟩
      rw [← Nat.add_assoc, ← Nat.succ_mul, Nat.mul_comm]
      apply hdiv.symm

theorem grid_lt_grid_succ (n : ℕ) :
  grid F n < grid F (n + 1)
  := by
  obtain ⟨e, N, rfl, hN, hN'⟩ := exists_eq_add F n
  rw [Nat.add_assoc, grid_add hN hN'.le, grid_add (hN.imp Nat.le_succ_of_le id) hN']
  apply Nat.mul_lt_mul_of_pos_right (Nat.lt_succ_self N) (Nat.two_pow_pos e)

variable (K : Type*) [Field K] [LinearOrder K] [IsStrictOrderedRing K]

theorem strictMono_grid (F : ℕ) :
  StrictMono (fun n => (grid F n : K))
  := by
  apply strictMono_nat_of_lt_succ
  intro n
  exact_mod_cast grid_lt_grid_succ n

variable {K}

/-- The number whose significand is rounded to an integer is rounded to the floating-point number
with this significand.  At the smallest significand the number below has half the distance. -/
theorem roundsTo_grid (hF : F ≠ 0) {e N : ℕ} {v : K} (hN : 2 ^ F ≤ N ∨ e = 0)
    (hN' : N ≤ 2 ^ (F + 1)) (hnear : NearestEven (v / 2 ^ e) N)
    (hlow : (4 * 2 ^ F - 1) * 2 ^ e < 4 * v ∨ e = 0) :
  RoundsTo (fun n => (grid F n : K)) v (e * 2 ^ F + N)
  := by
  have hpos : (0 : K) < 2 ^ e := by positivity
  have hpow : 2 ^ (F + 1) = 2 * 2 ^ F := pow_succ' 2 F
  have heven : Even N → Even (e * 2 ^ F + N) :=
    fun h => ((even_two.pow_of_ne_zero hF).mul_left e).add h
  have hgrid : (grid F (e * 2 ^ F + N) : K) = N * 2 ^ e := by
    rw [grid_add hN hN']
    push_cast
    rfl
  have hscale : 2 * |v / 2 ^ e - N| = |2 * v - 2 * (N * 2 ^ e)| / 2 ^ e := by
    rw [div_sub' hpos.ne', abs_div, abs_of_pos hpos, mul_comm (2 ^ e : K), ← mul_sub, abs_mul,
      abs_two, mul_div_assoc]
  rw [NearestEven, hscale, div_lt_one hpos, div_eq_one_iff_eq hpos.ne', abs_lt,
    abs_eq hpos.le] at hnear
  apply roundsTo_of_neighbours (strictMono_grid K F)
  · intro k hk
    rw [hgrid]
    by_cases hinner : 2 ^ F < N ∨ e = 0
    · obtain ⟨M, rfl⟩ : ∃ M, N = M + 1 := by
        apply Nat.exists_eq_add_one_of_ne_zero
        rintro rfl
        rcases hinner with hlt | rfl
        · omega
        · omega
      obtain rfl : k = e * 2 ^ F + M := by omega
      have hprev : (grid F (e * 2 ^ F + M) : K) = M * 2 ^ e := by
        rw [grid_add (hinner.imp Nat.le_of_lt_succ id) (Nat.le_of_succ_le hN')]
        push_cast
        rfl
      rw [hprev]
      push_cast at hnear ⊢
      rcases hnear with ⟨h, -⟩ | ⟨h | h, hNeven⟩
      · left
        linarith
      · left
        linarith
      · right
        exact ⟨by linarith, heven hNeven⟩
    · -- The significand is the smallest one, and the distances below it are smaller.
      rw [not_or, Nat.not_lt] at hinner
      obtain rfl : N = 2 ^ F := Nat.le_antisymm hinner.1 (hN.resolve_right hinner.2)
      obtain ⟨d, rfl⟩ := Nat.exists_eq_add_one_of_ne_zero hinner.2
      obtain ⟨M, hM⟩ := Nat.exists_eq_add_one_of_ne_zero (Nat.two_pow_pos (F + 1)).ne'
      have hle : 2 ^ F ≤ M := by omega
      obtain rfl : k = d * 2 ^ F + M := by
        rw [Nat.add_mul, Nat.one_mul] at hk
        omega
      have hprev : (grid F (d * 2 ^ F + M) : K) = M * 2 ^ d := by
        rw [grid_add (.inl hle) (by omega)]
        push_cast
        rfl
      have hMK : (M : K) = 2 * 2 ^ F - 1 := by
        have hcast : ((2 ^ (F + 1) : ℕ) : K) = M + 1 := by exact_mod_cast hM
        rw [hpow] at hcast
        push_cast at hcast
        linarith
      left
      rw [hprev, hMK]
      have hv := hlow.resolve_right hinner.2
      rw [pow_succ] at hv ⊢
      push_cast
      linarith
  · rw [hgrid]
    rcases Nat.lt_or_ge N (2 ^ (F + 1)) with hlt | hge
    · have hnext : (grid F (e * 2 ^ F + N + 1) : K) = (N + 1) * 2 ^ e := by
        rw [Nat.add_assoc, grid_add (hN.imp Nat.le_succ_of_le id) hlt]
        push_cast
        rfl
      rw [hnext]
      rcases hnear with ⟨-, h⟩ | ⟨h | h, hNeven⟩
      · left
        linarith
      · right
        exact ⟨by linarith, heven hNeven⟩
      · left
        linarith
    · -- The significand is that of the next exponent, where the distances are larger.
      obtain rfl : N = 2 ^ (F + 1) := Nat.le_antisymm hN' hge
      have hnext : (grid F (e * 2 ^ F + 2 ^ (F + 1) + 1) : K) = (2 ^ F + 1) * 2 ^ (e + 1) := by
        rw [show e * 2 ^ F + 2 ^ (F + 1) + 1 = (e + 1) * 2 ^ F + (2 ^ F + 1) by ring,
          grid_add (.inl (Nat.le_succ _)) (by have := Nat.two_pow_pos F; omega)]
        push_cast
        rfl
      rw [hnext]
      push_cast at hnear ⊢
      rw [pow_succ, pow_succ] at *
      left
      rcases hnear with ⟨-, h⟩ | ⟨h | h, -⟩ <;> linarith

end Rounding

import SynCirc.Library.Comp
import SynCirc.Library.Mult
import SynCirc.Sorting.Tournament

/-!
# The maximum of the library

`Maxpool` is a tournament of sixteen unsigned fields of 16 bits, with `COMP16` and `MUX16` in every
match.  The field `i` is to be the bits from `16 * i` on.  The bits that are selected end at
`15 * (i + 1)`, so the highest `i` bits of the field are cut off.
-/

open Signal

namespace Maxpool

variable (bid : BitVec 256)

/-- The field of an element. -/
def field (i : Nat) : BitVec 16 := bid.extractLsb' (16 * i) 16

/-- The net `B`. -/
def B (i : Nat) : BitVec 16 := (bid.extractLsb ((i + 1) * 15) (i * 16)).setWidth 16

/-- The nets `WV`, where `WID` tells whether the second element is greater. -/
def WV : Nat → Nat → BitVec 16
  | 0, k => B bid k
  | j + 1, k =>
    let WID := comp16 (WV j (2 * k + 1)) (WV j (2 * k))
    mux16 (WV j (2 * k)) (WV j (2 * k + 1)) WID

end Maxpool

/-- The module `Maxpool`. -/
def maxpool (bid : BitVec 256) : BitVec 16 := Maxpool.WV bid 4 0

namespace Maxpool

variable (bid : BitVec 256)

/-- The nets are the winners of a tournament. -/
theorem toNat_WV (j k : Nat) :
  (WV bid j k).toNat = Tournament.winner (fun i => (B bid i).toNat) j k
  := by
  induction j generalizing k with
  | zero => rfl
  | succ j ih =>
      rw [Tournament.winner, ← ih, ← ih, WV, comp16_eq, mux16, mux_eq]
      rcases Nat.lt_or_ge (WV bid j (2 * k)).toNat (WV bid j (2 * k + 1)).toNat with h | h
      · rw [decide_eq_true h, if_pos rfl, max_eq_right h.le]
      · rw [decide_eq_false h.not_gt, if_neg Bool.false_ne_true, max_eq_left h]

/-- The highest bits of a field are cut off. -/
theorem toNat_B {i : Nat} (hi : i < 16) :
  (B bid i).toNat = (field bid i).toNat % 2 ^ (16 - i)
  := by
  have hlen : (i + 1) * 15 - i * 16 + 1 = 16 - i := by omega
  rw [B, BitVec.toNat_setWidth_of_le (by omega), BitVec.extractLsb_toNat, field,
    BitVec.extractLsb'_toNat, hlen, Nat.mod_mod_of_dvd _ (Nat.pow_dvd_pow 2 (Nat.sub_le 16 i)),
    Nat.mul_comm]

/-- The output is the greatest of the fields that are cut off. -/
theorem isGreatest_maxpool :
  IsGreatest {x | ∃ i < 16, (field bid i).toNat % 2 ^ (16 - i) = x} (maxpool bid).toNat
  := by
  have h := Tournament.isGreatest_winner (fun i => (B bid i).toNat) 4 0
  have hfields : Tournament.contenders (fun i => (B bid i).toNat) 4 0
      = {x | ∃ i < 16, (field bid i).toNat % 2 ^ (16 - i) = x} := by
    ext x
    constructor
    · rintro ⟨i, hi, rfl⟩
      exact ⟨i, hi.2, (toNat_B bid hi.2).symm⟩
    · rintro ⟨i, hi, rfl⟩
      exact ⟨i, ⟨Nat.zero_le i, hi⟩, toNat_B bid hi⟩
  rwa [← toNat_WV, hfields] at h

end Maxpool

/-- `Maxpool` returns the maximum if and only if a greatest field loses no bits. -/
theorem isGreatest_maxpool_iff (bid : BitVec 256) :
  IsGreatest {x | ∃ i < 16, (Maxpool.field bid i).toNat = x} (maxpool bid).toNat ↔
    ∃ i < 16, (Maxpool.field bid i).toNat < 2 ^ (16 - i)
      ∧ ∀ j < 16, (Maxpool.field bid j).toNat ≤ (Maxpool.field bid i).toNat
  := by
  obtain ⟨⟨i, hi, hmem⟩, hupper⟩ := Maxpool.isGreatest_maxpool bid
  constructor
  · intro h
    -- the winning field is at most the greatest one, which is the output
    have hle : (Maxpool.field bid i).toNat ≤ (maxpool bid).toNat := h.2 ⟨i, hi, rfl⟩
    have hmod := Nat.mod_le (Maxpool.field bid i).toNat (2 ^ (16 - i))
    have heq : (Maxpool.field bid i).toNat = (maxpool bid).toNat := by omega
    refine ⟨i, hi, ?_, ?_⟩
    · rw [heq, ← hmem]
      exact Nat.mod_lt _ (Nat.two_pow_pos _)
    · intro j hj
      rw [heq]
      exact h.2 ⟨j, hj, rfl⟩
  · rintro ⟨k, hk, hlt, hmax⟩
    have hge : (Maxpool.field bid k).toNat ≤ (maxpool bid).toNat := by
      rw [← Nat.mod_eq_of_lt hlt]
      exact hupper ⟨k, hk, rfl⟩
    have hle : (maxpool bid).toNat ≤ (Maxpool.field bid k).toNat := by
      rw [← hmem]
      exact (Nat.mod_le _ _).trans (hmax i hi)
    constructor
    · exact ⟨k, hk, le_antisymm hge hle⟩
    · rintro _ ⟨j, hj, rfl⟩
      exact (hmax j hj).trans hge

/-- The highest bit of field 1 is cut off. -/
theorem not_isGreatest_maxpool :
  ¬ IsGreatest {x | ∃ i < 16, (Maxpool.field (1#256 <<< 31) i).toNat = x}
    (maxpool (1#256 <<< 31)).toNat
  := by
  intro h
  have hle := h.2 ⟨1, by decide, rfl⟩
  revert hle
  decide +kernel

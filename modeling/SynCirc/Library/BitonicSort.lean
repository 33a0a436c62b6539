import SynCirc.Library.Comp
import SynCirc.Library.Mult
import SynCirc.Sorting.Bitonic

/-!
# The bitonic sorting network of the library

The parameter `K` of `bitonic_merge16` and `bitonic_sort16` is the number of elements, which is a
power of 2.  An array of `K` elements of 16 bits is a list here.  The modules are the networks of
`Bitonic`, where the comparators are made of `COMP16` and multiplexers.
-/

open Signal

/-- The module `compare_swap16`, with the outputs `o1` and `o2`. -/
def compareSwap16 (a1 a2 : BitVec 16) (dir : Bool) : BitVec 16 × BitVec 16 :=
  let comp := comp16 a1 a2
  let isCorrect := (dir == true && comp == true) ^^ (dir == false && comp == false)
  let o1 := mux16 a2 a1 isCorrect
  let o2 := mux16 a1 a2 isCorrect
  (o1, o2)

/-- The module `bitonic_merge16`. -/
def bitonicMerge16 (K : Nat) (in_array : List (BitVec 16)) (dir : Bool) : List (BitVec 16) :=
  if K > 1 then
    let k := K / 2
    let out_interm :=
      List.zipWith (compareSwap16 · · dir) (in_array.take k) (in_array.drop k)
    bitonicMerge16 k (out_interm.map Prod.fst) dir ++ bitonicMerge16 k (out_interm.map Prod.snd) dir
  else
    in_array

/-- The module `bitonic_sort16`. -/
def bitonicSort16 (K : Nat) (in_array : List (BitVec 16)) (dir : Bool) : List (BitVec 16) :=
  if K > 1 then
    let k := K / 2
    let out_sort :=
      bitonicSort16 k (in_array.take k) true ++ bitonicSort16 k (in_array.drop k) false
    bitonicMerge16 K out_sort dir
  else
    in_array

/-! ### The modules are bitonic networks -/

/-- `compare_swap16` is a comparator. -/
theorem compareSwap16_toNat (a1 a2 : BitVec 16) (dir : Bool) :
  (compareSwap16 a1 a2 dir).1.toNat = Bitonic.first dir a1.toNat a2.toNat
    ∧ (compareSwap16 a1 a2 dir).2.toNat = Bitonic.second dir a1.toNat a2.toNat
  := by
  change (mux a2 a1 _).toNat = _ ∧ (mux a1 a2 _).toNat = _
  rw [mux_eq, mux_eq, comp16_eq, Bitonic.first, Bitonic.second]
  by_cases h : a2.toNat < a1.toNat
  · rw [decide_eq_true h, max_eq_left h.le, min_eq_right h.le]
    cases dir with
    | false => exact ⟨rfl, rfl⟩
    | true => exact ⟨rfl, rfl⟩
  · rw [decide_eq_false h, max_eq_right (Nat.le_of_not_lt h), min_eq_left (Nat.le_of_not_lt h)]
    cases dir with
    | false => exact ⟨rfl, rfl⟩
    | true => exact ⟨rfl, rfl⟩

/-- The outputs of a column of comparators, where `out` is one of the two. -/
theorem map_zipWith_compareSwap16 {dir : Bool} {out : BitVec 16 × BitVec 16 → BitVec 16}
    {f : Nat → Nat → Nat}
    (h : ∀ a1 a2, (out (compareSwap16 a1 a2 dir)).toNat = f a1.toNat a2.toNat)
    (a b : List (BitVec 16)) :
  ((List.zipWith (compareSwap16 · · dir) a b).map out).map BitVec.toNat
    = List.zipWith f (a.map BitVec.toNat) (b.map BitVec.toNat)
  := by
  rw [List.map_map, List.map_zipWith, List.zipWith_map]
  simp only [Function.comp_apply, h]

theorem two_pow_succ_half (n : Nat) :
  2 ^ (n + 1) > 1 ∧ 2 ^ (n + 1) / 2 = 2 ^ n
  := by
  rw [Nat.pow_succ, Nat.mul_div_cancel _ Nat.two_pos, ← Nat.pow_succ]
  exact ⟨Nat.one_lt_two_pow n.succ_ne_zero, rfl⟩

theorem bitonicMerge16_toNat (n : Nat) (in_array : List (BitVec 16)) (dir : Bool) :
  (bitonicMerge16 (2 ^ n) in_array dir).map BitVec.toNat
    = Bitonic.merge n dir (in_array.map BitVec.toNat)
  := by
  induction n generalizing in_array with
  | zero =>
      rw [bitonicMerge16]
      rfl
  | succ n ih =>
      obtain ⟨hgt, hhalf⟩ := two_pow_succ_half n
      have hfirst := fun a1 a2 => (compareSwap16_toNat a1 a2 dir).1
      have hsecond := fun a1 a2 => (compareSwap16_toNat a1 a2 dir).2
      rw [bitonicMerge16, if_pos hgt, hhalf, List.map_append, ih, ih,
        map_zipWith_compareSwap16 hfirst, map_zipWith_compareSwap16 hsecond, List.map_take,
        List.map_drop]
      rfl

theorem bitonicSort16_toNat (n : Nat) (in_array : List (BitVec 16)) (dir : Bool) :
  (bitonicSort16 (2 ^ n) in_array dir).map BitVec.toNat
    = Bitonic.sort n dir (in_array.map BitVec.toNat)
  := by
  induction n generalizing in_array dir with
  | zero =>
      rw [bitonicSort16]
      rfl
  | succ n ih =>
      obtain ⟨hgt, hhalf⟩ := two_pow_succ_half n
      rw [bitonicSort16, if_pos hgt, hhalf, bitonicMerge16_toNat, List.map_append, ih, ih,
        List.map_take, List.map_drop]
      rfl

/-- `bitonic_sort16` sorts: it permutes the elements, and they are descending if `dir` is 1 and
ascending if `dir` is 0. -/
theorem bitonicSort16_sorts (n : Nat) (in_array : List (BitVec 16)) (dir : Bool)
    (h : in_array.length = 2 ^ n) :
  (bitonicSort16 (2 ^ n) in_array dir).Perm in_array
    ∧ (bitonicSort16 (2 ^ n) in_array dir).Pairwise
      fun a b => if dir then b.toNat ≤ a.toNat else a.toNat ≤ b.toNat
  := by
  have hlen : (in_array.map BitVec.toNat).length = 2 ^ n := by
    rw [List.length_map, h]
  have hperm := Bitonic.perm_sort n dir hlen
  have hordered := Bitonic.ordered_sort n dir hlen
  rw [← bitonicSort16_toNat] at hperm hordered
  constructor
  · apply (List.map_perm_map_iff fun _ _ => BitVec.eq_of_toNat_eq).mp hperm
  · apply List.pairwise_map.mp hordered

theorem bitonicSort16_four :
  [0xffff#16, 7#16, 0#16, 7#16].length = 2 ^ 2
    ∧ (bitonicSort16 (2 ^ 2) [0xffff, 7, 0, 7] true).Perm [0xffff, 7, 0, 7]
    ∧ (bitonicSort16 (2 ^ 2) [0xffff, 7, 0, 7] true).Pairwise
      fun a b => if true then b.toNat ≤ a.toNat else a.toNat ≤ b.toNat
  := ⟨rfl, bitonicSort16_sorts 2 [0xffff, 7, 0, 7] true rfl⟩

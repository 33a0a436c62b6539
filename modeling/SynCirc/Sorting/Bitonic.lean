import Mathlib.Algebra.Group.Nat.Defs
import Mathlib.Order.MinMax
import Mathlib.Order.BooleanAlgebra.Basic
import Mathlib.Data.List.Perm.Basic
import Mathlib.Data.Bool.Basic

/-!
# Bitonic sorting networks

A comparator puts two elements of a linear order into the given direction, which is descending if
it is `true`.  A bitonic merger of `2 ^ n` elements compares each element of the first half with the
one at the same place of the second half, and then merges the halves.  A bitonic sorter sorts the
first half down and the second half up, and then merges.

The networks commute with monotone maps.  So it suffices to show for the elements 0 and 1 that they
sort, where a bitonic list is the indicator of an interval or the complement of one.
-/

open scoped List

namespace Bitonic

variable {α β : Type} [LinearOrder α] [LinearOrder β]

/-- The first output of a comparator. -/
def first (dir : Bool) (a b : α) : α := if dir then max a b else min a b

/-- The second output of a comparator. -/
def second (dir : Bool) (a b : α) : α := if dir then min a b else max a b

/-- The bitonic merger. -/
def merge : Nat → Bool → List α → List α
  | 0, _, l => l
  | n + 1, dir, l =>
    let a := l.take (2 ^ n)
    let b := l.drop (2 ^ n)
    merge n dir (List.zipWith (first dir) a b) ++ merge n dir (List.zipWith (second dir) a b)

/-- The bitonic sorter. -/
def sort : Nat → Bool → List α → List α
  | 0, _, l => l
  | n + 1, dir, l =>
    merge (n + 1) dir (sort n true (l.take (2 ^ n)) ++ sort n false (l.drop (2 ^ n)))

/-- The list is ordered in the given direction. -/
def Ordered (dir : Bool) (l : List α) : Prop :=
  l.Pairwise fun a b => if dir then b ≤ a else a ≤ b

/-! ### The networks permute -/

theorem perm_comparator (dir : Bool) (a b : α) (l : List α) :
  (first dir a b :: second dir a b :: l).Perm (a :: b :: l)
  := by
  rcases le_total a b with h | h <;> cases dir <;>
    simp only [first, second, if_true, Bool.false_eq_true, if_false, max_eq_left h, max_eq_right h,
      min_eq_left h, min_eq_right h]
  · exact List.Perm.refl _
  · exact List.Perm.swap _ _ _
  · exact List.Perm.swap _ _ _
  · exact List.Perm.refl _

/-- Comparing the elements of two lists permutes them. -/
theorem perm_zipWith (dir : Bool) {a b : List α} (h : a.length = b.length) :
  (List.zipWith (first dir) a b ++ List.zipWith (second dir) a b).Perm (a ++ b)
  := by
  induction a generalizing b with
  | nil =>
      cases b with
      | nil => exact List.Perm.refl _
      | cons y b => contradiction
  | cons x a ih =>
      cases b with
      | nil => contradiction
      | cons y b =>
          have hab := ih (Nat.succ.inj h)
          change (first dir x y :: (List.zipWith (first dir) a b
            ++ second dir x y :: List.zipWith (second dir) a b)).Perm (x :: (a ++ y :: b))
          calc
            _ ~ first dir x y :: second dir x y :: (List.zipWith (first dir) a b
                ++ List.zipWith (second dir) a b) := by
              apply List.Perm.cons
              apply List.perm_middle
            _ ~ x :: y :: (List.zipWith (first dir) a b ++ List.zipWith (second dir) a b) := by
              apply perm_comparator
            _ ~ x :: y :: (a ++ b) := by
              apply List.Perm.cons
              apply List.Perm.cons
              apply hab
            _ ~ x :: (a ++ y :: b) := by
              apply List.Perm.cons
              apply List.perm_middle.symm

theorem length_take_half {α : Type} {n : Nat} {l : List α} (h : l.length = 2 ^ (n + 1)) :
  (l.take (2 ^ n)).length = 2 ^ n
  := by
  rw [List.length_take, h, Nat.pow_succ]
  omega

theorem length_drop_half {α : Type} {n : Nat} {l : List α} (h : l.length = 2 ^ (n + 1)) :
  (l.drop (2 ^ n)).length = 2 ^ n
  := by
  rw [List.length_drop, h, Nat.pow_succ]
  omega

theorem perm_merge (n : Nat) (dir : Bool) {l : List α} (h : l.length = 2 ^ n) :
  (merge n dir l).Perm l
  := by
  induction n generalizing l with
  | zero => exact List.Perm.refl _
  | succ n ih =>
      have ha := length_take_half h
      have hb := length_drop_half h
      rw [merge]
      calc
        _ ~ List.zipWith (first dir) (l.take (2 ^ n)) (l.drop (2 ^ n))
            ++ List.zipWith (second dir) (l.take (2 ^ n)) (l.drop (2 ^ n)) := by
          apply List.Perm.append
          · apply ih
            rw [List.length_zipWith, ha, hb, Nat.min_self]
          · apply ih
            rw [List.length_zipWith, ha, hb, Nat.min_self]
        _ ~ l.take (2 ^ n) ++ l.drop (2 ^ n) := by
          apply perm_zipWith dir (ha.trans hb.symm)
        _ = l := List.take_append_drop _ _

/-- The sorter permutes its input. -/
theorem perm_sort (n : Nat) (dir : Bool) {l : List α} (h : l.length = 2 ^ n) :
  (sort n dir l).Perm l
  := by
  induction n generalizing dir l with
  | zero => exact List.Perm.refl _
  | succ n ih =>
      have ha := ih true (length_take_half h)
      have hb := ih false (length_drop_half h)
      have hab : (sort n true (l.take (2 ^ n)) ++ sort n false (l.drop (2 ^ n))).Perm l := by
        calc
          _ ~ l.take (2 ^ n) ++ l.drop (2 ^ n) := ha.append hb
          _ = l := List.take_append_drop _ _
      exact (perm_merge (n + 1) dir (hab.length_eq.trans h)).trans hab

/-! ### The networks commute with maps -/

section Map

variable {dir dir' : Bool} {g : α → β}

/-- The mergers of two directions commute with a map if the comparators do. -/
theorem merge_map (hfirst : ∀ a b, first dir' (g a) (g b) = g (first dir a b))
    (hsecond : ∀ a b, second dir' (g a) (g b) = g (second dir a b)) (n : Nat) (l : List α) :
  merge n dir' (l.map g) = (merge n dir l).map g
  := by
  induction n generalizing l with
  | zero => rfl
  | succ n ih =>
      have hzip : ∀ {f : β → β → β} {f' : α → α → α}, (∀ a b, f (g a) (g b) = g (f' a b)) →
          List.zipWith f ((l.map g).take (2 ^ n)) ((l.map g).drop (2 ^ n))
            = (List.zipWith f' (l.take (2 ^ n)) (l.drop (2 ^ n))).map g := by
        intro f f' hf
        rw [← List.map_take, ← List.map_drop, List.zipWith_map, List.map_zipWith]
        simp only [hf]
      rw [merge, merge, hzip hfirst, hzip hsecond, ih, ih, List.map_append]

theorem first_map (hg : Monotone g) (dir : Bool) (a b : α) :
  first dir (g a) (g b) = g (first dir a b)
  := by
  rw [first, first, ← hg.map_max, ← hg.map_min, apply_ite g]

theorem second_map (hg : Monotone g) (dir : Bool) (a b : α) :
  second dir (g a) (g b) = g (second dir a b)
  := by
  rw [second, second, ← hg.map_max, ← hg.map_min, apply_ite g]

/-- The sorter commutes with a monotone map. -/
theorem sort_map (hg : Monotone g) (n : Nat) (dir : Bool) (l : List α) :
  sort n dir (l.map g) = (sort n dir l).map g
  := by
  induction n generalizing dir l with
  | zero => rfl
  | succ n ih =>
      rw [sort, sort, ← List.map_take, ← List.map_drop, ih, ih, ← List.map_append,
        merge_map (first_map hg dir) (second_map hg dir)]

end Map

/-- The other direction is that of the complements. -/
theorem merge_not (n : Nat) (dir : Bool) (l : List Bool) :
  merge n (!dir) (l.map not) = (merge n dir l).map not
  := by
  apply merge_map
  · cases dir <;> decide
  · cases dir <;> decide

theorem ordered_not {dir : Bool} {l : List Bool} (h : Ordered dir l) :
  Ordered (!dir) (l.map not)
  := by
  apply List.pairwise_map.mpr
  apply h.imp
  cases dir <;> decide

/-! ### Zeros and ones -/

/-- A list is ordered if it is so at each threshold. -/
theorem ordered_of_threshold {dir : Bool} {l : List α}
    (h : ∀ t, Ordered dir (l.map fun x => decide (t ≤ x))) :
  Ordered dir l
  := by
  rw [Ordered, List.pairwise_iff_getElem]
  intro i j hi hj hij
  have hthreshold : ∀ t, if dir then decide (t ≤ l[j]) ≤ decide (t ≤ l[i])
      else decide (t ≤ l[i]) ≤ decide (t ≤ l[j]) := by
    intro t
    apply List.pairwise_iff_getElem.mp (List.pairwise_map.mp (h t)) i j hi hj hij
  cases dir with
  | true =>
      have hle := hthreshold l[j]
      rw [if_pos rfl, decide_eq_true le_rfl] at hle
      apply of_decide_eq_true (top_le_iff.mp hle)
  | false =>
      have hle := hthreshold l[i]
      rw [if_neg Bool.false_ne_true, decide_eq_true le_rfl] at hle
      apply of_decide_eq_true (top_le_iff.mp hle)

/-- The indicator of an interval. -/
def inside (i j k : Nat) : Bool := decide (i ≤ k ∧ k < j)

theorem inside_iff (i j k : Nat) :
  inside i j k = true ↔ i ≤ k ∧ k < j
  := decide_eq_true_iff

/-- The first `m` values are those of an interval or of the complement of one. -/
def IsBitonic (m : Nat) (f : Nat → Bool) : Prop :=
  ∃ i j, (∀ k < m, f k = inside i j k) ∨ ∀ k < m, f k = !inside i j k

/-- The disjunction of the halves. -/
def upper (m : Nat) (f : Nat → Bool) (k : Nat) : Bool := f k || f (k + m)

/-- The conjunction of the halves. -/
def lower (m : Nat) (f : Nat → Bool) (k : Nat) : Bool := f k && f (k + m)

/-- The halves are bitonic, and one of them is constant. -/
def Cleaned (m : Nat) (u v : Nat → Bool) : Prop :=
  IsBitonic m u ∧ IsBitonic m v ∧ ((∀ k < m, u k = true) ∨ ∀ k < m, v k = false)

theorem isBitonic_const (m : Nat) {f : Nat → Bool} {b : Bool} (h : ∀ k < m, f k = b) :
  IsBitonic m f
  := by
  use 0, 0
  cases b with
  | false =>
      left
      intro k hk
      rw [h k hk]
      rfl
  | true =>
      right
      intro k hk
      rw [h k hk]
      rfl

/-- The halves of an interval are cleaned. -/
theorem cleaned_inside (i j m : Nat) :
  Cleaned m (upper m (inside i j)) (lower m (inside i j))
  := by
  by_cases h : i < m ∧ i + m < j
  · have hupper : ∀ k < m, upper m (inside i j) k = true := by
      intro k hk
      rw [upper, Bool.or_eq_true, inside_iff, inside_iff]
      omega
    refine ⟨isBitonic_const m hupper, ?_, Or.inl hupper⟩
    use i, j - m
    left
    intro k hk
    rw [Bool.eq_iff_iff, lower, Bool.and_eq_true, inside_iff, inside_iff, inside_iff]
    omega
  · have hlower : ∀ k < m, lower m (inside i j) k = false := by
      intro k hk
      rw [← Bool.not_eq_true, lower, Bool.and_eq_true, inside_iff, inside_iff]
      omega
    refine ⟨?_, isBitonic_const m hlower, Or.inr hlower⟩
    by_cases hj : j ≤ m
    · use i, j
      left
      intro k hk
      rw [Bool.eq_iff_iff, upper, Bool.or_eq_true, inside_iff, inside_iff]
      omega
    · by_cases hi : m ≤ i
      · use i - m, j - m
        left
        intro k hk
        rw [Bool.eq_iff_iff, upper, Bool.or_eq_true, inside_iff, inside_iff, inside_iff]
        omega
      · use j - m, i
        right
        intro k hk
        rw [Bool.eq_iff_iff, upper, Bool.or_eq_true, Bool.not_eq_true', ← Bool.not_eq_true,
          inside_iff, inside_iff, inside_iff]
        omega

theorem IsBitonic.not {m : Nat} {f : Nat → Bool} (h : IsBitonic m f) :
  IsBitonic m fun k => !f k
  := by
  obtain ⟨i, j, h | h⟩ := h
  · use i, j
    right
    intro k hk
    simp only [h k hk]
  · use i, j
    left
    intro k hk
    simp only [h k hk, Bool.not_not]

theorem IsBitonic.congr {m : Nat} {f g : Nat → Bool} (hfg : ∀ k < m, g k = f k)
    (h : IsBitonic m f) :
  IsBitonic m g
  := by
  obtain ⟨i, j, h | h⟩ := h
  · use i, j
    left
    intro k hk
    rw [hfg k hk, h k hk]
  · use i, j
    right
    intro k hk
    rw [hfg k hk, h k hk]

theorem Cleaned.congr {m : Nat} {u v u' v' : Nat → Bool} (hu : ∀ k < m, u' k = u k)
    (hv : ∀ k < m, v' k = v k) (h : Cleaned m u v) :
  Cleaned m u' v'
  := by
  obtain ⟨hbu, hbv, hconst⟩ := h
  refine ⟨hbu.congr hu, hbv.congr hv, ?_⟩
  apply hconst.imp
  · intro h k hk
    rw [hu k hk, h k hk]
  · intro h k hk
    rw [hv k hk, h k hk]

theorem Cleaned.not {m : Nat} {u v : Nat → Bool} (h : Cleaned m u v) :
  Cleaned m (fun k => !v k) fun k => !u k
  := by
  obtain ⟨hbu, hbv, hconst⟩ := h
  refine ⟨hbv.not, hbu.not, ?_⟩
  apply hconst.symm.imp
  · intro h k hk
    simp only [h k hk, Bool.not_false]
  · intro h k hk
    simp only [h k hk, Bool.not_true]

/-- The halves of a bitonic sequence are cleaned. -/
theorem IsBitonic.cleaned {m : Nat} {f : Nat → Bool} (h : IsBitonic (m + m) f) :
  Cleaned m (upper m f) (lower m f)
  := by
  obtain ⟨i, j, h | h⟩ := h
  · apply (cleaned_inside i j m).congr
    · intro k hk
      rw [upper, upper, h k (by omega), h (k + m) (by omega)]
    · intro k hk
      rw [lower, lower, h k (by omega), h (k + m) (by omega)]
  · apply (cleaned_inside i j m).not.congr
    · intro k hk
      rw [upper, lower, h k (by omega), h (k + m) (by omega), Bool.not_and]
    · intro k hk
      rw [upper, lower, h k (by omega), h (k + m) (by omega), Bool.not_or]

/-! ### The networks sort -/

theorem map_range_add (m : Nat) (f : Nat → Bool) :
  (List.range (m + m)).map f = (List.range m).map f ++ (List.range m).map fun k => f (k + m)
  := by
  rw [List.range_add, List.map_append, List.map_map]
  congr 1
  apply List.map_congr_left
  intro k _
  rw [Function.comp_apply, Nat.add_comm]

/-- The comparators between the halves. -/
theorem zipWith_halves (op : Bool → Bool → Bool) (m : Nat) (f : Nat → Bool) :
  List.zipWith op (((List.range (m + m)).map f).take m) (((List.range (m + m)).map f).drop m)
    = (List.range m).map fun k => op (f k) (f (k + m))
  := by
  have hlen : ((List.range m).map f).length = m := by
    rw [List.length_map, List.length_range]
  rw [map_range_add, List.take_left' hlen, List.drop_left' hlen, List.zipWith_map,
    List.zipWith_self]

/-- The merger sorts bitonic sequences. -/
theorem ordered_merge (n : Nat) {f : Nat → Bool} (h : IsBitonic (2 ^ n) f) :
  Ordered true (merge n true ((List.range (2 ^ n)).map f))
  := by
  induction n generalizing f with
  | zero => exact List.pairwise_singleton _ _
  | succ n ih =>
      rw [Nat.pow_succ, Nat.mul_two] at h ⊢
      obtain ⟨hupper, hlower, hconst⟩ := h.cleaned
      rw [merge, zipWith_halves, zipWith_halves]
      have hfirst : (fun k => first true (f k) (f (k + 2 ^ n))) = upper (2 ^ n) f := rfl
      have hsecond : (fun k => second true (f k) (f (k + 2 ^ n))) = lower (2 ^ n) f := rfl
      rw [hfirst, hsecond]
      have hlen : ∀ f : Nat → Bool, ((List.range (2 ^ n)).map f).length = 2 ^ n := by
        intro f
        rw [List.length_map, List.length_range]
      apply List.pairwise_append.mpr
      refine ⟨ih hupper, ih hlower, ?_⟩
      intro x hx y hy
      rw [(perm_merge n true (hlen _)).mem_iff] at hx hy
      obtain ⟨k, hk, rfl⟩ := List.mem_map.mp hx
      obtain ⟨k', hk', rfl⟩ := List.mem_map.mp hy
      rw [if_pos rfl]
      rcases hconst with hconst | hconst
      · rw [hconst k (List.mem_range.mp hk)]
        apply Bool.le_true
      · rw [hconst k' (List.mem_range.mp hk')]
        apply Bool.false_le

/-- A list that is ordered down has its ones at the beginning. -/
theorem exists_eq_of_ordered {l : List Bool} (h : Ordered true l) :
  ∃ c ≤ l.length, l = (List.range l.length).map fun k => decide (k < c)
  := by
  induction l with
  | nil => exact ⟨0, le_rfl, rfl⟩
  | cons b l ih =>
      obtain ⟨hb, hl⟩ := List.pairwise_cons.mp h
      obtain ⟨c, hc, heq⟩ := ih hl
      cases b with
      | true =>
          use c + 1, Nat.succ_le_succ hc
          rw [List.length_cons, List.range_succ_eq_map, List.map_cons, List.map_map]
          apply List.cons_eq_cons.mpr
          refine ⟨(decide_eq_true c.succ_pos).symm, heq.trans ?_⟩
          apply List.map_congr_left
          intro k _
          rw [Function.comp_apply, decide_eq_decide, Nat.succ_lt_succ_iff]
      | false =>
          use 0, Nat.zero_le _
          have hzero : ∀ x ∈ false :: l, x = false := by
            intro x hx
            rcases List.mem_cons.mp hx with rfl | hx
            · rfl
            · exact le_bot_iff.mp (hb x hx)
          calc
            false :: l = List.replicate (false :: l).length false :=
              List.eq_replicate_of_mem hzero
            _ = (List.range (false :: l).length).map fun k => decide (k < 0) := by
              simp only [Nat.not_lt_zero, decide_false, List.map_const', List.length_range]

/-- A list that is ordered down and one that is ordered up are bitonic together. -/
theorem exists_bitonic_append {m : Nat} {a b : List Bool} (ha : Ordered true a)
    (hb : Ordered false b) (hma : a.length = m) (hmb : b.length = m) :
  ∃ f, IsBitonic (m + m) f ∧ a ++ b = (List.range (m + m)).map f
  := by
  obtain ⟨c, hc, heq⟩ := exists_eq_of_ordered ha
  obtain ⟨c', -, heq'⟩ := exists_eq_of_ordered (ordered_not hb)
  rw [List.length_map, hmb] at heq'
  have hnot : b = (List.range m).map fun k => !decide (k < c') := by
    calc
      b = (b.map not).map not := by
        rw [List.map_map, Bool.involutive_not.comp_self, List.map_id]
      _ = _ := by
        rw [heq', List.map_map]
        rfl
  use fun k => !inside c (m + c') k
  constructor
  · use c, m + c'
    right
    intro k _
    rfl
  · rw [map_range_add, heq, hnot, hma]
    congr 1
    · apply List.map_congr_left
      intro k hk
      have hkm := List.mem_range.mp hk
      rw [Bool.eq_iff_iff, Bool.not_eq_true', ← Bool.not_eq_true, inside_iff, decide_eq_true_iff]
      omega
    · apply List.map_congr_left
      intro k _
      rw [Bool.eq_iff_iff, Bool.not_eq_true', Bool.not_eq_true', ← Bool.not_eq_true,
        ← Bool.not_eq_true, inside_iff, decide_eq_true_iff]
      omega

/-- The merger sorts a list that is ordered down followed by one that is ordered up. -/
theorem ordered_merge_append (n : Nat) (dir : Bool) {a b : List Bool} (ha : Ordered true a)
    (hb : Ordered false b) (hla : a.length = 2 ^ n) (hlb : b.length = 2 ^ n) :
  Ordered dir (merge (n + 1) dir (a ++ b))
  := by
  obtain ⟨f, hf, heq⟩ := exists_bitonic_append ha hb hla hlb
  rw [← Nat.mul_two, ← Nat.pow_succ] at hf heq
  cases dir with
  | true =>
      rw [heq]
      apply ordered_merge (n + 1) hf
  | false =>
      have hnot := ordered_not (ordered_merge (n + 1) hf.not)
      have hid : not ∘ (fun k => !f k) = f := by
        funext k
        apply Bool.not_not
      rw [← merge_not, List.map_map, hid] at hnot
      rw [heq]
      exact hnot

/-- The sorter sorts zeros and ones. -/
theorem ordered_sort_bool (n : Nat) (dir : Bool) {l : List Bool} (h : l.length = 2 ^ n) :
  Ordered dir (sort n dir l)
  := by
  induction n generalizing dir l with
  | zero =>
      obtain ⟨b, rfl⟩ := List.length_eq_one_iff.mp h
      exact List.pairwise_singleton _ _
  | succ n ih =>
      have ha := length_take_half h
      have hb := length_drop_half h
      apply ordered_merge_append n dir (ih true ha) (ih false hb)
      · exact (perm_sort n true ha).length_eq.trans ha
      · exact (perm_sort n false hb).length_eq.trans hb

/-- The sorter sorts. -/
theorem ordered_sort (n : Nat) (dir : Bool) {l : List α} (h : l.length = 2 ^ n) :
  Ordered dir (sort n dir l)
  := by
  apply ordered_of_threshold
  intro t
  have hmono : Monotone fun x => decide (t ≤ x) := by
    intro x y hxy
    apply Bool.le_iff_imp.mpr
    intro hx
    apply decide_eq_true ((of_decide_eq_true hx).trans hxy)
  rw [← sort_map hmono]
  apply ordered_sort_bool n dir
  rw [List.length_map, h]

end Bitonic

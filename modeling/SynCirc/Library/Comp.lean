import SynCirc.Signal.Polynomial
import SynCirc.Signal.Word
import SynCirc.Signal.Netlist

/-!
# The comparators of the library

`COMP8`, `COMP16`, `COMP32` and `COMP64` compare unsigned numbers.  They compare the pairs of
neighbouring positions first, and then longer and longer ranges of positions.  A net `GTk_i` tells
whether the first operand is greater in the `i`-th range of `k` positions.

In `COMP64`, the net `AND63_32` has two drivers.  One of them is for the positions 32 to 47, the
other one for the positions 0 to 31, and both are for operands that are equal above.
-/

open Signal

/-- The nets of the comparators.  The net `GTk_i` is `GTk i`, and `ANDi_j` is `AND i j`. -/
inductive CompNet where
  | x_a (i : Nat)
  | x_b (i : Nat)
  | XOR (i : Nat)
  | temp (i : Nat)
  | GT2 (i : Nat)
  | GT4 (i : Nat)
  | GT8 (i : Nat)
  | GT16 (i : Nat)
  | GT32 (i : Nat)
  | GT64 (i : Nat)
  | AND (i j : Nat)
  | wx
  deriving DecidableEq

namespace Comp

/-! ### The assignments -/

def x_a (i : Nat) : Expr CompNet := .var (.x_a i)

def x_b (i : Nat) : Expr CompNet := .var (.x_b i)

def XOR (i : Nat) : Expr CompNet := .var (.XOR i)

def temp (i : Nat) : Expr CompNet := .var (.temp i)

def GT2 (i : Nat) : Expr CompNet := .var (.GT2 i)

def GT4 (i : Nat) : Expr CompNet := .var (.GT4 i)

def GT8 (i : Nat) : Expr CompNet := .var (.GT8 i)

def GT16 (i : Nat) : Expr CompNet := .var (.GT16 i)

def GT32 (i : Nat) : Expr CompNet := .var (.GT32 i)

def GT64 (i : Nat) : Expr CompNet := .var (.GT64 i)

def AND (i j : Nat) : Expr CompNet := .var (.AND i j)

/-- The assignments to the nets `XOR[i]` and `GT2_i`, which are alike in the comparators. -/
def pairs (n : Nat) : List (CompNet × Expr CompNet) :=
  (List.range (2 * n)).map (fun i => (.XOR i, x_a i ^^^ ~~~ x_b i))
    ++ (List.range n).map fun i =>
      (.GT2 (i + 1), (x_a (2 * i + 1) &&& ~~~ x_b (2 * i + 1))
        ^^^ (XOR (2 * i + 1) &&& x_a (2 * i) &&& ~~~ x_b (2 * i)))

/-- The other assignments of `COMP8`. -/
def assigns8 : List (CompNet × Expr CompNet) :=
  [(.temp 2, XOR 7 &&& XOR 6 &&& GT2 3),
   (.GT4 2, temp 2 ^^^ GT2 4),
   (.temp 3, XOR 7 &&& XOR 6 &&& XOR 5 &&& XOR 4),
   (.AND 7 4, (temp 3 &&& GT2 2) ^^^ (temp 3 &&& XOR 3 &&& XOR 2 &&& GT2 1)),
   (.GT8 1, AND 7 4 ^^^ GT4 2),
   (.wx, GT8 1)]

/-- The other assignments of `COMP16`. -/
def assigns16 : List (CompNet × Expr CompNet) :=
  [(.temp 4, XOR 15 &&& XOR 14 &&& GT2 7),
   (.GT4 4, temp 4 ^^^ GT2 8),
   (.temp 6, XOR 15 &&& XOR 14 &&& XOR 13 &&& XOR 12),
   (.AND 15 12, (temp 6 &&& GT2 6) ^^^ (temp 6 &&& XOR 11 &&& XOR 10 &&& GT2 5)),
   (.GT8 2, AND 15 12 ^^^ GT4 4),
   (.temp 2, XOR 7 &&& XOR 6 &&& GT2 3),
   (.GT4 2, temp 2 ^^^ GT2 4),
   (.temp 5, XOR 7 &&& XOR 6 &&& XOR 5 &&& XOR 4),
   (.AND 7 4, (temp 5 &&& GT2 2) ^^^ (temp 5 &&& XOR 3 &&& XOR 2 &&& GT2 1)),
   (.GT8 1, AND 7 4 ^^^ GT4 2),
   (.AND 11 8, XOR 11 &&& XOR 10 &&& XOR 9 &&& XOR 8),
   (.temp 7, AND 11 8 &&& temp 6),
   (.AND 15 8, temp 7 &&& GT8 1),
   (.GT16 1, AND 15 8 ^^^ GT8 2),
   (.wx, GT16 1)]

/-- The other assignments of `COMP32`. -/
def assigns32 : List (CompNet × Expr CompNet) :=
  [(.temp 8, XOR 31 &&& XOR 30 &&& GT2 15),
   (.GT4 8, temp 8 ^^^ GT2 16),
   (.temp 12, XOR 31 &&& XOR 30 &&& XOR 29 &&& XOR 28),
   (.AND 31 28, (temp 12 &&& GT2 14) ^^^ (temp 12 &&& XOR 27 &&& XOR 26 &&& GT2 13)),
   (.GT8 4, AND 31 28 ^^^ GT4 8),
   (.temp 6, XOR 23 &&& XOR 22 &&& GT2 11),
   (.GT4 6, temp 6 ^^^ GT2 12),
   (.temp 11, XOR 23 &&& XOR 22 &&& XOR 21 &&& XOR 20),
   (.AND 23 20, (temp 11 &&& GT2 10) ^^^ (temp 11 &&& XOR 19 &&& XOR 18 &&& GT2 9)),
   (.GT8 3, AND 23 20 ^^^ GT4 6),
   (.AND 27 24, XOR 27 &&& XOR 26 &&& XOR 25 &&& XOR 24),
   (.temp 14, AND 27 24 &&& temp 12),
   (.AND 31 24, temp 14 &&& GT8 3),
   (.GT16 2, AND 31 24 ^^^ GT8 4),
   (.temp 4, XOR 15 &&& XOR 14 &&& GT2 7),
   (.GT4 4, temp 4 ^^^ GT2 8),
   (.temp 10, XOR 15 &&& XOR 14 &&& XOR 13 &&& XOR 12),
   (.AND 15 12, (temp 10 &&& GT2 6) ^^^ (temp 10 &&& XOR 11 &&& XOR 10 &&& GT2 5)),
   (.GT8 2, AND 15 12 ^^^ GT4 4),
   (.temp 2, XOR 7 &&& XOR 6 &&& GT2 3),
   (.GT4 2, temp 2 ^^^ GT2 4),
   (.temp 9, XOR 7 &&& XOR 6 &&& XOR 5 &&& XOR 4),
   (.AND 7 4, (temp 9 &&& GT2 2) ^^^ (temp 9 &&& XOR 3 &&& XOR 2 &&& GT2 1)),
   (.GT8 1, AND 7 4 ^^^ GT4 2),
   (.AND 11 8, XOR 11 &&& XOR 10 &&& XOR 9 &&& XOR 8),
   (.temp 13, AND 11 8 &&& temp 10),
   (.AND 19 16, XOR 19 &&& XOR 18 &&& XOR 17 &&& XOR 16),
   (.temp 15, AND 19 16 &&& AND 27 24 &&& temp 12 &&& temp 11),
   (.AND 31 16, (temp 15 &&& temp 13 &&& GT8 1) ^^^ (temp 15 &&& GT8 2)),
   (.GT32 1, AND 31 16 ^^^ GT16 2),
   (.wx, GT32 1)]

/-- The other assignments of `COMP64` to nets that do not depend on `AND63_32`. -/
def assigns64 : List (CompNet × Expr CompNet) :=
  [(.temp 16, XOR 63 &&& XOR 62 &&& GT2 31),
   (.GT4 16, temp 16 ^^^ GT2 32),
   (.temp 24, XOR 63 &&& XOR 62 &&& XOR 61 &&& XOR 60),
   (.AND 63 60, (temp 24 &&& GT2 30) ^^^ (temp 24 &&& XOR 59 &&& XOR 58 &&& GT2 29)),
   (.GT8 8, AND 63 60 ^^^ GT4 16),
   (.temp 14, XOR 55 &&& XOR 54 &&& GT2 27),
   (.GT4 14, temp 14 ^^^ GT2 28),
   (.temp 23, XOR 55 &&& XOR 54 &&& XOR 53 &&& XOR 52),
   (.AND 55 52, (temp 23 &&& GT2 26) ^^^ (temp 23 &&& XOR 51 &&& XOR 50 &&& GT2 25)),
   (.GT8 7, AND 55 52 ^^^ GT4 14),
   (.AND 59 56, XOR 59 &&& XOR 58 &&& XOR 57 &&& XOR 56),
   (.temp 28, AND 59 56 &&& temp 24),
   (.AND 63 56, temp 28 &&& GT8 7),
   (.GT16 4, AND 63 56 ^^^ GT8 8),
   (.temp 12, XOR 47 &&& XOR 46 &&& GT2 23),
   (.GT4 12, temp 12 ^^^ GT2 24),
   (.temp 22, XOR 47 &&& XOR 46 &&& XOR 45 &&& XOR 44),
   (.AND 47 44, (temp 22 &&& GT2 22) ^^^ (temp 22 &&& XOR 43 &&& XOR 42 &&& GT2 21)),
   (.GT8 6, AND 47 44 ^^^ GT4 12),
   (.temp 10, XOR 39 &&& XOR 38 &&& GT2 19),
   (.GT4 10, temp 10 ^^^ GT2 20),
   (.temp 21, XOR 39 &&& XOR 38 &&& XOR 37 &&& XOR 36),
   (.AND 39 36, (temp 21 &&& GT2 18) ^^^ (temp 21 &&& XOR 35 &&& XOR 34 &&& GT2 17)),
   (.GT8 5, AND 39 36 ^^^ GT4 10),
   (.AND 43 40, XOR 43 &&& XOR 42 &&& XOR 41 &&& XOR 40),
   (.temp 27, AND 43 40 &&& temp 22),
   (.AND 51 48, XOR 51 &&& XOR 50 &&& XOR 49 &&& XOR 48),
   (.temp 30, AND 51 48 &&& AND 59 56 &&& temp 24 &&& temp 23),
   (.temp 8, XOR 31 &&& XOR 30 &&& GT2 15),
   (.GT4 8, temp 8 ^^^ GT2 16),
   (.temp 20, XOR 31 &&& XOR 30 &&& XOR 29 &&& XOR 28),
   (.AND 31 28, (temp 20 &&& GT2 14) ^^^ (temp 20 &&& XOR 27 &&& XOR 26 &&& GT2 13)),
   (.GT8 4, AND 31 28 ^^^ GT4 8),
   (.temp 6, XOR 23 &&& XOR 22 &&& GT2 11),
   (.GT4 6, temp 6 ^^^ GT2 12),
   (.temp 19, XOR 23 &&& XOR 22 &&& XOR 21 &&& XOR 20),
   (.AND 23 20, (temp 19 &&& GT2 10) ^^^ (temp 19 &&& XOR 19 &&& XOR 18 &&& GT2 9)),
   (.GT8 3, AND 23 20 ^^^ GT4 6),
   (.AND 27 24, XOR 27 &&& XOR 26 &&& XOR 25 &&& XOR 24),
   (.temp 26, AND 27 24 &&& temp 20),
   (.AND 31 24, temp 26 &&& GT8 3),
   (.GT16 2, AND 31 24 ^^^ GT8 4),
   (.temp 4, XOR 15 &&& XOR 14 &&& GT2 7),
   (.GT4 4, temp 4 ^^^ GT2 8),
   (.temp 18, XOR 15 &&& XOR 14 &&& XOR 13 &&& XOR 12),
   (.AND 15 12, (temp 18 &&& GT2 6) ^^^ (temp 18 &&& XOR 11 &&& XOR 10 &&& GT2 5)),
   (.GT8 2, AND 15 12 ^^^ GT4 4),
   (.temp 2, XOR 7 &&& XOR 6 &&& GT2 3),
   (.GT4 2, temp 2 ^^^ GT2 4),
   (.temp 17, XOR 7 &&& XOR 6 &&& XOR 5 &&& XOR 4),
   (.AND 7 4, (temp 17 &&& GT2 2) ^^^ (temp 17 &&& XOR 3 &&& XOR 2 &&& GT2 1)),
   (.GT8 1, AND 7 4 ^^^ GT4 2),
   (.AND 11 8, XOR 11 &&& XOR 10 &&& XOR 9 &&& XOR 8),
   (.temp 25, AND 11 8 &&& temp 18),
   (.AND 19 16, XOR 19 &&& XOR 18 &&& XOR 17 &&& XOR 16),
   (.temp 29, AND 19 16 &&& AND 27 24 &&& temp 20 &&& temp 19),
   (.AND 31 16, (temp 29 &&& temp 25 &&& GT8 1) ^^^ (temp 29 &&& GT8 2)),
   (.GT32 1, AND 31 16 ^^^ GT16 2),
   (.AND 35 32, XOR 35 &&& XOR 34 &&& XOR 33 &&& XOR 32),
   (.temp 31, (temp 24 &&& temp 23 &&& temp 22 &&& temp 21) &&& (AND 35 32 &&& AND 43 40
     &&& AND 51 48 &&& AND 59 56))]

/-- The two drivers of `AND63_32`. -/
def drivers63_32 : List (Expr CompNet) :=
  [(temp 30 &&& temp 27 &&& GT8 5) ^^^ (temp 30 &&& GT8 6),
   temp 31 &&& GT32 1]

/-- The net `AND63_32` and the nets of `COMP64` that depend on it, with their drivers. -/
def top64 : List (CompNet × List (Expr CompNet)) :=
  [(.AND 63 32, drivers63_32),
   (.GT32 2, [AND 63 32 ^^^ GT16 4]),
   (.GT64 1, [AND 63 32 ^^^ GT32 2]),
   (.wx, [GT64 1])]

/-- The nets of `COMP64` with their drivers. -/
def netlist64 : List (CompNet × List (Expr CompNet)) :=
  ((pairs 32 ++ assigns64).map fun p => (p.1, [p.2])) ++ top64

/-- The values of the inputs. -/
def input {α : Type} [Signal α] (a b : Nat → α) : CompNet → α
  | .x_a i => a i
  | .x_b i => b i
  | _ => low

/-- The value of the output `wx` after the assignments. -/
def output {α : Type} [Signal α] (l : List (CompNet × Expr CompNet)) (a b : Nat → α) : α :=
  netValue (input a b) (run (input a b) [] l) .wx

end Comp

/-- The module `COMP8`. -/
def comp8 (x_a x_b : BitVec 8) : Bool :=
  Comp.output (Comp.pairs 4 ++ Comp.assigns8) x_a.getLsbD x_b.getLsbD

/-- The module `COMP16`. -/
def comp16 (x_a x_b : BitVec 16) : Bool :=
  Comp.output (Comp.pairs 8 ++ Comp.assigns16) x_a.getLsbD x_b.getLsbD

/-- The module `COMP32`. -/
def comp32 (x_a x_b : BitVec 32) : Bool :=
  Comp.output (Comp.pairs 16 ++ Comp.assigns32) x_a.getLsbD x_b.getLsbD

/-- The module `COMP64`. -/
def comp64 (x_a x_b : BitVec 64) : Logic :=
  let input := Comp.input (fun i => some (x_a.getLsbD i)) (fun i => some (x_b.getLsbD i))
  netValue input (settle input [] Comp.netlist64) .wx

/-! ### Comparison of numbers -/

namespace Comp

/-- The values of expressions in the nets after the assignments. -/
def outputs {α : Type} [Signal α] (l : List (CompNet × Expr CompNet)) (es : List (Expr CompNet))
    (a b : Nat → α) : List α :=
  es.map (Expr.eval (netValue (input a b) (run (input a b) [] l)))

theorem natural_outputs (l : List (CompNet × Expr CompNet)) (es : List (Expr CompNet)) :
  Natural fun _ _ a b => outputs l es a b
  := by
  intro α _ v a b
  have hinput : input (fun i => (a i).eval v) (fun i => (b i).eval v)
      = Expr.eval v ∘ input a b := by
    funext n
    cases n <;> rfl
  change (es.map _).map (Expr.eval v) = es.map _
  rw [List.map_map]
  apply List.map_congr_left
  intro e _
  rw [Function.comp_apply, ← e.eval_comp, hinput]
  congr 1
  funext n
  symm
  apply netValue_run_map
  apply Expr.eval_comp

theorem output_eq_greater {l : List (CompNet × Expr CompNet)} {n : Nat}
    (h : outputs l [.var .wx] (fun i => (operand i).norm) (fun i => (equality i).norm)
      = [greater (fun i => (operand i).norm) (fun i => (equality i).norm) n]) (x y : Nat → Bool) :
  output l x y = greater x y n
  := by
  apply List.singleton_inj.mp
  apply (natural_outputs l [.var .wx]).eq_of_norm (natural_greater n) covers_equality h

end Comp

/-- The words are compared as numbers. -/
theorem greater_getLsbD {n : Nat} (x y : BitVec n) :
  greater x.getLsbD y.getLsbD n = decide (y.toNat < x.toNat)
  := by
  rw [Bool.eq_iff_iff, greater_iff, value_getLsbD, value_getLsbD, Nat.mod_eq_of_lt x.isLt,
    Nat.mod_eq_of_lt y.isLt, decide_eq_true_iff]

theorem comp8_eq (x_a x_b : BitVec 8) :
  comp8 x_a x_b = decide (x_b.toNat < x_a.toNat)
  := by
  rw [comp8, Comp.output_eq_greater (n := 8) (by decide +kernel), greater_getLsbD]

theorem comp16_eq (x_a x_b : BitVec 16) :
  comp16 x_a x_b = decide (x_b.toNat < x_a.toNat)
  := by
  rw [comp16, Comp.output_eq_greater (n := 16) (by decide +kernel), greater_getLsbD]

theorem comp32_eq (x_a x_b : BitVec 32) :
  comp32 x_a x_b = decide (x_b.toNat < x_a.toNat)
  := by
  rw [comp32, Comp.output_eq_greater (n := 32) (by decide +kernel), greater_getLsbD]

/-- The comparators of narrower width compare. -/
theorem comp16_comp32_iff :
  (∀ x_a x_b, comp16 x_a x_b = true ↔ x_b.toNat < x_a.toNat)
    ∧ ∀ x_a x_b, comp32 x_a x_b = true ↔ x_b.toNat < x_a.toNat
  := by
  constructor
  · intro x_a x_b
    rw [comp16_eq, decide_eq_true_iff]
  · intro x_a x_b
    rw [comp32_eq, decide_eq_true_iff]

/-! ### The 64-bit comparator -/

namespace Comp

/-- The operands are equal at the given positions. -/
def equal {α : Type} [Signal α] (a b : Nat → α) (l : List Nat) : α :=
  all (fun i => ~~~ (a i ^^^ b i)) l

/-- What the drivers of `AND63_32` and the net `GT16_4` compute. -/
def halves {α : Type} [Signal α] (a b : Nat → α) : List α :=
  [equal a b (List.range' 48 16) &&& greater (fun i => a (32 + i)) (fun i => b (32 + i)) 16,
   equal a b (List.range' 32 32) &&& greater a b 32,
   greater (fun i => a (48 + i)) (fun i => b (48 + i)) 16]

theorem natural_halves :
  Natural fun _ _ a b => halves a b
  := by
  intro α _ v a b
  change [(equal a b _).eval v &&& Expr.eval v (greater _ _ 16),
    (equal a b _).eval v &&& Expr.eval v (greater _ _ 32), Expr.eval v (greater _ _ 16)] = _
  rw [eval_greater, eval_greater, eval_greater, equal, equal, eval_all, eval_all]
  rfl

theorem outputs_eq_halves (x y : Nat → Bool) :
  outputs (pairs 32 ++ assigns64) (drivers63_32 ++ [GT16 4]) x y = halves x y
  := by
  apply (natural_outputs _ _).eq_of_norm natural_halves covers_equality
  decide +kernel

/-- The output is known if the drivers of `AND63_32` agree, and then it is `GT16_4`. -/
theorem netValue_settle_top64 {input : CompNet → Logic} {env : List (CompNet × Logic)}
    {d d' g : Bool}
    (hd : drivers63_32.map (Expr.eval (netValue input env)) = [some d, some d'])
    (hg : netValue input env (.GT16 4) = some g) :
  netValue input (settle input env top64) .wx = if d' = d then some g else none
  := by
  have hwx : netValue input (settle input env top64) .wx
      = Logic.resolve [Logic.resolve
        [Logic.xor (Logic.resolve (drivers63_32.map (Expr.eval (netValue input env))))
          (Logic.resolve
            [Logic.xor (Logic.resolve (drivers63_32.map (Expr.eval (netValue input env))))
              (netValue input env (.GT16 4))])]] := rfl
  rw [hwx, hd, hg]
  cases d <;> cases d' <;> cases g <;> rfl

end Comp

/-- The output is known if the drivers of `AND63_32` agree, and then it is `GT16_4`. -/
theorem comp64_eq (x_a x_b : BitVec 64) {d d' g : Bool}
    (h : Comp.halves x_a.getLsbD x_b.getLsbD = [d, d', g]) :
  comp64 x_a x_b = if d' = d then some g else none
  := by
  let l := Comp.pairs 32 ++ Comp.assigns64
  let input := Comp.input x_a.getLsbD x_b.getLsbD
  have hinput : Comp.input (fun i => (some (x_a.getLsbD i) : Logic)) (fun i => some (x_b.getLsbD i))
      = fun n => some (input n) := by
    funext n
    cases n <;> rfl
  have hvalue : netValue (fun n => (some (input n) : Logic)) (run (fun n => some (input n)) [] l)
      = fun n => some (netValue input (run input [] l) n) := by
    funext n
    apply netValue_run_some
  rw [← Comp.outputs_eq_halves, Comp.outputs, List.map_append,
    show [d, d', g] = [d, d'] ++ [g] from rfl] at h
  obtain ⟨hd, hg⟩ := List.append_inj h rfl
  rw [comp64, hinput, Comp.netlist64, settle_append, settle_single]
  apply Comp.netValue_settle_top64
  · rw [hvalue, show [some d, some d'] = [d, d'].map some from rfl, ← hd, List.map_map]
    apply List.map_congr_left
    intro e _
    apply e.eval_some
  · rw [List.map_singleton, List.singleton_inj, Comp.GT16, Expr.eval] at hg
    rw [hvalue]
    exact congrArg some hg

theorem Comp.equal_iff {n : Nat} (x y : BitVec n) {m l : Nat} (hn : n ≤ m + l) :
  equal x.getLsbD y.getLsbD (List.range' m l) = true ↔ x.toNat / 2 ^ m = y.toNat / 2 ^ m
  := by
  rw [← forall_getLsbD_eq_iff x y hn, equal, all_iff]
  simp only [xor_bool, not_bool, Bool.not_eq_true', bne_eq_false_iff_eq]

/-- `COMP64` compares the operands if the first one is not greater or they differ in the highest 16
bits.  Otherwise its output is unknown. -/
theorem comp64_eq_ite (x_a x_b : BitVec 64) :
  comp64 x_a x_b =
    if x_a.toNat / 2 ^ 48 = x_b.toNat / 2 ^ 48 ∧ x_b.toNat < x_a.toNat then none
    else some (decide (x_b.toNat < x_a.toNat))
  := by
  have ha := x_a.isLt
  have hb := x_b.isLt
  obtain ⟨d, d', g, hhalves⟩ : ∃ d d' g,
      Comp.halves x_a.getLsbD x_b.getLsbD = [d, d', g] := ⟨_, _, _, rfl⟩
  rw [comp64_eq x_a x_b hhalves]
  injection hhalves with hd hhalves
  injection hhalves with hd' hhalves
  injection hhalves with hg _
  have hd : d = true ↔ x_a.toNat / 2 ^ 48 = x_b.toNat / 2 ^ 48
      ∧ x_b.toNat / 2 ^ 32 % 2 ^ 16 < x_a.toNat / 2 ^ 32 % 2 ^ 16 := by
    rw [← hd, and_bool, Bool.and_eq_true, Comp.equal_iff _ _ (by decide), greater_iff,
      value_add_getLsbD, value_add_getLsbD]
  have hd' : d' = true ↔ x_a.toNat / 2 ^ 32 = x_b.toNat / 2 ^ 32
      ∧ x_b.toNat % 2 ^ 32 < x_a.toNat % 2 ^ 32 := by
    rw [← hd', and_bool, Bool.and_eq_true, Comp.equal_iff _ _ (by decide), greater_iff,
      value_getLsbD, value_getLsbD]
  have hg : g = true ↔ x_b.toNat / 2 ^ 48 % 2 ^ 16 < x_a.toNat / 2 ^ 48 % 2 ^ 16 := by
    rw [← hg, greater_iff, value_add_getLsbD, value_add_getLsbD]
  by_cases h : x_a.toNat / 2 ^ 48 = x_b.toNat / 2 ^ 48 ∧ x_b.toNat < x_a.toNat
  · have hne : d' ≠ d := by
      rw [ne_eq, Bool.eq_iff_iff, hd, hd']
      omega
    rw [if_neg hne, if_pos h]
  · have heq : d' = d := by
      rw [Bool.eq_iff_iff, hd, hd']
      omega
    have hgt : g = decide (x_b.toNat < x_a.toNat) := by
      rw [Bool.eq_iff_iff, decide_eq_true_iff, hg]
      omega
    rw [if_pos heq, if_neg h, hgt]

/-- The net `AND63_32` is read and has two drivers. -/
theorem not_oneDriver_netlist64 :
  ¬ OneDriver Comp.netlist64
  := by
  intro h
  have hmem : (CompNet.AND 63 32, Comp.drivers63_32) ∈ Comp.netlist64 := by
    apply List.mem_append_right
    apply List.mem_cons_self
  have hread : (CompNet.GT32 2, [Comp.AND 63 32 ^^^ Comp.GT16 4]) ∈ Comp.netlist64 := by
    apply List.mem_append_right
    apply List.mem_cons_of_mem
    apply List.mem_cons_self
  have hlen := h _ hmem _ hread _ List.mem_cons_self List.mem_cons_self
  contradiction

/-- `COMP64` is for no operands a comparator in which every net has one driver.  The value of its
output is right if the upper 16 bits of the operands differ or the first one is not greater. -/
theorem comp64_not_comparator (x_a x_b : BitVec 64) :
  ¬ (OneDriver Comp.netlist64 ∧ comp64 x_a x_b = some (decide (x_b.toNat < x_a.toNat)))
    ∧ (comp64 x_a x_b = some (decide (x_b.toNat < x_a.toNat)) ↔
      ¬ (x_a.toNat / 2 ^ 48 = x_b.toNat / 2 ^ 48 ∧ x_b.toNat < x_a.toNat))
  := by
  constructor
  · rintro ⟨hdriver, -⟩
    apply not_oneDriver_netlist64 hdriver
  · rw [comp64_eq_ite]
    split
    case isTrue h => apply iff_of_false (Option.some_ne_none _).symm (not_not_intro h)
    case isFalse h => apply iff_of_true rfl h

/-- For 1 and 0 the output of `COMP64` is unknown. -/
theorem comp64_one_zero :
  ¬ (OneDriver Comp.netlist64
    ∧ comp64 1#64 0#64 = some (decide ((0#64).toNat < (1#64).toNat)))
  := by
  rintro ⟨-, h⟩
  revert h
  decide +kernel

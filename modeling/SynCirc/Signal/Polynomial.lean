import SynCirc.Signal.Basic
import Mathlib.Data.Nat.Bitwise

/-!
# Normal forms of formulas

A formula is the exclusive or of conjunctions of variables, and the set of these conjunctions is
determined by the formula.  A conjunction is given by the set of its variables, which is the set of
1-bits of a number, and a normal form is an increasing list of such numbers.

Normal forms are signals, hence a circuit computes the normal forms of its formulas when it is run
on them.  Two circuits that yield the same normal forms are the same on truth values, and whether
they do can be evaluated.
-/

namespace Signal

/-- A list of conjunctions of variables. -/
abbrev Poly := List Nat

namespace Poly

/-- Add the conjunction `m` to a polynomial. -/
def toggle (m : Nat) : Poly → Poly
  | [] => [m]
  | n :: p => if m < n then m :: n :: p else if m = n then p else n :: toggle m p

/-- Add the conjunction `m`, and at the place where it belongs go on with `k`. -/
def addWith (m : Nat) (k : Poly → Poly) : Poly → Poly
  | [] => m :: k []
  | n :: q => if m < n then m :: k (n :: q) else if m = n then k q else n :: addWith m k q

/-- The exclusive or. -/
def add (p : Poly) : Poly → Poly := p.foldr addWith id

/-- The conjunction with a conjunction of variables. -/
def scale (m : Nat) (q : Poly) : Poly := q.foldr (fun n r => toggle (m ||| n) r) []

/-- The conjunction. -/
def mul (p q : Poly) : Poly := p.foldr (fun m r => add (scale m q) r) []

end Poly

instance : Signal Poly where
  xor := Poly.add
  and := Poly.mul
  complement := Poly.add [0]
  low := []
  high := [0]

/-- The normal form of an expression. -/
def Expr.norm (e : Expr Nat) : Poly := e.eval (fun i => [2 ^ i])

namespace Poly

open Classical in
/-- The value of a conjunction of variables. -/
noncomputable def value (v : Nat → Bool) (m : Nat) : Bool :=
  decide (∀ i, m.testBit i → v i)

/-- The value of a polynomial. -/
noncomputable def eval (v : Nat → Bool) (p : Poly) : Bool :=
  p.foldr (fun m b => value v m ^^ b) false

variable (v : Nat → Bool)

theorem value_iff (m : Nat) :
  value v m = true ↔ ∀ i, m.testBit i → v i
  := by
  simp only [value, decide_eq_true_eq]

theorem value_zero :
  value v 0 = true
  := by
  rw [value_iff]
  intro i hi
  simp only [Nat.zero_testBit, Bool.false_eq_true] at hi

theorem value_two_pow (i : Nat) :
  value v (2 ^ i) = v i
  := by
  apply Bool.eq_iff_iff.mpr
  simp only [value_iff, Nat.testBit_two_pow, decide_eq_true_eq, forall_eq']

theorem value_or (m n : Nat) :
  value v (m ||| n) = (value v m && value v n)
  := by
  apply Bool.eq_iff_iff.mpr
  simp only [Bool.and_eq_true, value_iff, Nat.testBit_or, Bool.or_eq_true, or_imp, forall_and]

theorem eval_nil :
  eval v [] = false
  := rfl

theorem eval_cons (m : Nat) (p : Poly) :
  eval v (m :: p) = (value v m ^^ eval v p)
  := rfl

theorem eval_toggle (m : Nat) (p : Poly) :
  eval v (toggle m p) = (value v m ^^ eval v p)
  := by
  fun_induction toggle m p with
  | case1 => rfl
  | case2 => rfl
  | case3 p =>
      rw [eval_cons, ← Bool.xor_assoc, Bool.xor_self, Bool.false_xor]
  | case4 n p _ _ ih =>
      rw [eval_cons, eval_cons, ih, Bool.xor_left_comm]

theorem eval_addWith {k : Poly → Poly} {c : Bool} (hk : ∀ q, eval v (k q) = (c ^^ eval v q))
    (m : Nat) (q : Poly) :
  eval v (addWith m k q) = (value v m ^^ (c ^^ eval v q))
  := by
  fun_induction addWith m k q with
  | case1 => rw [eval_cons, hk]
  | case2 => rw [eval_cons, hk]
  | case3 q =>
      rw [hk, eval_cons, Bool.xor_left_comm c, ← Bool.xor_assoc, Bool.xor_self, Bool.false_xor]
  | case4 n q _ _ ih =>
      rw [eval_cons, eval_cons, ih, Bool.xor_left_comm, Bool.xor_left_comm (value v n)]

theorem eval_add (p q : Poly) :
  eval v (add p q) = (eval v p ^^ eval v q)
  := by
  induction p generalizing q with
  | nil =>
      rw [eval_nil, Bool.false_xor]
      rfl
  | cons m p ih =>
      change eval v (addWith m (add p) q) = _
      rw [eval_addWith v ih, eval_cons, Bool.xor_assoc]

theorem eval_scale (m : Nat) (q : Poly) :
  eval v (scale m q) = (value v m && eval v q)
  := by
  induction q with
  | nil =>
      rw [eval_nil, Bool.and_false]
      rfl
  | cons n q ih =>
      change eval v (toggle (m ||| n) (scale m q)) = _
      rw [eval_toggle, value_or, ih, eval_cons, Bool.and_xor_distrib_left]

theorem eval_mul (p q : Poly) :
  eval v (mul p q) = (eval v p && eval v q)
  := by
  induction p with
  | nil => rfl
  | cons m p ih =>
      change eval v (add (scale m q) (mul p q)) = _
      rw [eval_add, eval_scale, ih, eval_cons, Bool.and_xor_distrib_right]

end Poly

/-- An expression and its normal form have the same value. -/
theorem Expr.eval_norm (v : Nat → Bool) (e : Expr Nat) :
  Poly.eval v e.norm = e.eval v
  := by
  induction e with
  | var i =>
      change Poly.eval v [2 ^ i] = v i
      rw [Poly.eval_cons, Poly.eval_nil, Bool.xor_false, Poly.value_two_pow]
  | low => rfl
  | high =>
      change Poly.eval v [0] = true
      rw [Poly.eval_cons, Poly.value_zero]
      rfl
  | xor a b iha ihb =>
      change Poly.eval v (Poly.add a.norm b.norm) = (a.eval v ^^ b.eval v)
      rw [Poly.eval_add, iha, ihb]
  | and a b iha ihb =>
      change Poly.eval v (Poly.mul a.norm b.norm) = (a.eval v && b.eval v)
      rw [Poly.eval_mul, iha, ihb]
  | not a iha =>
      change Poly.eval v (Poly.add [0] a.norm) = !a.eval v
      rw [Poly.eval_add, iha, Poly.eval_cons, Poly.value_zero, Poly.eval_nil, Bool.xor_false,
        Bool.true_xor]

/-- Circuits with the same normal forms are the same. -/
theorem Natural.eq_of_norm {f g : Circuit₂} (hf : Natural f) (hg : Natural g) {a b : Nat → Expr Nat}
    (hab : Covers a b)
    (h : f Poly (fun i => (a i).norm) (fun i => (b i).norm)
      = g Poly (fun i => (a i).norm) (fun i => (b i).norm))
    (x y : Nat → Bool) :
  f Bool x y = g Bool x y
  := by
  apply hf.eq_of_eval hg hab
  intro v
  have hmap : ∀ l : List (Expr Nat), l.map (Expr.eval v) = (l.map Expr.norm).map (Poly.eval v) := by
    intro l
    rw [List.map_map]
    apply List.map_congr_left
    intro e _
    symm
    apply e.eval_norm
  have hnorm : (f (Expr Nat) a b).map Expr.norm = (g (Expr Nat) a b).map Expr.norm := by
    rw [show Expr.norm = Expr.eval (fun i => ([2 ^ i] : Poly)) from rfl, hf, hg]
    apply h
  rw [hmap, hmap, hnorm]

end Signal

import Mathlib.Algebra.Group.Nat.Defs
import Mathlib.Logic.Function.Basic
import Mathlib.Data.List.Basic

/-!
# Signals

A combinational circuit is a function on bits that is made of gates only, so it can be run on every
type of bits that has the gates.  `Signal α` says that `α` is such a type.  There are three of them
here: the truth values, the values `Logic` of a net that may be unknown, and the expressions `Expr`
in variables.

Run on expressions, a circuit yields what it computes as a formula.  `eval` is the value of a
formula at given values of its variables.  A circuit run on the values of expressions yields the
values of the formulas, which holds by definition for every circuit written in this way.
-/

/-- A type of bits that has the gates. -/
class Signal (α : Type) extends XorOp α, AndOp α, Complement α where
  low : α
  high : α

namespace Signal

instance : Signal Bool where
  xor := Bool.xor
  and := Bool.and
  complement := Bool.not
  low := false
  high := true

@[simp]
theorem xor_bool (a b : Bool) :
  a ^^^ b = (a ^^ b)
  := rfl

@[simp]
theorem and_bool (a b : Bool) :
  a &&& b = (a && b)
  := rfl

@[simp]
theorem not_bool (a : Bool) :
  ~~~ a = !a
  := rfl

@[simp]
theorem low_bool :
  (low : Bool) = false
  := rfl

@[simp]
theorem high_bool :
  (high : Bool) = true
  := rfl

/-! ### Unknown values -/

/-- The value of a net, `none` if it is unknown. -/
abbrev Logic := Option Bool

namespace Logic

/-- The exclusive or is known if both values are. -/
def xor : Logic → Logic → Logic
  | some a, some b => some (a ^^ b)
  | _, _ => none

/-- The conjunction is known if both values are, or if one of them is 0. -/
def and : Logic → Logic → Logic
  | some a, some b => some (a && b)
  | some false, none => some false
  | none, some false => some false
  | _, _ => none

/-- The value of a net with the given drivers: it is known if they agree. -/
def resolve : List Logic → Logic
  | [] => none
  | b :: bs => if bs.all (· == b) then b else none

end Logic

instance : Signal Logic where
  xor := Logic.xor
  and := Logic.and
  complement := Option.map Bool.not
  low := some false
  high := some true

/-! ### Expressions -/

/-- The expressions in variables. -/
inductive Expr (V : Type) where
  | var (i : V)
  | low
  | high
  | xor (a b : Expr V)
  | and (a b : Expr V)
  | not (a : Expr V)

instance {V : Type} : Signal (Expr V) where
  xor := .xor
  and := .and
  complement := .not
  low := .low
  high := .high

variable {α : Type} [Signal α] {V : Type}

/-- The value of an expression. -/
def Expr.eval (v : V → α) : Expr V → α
  | var i => v i
  | low => Signal.low
  | high => Signal.high
  | xor a b => a.eval v ^^^ b.eval v
  | and a b => a.eval v &&& b.eval v
  | not a => ~~~ a.eval v

/-- At known values, an expression has a known value. -/
theorem Expr.eval_some (v : V → Bool) (e : Expr V) :
  e.eval (fun i => (some (v i) : Logic)) = some (e.eval v)
  := by
  induction e with
  | var i => rfl
  | low => rfl
  | high => rfl
  | xor a b iha ihb =>
      rw [eval, iha, ihb]
      rfl
  | and a b iha ihb =>
      rw [eval, iha, ihb]
      rfl
  | not a iha =>
      rw [eval, iha]
      rfl

/-! ### Circuits -/

/-- A circuit with two operands. -/
abbrev Circuit₂ := ∀ (α : Type) [Signal α], (Nat → α) → (Nat → α) → List α

/-- The circuit is made of gates only. -/
def Natural (f : Circuit₂) : Prop :=
  ∀ (α : Type) [Signal α] (v : Nat → α) (a b : Nat → Expr Nat),
    (f (Expr Nat) a b).map (Expr.eval v) = f α (fun i => (a i).eval v) (fun i => (b i).eval v)

/-- The operands can have any values. -/
def Covers (a b : Nat → Expr Nat) : Prop :=
  ∀ x y : Nat → Bool, ∃ v, (∀ i, (a i).eval v = x i) ∧ ∀ i, (b i).eval v = y i

/-- Circuits whose formulas have the same values are the same. -/
theorem Natural.eq_of_eval {f g : Circuit₂} (hf : Natural f) (hg : Natural g) {a b : Nat → Expr Nat}
    (hab : Covers a b)
    (h : ∀ v : Nat → Bool,
      (f (Expr Nat) a b).map (Expr.eval v) = (g (Expr Nat) a b).map (Expr.eval v))
    (x y : Nat → Bool) :
  f Bool x y = g Bool x y
  := by
  obtain ⟨v, hx, hy⟩ := hab x y
  have heq := h v
  rw [hf Bool v a b, hg Bool v a b] at heq
  simp only [hx, hy] at heq
  apply heq

/-- The variables for the first operand. -/
def operand (i : Nat) : Expr Nat := .var (2 * i)

/-- A second operand that is given by its difference from the first one. -/
def difference (i : Nat) : Expr Nat := .var (2 * i) ^^^ .var (2 * i + 1)

/-- A second operand that is given by where it is equal to the first one. -/
def equality (i : Nat) : Expr Nat := ~~~ (.var (2 * i) ^^^ .var (2 * i + 1))

/-- The valuation with the given values at even and odd variables. -/
def interleave (x y : Nat → Bool) (i : Nat) : Bool :=
  if i % 2 = 0 then x (i / 2) else y (i / 2)

theorem interleave_even (x y : Nat → Bool) (i : Nat) :
  interleave x y (2 * i) = x i
  := by
  rw [interleave, if_pos (Nat.mul_mod_right 2 i), Nat.mul_div_cancel_left i Nat.two_pos]

theorem interleave_odd (x y : Nat → Bool) (i : Nat) :
  interleave x y (2 * i + 1) = y i
  := by
  rw [interleave, if_neg (by omega), show (2 * i + 1) / 2 = i by omega]

theorem covers_difference :
  Covers operand difference
  := by
  intro x y
  use interleave x (fun i => x i ^^ y i)
  constructor
  · intro i
    apply interleave_even
  · intro i
    change interleave _ _ (2 * i) ^^^ interleave _ _ (2 * i + 1) = y i
    rw [interleave_even, interleave_odd, xor_bool, ← Bool.xor_assoc, Bool.xor_self, Bool.false_xor]

theorem covers_equality :
  Covers operand equality
  := by
  intro x y
  use interleave x (fun i => x i ^^ !y i)
  constructor
  · intro i
    apply interleave_even
  · intro i
    change ~~~ (interleave _ _ (2 * i) ^^^ interleave _ _ (2 * i + 1)) = y i
    rw [interleave_even, interleave_odd, xor_bool, ← Bool.xor_assoc, Bool.xor_self, Bool.false_xor,
      not_bool, Bool.not_not]

end Signal

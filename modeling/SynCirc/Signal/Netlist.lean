import SynCirc.Signal.Basic

/-!
# Netlists

A combinational module can also be given by the assignments to its nets.  Here the assignments are
listed such that a net is assigned before it is read.

A net of a module may have several drivers.  Its value is known if the drivers agree.  In a module
in which every net has one driver, the nets have the values that they are assigned one after the
other.
-/

namespace Signal

/-- The variables of an expression. -/
def Expr.vars {V : Type} : Expr V → List V
  | var i => [i]
  | low => []
  | high => []
  | xor a b => a.vars ++ b.vars
  | and a b => a.vars ++ b.vars
  | not a => a.vars

/-- Every net that is read has exactly one driver. -/
def OneDriver {N : Type} (l : List (N × List (Expr N))) : Prop :=
  ∀ p ∈ l, ∀ q ∈ l, ∀ e ∈ q.2, p.1 ∈ e.vars → p.2.length = 1

section Values

variable {N : Type} [DecidableEq N] {α : Type}

/-- The value of a net, which is an input or among the assigned ones. -/
def netValue (input : N → α) : List (N × α) → N → α
  | [], n => input n
  | (m, a) :: env, n => if n = m then a else netValue input env n

/-- The values of the nets after the assignments. -/
def run [Signal α] (input : N → α) (env : List (N × α)) : List (N × Expr N) → List (N × α)
  | [] => env
  | (n, e) :: l => run input ((n, e.eval (netValue input env)) :: env) l

/-- The values of the nets, each of which is given with its drivers. -/
def settle (input : N → Logic) (env : List (N × Logic)) :
    List (N × List (Expr N)) → List (N × Logic)
  | [] => env
  | (n, es) :: l =>
    settle input ((n, Logic.resolve (es.map (Expr.eval (netValue input env)))) :: env) l

end Values

/-! ### Assignments commute with evaluation -/

section Map

variable {N : Type} [DecidableEq N] {α β : Type} (f : α → β) (input : N → α)

theorem netValue_map (env : List (N × α)) (n : N) :
  netValue (f ∘ input) (env.map (Prod.map id f)) n = f (netValue input env n)
  := by
  induction env with
  | nil => rfl
  | cons p env ih =>
      obtain ⟨m, a⟩ := p
      change (if n = m then f a else netValue (f ∘ input) (env.map (Prod.map id f)) n)
        = f (if n = m then a else netValue input env n)
      rw [ih, apply_ite f]

/-- The assignments are mapped to each other along a map that commutes with expressions. -/
theorem run_map [Signal α] [Signal β]
    (hf : ∀ (v : N → α) (e : Expr N), e.eval (f ∘ v) = f (e.eval v)) (l : List (N × Expr N))
    (env : List (N × α)) :
  run (f ∘ input) (env.map (Prod.map id f)) l = (run input env l).map (Prod.map id f)
  := by
  induction l generalizing env with
  | nil => rfl
  | cons p l ih =>
      obtain ⟨n, e⟩ := p
      have hvalue : netValue (f ∘ input) (env.map (Prod.map id f)) = f ∘ netValue input env := by
        funext m
        apply netValue_map
      rw [run, run, hvalue, hf]
      apply ih ((n, e.eval (netValue input env)) :: env)

/-- A value that is read after the assignments commutes with such a map. -/
theorem netValue_run_map [Signal α] [Signal β]
    (hf : ∀ (v : N → α) (e : Expr N), e.eval (f ∘ v) = f (e.eval v)) (l : List (N × Expr N))
    (n : N) :
  netValue (f ∘ input) (run (f ∘ input) [] l) n = f (netValue input (run input [] l) n)
  := by
  rw [← netValue_map f input, ← run_map f input hf]
  rfl

end Map

/-- An expression in expressions is evaluated in two steps. -/
theorem Expr.eval_comp {V W α : Type} [Signal α] (v : W → α) (σ : V → Expr W) (e : Expr V) :
  e.eval (Expr.eval v ∘ σ) = (e.eval σ).eval v
  := by
  induction e with
  | var i => rfl
  | low => rfl
  | high => rfl
  | xor a b iha ihb =>
      rw [eval, iha, ihb]
      rfl
  | and a b iha ihb =>
      rw [eval, iha, ihb]
      rfl
  | not a iha =>
      rw [eval, iha]
      rfl

/-! ### Known values -/

section Known

variable {N : Type} [DecidableEq N]

theorem settle_append (input : N → Logic) (env : List (N × Logic))
    (l l' : List (N × List (Expr N))) :
  settle input env (l ++ l') = settle input (settle input env l) l'
  := by
  induction l generalizing env with
  | nil => rfl
  | cons p l ih => apply ih

/-- Nets with one driver each have the values that they are assigned. -/
theorem settle_single (input : N → Logic) (env : List (N × Logic)) (l : List (N × Expr N)) :
  settle input env (l.map fun p => (p.1, [p.2])) = run input env l
  := by
  induction l generalizing env with
  | nil => rfl
  | cons p l ih => apply ih

/-- At known inputs, nets with one driver have known values. -/
theorem netValue_run_some (input : N → Bool) (l : List (N × Expr N)) (n : N) :
  netValue (fun n => (some (input n) : Logic)) (run (fun n => some (input n)) [] l) n
    = some (netValue input (run input [] l) n)
  := by
  apply netValue_run_map some input
  intro v e
  apply e.eval_some

end Known

end Signal

import Mathlib.Algebra.Group.Nat.Defs
import Mathlib.Logic.Function.Basic
import Mathlib.Data.List.Basic

/-!
# Outcomes of checked programs

A program over an error set `ε` returns a value, returns an error of `ε`, or stops at a
safety check of the language.  `Outcome ε` is the monad of such programs.  Memory is a
`Buffer`: a length and the contents of every cell, where the contents of a cell that has
not been written is whatever the memory held.  Reading and writing a cell, indexing and
slicing a list are checked against the length.
-/

namespace Zig

/-- The safety checks at which a program stops. -/
inductive Trap where
  | indexOutOfBounds
  | integerOverflow
  | castOutOfRange
  | assertionFailure
  | nullUnwrap
  | inactiveField
  | undefinedRead
  | stackOverflow
  deriving DecidableEq, Repr

/-- The outcome of a program over the error set `ε` with results in `α`. -/
inductive Outcome (ε α : Type) where
  | ok (value : α)
  | error (e : ε)
  | panic (t : Trap)
  deriving DecidableEq, Repr

namespace Outcome

variable {ε α β : Type}

/-- Run a program and hand its result to the next one. -/
def bind : Outcome ε α → (α → Outcome ε β) → Outcome ε β
  | ok a, f => f a
  | error e, _ => error e
  | panic t, _ => panic t

instance : Monad (Outcome ε) where
  pure := ok
  bind := bind

@[simp]
theorem pure_eq (a : α) :
  (pure a : Outcome ε α) = ok a
  := rfl

@[simp]
theorem ok_bind (a : α) (f : α → Outcome ε β) :
  (ok a >>= f) = f a
  := rfl

@[simp]
theorem error_bind (e : ε) (f : α → Outcome ε β) :
  (error e >>= f) = error e
  := rfl

@[simp]
theorem panic_bind (t : Trap) (f : α → Outcome ε β) :
  (panic t >>= f) = panic t
  := rfl

/-- Handing on the result as it is changes nothing. -/
theorem map_id_eq (x : Outcome ε α) :
  id <$> x = x
  := by
  cases x with
  | ok _ => rfl
  | error _ => rfl
  | panic _ => rfl

/-- Composition of programs is associative. -/
theorem bind_assoc_eq {γ : Type} (x : Outcome ε α) (f : α → Outcome ε β)
    (g : β → Outcome ε γ) :
  (x >>= f >>= g) = (x >>= fun a => f a >>= g)
  := by
  cases x with
  | ok _ => rfl
  | error _ => rfl
  | panic _ => rfl

instance : LawfulMonad (Outcome ε) :=
  LawfulMonad.mk' (Outcome ε) map_id_eq (fun _ _ => rfl) bind_assoc_eq

/-- A composite returns exactly when its first part returns and the second part returns
from there. -/
theorem bind_eq_ok {x : Outcome ε α} {f : α → Outcome ε β} {b : β} :
  (x >>= f) = ok b ↔ ∃ a, x = ok a ∧ f a = ok b
  := by
  cases x with
  | ok a => simp
  | error e => simp
  | panic t => simp

/-- Programs that all return, in order. -/
theorem mapM_eq_ok {f : α → Outcome ε β} {g : α → β} {xs : List α}
    (h : ∀ x ∈ xs, f x = ok (g x)) :
  xs.mapM f = ok (xs.map g)
  := by
  induction xs with
  | nil => rfl
  | cons x xs ih =>
      rw [List.forall_mem_cons] at h
      rw [List.mapM_cons, h.1, ok_bind, ih h.2]
      rfl

/-- The program with its errors renamed. -/
def mapError {ε' : Type} (f : ε → ε') : Outcome ε α → Outcome ε' α
  | ok a => ok a
  | error e => error (f e)
  | panic t => panic t

/-- The invariant rule for a loop over the elements of a list and their positions. -/
theorem foldlM_zipIdx {σ : Type} {f : σ → α × Nat → Outcome ε σ} {xs : List α}
    (P : List α → σ → Prop)
    (step : ∀ pre x post s, xs = pre ++ x :: post → P pre s →
      ∃ s', f s (x, pre.length) = ok s' ∧ P (pre ++ [x]) s')
    {s : σ} (h : P [] s) :
  ∃ s', xs.zipIdx.foldlM f s = ok s' ∧ P xs s'
  := by
  have rest : ∀ post pre s, xs = pre ++ post → P pre s →
      ∃ s', (post.zipIdx pre.length).foldlM f s = ok s' ∧ P xs s' := by
    intro post
    induction post with
    | nil =>
        intro pre s hxs hpre
        rw [List.append_nil] at hxs
        exact ⟨s, rfl, hxs ▸ hpre⟩
    | cons x post ih =>
        intro pre s hxs hpre
        obtain ⟨s₁, hs₁, hpre₁⟩ := step pre x post s hxs hpre
        have hxs₁ : xs = (pre ++ [x]) ++ post := by
          rw [hxs, List.append_assoc]
          rfl
        obtain ⟨s', hs', hP⟩ := ih (pre ++ [x]) s₁ hxs₁ hpre₁
        rw [List.length_append, List.length_singleton] at hs'
        refine ⟨s', ?_, hP⟩
        rw [List.zipIdx_cons, List.foldlM_cons, hs₁, ok_bind]
        apply hs'
  apply rest xs [] s rfl h

/-- What every turn of a loop keeps holds when the loop returns. -/
theorem foldlM_induct {σ : Type} {f : σ → α → Outcome ε σ} {P : σ → Prop} {xs : List α}
    (step : ∀ x ∈ xs, ∀ s s', P s → f s x = ok s' → P s') {s s' : σ} (hs : P s)
    (h : xs.foldlM f s = ok s') :
  P s'
  := by
  induction xs generalizing s with
  | nil => rw [← ok.inj h]; apply hs
  | cons x xs ih =>
      rw [List.forall_mem_cons] at step
      rw [List.foldlM_cons] at h
      obtain ⟨s₁, hx, h⟩ := bind_eq_ok.mp h
      apply ih step.2 (step.1 s s₁ hs hx) h

/-- What a turn of a loop establishes for its element, and the other turns keep, holds for every
element when the loop returns. -/
theorem foldlM_forall {σ : Type} {f : σ → α → Outcome ε σ} {P : α → σ → Prop} {xs : List α}
    (new : ∀ x s s', f s x = ok s' → P x s')
    (keep : ∀ x s s', f s x = ok s' → ∀ y, P y s → P y s') {s s' : σ}
    (h : xs.foldlM f s = ok s') :
  (∀ x ∈ xs, P x s') ∧ ∀ y, P y s → P y s'
  := by
  induction xs generalizing s with
  | nil =>
      rw [← ok.inj h]
      simp
  | cons x xs ih =>
      rw [List.foldlM_cons] at h
      obtain ⟨s₁, hx, h⟩ := bind_eq_ok.mp h
      obtain ⟨hxs, hkeep⟩ := ih h
      rw [List.forall_mem_cons]
      exact ⟨⟨hkeep x (new x s s₁ hx), hxs⟩, fun y hy => hkeep y (keep x s s₁ hx y hy)⟩

/-- What every turn of a program over a list returns is related to its element. -/
theorem mapM_forall {f : α → Outcome ε β} {P : β → Prop} {xs : List α}
    (step : ∀ x ∈ xs, ∀ y, f x = ok y → P y) {ys : List β} (h : xs.mapM f = ok ys) :
  ∀ y ∈ ys, P y
  := by
  induction xs generalizing ys with
  | nil =>
      rw [← ok.inj h]
      simp
  | cons x xs ih =>
      rw [List.forall_mem_cons] at step
      rw [List.mapM_cons] at h
      obtain ⟨y, hy, h⟩ := bind_eq_ok.mp h
      obtain ⟨ys', hys, h⟩ := bind_eq_ok.mp h
      obtain rfl := ok.inj h
      rw [List.forall_mem_cons]
      exact ⟨step.1 y hy, ih step.2 hys⟩

/-! ### Programs without errors -/

/-- The program returns no error. -/
def NoError (x : Outcome ε α) : Prop := ∀ e, x ≠ error e

theorem NoError.ok (a : α) :
  NoError (.ok a : Outcome ε α)
  := by
  intro e h
  contradiction

theorem NoError.panic (t : Trap) :
  NoError (.panic t : Outcome ε α)
  := by
  intro e h
  contradiction

theorem NoError.bind {x : Outcome ε α} {f : α → Outcome ε β} (hx : x.NoError)
    (hf : ∀ a, (f a).NoError) :
  (x >>= f).NoError
  := by
  cases x with
  | ok a => apply hf a
  | error e => apply absurd rfl (hx e)
  | panic t => apply NoError.panic

theorem NoError.mapM {f : α → Outcome ε β} (hf : ∀ a, (f a).NoError) (xs : List α) :
  (xs.mapM f).NoError
  := by
  induction xs with
  | nil => apply NoError.ok
  | cons x xs ih =>
      rw [List.mapM_cons]
      apply (hf x).bind
      intro y
      apply ih.bind
      intro ys
      apply NoError.ok

theorem NoError.foldlM {σ : Type} {f : σ → α → Outcome ε σ} (hf : ∀ s a, (f s a).NoError)
    (xs : List α) (s : σ) :
  (xs.foldlM f s).NoError
  := by
  induction xs generalizing s with
  | nil => apply NoError.ok
  | cons x xs ih =>
      rw [List.foldlM_cons]
      apply (hf s x).bind
      intro s'
      apply ih

end Outcome

section Checks

variable {ε α : Type}

/-- Stop at the safety check `t` unless `p` holds. -/
def check (t : Trap) (p : Prop) [Decidable p] : Outcome ε Unit :=
  if p then .ok () else .panic t

@[simp]
theorem check_of {t : Trap} {p : Prop} [Decidable p] (h : p) :
  (check t p : Outcome ε Unit) = .ok ()
  := if_pos h

@[simp]
theorem check_not {t : Trap} {p : Prop} [Decidable p] (h : ¬ p) :
  (check t p : Outcome ε Unit) = .panic t
  := if_neg h

theorem check_eq_ok {t : Trap} {p : Prop} [Decidable p] {u : Unit} :
  (check t p : Outcome ε Unit) = .ok u ↔ p
  := by
  by_cases h : p
  · simp [h]
  · simp [h]

theorem noError_check (t : Trap) (p : Prop) [Decidable p] :
  (check t p : Outcome ε Unit).NoError
  := by
  by_cases h : p
  · rw [check_of h]
    apply Outcome.NoError.ok
  · rw [check_not h]
    apply Outcome.NoError.panic

/-- `a - b` on unsigned integers. -/
def sub (a b : Nat) : Outcome ε Nat :=
  if b ≤ a then .ok (a - b) else .panic .integerOverflow

theorem sub_of {a b : Nat} (h : b ≤ a) :
  (sub a b : Outcome ε Nat) = .ok (a - b)
  := if_pos h

/-- `a + b` on unsigned integers of 64 bits. -/
def add (a b : Nat) : Outcome ε Nat :=
  if a + b < 2 ^ 64 then .ok (a + b) else .panic .integerOverflow

theorem add_of {a b : Nat} (h : a + b < 2 ^ 64) :
  (add a b : Outcome ε Nat) = .ok (a + b)
  := if_pos h

theorem add_not {a b : Nat} (h : ¬ a + b < 2 ^ 64) :
  (add a b : Outcome ε Nat) = .panic .integerOverflow
  := if_neg h

theorem add_eq_ok {a b k : Nat} :
  (add a b : Outcome ε Nat) = .ok k ↔ a + b < 2 ^ 64 ∧ a + b = k
  := by
  by_cases h : a + b < 2 ^ 64
  · rw [add_of h, Outcome.ok.injEq, and_iff_right h]
  · rw [add_not h]
    simp only [reduceCtorEq, h, false_and]

theorem noError_add (a b : Nat) :
  (add a b : Outcome ε Nat).NoError
  := by
  by_cases h : a + b < 2 ^ 64
  · rw [add_of h]
    apply Outcome.NoError.ok
  · rw [add_not h]
    apply Outcome.NoError.panic

/-- `@intCast` of a signed integer to an unsigned one. -/
def intCast (n : Int) : Outcome ε Nat :=
  if 0 ≤ n then .ok n.toNat else .panic .castOutOfRange

theorem intCast_eq_ok {n : Int} {k : Nat} :
  (intCast n : Outcome ε Nat) = .ok k ↔ n = k
  := by
  rw [intCast]
  split
  · simp only [Outcome.ok.injEq]
    omega
  · simp only [reduceCtorEq, false_iff]
    omega

/-- `optional.?`. -/
def unwrap : Option α → Outcome ε α
  | some a => .ok a
  | none => .panic .nullUnwrap

/-- `xs[i]`. -/
def index (xs : List α) (i : Nat) : Outcome ε α :=
  match xs[i]? with
  | some x => .ok x
  | none => .panic .indexOutOfBounds

theorem index_eq_ok {xs : List α} {i : Nat} {a : α} :
  (index xs i : Outcome ε α) = .ok a ↔ xs[i]? = some a
  := by
  rw [index]
  cases xs[i]? <;> simp

theorem noError_index (xs : List α) (i : Nat) :
  (index xs i : Outcome ε α).NoError
  := by
  rw [index]
  cases xs[i]? with
  | none => apply Outcome.NoError.panic
  | some a => apply Outcome.NoError.ok

/-- `xs[i] = a`. -/
def store (xs : List α) (i : Nat) (a : α) : Outcome ε (List α) :=
  if i < xs.length then .ok (xs.set i a) else .panic .indexOutOfBounds

/-- `xs[offset..][0..len]`. -/
def slice (xs : List α) (offset len : Nat) : Outcome ε (List α) :=
  if offset + len ≤ xs.length then .ok ((xs.drop offset).take len)
  else .panic .indexOutOfBounds

theorem slice_of {xs : List α} {offset len : Nat} (h : offset + len ≤ xs.length) :
  (slice xs offset len : Outcome ε (List α)) = .ok ((xs.drop offset).take len)
  := if_pos h

theorem slice_eq_ok {xs ys : List α} {offset len : Nat} :
  (slice xs offset len : Outcome ε (List α)) = .ok ys
    ↔ offset + len ≤ xs.length ∧ (xs.drop offset).take len = ys
  := by
  by_cases h : offset + len ≤ xs.length
  · simp [slice_of h, h]
  · simp [slice, h]

theorem length_of_slice {xs ys : List α} {offset len : Nat}
    (h : (slice xs offset len : Outcome ε (List α)) = .ok ys) :
  ys.length = len
  := by
  obtain ⟨hle, rfl⟩ := slice_eq_ok.mp h
  rw [List.length_take, List.length_drop]
  omega

theorem noError_slice (xs : List α) (offset len : Nat) :
  (slice xs offset len : Outcome ε (List α)).NoError
  := by
  rw [slice]
  split
  · apply Outcome.NoError.ok
  · apply Outcome.NoError.panic

end Checks

/-- A block of `len` memory cells. -/
structure Buffer (α : Type) where
  len : Nat
  cell : Nat → α

namespace Buffer

variable {ε α : Type}

/-- A block of `n` cells that hold `a`. -/
def filled (n : Nat) (a : α) : Buffer α := ⟨n, fun _ => a⟩

/-- The block with cell `i` set to `a`. -/
def set (b : Buffer α) (i : Nat) (a : α) : Buffer α :=
  { b with cell := Function.update b.cell i a }

/-- The block with a further cell, which holds `a`. -/
def push (b : Buffer α) (a : α) : Buffer α :=
  ⟨b.len + 1, Function.update b.cell b.len a⟩

/-- Read a cell. -/
def read (b : Buffer α) (i : Nat) : Outcome ε α :=
  if i < b.len then .ok (b.cell i) else .panic .indexOutOfBounds

/-- Write a cell. -/
def write (b : Buffer α) (i : Nat) (a : α) : Outcome ε (Buffer α) :=
  if i < b.len then .ok (b.set i a) else .panic .indexOutOfBounds

/-- The contents of the cells, in order. -/
def toList (b : Buffer α) : List α := (List.range b.len).map b.cell

@[simp]
theorem set_len (b : Buffer α) (i : Nat) (a : α) :
  (b.set i a).len = b.len
  := rfl

@[simp]
theorem set_cell (b : Buffer α) (i : Nat) (a : α) :
  (b.set i a).cell = Function.update b.cell i a
  := rfl

@[simp]
theorem push_cell (b : Buffer α) (a : α) :
  (b.push a).cell = Function.update b.cell b.len a
  := rfl

/-- Setting a cell to a value with a property keeps it a property of all cells. -/
theorem forall_cell_set {P : α → Prop} {b : Buffer α} (h : ∀ j, P (b.cell j)) (i : Nat) {a : α}
    (ha : P a) (j : Nat) :
  P ((b.set i a).cell j)
  := by
  rw [set_cell, Function.update_apply]
  split
  · apply ha
  · apply h j

/-- Pushing a value with a property keeps it a property of all cells. -/
theorem forall_cell_push {P : α → Prop} {b : Buffer α} (h : ∀ j, P (b.cell j)) {a : α}
    (ha : P a) (j : Nat) :
  P ((b.push a).cell j)
  := by
  rw [push_cell, Function.update_apply]
  split
  · apply ha
  · apply h j

theorem read_of {b : Buffer α} {i : Nat} (h : i < b.len) :
  (b.read i : Outcome ε α) = .ok (b.cell i)
  := if_pos h

theorem write_of {b : Buffer α} {i : Nat} (h : i < b.len) (a : α) :
  (b.write i a : Outcome ε (Buffer α)) = .ok (b.set i a)
  := if_pos h

theorem read_eq_ok {b : Buffer α} {i : Nat} {a : α} :
  (b.read i : Outcome ε α) = .ok a ↔ i < b.len ∧ b.cell i = a
  := by
  by_cases h : i < b.len
  · simp [read_of h, h]
  · simp [read, h]

theorem write_eq_ok {b b' : Buffer α} {i : Nat} {a : α} :
  (b.write i a : Outcome ε (Buffer α)) = .ok b' ↔ i < b.len ∧ b.set i a = b'
  := by
  by_cases h : i < b.len
  · simp [write_of h, h]
  · simp [write, h]

theorem noError_read (b : Buffer α) (i : Nat) :
  (b.read i : Outcome ε α).NoError
  := by
  rw [read]
  split
  · apply Outcome.NoError.ok
  · apply Outcome.NoError.panic

theorem noError_write (b : Buffer α) (i : Nat) (a : α) :
  (b.write i a : Outcome ε (Buffer α)).NoError
  := by
  rw [write]
  split
  · apply Outcome.NoError.ok
  · apply Outcome.NoError.panic

/-- Reading a list of cells gives their contents. -/
theorem mapM_read {b : Buffer α} {is : List Nat} (h : ∀ i ∈ is, i < b.len) :
  is.mapM (b.read (ε := ε)) = .ok (is.map b.cell)
  := Outcome.mapM_eq_ok (fun i hi => read_of (h i hi))

theorem mapM_read_eq_ok {b : Buffer α} {is : List Nat} {as : List α} :
  is.mapM (b.read (ε := ε)) = .ok as ↔ (∀ i ∈ is, i < b.len) ∧ is.map b.cell = as
  := by
  constructor
  · intro h
    induction is generalizing as with
    | nil => simpa using h
    | cons i is ih =>
        rw [List.mapM_cons] at h
        obtain ⟨a, ha, h⟩ := Outcome.bind_eq_ok.mp h
        obtain ⟨as', has, h⟩ := Outcome.bind_eq_ok.mp h
        obtain ⟨hi, rfl⟩ := read_eq_ok.mp ha
        obtain ⟨his, rfl⟩ := ih has
        obtain rfl := Outcome.ok.inj h
        rw [List.forall_mem_cons]
        exact ⟨⟨hi, his⟩, rfl⟩
  · rintro ⟨his, rfl⟩
    apply mapM_read his

/-- Writing values to a list of cells sets them in order. -/
theorem foldlM_write {b : Buffer α} {ps : List (Nat × α)} (h : ∀ p ∈ ps, p.1 < b.len) :
  ps.foldlM (fun b p => (b.write p.1 p.2 : Outcome ε (Buffer α))) b
    = .ok ⟨b.len, ps.foldl (fun v p => Function.update v p.1 p.2) b.cell⟩
  := by
  induction ps generalizing b with
  | nil => rfl
  | cons p ps ih =>
      rw [List.foldlM_cons, write_of (h p List.mem_cons_self), Outcome.ok_bind]
      apply ih (b := b.set p.1 p.2) (fun q hq => h q (List.mem_cons_of_mem p hq))

theorem foldlM_write_eq_ok {b b' : Buffer α} {ps : List (Nat × α)} :
  ps.foldlM (fun b p => (b.write p.1 p.2 : Outcome ε (Buffer α))) b = .ok b'
    ↔ (∀ p ∈ ps, p.1 < b.len)
      ∧ ⟨b.len, ps.foldl (fun v p => Function.update v p.1 p.2) b.cell⟩ = b'
  := by
  constructor
  · intro h
    induction ps generalizing b with
    | nil => exact ⟨by simp, Outcome.ok.inj h⟩
    | cons p ps ih =>
        rw [List.foldlM_cons] at h
        obtain ⟨b₁, hp, h⟩ := Outcome.bind_eq_ok.mp h
        obtain ⟨hlt, rfl⟩ := write_eq_ok.mp hp
        obtain ⟨hps, hb'⟩ := ih h
        rw [List.forall_mem_cons]
        exact ⟨⟨hlt, hps⟩, hb'⟩
  · rintro ⟨hps, rfl⟩
    apply foldlM_write hps

end Buffer

end Zig

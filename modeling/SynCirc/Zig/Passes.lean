import SynCirc.Zig.Outcome

/-!
# Programs that pass a safety check

A program passes a safety check if it does not stop at it.  What it returns may be needed to show
that the rest of a composite passes the check as well, so the rules carry a property of it.
-/

namespace Zig

variable {ε α β σ : Type} {t : Trap}

namespace Outcome

/-- The program does not stop at the safety check `t`, and what it returns has the property `P`. -/
def Passes (t : Trap) (P : α → Prop) : Outcome ε α → Prop
  | ok a => P a
  | error _ => True
  | panic t' => t' ≠ t

theorem Passes.ne_panic {x : Outcome ε α} {P : α → Prop} (h : x.Passes t P) :
  x ≠ panic t
  := by
  rintro rfl
  apply h rfl

theorem Passes.of_ok {x : Outcome ε α} {P : α → Prop} (h : x.Passes t P) {a : α} (ha : x = ok a) :
  P a
  := by
  rw [ha] at h
  apply h

theorem Passes.mono {x : Outcome ε α} {P Q : α → Prop} (h : x.Passes t P) (hPQ : ∀ a, P a → Q a) :
  x.Passes t Q
  := by
  cases x with
  | ok a => apply hPQ a h
  | error e => trivial
  | panic t' => apply h

/-- A composite passes the check if its parts do. -/
theorem Passes.bind {x : Outcome ε α} {f : α → Outcome ε β} {P : α → Prop} {Q : β → Prop}
    (h : x.Passes t P) (hf : ∀ a, P a → (f a).Passes t Q) :
  (x >>= f).Passes t Q
  := by
  cases x with
  | ok a => apply hf a h
  | error e => trivial
  | panic t' => apply h

/-- A loop passes the check if all its turns do, from the states that the turns keep to. -/
theorem Passes.foldlM {f : σ → α → Outcome ε σ} {P : σ → Prop} {xs : List α}
    (step : ∀ x ∈ xs, ∀ s, P s → (f s x).Passes t P) {s : σ} (hs : P s) :
  (xs.foldlM f s).Passes t P
  := by
  induction xs generalizing s with
  | nil => apply hs
  | cons x xs ih =>
      rw [List.forall_mem_cons] at step
      rw [List.foldlM_cons]
      apply (step.1 s hs).bind
      intro s' hs'
      apply ih step.2 hs'

end Outcome

open Outcome

/-- Another safety check is passed. -/
theorem passes_check {t' : Trap} (h : t' ≠ t) (p : Prop) [Decidable p] :
  (check t' p : Outcome ε Unit).Passes t (fun _ => p)
  := by
  by_cases hp : p
  · rw [check_of hp]
    apply hp
  · rw [check_not hp]
    apply h

theorem passes_add (h : .integerOverflow ≠ t) (a b : Nat) :
  (add a b : Outcome ε Nat).Passes t (fun k => k = a + b)
  := by
  by_cases hlt : a + b < 2 ^ 64
  · rw [add_of hlt]
    rfl
  · rw [add_not hlt]
    apply h

theorem passes_sub (h : .integerOverflow ≠ t) (a b : Nat) :
  (sub a b : Outcome ε Nat).Passes t (fun k => k = a - b)
  := by
  rw [sub]
  split
  · rfl
  · apply h

theorem passes_index {xs : List α} {i : Nat} (h : i < xs.length) :
  (index xs i : Outcome ε α).Passes t (· ∈ xs)
  := by
  rw [index, List.getElem?_eq_getElem h]
  apply List.getElem_mem

theorem passes_store {xs : List α} {i : Nat} (h : i < xs.length) (a : α) :
  (store xs i a : Outcome ε (List α)).Passes t (fun ys => ys = xs.set i a)
  := by
  rw [store, if_pos h]
  rfl

theorem passes_slice {xs : List α} {offset len : Nat} (h : offset + len ≤ xs.length) :
  (slice xs offset len : Outcome ε (List α)).Passes t (fun ys => ys = (xs.drop offset).take len)
  := by
  rw [slice_of h]
  rfl

namespace Buffer

theorem passes_read {b : Buffer α} {i : Nat} (h : i < b.len) :
  (b.read i : Outcome ε α).Passes t (fun a => a = b.cell i)
  := by
  rw [read_of h]
  rfl

theorem passes_write {b : Buffer α} {i : Nat} (h : i < b.len) (a : α) :
  (b.write i a : Outcome ε (Buffer α)).Passes t (fun b' => b' = b.set i a)
  := by
  rw [write_of h]
  rfl

end Buffer

end Zig

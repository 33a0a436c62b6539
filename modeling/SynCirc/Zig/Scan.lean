import SynCirc.Zig.Loops
import SynCirc.Zig.Text

/-!
# Loops that read independent items

In many loops that read a text, what happens in a turn does not depend on the state the loop has
reached: the turn reads its item, and the state absorbs what has been read.  Such a loop reads all
items first and absorbs them afterwards (`foldlM_eq_mapM`).  It stops at a safety check exactly if
one of the items does and all items before it are read (`mapM_eq_panic`).
-/

namespace Zig

variable {ε σ α β γ : Type}

namespace Outcome

/-- A composite stops at a safety check in its first part, or in its second part. -/
theorem bind_eq_panic {x : Outcome ε α} {f : α → Outcome ε β} {t : Trap} :
  (x >>= f) = panic t ↔ x = panic t ∨ ∃ a, x = ok a ∧ f a = panic t
  := by
  cases x with
  | ok a => simp
  | error e => simp
  | panic t => simp

/-- A composite returns an error of its first part, or of its second part. -/
theorem bind_eq_error {x : Outcome ε α} {f : α → Outcome ε β} {e : ε} :
  (x >>= f) = error e ↔ x = error e ∨ ∃ a, x = ok a ∧ f a = error e
  := by
  cases x with
  | ok a => simp
  | error e => simp
  | panic t => simp

/-- Reading the items and absorbing them can be done apart. -/
theorem foldlM_eq_mapM {f : σ → α → Outcome ε σ} {read : α → Outcome ε β} {absorb : σ → β → σ}
    (h : ∀ s x, f s x = (do return absorb s (← read x))) (xs : List α) (s : σ) :
  xs.foldlM f s = (do return (← xs.mapM read).foldl absorb s)
  := by
  induction xs generalizing s with
  | nil => rfl
  | cons x xs ih =>
      rw [List.foldlM_cons, h, List.mapM_cons]
      simp only [bind_assoc, pure_bind, ih, List.foldl_cons]

/-- All items are read, or there is a first one that is not. -/
theorem mapM_eq_ok_or_exists (read : α → Outcome ε β) (xs : List α) :
  (∃ ys, xs.mapM read = ok ys)
    ∨ ∃ pre x post, xs = pre ++ x :: post ∧ (∀ y ∈ pre, ∃ b, read y = ok b) ∧ ∀ b, read x ≠ ok b
  := by
  induction xs with
  | nil => exact .inl ⟨[], rfl⟩
  | cons x xs ih =>
      by_cases hx : ∃ b, read x = ok b
      · obtain ⟨b, hb⟩ := hx
        rcases ih with ⟨ys, hys⟩ | ⟨pre, y, post, rfl, hpre, hy⟩
        · left
          use b :: ys
          rw [List.mapM_cons, hb, ok_bind, hys]
          rfl
        · right
          refine ⟨x :: pre, y, post, rfl, ?_, hy⟩
          rw [List.forall_mem_cons]
          exact ⟨⟨b, hb⟩, hpre⟩
      · right
        exact ⟨[], x, xs, rfl, by simp, fun b hb => hx ⟨b, hb⟩⟩

/-- The first item that is not read decides. -/
theorem mapM_append_cons {read : α → Outcome ε β} {pre : List α} {x : α}
    (hpre : ∀ y ∈ pre, ∃ b, read y = ok b) (hx : ∀ b, read x ≠ ok b) (post : List α) :
  (pre ++ x :: post).mapM read = (do return [← read x])
  := by
  induction pre with
  | nil =>
      rw [List.nil_append, List.mapM_cons]
      cases hread : read x with
      | ok b => apply absurd hread (hx b)
      | error e => rfl
      | panic t => rfl
  | cons y pre ih =>
      rw [List.forall_mem_cons] at hpre
      obtain ⟨⟨b, hb⟩, hpre⟩ := hpre
      rw [List.cons_append, List.mapM_cons, hb, ok_bind, ih hpre]
      cases hread : read x with
      | ok b => apply absurd hread (hx b)
      | error e => rfl
      | panic t => rfl

/-- Reading items stops at a safety check exactly if one of the items does and all items before
it are read. -/
theorem mapM_eq_panic {read : α → Outcome ε β} {xs : List α} {t : Trap} :
  xs.mapM read = panic t
    ↔ ∃ pre x post, xs = pre ++ x :: post ∧ (∀ y ∈ pre, ∃ b, read y = ok b) ∧ read x = panic t
  := by
  constructor
  · intro h
    rcases mapM_eq_ok_or_exists read xs with ⟨ys, hys⟩ | ⟨pre, x, post, rfl, hpre, hx⟩
    · rw [hys] at h
      contradiction
    · rw [mapM_append_cons hpre hx] at h
      rcases bind_eq_panic.mp h with h | ⟨b, -, h⟩
      · exact ⟨pre, x, post, rfl, hpre, h⟩
      · contradiction
  · rintro ⟨pre, x, post, rfl, hpre, hx⟩
    rw [mapM_append_cons hpre (by simp [hx]), hx]
    rfl

/-- Reading items returns an error exactly if one of the items does and all items before it are
read. -/
theorem mapM_eq_error {read : α → Outcome ε β} {xs : List α} {e : ε} :
  xs.mapM read = error e
    ↔ ∃ pre x post, xs = pre ++ x :: post ∧ (∀ y ∈ pre, ∃ b, read y = ok b) ∧ read x = error e
  := by
  constructor
  · intro h
    rcases mapM_eq_ok_or_exists read xs with ⟨ys, hys⟩ | ⟨pre, x, post, rfl, hpre, hx⟩
    · rw [hys] at h
      contradiction
    · rw [mapM_append_cons hpre hx] at h
      rcases bind_eq_error.mp h with h | ⟨b, -, h⟩
      · exact ⟨pre, x, post, rfl, hpre, h⟩
      · contradiction
  · rintro ⟨pre, x, post, rfl, hpre, hx⟩
    rw [mapM_append_cons hpre (by simp [hx]), hx]
    rfl

/-- What is read from the items, in order. -/
theorem forall₂_of_mapM_eq_ok {read : α → Outcome ε β} {xs : List α} {ys : List β}
    (h : xs.mapM read = ok ys) :
  List.Forall₂ (fun x y => read x = ok y) xs ys
  := by
  induction xs generalizing ys with
  | nil =>
      obtain rfl := ok.inj h
      apply List.Forall₂.nil
  | cons x xs ih =>
      rw [List.mapM_cons] at h
      obtain ⟨y, hy, h⟩ := bind_eq_ok.mp h
      obtain ⟨ys', hys, h⟩ := bind_eq_ok.mp h
      obtain rfl := ok.inj h
      exact .cons hy (ih hys)

/-- Items are read exactly if every one of them is. -/
theorem mapM_eq_ok_iff {read : α → Outcome ε β} {xs : List α} {ys : List β} :
  xs.mapM read = ok ys ↔ List.Forall₂ (fun x y => read x = ok y) xs ys
  := by
  constructor
  · apply forall₂_of_mapM_eq_ok
  · intro h
    rw [mapM_of_forall₂ (fun _ _ _ hxy => hxy) h, List.map_id']

/-! ### Programs without safety checks -/

/-- The program stops at no safety check. -/
def NoPanic (x : Outcome ε α) : Prop := ∀ t, x ≠ panic t

theorem NoPanic.ok (a : α) :
  NoPanic (.ok a : Outcome ε α)
  := by
  intro t h
  contradiction

theorem NoPanic.error (e : ε) :
  NoPanic (.error e : Outcome ε α)
  := by
  intro t h
  contradiction

theorem NoPanic.bind {x : Outcome ε α} {f : α → Outcome ε β} (hx : x.NoPanic)
    (hf : ∀ a, (f a).NoPanic) :
  (x >>= f).NoPanic
  := by
  cases x with
  | ok a => apply hf a
  | error e => apply NoPanic.error
  | panic t => apply absurd rfl (hx t)

theorem NoPanic.mapM {f : α → Outcome ε β} {xs : List α} (hf : ∀ a ∈ xs, (f a).NoPanic) :
  (xs.mapM f).NoPanic
  := by
  intro t h
  obtain ⟨pre, x, post, rfl, -, hx⟩ := mapM_eq_panic.mp h
  apply hf x (List.mem_append_right _ List.mem_cons_self) t hx

theorem NoPanic.foldlM {f : σ → α → Outcome ε σ} (hf : ∀ s a, (f s a).NoPanic) (xs : List α)
    (s : σ) :
  (xs.foldlM f s).NoPanic
  := by
  induction xs generalizing s with
  | nil => apply NoPanic.ok
  | cons x xs ih =>
      rw [List.foldlM_cons]
      apply (hf s x).bind
      intro s'
      apply ih

theorem NoPanic.mapError {ε' : Type} {x : Outcome ε α} (hx : x.NoPanic) (f : ε → ε') :
  (x.mapError f).NoPanic
  := by
  cases x with
  | ok a => apply NoPanic.ok
  | error e => apply NoPanic.error
  | panic t => apply absurd rfl (hx t)

end Outcome

/-! ### Integers -/

theorem sub_eq_panic {a b : Nat} {t : Trap} :
  (sub a b : Outcome ε Nat) = .panic t ↔ t = .integerOverflow ∧ a < b
  := by
  rw [sub]
  split
  case isTrue h => simp [Nat.not_lt.mpr h]
  case isFalse h => simp [Nat.lt_of_not_le h, eq_comm]

theorem sub_eq_ok {a b c : Nat} :
  (sub a b : Outcome ε Nat) = .ok c ↔ b ≤ a ∧ a - b = c
  := by
  rw [sub]
  split
  case isTrue h => simp [h]
  case isFalse h => simp [h]

theorem noPanic_castInt (bound x : Nat) :
  (castInt bound x).NoPanic
  := by
  rw [castInt]
  split
  · apply Outcome.NoPanic.ok
  · apply Outcome.NoPanic.error

theorem noPanic_parseDigit (radix bound : Nat) (sign : Sign) (x : Nat) (c : UInt8) :
  (parseDigit radix bound sign x c).NoPanic
  := by
  rw [parseDigit]
  split
  · apply Outcome.NoPanic.ok
  · apply Outcome.NoPanic.bind
    · rw [charToDigit]
      split
      · apply Outcome.NoPanic.ok
      · apply Outcome.NoPanic.error
    · intro digit
      apply Outcome.NoPanic.bind
      · rw [shiftDigit]
        split
        · apply Outcome.NoPanic.ok
        · apply Outcome.NoPanic.bind (noPanic_castInt bound radix)
          intro radix'
          apply noPanic_castInt
      · intro x'
        apply Outcome.NoPanic.bind (noPanic_castInt bound digit)
        intro digit'
        cases sign with
        | pos => apply noPanic_castInt
        | neg =>
            simp only
            split
            · apply Outcome.NoPanic.ok
            · apply Outcome.NoPanic.error

/-- Parsing an integer stops at no safety check. -/
theorem noPanic_parseInt (radix bound : Nat) (buf : List UInt8) :
  (parseInt radix bound buf).NoPanic
  := by
  have hsign : ∀ sign buf, (parseWithSign radix bound sign buf).NoPanic := by
    intro sign buf
    rw [parseWithSign]
    split
    · apply Outcome.NoPanic.error
    · split
      · apply Outcome.NoPanic.error
      · apply Outcome.NoPanic.foldlM (noPanic_parseDigit radix bound sign)
  cases buf with
  | nil => apply Outcome.NoPanic.error
  | cons c rest =>
      rw [parseInt]
      split
      · apply hsign
      · split
        · apply hsign
        · apply hsign

end Zig

import Mathlib.Data.List.Basic
import Mathlib.Data.Set.Function

/-!
# Numbering in the order of mention

Numbers are handed out one after the other, each when it is first mentioned.  In
`Introduces last n ws m` the list `ws` mentions numbers while the next number to hand out
goes from `n` to `m`: a number of the list has been handed out before, is the next one, or
is reserved because it is greater than `last`.

Two such lists that differ by an injective renaming which keeps the numbers below `n` and
the reserved ones are the same list (`Introduces.rename_eq`).
-/

namespace Numbering

/-- The list mentions old numbers, reserved numbers and new numbers, the latter in order
from `n` up to `m`. -/
def Introduces (last : Nat) : Nat → List Nat → Nat → Prop
  | n, [], m => m = n
  | n, w :: ws, m =>
      (w < n ∨ last < w) ∧ Introduces last n ws m
        ∨ (w = n ∧ n ≤ last) ∧ Introduces last (n + 1) ws m

variable {last n m k : Nat} {ws ws' : List Nat}

/-- Mentioning an old or a reserved number. -/
theorem Introduces.old {w : Nat} (h : w < n ∨ last < w) :
  Introduces last n [w] n
  := .inl ⟨h, rfl⟩

/-- Mentioning the next number. -/
theorem Introduces.new (h : n ≤ last) :
  Introduces last n [n] (n + 1)
  := .inr ⟨⟨rfl, h⟩, rfl⟩

/-- Mentioning a number handed out before introduces nothing. -/
theorem Introduces.eq_of_lt {w : Nat} (h : Introduces last n [w] m) (hw : w < n) :
  m = n
  := by
  rcases h with ⟨-, h⟩ | ⟨⟨heq, -⟩, -⟩
  · apply h
  · omega

/-- One list of mentions after the other. -/
theorem Introduces.append (h : Introduces last n ws m) (h' : Introduces last m ws' k) :
  Introduces last n (ws ++ ws') k
  := by
  induction ws generalizing n with
  | nil =>
      have hm : m = n := h
      rw [← hm]
      apply h'
  | cons w ws ih =>
      rcases h with ⟨hw, h⟩ | ⟨hw, h⟩
      · left
        exact ⟨hw, ih h⟩
      · right
        exact ⟨hw, ih h⟩

/-- A mention after a list of mentions. -/
theorem Introduces.cons {w : Nat} (h : Introduces last n [w] m) (h' : Introduces last m ws k) :
  Introduces last n (w :: ws) k
  := h.append h'

/-- A renaming is the identity on numbers introduced in order, if it introduces them in order
again and is the identity on the numbers that need not be introduced. -/
theorem Introduces.rename_eq {ρ : Nat → Nat} {S : Set Nat} (hinj : Set.InjOn ρ S)
    (hinner : ∀ w ∈ S, n ≤ w → w ≤ last → ρ w ≤ last)
    (hreserved : ∀ w ∈ S, last < w → ρ w = w)
    (hws : ∀ w ∈ ws, w ∈ S) (hold : ∀ w < n, w ∈ S ∧ ρ w = w)
    (h : Introduces last n ws m) (h' : Introduces last n (ws.map ρ) k) :
  ∀ w ∈ ws, ρ w = w
  := by
  induction ws generalizing n with
  | nil => simp
  | cons w ws ih =>
      rw [List.forall_mem_cons] at hws
      rw [List.forall_mem_cons]
      rcases h with ⟨hw, h⟩ | ⟨⟨rfl, hw⟩, h⟩
      · have hfixed : ρ w = w := by
          rcases hw with hw | hw
          · apply (hold w hw).2
          · apply hreserved w hws.1 hw
        use hfixed
        rcases h' with ⟨-, h'⟩ | ⟨⟨heq, hle⟩, -⟩
        · apply ih hinner hws.2 hold h h'
        · omega
      · have hnew : ¬ ρ w < w := by
          intro hlt
          obtain ⟨hmem, hself⟩ := hold (ρ w) hlt
          have heq := hinj hmem hws.1 hself
          omega
        have hle := hinner w hws.1 (Nat.le_refl w) hw
        rcases h' with ⟨hbad, -⟩ | ⟨⟨heq, -⟩, h'⟩
        · omega
        · use heq
          apply ih _ hws.2 _ h h'
          · intro x hx hlow
            apply hinner x hx (Nat.le_of_succ_le hlow)
          · intro x hx
            rcases Nat.lt_succ_iff_lt_or_eq.mp hx with hx | rfl
            · apply hold x hx
            · exact ⟨hws.1, heq⟩

end Numbering

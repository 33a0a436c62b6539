import SynCirc.Zig.Outcome

/-!
# Pairs of programs

Two programs are related by `R` if they end in the same way, and return values related by `R` if
they return.  Related programs are composed of related parts, and a relation that every turn of two
loops keeps, which may depend on what has been processed, is kept by the loops.
-/

namespace Zig

namespace Outcome

variable {ε α α' β β' σ σ' : Type}

/-- The programs end in the same way, and the values they return are related. -/
inductive Related (R : α → α' → Prop) : Outcome ε α → Outcome ε α' → Prop where
  | ok {a : α} {a' : α'} (h : R a a') : Related R (.ok a) (.ok a')
  | error (e : ε) : Related R (.error e) (.error e)
  | panic (t : Trap) : Related R (.panic t) (.panic t)

/-- A program is related to itself. -/
theorem related_self {R : α → α → Prop} (h : ∀ a, R a a) (x : Outcome ε α) :
  Related R x x
  := by
  cases x with
  | ok a => apply Related.ok (h a)
  | error e => apply Related.error
  | panic t => apply Related.panic

/-- Programs related by equality are equal. -/
theorem Related.eq {x x' : Outcome ε α} (h : Related (fun a a' => a' = a) x x') :
  x' = x
  := by
  cases h with
  | ok h => rw [h]
  | error e => rfl
  | panic t => rfl

theorem Related.imp {R S : α → α' → Prop} (hRS : ∀ a a', R a a' → S a a') {x : Outcome ε α}
    {x' : Outcome ε α'} (h : Related R x x') :
  Related S x x'
  := by
  cases h with
  | ok h => apply Related.ok (hRS _ _ h)
  | error e => apply Related.error
  | panic t => apply Related.panic

/-- Composites of related programs. -/
theorem Related.bind {R : α → α' → Prop} {S : β → β' → Prop} {x : Outcome ε α}
    {x' : Outcome ε α'} {f : α → Outcome ε β} {f' : α' → Outcome ε β'} (hx : Related R x x')
    (hf : ∀ a a', R a a' → Related S (f a) (f' a')) :
  Related S (x >>= f) (x' >>= f')
  := by
  cases hx with
  | ok h => apply hf _ _ h
  | error e => apply Related.error
  | panic t => apply Related.panic

/-- A composite of a program with two related ones. -/
theorem Related.bind_self {S : β → β' → Prop} {f : α → Outcome ε β} {f' : α → Outcome ε β'}
    (x : Outcome ε α) (hf : ∀ a, Related S (f a) (f' a)) :
  Related S (x >>= f) (x >>= f')
  := by
  apply (related_self (R := fun a a' => a' = a) (fun _ => rfl) x).bind
  rintro a a' rfl
  apply hf

/-- Two loops over a list.  The relation may depend on the elements that have been processed. -/
theorem Related.foldlM {f : σ → α → Outcome ε σ} {f' : σ' → α → Outcome ε σ'} {xs : List α}
    (R : List α → σ → σ' → Prop)
    (step : ∀ pre x post s s', xs = pre ++ x :: post → R pre s s' →
      Related (R (pre ++ [x])) (f s x) (f' s' x)) {s : σ} {s' : σ'} (h : R [] s s') :
  Related (R xs) (xs.foldlM f s) (xs.foldlM f' s')
  := by
  have rest : ∀ post pre s s', xs = pre ++ post → R pre s s' →
      Related (R xs) (post.foldlM f s) (post.foldlM f' s') := by
    intro post
    induction post with
    | nil =>
        intro pre s s' hxs hpre
        rw [List.append_nil] at hxs
        apply Related.ok (hxs ▸ hpre)
    | cons x post ih =>
        intro pre s s' hxs hpre
        rw [List.foldlM_cons, List.foldlM_cons]
        apply (step pre x post s s' hxs hpre).bind
        intro s₁ s₁' hpre₁
        apply ih (pre ++ [x]) s₁ s₁' _ hpre₁
        rw [hxs, List.append_assoc]
        rfl
  apply rest xs [] s s' rfl h

end Outcome

namespace Buffer

variable {ε α : Type}

/-- The blocks have the same length, and the cells in `S` hold the same. -/
structure AgreesOn (S : Nat → Prop) (b b' : Buffer α) : Prop where
  len : b'.len = b.len
  cell : ∀ i, S i → b'.cell i = b.cell i

variable {S : Nat → Prop} {b b' : Buffer α}

/-- Reading a cell that holds the same. -/
theorem AgreesOn.read (h : AgreesOn S b b') {i : Nat} (hi : S i) :
  (b'.read i : Outcome ε α) = b.read i
  := by
  rw [Buffer.read, Buffer.read, h.len, h.cell i hi]

/-- Writing a cell makes it hold the same. -/
theorem AgreesOn.write (h : AgreesOn S b b') (i : Nat) (a : α) :
  Outcome.Related (AgreesOn (fun j => j = i ∨ S j)) (b.write i a : Outcome ε (Buffer α))
    (b'.write i a)
  := by
  by_cases hlt : i < b.len
  · rw [write_of hlt, write_of (h.len ▸ hlt)]
    apply Outcome.Related.ok
    refine ⟨h.len, ?_⟩
    intro j hj
    rw [set_cell, set_cell, Function.update_apply, Function.update_apply]
    split
    case isTrue => rfl
    case isFalse hne => apply h.cell j (hj.resolve_left hne)
  · rw [Buffer.write, Buffer.write, h.len, if_neg hlt, if_neg hlt]
    apply Outcome.Related.panic

theorem AgreesOn.mono {T : Nat → Prop} (h : AgreesOn S b b') (hT : ∀ i, T i → S i) :
  AgreesOn T b b'
  := ⟨h.len, fun i hi => h.cell i (hT i hi)⟩

/-- Blocks that agree on all cells hold the same list. -/
theorem AgreesOn.toList_eq (h : AgreesOn S b b') (hS : ∀ i < b.len, S i) :
  b'.toList = b.toList
  := by
  rw [toList, toList, h.len]
  apply List.map_congr_left
  intro i hi
  apply h.cell i (hS i (List.mem_range.mp hi))

end Buffer

end Zig

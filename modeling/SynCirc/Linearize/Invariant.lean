import SynCirc.Linearize.Layout

/-!
# The invariant of the pass

Once the inputs and outputs have their numbers, `Invariant c lin temps` holds of the state
`lin`, where `temps` are the temporary wires handed out so far.  It says which numbers the
mapped wires have, that no two wires share a number, that the temporaries are numbers of
their own, and how many numbers have been handed out.  The last part shows that there is a
free number whenever one is asked for, so the assertions of the pass hold.

`getMapping` and `getFreshWireNumber` keep the invariant, and they keep the numbers of the
wires that are mapped already (`Extends`).  The numbers `getMapping` returns are introduced in
order (`MapStep.order`).
-/

namespace SynCirc

open Zig Numbering

namespace Linearize

/-- The wire has a new number. -/
def Mapped (lin : Linearize) (w : Nat) : Prop := lin.permutationSet.cell w = true

/-- The new number of a mapped wire. -/
def newNumber (lin : Linearize) (w : Nat) : Nat := lin.permutation.cell w

/-- The wires up to `max` that have a new number. -/
def mappedWires (lin : Linearize) (max : Nat) : Finset Nat :=
  (Finset.range (max + 1)).filter (fun w => lin.permutationSet.cell w = true)

/-- Every mapped wire of `lin` has the same new number in `lin'`. -/
structure Extends (lin lin' : Linearize) : Prop where
  mapped : ∀ w, lin.Mapped w → lin'.Mapped w
  newNumber : ∀ w, lin.Mapped w → lin'.newNumber w = lin.newNumber w

/-- The gates, lookup table inputs and outputs made so far are the same. -/
structure Frame (lin lin' : Linearize) : Prop where
  nodes : lin'.circuitNodes = lin.circuitNodes
  luts : lin'.circuitLuts = lin.circuitLuts
  outputs : lin'.circuitOutputs = lin.circuitOutputs

theorem Extends.refl (lin : Linearize) :
  lin.Extends lin
  := ⟨fun _ h => h, fun _ _ => rfl⟩

theorem Extends.trans {lin₁ lin₂ lin₃ : Linearize}
    (h : lin₁.Extends lin₂) (h' : lin₂.Extends lin₃) :
  lin₁.Extends lin₃
  := by
  constructor
  · intro w hw
    apply h'.mapped w (h.mapped w hw)
  · intro w hw
    rw [h'.newNumber w (h.mapped w hw), h.newNumber w hw]

theorem Frame.trans {lin₁ lin₂ lin₃ : Linearize}
    (h : lin₁.Frame lin₂) (h' : lin₂.Frame lin₃) :
  lin₁.Frame lin₃
  := ⟨h'.nodes.trans h.nodes, h'.luts.trans h.luts, h'.outputs.trans h.outputs⟩

/-- The state `lin` while the gates of `c` are processed, with the temporary wires `temps`
handed out. -/
structure Invariant (c : Circuit) (lin : Linearize) (temps : List Nat) : Prop where
  fits : c.BudgetFits
  circuit : lin.circuit = c
  maxWireNumber : lin.circuitMaxWireNumber = c.wireBudget
  inputs : lin.circuitInputs = List.range c.inputs.length
  lutTables : lin.circuitLutTables = c.lutTables
  luts_len : lin.circuitLuts.len = c.luts.length
  permutation_len : lin.permutation.len = c.maxWireNumber + 1
  permutationSet_len : lin.permutationSet.len = c.maxWireNumber + 1
  mapped_le : ∀ w, lin.Mapped w → w ≤ c.maxWireNumber
  mapped_input : ∀ w ∈ c.inputs, lin.Mapped w
  mapped_output : ∀ w ∈ c.outputs, lin.Mapped w
  input_number : c.inputs.map lin.newNumber = List.range c.inputs.length
  output_number : ∀ w ∈ c.outputs, w ∉ c.inputs →
    lin.newNumber w = c.slot (c.outputs.idxOf w)
  inner_number : ∀ w, lin.Mapped w → w ∉ c.inputs → w ∉ c.outputs →
    c.inputs.length ≤ lin.newNumber w ∧ lin.newNumber w < lin.nextFreeWireNumber
  injective : ∀ w w', lin.Mapped w → lin.Mapped w' →
    lin.newNumber w = lin.newNumber w' → w = w'
  inputs_le : c.inputs.length ≤ lin.nextFreeWireNumber
  next_le : lin.nextFreeWireNumber ≤ c.lastInner + 1
  temps_nodup : temps.Nodup
  temps_inner : ∀ t ∈ temps, c.inputs.length ≤ t ∧ t < lin.nextFreeWireNumber
  temps_fresh : ∀ t ∈ temps, ∀ w, lin.Mapped w → lin.newNumber w ≠ t
  count : lin.nextFreeWireNumber + c.outputs.length
    = (lin.mappedWires c.maxWireNumber).card + temps.length + c.copyCount

namespace Invariant

variable {c : Circuit} {lin : Linearize} {temps : List Nat}

/-- The new number of an input is its position. -/
theorem input_lt (h : Invariant c lin temps) {w : Nat} (hw : w ∈ c.inputs) :
  lin.newNumber w < c.inputs.length
  := by
  rw [← List.mem_range, ← h.input_number]
  apply List.mem_map_of_mem hw

/-- The next free number, before the output slots, is not the number of any wire. -/
theorem newNumber_ne_next (h : Invariant c lin temps)
    (hnext : lin.nextFreeWireNumber ≤ c.lastInner) {w : Nat} (hw : lin.Mapped w) :
  lin.newNumber w ≠ lin.nextFreeWireNumber
  := by
  by_cases hin : w ∈ c.inputs
  · have := h.input_lt hin
    have := h.inputs_le
    omega
  · by_cases hout : w ∈ c.outputs
    · rw [h.output_number w hout hin, Circuit.slot]
      omega
    · have := (h.inner_number w hw hin hout).2
      omega

/-- There is a free number before the output slots as long as the budget has room. -/
theorem next_le_lastInner (hc : c.Renumberable) (h : Invariant c lin temps)
    (hroom : (lin.mappedWires c.maxWireNumber).card + temps.length
      ≤ c.maxWireNumber + c.constantCount + c.copyCount) :
  lin.nextFreeWireNumber ≤ c.lastInner
  := by
  have hcount := h.count
  have hbudget := Circuit.wireBudget_eq hc
  rw [Circuit.lastInner]
  omega

/-- At most all wires are mapped. -/
theorem card_mappedWires_le (lin : Linearize) (max : Nat) :
  (lin.mappedWires max).card ≤ max + 1
  := by
  apply Nat.le_trans (Finset.card_filter_le _ _)
  rw [Finset.card_range]

/-- If some wire is not mapped, at most all others are. -/
theorem card_mappedWires_lt {lin : Linearize} {max w : Nat} (hw : w ≤ max)
    (hmapped : ¬ lin.Mapped w) :
  (lin.mappedWires max).card ≤ max
  := by
  have hsub : lin.mappedWires max ⊆ (Finset.range (max + 1)).erase w := by
    intro x hx
    obtain ⟨hx, hset⟩ := Finset.mem_filter.mp hx
    apply Finset.mem_erase.mpr
    constructor
    · intro heq
      apply hmapped (heq ▸ hset)
    · apply hx
  have hcard := Finset.card_le_card hsub
  rw [Finset.card_erase_of_mem (Finset.mem_range.mpr (Nat.lt_succ_of_le hw)),
    Finset.card_range] at hcard
  apply hcard

end Invariant

/-! ### Fresh numbers -/

/-- The state after a fresh number has been handed out. -/
def next (lin : Linearize) : Linearize :=
  { lin with nextFreeWireNumber := lin.nextFreeWireNumber + 1 }

theorem extends_next (lin : Linearize) :
  lin.Extends lin.next
  := ⟨fun _ h => h, fun _ _ => rfl⟩

namespace Invariant

variable {c : Circuit} {lin : Linearize} {temps : List Nat}

/-- The output slots fit below the budget. -/
theorem sub_eq (hc : c.Renumberable) (h : Invariant c lin temps) :
  (sub lin.circuitMaxWireNumber lin.circuit.outputs.length : Outcome Error Nat)
    = .ok c.lastInner
  := by
  rw [h.maxWireNumber, h.circuit, sub_of (Circuit.outputs_le_wireBudget hc)]
  rfl

theorem getFreshWireNumber_eq (hc : c.Renumberable) (h : Invariant c lin temps)
    (hnext : lin.nextFreeWireNumber ≤ c.lastInner) :
  lin.getFreshWireNumber = .ok (lin.nextFreeWireNumber, lin.next)
  := by
  have hadd : lin.nextFreeWireNumber + 1 < 2 ^ 64 := by
    have hcounter := h.fits.counter
    have houtputs := Circuit.outputs_le_wireBudget hc
    rw [Circuit.lastInner] at hnext
    omega
  rw [getFreshWireNumber, h.sub_eq hc, Outcome.ok_bind, check_of hnext, Outcome.ok_bind,
    add_of hadd]
  rfl

/-- Handing out the next free number as a temporary wire keeps the invariant. -/
theorem next_temp (h : Invariant c lin temps)
    (hnext : lin.nextFreeWireNumber ≤ c.lastInner) :
  Invariant c lin.next (temps ++ [lin.nextFreeWireNumber])
  := by
  have hle : lin.nextFreeWireNumber ≤ lin.next.nextFreeWireNumber := Nat.le_succ _
  refine { h with
    inner_number := ?_, inputs_le := ?_, next_le := ?_, temps_nodup := ?_, temps_inner := ?_,
    temps_fresh := ?_, count := ?_ }
  · intro w hw hin hout
    obtain ⟨hlow, hhigh⟩ := h.inner_number w hw hin hout
    use hlow, Nat.lt_of_lt_of_le hhigh hle
  · apply Nat.le_trans h.inputs_le hle
  · apply Nat.succ_le_succ hnext
  · rw [List.nodup_append]
    use h.temps_nodup, List.nodup_singleton _
    intro t ht t' ht' heq
    have hlt := (h.temps_inner t ht).2
    rw [List.mem_singleton] at ht'
    omega
  · intro t ht
    rw [List.mem_append, List.mem_singleton] at ht
    rcases ht with ht | rfl
    · obtain ⟨hlow, hhigh⟩ := h.temps_inner t ht
      use hlow, Nat.lt_of_lt_of_le hhigh hle
    · use h.inputs_le, Nat.lt_succ_self _
  · intro t ht w hw
    rw [List.mem_append, List.mem_singleton] at ht
    rcases ht with ht | rfl
    · apply h.temps_fresh t ht w hw
    · apply h.newNumber_ne_next hnext hw
  · have hcount := h.count
    have hmapped : lin.next.mappedWires c.maxWireNumber = lin.mappedWires c.maxWireNumber := rfl
    have hsucc : lin.next.nextFreeWireNumber = lin.nextFreeWireNumber + 1 := rfl
    rw [hmapped, hsucc, List.length_append, List.length_singleton]
    omega

end Invariant

/-! ### Mapping a wire -/

/-- The state after a wire has got the number `k`. -/
def mapTo (lin : Linearize) (w k : Nat) : Linearize :=
  { lin with
    permutation := lin.permutation.set w k
    permutationSet := lin.permutationSet.set w true }

section MapTo

variable (lin : Linearize) {w : Nat} (k : Nat)

theorem addMapping_eq (hw : w < lin.permutationSet.len) (hw' : w < lin.permutation.len)
    (hmapped : ¬ lin.Mapped w) :
  lin.addMapping w k = .ok (lin.mapTo w k)
  := by
  rw [addMapping, Buffer.read_of hw, Outcome.ok_bind,
    check_of (Bool.eq_false_of_not_eq_true hmapped), Outcome.ok_bind, Buffer.write_of hw',
    Outcome.ok_bind, Buffer.write_of hw]
  rfl

theorem mapped_mapTo {x : Nat} :
  (lin.mapTo w k).Mapped x ↔ x = w ∨ lin.Mapped x
  := by
  simp only [Mapped, mapTo, Buffer.set_cell, Function.update_apply]
  by_cases hx : x = w
  · simp [hx]
  · simp [hx]

theorem newNumber_mapTo_self :
  (lin.mapTo w k).newNumber w = k
  := Function.update_self ..

theorem newNumber_mapTo_of_ne {x : Nat} (hx : x ≠ w) :
  (lin.mapTo w k).newNumber x = lin.newNumber x
  := Function.update_of_ne hx ..

theorem newNumber_mapTo_of_mapped {x : Nat} (hmapped : ¬ lin.Mapped w) (hx : lin.Mapped x) :
  (lin.mapTo w k).newNumber x = lin.newNumber x
  := by
  apply newNumber_mapTo_of_ne lin k
  intro heq
  apply hmapped (heq ▸ hx)

/-- Mapping a wire keeps the numbers of the mapped wires. -/
theorem extends_mapTo (hmapped : ¬ lin.Mapped w) :
  lin.Extends (lin.mapTo w k)
  := by
  constructor
  · intro x hx
    apply (mapped_mapTo lin k).mpr (.inr hx)
  · intro x hx
    apply newNumber_mapTo_of_mapped lin k hmapped hx

/-- Mapping a wire maps one wire more. -/
theorem card_mappedWires_mapTo {max : Nat} (hw : w ≤ max) (hmapped : ¬ lin.Mapped w) :
  ((lin.mapTo w k).mappedWires max).card = (lin.mappedWires max).card + 1
  := by
  have hinsert : (lin.mapTo w k).mappedWires max = insert w (lin.mappedWires max) := by
    ext x
    have hx : (lin.mapTo w k).permutationSet.cell x = true
        ↔ x = w ∨ lin.permutationSet.cell x = true := mapped_mapTo lin k
    simp only [mappedWires, Finset.mem_filter, Finset.mem_range, Finset.mem_insert, hx]
    constructor
    · rintro ⟨hlt, rfl | hset⟩
      · left
        rfl
      · right
        exact ⟨hlt, hset⟩
    · rintro (rfl | ⟨hlt, hset⟩)
      · exact ⟨Nat.lt_succ_of_le hw, .inl rfl⟩
      · exact ⟨hlt, .inr hset⟩
  rw [hinsert, Finset.card_insert_of_notMem]
  intro hmem
  apply hmapped (Finset.mem_filter.mp hmem).2

end MapTo

namespace Invariant

variable {c : Circuit} {lin : Linearize} {temps : List Nat} {w : Nat}

/-- Giving a wire the next free number keeps the invariant. -/
theorem next_mapTo (h : Invariant c lin temps) (hw : w ≤ c.maxWireNumber)
    (hmapped : ¬ lin.Mapped w) (hnext : lin.nextFreeWireNumber ≤ c.lastInner) :
  Invariant c (lin.next.mapTo w lin.nextFreeWireNumber) temps
  := by
  have hle : lin.nextFreeWireNumber ≤ lin.next.nextFreeWireNumber := Nat.le_succ _
  have hself : (lin.next.mapTo w lin.nextFreeWireNumber).newNumber w
      = lin.nextFreeWireNumber := newNumber_mapTo_self lin.next _
  have hother : ∀ x, lin.Mapped x →
      (lin.next.mapTo w lin.nextFreeWireNumber).newNumber x = lin.newNumber x :=
    fun x hx => newNumber_mapTo_of_mapped lin.next _ hmapped hx
  have hcases : ∀ x, (lin.next.mapTo w lin.nextFreeWireNumber).Mapped x →
      x = w ∨ lin.Mapped x := fun x hx => (mapped_mapTo lin.next _).mp hx
  refine { h with
    permutation_len := h.permutation_len, permutationSet_len := h.permutationSet_len,
    mapped_le := ?_, mapped_input := ?_, mapped_output := ?_, input_number := ?_,
    output_number := ?_, inner_number := ?_, injective := ?_, inputs_le := ?_, next_le := ?_,
    temps_inner := ?_, temps_fresh := ?_, count := ?_ }
  · intro x hx
    rcases hcases x hx with rfl | hx
    · apply hw
    · apply h.mapped_le x hx
  · intro x hx
    apply (mapped_mapTo lin.next _).mpr (.inr (h.mapped_input x hx))
  · intro x hx
    apply (mapped_mapTo lin.next _).mpr (.inr (h.mapped_output x hx))
  · rw [← h.input_number]
    apply List.map_congr_left
    intro x hx
    apply hother x (h.mapped_input x hx)
  · intro x hout hin
    rw [hother x (h.mapped_output x hout)]
    apply h.output_number x hout hin
  · intro x hx hin hout
    rcases hcases x hx with rfl | hx
    · rw [hself]
      use h.inputs_le, Nat.lt_succ_self _
    · rw [hother x hx]
      obtain ⟨hlow, hhigh⟩ := h.inner_number x hx hin hout
      use hlow, Nat.lt_of_lt_of_le hhigh hle
  · intro x y hx hy heq
    rcases hcases x hx with hxw | hx'
    · rcases hcases y hy with hyw | hy'
      · rw [hxw, hyw]
      · rw [hxw, hself, hother y hy'] at heq
        apply absurd heq.symm (h.newNumber_ne_next hnext hy')
    · rcases hcases y hy with hyw | hy'
      · rw [hyw, hself, hother x hx'] at heq
        apply absurd heq (h.newNumber_ne_next hnext hx')
      · rw [hother x hx', hother y hy'] at heq
        apply h.injective x y hx' hy' heq
  · apply Nat.le_trans h.inputs_le hle
  · apply Nat.succ_le_succ hnext
  · intro t ht
    obtain ⟨hlow, hhigh⟩ := h.temps_inner t ht
    use hlow, Nat.lt_of_lt_of_le hhigh hle
  · intro t ht x hx
    rcases hcases x hx with rfl | hx
    · rw [hself]
      have hlt := (h.temps_inner t ht).2
      omega
    · rw [hother x hx]
      apply h.temps_fresh t ht x hx
  · have hcount := h.count
    have hcard : ((lin.next.mapTo w lin.nextFreeWireNumber).mappedWires c.maxWireNumber).card
        = (lin.mappedWires c.maxWireNumber).card + 1 :=
      card_mappedWires_mapTo lin.next _ hw hmapped
    have hsucc : (lin.next.mapTo w lin.nextFreeWireNumber).nextFreeWireNumber
        = lin.nextFreeWireNumber + 1 := rfl
    rw [hcard, hsucc]
    omega

end Invariant

/-- `getMapping` takes `lin` to `lin'` and returns the new number of the wire there. -/
structure MapStep (c : Circuit) (temps : List Nat) (lin : Linearize) (w : Nat)
    (lin' : Linearize) : Prop where
  eq : lin.getMapping w = .ok (lin'.newNumber w, lin')
  base : Invariant c lin' temps
  ext : lin.Extends lin'
  frame : lin.Frame lin'
  mapped : lin'.Mapped w
  order : Introduces c.lastInner lin.nextFreeWireNumber [lin'.newNumber w]
    lin'.nextFreeWireNumber

/-- An input has its number already. -/
theorem MapStep.next_eq_of_input {c : Circuit} {temps : List Nat} {lin lin' : Linearize} {w : Nat}
    (s : MapStep c temps lin w lin') (h : Invariant c lin temps) (hw : w ∈ c.inputs) :
  lin'.nextFreeWireNumber = lin.nextFreeWireNumber
  := by
  apply s.order.eq_of_lt
  apply Nat.lt_of_lt_of_le (s.base.input_lt hw) h.inputs_le

namespace Invariant

variable {c : Circuit} {lin : Linearize} {temps : List Nat} {w : Nat}

/-- The number of a mapped wire was handed out before or is an output slot. -/
theorem newNumber_old (h : Invariant c lin temps) (hw : lin.Mapped w) :
  lin.newNumber w < lin.nextFreeWireNumber ∨ c.lastInner < lin.newNumber w
  := by
  by_cases hin : w ∈ c.inputs
  · left
    apply Nat.lt_of_lt_of_le (h.input_lt hin) h.inputs_le
  · by_cases hout : w ∈ c.outputs
    · right
      rw [h.output_number w hout hin, Circuit.slot]
      omega
    · left
      apply (h.inner_number w hw hin hout).2

/-- `getMapping` returns the new number of a wire of the circuit, in a state where the wire
is mapped. -/
theorem getMapping_spec (hc : c.Renumberable) (h : Invariant c lin temps)
    (htemps : temps.length ≤ c.constantCount + c.copyCount) (hw : w ≤ c.maxWireNumber) :
  ∃ lin', MapStep c temps lin w lin'
  := by
  have hset : w < lin.permutationSet.len := by
    rw [h.permutationSet_len]
    apply Nat.lt_succ_of_le hw
  have hperm : w < lin.permutation.len := by
    rw [h.permutation_len]
    apply Nat.lt_succ_of_le hw
  by_cases hmapped : lin.Mapped w
  · use lin
    have hisSet : lin.permutationSet.cell w = true := hmapped
    refine ⟨?_, h, Extends.refl lin, ⟨rfl, rfl, rfl⟩, hmapped, .old (h.newNumber_old hmapped)⟩
    rw [getMapping, ensureMapping, Buffer.read_of hset, Outcome.ok_bind, hisSet, if_pos rfl,
      Outcome.pure_eq, Outcome.ok_bind, Buffer.read_of hperm]
    rfl
  · have hisSet : lin.permutationSet.cell w = false := Bool.eq_false_of_not_eq_true hmapped
    have hnext : lin.nextFreeWireNumber ≤ c.lastInner := by
      apply h.next_le_lastInner hc
      have hcard := card_mappedWires_lt hw hmapped
      omega
    have horder : Introduces c.lastInner lin.nextFreeWireNumber
        [(lin.next.mapTo w lin.nextFreeWireNumber).newNumber w]
        (lin.next.mapTo w lin.nextFreeWireNumber).nextFreeWireNumber := by
      rw [newNumber_mapTo_self]
      apply Introduces.new hnext
    refine ⟨lin.next.mapTo w lin.nextFreeWireNumber, ?_, h.next_mapTo hw hmapped hnext,
      lin.extends_next.trans (extends_mapTo lin.next _ hmapped), ⟨rfl, rfl, rfl⟩,
      (mapped_mapTo lin.next _).mpr (.inl rfl), horder⟩
    have hadd : lin.next.addMapping w lin.nextFreeWireNumber
        = .ok (lin.next.mapTo w lin.nextFreeWireNumber) :=
      addMapping_eq lin.next _ hset hperm hmapped
    have hread : (lin.next.mapTo w lin.nextFreeWireNumber).permutation.read w
        = (.ok ((lin.next.mapTo w lin.nextFreeWireNumber).newNumber w) : Outcome Error Nat) :=
      Buffer.read_of hperm
    rw [getMapping, ensureMapping, Buffer.read_of hset, Outcome.ok_bind, hisSet]
    simp only [Bool.false_eq_true, if_false]
    rw [h.getFreshWireNumber_eq hc hnext, Outcome.ok_bind]
    simp only
    rw [hadd, Outcome.ok_bind, hread]
    rfl

/-- A temporary wire is a fresh number. -/
theorem getTemp_spec (hc : c.Renumberable) (h : Invariant c lin temps)
    (htemps : temps.length < c.constantCount + c.copyCount) :
  lin.getFreshWireNumber = .ok (lin.nextFreeWireNumber, lin.next)
    ∧ Invariant c lin.next (temps ++ [lin.nextFreeWireNumber])
    ∧ Introduces c.lastInner lin.nextFreeWireNumber [lin.nextFreeWireNumber]
      lin.next.nextFreeWireNumber
  := by
  have hnext : lin.nextFreeWireNumber ≤ c.lastInner := by
    apply h.next_le_lastInner hc
    have hcard := card_mappedWires_le lin c.maxWireNumber
    omega
  use h.getFreshWireNumber_eq hc hnext, h.next_temp hnext
  apply Introduces.new hnext

end Invariant

end Linearize

end SynCirc

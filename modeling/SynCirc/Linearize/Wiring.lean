import SynCirc.Linearize.Correct

/-!
# The wiring of the linearized circuit

The drivers of the linearized circuit are the temporary wires, the new numbers of the wires
the gates of the circuit drive, and the slots of the copies (`outputs_perm`).  If every wire
of the circuit has one driver and its gates are in topological order, the same holds of the
linearized circuit.
-/

namespace SynCirc

open Zig Linearize

namespace Node

/-- More wires may be known. -/
theorem ReadFrom.mono {luts known known' : List Nat} {ns : List Node}
    (h : ReadFrom luts known ns) (hknown : known ⊆ known') :
  ReadFrom luts known' ns
  := by
  induction ns generalizing known known' with
  | nil => trivial
  | cons n ns ih =>
      refine ⟨fun w hw => hknown (h.1 w hw), ih h.2 ?_⟩
      apply List.cons_subset_cons _ hknown

/-- Gates may follow that read what is known and what the gates before drive. -/
theorem ReadFrom.append {luts known : List Nat} {ns ns' : List Node}
    (h : ReadFrom luts known ns)
    (h' : ReadFrom luts (ns.map Node.output ++ known) ns') :
  ReadFrom luts known (ns ++ ns')
  := by
  induction ns generalizing known with
  | nil => apply h'
  | cons n ns ih =>
      refine ⟨h.1, ih h.2 (h'.mono ?_)⟩
      rw [List.map_cons, List.cons_append]
      apply List.perm_middle.symm.subset

end Node

namespace Layout

variable {c : Circuit} (L : Layout c)

/-! ### Drivers -/

/-- The drivers of the gates that stand for gates of the circuit. -/
theorem body_outputs_perm (gates : List (Node × Nat)) :
  ((gates.flatMap (gateNodes c L.rename)).map Node.output).Perm
    (constantTemps gates ++ ((gates.map Prod.fst).map Node.output).map L.rename)
  := by
  induction gates with
  | nil => apply List.Perm.nil
  | cons g gates ih =>
      rw [List.flatMap_cons, List.map_append, List.map_cons, List.map_cons, List.map_cons]
      cases hconstant : g.1.isConstant with
      | false =>
          have htemps : constantTemps (g :: gates) = constantTemps gates := by
            simp [constantTemps, hconstant]
          rw [gateNodes_of_not_constant c L.rename hconstant, htemps, List.map_singleton,
            Node.output_rename]
          apply (ih.cons _).trans
          apply List.perm_middle.symm
      | true =>
          obtain ⟨op, hop, heq⟩ := gateNodes_of_constant c L.rename hconstant
          have htemps : constantTemps (g :: gates) = g.2 :: constantTemps gates := by
            simp [constantTemps, hconstant]
          rw [heq, htemps, List.map_cons, List.map_singleton, hop.output]
          apply List.Perm.cons
          apply (ih.cons _).trans
          apply List.perm_middle.symm

/-- The drivers of the copies. -/
theorem tail_outputs_perm (copies : List Copy) :
  ((copies.flatMap (Copy.nodes L.rename)).map Node.output).Perm
    (copies.map Copy.tmp ++ copies.map Copy.slot)
  := by
  induction copies with
  | nil => apply List.Perm.nil
  | cons k copies ih =>
      rw [List.flatMap_cons, List.map_append, List.map_cons, List.map_cons]
      apply List.Perm.cons
      apply (ih.cons k.slot).trans
      apply List.perm_middle.symm

/-- The drivers of the linearized circuit. -/
theorem outputs_perm :
  (L.circuit.nodes.map Node.output).Perm
    ((constantTemps L.gates ++ L.copies.map Copy.tmp)
      ++ ((c.nodes.map Node.output).map L.rename ++ L.copies.map Copy.slot))
  := by
  have hbody := L.body_outputs_perm L.gates
  rw [L.gates_nodes] at hbody
  have happend := hbody.append (L.tail_outputs_perm L.copies)
  rw [circuit, List.map_append]
  apply happend.trans
  rw [List.append_assoc, List.append_assoc]
  apply List.Perm.append_left
  rw [← List.append_assoc, ← List.append_assoc]
  apply List.Perm.append_right
  apply List.perm_append_comm

theorem mem_outputs_iff {w : Nat} :
  w ∈ L.circuit.nodes.map Node.output
    ↔ w ∈ constantTemps L.gates ++ L.copies.map Copy.tmp
      ∨ w ∈ (c.nodes.map Node.output).map L.rename ∨ w ∈ L.copies.map Copy.slot
  := by
  rw [L.outputs_perm.mem_iff, List.mem_append,
    List.mem_append (s := (c.nodes.map Node.output).map L.rename)]

theorem output_mem_mentioned {w : Nat} (hw : w ∈ c.nodes.map Node.output) :
  w ∈ c.mentioned
  := by
  obtain ⟨n, hn, rfl⟩ := List.mem_map.mp hw
  apply Circuit.mem_mentioned_of_node hn (List.mem_append_right _ List.mem_cons_self)

/-- Only inputs get numbers below the number of inputs. -/
theorem mem_inputs_of_rename_lt {w : Nat} (hw : w ∈ c.mentioned)
    (hlt : L.rename w < c.inputs.length) :
  w ∈ c.inputs
  := by
  rw [← List.mem_range, ← L.rename_inputs] at hlt
  obtain ⟨w', hw', heq⟩ := List.mem_map.mp hlt
  obtain rfl := L.rename_injOn (Circuit.mem_mentioned_of_input hw') hw heq
  apply hw'

/-- Every wire of the linearized circuit has one driver. -/
theorem circuit_singleDriver (hc : c.Renumberable) (h : c.SingleDriver) :
  L.circuit.SingleDriver
  := by
  constructor
  · rw [L.outputs_perm.nodup_iff, List.nodup_append]
    refine ⟨L.temps_nodup, List.nodup_append.mpr ⟨?_, L.copies_slot_nodup, ?_⟩, ?_⟩
    · apply h.outputs_nodup.map_on
      intro w hw w' hw' heq
      apply L.rename_injOn (output_mem_mentioned hw) (output_mem_mentioned hw') heq
    · intro w hw w' hw'
      obtain ⟨o, ho, rfl⟩ := List.mem_map.mp hw
      obtain ⟨k, hk, rfl⟩ := List.mem_map.mp hw'
      apply L.rename_ne_copy_slot hc hk (output_mem_mentioned ho)
    · intro t ht w hw
      rcases List.mem_append.mp hw with hw | hw
      · obtain ⟨o, ho, rfl⟩ := List.mem_map.mp hw
        apply (L.temps_fresh t ht o (output_mem_mentioned ho)).symm
      · obtain ⟨k, hk, rfl⟩ := List.mem_map.mp hw
        obtain ⟨i, -, -, hslot⟩ := L.exists_of_copy hk
        rw [hslot]
        apply L.tmp_ne_slot ht
  · intro n hn hmem
    have hlt : n.output < c.inputs.length := List.mem_range.mp hmem
    rcases L.mem_outputs_iff.mp (List.mem_map_of_mem hn) with ht | hw | hk
    · have hle := (L.temps_inner n.output ht).1
      omega
    · obtain ⟨o, ho, heq⟩ := List.mem_map.mp hw
      rw [← heq] at hlt
      have hin := L.mem_inputs_of_rename_lt (output_mem_mentioned ho) hlt
      obtain ⟨m, hm, rfl⟩ := List.mem_map.mp ho
      apply h.inputs_undriven m hm hin
    · obtain ⟨k, hk, heq⟩ := List.mem_map.mp hk
      obtain ⟨i, -, -, hslot⟩ := L.exists_of_copy hk
      have hle := inputs_length_le hc
      rw [← heq, hslot, Circuit.slot] at hlt
      omega

/-! ### Topological order -/

/-- The gates that stand for gates of the circuit are in topological order. -/
theorem body_readFrom (known : List Nat) {known' : List Nat} {gates : List (Node × Nat)}
    (hgates : ∀ g ∈ gates, g ∈ L.gates)
    (hx : L.rename (c.inputs.headD 0) ∈ known')
    (hknown : ∀ w ∈ known, L.rename w ∈ known')
    (h : Node.ReadFrom c.luts known (gates.map Prod.fst)) :
  Node.ReadFrom L.luts known' (gates.flatMap (gateNodes c L.rename))
  := by
  induction gates generalizing known known' with
  | nil => trivial
  | cons g gates ih =>
      rw [List.forall_mem_cons] at hgates
      obtain ⟨hreads, hrest⟩ := h
      have hstep : ∀ w ∈ g.1.output :: known,
          L.rename w ∈ (gateNodes c L.rename g).map Node.output ++ known' := by
        intro w hw
        rw [List.mem_append]
        rcases List.mem_cons.mp hw with rfl | hw
        · left
          cases hconstant : g.1.isConstant with
          | false =>
              rw [gateNodes_of_not_constant c L.rename hconstant, List.map_singleton,
                Node.output_rename]
              apply List.mem_singleton_self
          | true =>
              obtain ⟨op, hop, heq⟩ := gateNodes_of_constant c L.rename hconstant
              rw [heq, List.map_cons, List.map_singleton, hop.output]
              apply List.mem_cons_of_mem _ List.mem_cons_self
        · right
          apply hknown w hw
      rw [List.flatMap_cons]
      apply Node.ReadFrom.append
      · cases hconstant : g.1.isConstant with
        | false =>
            rw [gateNodes_of_not_constant c L.rename hconstant]
            refine ⟨?_, trivial⟩
            rw [L.reads_rename g.1 (L.mem_nodes hgates.1)]
            intro w hw
            obtain ⟨w', hw', rfl⟩ := List.mem_map.mp hw
            apply hknown w' (hreads w' hw')
        | true =>
            obtain ⟨op, hop, heq⟩ := gateNodes_of_constant c L.rename hconstant
            rw [heq]
            refine ⟨?_, ?_, trivial⟩
            · simpa [Node.reads] using hx
            · rw [hop.reads, List.forall_mem_cons, List.forall_mem_singleton]
              use List.mem_cons_of_mem _ hx
              apply List.mem_cons_self
      · apply ih _ hgates.2 _ hstep hrest
        apply List.mem_append_right _ hx

/-- The copies of known wires are in topological order. -/
theorem tail_readFrom {known : List Nat} {copies : List Copy}
    (hsource : ∀ k ∈ copies, L.rename k.source ∈ known) :
  Node.ReadFrom L.luts known (copies.flatMap (Copy.nodes L.rename))
  := by
  induction copies generalizing known with
  | nil => trivial
  | cons k copies ih =>
      rw [List.forall_mem_cons] at hsource
      rw [List.flatMap_cons]
      refine ⟨?_, ?_, ih ?_⟩
      · simpa [Node.reads] using hsource.1
      · simp [Node.reads, Node.output]
      · intro k' hk'
        apply List.mem_cons_of_mem _ (List.mem_cons_of_mem _ (hsource.2 k' hk'))

/-- The new number of a driven wire is an input or is driven before the copies. -/
theorem rename_driven {w : Nat} (hw : c.Driven w) :
  L.rename w ∈ L.body.map Node.output ++ List.range c.inputs.length
  := by
  rw [List.mem_append]
  rcases hw with hw | hw
  · right
    apply List.mem_range.mpr (L.rename_lt_of_input hw)
  · left
    have hbody := L.body_outputs_perm L.gates
    rw [L.gates_nodes] at hbody
    apply hbody.mem_iff.mpr
    apply List.mem_append_right _ (List.mem_map_of_mem hw)

theorem circuit_topological (hc : c.Renumberable) (h : c.Wired) :
  L.circuit.Topological
  := by
  apply Node.ReadFrom.append
  · apply L.body_readFrom c.inputs (fun _ hg => hg)
    · apply List.mem_range.mpr (L.rename_lt_of_input (headD_mem_mentioned hc))
    · intro w hw
      apply List.mem_range.mpr (L.rename_lt_of_input hw)
    · rw [L.gates_nodes]
      apply h.topological
  · apply L.tail_readFrom
    intro k hk
    apply L.rename_driven (h.outputs_driven k.source (L.copy_source_mem hk))

/-! ### Outputs -/

/-- Every output slot is driven by a gate. -/
theorem output_driven (h : ∀ w ∈ c.outputs, c.Driven w) {w : Nat}
    (hw : w ∈ L.circuit.outputs) :
  w ∈ L.circuit.nodes.map Node.output
  := by
  obtain ⟨i, hi, rfl⟩ := List.mem_map.mp hw
  have hlt : i < c.outputs.length := List.mem_range.mp hi
  have hget : c.outputs[i]? = some c.outputs[i] := List.getElem?_eq_getElem hlt
  rw [L.mem_outputs_iff]
  right
  cases hcopy : c.isCopy (c.outputs[i], i) with
  | false =>
      left
      rw [← L.rename_of_not_copy hget hcopy]
      rw [Circuit.isCopy, decide_eq_false_iff_not, not_or] at hcopy
      apply List.mem_map_of_mem
      apply (h _ (List.mem_of_getElem? hget)).resolve_left hcopy.1
  | true =>
      right
      obtain ⟨k, hk, -, hslot⟩ := L.exists_copy hget hcopy
      rw [← hslot]
      apply List.mem_map_of_mem hk

/-! ### The linearized circuit is wired -/

/-- The input wires of the lookup tables of the linearized circuit lie inside `luts`. -/
theorem circuit_sliceInRange (hslices : ∀ n ∈ c.nodes, n.SliceInRange c.luts) {n : Node}
    (hn : n ∈ L.circuit.nodes) :
  n.SliceInRange L.circuit.luts
  := by
  rcases (L.mem_circuit_nodes hn).2 with hlut | ⟨n', hn', rfl⟩
  · cases n with
    | lut offset tableOffset arity output => contradiction
    | _ => trivial
  · have hslice := hslices n' hn'
    have hlength : L.circuit.luts.length = c.luts.length := L.luts_length
    cases n' with
    | lut offset tableOffset arity output =>
        rw [Node.rename, Node.SliceInRange, hlength]
        apply hslice
    | _ => trivial

theorem circuit_wired (hc : c.Renumberable) (h : c.Wired) :
  L.circuit.Wired
  := by
  refine ⟨L.circuit_singleDriver hc h.toSingleDriver, L.circuit_topological hc h, ?_⟩
  intro w hw
  right
  apply L.output_driven h.outputs_driven hw

end Layout

/-- The shape of a linearized circuit with `n` inputs and `m` outputs: the inputs are the
first numbers, the outputs are the last ones up to the largest wire number, no gate is a
constant and no wire is above the largest wire number. -/
structure Circuit.Linear (c : Circuit) (n m : Nat) : Prop where
  inputs : c.inputs = List.range n
  outputs : c.outputs = (List.range m).map (fun i => c.maxWireNumber - m + 1 + i)
  outputs_le : m ≤ c.maxWireNumber
  no_constants : ∀ n ∈ c.nodes, n.isConstant = false
  wires : ∀ w ∈ c.mentioned, w ≤ c.maxWireNumber

theorem Layout.circuit_linear {c : Circuit} (L : Layout c) (hc : c.Renumberable) :
  L.circuit.Linear c.inputs.length c.outputs.length
  := by
  constructor
  · rfl
  · apply List.map_congr_left
    intro i hi
    rw [Circuit.slot, Circuit.lastInner, Nat.add_right_comm]
    rfl
  · apply Circuit.outputs_le_wireBudget hc
  · intro n hn
    apply (L.mem_circuit_nodes hn).1
  · intro w hw
    apply L.mentioned_le hc hw

/-- The pass establishes the linear layout, if its budget fits in 64 bits, and keeps the wiring:
in the result, too, every wire has one driver, the gates are in topological order, and the
outputs are driven, by gates. -/
theorem run_linear (memory : Linearize.Memory) {c : Circuit} (hc : c.Admissible)
    (hfits : c.BudgetFits) :
  ∃ c', Linearize.run memory c = .ok c' ∧ c'.Linear c.inputs.length c.outputs.length
    ∧ (c.Wired → c'.Wired ∧ ∀ w ∈ c'.outputs, w ∈ c'.nodes.map Node.output)
  := by
  obtain ⟨L, heq⟩ := Linearize.run_eq memory hc hfits
  refine ⟨L.circuit, heq, L.circuit_linear hc.renumberable, ?_⟩
  intro h
  use L.circuit_wired hc.renumberable h
  intro w hw
  apply L.output_driven h.outputs_driven hw

theorem Circuit.aliased_wired :
  Circuit.aliased.Wired
  := by
  refine ⟨⟨by decide, by decide⟩, ⟨by decide, by decide, by decide, trivial⟩, ?_⟩
  intro w hw
  rw [Circuit.Driven]
  revert w
  decide

theorem Circuit.aliased_budgetFits :
  Circuit.aliased.BudgetFits
  := .of_lt (by decide)

theorem run_linear_aliased :
  Circuit.aliased.Admissible ∧ Circuit.aliased.BudgetFits ∧ Circuit.aliased.Wired
    ∧ ∃ c', Linearize.run (.filled 0) Circuit.aliased = .ok c' ∧ c'.Linear 2 4
      ∧ c'.Wired ∧ ∀ w ∈ c'.outputs, w ∈ c'.nodes.map Node.output
  := by
  use Circuit.aliased_admissible, Circuit.aliased_budgetFits, Circuit.aliased_wired
  obtain ⟨c', heq, hlinear, hwired⟩ :=
    run_linear (.filled 0) Circuit.aliased_admissible Circuit.aliased_budgetFits
  exact ⟨c', heq, hlinear, hwired Circuit.aliased_wired⟩

/-- The pass has no permutation of a circuit whose largest wire number is the last one of 64
bits. -/
theorem not_run_linear :
  (Circuit.relay (2 ^ 64 - 1)).Admissible
    ∧ Linearize.run (.filled 0) (Circuit.relay (2 ^ 64 - 1)) = .panic .integerOverflow
  := ⟨⟨⟨by decide, by decide⟩, by decide, by decide⟩, by decide⟩

/-- The pass never runs out of wire numbers, never maps a wire twice, and no subtraction of it
underflows: it returns a circuit that stays within the budget, or it stops at the slice of a
lookup table whose input wires do not lie inside `luts`. -/
theorem run_within_budget (memory : Linearize.Memory) {c : Circuit} (hc : c.Renumberable)
    (hfits : c.BudgetFits) :
  (∃ c', Linearize.run memory c = .ok c' ∧ c'.Linear c.inputs.length c.outputs.length
    ∧ c'.maxWireNumber = c.wireBudget)
  ∨ (Linearize.run memory c = .panic .indexOutOfBounds
    ∧ ∃ n ∈ c.nodes, ¬ n.SliceInRange c.luts)
  := by
  rcases Linearize.run_spec memory hc hfits with ⟨L, heq, -⟩ | hslice
  · left
    exact ⟨L.circuit, heq, L.circuit_linear hc, rfl⟩
  · right
    apply hslice

theorem run_within_budget_aliased :
  Circuit.aliased.Renumberable ∧ Circuit.aliased.BudgetFits
    ∧ ((∃ c', Linearize.run (.filled 0) Circuit.aliased = .ok c' ∧ c'.Linear 2 4
        ∧ c'.maxWireNumber = Circuit.aliased.wireBudget)
      ∨ (Linearize.run (.filled 0) Circuit.aliased = .panic .indexOutOfBounds
        ∧ ∃ n ∈ Circuit.aliased.nodes, ¬ n.SliceInRange Circuit.aliased.luts))
  := ⟨Circuit.aliased_admissible.renumberable, Circuit.aliased_budgetFits,
    run_within_budget _ Circuit.aliased_admissible.renumberable Circuit.aliased_budgetFits⟩

end SynCirc

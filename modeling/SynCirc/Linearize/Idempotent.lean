import SynCirc.Linearize.Wiring

/-!
# The pass is idempotent

A linearized circuit has no constants, and its outputs are distinct and are not inputs, so
linearizing it again needs no temporary wires and no extra numbers.  The second renumbering is
the identity on the inputs and on the outputs.  On the other wires it is the identity because
the first one has introduced their numbers in the order in which the gates mention them, and
the second one does the same.
-/

namespace SynCirc

open Zig Numbering Linearize

theorem Node.rename_id (n : Node) :
  n.rename id = n
  := by
  cases n <;> rfl

theorem Node.covers_rename (ρ : Nat → Nat) (n : Node) (j : Nat) :
  (n.rename ρ).Covers j ↔ n.Covers j
  := by
  cases n <;> rfl

/-- Every position of `luts` belongs to a gate. -/
def Circuit.LutsCovered (c : Circuit) : Prop :=
  ∀ j < c.luts.length, ∃ n ∈ c.nodes, n.Covers j

namespace Layout

variable {c : Circuit} (L : Layout c)

/-! ### The wires of the linearized circuit -/

/-- The wires mentioned by the gates that stand for a gate. -/
theorem flatMap_gateNodes {g : Node × Nat} (hg : g ∈ L.gates) :
  (gateNodes c L.rename g).flatMap (Node.wires L.luts) = gateMentions c L.rename g
  := by
  cases hconstant : g.1.isConstant with
  | false =>
      rw [gateNodes_of_not_constant c L.rename hconstant,
        gateMentions_of_not_constant c L.rename hconstant, List.flatMap_singleton, Node.wires,
        L.reads_rename g.1 (L.mem_nodes hg), Node.output_rename, Node.wires, List.map_append]
      rfl
  | true =>
      obtain ⟨op, hop, heq⟩ := gateNodes_of_constant c L.rename hconstant
      rw [heq, gateMentions_of_constant c L.rename hconstant, List.flatMap_cons,
        List.flatMap_singleton, Node.wires, Node.wires, hop.reads, hop.output]
      rfl

/-- The wires mentioned by the gates of the linearized circuit, in order. -/
theorem flatMap_nodes :
  L.circuit.nodes.flatMap (Node.wires L.luts) = L.mentions
  := by
  have hbody : L.body.flatMap (Node.wires L.luts)
      = L.gates.flatMap (gateMentions c L.rename) := by
    rw [body, List.flatMap_assoc]
    apply List.flatMap_congr
    intro g hg
    apply L.flatMap_gateNodes hg
  have htail : L.tail.flatMap (Node.wires L.luts)
      = L.copies.flatMap (Copy.mentions L.rename) := by
    rw [tail, List.flatMap_assoc]
    apply List.flatMap_congr
    intro k hk
    rfl
  have hnodes : L.circuit.nodes = L.body ++ L.tail := rfl
  rw [hnodes, List.flatMap_append, hbody, htail]
  rfl

/-- The linearized circuit can be linearized again. -/
theorem circuit_renumberable (hc : c.Renumberable) :
  L.circuit.Renumberable
  := by
  constructor
  · intro w hw
    apply L.mentioned_le hc hw
  · intro hnil
    have hlength : L.circuit.inputs.length = c.inputs.length := List.length_range
    rw [hnil] at hlength
    apply hc.inputs_ne_nil (List.length_eq_zero_iff.mp hlength.symm)
  · apply List.nodup_range

/-- The output of the linearized circuit at a position. -/
theorem circuit_outputs_getElem? {i w : Nat} (hw : L.circuit.outputs[i]? = some w) :
  w = c.slot i
  := by
  have houtputs : L.circuit.outputs = (List.range c.outputs.length).map c.slot := rfl
  rw [houtputs] at hw
  obtain ⟨hi, hget⟩ := List.getElem?_eq_some_iff.mp hw
  rw [← hget, List.getElem_map, List.getElem_range]

/-- No output of the linearized circuit is a copy. -/
theorem circuit_isCopy (hc : c.Renumberable) {p : Nat × Nat}
    (hp : p ∈ L.circuit.outputs.zipIdx) :
  L.circuit.isCopy p = false
  := by
  have hget := L.circuit_outputs_getElem? (List.mem_zipIdx_iff_getElem?.mp hp)
  rw [Circuit.isCopy, decide_eq_false_iff_not, not_or, hget]
  constructor
  · intro hin
    have hlt : c.slot p.2 < c.inputs.length := List.mem_range.mp hin
    have hle := inputs_length_le hc
    rw [Circuit.slot] at hlt
    omega
  · intro hout
    obtain ⟨j, hj, heq⟩ := List.mem_take_iff_getElem.mp hout
    have hslot := L.circuit_outputs_getElem? (List.getElem?_eq_some_iff.mpr ⟨by omega, heq⟩)
    rw [Circuit.slot, Circuit.slot] at hslot
    omega

/-- The linearized circuit needs no extra wires. -/
theorem circuit_wireBudget (hc : c.Renumberable) :
  L.circuit.wireBudget = c.wireBudget
  := by
  have hconstants : L.circuit.constantCount = 0 := by
    rw [Circuit.constantCount, List.countP_eq_zero]
    intro n hn
    rw [(L.mem_circuit_nodes hn).1]
    exact Bool.false_ne_true
  have hcopies : L.circuit.copyCount = 0 := by
    rw [Circuit.copyCount, List.countP_eq_zero]
    intro p hp
    rw [L.circuit_isCopy hc hp]
    exact Bool.false_ne_true
  rw [Circuit.wireBudget_eq (L.circuit_renumberable hc), hconstants, hcopies]
  rfl

/-- The linearized circuit has the same output slots. -/
theorem circuit_lastInner (hc : c.Renumberable) :
  L.circuit.lastInner = c.lastInner
  := by
  have hlength : L.circuit.outputs.length = c.outputs.length := by
    rw [circuit, List.length_map, List.length_range]
  rw [Circuit.lastInner, L.circuit_wireBudget hc, hlength]
  rfl

theorem circuit_slot (hc : c.Renumberable) (i : Nat) :
  L.circuit.slot i = c.slot i
  := by
  rw [Circuit.slot, L.circuit_lastInner hc]
  rfl

/-- The positions of `luts` belong to gates of the linearized circuit. -/
theorem circuit_lutsCovered (hcover : c.LutsCovered) :
  L.circuit.LutsCovered
  := by
  intro j hj
  have hlength : L.circuit.luts.length = c.luts.length := L.luts_length
  rw [hlength] at hj
  obtain ⟨n, hn, hcovers⟩ := hcover j hj
  rw [← L.gates_nodes] at hn
  obtain ⟨g, hg, rfl⟩ := List.mem_map.mp hn
  use g.1.rename L.rename
  constructor
  · apply List.mem_append_left
    apply List.mem_flatMap.mpr
    use g, hg
    have hconstant : g.1.isConstant = false := by
      cases h : g.1 with
      | zero output => rw [h] at hcovers; exact hcovers.elim
      | one output => rw [h] at hcovers; exact hcovers.elim
      | _ => rfl
    rw [gateNodes_of_not_constant c L.rename hconstant]
    apply List.mem_singleton_self
  · rw [Node.covers_rename]
    apply hcovers

/-! ### Linearizing again -/

section Again

variable (L' : Layout L.circuit) (hc : c.Renumberable)

/-- The second renumbering keeps the inputs. -/
theorem again_input {w : Nat} (hw : w < c.inputs.length) :
  L'.rename w = w
  := by
  have hinputs : (List.range c.inputs.length).map L'.rename
      = List.range (List.range c.inputs.length).length := L'.rename_inputs
  have hget := congrArg (fun xs => xs[w]?) hinputs
  simp only [List.length_range, List.getElem?_map, List.getElem?_range hw, Option.map_some,
    Option.some.injEq] at hget
  apply hget

include hc

/-- The second renumbering keeps the outputs. -/
theorem again_output {w : Nat} (hw : w ∈ L.circuit.mentioned) (hlast : c.lastInner < w) :
  L'.rename w = w
  := by
  have hadd := lastInner_add hc
  have hle := L.mentioned_le hc hw
  have hin : w ∉ L.circuit.inputs := by
    intro hin
    have hlt : w < c.inputs.length := List.mem_range.mp hin
    have hle := inputs_length_le hc
    omega
  have hout : w ∈ L.circuit.outputs := by
    apply List.mem_map.mpr
    use w - c.lastInner - 1
    rw [List.mem_range, Circuit.slot]
    omega
  have hslot := L.circuit_outputs_getElem?
    (List.getElem?_eq_some_iff.mpr ⟨List.idxOf_lt_length_iff.mpr hout, List.getElem_idxOf _⟩)
  rw [L'.rename_output w hout hin, L.circuit_slot hc, ← hslot]

/-- The second pass makes no copies. -/
theorem again_copies :
  L'.copies = []
  := by
  have hnone : L.circuit.outputs.zipIdx.filter L.circuit.isCopy = [] := by
    rw [List.filter_eq_nil_iff]
    intro p hp
    rw [L.circuit_isCopy hc hp]
    exact Bool.false_ne_true
  have hcopies := L'.copies_eq
  rw [hnone] at hcopies
  apply List.map_eq_nil_iff.mp hcopies

omit hc in
/-- The second pass has no constants to expand. -/
theorem again_not_constant {g : Node × Nat} (hg : g ∈ L'.gates) :
  g.1.isConstant = false
  := (L.mem_circuit_nodes (L'.mem_nodes hg)).1

/-- The second pass mentions the wires of the linearized circuit, renumbered. -/
theorem again_mentions :
  L'.mentions = L.mentions.map L'.rename
  := by
  have hgates : L'.gates.flatMap (gateMentions L.circuit L'.rename)
      = (L'.gates.map Prod.fst).flatMap
        (fun n => (n.wires L.circuit.luts).map L'.rename) := by
    rw [List.flatMap_map]
    apply List.flatMap_congr
    intro g hg
    apply gateMentions_of_not_constant _ _ (L.again_not_constant L' hg)
  have hluts : L.circuit.luts = L.luts := rfl
  rw [mentions, L.again_copies L' hc, hgates, L'.gates_nodes, List.flatMap_nil, List.append_nil,
    ← L.flatMap_nodes, List.map_flatMap, hluts]

/-- The second renumbering keeps the wires of the linearized circuit. -/
theorem again_rename (hL : L.Ordered) (hL' : L'.Ordered) {w : Nat}
    (hw : w ∈ L.circuit.mentioned) :
  L'.rename w = w
  := by
  obtain ⟨m, horder⟩ := hL
  obtain ⟨m', horder'⟩ := hL'
  have hlength : L.circuit.inputs.length = c.inputs.length := List.length_range
  rw [L.again_mentions L' hc, L.circuit_lastInner hc, hlength] at horder'
  have hgates : ∀ w ∈ L.mentions, w ∈ L.circuit.mentioned := by
    intro w hw
    rw [← L.flatMap_nodes] at hw
    apply List.mem_append_right _ hw
  have hinner : ∀ w ∈ L.circuit.mentioned, c.inputs.length ≤ w → w ≤ c.lastInner →
      L'.rename w ≤ c.lastInner := by
    intro w hw hlow hhigh
    have hin : w ∉ L.circuit.inputs := by
      intro hin
      have hlt : w < c.inputs.length := List.mem_range.mp hin
      omega
    have hout : w ∉ L.circuit.outputs := by
      intro hout
      obtain ⟨i, hi, rfl⟩ := List.mem_map.mp hout
      rw [Circuit.slot] at hhigh
      omega
    have hle := (L'.rename_inner w hw hin hout).2
    rw [L.circuit_lastInner hc] at hle
    apply hle
  have hinputs : ∀ w < c.inputs.length, w ∈ L.circuit.mentioned ∧ L'.rename w = w := by
    intro w hw
    use Circuit.mem_mentioned_of_input (List.mem_range.mpr hw)
    apply L.again_input L' hw
  have hmentions := horder.rename_eq (S := {w | w ∈ L.circuit.mentioned}) L'.rename_injOn hinner
    (fun w hw hlast => L.again_output L' hc hw hlast) hgates hinputs horder'
  rw [Circuit.mentioned, List.mem_append, List.mem_append] at hw
  rcases hw with (hw | hw) | hw
  · apply L.again_input L' (List.mem_range.mp hw)
  · apply L.again_output L' hc (Circuit.mem_mentioned_of_output hw)
    obtain ⟨i, hi, rfl⟩ := List.mem_map.mp hw
    rw [Circuit.slot]
    omega
  · apply hmentions w
    rw [← L.flatMap_nodes]
    apply hw

variable (hrename : ∀ w ∈ L.circuit.mentioned, L'.rename w = w)
include hrename

/-- The second pass keeps the gates. -/
theorem again_nodes :
  L'.circuit.nodes = L.circuit.nodes
  := by
  have hbody : L'.body = L'.gates.map Prod.fst := by
    rw [body, List.map_eq_flatMap]
    apply List.flatMap_congr
    intro g hg
    rw [gateNodes_of_not_constant _ _ (L.again_not_constant L' hg)]
    congr 1
    have hwires : ∀ w ∈ g.1.wires L.circuit.luts, L'.rename w = id w := by
      intro w hw
      apply hrename w (Circuit.mem_mentioned_of_node (L'.mem_nodes hg) hw)
    rw [Node.rename_congr hwires, Node.rename_id]
  have hnodes : L'.circuit.nodes = L'.body ++ L'.tail := rfl
  rw [hnodes, hbody, tail, L.again_copies L' hc, List.flatMap_nil, List.append_nil,
    L'.gates_nodes]

omit hc in
/-- The second pass keeps the input wires of a gate. -/
theorem again_reads {n : Node} (hn : n ∈ L.circuit.nodes) :
  (n.rename L'.rename).reads L'.luts = n.reads L.circuit.luts
  := by
  rw [L'.reads_rename n hn]
  apply Eq.trans (List.map_congr_left _) (List.map_id _)
  intro w hw
  apply hrename w (Circuit.mem_mentioned_of_node hn (List.mem_append_left _ hw))

omit hc in
/-- The second pass keeps the input wires of the lookup tables. -/
theorem again_luts (hslices : ∀ n ∈ c.nodes, n.SliceInRange c.luts) (hcover : c.LutsCovered) :
  L'.luts = L.circuit.luts
  := by
  apply List.ext_getElem L'.luts_length
  intro j hj hj'
  obtain ⟨n, hn, hcovers⟩ := L.circuit_lutsCovered hcover j hj'
  have hslice := L.circuit_sliceInRange hslices hn
  have hreads := L.again_reads L' hrename hn
  cases n with
  | lut offset tableOffset arity output =>
      obtain ⟨hlow, hhigh⟩ := hcovers
      have hget := congrArg (fun xs => xs[j - offset]?) hreads
      simp only [Node.rename, Node.reads] at hget
      rw [List.getElem?_take_of_lt (by omega), List.getElem?_take_of_lt (by omega),
        List.getElem?_drop, List.getElem?_drop, Nat.add_sub_cancel' hlow,
        List.getElem?_eq_getElem hj, List.getElem?_eq_getElem hj'] at hget
      apply Option.some.inj hget
  | _ => exact hcovers.elim

/-- The second pass returns the linearized circuit. -/
theorem again_circuit (hslices : ∀ n ∈ c.nodes, n.SliceInRange c.luts)
    (hcover : c.LutsCovered) :
  L'.circuit = L.circuit
  := by
  have hnodes : L'.body ++ L'.tail = L.circuit.nodes := L.again_nodes L' hc hrename
  have hluts := L.again_luts L' hrename hslices hcover
  have hinputs : L.circuit.inputs.length = c.inputs.length := List.length_range
  have houtputs : L.circuit.outputs.length = c.outputs.length := by
    rw [circuit, List.length_map, List.length_range]
  have hslot : L.circuit.slot = c.slot := funext (L.circuit_slot hc)
  rw [circuit, hnodes, hluts, L.circuit_wireBudget hc, hinputs, houtputs, hslot]
  rfl

end Again

end Layout

/-- Linearizing a linearized circuit again changes nothing, whatever the freshly allocated
memory holds, if the wires, with the extra ones, can be counted in 64 bits.  The first pass
returns unless a lookup table has input wires outside `luts`. -/
theorem run_idempotent (memory memory' : Memory) {c : Circuit} (hc : c.Renumberable)
    (hbudget : c.wireBudget + 1 < 2 ^ 64) (hcover : c.LutsCovered) :
  (∃ c', run memory c = .ok c' ∧ run memory' c' = .ok c')
  ∨ (run memory c = .panic .indexOutOfBounds ∧ ∃ n ∈ c.nodes, ¬ n.SliceInRange c.luts)
  := by
  rcases run_spec memory hc (.of_lt hbudget) with ⟨L, heq, hL, hslices⟩ | hslice
  · left
    use L.circuit, heq
    have hbudget' : L.circuit.wireBudget + 1 < 2 ^ 64 := by
      rw [L.circuit_wireBudget hc]
      apply hbudget
    obtain ⟨L', heq', hL'⟩ := run_ordered memory' (L.circuit_renumberable hc) (.of_lt hbudget')
      (fun n hn => L.circuit_sliceInRange hslices hn)
    rw [heq', L.again_circuit L' hc (fun w hw => L.again_rename L' hc hL hL' hw) hslices hcover]
  · right
    apply hslice

theorem Circuit.aliased_lutsCovered :
  Circuit.aliased.LutsCovered
  := by
  intro j hj
  use .lut 0 0 1 2, by decide
  exact ⟨Nat.zero_le j, hj⟩

theorem run_idempotent_aliased :
  Circuit.aliased.Renumberable ∧ Circuit.aliased.LutsCovered
    ∧ ((∃ c', run (.filled 0) Circuit.aliased = .ok c' ∧ run (.filled 7) c' = .ok c')
      ∨ (run (.filled 0) Circuit.aliased = .panic .indexOutOfBounds
        ∧ ∃ n ∈ Circuit.aliased.nodes, ¬ n.SliceInRange Circuit.aliased.luts))
  := ⟨Circuit.aliased_admissible.renumberable, Circuit.aliased_lutsCovered,
    run_idempotent _ _ Circuit.aliased_admissible.renumberable (by decide)
      Circuit.aliased_lutsCovered⟩

/-- The wire added for the copy of an input can be one too many for the second pass. -/
theorem not_run_idempotent :
  (Circuit.relay (2 ^ 64 - 3)).Renumberable ∧ (Circuit.relay (2 ^ 64 - 3)).LutsCovered
    ∧ ∃ c', run (.filled 0) (Circuit.relay (2 ^ 64 - 3)) = .ok c'
      ∧ run (.filled 0) c' = .panic .integerOverflow
  := by
  refine ⟨⟨by decide, by decide, by decide⟩, ?_,
    { nodes := [.inv 0 1, .inv 1 (2 ^ 64 - 1)]
      luts := []
      inputs := [0]
      outputs := [2 ^ 64 - 1]
      lutTables := []
      maxWireNumber := 2 ^ 64 - 1 }, by decide, by decide⟩
  intro j hj
  contradiction

end SynCirc

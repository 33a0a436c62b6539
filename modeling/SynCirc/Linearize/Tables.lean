import SynCirc.Linearize.Basic
import SynCirc.Zig.Passes

/-!
# The pass stays in its tables

In a circuit in range, no access of the pass to the permutation, to its set or to the lists of the
circuit is out of bounds, whatever else may stop the pass.
-/

namespace SynCirc

open Zig Outcome

namespace Linearize

/-- The tables have an entry for every wire of the circuit and for every input of a lookup table. -/
structure HasTables (c : Circuit) (lin : Linearize) : Prop where
  circuit : lin.circuit = c
  permutation : lin.permutation.len = c.maxWireNumber + 1
  permutationSet : lin.permutationSet.len = c.maxWireNumber + 1
  luts : lin.circuitLuts.len = c.luts.length

variable {c : Circuit} {lin : Linearize} {w : Nat}

theorem HasTables.addNode (h : HasTables c lin) (n : Node) :
  HasTables c (lin.addNode n)
  := ⟨h.circuit, h.permutation, h.permutationSet, h.luts⟩

theorem HasTables.addMapping (h : HasTables c lin) (hw : w ≤ c.maxWireNumber) (k : Nat) :
  (lin.addMapping w k).Passes .indexOutOfBounds (HasTables c)
  := by
  have hset : w < lin.permutationSet.len := by
    rw [h.permutationSet]
    omega
  have hlt : w < lin.permutation.len := by
    rw [h.permutation]
    omega
  rw [Linearize.addMapping]
  apply (Buffer.passes_read hset).bind
  intro isSet _
  apply (passes_check (by decide) _).bind
  intro _ _
  apply (Buffer.passes_write hlt k).bind
  rintro _ rfl
  apply (Buffer.passes_write hset true).bind
  rintro _ rfl
  exact ⟨h.circuit, h.permutation, h.permutationSet, h.luts⟩

theorem HasTables.getFreshWireNumber (h : HasTables c lin) :
  lin.getFreshWireNumber.Passes .indexOutOfBounds (fun r => HasTables c r.2)
  := by
  rw [Linearize.getFreshWireNumber]
  apply (passes_sub (by decide) _ _).bind
  intro last _
  apply (passes_check (by decide) _).bind
  intro _ _
  apply (passes_add (by decide) _ _).bind
  intro next _
  exact ⟨h.circuit, h.permutation, h.permutationSet, h.luts⟩

theorem HasTables.getMapping (h : HasTables c lin) (hw : w ≤ c.maxWireNumber) :
  (lin.getMapping w).Passes .indexOutOfBounds (fun r => HasTables c r.2)
  := by
  have hset : w < lin.permutationSet.len := by
    rw [h.permutationSet]
    omega
  have hensure : (lin.ensureMapping w).Passes .indexOutOfBounds (HasTables c) := by
    rw [ensureMapping]
    apply (Buffer.passes_read hset).bind
    intro isSet _
    split
    · apply h
    · apply h.getFreshWireNumber.bind
      intro r hr
      apply hr.addMapping hw
  rw [Linearize.getMapping]
  apply hensure.bind
  intro lin' h'
  have hlt : w < lin'.permutation.len := by
    rw [h'.permutation]
    omega
  apply (Buffer.passes_read hlt).bind
  intro k _
  apply h'

/-! ### Inputs and outputs -/

theorem HasTables.processInputs (h : HasTables c lin) (hc : c.InRange) :
  lin.processInputs.Passes .indexOutOfBounds (HasTables c)
  := by
  rw [Linearize.processInputs, h.circuit]
  have hloop :
      (c.inputs.zipIdx.foldlM processInput lin).Passes .indexOutOfBounds (HasTables c) := by
    apply Passes.foldlM _ h
    intro p hp lin' h'
    have hw : p.1 ≤ c.maxWireNumber :=
      hc.wires p.1 (Circuit.mem_mentioned_of_input (List.fst_mem_of_mem_zipIdx hp))
    have h'' : HasTables c { lin' with circuitInputs := lin'.circuitInputs ++ [p.2] } :=
      ⟨h'.circuit, h'.permutation, h'.permutationSet, h'.luts⟩
    apply h''.addMapping hw
  apply hloop.bind
  intro lin' h'
  exact ⟨h'.circuit, h'.permutation, h'.permutationSet, h'.luts⟩

theorem passes_outputSlot (lin : Linearize) (i : Nat) :
  (lin.outputSlot i).Passes .indexOutOfBounds (fun _ => True)
  := by
  rw [outputSlot]
  apply (passes_sub (by decide) _ _).bind
  intro first _
  apply (passes_add (by decide) _ _).bind
  intro slot _
  apply (passes_add (by decide) _ _).mono
  intro _ _
  trivial

theorem HasTables.processOutputsBegin (h : HasTables c lin) (hc : c.InRange) :
  lin.processOutputsBegin.Passes .indexOutOfBounds (HasTables c)
  := by
  rw [Linearize.processOutputsBegin, h.circuit]
  apply Passes.foldlM _ h
  intro p hp lin' h'
  rw [processOutputBegin]
  apply (passes_outputSlot lin' p.2).bind
  intro slot _
  split
  · apply h'
  · split
    · apply h'
    · apply h'.addMapping
      apply hc.wires p.1 (Circuit.mem_mentioned_of_output (List.fst_mem_of_mem_zipIdx hp))

theorem HasTables.addCopyNode (h : HasTables c lin) (inputWire outputWire : Nat) :
  (lin.addCopyNode inputWire outputWire).Passes .indexOutOfBounds (HasTables c)
  := by
  rw [Linearize.addCopyNode]
  apply h.getFreshWireNumber.bind
  intro r hr
  apply (hr.addNode _).addNode

/-- Copying a wire of a list of wires in range, before the rest of a turn. -/
theorem HasTables.copy (h : HasTables c lin) {ws : List Nat} (hws : ∀ w ∈ ws, w ≤ c.maxWireNumber)
    {i : Nat} (hi : i < ws.length) (outputWire : Nat) {rest : Linearize → Outcome Error Linearize}
    (hrest : ∀ lin, HasTables c lin → (rest lin).Passes .indexOutOfBounds (HasTables c)) :
  (index ws i >>= fun inputWire => lin.getMapping inputWire >>= fun r =>
    r.2.addCopyNode r.1 outputWire >>= rest).Passes .indexOutOfBounds (HasTables c)
  := by
  apply (passes_index hi).bind
  intro inputWire hmem
  apply (h.getMapping (hws inputWire hmem)).bind
  intro r hr
  apply (hr.addCopyNode _ _).bind hrest

theorem HasTables.processOutputsEnd (h : HasTables c lin) (hc : c.InRange) :
  lin.processOutputsEnd.Passes .indexOutOfBounds (HasTables c)
  := by
  have hinputs : ∀ w ∈ c.inputs, w ≤ c.maxWireNumber :=
    fun w hw => hc.wires w (Circuit.mem_mentioned_of_input hw)
  have houtputs : ∀ w ∈ c.outputs, w ≤ c.maxWireNumber :=
    fun w hw => hc.wires w (Circuit.mem_mentioned_of_output hw)
  rw [Linearize.processOutputsEnd, h.circuit]
  apply Passes.foldlM _ h
  intro p hp lin' h'
  rw [processOutputEnd, h'.circuit]
  apply (passes_outputSlot lin' p.2).bind
  intro slot _
  have hlast : ∀ lin, HasTables c lin →
      (pure { lin with circuitOutputs := lin.circuitOutputs ++ [slot] } :
        Outcome Error Linearize).Passes .indexOutOfBounds (HasTables c) :=
    fun lin h => ⟨h.circuit, h.permutation, h.permutationSet, h.luts⟩
  split
  case h_1 i _ heq =>
    apply h'.copy hinputs (List.findIdx?_eq_some_iff_getElem.mp heq).1 slot hlast
  case h_2 i _ heq =>
    have hi := (List.findIdx?_eq_some_iff_getElem.mp heq).1
    rw [List.length_take] at hi
    apply h'.copy houtputs (by omega) slot hlast
  case h_3 => apply hlast lin' h'

/-! ### Gates -/

theorem HasTables.processConstant (h : HasTables c lin) (hc : c.InRange) (hinputs : c.inputs ≠ [])
    (op : Nat → Nat → Nat → Node) (hw : w ≤ c.maxWireNumber) :
  (lin.processConstant op w).Passes .indexOutOfBounds (HasTables c)
  := by
  have hpos : 0 < c.inputs.length := List.length_pos_iff.mpr hinputs
  have hfirst : ∀ x ∈ c.inputs, x ≤ c.maxWireNumber :=
    fun x hx => hc.wires x (Circuit.mem_mentioned_of_input hx)
  rw [Linearize.processConstant]
  apply h.getFreshWireNumber.bind
  rintro ⟨tmpWire, lin₁⟩ h₁
  apply (h₁.getMapping hw).bind
  rintro ⟨outputWire, lin₂⟩ h₂
  have hcircuit₂ : lin₂.circuit = c := h₂.circuit
  dsimp only
  rw [hcircuit₂]
  apply (passes_index hpos).bind
  intro x hx
  apply (h₂.getMapping (hfirst x hx)).bind
  rintro ⟨input, lin₃⟩ h₃
  have h₄ : HasTables c (lin₃.addNode (.inv input tmpWire)) := h₃.addNode _
  dsimp only
  rw [h₄.circuit]
  apply (passes_index hpos).bind
  intro x' hx'
  apply (h₄.getMapping (hfirst x' hx')).bind
  rintro ⟨inputA, lin₅⟩ h₅
  apply h₅.addNode

theorem HasTables.processLut (h : HasTables c lin) {offset tableOffset arity output : Nat}
    (hslice : offset + arity ≤ c.luts.length)
    (hws : ∀ w ∈ (c.luts.drop offset).take arity, w ≤ c.maxWireNumber)
    (houtput : output ≤ c.maxWireNumber) :
  (lin.processLut offset tableOffset arity output).Passes .indexOutOfBounds (HasTables c)
  := by
  rw [Linearize.processLut, h.circuit]
  apply (passes_slice hslice).bind
  rintro _ rfl
  have hloop : ((((c.luts.drop offset).take arity).zipIdx offset).foldlM processLutInput lin).Passes
      .indexOutOfBounds (HasTables c) := by
    apply Passes.foldlM _ h
    intro p hp lin' h'
    rw [processLutInput]
    apply (h'.getMapping (hws p.1 (List.fst_mem_of_mem_zipIdx hp))).bind
    intro r hr
    have hlt : p.2 < r.2.circuitLuts.len := by
      have hlast := List.snd_lt_add_of_mem_zipIdx hp
      rw [List.length_take, List.length_drop] at hlast
      rw [hr.luts]
      omega
    apply (Buffer.passes_write hlt r.1).bind
    rintro _ rfl
    exact ⟨hr.circuit, hr.permutation, hr.permutationSet, hr.luts⟩
  apply hloop.bind
  intro lin' h'
  apply (h'.getMapping houtput).bind
  intro r hr
  apply hr.addNode

theorem HasTables.processGate (h : HasTables c lin) (hc : c.InRange) {n : Node} (hn : n ∈ c.nodes)
    (hinputs : n.isConstant = true → c.inputs ≠ []) :
  (lin.processGate n).Passes .indexOutOfBounds (HasTables c)
  := by
  have hwires : ∀ w ∈ n.wires c.luts, w ≤ c.maxWireNumber :=
    fun w hw => hc.wires w (Circuit.mem_mentioned_of_node hn hw)
  cases n with
  | zero output =>
      apply h.processConstant hc (hinputs rfl)
      apply hwires output
      simp [Node.wires, Node.reads, Node.output]
  | one output =>
      apply h.processConstant hc (hinputs rfl)
      apply hwires output
      simp [Node.wires, Node.reads, Node.output]
  | inv input output =>
      simp only [Node.wires, Node.reads, Node.output, List.cons_append, List.nil_append,
        List.forall_mem_cons] at hwires
      apply (h.getMapping hwires.1).bind
      intro r hr
      apply (hr.getMapping hwires.2.1).bind
      intro r' hr'
      apply hr'.addNode
  | and inputA inputB output =>
      simp only [Node.wires, Node.reads, Node.output, List.cons_append, List.nil_append,
        List.forall_mem_cons] at hwires
      apply (h.getMapping hwires.1).bind
      intro r hr
      apply (hr.getMapping hwires.2.1).bind
      intro r' hr'
      apply (hr'.getMapping hwires.2.2.1).bind
      intro r'' hr''
      apply hr''.addNode
  | xor inputA inputB output =>
      simp only [Node.wires, Node.reads, Node.output, List.cons_append, List.nil_append,
        List.forall_mem_cons] at hwires
      apply (h.getMapping hwires.1).bind
      intro r hr
      apply (hr.getMapping hwires.2.1).bind
      intro r' hr'
      apply (hr'.getMapping hwires.2.2.1).bind
      intro r'' hr''
      apply hr''.addNode
  | and3 inputA inputB inputC output =>
      simp only [Node.wires, Node.reads, Node.output, List.cons_append, List.nil_append,
        List.forall_mem_cons] at hwires
      apply (h.getMapping hwires.1).bind
      intro r hr
      apply (hr.getMapping hwires.2.1).bind
      intro r' hr'
      apply (hr'.getMapping hwires.2.2.1).bind
      intro r'' hr''
      apply (hr''.getMapping hwires.2.2.2.1).bind
      intro r₃ hr₃
      apply hr₃.addNode
  | and4 inputA inputB inputC inputD output =>
      simp only [Node.wires, Node.reads, Node.output, List.cons_append, List.nil_append,
        List.forall_mem_cons] at hwires
      apply (h.getMapping hwires.1).bind
      intro r hr
      apply (hr.getMapping hwires.2.1).bind
      intro r' hr'
      apply (hr'.getMapping hwires.2.2.1).bind
      intro r'' hr''
      apply (hr''.getMapping hwires.2.2.2.1).bind
      intro r₃ hr₃
      apply (hr₃.getMapping hwires.2.2.2.2.1).bind
      intro r₄ hr₄
      apply hr₄.addNode
  | lut offset tableOffset arity output =>
      have hslice : offset + arity ≤ c.luts.length := (hc.luts _ hn).1
      simp only [Node.wires, Node.reads, Node.output, List.forall_mem_append,
        List.forall_mem_singleton] at hwires
      apply h.processLut hslice hwires.1 hwires.2

/-- In a circuit in range, the pass does not access its tables out of bounds, if there is an input
for the constants. -/
theorem run_ne_indexOutOfBounds (memory : Memory) (hc : c.InRange)
    (hinputs : ∀ n ∈ c.nodes, n.isConstant = true → c.inputs ≠ []) :
  run memory c ≠ .panic .indexOutOfBounds
  := by
  have hinit : HasTables c (init memory c) := ⟨rfl, rfl, rfl, rfl⟩
  have hrun : (run memory c).Passes .indexOutOfBounds (fun _ => True) := by
    rw [run]
    apply (passes_check (by decide) _).bind
    intro _ _
    apply (passes_check (by decide) _).bind
    intro _ _
    apply (hinit.processInputs hc).bind
    intro lin₁ h₁
    apply (h₁.processOutputsBegin hc).bind
    intro lin₂ h₂
    have hgates : lin₂.processGates.Passes .indexOutOfBounds (HasTables c) := by
      rw [processGates, h₂.circuit]
      apply Passes.foldlM _ h₂
      intro n hn lin h
      apply h.processGate hc hn (hinputs n hn)
    apply hgates.bind
    intro lin₃ h₃
    apply (h₃.processOutputsEnd hc).bind
    intro lin₄ _
    trivial
  apply hrun.ne_panic

end Linearize

end SynCirc

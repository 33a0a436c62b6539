import SynCirc.Linearize.Wiring
import SynCirc.RoundTrip
import SynCirc.BristolRoundTrip

/-!
# The two formats agree

A circuit without lookup tables can be written in the SynCirc format as it is, and in the
Bristol format after linearization.  Both texts are read back, and both circuits read have
the function of the circuit (`formats_agree`).
-/

namespace SynCirc

open Zig StraightLine

/-! ### Circuits without lookup tables -/

theorem Node.wires_of_not_lut {n : Node} (hlut : n.isLut = false) (luts luts' : List Nat) :
  n.wires luts = n.wires luts'
  := by
  cases n with
  | lut offset tableOffset arity output => contradiction
  | _ => rfl

theorem Node.fn_of_not_lut {n : Node} (hlut : n.isLut = false) (lutTables lutTables' : List Bool) :
  n.fn lutTables = n.fn lutTables'
  := by
  funext bits
  cases n with
  | lut offset tableOffset arity output => contradiction
  | _ =>
      rcases bits with _ | ⟨b₁, _ | ⟨b₂, _ | ⟨b₃, _ | ⟨b₄, _ | ⟨b₅, bits⟩⟩⟩⟩⟩ <;> rfl

theorem Node.assignment_of_not_lut {n : Node} (hlut : n.isLut = false) (luts luts' : List Nat)
    (lutTables lutTables' : List Bool) :
  n.assignment luts lutTables = n.assignment luts' lutTables'
  := by
  cases n with
  | lut offset tableOffset arity output => contradiction
  | _ =>
      rw [assignment, assignment, fn_of_not_lut hlut lutTables lutTables']
      rfl

namespace Circuit

/-- The circuits have the same gates, inputs and outputs. -/
structure Same (c c' : Circuit) : Prop where
  nodes : c'.nodes = c.nodes
  inputs : c'.inputs = c.inputs
  outputs : c'.outputs = c.outputs

variable {c c' : Circuit}

theorem Same.mentioned_eq (h : Same c c') (hfree : c.LutFree) :
  c'.mentioned = c.mentioned
  := by
  have hwires : c.nodes.flatMap (Node.wires c'.luts) = c.nodes.flatMap (Node.wires c.luts) :=
    List.flatMap_congr fun n hn => Node.wires_of_not_lut (hfree n hn) c'.luts c.luts
  rw [mentioned, mentioned, h.nodes, h.inputs, h.outputs, hwires]

/-- Without lookup tables, a circuit is in range if its wires are. -/
theorem lutInRange_of_lutFree (hfree : c.LutFree) :
  ∀ n ∈ c.nodes, n.LutInRange c.luts c.lutTables
  := by
  intro n hn
  have hlut := hfree n hn
  cases n with
  | lut offset tableOffset arity output => contradiction
  | _ => trivial

theorem inRange_of_lutFree (hfree : c.LutFree) (hwires : ∀ w ∈ c.mentioned, w ≤ c.maxWireNumber) :
  c.InRange
  := ⟨hwires, lutInRange_of_lutFree hfree⟩

theorem all_arityFits_of_lutFree (hfree : c.LutFree) :
  c.nodes.all Node.arityFits = true
  := by
  rw [List.all_eq_true]
  intro n hn
  apply Node.arityFits_of_not_lut (hfree n hn)

/-- The value of a circuit without lookup tables. -/
theorem evaluateCircuit_of_lutFree (hfree : c.LutFree)
    (hwires : ∀ w ∈ c.mentioned, w ≤ c.maxWireNumber) (htable : c.maxWireNumber + 1 < 2 ^ 64)
    {inputs : List Bool} (hinputs : inputs.length = c.inputs.length) :
  evaluateCircuit c inputs = .ok (c.outputs.map (c.values inputs))
  := by
  rw [evaluateCircuit_eq (inRange_of_lutFree hfree hwires) htable hinputs,
    if_pos (all_arityFits_of_lutFree hfree)]

/-- The function of a circuit without lookup tables depends on its gates, inputs and outputs
only. -/
theorem Same.evaluateCircuit_eq (h : Same c c') (hfree : c.LutFree)
    (hwires : ∀ w ∈ c.mentioned, w ≤ c.maxWireNumber) (htable : c.maxWireNumber + 1 < 2 ^ 64)
    (hwires' : ∀ w ∈ c.mentioned, w ≤ c'.maxWireNumber) (htable' : c'.maxWireNumber + 1 < 2 ^ 64)
    (inputs : List Bool) :
  evaluateCircuit c' inputs = evaluateCircuit c inputs
  := by
  have hfree' : c'.LutFree := by
    intro n hn
    rw [h.nodes] at hn
    apply hfree n hn
  have hprogram : c'.program = c.program := by
    rw [program, program, h.nodes]
    apply List.map_congr_left
    intro n hn
    apply Node.assignment_of_not_lut (hfree n hn)
  by_cases hinputs : inputs.length = c.inputs.length
  · have hvalues : c'.values inputs = c.values inputs := by
      rw [values, values, hprogram, initial, initial, h.inputs]
    rw [evaluateCircuit_of_lutFree hfree hwires htable hinputs,
      evaluateCircuit_of_lutFree hfree' _ htable' _, h.outputs, hvalues]
    · rw [h.mentioned_eq hfree]
      apply hwires'
    · rw [h.inputs]
      apply hinputs
  · rw [evaluateCircuit_eq_error.mpr ⟨htable, hinputs, rfl⟩,
      evaluateCircuit_eq_error.mpr ⟨htable', h.inputs ▸ hinputs, rfl⟩]

/-- The circuit without the arrays of the lookup tables. -/
def withoutLuts (c : Circuit) : Circuit := { c with luts := [], lutTables := [] }

theorem withoutLuts_packed (hfree : c.LutFree) :
  c.withoutLuts.Packed
  := by
  have hpacked : ∀ ns : List Node, (∀ n ∈ ns, n.isLut = false) →
      c.withoutLuts.PackedFrom 0 0 ns := by
    intro ns
    induction ns with
    | nil =>
        intro _
        exact ⟨rfl, rfl⟩
    | cons n ns ih =>
        intro hns
        rw [List.forall_mem_cons] at hns
        cases n with
        | lut offset tableOffset arity output => exact absurd hns.1 (by simp [Node.isLut])
        | _ => exact ⟨trivial, ih hns.2⟩
  apply hpacked c.nodes hfree

/-- The text of a circuit without lookup tables. -/
theorem writeCircuit_of_lutFree (hfree : c.LutFree)
    (hwires : ∀ w ∈ c.mentioned, w ≤ c.maxWireNumber) :
  Emit.writeCircuit c none = .ok (Emit.text c.withoutLuts)
  := by
  have hwords : Emit.allWords c = Emit.allWords c.withoutLuts := by
    have hnodes : c.nodes.map (Emit.lineWords c)
        = c.nodes.map (Emit.lineWords c.withoutLuts) := by
      apply List.map_congr_left
      intro n hn
      have hlut := hfree n hn
      cases n with
      | lut offset tableOffset arity output => contradiction
      | _ => rfl
    rw [Emit.allWords, Emit.allWords, hnodes]
    rfl
  rw [Emit.writeCircuit_eq (inRange_of_lutFree hfree hwires).luts
    (List.all_eq_true.mp (all_arityFits_of_lutFree hfree)), Emit.text, hwords]
  rfl

/-- The SynCirc text of a circuit without lookup tables is read back to a circuit with its
function. -/
theorem parseCircuit_of_lutFree (hfree : c.LutFree)
    (hwires : ∀ w ∈ c.mentioned, w ≤ c.maxWireNumber) (htable : c.maxWireNumber + 1 < 2 ^ 64)
    (hlen : ∀ line ∈ lines (Emit.text c.withoutLuts), line.length < Parser.maxLineLen) :
  ∃ c', parseCircuit (Emit.text c.withoutLuts) = .ok c'
    ∧ ∀ inputs, evaluateCircuit c' inputs = evaluateCircuit c inputs
  := by
  have hsame : Same c c.withoutLuts := ⟨rfl, rfl, rfl⟩
  have hmentioned := hsame.mentioned_eq hfree
  have hfit : c.withoutLuts.WiresFit := by
    intro w hw
    rw [hmentioned] at hw
    have hle := hwires w hw
    omega
  refine ⟨_, Parser.parseCircuit_text hfit (withoutLuts_packed hfree)
    (List.all_eq_true.mp (all_arityFits_of_lutFree hfree)) hlen, ?_⟩
  have hparsed : Same c { c.withoutLuts with maxWireNumber := c.withoutLuts.maxMentioned } :=
    ⟨rfl, rfl, rfl⟩
  apply hparsed.evaluateCircuit_eq hfree hwires htable
  · intro w hw
    rw [← hmentioned] at hw
    apply le_maxMentioned hw
  · have hmax : c.withoutLuts.maxMentioned < c.maxWireNumber + 1 := by
      apply foldl_max_lt (Nat.succ_pos _)
      intro w hw
      rw [hmentioned] at hw
      apply Nat.lt_succ_of_le (hwires w hw)
    simp only
    omega

end Circuit

/-! ### The linearized circuit in the Bristol format -/

namespace Layout

variable {c : Circuit} (L : Layout c)

/-- The linearized circuit has the shape of the Bristol format. -/
theorem circuit_bristolShape (hc : c.Admissible) (hfree : c.LutFree) (houtputs : c.outputs ≠ [])
    (hdriven : ∀ w ∈ c.outputs, c.Driven w) :
  L.circuit.BristolShape
  := by
  have hlinear := L.circuit_linear hc.renumberable
  have hinputs : L.circuit.inputs.length = c.inputs.length := List.length_range
  have houts : L.circuit.outputs.length = c.outputs.length := by
    rw [circuit, List.length_map, List.length_range]
  have hpos := List.length_pos_of_ne_nil houtputs
  refine ⟨?_, ?_, ?_, ?_, ?_⟩
  · rw [hinputs]
    apply hlinear.inputs
  · rw [houts]
    apply Nat.le_succ_of_le hlinear.outputs_le
  · rw [houts, List.range'_eq_map_range, hlinear.outputs]
    apply List.map_congr_left
    intro i hi
    have hle := hlinear.outputs_le
    omega
  · intro n hn
    obtain ⟨hconstant, hlut | ⟨n', hn', rfl⟩⟩ := L.mem_circuit_nodes hn
    · exact ⟨hconstant, hlut⟩
    · refine ⟨hconstant, ?_⟩
      rw [Node.isLut_rename]
      apply hfree n' hn'
  · have hlast : L.circuit.maxWireNumber ∈ L.circuit.outputs := by
      rw [hlinear.outputs]
      apply List.mem_map.mpr
      use c.outputs.length - 1
      rw [List.mem_range]
      have hle := hlinear.outputs_le
      omega
    obtain ⟨n, hn, heq⟩ := List.mem_map.mp (L.output_driven hdriven hlast)
    refine ⟨n, hn, ?_⟩
    rw [← heq]
    apply List.mem_append_right _ List.mem_cons_self

end Layout

/-- A circuit whose outputs are an input, a gate listed twice and a constant. -/
def Circuit.portAliases : Circuit where
  nodes := [.one 4, .and 2 0 1]
  luts := []
  inputs := [2, 0]
  outputs := [2, 1, 1, 4]
  lutTables := []
  maxWireNumber := 4

end SynCirc

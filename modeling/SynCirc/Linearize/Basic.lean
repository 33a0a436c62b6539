import SynCirc.Zig.Outcome
import SynCirc.Circuit

/-!
# The linearization pass

`Linearize.run` renumbers the wires of a circuit: the inputs come first, the outputs last,
and every other wire gets the next free number when it is first met.  The renumbering is
the partial map `permutation`, defined where `permutationSet` holds.  A constant gate
becomes two gates over the first input and a temporary wire.  An output that is an input,
or that is listed among the outputs before, gets a copy made of two inverters and a
temporary wire.

The parameter `memory` is what freshly allocated memory holds.  The source resizes
`circuit_inputs` and `circuit_outputs` to their final length and fills them in order; here
they are appended to.

The numbers are kept in 64 bits.  The source adds the extra wires to `circuit_max_wire_number`
one after the other; the sums only grow, so they all fit if the last one does.
-/

namespace SynCirc

open Zig

namespace Linearize

/-- The errors of the pass. -/
inductive Error where
  | passFail
  deriving DecidableEq, Repr

/-- What the memory allocated for the permutation and for the lookup table inputs holds. -/
structure Memory where
  permutation : Nat → Nat
  luts : Nat → Nat

/-- Memory that holds `k` everywhere. -/
def Memory.filled (k : Nat) : Memory := ⟨fun _ => k, fun _ => k⟩

end Linearize

/-- The state of the pass. -/
structure Linearize where
  circuit : Circuit
  circuitNodes : List Node
  circuitLuts : Buffer Nat
  circuitInputs : List Nat
  circuitOutputs : List Nat
  circuitLutTables : List Bool
  circuitMaxWireNumber : Nat
  permutation : Buffer Nat
  permutationSet : Buffer Bool
  nextFreeWireNumber : Nat

namespace Linearize

variable (lin : Linearize)

def addNode (node : Node) : Linearize :=
  { lin with circuitNodes := lin.circuitNodes ++ [node] }

def addMapping (oldWireNumber newWireNumber : Nat) : Outcome Error Linearize := do
  let isSet ← lin.permutationSet.read oldWireNumber
  check .assertionFailure (isSet = false)
  let permutation ← lin.permutation.write oldWireNumber newWireNumber
  let permutationSet ← lin.permutationSet.write oldWireNumber true
  return { lin with permutation := permutation, permutationSet := permutationSet }

def getFreshWireNumber : Outcome Error (Nat × Linearize) := do
  let last ← sub lin.circuitMaxWireNumber lin.circuit.outputs.length
  check .assertionFailure (lin.nextFreeWireNumber ≤ last)
  let next ← add lin.nextFreeWireNumber 1
  return (lin.nextFreeWireNumber, { lin with nextFreeWireNumber := next })

/-- Give the wire a fresh number if it has none yet. -/
def ensureMapping (oldWireNumber : Nat) : Outcome Error Linearize := do
  let isSet ← lin.permutationSet.read oldWireNumber
  if isSet then return lin else
  let (newWireNumber, lin) ← lin.getFreshWireNumber
  lin.addMapping oldWireNumber newWireNumber

def getMapping (oldWireNumber : Nat) : Outcome Error (Nat × Linearize) := do
  let lin ← lin.ensureMapping oldWireNumber
  let newWireNumber ← lin.permutation.read oldWireNumber
  return (newWireNumber, lin)

/-- One input wire of `processInputs`. -/
def processInput (p : Nat × Nat) : Outcome Error Linearize :=
  { lin with circuitInputs := lin.circuitInputs ++ [p.2] }.addMapping p.1 p.2

def processInputs : Outcome Error Linearize := do
  let lin ← lin.circuit.inputs.zipIdx.foldlM processInput lin
  return { lin with nextFreeWireNumber := lin.circuit.inputs.length }

/-- The new number of the output at position `i`. -/
def outputSlot (i : Nat) : Outcome Error Nat := do
  let first ← sub lin.circuitMaxWireNumber lin.circuit.outputs.length
  let slot ← add first i
  add slot 1

/-- One output wire of `processOutputsBegin`. -/
def processOutputBegin (p : Nat × Nat) : Outcome Error Linearize := do
  let newWireNumber ← lin.outputSlot p.2
  if p.1 ∈ lin.circuit.inputs then return lin else
  if p.1 ∈ lin.circuit.outputs.take p.2 then return lin else
  lin.addMapping p.1 newWireNumber

def processOutputsBegin : Outcome Error Linearize :=
  lin.circuit.outputs.zipIdx.foldlM processOutputBegin lin

def addCopyNode (inputWire outputWire : Nat) : Outcome Error Linearize := do
  let (tmpWire, lin) ← lin.getFreshWireNumber
  return (lin.addNode (.inv inputWire tmpWire)).addNode (.inv tmpWire outputWire)

/-- One output wire of `processOutputsEnd`. -/
def processOutputEnd (p : Nat × Nat) : Outcome Error Linearize := do
  let newWireNumber ← lin.outputSlot p.2
  let lin ←
    match lin.circuit.inputs.idxOf? p.1, (lin.circuit.outputs.take p.2).idxOf? p.1 with
    | some i, _ => do
        let inputWire ← index lin.circuit.inputs i
        let (inputWire, lin) ← lin.getMapping inputWire
        lin.addCopyNode inputWire newWireNumber
    | none, some i => do
        let inputWire ← index lin.circuit.outputs i
        let (inputWire, lin) ← lin.getMapping inputWire
        lin.addCopyNode inputWire newWireNumber
    | none, none => pure lin
  return { lin with circuitOutputs := lin.circuitOutputs ++ [newWireNumber] }

def processOutputsEnd : Outcome Error Linearize :=
  lin.circuit.outputs.zipIdx.foldlM processOutputEnd lin

/-- A constant gate: `0 = x AND (NOT x)` and `1 = x XOR (NOT x)`, for the gate `op`. -/
def processConstant (op : Nat → Nat → Nat → Node) (output : Nat) :
    Outcome Error Linearize := do
  let (tmpWire, lin) ← lin.getFreshWireNumber
  let (outputWire, lin) ← lin.getMapping output
  let x ← index lin.circuit.inputs 0
  let (input, lin) ← lin.getMapping x
  let lin := lin.addNode (.inv input tmpWire)
  let x ← index lin.circuit.inputs 0
  let (inputA, lin) ← lin.getMapping x
  return lin.addNode (op inputA tmpWire outputWire)

/-- One input wire of a lookup table, at the position `p.2` of `luts`. -/
def processLutInput (p : Nat × Nat) : Outcome Error Linearize := do
  let (input, lin) ← lin.getMapping p.1
  let circuitLuts ← lin.circuitLuts.write p.2 input
  return { lin with circuitLuts := circuitLuts }

def processLut (offset tableOffset arity output : Nat) : Outcome Error Linearize := do
  let inputs ← slice lin.circuit.luts offset arity
  let lin ← (inputs.zipIdx offset).foldlM processLutInput lin
  let (output, lin) ← lin.getMapping output
  return lin.addNode (.lut offset tableOffset arity output)

/-- One gate of `processGates`. -/
def processGate : Node → Outcome Error Linearize
  | .zero output => lin.processConstant .and output
  | .one output => lin.processConstant .xor output
  | .inv input output => do
      let (input, lin) ← lin.getMapping input
      let (output, lin) ← lin.getMapping output
      return lin.addNode (.inv input output)
  | .and inputA inputB output => do
      let (inputA, lin) ← lin.getMapping inputA
      let (inputB, lin) ← lin.getMapping inputB
      let (output, lin) ← lin.getMapping output
      return lin.addNode (.and inputA inputB output)
  | .xor inputA inputB output => do
      let (inputA, lin) ← lin.getMapping inputA
      let (inputB, lin) ← lin.getMapping inputB
      let (output, lin) ← lin.getMapping output
      return lin.addNode (.xor inputA inputB output)
  | .and3 inputA inputB inputC output => do
      let (inputA, lin) ← lin.getMapping inputA
      let (inputB, lin) ← lin.getMapping inputB
      let (inputC, lin) ← lin.getMapping inputC
      let (output, lin) ← lin.getMapping output
      return lin.addNode (.and3 inputA inputB inputC output)
  | .and4 inputA inputB inputC inputD output => do
      let (inputA, lin) ← lin.getMapping inputA
      let (inputB, lin) ← lin.getMapping inputB
      let (inputC, lin) ← lin.getMapping inputC
      let (inputD, lin) ← lin.getMapping inputD
      let (output, lin) ← lin.getMapping output
      return lin.addNode (.and4 inputA inputB inputC inputD output)
  | .lut offset tableOffset arity output => lin.processLut offset tableOffset arity output

def processGates : Outcome Error Linearize :=
  lin.circuit.nodes.foldlM processGate lin

end Linearize

namespace Circuit

variable (c : Circuit)

/-- The number of constant gates. -/
def constantCount : Nat := c.nodes.countP Node.isConstant

/-- The number of inputs that are outputs. -/
def inputOutputCount : Nat := c.inputs.countP (· ∈ c.outputs)

/-- The number of output positions whose wire is listed among the outputs before. -/
def repeatedOutputCount : Nat :=
  c.outputs.zipIdx.countP (fun p => p.1 ∈ c.outputs.take p.2)

/-- The largest wire number of the linearized circuit: an extra wire for every constant, two
for every input that is an output, and two for every repeated output. -/
def wireBudget : Nat :=
  c.maxWireNumber + c.constantCount + 2 * c.inputOutputCount + 2 * c.repeatedOutputCount

/-- The sums of the pass fit in 64 bits: the length of the permutation, the wire budget, and
the number after the last fresh one. -/
structure BudgetFits : Prop where
  table : c.maxWireNumber + 1 < 2 ^ 64
  budget : c.wireBudget < 2 ^ 64
  counter : c.wireBudget + 1 < 2 ^ 64 + c.outputs.length

/-- The sums of the pass fit if the wires of the linearized circuit can be counted. -/
theorem BudgetFits.of_lt {c : Circuit} (h : c.wireBudget + 1 < 2 ^ 64) :
  c.BudgetFits
  := by
  have hle : c.maxWireNumber ≤ c.wireBudget := by
    rw [wireBudget]
    omega
  exact ⟨by omega, by omega, by omega⟩

end Circuit

namespace Linearize

/-- The state at the beginning of the pass, with the wire budget set up. -/
def init (memory : Memory) (c : Circuit) : Linearize where
  circuit := c
  circuitNodes := []
  circuitLuts := ⟨c.luts.length, memory.luts⟩
  circuitInputs := []
  circuitOutputs := []
  circuitLutTables := c.lutTables
  circuitMaxWireNumber := c.wireBudget
  permutation := ⟨c.maxWireNumber + 1, memory.permutation⟩
  permutationSet := Buffer.filled (c.maxWireNumber + 1) false
  nextFreeWireNumber := 0

def run (memory : Memory) (c : Circuit) : Outcome Error Circuit := do
  check .integerOverflow (c.maxWireNumber + 1 < 2 ^ 64)
  check .integerOverflow (c.wireBudget < 2 ^ 64)
  let lin ← (init memory c).processInputs
  let lin ← lin.processOutputsBegin
  let lin ← lin.processGates
  let lin ← lin.processOutputsEnd
  return {
    nodes := lin.circuitNodes
    luts := lin.circuitLuts.toList
    inputs := lin.circuitInputs
    outputs := lin.circuitOutputs
    lutTables := lin.circuitLutTables
    maxWireNumber := lin.circuitMaxWireNumber }

end Linearize

end SynCirc

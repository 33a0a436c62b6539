import SynCirc.Emit

/-!
# The Bristol format: emission

The header gives the number of gates and of wires on its first line, and the number of input
and output wires on its second line; a blank line follows.  The line of a gate gives the
numbers of its inputs and outputs, the wires and the type.  Constants and lookup tables
cannot be written.
-/

namespace SynCirc

open Zig

namespace EmitBristol

open Emit (printLine)

inductive Error where
  | unsupportedNodeType
  deriving DecidableEq, Repr

variable (c : Circuit)

/-- The number of wires is computed in 64 bits. -/
def emitHeader : Outcome Error (List UInt8) := do
  check .integerOverflow (c.maxWireNumber + 1 < 2 ^ 64)
  return printLine [formatInt c.nodes.length, formatInt (c.maxWireNumber + 1)]
    ++ printLine [formatInt c.inputs.length, formatInt c.outputs.length] ++ printLine []

def emitOneInput (type : String) (input output : Nat) : List UInt8 :=
  printLine [bytes "1", bytes "1", formatInt input, formatInt output, bytes type]

def emitTwoInput (type : String) (inputA inputB output : Nat) : List UInt8 :=
  printLine [bytes "2", bytes "1", formatInt inputA, formatInt inputB, formatInt output,
    bytes type]

def emitThreeInput (type : String) (inputA inputB inputC output : Nat) : List UInt8 :=
  printLine [bytes "3", bytes "1", formatInt inputA, formatInt inputB, formatInt inputC,
    formatInt output, bytes type]

def emitFourInput (type : String) (inputA inputB inputC inputD output : Nat) : List UInt8 :=
  printLine [bytes "4", bytes "1", formatInt inputA, formatInt inputB, formatInt inputC,
    formatInt inputD, formatInt output, bytes type]

/-- The line of a gate. -/
def emitNode : Node → Outcome Error (List UInt8)
  | .zero _ => .error .unsupportedNodeType
  | .one _ => .error .unsupportedNodeType
  | .inv input output => return emitOneInput "INV" input output
  | .and inputA inputB output => return emitTwoInput "AND" inputA inputB output
  | .xor inputA inputB output => return emitTwoInput "XOR" inputA inputB output
  | .and3 inputA inputB inputC output =>
      return emitThreeInput "AND3" inputA inputB inputC output
  | .and4 inputA inputB inputC inputD output =>
      return emitFourInput "AND4" inputA inputB inputC inputD output
  | .lut _ _ _ _ => .error .unsupportedNodeType

/-- The line of the gate at the position `p.2`, or nothing if the gate is dead. -/
def emitNodeUnlessDead (deadNodes : Option (Buffer Bool)) (p : Node × Nat) :
    Outcome Error (List UInt8) := do
  match deadNodes with
  | some deadNodes =>
      let isDead ← deadNodes.read p.2
      if isDead then return [] else emitNode p.1
  | none => emitNode p.1

/-- The bytes written for a circuit. -/
def writeCircuit (deadNodes : Option (Buffer Bool)) : Outcome Error (List UInt8) := do
  let header ← emitHeader c
  let nodes ← c.nodes.zipIdx.mapM (emitNodeUnlessDead deadNodes)
  return header ++ nodes.flatten

end EmitBristol

end SynCirc

import SynCirc.Zig.Text
import SynCirc.Circuit

/-!
# The SynCirc text format: emission

A circuit is written as a line `C` with its inputs, a line for every gate, and a line `O`
with its outputs.  The lines of inputs and outputs are left out when there are none.  The
line of a lookup table has its input wires, its output wire and the bits of its truth table,
with no blanks between the bits.  A gate that is marked in `deadNodes` is left out.

The emission has no errors of its own.
-/

namespace SynCirc

open Zig

namespace Emit

variable (c : Circuit)

/-- Print words separated by blanks, and a line break. -/
def printLine (ts : List (List UInt8)) : List UInt8 := words ts ++ [newline]

def emitInputs : List UInt8 :=
  if 0 < c.inputs.length then printLine (bytes "C" :: c.inputs.map formatInt) else []

def emitOutputs : List UInt8 :=
  if 0 < c.outputs.length then printLine (bytes "O" :: c.outputs.map formatInt) else []

def emitConstant (mark : String) (output : Nat) : List UInt8 :=
  printLine [bytes mark, formatInt output]

def emitOneInput (mark : String) (input output : Nat) : List UInt8 :=
  printLine [bytes mark, formatInt input, formatInt output]

def emitTwoInput (mark : String) (inputA inputB output : Nat) : List UInt8 :=
  printLine [bytes mark, formatInt inputA, formatInt inputB, formatInt output]

def emitThreeInput (mark : String) (inputA inputB inputC output : Nat) : List UInt8 :=
  printLine [bytes mark, formatInt inputA, formatInt inputB, formatInt inputC,
    formatInt output]

def emitFourInput (mark : String) (inputA inputB inputC inputD output : Nat) : List UInt8 :=
  printLine [bytes mark, formatInt inputA, formatInt inputB, formatInt inputC,
    formatInt inputD, formatInt output]

/-- The printed bits of a truth table. -/
def formatTable (table : List Bool) : List UInt8 :=
  table.flatMap (fun bit => formatInt bit.toNat)

def emitLut (mark : String) (offset tableOffset arity output : Nat) :
    Outcome Empty (List UInt8) := do
  let inputs ← slice c.luts offset arity
  check .castOutOfRange (arity < 64)
  let table ← slice c.lutTables tableOffset (1 <<< arity)
  return bytes mark ++ inputs.flatMap (fun input => blank :: formatInt input)
    ++ [blank] ++ formatInt output ++ [blank] ++ formatTable table ++ [newline]

/-- The line of a gate. -/
def emitNode : Node → Outcome Empty (List UInt8)
  | .zero output => return emitConstant "0" output
  | .one output => return emitConstant "1" output
  | .inv input output => return emitOneInput "I" input output
  | .and inputA inputB output => return emitTwoInput "A" inputA inputB output
  | .xor inputA inputB output => return emitTwoInput "E" inputA inputB output
  | .and3 inputA inputB inputC output => return emitThreeInput "3" inputA inputB inputC output
  | .and4 inputA inputB inputC inputD output =>
      return emitFourInput "4" inputA inputB inputC inputD output
  | .lut offset tableOffset arity output => emitLut c "L" offset tableOffset arity output

/-- The line of the gate at the position `p.2`, or nothing if the gate is dead. -/
def emitNodeUnlessDead (deadNodes : Option (Buffer Bool)) (p : Node × Nat) :
    Outcome Empty (List UInt8) := do
  match deadNodes with
  | some deadNodes =>
      let isDead ← deadNodes.read p.2
      if isDead then return [] else emitNode c p.1
  | none => emitNode c p.1

/-- The bytes written for a circuit. -/
def writeCircuit (deadNodes : Option (Buffer Bool)) : Outcome Empty (List UInt8) := do
  let nodes ← c.nodes.zipIdx.mapM (emitNodeUnlessDead c deadNodes)
  return emitInputs c ++ nodes.flatten ++ emitOutputs c

end Emit

end SynCirc

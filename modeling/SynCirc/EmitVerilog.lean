import SynCirc.Zig.Text
import SynCirc.Circuit

/-!
# The Verilog format

A circuit is written as a Verilog module: its ports, a declaration for every input wire and
every wire a gate drives, an assignment for every input, one for every gate, and one for every
output.  The statements are values of the types `Statement` and `Expr`, and `render` gives
their text.
-/

namespace SynCirc

open Zig

namespace EmitVerilog

inductive Error where
  | unsupportedNodeType
  deriving DecidableEq, Repr

/-- The nets of the module: `__wire_k`, a bit of `__spfe_input` and a bit of
`__spfe_output`. -/
inductive Net where
  | wire (k : Nat)
  | input (i : Nat)
  | output (i : Nat)
  deriving DecidableEq, Repr

inductive BinOp where
  | and
  | xor
  deriving DecidableEq, Repr

/-- The right-hand sides of the assignments. -/
inductive Expr where
  | net (n : Net)
  | literal (value : Bool)
  | inv (n : Net)
  | chain (op : BinOp) (first : Net) (rest : List Net)
  deriving DecidableEq, Repr

/-- The continuous assignment of an expression to a net. -/
structure Assign where
  target : Net
  value : Expr
  deriving DecidableEq, Repr

/-! ### Text -/

def Net.render : Net → List UInt8
  | .wire k => bytes "__wire_" ++ formatInt k
  | .input i => bytes "__spfe_input[" ++ formatInt i ++ bytes "]"
  | .output i => bytes "__spfe_output[" ++ formatInt i ++ bytes "]"

def BinOp.render : BinOp → List UInt8
  | .and => bytes "&"
  | .xor => bytes "^"

def Expr.render : Expr → List UInt8
  | .net n => n.render
  | .literal false => bytes "0"
  | .literal true => bytes "1"
  | .inv n => bytes "~" ++ n.render
  | .chain op first rest =>
      first.render ++ rest.flatMap (fun n => bytes " " ++ op.render ++ bytes " " ++ n.render)

def Assign.render (a : Assign) : List UInt8 :=
  bytes "  assign " ++ a.target.render ++ bytes " = " ++ a.value.render ++ bytes ";\n"

def renderDeclaration (k : Nat) : List UInt8 :=
  bytes "  wire " ++ (Net.wire k).render ++ bytes ";\n"

variable (c : Circuit)

/-- The ports, where the last one, too, is followed by a comma. -/
def emitModuleBegin (moduleName : List UInt8) : List UInt8 :=
  bytes "module " ++ moduleName ++ bytes "(\n"
    ++ (if 0 < c.inputs.length then
        bytes "  input wire [" ++ formatInt (c.inputs.length - 1) ++ bytes ":0] __spfe_input,\n"
      else [])
    ++ (if 0 < c.outputs.length then
        bytes "  output wire [" ++ formatInt (c.outputs.length - 1)
          ++ bytes ":0] __spfe_output,\n"
      else [])
    ++ bytes ");\n"

def emitModuleEnd (moduleName : List UInt8) : List UInt8 :=
  bytes "endmodule // " ++ moduleName

/-! ### Statements -/

/-- The declared wire of a gate. -/
def nodeDefinition : Node → Outcome Error Nat
  | .lut _ _ _ _ => .error .unsupportedNodeType
  | n => return n.output

/-- The declared wires. -/
def emitWireDefinitions : Outcome Error (List Nat) := do
  let outputs ← c.nodes.mapM nodeDefinition
  return c.inputs ++ outputs

def emitInputAssignments : List Assign :=
  c.inputs.zipIdx.map (fun p => ⟨.wire p.1, .net (.input p.2)⟩)

def emitOutputAssignments : List Assign :=
  c.outputs.zipIdx.map (fun p => ⟨.wire p.1, .net (.output p.2)⟩)

def emitConstant (value : Bool) (output : Nat) : Assign := ⟨.wire output, .literal value⟩

def emitOneInput (input output : Nat) : Assign := ⟨.wire output, .inv (.wire input)⟩

def emitTwoInput (op : BinOp) (inputA inputB output : Nat) : Assign :=
  ⟨.wire output, .chain op (.wire inputA) [.wire inputB]⟩

def emitThreeInput (op : BinOp) (inputA inputB inputC output : Nat) : Assign :=
  ⟨.wire output, .chain op (.wire inputA) [.wire inputB, .wire inputC]⟩

def emitFourInput (op : BinOp) (inputA inputB inputC inputD output : Nat) : Assign :=
  ⟨.wire output, .chain op (.wire inputA) [.wire inputB, .wire inputC, .wire inputD]⟩

/-- The assignment of a gate. -/
def emitNode : Node → Outcome Error Assign
  | .zero output => return emitConstant false output
  | .one output => return emitConstant true output
  | .inv input output => return emitOneInput input output
  | .and inputA inputB output => return emitTwoInput .and inputA inputB output
  | .xor inputA inputB output => return emitTwoInput .xor inputA inputB output
  | .and3 inputA inputB inputC output => return emitThreeInput .xor inputA inputB inputC output
  | .and4 inputA inputB inputC inputD output =>
      return emitFourInput .xor inputA inputB inputC inputD output
  | .lut _ _ _ _ => .error .unsupportedNodeType

/-- The assignments of the gates, in order. -/
def emitNodes : Outcome Error (List Assign) := c.nodes.mapM emitNode

/-- The declared wires and the assignments of a module. -/
structure Module where
  wires : List Nat
  assigns : List Assign

/-- The statements written for a circuit. -/
def emitModule : Outcome Error Module := do
  let wires ← emitWireDefinitions c
  let nodes ← emitNodes c
  return ⟨wires, emitInputAssignments c ++ nodes ++ emitOutputAssignments c⟩

/-- The bytes written for a circuit. -/
def writeCircuit (moduleName : List UInt8) : Outcome Error (List UInt8) := do
  let statements ← emitModule c
  return emitModuleBegin c moduleName ++ statements.wires.flatMap renderDeclaration
    ++ statements.assigns.flatMap Assign.render ++ emitModuleEnd moduleName

end EmitVerilog

end SynCirc

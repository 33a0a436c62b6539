import SynCirc.Zig.Text
import SynCirc.Circuit

/-!
# The SynCirc text format: parsing

The parser reads the lines of a stream one after the other and tells them apart by their
first token.  Its state is the circuit read so far.  On the line of a lookup table a window
of two tokens moves to the end of the line: what leaves the window is an input wire, and the
window ends on the output wire and the truth table.
-/

namespace SynCirc

open Zig

namespace Parser

/-- The errors of the parser. -/
inductive Error where
  | expectedType
  | expectedWireNumber
  | atLeastOneLutEntryExpected
  | expectedOneOutput
  | unsupportedType
  | parseInt (e : ParseIntError)
  | streamTooLong
  deriving DecidableEq, Repr

/-- The longest line, with its line break. -/
def maxLineLen : Nat := 1024 * 1024

/-- Parse a wire number. -/
def parseWire (raw : List UInt8) : Outcome Error Nat :=
  (parseInt 10 (2 ^ 64) raw).mapError .parseInt

/-- The next wire number of a line. -/
def nextWire : List (List UInt8) → Outcome Error (Nat × List (List UInt8))
  | [] => .error .expectedWireNumber
  | raw :: iter => do
      let wireNumber ← parseWire raw
      return (wireNumber, iter)

variable (parser : Circuit)

def addNode (node : Node) : Circuit := { parser with nodes := parser.nodes ++ [node] }

def adjustMaxWireNumber (wireNumbers : List Nat) : Circuit :=
  { parser with maxWireNumber := wireNumbers.foldl max parser.maxWireNumber }

/-- One wire number of the line `C`. -/
def parseInput (raw : List UInt8) : Outcome Error Circuit := do
  let wireNumber ← parseWire raw
  let parser := adjustMaxWireNumber parser [wireNumber]
  return { parser with inputs := parser.inputs ++ [wireNumber] }

/-- One wire number of the line `O`. -/
def parseOutput (raw : List UInt8) : Outcome Error Circuit := do
  let wireNumber ← parseWire raw
  let parser := adjustMaxWireNumber parser [wireNumber]
  return { parser with outputs := parser.outputs ++ [wireNumber] }

variable (iter : List (List UInt8))

def parseConstant (tag : Nat → Node) : Outcome Error Circuit := do
  let (output, _) ← nextWire iter
  return addNode (adjustMaxWireNumber parser [output]) (tag output)

def parseOneInput (tag : Nat → Nat → Node) : Outcome Error Circuit := do
  let (input, iter) ← nextWire iter
  let (output, _) ← nextWire iter
  return addNode (adjustMaxWireNumber parser [input, output]) (tag input output)

def parseTwoInput (tag : Nat → Nat → Nat → Node) : Outcome Error Circuit := do
  let (inputA, iter) ← nextWire iter
  let (inputB, iter) ← nextWire iter
  let (output, _) ← nextWire iter
  return addNode (adjustMaxWireNumber parser [inputA, inputB, output])
    (tag inputA inputB output)

def parseThreeInput (tag : Nat → Nat → Nat → Nat → Node) : Outcome Error Circuit := do
  let (inputA, iter) ← nextWire iter
  let (inputB, iter) ← nextWire iter
  let (inputC, iter) ← nextWire iter
  let (output, _) ← nextWire iter
  return addNode (adjustMaxWireNumber parser [inputA, inputB, inputC, output])
    (tag inputA inputB inputC output)

def parseFourInput (tag : Nat → Nat → Nat → Nat → Nat → Node) : Outcome Error Circuit := do
  let (inputA, iter) ← nextWire iter
  let (inputB, iter) ← nextWire iter
  let (inputC, iter) ← nextWire iter
  let (inputD, iter) ← nextWire iter
  let (output, _) ← nextWire iter
  return addNode (adjustMaxWireNumber parser [inputA, inputB, inputC, inputD, output])
    (tag inputA inputB inputC inputD output)

/-- Move the window of the last two tokens to the end of the line, and append the wire
numbers that leave it to `luts`. -/
def slideWindow (luts : List Nat) (penultimate last : List UInt8) :
    List (List UInt8) → Outcome Error (List Nat × List UInt8 × List UInt8)
  | [] => return (luts, penultimate, last)
  | raw :: iter => do
      let wireNumber ← parseWire penultimate
      slideWindow (luts ++ [wireNumber]) last raw iter

/-- One bit of a truth table. -/
def parseTableBit (lutTables : List Bool) (raw : UInt8) : Outcome Error (List Bool) := do
  let bit ← (parseInt 10 2 [raw]).mapError .parseInt
  return lutTables ++ [bit == 1]

def parseLut : Outcome Error Circuit := do
  let offset := parser.luts.length
  let tableOffset := parser.lutTables.length
  match iter with
  | [] => .error .atLeastOneLutEntryExpected
  | [_] => .error .expectedOneOutput
  | penultimate :: last :: iter =>
      let (luts, penultimate, last) ← slideWindow parser.luts penultimate last iter
      let arity := luts.length - offset
      check .castOutOfRange (arity < 256)
      let output ← parseWire penultimate
      let lutTables ← last.foldlM parseTableBit parser.lutTables
      let inputs ← slice luts offset arity
      let parser := { parser with luts := luts, lutTables := lutTables }
      let parser := adjustMaxWireNumber (adjustMaxWireNumber parser inputs) [output]
      return addNode parser (.lut offset tableOffset arity output)

/-- A line with the given first token and the tokens after it. -/
def parseTokens (lineType : List UInt8) : Outcome Error Circuit :=
  if lineType = bytes "C" then iter.foldlM parseInput parser
  else if lineType = bytes "O" then iter.foldlM parseOutput parser
  else if lineType = bytes "0" then parseConstant parser iter .zero
  else if lineType = bytes "1" then parseConstant parser iter .one
  else if lineType = bytes "I" then parseOneInput parser iter .inv
  else if lineType = bytes "A" then parseTwoInput parser iter .and
  else if lineType = bytes "E" then parseTwoInput parser iter .xor
  else if lineType = bytes "3" then parseThreeInput parser iter .and3
  else if lineType = bytes "4" then parseFourInput parser iter .and4
  else if lineType = bytes "L" then parseLut parser iter
  else .error .unsupportedType

/-- One line of the stream. -/
def parseLine (line : List UInt8) : Outcome Error Circuit :=
  if maxLineLen ≤ line.length then .error .streamTooLong else
  match tokenize line with
  | [] => .error .expectedType
  | lineType :: iter => parseTokens parser iter lineType

/-- The circuit before any line is read. -/
def empty : Circuit := ⟨[], [], [], [], [], 0⟩

end Parser

/-- The circuit read from a stream. -/
def parseCircuit (text : List UInt8) : Outcome Parser.Error Circuit :=
  (lines text).foldlM Parser.parseLine Parser.empty

end SynCirc

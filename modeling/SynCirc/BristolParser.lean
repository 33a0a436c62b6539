import SynCirc.Zig.Text
import SynCirc.Circuit

/-!
# The Bristol format: parsing

The inputs are the first wires and the outputs are the last wires, as many as the second line
of the header says.  Every further line that is not empty is a gate.  The wires of a gate are
read into two arrays of four elements; the elements that are not written are undefined.  The
largest wire number is that of the gate lines.
-/

namespace SynCirc

open Zig

namespace BristolParser

/-- The errors of the parser. -/
inductive Error where
  | expectedData
  | expectedType
  | invalidNumberOfInputs
  | invalidNumberOfOutputs
  | unsupportedType
  | unexpectedExtraData
  | parseInt (e : ParseIntError)
  | streamTooLong
  deriving DecidableEq, Repr

/-- The length of the line buffer. -/
def bufLen : Nat := 4096

/-- Parse an integer of 64 bits. -/
def parseIndex (raw : List UInt8) : Outcome Error Nat :=
  (parseInt 10 (2 ^ 64) raw).mapError .parseInt

/-- The tokens of a line. -/
def readLine (line : List UInt8) : Outcome Error (List (List UInt8)) :=
  if bufLen ≤ line.length then .error .streamTooLong else .ok (tokenize line)

/-- The next token of a line. -/
def next (e : Error) : List (List UInt8) → Outcome Error (List UInt8 × List (List UInt8))
  | [] => .error e
  | raw :: iter => .ok (raw, iter)

/-- The next line of the stream. -/
def nextLine : List (List UInt8) → Outcome Error (List (List UInt8) × List (List UInt8))
  | [] => .error .expectedData
  | line :: rest => do
      let iter ← readLine line
      return (iter, rest)

/-- The number of wires on the first line. -/
def parseWireCount (iter : List (List UInt8)) : Outcome Error Nat := do
  let (_, iter) ← next .expectedData iter
  let (numWires, _) ← next .expectedData iter
  parseIndex numWires

/-- The numbers of input and output wires on the second line.  The inputs may be given in two
parts. -/
def parsePortCounts (iter : List (List UInt8)) : Outcome Error (Nat × Nat) := do
  let (field1, iter) ← next .expectedData iter
  let (field2, iter) ← next .expectedData iter
  match iter with
  | field3 :: _ =>
      let numInputWiresA ← parseIndex field1
      let numInputWiresB ← parseIndex field2
      check .integerOverflow (numInputWiresA + numInputWiresB < 2 ^ 64)
      let numOutputWires ← parseIndex field3
      return (numInputWiresA + numInputWiresB, numOutputWires)
  | [] =>
      let numInputWires ← parseIndex field1
      let numOutputWires ← parseIndex field2
      return (numInputWires, numOutputWires)

variable (parser : Circuit)

def addNode (node : Node) : Circuit := { parser with nodes := parser.nodes ++ [node] }

/-- The header. -/
def parseHeader (stream : List (List UInt8)) : Outcome Error (Circuit × List (List UInt8)) := do
  let (iter, stream) ← nextLine stream
  let numWires ← parseWireCount iter
  let (iter, stream) ← nextLine stream
  let (numInputWires, numOutputWires) ← parsePortCounts iter
  let firstOutput ← sub numWires numOutputWires
  let parser := { parser with
    inputs := parser.inputs ++ List.range numInputWires
    outputs := parser.outputs ++ List.range' firstOutput numOutputWires }
  return (parser, stream)

/-- Read wires into an array of four elements, of which the first `wires.length` are written,
until `count` are written. -/
def readWires (count : Nat) (maxWireNumber : Nat) (wires : List Nat) :
    List (List UInt8) → Outcome Error (Nat × List Nat × List (List UInt8))
  | [] =>
      if wires.length < count then .error .expectedData else return (maxWireNumber, wires, [])
  | raw :: iter =>
      if wires.length < count then do
        let wireNumber ← parseIndex raw
        check .indexOutOfBounds (wires.length < 4)
        readWires count (max maxWireNumber wireNumber) (wires ++ [wireNumber]) iter
      else return (maxWireNumber, wires, raw :: iter)

/-- Read an element of an array whose first elements are written. -/
def readElement (wires : List Nat) (i : Nat) : Outcome Error Nat :=
  match wires[i]? with
  | some wire => .ok wire
  | none => .panic .undefinedRead

/-- A gate with one output and the given number of inputs. -/
def checkCounts (expectedInputs numInputs numOutputs : Nat) : Outcome Error Unit :=
  if numInputs ≠ expectedInputs then .error .invalidNumberOfInputs
  else if numOutputs ≠ 1 then .error .invalidNumberOfOutputs
  else .ok ()

/-- The gate of the given type. -/
def parseGate (lineType : List UInt8) (numInputs numOutputs : Nat) (inputs outputs : List Nat) :
    Outcome Error Node := do
  if lineType = bytes "XOR" then
    checkCounts 2 numInputs numOutputs
    return .xor (← readElement inputs 0) (← readElement inputs 1) (← readElement outputs 0)
  else if lineType = bytes "AND" then
    checkCounts 2 numInputs numOutputs
    return .and (← readElement inputs 0) (← readElement inputs 1) (← readElement outputs 0)
  else if lineType = bytes "AND3" then
    checkCounts 3 numInputs numOutputs
    return .and3 (← readElement inputs 0) (← readElement inputs 1) (← readElement inputs 2)
      (← readElement outputs 0)
  else if lineType = bytes "AND4" then
    checkCounts 4 numInputs numOutputs
    return .and4 (← readElement inputs 0) (← readElement inputs 1) (← readElement inputs 2)
      (← readElement inputs 3) (← readElement outputs 0)
  else if lineType = bytes "INV" then
    checkCounts 1 numInputs numOutputs
    return .inv (← readElement inputs 0) (← readElement outputs 0)
  else .error .unsupportedType

/-- The tokens of the line of a gate. -/
def parseGateTokens (iter : List (List UInt8)) : Outcome Error Circuit := do
  let (numInputs, iter) ← next .expectedData iter
  let (numOutputs, iter) ← next .expectedData iter
  let numInputs ← parseIndex numInputs
  let numOutputs ← parseIndex numOutputs
  let (maxWireNumber, inputs, iter) ← readWires numInputs parser.maxWireNumber [] iter
  let (maxWireNumber, outputs, iter) ← readWires numOutputs maxWireNumber [] iter
  let (lineType, iter) ← next .expectedType iter
  let node ← parseGate lineType numInputs numOutputs inputs outputs
  if iter ≠ [] then .error .unexpectedExtraData else
  return addNode { parser with maxWireNumber := maxWireNumber } node

/-- One line after the header. -/
def parseLine (line : List UInt8) : Outcome Error Circuit := do
  let iter ← readLine line
  if line.length = 0 then return parser else
  parseGateTokens parser iter

end BristolParser

open BristolParser in
/-- The circuit read from a stream. -/
def parseBristol (text : List UInt8) : Outcome BristolParser.Error Circuit := do
  let (parser, stream) ← parseHeader ⟨[], [], [], [], [], 0⟩ (lines text)
  stream.foldlM parseLine parser

end SynCirc

import SynCirc.Zig.Json
import SynCirc.Zig.Text
import SynCirc.Hierarchy.Basic
import SynCirc.Circuit

/-!
# Building a circuit from a netlist

`Builder.build` flattens a hierarchical netlist in JSON.  Every module instance gets an interval
of wire numbers: the net with the label `w` is wire `w + offset`, unless the translation table of
the instance sends that number to another wire.  The table of an instance connects its ports to
the wires of the instantiating module.  It is also written when the instance itself instantiates a
module: an output bit of the new instance that is an input bit, that has been connected before or
that is a constant is not driven, so the net connected to it is sent to the wire that is.  The
numbers are kept in 64 bits, and a sum that does not fit stops the build.

The translation tables live on a heap, and an instance refers to its table by a pointer.  The
walk over the modules is the loop of a `Hierarchy`: a gate cell yields a gate, an instance cell
yields a module instance.
-/

namespace SynCirc

open Zig

/-- What a circuit is built from: the netlist, the order of the cells of every module and the name
of the top module. -/
structure Builder where
  root : Json
  torder : List (List UInt8 × List (List UInt8))
  topModule : List UInt8

namespace Builder

/-! ### Errors -/

/-- The error messages, with what they report. -/
inductive Message where
  | rootNotObject
  | noModules
  | modulesNotObject
  | moduleNotFound (moduleName : List UInt8)
  | noCells (moduleName : List UInt8)
  | noTorder (moduleName : List UInt8)
  | unexpectedInputPort (portBit : Json)
  | unexpectedOutputPort (portBit : Json)
  | unexpectedPortConstant (str : List UInt8)
  | unsupportedCellType (cellType : List UInt8)
  | unexpectedConstant (str : List UInt8)
  | unexpectedConnection (connectionBit : Json)
  | noPorts (moduleName : List UInt8)
  | invalidInput (portName moduleName : List UInt8)
  | invalidOutput (portName moduleName : List UInt8)
  | unexpectedConnectionConstant (str : List UInt8)
  | unexpectedLutInput (connection : Json)

/-- The text of a message, when `format` prints JSON values. -/
def Message.text (format : Json → List UInt8) : Message → List UInt8
  | .rootNotObject => bytes "JSON root is not an object"
  | .noModules => bytes "JSON root does not contain 'modules'"
  | .modulesNotObject => bytes "'modules' is not an object"
  | .moduleNotFound name => bytes "Module '" ++ name ++ bytes "' not found"
  | .noCells name => bytes "Module '" ++ name ++ bytes "' does not contain any cells"
  | .noTorder name => bytes "No torder for module '" ++ name ++ bytes "' found"
  | .unexpectedInputPort portBit => bytes "Unexpected input port: " ++ format portBit
  | .unexpectedOutputPort portBit => bytes "Unexpected output port: " ++ format portBit
  | .unexpectedPortConstant str => bytes "Expected 0 or 1, found " ++ str
  | .unsupportedCellType cellType => bytes "Unsupported cell type: " ++ cellType
  | .unexpectedConstant str => bytes "Expected 0, 1, or x, found " ++ str
  | .unexpectedConnection connectionBit =>
      bytes "Unexpected connection: " ++ format connectionBit
  | .noPorts name => bytes "Module '" ++ name ++ bytes "' does not contain any ports"
  | .invalidInput port name =>
      bytes "Input '" ++ port ++ bytes "' of module '" ++ name ++ bytes "' is invalid"
  | .invalidOutput port name =>
      bytes "Output '" ++ port ++ bytes "' of module '" ++ name ++ bytes "' is invalid"
  | .unexpectedConnectionConstant str => bytes "Expected 0 or 1 as connection, found " ++ str
  | .unexpectedLutInput connection => bytes "Unexpected LUT input " ++ format connection

/-- The errors of the build. -/
inductive Error where
  | buildFail (msg : Message)
  | invalidLutBit
  | parseInt (e : ParseIntError)

def fail {α : Type} (msg : Message) : Outcome Error α := .error (.buildFail msg)

/-! ### Wire numbers -/

/-- The wire that is 0. -/
def constantZeroWireNumber : Nat := 0

/-- The wire that is 1. -/
def constantOneWireNumber : Nat := 1

/-- A translation table. -/
abbrev WireTranslations := Nat → Option Nat

/-- The terms under which a module is instantiated.  `connections` points to the translation
table. -/
structure ModuleInstantiation where
  moduleName : List UInt8
  wireNumberOffset : Nat
  connections : Nat

def translateWireNumber (wireNumberOffset : Nat) (wireTranslations : WireTranslations)
    (wireNumber : Nat) : Outcome Error Nat := do
  let adjustedWireNumber ← add wireNumber wireNumberOffset
  return (wireTranslations adjustedWireNumber).getD adjustedWireNumber

/-- The wire of the constant `str`, which is 0 or 1. -/
def constantWire (msg : List UInt8 → Message) (str : List UInt8) : Outcome Error Nat :=
  if str = bytes "0" then .ok constantZeroWireNumber
  else if str = bytes "1" then .ok constantOneWireNumber
  else fail (msg str)

/-- The wire of the constant `str`, which is 0, 1, or x for a bit that may be either. -/
def constantOrXWire (msg : List UInt8 → Message) (str : List UInt8) : Outcome Error Nat :=
  if str = bytes "x" then .ok constantZeroWireNumber else constantWire msg str

def translateConnectionBit (connectionBit : Json) (wireNumberOffset : Nat)
    (wireTranslations : WireTranslations) : Outcome Error Nat :=
  match connectionBit with
  | .integer int => do
      let connectionWireNumber ← intCast int
      translateWireNumber wireNumberOffset wireTranslations connectionWireNumber
  | .string str => constantOrXWire .unexpectedConstant str
  | _ => fail (.unexpectedConnection connectionBit)

/-- The largest label among the bits and `maxWireLabel`. -/
def maxLabelOfBits (maxWireLabel : Nat) (bits : List Json) : Outcome Error Nat :=
  bits.foldlM (fun maxWireLabel bit =>
    match bit with
    | .integer int => do
        let label ← intCast int
        return max maxWireLabel label
    | _ => .ok maxWireLabel) maxWireLabel

/-- The largest label in the ports and `maxWireLabel`. -/
def maxLabelOfPorts (maxWireLabel : Nat) : Option Json → Outcome Error Nat
  | none => .ok maxWireLabel
  | some ports => do
      let ports ← ports.asObject
      ports.foldlM (fun maxWireLabel entry => do
        let port ← entry.2.asObject
        let bits ← (← Json.field port (bytes "bits")).asArray
        maxLabelOfBits maxWireLabel bits) maxWireLabel

/-- The largest label in the connections of the cells and `maxWireLabel`. -/
def maxLabelOfCells (maxWireLabel : Nat) : Option Json → Outcome Error Nat
  | none => .ok maxWireLabel
  | some cells => do
      let cells ← cells.asObject
      cells.foldlM (fun maxWireLabel cellEntry => do
        let cell ← cellEntry.2.asObject
        let connections ← (← Json.field cell (bytes "connections")).asObject
        connections.foldlM (fun maxWireLabel connectionEntry => do
          let list ← connectionEntry.2.asArray
          maxLabelOfBits maxWireLabel list) maxWireLabel) maxWireLabel

variable (modules : List (List UInt8 × Json))

def findMaxWireLabel (moduleName : List UInt8) : Outcome Error Nat := do
  let moduleNode ← (← Json.field modules moduleName).asObject
  let maxWireLabel ← maxLabelOfPorts 0 (moduleNode.lookup (bytes "ports"))
  maxLabelOfCells maxWireLabel (moduleNode.lookup (bytes "cells"))

/-! ### Inputs and outputs -/

/-- Collect a list from the bits of the ports with the given direction. -/
def collectPorts (direction : String)
    (wire : List UInt8 → Json → Outcome Error Nat) (moduleName : List UInt8) :
    Outcome Error (List Nat) := do
  match modules.lookup moduleName with
  | none => fail (.moduleNotFound moduleName)
  | some moduleNode => do
      let moduleNode ← moduleNode.asObject
      match moduleNode.lookup (bytes "ports") with
      | none => fail (.noPorts moduleName)
      | some ports => do
          let ports ← ports.asObject
          ports.foldlM (fun wires entry => do
            let port ← entry.2.asObject
            let portDirection ← (← Json.field port (bytes "direction")).asString
            if portDirection ≠ bytes direction then return wires else
            let bits ← (← Json.field port (bytes "bits")).asArray
            return wires ++ (← bits.mapM (wire entry.1))) []

def buildInputs (moduleName : List UInt8) : Outcome Error (List Nat) :=
  collectPorts modules "input" (fun portName bit =>
    match bit with
    | .integer val => intCast val
    | _ => fail (.invalidInput portName moduleName)) moduleName

def buildOutputs (moduleName : List UInt8) (wireNumberOffset : Nat)
    (wireTranslations : WireTranslations) : Outcome Error (List Nat) :=
  collectPorts modules "output" (fun portName bit =>
    match bit with
    | .integer val => do
        let outputWireNumber ← intCast val
        translateWireNumber wireNumberOffset wireTranslations outputWireNumber
    | .string str => constantWire .unexpectedConnectionConstant str
    | _ => fail (.invalidOutput portName moduleName)) moduleName

/-! ### Gates -/

section Gates

variable (wireNumberOffset : Nat) (wireTranslations : WireTranslations)
  (cell : List (List UInt8 × Json))

/-- The wire of the first bit of a connection list. -/
def firstWire (connection : Json) : Outcome Error Nat := do
  let connectionList ← connection.asArray
  let connection ← (← index connectionList 0).asInteger
  let wireNumber ← intCast connection
  translateWireNumber wireNumberOffset wireTranslations wireNumber

/-- The wire connected to the pin with the given name. -/
def pin (connections : List (List UInt8 × Json)) (name : String) : Outcome Error Nat := do
  firstWire wireNumberOffset wireTranslations (← Json.field connections (bytes name))

/-- The wire connected to the output pin, which is called `Y` or `Z`. -/
def outputPin (connections : List (List UInt8 × Json)) : Outcome Error Nat :=
  match connections.lookup (bytes "Y") with
  | some connection => firstWire wireNumberOffset wireTranslations connection
  | none => pin wireNumberOffset wireTranslations connections "Z"

/-- The wires connected to the input pins with the given names, and the wire connected to the
output pin. -/
def buildPins (pins : List String) : Outcome Error (List Nat × Nat) := do
  let connections ← (← Json.field cell (bytes "connections")).asObject
  let inputs ← pins.mapM (pin wireNumberOffset wireTranslations connections)
  let output ← outputPin wireNumberOffset wireTranslations connections
  return (inputs, output)

def buildOneInput (tag : Nat → Nat → Node) : Outcome Error Node := do
  match ← buildPins wireNumberOffset wireTranslations cell ["A"] with
  | ([a], y) => .ok (tag a y)
  | _ => .panic .indexOutOfBounds

def buildTwoInput (tag : Nat → Nat → Nat → Node) : Outcome Error Node := do
  match ← buildPins wireNumberOffset wireTranslations cell ["A", "B"] with
  | ([a, b], y) => .ok (tag a b y)
  | _ => .panic .indexOutOfBounds

def buildThreeInput (tag : Nat → Nat → Nat → Nat → Node) : Outcome Error Node := do
  match ← buildPins wireNumberOffset wireTranslations cell ["A", "B", "C"] with
  | ([a, b, c], y) => .ok (tag a b c y)
  | _ => .panic .indexOutOfBounds

def buildFourInput (tag : Nat → Nat → Nat → Nat → Nat → Node) : Outcome Error Node := do
  match ← buildPins wireNumberOffset wireTranslations cell ["A", "B", "C", "D"] with
  | ([a, b, c, d], y) => .ok (tag a b c d y)
  | _ => .panic .indexOutOfBounds

/-- The wire of an input of a lookup table. -/
def lutInput (connection : Json) : Outcome Error Nat :=
  match connection with
  | .integer connectionA => do
      let wireNumberA ← intCast connectionA
      translateWireNumber wireNumberOffset wireTranslations wireNumberA
  | .string str => constantWire .unexpectedConnectionConstant str
  | _ => fail (.unexpectedLutInput connection)

/-- A bit of a truth table. -/
def lutBit (c : UInt8) : Outcome Error Bool :=
  if c = 48 then .ok false
  else if c = 49 then .ok true
  else .error .invalidLutBit

/-- Insert a truth table in the opposite order at its place. -/
def insertTable (tableOffset tableLen : Nat) (lutTables : List Bool) (tableRaw : List UInt8) :
    Outcome Error (List Bool) :=
  tableRaw.zipIdx.foldlM (fun lutTables p => do
    let bit ← lutBit p.1
    store lutTables (tableOffset + tableLen - 1 - p.2) bit) lutTables

/-- The inputs and the tables of the lookup tables with one more of each, and the gate.  Memory
for the new table is reserved before it is read. -/
def buildLut (luts : List Nat) (lutTables : List Bool) :
    Outcome Error (List Nat × List Bool × Node) := do
  let offset := luts.length
  let tableOffset := lutTables.length
  let parameters ← (← Json.field cell (bytes "parameters")).asObject
  let connections ← (← Json.field cell (bytes "connections")).asObject
  let raw ← (← Json.field parameters (bytes "WIDTH")).asString
  let arity ← (parseInt 2 (2 ^ 8) raw).mapError .parseInt
  check .castOutOfRange (arity < 64)
  let tableLen := 1 <<< arity
  let lutTables := lutTables ++ List.replicate tableLen false
  let connectionAList ← (← Json.field connections (bytes "A")).asArray
  check .assertionFailure (connectionAList.length = arity)
  let inputs ← connectionAList.mapM (lutInput wireNumberOffset wireTranslations)
  let y ← pin wireNumberOffset wireTranslations connections "Y"
  let tableRaw ← (← Json.field parameters (bytes "LUT")).asString
  check .assertionFailure (tableRaw.length = tableLen)
  let lutTables ← insertTable tableOffset tableLen lutTables tableRaw
  return (luts ++ inputs, lutTables, .lut offset tableOffset arity y)

end Gates

/-! ### Submodules -/

section Submodules

variable (wireNumberOffset submoduleWireNumberOffset : Nat)

/-- Go through the connections to the ports with the given direction, and through the bits of
every one of them with their positions. -/
def connectPorts {σ : Type} (direction : String)
    (connectBit : List Json → σ → Json × Nat → Outcome Error σ)
    (ports connections : List (List UInt8 × Json)) (s : σ) : Outcome Error σ :=
  connections.foldlM (fun s entry => do
    let port ← (← Json.field ports entry.1).asObject
    let portDirection ← (← Json.field port (bytes "direction")).asString
    if portDirection ≠ bytes direction then return s else
    let portList ← (← Json.field port (bytes "bits")).asArray
    let connectionList ← entry.2.asArray
    connectionList.zipIdx.foldlM (connectBit portList) s) s

/-- Connect an input bit of a submodule: the wires of its inputs so far and its translation
table. -/
def connectInputBit (wireTranslations : WireTranslations) (portList : List Json)
    (s : List Nat × WireTranslations) (p : Json × Nat) :
    Outcome Error (List Nat × WireTranslations) := do
  let translatedConnectionWireNumber ←
    translateConnectionBit p.1 wireNumberOffset wireTranslations
  match ← index portList p.2 with
  | .integer int => do
      let portWireNumber ← intCast int
      let translatedPortWireNumber ← add portWireNumber submoduleWireNumberOffset
      check .assertionFailure (translatedPortWireNumber ∉ s.1)
      check .assertionFailure (s.2 translatedPortWireNumber = none)
      return (translatedPortWireNumber :: s.1,
        Function.update s.2 translatedPortWireNumber (some translatedConnectionWireNumber))
  | portBit => fail (.unexpectedInputPort portBit)

/-- Connect an output wire of a submodule.  If it is an input wire or has been connected before, the
connected wire is sent to the wire it stands for. -/
def connectOutputWire (inputTranslatedPortWires : List Nat)
    (s : WireTranslations × WireTranslations)
    (translatedConnectionWireNumber translatedPortWireNumber : Nat) :
    Outcome Error (WireTranslations × WireTranslations) :=
  if translatedPortWireNumber ∈ inputTranslatedPortWires then do
    let translatedInputConnectionWire ← unwrap (s.2 translatedPortWireNumber)
    return (Function.update s.1 translatedConnectionWireNumber
      (some translatedInputConnectionWire), s.2)
  else match s.2 translatedPortWireNumber with
    | some canonicalConnectionWireNumber =>
        return (Function.update s.1 translatedConnectionWireNumber
          (some canonicalConnectionWireNumber), s.2)
    | none =>
        return (s.1, Function.update s.2 translatedPortWireNumber
          (some translatedConnectionWireNumber))

/-- Connect an output bit of a submodule: the translation tables of the instantiating module and
of the submodule. -/
def connectOutputBit (inputTranslatedPortWires : List Nat) (portList : List Json)
    (s : WireTranslations × WireTranslations) (p : Json × Nat) :
    Outcome Error (WireTranslations × WireTranslations) := do
  let translatedConnectionWireNumber ← translateConnectionBit p.1 wireNumberOffset s.1
  match ← index portList p.2 with
  | .integer int => do
      let portWireNumber ← intCast int
      let translatedPortWireNumber ← add portWireNumber submoduleWireNumberOffset
      connectOutputWire inputTranslatedPortWires s translatedConnectionWireNumber
        translatedPortWireNumber
  | .string str => do
      let constantWireNumber ← constantOrXWire .unexpectedPortConstant str
      return (Function.update s.1 translatedConnectionWireNumber (some constantWireNumber), s.2)
  | portBit => fail (.unexpectedOutputPort portBit)

/-- Connect a submodule: the translation table of the instantiating module afterwards, and that
of the submodule. -/
def connect (wireTranslations : WireTranslations) (cell : List (List UInt8 × Json))
    (cellType : List UInt8) : Outcome Error (WireTranslations × WireTranslations) := do
  let submodule ← (← Json.field modules cellType).asObject
  let ports ← (← Json.field submodule (bytes "ports")).asObject
  let connections ← (← Json.field cell (bytes "connections")).asObject
  let (inputTranslatedPortWires, submoduleWireTranslations) ← connectPorts "input"
    (connectInputBit wireNumberOffset submoduleWireNumberOffset wireTranslations)
    ports connections ([], fun _ => none)
  connectPorts "output"
    (connectOutputBit wireNumberOffset submoduleWireNumberOffset inputTranslatedPortWires)
    ports connections (wireTranslations, submoduleWireTranslations)

end Submodules

/-! ### The modules -/

/-- What the cells of all modules are built from and change: the inputs and tables of the lookup
tables, the largest label of every module that has been entered, the heap of translation tables
and the next free wire number. -/
structure State where
  luts : List Nat
  lutTables : List Bool
  maxWireNumbers : List (List UInt8 × Nat)
  tables : Buffer WireTranslations
  nextFreeWireNumber : Nat

variable (torder : List (List UInt8 × List (List UInt8)))

/-- The cells of a module, each as the object of all cells and its name. -/
def cellOrder (i : ModuleInstantiation) : Outcome Error (List (Json × List UInt8)) :=
  match modules.lookup i.moduleName with
  | none => fail (.moduleNotFound i.moduleName)
  | some moduleNode => do
      let moduleNode ← moduleNode.asObject
      match moduleNode.lookup (bytes "cells") with
      | none => fail (.noCells i.moduleName)
      | some cells =>
          match torder.lookup i.moduleName with
          | none => fail (.noTorder i.moduleName)
          | some names => .ok (names.map (fun name => (cells, name)))

/-- The state with the largest label of the module. -/
def memoize (moduleName : List UInt8) (s : State) : Outcome Error State :=
  match s.maxWireNumbers.lookup moduleName with
  | some _ => .ok s
  | none => do
      let maxWireNumber ← findMaxWireLabel modules moduleName
      return { s with maxWireNumbers := (moduleName, maxWireNumber) :: s.maxWireNumbers }

/-- Reserve the wire numbers of a freshly added module. -/
def enter (i : ModuleInstantiation) (s : State) : Outcome Error State := do
  let s ← memoize modules i.moduleName s
  let maxWireNumber ← unwrap (s.maxWireNumbers.lookup i.moduleName)
  let wires ← add maxWireNumber 1
  let nextFreeWireNumber ← add s.nextFreeWireNumber wires
  return { s with nextFreeWireNumber := nextFreeWireNumber }

/-- Instantiate a submodule, at the next free wire number. -/
def instantiate (i : ModuleInstantiation) (cell : List (List UInt8 × Json))
    (cellType : List UInt8) (s : State) : Outcome Error (State × ModuleInstantiation) := do
  let (wireTranslations, submoduleWireTranslations) ← connect modules i.wireNumberOffset
    s.nextFreeWireNumber (s.tables.cell i.connections) cell cellType
  return ({ s with
      tables := (s.tables.set i.connections wireTranslations).push submoduleWireTranslations },
    ⟨cellType, s.nextFreeWireNumber, s.tables.len⟩)

/-- The kinds of gate cells. -/
inductive GateType where
  | inv
  | xor
  | and
  | and3
  | and4
  | lut
  deriving DecidableEq, Repr

/-- The kind of the gate cells of the given type. -/
def gateType (cellType : List UInt8) : Option GateType :=
  if cellType = bytes "IV" ∨ cellType = bytes "$_NOT_" then some .inv
  else if cellType = bytes "XOR" ∨ cellType = bytes "$_XOR_" then some .xor
  else if cellType = bytes "AND2" ∨ cellType = bytes "$_AND_" then some .and
  else if cellType = bytes "AND3" then some .and3
  else if cellType = bytes "AND4" then some .and4
  else if cellType = bytes "$lut" then some .lut
  else none

/-- Build a gate cell. -/
def buildGate (offset : Nat) (table : WireTranslations) (cell : List (List UInt8 × Json))
    (s : State) : GateType → Outcome Error (State × Node)
  | .inv => do return (s, ← buildOneInput offset table cell .inv)
  | .xor => do return (s, ← buildTwoInput offset table cell .xor)
  | .and => do return (s, ← buildTwoInput offset table cell .and)
  | .and3 => do return (s, ← buildThreeInput offset table cell .and3)
  | .and4 => do return (s, ← buildFourInput offset table cell .and4)
  | .lut => do
      let (luts, lutTables, n) ← buildLut offset table cell s.luts s.lutTables
      return ({ s with luts := luts, lutTables := lutTables }, n)

/-- Build a cell of a module: a gate, or the instance of a submodule to be built next. -/
def buildCell (i : ModuleInstantiation) (c : Json × List UInt8) (s : State) :
    Outcome Error (State × (Node ⊕ ModuleInstantiation)) := do
  let cell ← (← Json.field (← c.1.asObject) c.2).asObject
  let cellType ← (← Json.field cell (bytes "type")).asString
  match gateType cellType with
  | some g => do
      let (s, n) ← buildGate i.wireNumberOffset (s.tables.cell i.connections) cell s g
      return (s, .inl n)
  | none =>
      if (modules.lookup cellType).isSome then do
        let (s, j) ← instantiate modules i cell cellType s
        return (s, .inr j)
      else fail (.unsupportedCellType cellType)

/-- The module instances of a netlist and their cells. -/
def hierarchy : Hierarchy Error ModuleInstantiation (Json × List UInt8) Node State where
  cells := cellOrder modules torder
  enter := enter modules
  visit := buildCell modules

/-- The instance of the top module. -/
def topModuleInstantiation (topModuleName : List UInt8) : ModuleInstantiation :=
  ⟨topModuleName, 0, 0⟩

/-- The constant gates. -/
def constantGates : List Node :=
  [.zero constantZeroWireNumber, .one constantOneWireNumber]

/-- The state before the first module, with an empty translation table for the top module. -/
def initialState : State :=
  ⟨[], [], [], Buffer.filled 1 (fun _ => none), 0⟩

/-- The progress before the first module. -/
def initialProgress (topModuleName : List UInt8) :
    Hierarchy.Progress ModuleInstantiation Node State :=
  ⟨[(topModuleInstantiation topModuleName, 0)], initialState, constantGates⟩

/-- The circuit, when all modules are built. -/
def finish (topModuleName : List UInt8) (inputs : List Nat) (nodes : List Node) (s : State) :
    Outcome Error Circuit := do
  let top := topModuleInstantiation topModuleName
  let outputs ← buildOutputs modules topModuleName top.wireNumberOffset
    (s.tables.cell top.connections)
  let maxWireNumber ← sub s.nextFreeWireNumber 1
  return ⟨nodes, s.luts, inputs, outputs, s.lutTables, maxWireNumber⟩

/-- Build the circuit of the top module with at most `fuel` turns of the loop over the modules,
or nothing if they do not suffice. -/
def buildTopModule (fuel : Nat) (topModuleName : List UInt8) :
    Option (Outcome Error Circuit) :=
  Hierarchy.after (buildInputs modules topModuleName) fun inputs =>
    ((hierarchy modules torder).loop fuel (initialProgress topModuleName)).map
      (· >>= fun p => finish modules topModuleName inputs p.nodes p.state)

end Builder

/-- The modules of the netlist. -/
def Builder.modules (b : Builder) : Outcome Builder.Error (List (List UInt8 × Json)) :=
  match b.root with
  | .object root =>
      match root.lookup (bytes "modules") with
      | none => Builder.fail .noModules
      | some (.object modules) => .ok modules
      | some _ => Builder.fail .modulesNotObject
  | _ => Builder.fail .rootNotObject

/-- Build the circuit of a netlist with at most `fuel` turns of the loop over the modules, or
nothing if they do not suffice. -/
def Builder.build (b : Builder) (fuel : Nat) : Option (Outcome Builder.Error Circuit) :=
  Hierarchy.after b.modules fun modules =>
    Builder.buildTopModule modules b.torder fuel b.topModule

end SynCirc

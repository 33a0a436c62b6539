import SynCirc.Zig.Loops
import SynCirc.Builder.Connect
import Mathlib.Data.List.GetD

/-!
# Reading a netlist

`readModule` reads a module of a JSON netlist as a module of a `Netlist`, if it is well formed: bits
are labels or the constants 0 and 1, the pins of gates are single labels, a lookup table has as many
inputs as its width says and a truth table of the length that goes with it, every port that a
submodule is connected by has the width of its connection, and the torder of the module lists each
of its cells once.

On what is read, the functions of the builder compute what the netlist says: its gates
(`buildGate_eq`), the translation tables of its submodules (`connect_eq`) and its ports.
-/

namespace SynCirc

open Zig

namespace Builder

open Netlist

/-! ### Reading -/

/-- A label. -/
def readLabel : Json → Option Nat
  | .integer (.ofNat l) => some l
  | _ => none

/-- A label or a constant. -/
def readBit : Json → Option Bit
  | .integer (.ofNat l) => some (.net l)
  | .string str =>
      if str = bytes "0" then some (.constant false)
      else if str = bytes "1" then some (.constant true)
      else none
  | _ => none

/-- A connection to a single label. -/
def readWire : Json → Option Nat
  | .array [bit] => readLabel bit
  | _ => none

/-- The label connected to a pin. -/
def readPin (connections : List (List UInt8 × Json)) (name : String) : Option Nat :=
  (connections.lookup (bytes name)).bind readWire

/-- The label connected to the output pin. -/
def readOutputPin (connections : List (List UInt8 × Json)) : Option Nat :=
  match connections.lookup (bytes "Y") with
  | some connection => readWire connection
  | none => readPin connections "Z"

/-- A field that is an object. -/
def readObject (fields : List (List UInt8 × Json)) (name : String) :
    Option (List (List UInt8 × Json)) :=
  (fields.lookup (bytes name)).bind Json.object?

/-- A field that is an array. -/
def readArray (fields : List (List UInt8 × Json)) (name : String) : Option (List Json) :=
  (fields.lookup (bytes name)).bind Json.array?

/-- A field that is a string. -/
def readString (fields : List (List UInt8 × Json)) (name : String) : Option (List UInt8) :=
  (fields.lookup (bytes name)).bind Json.string?

/-- A gate with the given input pins. -/
def readPins (g : Gate) (pins : List String) (cell : List (List UInt8 × Json)) :
    Option (Cell (List UInt8)) := do
  let connections ← readObject cell "connections"
  let inputs ← pins.mapM (readPin connections)
  let output ← readOutputPin connections
  return .gate g (inputs.map .net) output

/-- A bit of a truth table. -/
def readTableBit (c : UInt8) : Option Bool :=
  if c = 48 then some false
  else if c = 49 then some true
  else none

/-- The width of a lookup table, which is below 64. -/
def readWidth (raw : List UInt8) : Option Nat :=
  match parseInt 2 (2 ^ 8) raw with
  | .ok arity => if arity < 64 then some arity else none
  | _ => none

/-- A lookup table.  The first bit of the parameter `LUT` is the last one of the truth table. -/
def readLut (cell : List (List UInt8 × Json)) : Option (Cell (List UInt8)) := do
  let parameters ← readObject cell "parameters"
  let connections ← readObject cell "connections"
  let arity ← readWidth (← readString parameters "WIDTH")
  let inputs ← readArray connections "A"
  let bits ← inputs.mapM readBit
  let output ← readPin connections "Y"
  let raw ← readString parameters "LUT"
  let table ← raw.mapM readTableBit
  if inputs.length = arity ∧ raw.length = 2 ^ arity then
    return .gate (.lut table.reverse) bits output
  else none

/-- A gate. -/
def readGate (cell : List (List UInt8 × Json)) : GateType → Option (Cell (List UInt8))
  | .inv => readPins .inv ["A"] cell
  | .xor => readPins .xor ["A", "B"] cell
  | .and => readPins .and ["A", "B"] cell
  | .and3 => readPins .and3 ["A", "B", "C"] cell
  | .and4 => readPins .and4 ["A", "B", "C", "D"] cell
  | .lut => readLut cell

/-- The pairs of connection bits and port bits of one connection, if the port has the given
direction. -/
def readConnection {α : Type} (direction : String) (read : Json × Json → Option α)
    (ports : List (List UInt8 × Json)) (entry : List UInt8 × Json) : Option (List α) := do
  let port ← (ports.lookup entry.1).bind Json.object?
  let portDirection ← readString port "direction"
  if portDirection ≠ bytes direction then return [] else
  let portList ← readArray port "bits"
  let connectionList ← entry.2.array?
  if connectionList.length = portList.length then (connectionList.zip portList).mapM read else none

/-- The pairs of connection bits and port bits of all ports with the given direction. -/
def readConnections {α : Type} (direction : String) (read : Json × Json → Option α)
    (ports connections : List (List UInt8 × Json)) : Option (List α) :=
  (connections.mapM (readConnection direction read ports)).map List.flatten

/-- A connection of an input. -/
def readInput (p : Json × Json) : Option (Bit × Nat) := do
  return (← readBit p.1, ← readLabel p.2)

/-- A connection of an output. -/
def readOutput (p : Json × Json) : Option (Nat × Bit) := do
  return (← readLabel p.1, ← readBit p.2)

variable (modules : List (List UInt8 × Json)) (torder : List (List UInt8 × List (List UInt8)))

/-- A submodule. -/
def readSubmodule (cell : List (List UInt8 × Json)) (cellType : List UInt8) :
    Option (Cell (List UInt8)) := do
  let node ← (modules.lookup cellType).bind Json.object?
  let ports ← readObject node "ports"
  let connections ← readObject cell "connections"
  let inputs ← readConnections "input" readInput ports connections
  let outputs ← readConnections "output" readOutput ports connections
  return .submodule cellType inputs outputs

/-- A cell. -/
def readCell (cell : List (List UInt8 × Json)) : Option (Cell (List UInt8)) := do
  let cellType ← readString cell "type"
  match gateType cellType with
  | some g => readGate cell g
  | none => readSubmodule modules cell cellType

/-- The bits of a port, if it has the given direction. -/
def readPort {α : Type} (direction : String) (read : Json → Option α)
    (entry : List UInt8 × Json) : Option (List α) := do
  let port ← entry.2.object?
  let portDirection ← readString port "direction"
  if portDirection ≠ bytes direction then return [] else
  let bits ← readArray port "bits"
  bits.mapM read

/-- The bits of all ports with the given direction. -/
def readPorts {α : Type} (direction : String) (read : Json → Option α)
    (ports : List (List UInt8 × Json)) : Option (List α) :=
  (ports.mapM (readPort direction read)).map List.flatten

/-- A list of labels and strings. -/
def isBits (j : Json) : Bool :=
  match j with
  | .array bits => bits.all (fun bit =>
      match bit with
      | .integer (.ofNat _) => true
      | .string _ => true
      | _ => false)
  | _ => false

/-- A port has a list of bits. -/
def isPort (j : Json) : Bool :=
  match j with
  | .object port => (port.lookup (bytes "bits")).any isBits
  | _ => false

/-- The connections of a cell are lists of bits. -/
def isCell (j : Json) : Bool :=
  match j with
  | .object cell =>
      match cell.lookup (bytes "connections") with
      | some (.object connections) => connections.all (fun entry => isBits entry.2)
      | _ => false
  | _ => false

/-- A module. -/
def readModule (m : List UInt8) : Option (Module (List UInt8)) := do
  let node ← (modules.lookup m).bind Json.object?
  let ports ← readObject node "ports"
  let inputs ← readPorts "input" readLabel ports
  let outputs ← readPorts "output" readBit ports
  let cells ← readObject node "cells"
  let names ← torder.lookup m
  let order ← names.mapM (fun name => (cells.lookup name).bind Json.object?)
  let read ← order.mapM (readCell modules)
  if ports.all (fun entry => isPort entry.2) ∧ cells.all (fun entry => isCell entry.2)
      ∧ names.isPerm (cells.map Prod.fst) then
    return ⟨inputs, outputs, read⟩
  else none

/-! ### Bits -/

section Bits

variable {offset : Nat} {table : WireTranslations}

theorem readLabel_eq_some {j : Json} {l : Nat} (h : readLabel j = some l) :
  j = .integer l
  := by
  unfold readLabel at h
  split at h
  case h_1 l' => rw [← Option.some.inj h]; rfl
  case h_2 => cases h

/-- A bit is a label or one of the strings 0 and 1. -/
theorem readBit_eq_some {j : Json} {bit : Bit} (h : readBit j = some bit) :
  (∃ l : Nat, j = .integer l ∧ bit = .net l)
    ∨ ∃ b, j = .string (bytes (if b then "1" else "0")) ∧ bit = .constant b
  := by
  unfold readBit at h
  split at h
  case h_1 l => exact .inl ⟨l, rfl, (Option.some.inj h).symm⟩
  case h_2 str =>
    right
    split at h
    case isTrue hstr => exact ⟨false, by rw [hstr]; rfl, (Option.some.inj h).symm⟩
    case isFalse =>
      split at h
      case isTrue hstr => exact ⟨true, by rw [hstr]; rfl, (Option.some.inj h).symm⟩
      case isFalse => cases h
  case h_3 => cases h

theorem intCast_natCast {ε : Type} (l : Nat) :
  (intCast (l : Int) : Outcome ε Nat) = .ok l
  := intCast_eq_ok.mpr rfl

/-- The wire of a constant. -/
theorem constantWire_eq (msg : List UInt8 → Message) (b : Bool) :
  constantWire msg (bytes (if b then "1" else "0")) = .ok (constantNumber b)
  := by
  have hne : bytes "1" ≠ bytes "0" := by decide
  cases b with
  | false => exact if_pos rfl
  | true => rw [if_pos rfl, constantWire, if_neg hne, if_pos rfl]; rfl

theorem constantOrXWire_eq (msg : List UInt8 → Message) (b : Bool) :
  constantOrXWire msg (bytes (if b then "1" else "0")) = .ok (constantNumber b)
  := by
  have hne : ∀ b : Bool, bytes (if b then "1" else "0") ≠ bytes "x" := by decide
  rw [constantOrXWire, if_neg (hne b), constantWire_eq]

theorem translateConnectionBit_eq {j : Json} {bit : Bit} (h : readBit j = some bit)
    (hfits : LabelsFit offset (nets [bit])) :
  translateConnectionBit j offset table = .ok (bitNumber offset table bit)
  := by
  rcases readBit_eq_some h with ⟨l, rfl, rfl⟩ | ⟨b, rfl, rfl⟩
  · rw [translateConnectionBit, intCast_natCast, Outcome.ok_bind,
      translateWireNumber_of (hfits l List.mem_cons_self)]
    rfl
  · rw [translateConnectionBit, constantOrXWire_eq]
    rfl

theorem translateConnectionBit_label {j : Json} {l : Nat} (h : readLabel j = some l)
    (hfits : l + offset < 2 ^ 64) :
  translateConnectionBit j offset table = .ok (translatedWireNumber offset table l)
  := by
  rw [readLabel_eq_some h, translateConnectionBit, intCast_natCast, Outcome.ok_bind,
    translateWireNumber_of hfits]

theorem lutInput_eq {j : Json} {bit : Bit} (h : readBit j = some bit)
    (hfits : LabelsFit offset (nets [bit])) :
  lutInput offset table j = .ok (bitNumber offset table bit)
  := by
  rcases readBit_eq_some h with ⟨l, rfl, rfl⟩ | ⟨b, rfl, rfl⟩
  · rw [lutInput, intCast_natCast, Outcome.ok_bind,
      translateWireNumber_of (hfits l List.mem_cons_self)]
    rfl
  · rw [lutInput, constantWire_eq]
    rfl

theorem readWire_eq_some {j : Json} {l : Nat} (h : readWire j = some l) :
  j = .array [.integer l]
  := by
  unfold readWire at h
  split at h
  case h_1 bit => rw [readLabel_eq_some h]
  case h_2 => cases h

theorem firstWire_eq {j : Json} {l : Nat} (h : readWire j = some l)
    (hfits : l + offset < 2 ^ 64) :
  firstWire offset table j = .ok (translatedWireNumber offset table l)
  := by
  rw [readWire_eq_some h, firstWire, Json.asArray, Outcome.ok_bind, index,
    List.getElem?_cons_zero, Outcome.ok_bind, Json.asInteger, Outcome.ok_bind, intCast_natCast,
    Outcome.ok_bind, translateWireNumber_of hfits]

theorem pin_eq {connections : List (List UInt8 × Json)} {name : String} {l : Nat}
    (h : readPin connections name = some l) (hfits : l + offset < 2 ^ 64) :
  pin offset table connections name = .ok (translatedWireNumber offset table l)
  := by
  obtain ⟨j, hj, hwire⟩ := Option.bind_eq_some_iff.mp h
  rw [pin, Json.field_eq_ok.mpr hj, Outcome.ok_bind, firstWire_eq hwire hfits]

theorem outputPin_eq {connections : List (List UInt8 × Json)} {l : Nat}
    (h : readOutputPin connections = some l) (hfits : l + offset < 2 ^ 64) :
  outputPin offset table connections = .ok (translatedWireNumber offset table l)
  := by
  rcases hj : connections.lookup (bytes "Y") with _ | j
  · simp only [readOutputPin, hj] at h
    simp only [outputPin, hj]
    apply pin_eq h hfits
  · simp only [readOutputPin, hj] at h
    simp only [outputPin, hj]
    apply firstWire_eq h hfits

/-- A field that is read as an object. -/
theorem readObject_eq_some {fields : List (List UInt8 × Json)} {name : String}
    {object : List (List UInt8 × Json)} (h : readObject fields name = some object) :
  fields.lookup (bytes name) = some (.object object)
  := by
  obtain ⟨j, hj, hobject⟩ := Option.bind_eq_some_iff.mp h
  rw [hj, Json.object?_eq_some.mp hobject]

theorem readArray_eq_some {fields : List (List UInt8 × Json)} {name : String} {items : List Json}
    (h : readArray fields name = some items) :
  fields.lookup (bytes name) = some (.array items)
  := by
  obtain ⟨j, hj, harray⟩ := Option.bind_eq_some_iff.mp h
  rw [hj, Json.array?_eq_some.mp harray]

theorem readString_eq_some {fields : List (List UInt8 × Json)} {name : String} {str : List UInt8}
    (h : readString fields name = some str) :
  fields.lookup (bytes name) = some (.string str)
  := by
  obtain ⟨j, hj, hstring⟩ := Option.bind_eq_some_iff.mp h
  rw [hj, Json.string?_eq_some.mp hstring]

/-- A program that goes on with a field that is read as an object. -/
theorem field_object_bind {ε α : Type} {fields : List (List UInt8 × Json)} {name : String}
    {object : List (List UInt8 × Json)} (h : readObject fields name = some object)
    (f : List (List UInt8 × Json) → Outcome ε α) :
  (Json.field fields (bytes name) >>= fun j => j.asObject >>= f) = f object
  := by
  rw [Json.field_eq_ok.mpr (readObject_eq_some h), Outcome.ok_bind, Json.asObject, Outcome.ok_bind]

theorem field_array_bind {ε α : Type} {fields : List (List UInt8 × Json)} {name : String}
    {items : List Json} (h : readArray fields name = some items) (f : List Json → Outcome ε α) :
  (Json.field fields (bytes name) >>= fun j => j.asArray >>= f) = f items
  := by
  rw [Json.field_eq_ok.mpr (readArray_eq_some h), Outcome.ok_bind, Json.asArray, Outcome.ok_bind]

theorem field_string_bind {ε α : Type} {fields : List (List UInt8 × Json)} {name : String}
    {str : List UInt8} (h : readString fields name = some str) (f : List UInt8 → Outcome ε α) :
  (Json.field fields (bytes name) >>= fun j => j.asString >>= f) = f str
  := by
  rw [Json.field_eq_ok.mpr (readString_eq_some h), Outcome.ok_bind, Json.asString, Outcome.ok_bind]

end Bits

/-! ### Gates -/

section Gates

variable {offset : Nat} {table : WireTranslations} {cell : List (List UInt8 × Json)}

/-- The state `s'` and the gate `n` are what the gate `g` of a netlist becomes: the gate is in
range, and it drives the wire of `output` with the function of `g` on the wires of `inputs`. -/
structure Emits (offset : Nat) (table : WireTranslations) (g : Gate) (inputs : List Bit)
    (output : Nat) (s s' : State) (n : Node) : Prop where
  state : ∃ luts lutTables,
    s' = { s with luts := s.luts ++ luts, lutTables := s.lutTables ++ lutTables }
  inRange : n.LutInRange s'.luts s'.lutTables
  fits : n.arityFits
  exec : ∀ luts lutTables, s'.luts <+: luts → s'.lutTables <+: lutTables → ∀ wires,
    StraightLine.exec wires (n.assignment luts lutTables)
      = Function.update wires (translatedWireNumber offset table output)
          (g.fn ((inputs.map (bitNumber offset table)).map wires))

/-- The pins of a gate are read and built alike. -/
theorem buildPins_eq {offset : Nat} (table : WireTranslations) {g : Gate} {pins : List String}
    {c : Cell (List UInt8)} (h : readPins g pins cell = some c)
    (hfits : LabelsFit offset (c.reads ++ c.drives)) :
  ∃ (inputs : List Nat) (output : Nat), c = .gate g (inputs.map .net) output
    ∧ inputs.length = pins.length
    ∧ buildPins offset table cell pins
      = .ok (inputs.map (translatedWireNumber offset table),
        translatedWireNumber offset table output)
  := by
  simp only [readPins, Option.bind_eq_bind, Option.bind_eq_some_iff, Option.pure_def,
    Option.some.injEq] at h
  obtain ⟨connections, hconnections, inputs, hinputs, output, houtput, rfl⟩ := h
  have hpins := forall₂_of_mapM hinputs
  refine ⟨inputs, output, rfl, hpins.length_eq.symm, ?_⟩
  have hbuilt : pins.mapM (pin offset table connections)
      = .ok (inputs.map (translatedWireNumber offset table)) := by
    apply Outcome.mapM_of_forall₂ _ hpins
    intro name l hmem hl
    apply pin_eq hl (hfits l (List.mem_append_left _ (mem_nets.mpr (List.mem_map_of_mem hmem))))
  rw [buildPins, field_object_bind hconnections, hbuilt, Outcome.ok_bind,
    outputPin_eq houtput (hfits output (List.mem_append_right _ List.mem_cons_self))]
  rfl

/-- Building a gate without a truth table from the pins of its cell leaves the state as it is, and
emits the gate. -/
theorem buildGate_of_pins {g : GateType} {g' : Gate} {pins : List String} {c : Cell (List UInt8)}
    (h : readPins g' pins cell = some c) (hlabels : LabelsFit offset (c.reads ++ c.drives))
    {s : State} {build : List Nat × Nat → Outcome Error Node}
    (hbuild : buildGate offset table cell s g
      = (do return (s, ← buildPins offset table cell pins >>= build)))
    (hnode : ∀ xs y, xs.length = pins.length → ∃ n, build (xs, y) = .ok n ∧ n.arityFits
      ∧ (∀ luts lutTables, n.LutInRange luts lutTables ∧ n.reads luts = xs ∧ n.output = y)
      ∧ ∀ lutTables bits, bits.length = pins.length → n.fn lutTables bits = g'.fn bits) :
  ∃ g' inputs output s' n, c = .gate g' inputs output
    ∧ buildGate offset table cell s g = .ok (s', n)
    ∧ Emits offset table g' inputs output s s' n
  := by
  obtain ⟨inputs, output, rfl, hlength, hpins⟩ := buildPins_eq table h hlabels
  obtain ⟨n, hn, hfits, hwires, hfn⟩ := hnode (inputs.map (translatedWireNumber offset table))
    (translatedWireNumber offset table output) (by rw [List.length_map, hlength])
  refine ⟨_, _, _, s, n, rfl, ?_, ?_⟩
  · rw [hbuild, hpins, Outcome.ok_bind, hn]
    rfl
  · refine ⟨⟨[], [], by rw [List.append_nil, List.append_nil]⟩, (hwires _ _).1, hfits, ?_⟩
    intro luts lutTables _ _ wires
    obtain ⟨_, hreads, houtput⟩ := hwires luts lutTables
    simp only [StraightLine.exec, Node.assignment, hreads, houtput]
    rw [hfn _ _ (by simp [hlength]), List.map_map (f := Bit.net)]
    rfl

theorem lutBit_eq {c : UInt8} {b : Bool} (h : readTableBit c = some b) :
  lutBit c = .ok b
  := by
  unfold readTableBit at h
  unfold lutBit
  split at h
  case isTrue hc => rw [if_pos hc, Option.some.inj h]
  case isFalse hc =>
    rw [if_neg hc]
    split at h
    case isTrue hc' => rw [if_pos hc', Option.some.inj h]
    case isFalse => cases h

/-- The rest of a truth table is inserted before what has been inserted. -/
theorem foldlM_insertTable (lutTables : List Bool) {raw : List UInt8} {bits : List Bool}
    (h : List.Forall₂ (fun c b => readTableBit c = some b) raw bits) (done : List Bool)
    {tableLen : Nat} (hlen : raw.length + done.length = tableLen) :
  (raw.zipIdx done.length).foldlM (fun (lutTables' : List Bool) p => do
      let bit ← lutBit p.1
      store lutTables' (lutTables.length + tableLen - 1 - p.2) bit)
      (lutTables ++ List.replicate raw.length false ++ done)
    = (.ok (lutTables ++ bits.reverse ++ done) : Outcome Error (List Bool))
  := by
  induction h generalizing done with
  | nil =>
      rw [List.length_nil, List.replicate_zero]
      rfl
  | @cons c b raw bits hb _ ih =>
      rw [List.length_cons] at hlen
      have hindex : lutTables.length + tableLen - 1 - done.length
          = (lutTables ++ List.replicate raw.length false).length := by
        rw [List.length_append, List.length_replicate]
        omega
      have hsplit : lutTables ++ List.replicate (raw.length + 1) false ++ done
          = lutTables ++ List.replicate raw.length false ++ false :: done := by
        rw [List.replicate_succ', List.append_assoc, List.append_assoc, List.append_assoc]
        rfl
      have hset : (lutTables ++ List.replicate raw.length false ++ false :: done).set
            (lutTables ++ List.replicate raw.length false).length b
          = lutTables ++ List.replicate raw.length false ++ b :: done := by
        rw [List.set_append_right _ _ (Nat.le_refl _), Nat.sub_self]
        rfl
      have hnext := ih (b :: done) (by rw [List.length_cons]; omega)
      rw [List.zipIdx_cons, List.foldlM_cons, lutBit_eq hb, Outcome.ok_bind, List.length_cons,
        hsplit, hindex, store, if_pos (by simp), hset, Outcome.ok_bind]
      have hresult : lutTables ++ (b :: bits).reverse ++ done
          = lutTables ++ bits.reverse ++ b :: done := by
        rw [List.reverse_cons, List.append_assoc, List.append_assoc, List.append_assoc]
        rfl
      rw [hresult]
      apply hnext

/-- A truth table is inserted in the opposite order. -/
theorem insertTable_eq {raw : List UInt8} {bits lutTables : List Bool}
    (h : raw.mapM readTableBit = some bits) :
  insertTable lutTables.length raw.length (lutTables ++ List.replicate raw.length false) raw
    = .ok (lutTables ++ bits.reverse)
  := by
  have hfold := foldlM_insertTable lutTables (forall₂_of_mapM h) [] rfl
  rw [List.append_nil, List.append_nil] at hfold
  apply hfold

theorem readWidth_eq_some {raw : List UInt8} {arity : Nat} (h : readWidth raw = some arity) :
  parseInt 2 (2 ^ 8) raw = .ok arity ∧ arity < 64
  := by
  unfold readWidth at h
  split at h
  case h_1 arity' hparse =>
    split at h
    case isTrue hlt =>
      obtain rfl := Option.some.inj h
      exact ⟨hparse, hlt⟩
    case isFalse => cases h
  case h_2 => cases h

/-- A lookup table is built with its inputs and its truth table at the end of the state. -/
theorem buildLut_eq {offset : Nat} (table : WireTranslations) {c : Cell (List UInt8)}
    (h : readLut cell = some c) (hlabels : LabelsFit offset (c.reads ++ c.drives))
    (luts : List Nat) (lutTables : List Bool) :
  ∃ (inputs : List Bit) (output : Nat) (truth : List Bool),
    c = .gate (.lut truth) inputs output
    ∧ inputs.length < 64 ∧ truth.length = 2 ^ inputs.length
    ∧ buildLut offset table cell luts lutTables
      = .ok (luts ++ inputs.map (bitNumber offset table), lutTables ++ truth,
          .lut luts.length lutTables.length inputs.length
            (translatedWireNumber offset table output))
  := by
  simp only [readLut, Option.bind_eq_bind, Option.bind_eq_some_iff, Option.pure_def] at h
  obtain ⟨parameters, hparameters, connections, hconnections, width, hwidth, arity, harity, items,
    hitems, bits, hbits, output, houtput, raw, hraw, truth, htruth, h⟩ := h
  split at h
  case isFalse => cases h
  case isTrue hlengths =>
    obtain rfl := Option.some.inj h
    obtain ⟨hlength, htable⟩ := hlengths
    obtain ⟨hparse, hlt⟩ := readWidth_eq_some harity
    have hinputs := forall₂_of_mapM hbits
    have hbuilt : items.mapM (lutInput offset table)
        = .ok (bits.map (bitNumber offset table)) := by
      apply Outcome.mapM_of_forall₂ _ hinputs
      intro j bit hmem hbit
      apply lutInput_eq hbit ((hlabels.of_subset (List.subset_append_left _ _)).bit hmem)
    have hy := hlabels output (List.mem_append_right _ List.mem_cons_self)
    have hbitsLength : bits.length = arity := by rw [← hinputs.length_eq, hlength]
    have htruthLength := (forall₂_of_mapM htruth).length_eq
    refine ⟨bits, output, truth.reverse, rfl, by rw [hbitsLength]; apply hlt, ?_, ?_⟩
    · rw [List.length_reverse, ← htruthLength, htable, hbitsLength]
    · rw [buildLut, field_object_bind hparameters, field_object_bind hconnections,
        field_string_bind hwidth, hparse]
      simp only [Outcome.mapError, Outcome.ok_bind, check_of hlt]
      rw [field_array_bind hitems]
      simp only [check_of hlength, Outcome.ok_bind, hbuilt, pin_eq houtput hy]
      rw [field_string_bind hraw, Nat.one_shiftLeft, ← htable]
      simp only [Outcome.ok_bind, insertTable_eq htruth, hbitsLength]
      rfl

/-- Building a gate of a netlist emits it. -/
theorem buildGate_eq {g : GateType} {c : Cell (List UInt8)} (h : readGate cell g = some c)
    (hlabels : LabelsFit offset (c.reads ++ c.drives)) (s : State) :
  ∃ g' inputs output s' n, c = .gate g' inputs output
    ∧ buildGate offset table cell s g = .ok (s', n)
    ∧ Emits offset table g' inputs output s s' n
  := by
  cases g with
  | inv =>
      apply buildGate_of_pins h hlabels rfl
      intro xs y hxs
      obtain ⟨a, rfl⟩ := List.length_eq_one_iff.mp hxs
      refine ⟨_, rfl, rfl, fun _ _ => ⟨trivial, rfl, rfl⟩, ?_⟩
      intro lutTables bits hbits
      obtain ⟨x, rfl⟩ := List.length_eq_one_iff.mp hbits
      rfl
  | xor =>
      apply buildGate_of_pins h hlabels rfl
      intro xs y hxs
      obtain ⟨a, b, rfl⟩ := List.length_eq_two.mp hxs
      refine ⟨_, rfl, rfl, fun _ _ => ⟨trivial, rfl, rfl⟩, ?_⟩
      intro lutTables bits hbits
      obtain ⟨x, y, rfl⟩ := List.length_eq_two.mp hbits
      rfl
  | and =>
      apply buildGate_of_pins h hlabels rfl
      intro xs y hxs
      obtain ⟨a, b, rfl⟩ := List.length_eq_two.mp hxs
      refine ⟨_, rfl, rfl, fun _ _ => ⟨trivial, rfl, rfl⟩, ?_⟩
      intro lutTables bits hbits
      obtain ⟨x, y, rfl⟩ := List.length_eq_two.mp hbits
      rfl
  | and3 =>
      apply buildGate_of_pins h hlabels rfl
      intro xs y hxs
      obtain ⟨a, b, c, rfl⟩ := List.length_eq_three.mp hxs
      refine ⟨_, rfl, rfl, fun _ _ => ⟨trivial, rfl, rfl⟩, ?_⟩
      intro lutTables bits hbits
      obtain ⟨x, y, z, rfl⟩ := List.length_eq_three.mp hbits
      rfl
  | and4 =>
      apply buildGate_of_pins h hlabels rfl
      intro xs y hxs
      obtain ⟨a, xs, rfl⟩ := List.exists_cons_of_length_eq_add_one hxs
      obtain ⟨b, c, d, rfl⟩ := List.length_eq_three.mp (Nat.succ.inj hxs)
      refine ⟨_, rfl, rfl, fun _ _ => ⟨trivial, rfl, rfl⟩, ?_⟩
      intro lutTables bits hbits
      obtain ⟨w, bits, rfl⟩ := List.exists_cons_of_length_eq_add_one hbits
      obtain ⟨x, y, z, rfl⟩ := List.length_eq_three.mp (Nat.succ.inj hbits)
      rfl
  | lut =>
      obtain ⟨inputs, output, truth, rfl, harity, htruth, hlut⟩ :=
        buildLut_eq table h hlabels s.luts s.lutTables
      refine ⟨_, _, _, _, _, rfl, by rw [buildGate, hlut]; rfl, ?_⟩
      constructor
      · exact ⟨_, _, rfl⟩
      · simp [Node.LutInRange, htruth]
      · simp [Node.arityFits, harity]
      · rintro luts lutTables ⟨lutsRest, rfl⟩ ⟨tablesRest, rfl⟩ wires
        have hreads : ((s.luts ++ inputs.map (bitNumber offset table) ++ lutsRest).drop
            s.luts.length).take inputs.length = inputs.map (bitNumber offset table) := by
          rw [List.append_assoc, List.drop_left, List.take_left' (by simp)]
        have hindex := EvalCircuit.indexIntoTable_lt
          ((inputs.map (bitNumber offset table)).map wires)
        rw [List.length_map, List.length_map, ← htruth] at hindex
        simp only [StraightLine.exec, Node.assignment, Node.reads, Node.output, Node.fn, Gate.fn,
          hreads]
        rw [List.append_assoc, List.getD_append_right _ _ _ _ (Nat.le_add_right ..),
          Nat.add_sub_cancel_left, List.getD_append _ _ _ _ hindex]

end Gates

/-! ### Connections -/

section Connections

variable {α σ : Type} {direction : String} {read : Json × Json → Option α}
  {ports connections : List (List UInt8 × Json)}

/-- The bits of a connection with their positions, and what is read from them. -/
theorem forall₂_zipIdx {connectionList portList : List Json} {ys : List α}
    (hlength : connectionList.length = portList.length)
    (h : (connectionList.zip portList).mapM read = some ys) :
  List.Forall₂ (fun p y => ∃ portBit, portList[p.2]? = some portBit
    ∧ read (p.1, portBit) = some y) connectionList.zipIdx ys
  := by
  have hrest : ∀ (connectionList rest before : List Json) (ys : List α),
      connectionList.length = rest.length →
      List.Forall₂ (fun p y => read p = some y) (connectionList.zip rest) ys →
      List.Forall₂ (fun p y => ∃ portBit, (before ++ rest)[p.2]? = some portBit
        ∧ read (p.1, portBit) = some y) (connectionList.zipIdx before.length) ys := by
    intro connectionList
    induction connectionList with
    | nil =>
        intro rest before ys _ hys
        rw [List.zip_nil_left, List.forall₂_nil_left_iff] at hys
        rw [hys]
        apply List.Forall₂.nil
    | cons bit connectionList ih =>
        rintro (_ | ⟨portBit, rest⟩) before ys hlength hys
        · cases hlength
        · rw [List.zip_cons_cons] at hys
          obtain ⟨y, ys', hy, hys', rfl⟩ := List.forall₂_cons_left_iff.mp hys
          rw [List.zipIdx_cons]
          constructor
          · exact ⟨portBit, by simp, hy⟩
          · have hnext := ih rest (before ++ [portBit]) ys' (Nat.succ.inj hlength) hys'
            rw [List.length_append, List.length_singleton, List.append_assoc,
              List.singleton_append] at hnext
            apply hnext
  apply hrest connectionList portList [] ys hlength (forall₂_of_mapM h)

/-- The loop over the ports of a submodule follows what is read from its connections. -/
theorem connectPorts_eq {connectBit : List Json → σ → Json × Nat → Outcome Error σ}
    {g : σ → α → σ} {P : List α → σ → Prop}
    (step : ∀ portList p portBit y rest s, portList[p.2]? = some portBit →
      read (p.1, portBit) = some y → P (y :: rest) s →
      connectBit portList s p = .ok (g s y) ∧ P rest (g s y))
    {pairs : List α} (h : readConnections direction read ports connections = some pairs)
    {s : σ} (hs : P pairs s) :
  connectPorts direction connectBit ports connections s = .ok (pairs.foldl g s)
    ∧ P [] (pairs.foldl g s)
  := by
  obtain ⟨lists, hlists, rfl⟩ := Option.map_eq_some_iff.mp h
  rw [List.foldl_flatten]
  apply Outcome.foldlM_of_forall₂ (P := fun lists s => P lists.flatten s) _
    (forall₂_of_mapM hlists) [] (by rw [List.append_nil]; apply hs)
  intro entry list rest s hentry hs
  simp only [readConnection, Option.bind_eq_bind, Option.bind_eq_some_iff, Option.pure_def]
    at hentry
  obtain ⟨port, ⟨portJson, hport, hobject⟩, portDirection, hdirection, hentry⟩ := hentry
  rw [Json.object?_eq_some] at hobject
  rw [hobject] at hport
  rw [Json.field_eq_ok.mpr hport, Outcome.ok_bind, Json.asObject, Outcome.ok_bind,
    field_string_bind hdirection]
  split at hentry
  case isTrue hne =>
    obtain rfl := Option.some.inj hentry
    rw [if_pos hne]
    exact ⟨rfl, hs⟩
  case isFalse heq =>
    simp only [Option.bind_eq_some_iff] at hentry
    obtain ⟨portList, hportList, connectionList, harray, hentry⟩ := hentry
    split at hentry
    case isFalse => cases hentry
    case isTrue hlength =>
      rw [if_neg heq, field_array_bind hportList, Json.array?_eq_some.mp harray, Json.asArray,
        Outcome.ok_bind]
      apply Outcome.foldlM_of_forall₂ _ (forall₂_zipIdx hlength hentry) rest.flatten hs
      rintro p y rest s ⟨portBit, hportBit, hy⟩ hs
      apply step portList p portBit y rest s hportBit hy hs

variable {offset offset' : Nat} {table : WireTranslations}

/-- The wires of the connected inputs and the translation table of a submodule after a further input
is connected. -/
def connectInput (offset offset' : Nat) (table : WireTranslations)
    (s : List Nat × WireTranslations) (p : Bit × Nat) : List Nat × WireTranslations :=
  ((p.2 + offset') :: s.1,
    Function.update s.2 (p.2 + offset') (some (bitNumber offset table p.1)))

theorem foldl_connectInput_snd (offset offset' : Nat) (table : WireTranslations)
    (inputs : List (Bit × Nat)) (s : List Nat × WireTranslations) :
  (inputs.foldl (connectInput offset offset' table) s).2
    = inputs.foldl (fun inner p =>
        Function.update inner (p.2 + offset') (some (bitNumber offset table p.1))) s.2
  := by
  induction inputs generalizing s with
  | nil => rfl
  | cons p inputs ih =>
      rw [List.foldl_cons, List.foldl_cons, ih]
      rfl

/-- The inputs `rest` can still be connected: their wires are new, and all numbers fit. -/
def Connectable (offset offset' : Nat) (rest : List (Bit × Nat))
    (s : List Nat × WireTranslations) : Prop :=
  (∀ p ∈ rest, p.2 + offset' ∉ s.1 ∧ s.2 (p.2 + offset') = none)
    ∧ (rest.map Prod.snd).Nodup ∧ (∀ w ∈ s.1, s.2 w ≠ none)
    ∧ LabelsFit offset (nets (rest.map Prod.fst)) ∧ LabelsFit offset' (rest.map Prod.snd)

theorem Connectable.connectInput {p : Bit × Nat} {rest : List (Bit × Nat)}
    {s : List Nat × WireTranslations} (h : Connectable offset offset' (p :: rest) s) :
  Connectable offset offset' rest (connectInput offset offset' table s p)
  := by
  obtain ⟨hrest, hnodup, hwires, hfits, hfits'⟩ := h
  rw [List.forall_mem_cons] at hrest
  rw [List.map_cons, List.nodup_cons] at hnodup
  have hsubset : nets (rest.map Prod.fst) ⊆ nets ((p :: rest).map Prod.fst) := by
    intro l hl
    rw [mem_nets] at hl ⊢
    apply List.mem_cons_of_mem _ hl
  refine ⟨?_, hnodup.2, ?_, hfits.of_subset hsubset, hfits'.of_subset (List.subset_cons_self _ _)⟩
  · intro q hq
    have hne : q.2 ≠ p.2 := fun heq => hnodup.1 (heq ▸ List.mem_map_of_mem hq)
    simp only [Builder.connectInput]
    rw [List.mem_cons, not_or, Function.update_of_ne (by omega)]
    exact ⟨⟨by omega, (hrest.2 q hq).1⟩, (hrest.2 q hq).2⟩
  · intro w hw
    simp only [Builder.connectInput] at hw ⊢
    by_cases hwp : w = p.2 + offset'
    · rw [hwp, Function.update_self]
      simp
    · rw [Function.update_of_ne hwp]
      apply hwires w ((List.mem_cons.mp hw).resolve_left hwp)

/-- The inputs are connected as the netlist says. -/
theorem connectPorts_inputs (offset offset' : Nat) (table : WireTranslations)
    {inputs : List (Bit × Nat)}
    (h : readConnections "input" readInput ports connections = some inputs)
    (hnodup : (inputs.map Prod.snd).Nodup)
    (hfits : LabelsFit offset (nets (inputs.map Prod.fst)))
    (hfits' : LabelsFit offset' (inputs.map Prod.snd)) :
  ∃ wires, connectPorts "input" (connectInputBit offset offset' table) ports connections
      ([], fun _ => none) = .ok (wires, connectInputs offset offset' table inputs)
    ∧ ∀ w ∈ wires, connectInputs offset offset' table inputs w ≠ none
  := by
  have hstart : Connectable offset offset' inputs ([], fun _ => none) :=
    ⟨by simp, hnodup, by simp, hfits, hfits'⟩
  have hstep : ∀ (portList : List Json) (p : Json × Nat) (portBit : Json) (y : Bit × Nat)
      (rest : List (Bit × Nat)) (s : List Nat × WireTranslations),
      portList[p.2]? = some portBit → readInput (p.1, portBit) = some y →
      Connectable offset offset' (y :: rest) s →
      connectInputBit offset offset' table portList s p
          = .ok (connectInput offset offset' table s y)
        ∧ Connectable offset offset' rest (connectInput offset offset' table s y) := by
    rintro portList ⟨bit, k⟩ portBit ⟨b, l⟩ rest s hportBit hread hs
    refine ⟨?_, hs.connectInput⟩
    simp only [readInput, Option.bind_eq_bind, Option.bind_eq_some_iff, Option.pure_def,
      Option.some.injEq, Prod.mk.injEq] at hread
    obtain ⟨b', hb, l', hl, rfl, rfl⟩ := hread
    obtain ⟨hrest, -, -, hfits, hfits'⟩ := hs
    have hnew := hrest _ List.mem_cons_self
    rw [connectInputBit, translateConnectionBit_eq hb (hfits.bit List.mem_cons_self),
      Outcome.ok_bind, index_eq_ok.mpr hportBit, Outcome.ok_bind, readLabel_eq_some hl]
    simp only [intCast_natCast, Outcome.ok_bind, add_of (hfits' _ List.mem_cons_self),
      check_of hnew.1, check_of hnew.2]
    rfl
  obtain ⟨hconnect, _, _, hwires, _⟩ := connectPorts_eq hstep h hstart
  have htable := foldl_connectInput_snd offset offset' table inputs ([], fun _ => none)
  refine ⟨(inputs.foldl (connectInput offset offset' table) ([], fun _ => none)).1, ?_, ?_⟩
  · rw [hconnect, connectInputs, ← htable]
  · rw [connectInputs, ← htable]
    apply hwires

/-- The outputs are connected as the netlist says. -/
theorem connectPorts_outputs {outputs : List (Nat × Bit)}
    (h : readConnections "output" readOutput ports connections = some outputs)
    (hfits : LabelsFit offset (outputs.map Prod.fst))
    (hfits' : LabelsFit offset' (nets (outputs.map Prod.snd)))
    {wires : List Nat} {inner : WireTranslations} (hwires : ∀ w ∈ wires, inner w ≠ none) :
  connectPorts "output" (connectOutputBit offset offset' wires) ports connections (table, inner)
    = .ok (connectOutputs offset offset' (table, inner) outputs)
  := by
  apply (connectPorts_eq (g := connectOutput offset offset')
    (P := fun rest s => (∀ w ∈ wires, s.2 w ≠ none) ∧ LabelsFit offset (rest.map Prod.fst)
      ∧ LabelsFit offset' (nets (rest.map Prod.snd))) _ h ⟨hwires, hfits, hfits'⟩).1
  rintro portList ⟨bit, k⟩ portBit ⟨w, b⟩ rest s hportBit hread ⟨hs, hfits, hfits'⟩
  simp only [readOutput, Option.bind_eq_bind, Option.bind_eq_some_iff, Option.pure_def,
    Option.some.injEq, Prod.mk.injEq] at hread
  obtain ⟨w', hw, b', hb, rfl, rfl⟩ := hread
  have hrest : LabelsFit offset (rest.map Prod.fst) :=
    hfits.of_subset (List.subset_cons_self _ _)
  have hrest' : LabelsFit offset' (nets (rest.map Prod.snd)) := by
    intro l hl
    rw [mem_nets] at hl
    apply hfits' l (mem_nets.mpr (List.mem_cons_of_mem _ hl))
  rw [connectOutputBit, translateConnectionBit_label hw (hfits _ List.mem_cons_self),
    Outcome.ok_bind, index_eq_ok.mpr hportBit, Outcome.ok_bind]
  rcases readBit_eq_some hb with ⟨l, rfl, rfl⟩ | ⟨b, rfl, rfl⟩
  · simp only [intCast_natCast, Outcome.ok_bind, add_of (hfits' l List.mem_cons_self),
      connectOutputWire, connectOutput]
    rcases hinner : s.2 (l + offset') with _ | x
    · have hl : l + offset' ∉ wires := fun hmem => hs _ hmem hinner
      rw [if_neg hl]
      refine ⟨rfl, ?_, hrest, hrest'⟩
      intro v hv
      have hne : v ≠ l + offset' := fun heq => hl (heq ▸ hv)
      simp only [Function.update_of_ne hne]
      apply hs v hv
    · refine ⟨?_, hs, hrest, hrest'⟩
      split
      · rfl
      · rfl
  · simp only [constantOrXWire_eq, Outcome.ok_bind, connectOutput]
    exact ⟨rfl, hs, hrest, hrest'⟩

/-- A submodule is connected as the netlist says. -/
theorem connect_eq (offset offset' : Nat) (table : WireTranslations)
    {cell : List (List UInt8 × Json)} {cellType : List UInt8} {c : Cell (List UInt8)}
    (h : readSubmodule modules cell cellType = some c) :
  ∃ inputs outputs, c = .submodule cellType inputs outputs
    ∧ ((inputs.map Prod.snd).Nodup → LabelsFit offset (c.reads ++ c.drives) →
      LabelsFit offset' (inputs.map Prod.snd ++ nets (outputs.map Prod.snd)) →
      connect modules offset offset' table cell cellType
        = .ok (connectOutputs offset offset' (table, connectInputs offset offset' table inputs)
            outputs))
  := by
  simp only [readSubmodule, Option.bind_eq_bind, Option.bind_eq_some_iff, Option.pure_def,
    Option.some.injEq] at h
  obtain ⟨node, ⟨json, hjson, hnode⟩, ports, hports, connections, hconnections, inputs, hinputs,
    outputs, houtputs, rfl⟩ := h
  refine ⟨inputs, outputs, rfl, ?_⟩
  intro hnodup hfits hfits'
  obtain ⟨wires, hwires, hdomain⟩ := connectPorts_inputs offset offset' table hinputs hnodup
    (hfits.of_subset (List.subset_append_left _ _))
    (hfits'.of_subset (List.subset_append_left _ _))
  rw [connect, Json.field_eq_ok.mpr hjson, Outcome.ok_bind, Json.object?_eq_some.mp hnode,
    Json.asObject, Outcome.ok_bind, field_object_bind hports, field_object_bind hconnections,
    hwires, Outcome.ok_bind]
  apply connectPorts_outputs houtputs (hfits.of_subset (List.subset_append_right _ _))
    (hfits'.of_subset (List.subset_append_right _ _)) hdomain

end Connections

end Builder

end SynCirc

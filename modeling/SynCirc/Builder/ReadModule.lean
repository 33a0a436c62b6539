import SynCirc.Builder.Read

/-!
# Reading a module

What reading a module of a JSON netlist says about the module (`Reads`): its ports and cells are
those the builder goes through, its nets are labels of the module, and its largest label is found.
-/

namespace SynCirc

open Zig

namespace Builder

open Netlist

variable {modules : List (List UInt8 × Json)} {torder : List (List UInt8 × List (List UInt8))}

/-! ### Ports and cells -/

/-- What is collected from the ports is what is read from them. -/
theorem foldlM_ports {α : Type} {direction : String} {read : Json → Option α}
    {wire : List UInt8 → Json → Outcome Error Nat} {number : α → Nat}
    {ports : List (List UInt8 × Json)} {as : List α}
    (hwire : ∀ name j, ∀ a ∈ as, read j = some a → wire name j = .ok (number a))
    (h : readPorts direction read ports = some as) :
  ports.foldlM (fun (wires : List Nat) entry => do
      let port ← entry.2.asObject
      let portDirection ← (← Json.field port (bytes "direction")).asString
      if portDirection ≠ bytes direction then return wires else
      let bits ← (← Json.field port (bytes "bits")).asArray
      return wires ++ (← bits.mapM (wire entry.1))) []
    = .ok (as.map number)
  := by
  obtain ⟨lists, hlists, rfl⟩ := Option.map_eq_some_iff.mp h
  have hresult : ∀ (lists : List (List α)) (wires : List Nat),
      lists.foldl (fun wires list => wires ++ list.map number) wires
        = wires ++ lists.flatten.map number := by
    intro lists
    induction lists with
    | nil => simp
    | cons list lists ih =>
        intro wires
        rw [List.foldl_cons, ih, List.flatten_cons, List.map_append, List.append_assoc]
  rw [← List.nil_append (lists.flatten.map number), ← hresult]
  apply (Outcome.foldlM_of_forall₂ (P := fun rest _ => rest.flatten ⊆ lists.flatten) _
    (forall₂_of_mapM hlists) [] (by rw [List.append_nil]; exact List.Subset.refl _)).1
  rintro ⟨name, json⟩ list rest wires hentry hrest
  simp only [readPort, Option.bind_eq_bind, Option.bind_eq_some_iff, Option.pure_def] at hentry
  obtain ⟨port, hport, portDirection, hdirection, hentry⟩ := hentry
  rw [List.flatten_cons, List.append_subset] at hrest
  refine ⟨?_, hrest.2⟩
  rw [Json.object?_eq_some.mp hport, Json.asObject, Outcome.ok_bind, field_string_bind hdirection]
  split at hentry
  case isTrue hne =>
    obtain rfl := Option.some.inj hentry
    rw [if_pos hne, List.map_nil, List.append_nil]
    rfl
  case isFalse heq =>
    simp only [Option.bind_eq_some_iff] at hentry
    obtain ⟨bits, hbits, hentry⟩ := hentry
    have hmapM : bits.mapM (wire name) = .ok (list.map number) := by
      apply Outcome.mapM_of_forall₂ _ (forall₂_of_mapM hentry)
      intro j a hmem ha
      apply hwire name j a (hrest.1 hmem) ha
    rw [if_neg heq, field_array_bind hbits, hmapM]
    rfl

/-- What reading a module says about the netlist. -/
structure Reads (modules : List (List UInt8 × Json))
    (torder : List (List UInt8 × List (List UInt8))) (m : List UInt8)
    (module : Module (List UInt8)) (node ports cells : List (List UInt8 × Json))
    (names : List (List UInt8)) : Prop where
  node_eq : modules.lookup m = some (.object node)
  ports_eq : node.lookup (bytes "ports") = some (.object ports)
  inputs_eq : readPorts "input" readLabel ports = some module.inputs
  outputs_eq : readPorts "output" readBit ports = some module.outputs
  cells_eq : node.lookup (bytes "cells") = some (.object cells)
  names_eq : torder.lookup m = some names
  order : List.Forall₂ (fun name c => ∃ cell, cells.lookup name = some (.object cell)
    ∧ readCell modules cell = some c) names module.cells
  ports_shaped : ∀ entry ∈ ports, isPort entry.2
  cells_shaped : ∀ entry ∈ cells, isCell entry.2

theorem readModule_eq_some {m : List UInt8} {module : Module (List UInt8)}
    (h : readModule modules torder m = some module) :
  ∃ node ports cells names, Reads modules torder m module node ports cells names
  := by
  simp only [readModule, Option.bind_eq_bind, Option.bind_eq_some_iff, Option.pure_def] at h
  obtain ⟨node, ⟨json, hjson, hnode⟩, ports, hports, inputs, hinputs, outputs, houtputs, cells,
    hcells, names, hnames, order, horder, read, hread, h⟩ := h
  split at h
  case isFalse => cases h
  case isTrue hshape =>
    obtain rfl := Option.some.inj h
    refine ⟨node, ports, cells, names, ?_⟩
    constructor
    · rw [hjson, Json.object?_eq_some.mp hnode]
    · apply readObject_eq_some hports
    · apply hinputs
    · apply houtputs
    · apply readObject_eq_some hcells
    · apply hnames
    · have hcompose : ∀ (names : List (List UInt8)) (order : List (List (List UInt8 × Json)))
          (read : List (Cell (List UInt8))),
          List.Forall₂ (fun name cell => (cells.lookup name).bind Json.object? = some cell)
            names order →
          List.Forall₂ (fun cell c => readCell modules cell = some c) order read →
          List.Forall₂ (fun name c => ∃ cell, cells.lookup name = some (.object cell)
            ∧ readCell modules cell = some c) names read := by
        intro names order read hnames
        induction hnames generalizing read with
        | nil =>
            intro hread
            rw [List.forall₂_nil_left_iff.mp hread]
            apply List.Forall₂.nil
        | cons hname _ ih =>
            intro hread
            obtain ⟨c, read', hc, hread', rfl⟩ := List.forall₂_cons_left_iff.mp hread
            obtain ⟨j, hj, hobject⟩ := Option.bind_eq_some_iff.mp hname
            refine .cons ⟨_, ?_, hc⟩ (ih read' hread')
            rw [hj, Json.object?_eq_some.mp hobject]
      apply hcompose names order read (forall₂_of_mapM horder) (forall₂_of_mapM hread)
    · simpa using hshape.1
    · simpa using hshape.2.1

variable {m : List UInt8} {module : Module (List UInt8)}
  {node ports cells : List (List UInt8 × Json)} {names : List (List UInt8)}

/-- What is collected from the ports of a module is what is read from them. -/
theorem Reads.collectPorts_eq (h : Reads modules torder m module node ports cells names) {α : Type}
    {direction : String} {read : Json → Option α} {as : List α}
    (hread : readPorts direction read ports = some as)
    {wire : List UInt8 → Json → Outcome Error Nat} {number : α → Nat}
    (hwire : ∀ name j, ∀ a ∈ as, read j = some a → wire name j = .ok (number a)) :
  collectPorts modules direction wire m = .ok (as.map number)
  := by
  rw [collectPorts, h.node_eq]
  simp only [Json.asObject_object, Outcome.ok_bind, h.ports_eq]
  apply foldlM_ports hwire hread

/-- The input wires of the circuit are the inputs of the module. -/
theorem Reads.buildInputs_eq (h : Reads modules torder m module node ports cells names) :
  buildInputs modules m = .ok module.inputs
  := by
  have hports : buildInputs modules m = .ok (module.inputs.map id) := by
    apply h.collectPorts_eq h.inputs_eq
    intro name j l _ hl
    rw [readLabel_eq_some hl]
    apply intCast_natCast
  rw [hports, List.map_id]

/-- The output wires of the circuit are the wires of the outputs of the module. -/
theorem Reads.buildOutputs_eq (h : Reads modules torder m module node ports cells names)
    {offset : Nat} (hfits : LabelsFit offset (nets module.outputs)) (table : WireTranslations) :
  buildOutputs modules m offset table = .ok (module.outputs.map (bitNumber offset table))
  := by
  apply h.collectPorts_eq h.outputs_eq
  intro name j bit hmem hbit
  rcases readBit_eq_some hbit with ⟨l, rfl, rfl⟩ | ⟨b, rfl, rfl⟩
  · simp only [intCast_natCast, Outcome.ok_bind,
      translateWireNumber_of (hfits l (mem_nets.mpr hmem))]
    rfl
  · apply constantWire_eq

/-- The cells to be built are the cells of the module. -/
theorem Reads.cellOrder_eq (h : Reads modules torder m module node ports cells names)
    {i : ModuleInstantiation} (hi : i.moduleName = m) :
  cellOrder modules torder i = .ok (names.map (fun name => (.object cells, name)))
  := by
  rw [cellOrder, hi, h.node_eq]
  simp only [Json.asObject_object, Outcome.ok_bind, h.cells_eq, h.names_eq]

/-! ### Labels -/

/-- What is read from the ports is read from bits of the module. -/
theorem Reads.mem_ports (h : Reads modules torder m module node ports cells names) {α : Type}
    {direction : String} {read : Json → Option α} {as : List α}
    (hread : readPorts direction read ports = some as) {a : α} (ha : a ∈ as) :
  ∃ bits j, HasBits modules m bits ∧ j ∈ bits ∧ read j = some a
  := by
  obtain ⟨lists, hlists, rfl⟩ := Option.map_eq_some_iff.mp hread
  obtain ⟨list, hlist, ha⟩ := List.mem_flatten.mp ha
  obtain ⟨⟨name, json⟩, hentry, hport⟩ := exists_mem_of_forall₂ (forall₂_of_mapM hlists) hlist
  simp only [readPort, Option.bind_eq_bind, Option.bind_eq_some_iff, Option.pure_def] at hport
  obtain ⟨port, hobject, portDirection, _, hport⟩ := hport
  split at hport
  case isTrue =>
    obtain rfl := Option.some.inj hport
    cases ha
  case isFalse =>
    simp only [Option.bind_eq_some_iff] at hport
    obtain ⟨bits, hbits, hmapM⟩ := hport
    obtain ⟨j, hj, hread⟩ := exists_mem_of_forall₂ (forall₂_of_mapM hmapM) ha
    rw [Json.object?_eq_some] at hobject
    exact ⟨bits, j, .port h.node_eq h.ports_eq (hobject ▸ hentry) (readArray_eq_some hbits), hj,
      hread⟩

theorem readBit_net {j : Json} {l : Nat} (h : readBit j = some (.net l)) :
  j = .integer l
  := by
  rcases readBit_eq_some h with ⟨l', hj, hl⟩ | ⟨b, _, hb⟩
  · rw [Bit.net.injEq] at hl
    rw [hl, hj]
  · cases hb

/-- The inputs of a module are labels of it. -/
theorem Reads.hasLabel_input (h : Reads modules torder m module node ports cells names) {l : Nat}
    (hl : l ∈ module.inputs) :
  HasLabel modules m l
  := by
  obtain ⟨bits, j, hbits, hj, hread⟩ := h.mem_ports h.inputs_eq hl
  exact ⟨bits, hbits, readLabel_eq_some hread ▸ hj⟩

/-- The nets among the outputs of a module are labels of it. -/
theorem Reads.hasLabel_output (h : Reads modules torder m module node ports cells names) {l : Nat}
    (hl : .net l ∈ module.outputs) :
  HasLabel modules m l
  := by
  obtain ⟨bits, j, hbits, hj, hread⟩ := h.mem_ports h.outputs_eq hl
  exact ⟨bits, hbits, readBit_net hread ▸ hj⟩

/-- The label `l` is connected to a pin. -/
def IsConnected (cell : List (List UInt8 × Json)) (l : Nat) : Prop :=
  ∃ connections pin bits, cell.lookup (bytes "connections") = some (.object connections)
    ∧ (pin, .array bits) ∈ connections ∧ .integer l ∈ bits

theorem isConnected_of_readWire {cell connections : List (List UInt8 × Json)} {pin : List UInt8}
    {j : Json} {l : Nat} (hconnections : readObject cell "connections" = some connections)
    (hpin : connections.lookup pin = some j) (h : readWire j = some l) :
  IsConnected cell l
  := by
  rw [readWire_eq_some h] at hpin
  exact ⟨connections, pin, _, readObject_eq_some hconnections, Json.mem_of_lookup hpin,
    List.mem_singleton_self _⟩

theorem isConnected_of_readPin {cell connections : List (List UInt8 × Json)} {name : String}
    {l : Nat} (hconnections : readObject cell "connections" = some connections)
    (h : readPin connections name = some l) :
  IsConnected cell l
  := by
  obtain ⟨j, hj, hwire⟩ := Option.bind_eq_some_iff.mp h
  apply isConnected_of_readWire hconnections hj hwire

theorem isConnected_of_readOutputPin {cell connections : List (List UInt8 × Json)} {l : Nat}
    (hconnections : readObject cell "connections" = some connections)
    (h : readOutputPin connections = some l) :
  IsConnected cell l
  := by
  unfold readOutputPin at h
  split at h
  case h_1 j hj => apply isConnected_of_readWire hconnections hj h
  case h_2 => apply isConnected_of_readPin hconnections h

/-- The nets of a gate are connected to its pins. -/
theorem isConnected_of_readGate {cell : List (List UInt8 × Json)} {g : GateType}
    {c : Cell (List UInt8)} (h : readGate cell g = some c) :
  ∀ l ∈ c.reads ++ c.drives, IsConnected cell l
  := by
  have hpins : ∀ {g pins}, readPins g pins cell = some c →
      ∀ l ∈ c.reads ++ c.drives, IsConnected cell l := by
    intro g pins h
    simp only [readPins, Option.bind_eq_bind, Option.bind_eq_some_iff, Option.pure_def,
      Option.some.injEq] at h
    obtain ⟨connections, hconnections, inputs, hinputs, output, houtput, rfl⟩ := h
    simp only [Cell.reads, Cell.drives, List.forall_mem_append, List.forall_mem_singleton]
    constructor
    · intro l hl
      rw [mem_nets, List.mem_map] at hl
      obtain ⟨l', hl', heq⟩ := hl
      rw [Bit.net.injEq] at heq
      obtain ⟨name, _, hpin⟩ := exists_mem_of_forall₂ (forall₂_of_mapM hinputs) hl'
      rw [← heq]
      apply isConnected_of_readPin hconnections hpin
    · apply isConnected_of_readOutputPin hconnections houtput
  cases g with
  | inv => apply hpins h
  | xor => apply hpins h
  | and => apply hpins h
  | and3 => apply hpins h
  | and4 => apply hpins h
  | lut =>
      simp only [readGate, readLut, Option.bind_eq_bind, Option.bind_eq_some_iff,
        Option.pure_def] at h
      obtain ⟨parameters, _, connections, hconnections, _, _, _, _, items, hitems, bits, hbits,
        output, houtput, _, _, _, _, h⟩ := h
      split at h
      case isFalse => cases h
      case isTrue =>
        obtain rfl := Option.some.inj h
        simp only [Cell.reads, Cell.drives, List.forall_mem_append, List.forall_mem_singleton]
        constructor
        · intro l hl
          rw [mem_nets] at hl
          obtain ⟨j, hj, hbit⟩ := exists_mem_of_forall₂ (forall₂_of_mapM hbits) hl
          exact ⟨connections, _, items, readObject_eq_some hconnections,
            Json.mem_of_lookup (readArray_eq_some hitems), readBit_net hbit ▸ hj⟩
        · apply isConnected_of_readPin hconnections houtput

/-- What is read from the connections of a submodule is read from bits connected to its pins. -/
theorem mem_connections {α : Type} {direction : String} {read : Json × Json → Option α}
    {ports connections : List (List UInt8 × Json)} {pairs : List α}
    (h : readConnections direction read ports connections = some pairs) {a : α} (ha : a ∈ pairs) :
  ∃ pin bits j j', (pin, .array bits) ∈ connections ∧ j ∈ bits ∧ read (j, j') = some a
  := by
  obtain ⟨lists, hlists, rfl⟩ := Option.map_eq_some_iff.mp h
  obtain ⟨list, hlist, ha⟩ := List.mem_flatten.mp ha
  obtain ⟨⟨pin, json⟩, hentry, hconnection⟩ :=
    exists_mem_of_forall₂ (forall₂_of_mapM hlists) hlist
  simp only [readConnection, Option.bind_eq_bind, Option.bind_eq_some_iff, Option.pure_def]
    at hconnection
  obtain ⟨port, _, portDirection, _, hconnection⟩ := hconnection
  split at hconnection
  case isTrue =>
    obtain rfl := Option.some.inj hconnection
    cases ha
  case isFalse =>
    simp only [Option.bind_eq_some_iff] at hconnection
    obtain ⟨portList, _, connectionList, harray, hconnection⟩ := hconnection
    split at hconnection
    case isFalse => cases hconnection
    case isTrue =>
      obtain ⟨⟨j, j'⟩, hj, hread⟩ := exists_mem_of_forall₂ (forall₂_of_mapM hconnection) ha
      rw [Json.array?_eq_some] at harray
      exact ⟨pin, connectionList, j, j', harray ▸ hentry, (List.of_mem_zip hj).1, hread⟩

/-- The nets of a submodule are connected to its pins. -/
theorem isConnected_of_readSubmodule {cell : List (List UInt8 × Json)} {cellType : List UInt8}
    {c : Cell (List UInt8)} (h : readSubmodule modules cell cellType = some c) :
  ∀ l ∈ c.reads ++ c.drives, IsConnected cell l
  := by
  simp only [readSubmodule, Option.bind_eq_bind, Option.bind_eq_some_iff, Option.pure_def,
    Option.some.injEq] at h
  obtain ⟨_, _, ports, _, connections, hconnections, inputs, hinputs, outputs, houtputs, rfl⟩ := h
  simp only [Cell.reads, Cell.drives, List.forall_mem_append]
  constructor
  · intro l hl
    rw [mem_nets, List.mem_map] at hl
    obtain ⟨p, hp, hl⟩ := hl
    obtain ⟨pin, bits, j, j', hpin, hj, hread⟩ := mem_connections hinputs hp
    simp only [readInput, Option.bind_eq_bind, Option.bind_eq_some_iff, Option.pure_def,
      Option.some.injEq] at hread
    obtain ⟨bit, hbit, _, _, rfl⟩ := hread
    rw [show bit = .net l from hl] at hbit
    exact ⟨connections, pin, bits, readObject_eq_some hconnections, hpin, readBit_net hbit ▸ hj⟩
  · intro l hl
    obtain ⟨p, hp, rfl⟩ := List.mem_map.mp hl
    obtain ⟨pin, bits, j, j', hpin, hj, hread⟩ := mem_connections houtputs hp
    simp only [readOutput, Option.bind_eq_bind, Option.bind_eq_some_iff, Option.pure_def,
      Option.some.injEq] at hread
    obtain ⟨l, hlabel, _, _, rfl⟩ := hread
    exact ⟨connections, pin, bits, readObject_eq_some hconnections, hpin,
      readLabel_eq_some hlabel ▸ hj⟩

/-- The nets of a cell are labels of its module. -/
theorem Reads.hasLabel_cell (h : Reads modules torder m module node ports cells names)
    {c : Cell (List UInt8)} (hc : c ∈ module.cells) {l : Nat} (hl : l ∈ c.reads ++ c.drives) :
  HasLabel modules m l
  := by
  obtain ⟨name, _, cell, hlookup, hcell⟩ := exists_mem_of_forall₂ h.order hc
  have hconnected : IsConnected cell l := by
    simp only [readCell, Option.bind_eq_bind, Option.bind_eq_some_iff] at hcell
    obtain ⟨cellType, _, hcell⟩ := hcell
    split at hcell
    case h_1 g _ => apply isConnected_of_readGate hcell l hl
    case h_2 => apply isConnected_of_readSubmodule hcell l hl
  obtain ⟨connections, pin, bits, hconnections, hpin, hmem⟩ := hconnected
  exact ⟨bits, .connection h.node_eq h.cells_eq (Json.mem_of_lookup hlookup) hconnections hpin,
    hmem⟩

/-! ### The largest label -/

/-- The largest label of a list of bits is found. -/
theorem exists_maxLabelOfBits {bits : List Json} (h : isBits (.array bits)) (a : Nat) :
  ∃ b, maxLabelOfBits a bits = .ok b
  := by
  apply Outcome.exists_foldlM_eq_ok
  intro bit hbit a
  have hshape := List.all_eq_true.mp h bit hbit
  split at hshape
  case h_1 l => exact ⟨max a l, rfl⟩
  case h_2 => exact ⟨a, rfl⟩
  case h_3 => cases hshape

/-- What has the shape of a list of bits is an array. -/
theorem exists_of_isBits {j : Json} (h : isBits j) :
  ∃ bits, j = .array bits
  := by
  cases j with
  | array bits => exact ⟨bits, rfl⟩
  | _ => cases h

theorem exists_maxLabelOfPorts {ports : List (List UInt8 × Json)}
    (h : ∀ entry ∈ ports, isPort entry.2) (a : Nat) :
  ∃ b, maxLabelOfPorts a (some (.object ports)) = .ok b
  := by
  apply Outcome.exists_foldlM_eq_ok
  rintro ⟨name, json⟩ hentry a
  have hshape := h _ hentry
  cases json with
  | object port =>
      obtain ⟨j, hlookup, hbits⟩ := Option.any_eq_true _ _ |>.mp hshape
      obtain ⟨bits, rfl⟩ := exists_of_isBits hbits
      obtain ⟨b, hb⟩ := exists_maxLabelOfBits hbits a
      use b
      simp only [Json.asObject_object, Outcome.ok_bind, Json.field_eq_ok.mpr hlookup]
      apply hb
  | _ => cases hshape

theorem exists_maxLabelOfCells {cells : List (List UInt8 × Json)}
    (h : ∀ entry ∈ cells, isCell entry.2) (a : Nat) :
  ∃ b, maxLabelOfCells a (some (.object cells)) = .ok b
  := by
  apply Outcome.exists_foldlM_eq_ok
  rintro ⟨name, json⟩ hentry a
  have hshape := h _ hentry
  cases json with
  | object cell =>
      simp only [isCell] at hshape
      split at hshape
      case h_1 connections hlookup =>
        simp only [Json.asObject_object, Outcome.ok_bind, Json.field_eq_ok.mpr hlookup]
        apply Outcome.exists_foldlM_eq_ok
        rintro ⟨pin, list⟩ hconnection a
        have hbits := List.all_eq_true.mp hshape _ hconnection
        obtain ⟨bits, rfl⟩ := exists_of_isBits hbits
        apply exists_maxLabelOfBits hbits a
      case h_2 => cases hshape
  | _ => cases hshape

/-- The largest label of a module that can be read is found. -/
theorem Reads.exists_findMaxWireLabel
    (h : Reads modules torder m module node ports cells names) :
  ∃ maxWireLabel, findMaxWireLabel modules m = .ok maxWireLabel
  := by
  obtain ⟨a, ha⟩ := exists_maxLabelOfPorts h.ports_shaped 0
  obtain ⟨b, hb⟩ := exists_maxLabelOfCells h.cells_shaped a
  use b
  rw [findMaxWireLabel, Json.field_eq_ok.mpr h.node_eq, Outcome.ok_bind, Json.asObject_object,
    Outcome.ok_bind, h.ports_eq, ha, Outcome.ok_bind, h.cells_eq, hb]

end Builder

end SynCirc

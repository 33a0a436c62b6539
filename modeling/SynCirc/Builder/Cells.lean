import SynCirc.Builder.Basic

/-!
# What building a cell does

The lemmas of this module say, for each function of the builder that has returned, what it has read
in the netlist and what it has returned.
-/

namespace SynCirc

open Zig

namespace Builder

variable {modules : List (List UInt8 × Json)} {torder : List (List UInt8 × List (List UInt8))}

/-- The cells of the module `m`, as the object of all cells. -/
def HasCells (modules : List (List UInt8 × Json)) (m : List UInt8) (cells : Json) : Prop :=
  ∃ node, modules.lookup m = some (.object node) ∧ node.lookup (bytes "cells") = some cells

/-- The module `m` has the cell `cell`, of the type `cellType`. -/
def HasCell (modules : List (List UInt8 × Json)) (m : List UInt8)
    (cell : List (List UInt8 × Json)) (cellType : List UInt8) : Prop :=
  ∃ cells name, HasCells modules m (.object cells) ∧ cells.lookup name = some (.object cell)
    ∧ cell.lookup (bytes "type") = some (.string cellType)

theorem HasCells.unique {m : List UInt8} {cells cells' : Json} (h : HasCells modules m cells)
    (h' : HasCells modules m cells') :
  cells = cells'
  := by
  obtain ⟨node, hnode, hcells⟩ := h
  obtain ⟨node', hnode', hcells'⟩ := h'
  rw [hnode, Option.some.injEq, Json.object.injEq] at hnode'
  rw [← hnode', hcells, Option.some.injEq] at hcells'
  apply hcells'

/-- The cells to be built are the cells of the module, in the order of its torder. -/
theorem cellOrder_eq_ok {i : ModuleInstantiation} {cs : List (Json × List UInt8)}
    (h : cellOrder modules torder i = .ok cs) :
  ∃ cells names, HasCells modules i.moduleName cells ∧ torder.lookup i.moduleName = some names
    ∧ cs = names.map (fun name => (cells, name))
  := by
  rw [cellOrder] at h
  split at h
  · cases h
  case h_2 moduleNode hmodule =>
    obtain ⟨node, hnode, h⟩ := Outcome.bind_eq_ok.mp h
    rw [Json.asObject_eq_ok] at hnode
    rw [hnode] at hmodule
    split at h
    · cases h
    case h_2 cells hcells =>
      split at h
      · cases h
      case h_2 names hnames =>
        exact ⟨cells, names, ⟨node, hmodule, hcells⟩, hnames, (Outcome.ok.inj h).symm⟩

/-- Building a cell builds the gate of a gate cell and instantiates the module of an instance
cell. -/
theorem buildCell_eq_ok {i : ModuleInstantiation} {c : Json × List UInt8} {s s' : State}
    {r : Node ⊕ ModuleInstantiation} (h : buildCell modules i c s = .ok (s', r)) :
  ∃ cells cell cellType, c.1 = .object cells ∧ cells.lookup c.2 = some (.object cell)
    ∧ cell.lookup (bytes "type") = some (.string cellType)
    ∧ ((∃ g n, gateType cellType = some g ∧ r = .inl n
        ∧ buildGate i.wireNumberOffset (s.tables.cell i.connections) cell s g = .ok (s', n))
      ∨ ∃ j, gateType cellType = none ∧ (modules.lookup cellType).isSome ∧ r = .inr j
        ∧ instantiate modules i cell cellType s = .ok (s', j))
  := by
  simp only [buildCell] at h
  obtain ⟨cells, hcells, h⟩ := Outcome.bind_eq_ok.mp h
  obtain ⟨cellJson, hcell, h⟩ := Outcome.bind_eq_ok.mp h
  obtain ⟨cell, hobject, h⟩ := Outcome.bind_eq_ok.mp h
  obtain ⟨typeJson, htype, h⟩ := Outcome.bind_eq_ok.mp h
  obtain ⟨cellType, hstring, h⟩ := Outcome.bind_eq_ok.mp h
  rw [Json.asObject_eq_ok] at hcells hobject
  rw [Json.field_eq_ok] at hcell htype
  rw [Json.asString_eq_ok] at hstring
  rw [hobject] at hcell
  rw [hstring] at htype
  refine ⟨cells, cell, cellType, hcells, hcell, htype, ?_⟩
  split at h
  case h_1 g hg =>
    obtain ⟨⟨s₁, n⟩, hbuild, h⟩ := Outcome.bind_eq_ok.mp h
    obtain ⟨rfl, rfl⟩ := Prod.mk.inj (Outcome.ok.inj h)
    exact .inl ⟨g, n, hg, rfl, hbuild⟩
  case h_2 hg =>
    split at h
    case isTrue hmodule =>
      obtain ⟨⟨s₁, j⟩, hinst, h⟩ := Outcome.bind_eq_ok.mp h
      obtain ⟨rfl, rfl⟩ := Prod.mk.inj (Outcome.ok.inj h)
      exact .inr ⟨j, hg, hmodule, rfl, hinst⟩
    · cases h

/-- Instantiating a submodule allocates its translation table and puts it at the next free wire
number. -/
theorem instantiate_eq_ok {i j : ModuleInstantiation} {cell : List (List UInt8 × Json)}
    {cellType : List UInt8} {s s' : State}
    (h : instantiate modules i cell cellType s = .ok (s', j)) :
  ∃ t t', connect modules i.wireNumberOffset s.nextFreeWireNumber
      (s.tables.cell i.connections) cell cellType = .ok (t, t')
    ∧ s' = { s with tables := (s.tables.set i.connections t).push t' }
    ∧ j = ⟨cellType, s.nextFreeWireNumber, s.tables.len⟩
  := by
  rw [instantiate] at h
  obtain ⟨⟨t, t'⟩, hconnect, h⟩ := Outcome.bind_eq_ok.mp h
  obtain ⟨rfl, rfl⟩ := Prod.mk.inj (Outcome.ok.inj h)
  exact ⟨t, t', hconnect, rfl, rfl⟩

/-- A cell of the walk over a module is a cell of the module. -/
theorem hasCell_of_mem {i : ModuleInstantiation} {cs : List (Json × List UInt8)}
    (hcs : cellOrder modules torder i = .ok cs) {c : Json × List UInt8} (hc : c ∈ cs)
    {cells cell : List (List UInt8 × Json)} {cellType : List UInt8} (hcells : c.1 = .object cells)
    (hcell : cells.lookup c.2 = some (.object cell))
    (htype : cell.lookup (bytes "type") = some (.string cellType)) :
  HasCell modules i.moduleName cell cellType
  := by
  obtain ⟨cells', names, hhas, _, rfl⟩ := cellOrder_eq_ok hcs
  obtain ⟨name, _, rfl⟩ := List.mem_map.mp hc
  exact ⟨cells, name, hcells ▸ hhas, hcell, htype⟩

/-! ### Labels -/

/-- The bits of a port or of a connection of a cell of the module `m`. -/
inductive HasBits (modules : List (List UInt8 × Json)) (m : List UInt8) (bits : List Json) : Prop
  | port {node ports port : List (List UInt8 × Json)} {name : List UInt8}
      (hnode : modules.lookup m = some (.object node))
      (hports : node.lookup (bytes "ports") = some (.object ports))
      (hport : (name, .object port) ∈ ports)
      (hbits : port.lookup (bytes "bits") = some (.array bits))
  | connection {node cells cell connections : List (List UInt8 × Json)} {name pin : List UInt8}
      (hnode : modules.lookup m = some (.object node))
      (hcells : node.lookup (bytes "cells") = some (.object cells))
      (hcell : (name, .object cell) ∈ cells)
      (hconnections : cell.lookup (bytes "connections") = some (.object connections))
      (hpin : (pin, .array bits) ∈ connections)

/-- The label `l` occurs in the module `m`. -/
def HasLabel (modules : List (List UInt8 × Json)) (m : List UInt8) (l : Nat) : Prop :=
  ∃ bits, HasBits modules m bits ∧ .integer l ∈ bits

/-- A pin of a cell of a module is connected to bits of the module. -/
theorem HasCell.hasBits {m : List UInt8} {cell connections : List (List UInt8 × Json)}
    {cellType pin : List UInt8} {bits : List Json} (hcell : HasCell modules m cell cellType)
    (hconnections : cell.lookup (bytes "connections") = some (.object connections))
    (hpin : (pin, .array bits) ∈ connections) :
  HasBits modules m bits
  := by
  obtain ⟨cells, name, ⟨node, hnode, hcells⟩, hcell, _⟩ := hcell
  exact .connection hnode hcells (Json.mem_of_lookup hcell) hconnections hpin

/-- The labels among the bits are at most `maxWireLabel`. -/
def Bounded (bits : List Json) (maxWireLabel : Nat) : Prop :=
  ∀ int : Int, .integer int ∈ bits → ∃ l : Nat, int = l ∧ l ≤ maxWireLabel

theorem Bounded.mono {bits : List Json} {a b : Nat} (h : Bounded bits a) (hab : a ≤ b) :
  Bounded bits b
  := by
  intro int hint
  obtain ⟨l, hl, hle⟩ := h int hint
  exact ⟨l, hl, by omega⟩

theorem maxLabelOfBits_eq_ok {a b : Nat} {bits : List Json}
    (h : maxLabelOfBits a bits = .ok b) :
  a ≤ b ∧ Bounded bits b
  := by
  induction bits generalizing a with
  | nil =>
      obtain rfl := Outcome.ok.inj h
      exact ⟨Nat.le_refl a, by simp [Bounded]⟩
  | cons bit bits ih =>
      rw [maxLabelOfBits, List.foldlM_cons] at h
      obtain ⟨a₁, hbit, h⟩ := Outcome.bind_eq_ok.mp h
      obtain ⟨hle, hbits⟩ := ih h
      have hfirst : a ≤ a₁ ∧ Bounded [bit] a₁ := by
        split at hbit
        case h_1 int =>
          obtain ⟨l, hl, hbit⟩ := Outcome.bind_eq_ok.mp hbit
          obtain rfl := Outcome.ok.inj hbit
          rw [intCast_eq_ok] at hl
          refine ⟨by omega, ?_⟩
          intro int' hint
          rw [List.mem_singleton, Json.integer.injEq] at hint
          exact ⟨l, hint.trans hl, by omega⟩
        case h_2 hother =>
          obtain rfl := Outcome.ok.inj hbit
          refine ⟨Nat.le_refl a, ?_⟩
          intro int hint
          apply absurd (List.mem_singleton.mp hint).symm (hother int)
      refine ⟨by omega, ?_⟩
      intro int hint
      rcases List.mem_cons.mp hint with rfl | hint
      · apply hfirst.2.mono hle int (List.mem_singleton_self _)
      · apply hbits int hint

/-- A loop that keeps a running maximum of labels bounds what each of its turns bounds. -/
theorem foldlM_max {α : Type} {f : Nat → α → Outcome Error Nat} {B : α → List Json → Prop}
    {xs : List α} (step : ∀ x a b, f a x = .ok b → a ≤ b ∧ ∀ bits, B x bits → Bounded bits b)
    {a b : Nat} (h : xs.foldlM f a = .ok b) :
  a ≤ b ∧ ∀ x ∈ xs, ∀ bits, B x bits → Bounded bits b
  := by
  constructor
  · apply Outcome.foldlM_induct (P := fun c => a ≤ c) _ (Nat.le_refl a) h
    intro x _ s s' hs hstep
    apply Nat.le_trans hs (step x s s' hstep).1
  · apply (Outcome.foldlM_forall (P := fun x c => ∀ bits, B x bits → Bounded bits c) _ _ h).1
    · intro x s s' hstep
      apply (step x s s' hstep).2
    · intro x s s' hstep y hy bits hbits
      apply (hy bits hbits).mono (step x s s' hstep).1

/-- The labels of the ports are bounded by their maximum. -/
theorem maxLabelOfPorts_eq_ok {a b : Nat} {ports : Option Json}
    (h : maxLabelOfPorts a ports = .ok b) :
  a ≤ b ∧ ∀ fields, ports = some (.object fields) → ∀ entry ∈ fields, ∀ port bits,
    entry.2 = .object port → port.lookup (bytes "bits") = some (.array bits) → Bounded bits b
  := by
  rcases ports with _ | ports
  · obtain rfl := Outcome.ok.inj h
    exact ⟨Nat.le_refl a, by simp⟩
  · rw [maxLabelOfPorts] at h
    obtain ⟨fields, hfields, h⟩ := Outcome.bind_eq_ok.mp h
    rw [Json.asObject_eq_ok] at hfields
    have hfold := foldlM_max (B := fun entry bits => ∃ port, entry.2 = .object port
      ∧ port.lookup (bytes "bits") = some (.array bits)) ?_ h
    · refine ⟨hfold.1, ?_⟩
      rintro fields' hfields' entry hentry port bits hport hbits
      rw [hfields, Option.some.injEq, Json.object.injEq] at hfields'
      apply hfold.2 entry (hfields' ▸ hentry) bits ⟨port, hport, hbits⟩
    · intro entry a b hstep
      obtain ⟨port, hport, hstep⟩ := Outcome.bind_eq_ok.mp hstep
      obtain ⟨bitsJson, hbits, hstep⟩ := Outcome.bind_eq_ok.mp hstep
      obtain ⟨bits, harray, hstep⟩ := Outcome.bind_eq_ok.mp hstep
      rw [Json.asObject_eq_ok] at hport
      rw [Json.field_eq_ok] at hbits
      rw [Json.asArray_eq_ok] at harray
      obtain ⟨hle, hbound⟩ := maxLabelOfBits_eq_ok hstep
      refine ⟨hle, ?_⟩
      rintro bits' ⟨port', hport', hbits'⟩
      rw [hport, Json.object.injEq] at hport'
      rw [← hport', hbits, harray, Option.some.injEq, Json.array.injEq] at hbits'
      apply hbits' ▸ hbound

/-- The labels of the connections of the cells are bounded by their maximum. -/
theorem maxLabelOfCells_eq_ok {a b : Nat} {cells : Option Json}
    (h : maxLabelOfCells a cells = .ok b) :
  a ≤ b ∧ ∀ fields, cells = some (.object fields) → ∀ entry ∈ fields, ∀ cell connections pin bits,
    entry.2 = .object cell → cell.lookup (bytes "connections") = some (.object connections) →
    (pin, .array bits) ∈ connections → Bounded bits b
  := by
  rcases cells with _ | cells
  · obtain rfl := Outcome.ok.inj h
    exact ⟨Nat.le_refl a, by simp⟩
  · rw [maxLabelOfCells] at h
    obtain ⟨fields, hfields, h⟩ := Outcome.bind_eq_ok.mp h
    rw [Json.asObject_eq_ok] at hfields
    have hfold := foldlM_max (B := fun entry bits => ∃ cell connections pin,
      entry.2 = .object cell ∧ cell.lookup (bytes "connections") = some (.object connections)
      ∧ (pin, .array bits) ∈ connections) ?_ h
    · refine ⟨hfold.1, ?_⟩
      rintro fields' hfields' entry hentry cell connections pin bits hcell hconnections hpin
      rw [hfields, Option.some.injEq, Json.object.injEq] at hfields'
      apply hfold.2 entry (hfields' ▸ hentry) bits
      exact ⟨cell, connections, pin, hcell, hconnections, hpin⟩
    · intro entry a b hstep
      obtain ⟨cell, hcell, hstep⟩ := Outcome.bind_eq_ok.mp hstep
      obtain ⟨json, hjson, hstep⟩ := Outcome.bind_eq_ok.mp hstep
      obtain ⟨connections, hobject, hstep⟩ := Outcome.bind_eq_ok.mp hstep
      rw [Json.asObject_eq_ok] at hcell hobject
      rw [Json.field_eq_ok] at hjson
      have hpins := foldlM_max (B := fun entry bits => entry.2 = .array bits) ?_ hstep
      · refine ⟨hpins.1, ?_⟩
        rintro bits ⟨cell', connections', pin, hcell', hconnections', hpin⟩
        rw [hcell, Json.object.injEq] at hcell'
        rw [← hcell', hjson, hobject, Option.some.injEq, Json.object.injEq] at hconnections'
        apply hpins.2 (pin, .array bits) (hconnections' ▸ hpin) bits rfl
      · intro entry a b hstep
        obtain ⟨bits, harray, hstep⟩ := Outcome.bind_eq_ok.mp hstep
        rw [Json.asArray_eq_ok] at harray
        obtain ⟨hle, hbound⟩ := maxLabelOfBits_eq_ok hstep
        refine ⟨hle, ?_⟩
        intro bits' hbits'
        rw [harray, Json.array.injEq] at hbits'
        apply hbits' ▸ hbound

/-- `findMaxWireLabel` bounds the labels of a module. -/
theorem bounded_findMaxWireLabel {m : List UInt8} {maxWireLabel : Nat}
    (h : findMaxWireLabel modules m = .ok maxWireLabel) {bits : List Json}
    (hbits : HasBits modules m bits) :
  Bounded bits maxWireLabel
  := by
  rw [findMaxWireLabel] at h
  obtain ⟨json, hjson, h⟩ := Outcome.bind_eq_ok.mp h
  obtain ⟨node, hnode, h⟩ := Outcome.bind_eq_ok.mp h
  obtain ⟨a, hports, hcells⟩ := Outcome.bind_eq_ok.mp h
  rw [Json.field_eq_ok] at hjson
  rw [Json.asObject_eq_ok] at hnode
  rw [hnode] at hjson
  obtain ⟨_, hports⟩ := maxLabelOfPorts_eq_ok hports
  obtain ⟨hle, hcells⟩ := maxLabelOfCells_eq_ok hcells
  cases hbits with
  | port hnode' hports' hport hbits =>
      rw [hjson, Option.some.injEq, Json.object.injEq] at hnode'
      subst hnode'
      apply (hports _ hports' _ hport _ bits rfl hbits).mono hle
  | connection hnode' hcells' hcell hconnections hpin =>
      rw [hjson, Option.some.injEq, Json.object.injEq] at hnode'
      subst hnode'
      apply hcells _ hcells' _ hcell _ _ _ bits rfl hconnections hpin

/-- A label of a module is at most the largest one. -/
theorem HasLabel.le {m : List UInt8} {l maxWireLabel : Nat} (hl : HasLabel modules m l)
    (h : findMaxWireLabel modules m = .ok maxWireLabel) :
  l ≤ maxWireLabel
  := by
  obtain ⟨bits, hbits, hmem⟩ := hl
  obtain ⟨l', hl', hle⟩ := bounded_findMaxWireLabel h hbits l hmem
  omega

/-- The largest label is one of the bits or what the search began with. -/
theorem maxLabelOfBits_mem {P : Nat → Prop} {bits : List Json}
    (hbits : ∀ l : Nat, .integer l ∈ bits → P l) {a b : Nat} (ha : P a)
    (h : maxLabelOfBits a bits = .ok b) :
  P b
  := by
  apply Outcome.foldlM_induct _ ha h
  intro bit hbit a b ha hstep
  split at hstep
  case h_1 int =>
    obtain ⟨l, hl, hstep⟩ := Outcome.bind_eq_ok.mp hstep
    rw [intCast_eq_ok] at hl
    obtain rfl := Outcome.ok.inj hstep
    rcases Nat.le_total a l with hle | hle
    · rw [Nat.max_eq_right hle]
      apply hbits l (hl ▸ hbit)
    · rw [Nat.max_eq_left hle]
      apply ha
  case h_2 =>
    obtain rfl := Outcome.ok.inj hstep
    apply ha

/-- The largest label of a module is one of its labels, unless it has none. -/
theorem hasLabel_findMaxWireLabel {m : List UInt8} {maxWireLabel : Nat}
    (h : findMaxWireLabel modules m = .ok maxWireLabel) :
  maxWireLabel = 0 ∨ HasLabel modules m maxWireLabel
  := by
  rw [findMaxWireLabel] at h
  obtain ⟨json, hjson, h⟩ := Outcome.bind_eq_ok.mp h
  obtain ⟨node, hnode, h⟩ := Outcome.bind_eq_ok.mp h
  obtain ⟨a, hports, hcells⟩ := Outcome.bind_eq_ok.mp h
  rw [Json.field_eq_ok] at hjson
  rw [Json.asObject_eq_ok] at hnode
  rw [hnode] at hjson
  have hbits : ∀ bits, HasBits modules m bits → ∀ {a b}, (a = 0 ∨ HasLabel modules m a) →
      maxLabelOfBits a bits = .ok b → b = 0 ∨ HasLabel modules m b := by
    intro bits hbits a b ha hmax
    apply maxLabelOfBits_mem _ ha hmax
    intro l hl
    exact .inr ⟨bits, hbits, hl⟩
  have ha : a = 0 ∨ HasLabel modules m a := by
    unfold maxLabelOfPorts at hports
    split at hports
    case h_1 => exact .inl (Outcome.ok.inj hports).symm
    case h_2 ports hlookup =>
      obtain ⟨fields, hfields, hports⟩ := Outcome.bind_eq_ok.mp hports
      rw [Json.asObject_eq_ok] at hfields
      apply Outcome.foldlM_induct (P := fun a => a = 0 ∨ HasLabel modules m a) _ (.inl rfl) hports
      rintro ⟨name, portJson⟩ hentry a b ha hstep
      obtain ⟨port, hport, hstep⟩ := Outcome.bind_eq_ok.mp hstep
      obtain ⟨bitsJson, hbitsJson, hstep⟩ := Outcome.bind_eq_ok.mp hstep
      obtain ⟨bits, harray, hstep⟩ := Outcome.bind_eq_ok.mp hstep
      have hobject : portJson = .object port := Json.asObject_eq_ok.mp hport
      rw [Json.field_eq_ok] at hbitsJson
      rw [Json.asArray_eq_ok] at harray
      apply hbits bits _ ha hstep
      apply HasBits.port hjson (hfields ▸ hlookup) (hobject ▸ hentry) (harray ▸ hbitsJson)
  unfold maxLabelOfCells at hcells
  split at hcells
  case h_1 =>
    obtain rfl := Outcome.ok.inj hcells
    apply ha
  case h_2 cells hlookup =>
    obtain ⟨fields, hfields, hcells⟩ := Outcome.bind_eq_ok.mp hcells
    rw [Json.asObject_eq_ok] at hfields
    apply Outcome.foldlM_induct (P := fun a => a = 0 ∨ HasLabel modules m a) _ ha hcells
    rintro ⟨name, cellJson⟩ hentry a b ha hstep
    obtain ⟨cell, hcell, hstep⟩ := Outcome.bind_eq_ok.mp hstep
    obtain ⟨connectionsJson, hconnections, hstep⟩ := Outcome.bind_eq_ok.mp hstep
    obtain ⟨connections, hobject, hstep⟩ := Outcome.bind_eq_ok.mp hstep
    have hcell : cellJson = .object cell := Json.asObject_eq_ok.mp hcell
    rw [Json.asObject_eq_ok] at hobject
    rw [Json.field_eq_ok] at hconnections
    apply Outcome.foldlM_induct (P := fun a => a = 0 ∨ HasLabel modules m a) _ ha hstep
    rintro ⟨pin, bitsJson⟩ hpin a b ha hstep
    obtain ⟨bits, harray, hstep⟩ := Outcome.bind_eq_ok.mp hstep
    have harray : bitsJson = .array bits := Json.asArray_eq_ok.mp harray
    apply hbits bits _ ha hstep
    apply HasBits.connection hjson (hfields ▸ hlookup) (hcell ▸ hentry) (hobject ▸ hconnections)
      (harray ▸ hpin)

/-- What is collected from the ports of a module comes from their bits. -/
theorem collectPorts_eq_ok {direction : String} {wire : List UInt8 → Json → Outcome Error Nat}
    {m : List UInt8} {ws : List Nat} (h : collectPorts modules direction wire m = .ok ws) :
  ∀ w ∈ ws, ∃ name bits bit, HasBits modules m bits ∧ bit ∈ bits ∧ wire name bit = .ok w
  := by
  unfold collectPorts at h
  split at h
  case h_1 => cases h
  case h_2 json hjson =>
    obtain ⟨node, hnode, h⟩ := Outcome.bind_eq_ok.mp h
    rw [Json.asObject_eq_ok] at hnode
    split at h
    case h_1 => cases h
    case h_2 portsJson hportsJson =>
      obtain ⟨ports, hports, h⟩ := Outcome.bind_eq_ok.mp h
      rw [Json.asObject_eq_ok] at hports
      apply Outcome.foldlM_induct (P := fun ws => ∀ w ∈ ws, ∃ name bits bit,
        HasBits modules m bits ∧ bit ∈ bits ∧ wire name bit = .ok w) _ (by simp) h
      rintro ⟨name, portJson⟩ hentry s s' hs hstep
      obtain ⟨port, hport, hstep⟩ := Outcome.bind_eq_ok.mp hstep
      obtain ⟨_, _, hstep⟩ := Outcome.bind_eq_ok.mp hstep
      obtain ⟨_, _, hstep⟩ := Outcome.bind_eq_ok.mp hstep
      split at hstep
      · rw [← Outcome.ok.inj hstep]
        apply hs
      · obtain ⟨bitsJson, hbitsJson, hstep⟩ := Outcome.bind_eq_ok.mp hstep
        obtain ⟨bits, hbits, hstep⟩ := Outcome.bind_eq_ok.mp hstep
        obtain ⟨wires, hwires, hstep⟩ := Outcome.bind_eq_ok.mp hstep
        rw [Json.field_eq_ok] at hbitsJson
        rw [Json.asArray_eq_ok] at hbits
        have hmem : (name, .object port) ∈ ports := by
          rw [← Json.asObject_eq_ok.mp hport]
          apply hentry
        have hasBits : HasBits modules m bits :=
          .port (hnode ▸ hjson) (hports ▸ hportsJson) hmem (hbits ▸ hbitsJson)
        rw [← Outcome.ok.inj hstep, List.forall_mem_append]
        refine ⟨hs, ?_⟩
        apply Outcome.mapM_forall (P := fun w => ∃ name bits bit,
          HasBits modules m bits ∧ bit ∈ bits ∧ wire name bit = .ok w) _ hwires
        intro bit hbit w hw
        exact ⟨name, bits, bit, hasBits, hbit, hw⟩

/-! ### Constants -/

/-- The wire of a constant. -/
def constantNumber (b : Bool) : Nat :=
  if b then constantOneWireNumber else constantZeroWireNumber

/-- The constant a bit stands for. -/
def constantBit (str : List UInt8) : Option Bool :=
  if str = bytes "x" then some false
  else if str = bytes "0" then some false
  else if str = bytes "1" then some true
  else none

theorem constantNumber_le (b : Bool) :
  constantNumber b ≤ 1
  := by
  cases b <;> decide

theorem constantOrXWire_eq_ok {msg : List UInt8 → Message} {str : List UInt8} {w : Nat}
    (h : constantOrXWire msg str = .ok w) :
  ∃ b, constantBit str = some b ∧ w = constantNumber b
  := by
  unfold constantOrXWire constantWire at h
  unfold constantBit
  split at h
  case isTrue hx => exact ⟨false, if_pos hx, (Outcome.ok.inj h).symm⟩
  case isFalse hx =>
    rw [if_neg hx]
    split at h
    case isTrue hzero => exact ⟨false, if_pos hzero, (Outcome.ok.inj h).symm⟩
    case isFalse hzero =>
      rw [if_neg hzero]
      split at h
      case isTrue hone => exact ⟨true, if_pos hone, (Outcome.ok.inj h).symm⟩
      case isFalse => cases h

theorem constantWire_eq_ok {msg : List UInt8 → Message} {str : List UInt8} {w : Nat}
    (h : constantWire msg str = .ok w) :
  w ≤ 1
  := by
  unfold constantWire at h
  split at h
  · rw [← Outcome.ok.inj h, constantZeroWireNumber]
    omega
  · split at h
    · rw [← Outcome.ok.inj h, constantOneWireNumber]
    · cases h

/-! ### Wire numbers -/

/-- The wire a net stands for, if the sum of its label and the offset fits. -/
def translatedWireNumber (offset : Nat) (table : WireTranslations) (l : Nat) : Nat :=
  (table (l + offset)).getD (l + offset)

theorem translateWireNumber_of {offset l : Nat} (h : l + offset < 2 ^ 64)
    (table : WireTranslations) :
  translateWireNumber offset table l = .ok (translatedWireNumber offset table l)
  := by
  rw [translateWireNumber, add_of h]
  rfl

theorem translateWireNumber_eq_ok {offset l w : Nat} {table : WireTranslations}
    (h : translateWireNumber offset table l = .ok w) :
  w = translatedWireNumber offset table l
  := by
  obtain ⟨n, hn, h⟩ := Outcome.bind_eq_ok.mp h
  obtain ⟨-, rfl⟩ := add_eq_ok.mp hn
  apply (Outcome.ok.inj h).symm

/-! ### Gates -/

/-- The wire of a label among the connections of a cell. -/
def IsWire (connections : List (List UInt8 × Json)) (offset : Nat) (table : WireTranslations)
    (w : Nat) : Prop :=
  ∃ pin bits, ∃ l : Nat, (pin, .array bits) ∈ connections ∧ .integer l ∈ bits
    ∧ w = translatedWireNumber offset table l

section Gates

variable {offset : Nat} {table : WireTranslations} {cell connections : List (List UInt8 × Json)}

theorem isWire_of_firstWire {pin : List UInt8} {connection : Json} {w : Nat}
    (hpin : (pin, connection) ∈ connections)
    (h : firstWire offset table connection = .ok w) :
  IsWire connections offset table w
  := by
  rw [firstWire] at h
  obtain ⟨bits, hbits, h⟩ := Outcome.bind_eq_ok.mp h
  obtain ⟨bit, hbit, h⟩ := Outcome.bind_eq_ok.mp h
  obtain ⟨int, hint, h⟩ := Outcome.bind_eq_ok.mp h
  obtain ⟨l, hl, h⟩ := Outcome.bind_eq_ok.mp h
  rw [Json.asArray_eq_ok] at hbits
  rw [index_eq_ok] at hbit
  rw [Json.asInteger_eq_ok] at hint
  rw [intCast_eq_ok] at hl
  refine ⟨pin, bits, l, hbits ▸ hpin, ?_, translateWireNumber_eq_ok h⟩
  rw [← hl, ← hint]
  apply List.mem_of_getElem? hbit

theorem isWire_of_pin {name : String} {w : Nat}
    (h : pin offset table connections name = .ok w) :
  IsWire connections offset table w
  := by
  rw [pin] at h
  obtain ⟨connection, hconnection, h⟩ := Outcome.bind_eq_ok.mp h
  rw [Json.field_eq_ok] at hconnection
  apply isWire_of_firstWire (Json.mem_of_lookup hconnection) h

theorem isWire_of_outputPin {w : Nat} (h : outputPin offset table connections = .ok w) :
  IsWire connections offset table w
  := by
  rw [outputPin] at h
  split at h
  case h_1 connection hconnection =>
    apply isWire_of_firstWire (Json.mem_of_lookup hconnection) h
  case h_2 =>
    apply isWire_of_pin h

theorem isWire_of_lutInput {pin : List UInt8} {bits : List Json}
    (hpin : (pin, .array bits) ∈ connections) {bit : Json} (hbit : bit ∈ bits) {w : Nat}
    (h : lutInput offset table bit = .ok w) :
  w ≤ 1 ∨ IsWire connections offset table w
  := by
  unfold lutInput at h
  split at h
  case h_1 int =>
    obtain ⟨l, hl, h⟩ := Outcome.bind_eq_ok.mp h
    rw [intCast_eq_ok] at hl
    right
    exact ⟨pin, bits, l, hpin, hl ▸ hbit, translateWireNumber_eq_ok h⟩
  case h_2 str =>
    left
    apply constantWire_eq_ok h
  case h_3 =>
    cases h

/-- The wires of a gate come from the connections of its cell.  Only a lookup table changes the
state: it appends its inputs, which are constants or come from the connections, too. -/
structure Gated (connections : List (List UInt8 × Json)) (offset : Nat) (table : WireTranslations)
    (s s' : State) (n : Node) : Prop where
  wires : ∀ w ∈ n.wires [], IsWire connections offset table w
  state : ∃ inputs lutTables, s' = { s with luts := s.luts ++ inputs, lutTables := lutTables }
    ∧ ∀ w ∈ inputs, w ≤ 1 ∨ IsWire connections offset table w

/-- A gate that leaves the state as it is. -/
theorem Gated.of_wires {s : State} {n : Node}
    (h : ∀ w ∈ n.wires [], IsWire connections offset table w) :
  Gated connections offset table s s n
  := by
  refine ⟨h, [], s.lutTables, ?_, by simp⟩
  rw [List.append_nil]

/-- The wires connected to the pins of a cell come from its connections. -/
theorem buildPins_eq_ok {pins : List String} {inputs : List Nat} {output : Nat}
    (h : buildPins offset table cell pins = .ok (inputs, output)) :
  ∃ connections, cell.lookup (bytes "connections") = some (.object connections)
    ∧ ∀ w ∈ inputs ++ [output], IsWire connections offset table w
  := by
  rw [buildPins] at h
  obtain ⟨json, hjson, h⟩ := Outcome.bind_eq_ok.mp h
  obtain ⟨connections, hobject, h⟩ := Outcome.bind_eq_ok.mp h
  obtain ⟨inputs', hinputs, h⟩ := Outcome.bind_eq_ok.mp h
  obtain ⟨output', houtput, h⟩ := Outcome.bind_eq_ok.mp h
  obtain ⟨rfl, rfl⟩ := Prod.mk.inj (Outcome.ok.inj h)
  rw [Json.field_eq_ok] at hjson
  rw [Json.asObject_eq_ok] at hobject
  refine ⟨connections, hobject ▸ hjson, ?_⟩
  rw [List.forall_mem_append]
  constructor
  · apply Outcome.mapM_forall (P := IsWire connections offset table) _ hinputs
    intro name _ w hw
    apply isWire_of_pin hw
  · rw [List.forall_mem_singleton]
    apply isWire_of_outputPin houtput

theorem buildLut_eq_ok {luts luts' : List Nat} {lutTables lutTables' : List Bool} {n : Node}
    (h : buildLut offset table cell luts lutTables = .ok (luts', lutTables', n)) :
  ∃ connections, cell.lookup (bytes "connections") = some (.object connections)
    ∧ ∃ inputs arity y, luts' = luts ++ inputs
      ∧ n = .lut luts.length lutTables.length arity y ∧ IsWire connections offset table y
      ∧ ∀ w ∈ inputs, w ≤ 1 ∨ IsWire connections offset table w
  := by
  simp only [buildLut] at h
  obtain ⟨_, _, h⟩ := Outcome.bind_eq_ok.mp h
  obtain ⟨_, _, h⟩ := Outcome.bind_eq_ok.mp h
  obtain ⟨json, hjson, h⟩ := Outcome.bind_eq_ok.mp h
  obtain ⟨connections, hobject, h⟩ := Outcome.bind_eq_ok.mp h
  obtain ⟨_, _, h⟩ := Outcome.bind_eq_ok.mp h
  obtain ⟨_, _, h⟩ := Outcome.bind_eq_ok.mp h
  obtain ⟨arity, _, h⟩ := Outcome.bind_eq_ok.mp h
  obtain ⟨_, _, h⟩ := Outcome.bind_eq_ok.mp h
  obtain ⟨aJson, haJson, h⟩ := Outcome.bind_eq_ok.mp h
  obtain ⟨bits, hbits, h⟩ := Outcome.bind_eq_ok.mp h
  obtain ⟨_, _, h⟩ := Outcome.bind_eq_ok.mp h
  obtain ⟨inputs, hinputs, h⟩ := Outcome.bind_eq_ok.mp h
  obtain ⟨y, hy, h⟩ := Outcome.bind_eq_ok.mp h
  obtain ⟨_, _, h⟩ := Outcome.bind_eq_ok.mp h
  obtain ⟨_, _, h⟩ := Outcome.bind_eq_ok.mp h
  obtain ⟨_, _, h⟩ := Outcome.bind_eq_ok.mp h
  obtain ⟨_, _, h⟩ := Outcome.bind_eq_ok.mp h
  rw [Json.field_eq_ok] at hjson haJson
  rw [Json.asObject_eq_ok] at hobject
  rw [Json.asArray_eq_ok] at hbits
  obtain ⟨rfl, _, rfl⟩ := Prod.mk.inj (Outcome.ok.inj h)
  refine ⟨connections, hobject ▸ hjson, inputs, arity, y, rfl, rfl, isWire_of_pin hy, ?_⟩
  apply Outcome.mapM_forall (P := fun w => w ≤ 1 ∨ _) _ hinputs
  intro bit hbit w hw
  apply isWire_of_lutInput (Json.mem_of_lookup (hbits ▸ haJson)) hbit hw

/-- Building a gate cell reads its connections. -/
theorem buildGate_eq_ok {g : GateType} {s s' : State} {n : Node}
    (h : buildGate offset table cell s g = .ok (s', n)) :
  ∃ connections, cell.lookup (bytes "connections") = some (.object connections)
    ∧ Gated connections offset table s s' n
  := by
  have hpins : ∀ {pins : List String} {f : List Nat × Nat → Outcome Error Node},
      (∀ r n, f r = .ok n → n.wires [] = r.1 ++ [r.2]) →
      ((buildPins offset table cell pins >>= f) >>= fun n => pure (s, n)) = .ok (s', n) →
      ∃ connections, cell.lookup (bytes "connections") = some (.object connections)
        ∧ Gated connections offset table s s' n := by
    intro pins f hf h
    obtain ⟨n', hn, h⟩ := Outcome.bind_eq_ok.mp h
    obtain ⟨rfl, rfl⟩ := Prod.mk.inj (Outcome.ok.inj h)
    obtain ⟨⟨inputs, output⟩, hr, hn⟩ := Outcome.bind_eq_ok.mp hn
    obtain ⟨connections, hconnections, hwires⟩ := buildPins_eq_ok hr
    exact ⟨connections, hconnections, .of_wires (hf _ _ hn ▸ hwires)⟩
  cases g with
  | inv =>
      apply hpins _ h
      rintro ⟨_ | ⟨a, _ | _⟩, y⟩ n ⟨⟩
      rfl
  | xor =>
      apply hpins _ h
      rintro ⟨_ | ⟨a, _ | ⟨b, _ | _⟩⟩, y⟩ n ⟨⟩
      rfl
  | and =>
      apply hpins _ h
      rintro ⟨_ | ⟨a, _ | ⟨b, _ | _⟩⟩, y⟩ n ⟨⟩
      rfl
  | and3 =>
      apply hpins _ h
      rintro ⟨_ | ⟨a, _ | ⟨b, _ | ⟨c, _ | _⟩⟩⟩, y⟩ n ⟨⟩
      rfl
  | and4 =>
      apply hpins _ h
      rintro ⟨_ | ⟨a, _ | ⟨b, _ | ⟨c, _ | ⟨d, _ | _⟩⟩⟩⟩, y⟩ n ⟨⟩
      rfl
  | lut =>
      rw [buildGate] at h
      obtain ⟨⟨luts, lutTables, n'⟩, hlut, h⟩ := Outcome.bind_eq_ok.mp h
      obtain ⟨rfl, rfl⟩ := Prod.mk.inj (Outcome.ok.inj h)
      obtain ⟨connections, hconnections, inputs, arity, y, rfl, rfl, hy, hinputs⟩ :=
        buildLut_eq_ok hlut
      refine ⟨connections, hconnections, ?_, inputs, lutTables, rfl, hinputs⟩
      simpa [Node.wires, Node.reads, Node.output] using hy

end Gates

/-! ### Connections -/

section Connections

variable {offset offset' : Nat}

/-- A connection bit is a label or a constant. -/
theorem translateConnectionBit_eq_ok {bit : Json} {table : WireTranslations} {w : Nat}
    (h : translateConnectionBit bit offset table = .ok w) :
  (∃ l : Nat, bit = .integer l ∧ w = translatedWireNumber offset table l)
    ∨ ∃ str b, bit = .string str ∧ constantBit str = some b ∧ w = constantNumber b
  := by
  unfold translateConnectionBit at h
  split at h
  case h_1 int =>
    obtain ⟨l, hl, h⟩ := Outcome.bind_eq_ok.mp h
    rw [intCast_eq_ok] at hl
    exact .inl ⟨l, by rw [hl], translateWireNumber_eq_ok h⟩
  case h_2 str =>
    obtain ⟨b, hb, hw⟩ := constantOrXWire_eq_ok h
    exact .inr ⟨str, b, rfl, hb, hw⟩
  case h_3 =>
    cases h

/-- The rule for the loops over the ports of a submodule. -/
theorem connectPorts_induct {σ : Type} {P : σ → Prop} {direction : String}
    {connectBit : List Json → σ → Json × Nat → Outcome Error σ}
    {ports connections : List (List UInt8 × Json)}
    (step : ∀ name port portList connectionList, (name, .array connectionList) ∈ connections →
      ports.lookup name = some (.object port) →
      port.lookup (bytes "bits") = some (.array portList) →
      ∀ k bit, connectionList[k]? = some bit → ∀ s s', P s →
      connectBit portList s (bit, k) = .ok s' → P s')
    {s s' : σ} (hs : P s)
    (h : connectPorts direction connectBit ports connections s = .ok s') :
  P s'
  := by
  apply Outcome.foldlM_induct _ hs h
  rintro ⟨name, json⟩ hentry s s' hs h
  obtain ⟨portJson, hport, h⟩ := Outcome.bind_eq_ok.mp h
  obtain ⟨port, hobject, h⟩ := Outcome.bind_eq_ok.mp h
  obtain ⟨_, _, h⟩ := Outcome.bind_eq_ok.mp h
  obtain ⟨portDirection, _, h⟩ := Outcome.bind_eq_ok.mp h
  split at h
  · obtain rfl := Outcome.ok.inj h
    apply hs
  · obtain ⟨bitsJson, hbits, h⟩ := Outcome.bind_eq_ok.mp h
    obtain ⟨portList, harray, h⟩ := Outcome.bind_eq_ok.mp h
    obtain ⟨connectionList, hlist, h⟩ := Outcome.bind_eq_ok.mp h
    rw [Json.field_eq_ok] at hport hbits
    rw [Json.asObject_eq_ok] at hobject
    rw [Json.asArray_eq_ok] at harray hlist
    apply Outcome.foldlM_induct _ hs h
    rintro ⟨bit, k⟩ hbit
    apply step name port portList connectionList (hlist ▸ hentry) (hobject ▸ hport)
      (harray ▸ hbits) k bit (List.mk_mem_zipIdx_iff_getElem?.mp hbit)

/-- Connecting an input bit adds it to the translation table of the submodule. -/
theorem connectInputBit_eq_ok {table : WireTranslations} {portList : List Json}
    {s s' : List Nat × WireTranslations} {bit : Json} {k : Nat}
    (h : connectInputBit offset offset' table portList s (bit, k) = .ok s') :
  ∃ w, ∃ l : Nat, translateConnectionBit bit offset table = .ok w
    ∧ portList[k]? = some (.integer l) ∧ s'.2 = Function.update s.2 (l + offset') (some w)
  := by
  rw [connectInputBit] at h
  obtain ⟨w, hw, h⟩ := Outcome.bind_eq_ok.mp h
  obtain ⟨portBit, hportBit, h⟩ := Outcome.bind_eq_ok.mp h
  rw [index_eq_ok] at hportBit
  split at h
  case h_1 int =>
    obtain ⟨l, hl, h⟩ := Outcome.bind_eq_ok.mp h
    obtain ⟨n, hn, h⟩ := Outcome.bind_eq_ok.mp h
    obtain ⟨_, _, h⟩ := Outcome.bind_eq_ok.mp h
    obtain ⟨_, _, h⟩ := Outcome.bind_eq_ok.mp h
    rw [intCast_eq_ok] at hl
    obtain ⟨-, rfl⟩ := add_eq_ok.mp hn
    rw [← Outcome.ok.inj h]
    exact ⟨w, l, hw, hl ▸ hportBit, rfl⟩
  case h_2 =>
    cases h

/-- Connecting an output bit adds it to the translation table of the submodule, or sends the wire
it is connected to in the instantiating module to a wire that is driven. -/
theorem connectOutputBit_eq_ok {inputs : List Nat} {portList : List Json}
    {s s' : WireTranslations × WireTranslations} {bit : Json} {k : Nat}
    (h : connectOutputBit offset offset' inputs portList s (bit, k) = .ok s') :
  ∃ w, translateConnectionBit bit offset s.1 = .ok w
    ∧ ((∃ l : Nat, portList[k]? = some (.integer l)
        ∧ ((∃ v, s.2 (l + offset') = some v ∧ s' = (Function.update s.1 w (some v), s.2))
          ∨ s' = (s.1, Function.update s.2 (l + offset') (some w))))
      ∨ ∃ str b, portList[k]? = some (.string str) ∧ constantBit str = some b
        ∧ s' = (Function.update s.1 w (some (constantNumber b)), s.2))
  := by
  rw [connectOutputBit] at h
  obtain ⟨w, hw, h⟩ := Outcome.bind_eq_ok.mp h
  obtain ⟨portBit, hportBit, h⟩ := Outcome.bind_eq_ok.mp h
  rw [index_eq_ok] at hportBit
  refine ⟨w, hw, ?_⟩
  split at h
  case h_1 int =>
    obtain ⟨l, hl, h⟩ := Outcome.bind_eq_ok.mp h
    obtain ⟨n, hn, h⟩ := Outcome.bind_eq_ok.mp h
    rw [intCast_eq_ok] at hl
    obtain ⟨-, rfl⟩ := add_eq_ok.mp hn
    refine .inl ⟨l, hl ▸ hportBit, ?_⟩
    unfold connectOutputWire at h
    split at h
    · obtain ⟨v, hv, h⟩ := Outcome.bind_eq_ok.mp h
      refine .inl ⟨v, ?_, (Outcome.ok.inj h).symm⟩
      unfold unwrap at hv
      split at hv
      case h_1 hsome => rw [hsome, Outcome.ok.inj hv]
      case h_2 => cases hv
    · split at h
      case h_1 v hv => exact .inl ⟨v, hv, (Outcome.ok.inj h).symm⟩
      case h_2 => exact .inr (Outcome.ok.inj h).symm
  case h_2 str =>
    obtain ⟨v, hv, h⟩ := Outcome.bind_eq_ok.mp h
    obtain ⟨b, hb, rfl⟩ := constantOrXWire_eq_ok hv
    exact .inr ⟨str, b, hportBit, hb, (Outcome.ok.inj h).symm⟩
  case h_3 =>
    cases h

end Connections

end Builder

end SynCirc

import SynCirc.Builder.Intervals

/-!
# What the passes expect of a built circuit

The evaluation and the linearization index tables of `maxWireNumber + 1` entries by wire
numbers, and the linearization computes the constants from the first input.  A built circuit
always has the constants, which have the wire numbers 0 and 1, and `maxWireNumber` comes from the
labels of the nets alone.

Every wire number of a built circuit is that of a constant or reserved for a net (`Within`).  So
the circuit suits the passes exactly if the top module has an input bit and at least two wire
numbers are reserved: the top module has a label other than 0, or an instance cell.  In the netlists
of Yosys all labels are at least 2, and an input bit is enough.
-/

namespace SynCirc

open Zig

namespace Builder

variable {modules : List (List UInt8 × Json)}

/-- The port has the given direction, and it has bits. -/
def PortHasBits (direction : String) (portNode : Json) : Prop :=
  ∃ port bits, portNode = .object port
    ∧ port.lookup (bytes "direction") = some (.string (bytes direction))
    ∧ port.lookup (bytes "bits") = some (.array bits) ∧ bits ≠ []

/-- The module has a port with the given direction that has bits. -/
def HasPortBits (modules : List (List UInt8 × Json)) (m : List UInt8) (direction : String) :
    Prop :=
  ∃ node ports, modules.lookup m = some (.object node)
    ∧ node.lookup (bytes "ports") = some (.object ports)
    ∧ ∃ entry ∈ ports, PortHasBits direction entry.2

theorem portHasBits_object {direction : String} {port : List (List UInt8 × Json)} :
  PortHasBits direction (.object port)
    ↔ port.lookup (bytes "direction") = some (.string (bytes direction))
      ∧ ∃ bits, port.lookup (bytes "bits") = some (.array bits) ∧ bits ≠ []
  := by
  constructor
  · rintro ⟨_, bits, ⟨⟩, hdirection, hbits⟩
    exact ⟨hdirection, bits, hbits⟩
  · rintro ⟨hdirection, bits, hbits⟩
    exact ⟨port, bits, rfl, hdirection, hbits⟩

/-- A loop that collects a list collects something exactly if one of its turns does. -/
theorem foldlM_ne_nil {α β : Type} {f : List β → α → Outcome Error (List β)} {P : α → Prop}
    (step : ∀ s x s', f s x = .ok s' → (s' ≠ [] ↔ s ≠ [] ∨ P x)) {xs : List α} {s s' : List β}
    (h : xs.foldlM f s = .ok s') :
  s' ≠ [] ↔ s ≠ [] ∨ ∃ x ∈ xs, P x
  := by
  induction xs generalizing s with
  | nil =>
      rw [← Outcome.ok.inj h]
      simp
  | cons x xs ih =>
      rw [List.foldlM_cons] at h
      obtain ⟨s₁, hx, h⟩ := Outcome.bind_eq_ok.mp h
      rw [ih h, step s x s₁ hx, or_assoc, List.exists_mem_cons_iff]

/-- The wires of as many bits. -/
theorem mapM_ne_nil {f : Json → Outcome Error Nat} {bits : List Json} {ws : List Nat}
    (h : bits.mapM f = .ok ws) :
  ws ≠ [] ↔ bits ≠ []
  := by
  cases bits with
  | nil =>
      rw [← Outcome.ok.inj h]
      simp
  | cons bit bits =>
      rw [List.mapM_cons] at h
      obtain ⟨w, _, h⟩ := Outcome.bind_eq_ok.mp h
      obtain ⟨ws', _, h⟩ := Outcome.bind_eq_ok.mp h
      rw [← Outcome.ok.inj h]
      simp

/-- Something is collected from the ports of a module exactly if a port with the given direction
has bits. -/
theorem collectPorts_ne_nil {direction : String} {wire : List UInt8 → Json → Outcome Error Nat}
    {m : List UInt8} {ws : List Nat} (h : collectPorts modules direction wire m = .ok ws) :
  ws ≠ [] ↔ HasPortBits modules m direction
  := by
  unfold collectPorts at h
  split at h
  case h_1 => cases h
  case h_2 json hjson =>
    obtain ⟨node, hnode, h⟩ := Outcome.bind_eq_ok.mp h
    rw [Json.asObject_eq_ok] at hnode
    split at h
    case h_1 => cases h
    case h_2 portsJson hportsJson =>
      obtain ⟨ports, hports, h⟩ := Outcome.bind_eq_ok.mp h
      rw [Json.asObject_eq_ok] at hports
      have hmodule : HasPortBits modules m direction
          ↔ ∃ entry ∈ ports, PortHasBits direction entry.2 := by
        simp only [HasPortBits, hjson, hnode, Option.some.injEq, Json.object.injEq,
          exists_and_left, exists_eq_left', hportsJson, hports]
      rw [hmodule, foldlM_ne_nil (P := fun entry => PortHasBits direction entry.2) _ h]
      · simp
      · rintro s ⟨name, portJson⟩ s' hstep
        obtain ⟨port, hport, hstep⟩ := Outcome.bind_eq_ok.mp hstep
        obtain ⟨directionJson, hdirectionJson, hstep⟩ := Outcome.bind_eq_ok.mp hstep
        obtain ⟨portDirection, hdirection, hstep⟩ := Outcome.bind_eq_ok.mp hstep
        rw [Json.asObject_eq_ok] at hport
        rw [Json.field_eq_ok] at hdirectionJson
        rw [Json.asString_eq_ok] at hdirection
        rw [hport, portHasBits_object, hdirectionJson, hdirection]
        split at hstep
        case isTrue hne =>
          rw [← Outcome.ok.inj hstep]
          simp [hne]
        case isFalse heq =>
          obtain ⟨bitsJson, hbitsJson, hstep⟩ := Outcome.bind_eq_ok.mp hstep
          obtain ⟨bits, hbits, hstep⟩ := Outcome.bind_eq_ok.mp hstep
          obtain ⟨wires, hwires, hstep⟩ := Outcome.bind_eq_ok.mp hstep
          rw [Json.field_eq_ok] at hbitsJson
          rw [Json.asArray_eq_ok] at hbits
          have hne : s ++ wires ≠ [] ↔ s ≠ [] ∨ bits ≠ [] := by
            rw [ne_eq, List.append_eq_nil_iff, not_and_or, ← mapM_ne_nil hwires]
          rw [← Outcome.ok.inj hstep, hne]
          rw [of_not_not heq, hbitsJson, hbits]
          simp

/-! ### Reserved wire numbers -/

/-- The number is that of a constant or below the next free one. -/
def Reserved (next w : Nat) : Prop := w ≤ 1 ∨ w < next

/-- The table sends numbers only to reserved ones. -/
def TableReserved (next : Nat) (table : WireTranslations) : Prop :=
  ∀ k v, table k = some v → Reserved next v

variable {entered : List ModuleInstantiation} {next : Nat}

theorem Reserved.mono {w next' : Nat} (h : Reserved next w) (hle : next ≤ next') :
  Reserved next' w
  := h.imp_right (fun hlt => Nat.lt_of_lt_of_le hlt hle)

theorem TableReserved.update {table : WireTranslations} (h : TableReserved next table)
    {k v : Nat} (hv : Reserved next v) :
  TableReserved next (Function.update table k (some v))
  := by
  intro k' v' hv'
  rw [Function.update_apply] at hv'
  split at hv'
  case isTrue => apply Option.some.inj hv' ▸ hv
  case isFalse => apply h k' v' hv'

/-- The wire of a net of an entered instance is reserved. -/
theorem TableReserved.translate {table : WireTranslations} (h : TableReserved next table)
    (htiled : Tiled modules entered next) {i : ModuleInstantiation} (hi : i ∈ entered) {l : Nat}
    (hl : HasLabel modules i.moduleName l) :
  Reserved next (translatedWireNumber i.wireNumberOffset table l)
  := by
  rw [translatedWireNumber]
  rcases htable : table (l + i.wireNumberOffset) with _ | v
  · exact .inr (htiled.lt_of_mem hi (htiled.mem_interval hi hl))
  · apply h _ v htable

/-- The wire of a connection bit of an entered instance is reserved. -/
theorem TableReserved.translateBit {table : WireTranslations} (h : TableReserved next table)
    (htiled : Tiled modules entered next) {i : ModuleInstantiation} (hi : i ∈ entered)
    {bits : List Json} (hbits : HasBits modules i.moduleName bits) {bit : Json} (hbit : bit ∈ bits)
    {w : Nat} (hw : translateConnectionBit bit i.wireNumberOffset table = .ok w) :
  Reserved next w
  := by
  rcases translateConnectionBit_eq_ok hw with ⟨l, rfl, rfl⟩ | ⟨str, b, -, -, rfl⟩
  · apply h.translate htiled hi ⟨bits, hbits, hbit⟩
  · exact .inl (constantNumber_le b)

/-- Connecting a submodule enters only reserved numbers in the tables. -/
theorem connect_reserved (htiled : Tiled modules entered next) {i : ModuleInstantiation}
    (hi : i ∈ entered) {offset : Nat} {cell : List (List UInt8 × Json)} {cellType : List UInt8}
    (hcell : HasCell modules i.moduleName cell cellType) {table t t' : WireTranslations}
    (htable : TableReserved next table)
    (h : connect modules i.wireNumberOffset offset table cell cellType = .ok (t, t')) :
  TableReserved next t ∧ TableReserved next t'
  := by
  rw [connect] at h
  obtain ⟨_, _, h⟩ := Outcome.bind_eq_ok.mp h
  obtain ⟨_, _, h⟩ := Outcome.bind_eq_ok.mp h
  obtain ⟨_, _, h⟩ := Outcome.bind_eq_ok.mp h
  obtain ⟨ports, _, h⟩ := Outcome.bind_eq_ok.mp h
  obtain ⟨connectionsJson, hconnectionsJson, h⟩ := Outcome.bind_eq_ok.mp h
  obtain ⟨connections, hconnections, h⟩ := Outcome.bind_eq_ok.mp h
  obtain ⟨⟨inputs, t₁⟩, hinputs, h⟩ := Outcome.bind_eq_ok.mp h
  rw [Json.field_eq_ok] at hconnectionsJson
  rw [Json.asObject_eq_ok] at hconnections
  rw [hconnections] at hconnectionsJson
  have hbits : ∀ {name connectionList}, (name, .array connectionList) ∈ connections →
      HasBits modules i.moduleName connectionList :=
    fun hname => hcell.hasBits hconnectionsJson hname
  have hinputs : TableReserved next t₁ := by
    apply connectPorts_induct (P := fun s => TableReserved next s.2) _ _ hinputs
    · intro name port portList connectionList hname _ _ k bit hbit s s' hs hstep
      obtain ⟨w, l, hw, -, hs'⟩ := connectInputBit_eq_ok hstep
      rw [hs']
      apply hs.update
      apply htable.translateBit htiled hi (hbits hname) (List.mem_of_getElem? hbit) hw
    · intro k v hv
      contradiction
  apply connectPorts_induct (P := fun s => TableReserved next s.1 ∧ TableReserved next s.2) _
    ⟨htable, hinputs⟩ h
  rintro name port portList connectionList hname _ _ k bit hbit s s' ⟨hs, hs₂⟩ hstep
  obtain ⟨w, hw, houtput⟩ := connectOutputBit_eq_ok hstep
  rcases houtput with ⟨l, -, ⟨v, hv, rfl⟩ | rfl⟩ | ⟨str, b, -, -, rfl⟩
  · exact ⟨hs.update (hs₂ _ v hv), hs₂⟩
  · refine ⟨hs, hs₂.update ?_⟩
    apply hs.translateBit htiled hi (hbits hname) (List.mem_of_getElem? hbit) hw
  · exact ⟨hs.update (.inl (constantNumber_le b)), hs₂⟩

/-- What holds of the instances entered so far, the instance about to be entered, the state and the
gates, whatever the labels are: the constants are built, and all wire numbers are reserved. -/
structure Within (modules : List (List UInt8 × Json)) (top : ModuleInstantiation)
    (entered : List ModuleInstantiation) (fresh : Option ModuleInstantiation) (s : State)
    (nodes : List Node) : Prop where
  top : top ∈ entered ∨ fresh = some top
  memo : ∀ m maxWireLabel, s.maxWireNumbers.lookup m = some maxWireLabel →
    findMaxWireLabel modules m = .ok maxWireLabel
  tiled : Tiled modules entered s.nextFreeWireNumber
  offset : ∀ i, fresh = some i → i.wireNumberOffset = s.nextFreeWireNumber
  tables : ∀ p, TableReserved s.nextFreeWireNumber (s.tables.cell p)
  luts : ∀ w ∈ s.luts, Reserved s.nextFreeWireNumber w
  constants : ∀ n ∈ constantGates, n ∈ nodes
  nodes : ∀ n ∈ nodes, ∀ w ∈ n.wires [], Reserved s.nextFreeWireNumber w

/-- Every action of the loop over the modules uses only reserved numbers. -/
theorem within_invariant (top : ModuleInstantiation)
    (torder : List (List UInt8 × List (List UInt8))) :
  (hierarchy modules torder).Invariant
    (fun entered _ fresh s nodes => Within modules top entered fresh s nodes)
  := by
  constructor
  · intro entered yielded i s nodes cs s' h _ henter
    obtain ⟨maxWireLabel, maxWireNumbers, hmax, rfl, hmemo⟩ := enter_eq_ok h.memo henter
    have hle : s.nextFreeWireNumber ≤ s.nextFreeWireNumber + (maxWireLabel + 1) :=
      Nat.le_add_right _ _
    constructor
    · left
      rcases h.top with htop | htop
      · apply List.mem_append_left _ htop
      · rw [← Option.some.inj htop]
        apply List.mem_append_right _ (List.mem_singleton_self i)
    · apply hmemo
    · apply h.tiled.append (h.offset i rfl) hmax
    · intro j hj
      cases hj
    · intro p k v hv
      apply (h.tables p k v hv).mono hle
    · intro w hw
      apply (h.luts w hw).mono hle
    · apply h.constants
    · intro n hn w hw
      apply (h.nodes n hn w hw).mono hle
  · intro entered yielded i s nodes cs c s' n h hi hcs hc hvisit
    obtain ⟨luts, lutTables, rfl, hluts, hnodes⟩ := visit_node hcs hc hvisit
      (P := Reserved s.nextFreeWireNumber) (fun w hw => .inl hw)
      (fun l hl => (h.tables i.connections).translate h.tiled hi hl) h.luts h.nodes
    refine ⟨h.top, h.memo, h.tiled, h.offset, h.tables, hluts, ?_, hnodes⟩
    intro m hm
    apply List.mem_append_left _ (h.constants m hm)
  · intro entered yielded i s nodes cs c s' j h hi hcs hc hvisit
    obtain ⟨_, cell, cellType, t, t', _, _, hhas, _, hconnect, rfl, rfl⟩ :=
      visit_instance hcs hc hvisit
    obtain ⟨ht, ht'⟩ := connect_reserved h.tiled hi hhas (h.tables i.connections) hconnect
    refine ⟨?_, h.memo, h.tiled, ?_, ?_, h.luts, h.constants, h.nodes⟩
    · rcases h.top with htop | htop
      · exact .inl htop
      · cases htop
    · rintro k ⟨⟩
      rfl
    · apply Buffer.forall_cell_push _ ht'
      apply Buffer.forall_cell_set h.tables _ ht

theorem within_initial (topModuleName : List UInt8) :
  Within modules (topModuleInstantiation topModuleName) []
    (some (topModuleInstantiation topModuleName)) initialState constantGates
  := by
  constructor
  · exact .inr rfl
  · intro m maxWireLabel h
    cases h
  · exact ⟨by simp, List.Pairwise.nil, fun n hn => absurd hn (Nat.not_lt_zero n)⟩
  · rintro i ⟨⟩
    rfl
  · intro p k v hv
    cases hv
  · simp [initialState]
  · intro n hn
    apply hn
  · simp [constantGates, Node.wires, Node.reads, Node.output, constantZeroWireNumber,
      constantOneWireNumber, Reserved]

/-- The wires of a circuit that is built are reserved. -/
theorem Within.reserved {topModuleName : List UInt8} {s : State} {nodes : List Node}
    (h : Within modules (topModuleInstantiation topModuleName) entered none s nodes)
    {c : Circuit} (hinputs : buildInputs modules topModuleName = .ok c.inputs)
    (houtputs : buildOutputs modules topModuleName 0 (s.tables.cell 0) = .ok c.outputs)
    (hnodes : c.nodes = nodes) (hluts : c.luts = s.luts) {w : Nat}
    (hw : w ∈ c.mentioned ++ c.luts) :
  Reserved s.nextFreeWireNumber w
  := by
  have htop : topModuleInstantiation topModuleName ∈ entered := by
    rcases h.top with htop | htop
    · apply htop
    · cases htop
  simp only [Circuit.mentioned, List.mem_append, List.mem_flatMap] at hw
  rcases hw with ((hw | hw) | ⟨n, hn, hw⟩) | hw
  · have hl := buildInputs_eq_ok hinputs w hw
    exact .inr (h.tiled.lt_of_mem htop (h.tiled.mem_interval htop hl))
  · rcases buildOutputs_eq_ok houtputs w hw with hw | ⟨l, hl, rfl⟩
    · exact .inl hw
    · apply (h.tables 0).translate h.tiled htop hl
  · rcases mem_wires hw with hw | hw
    · apply h.nodes n (hnodes ▸ hn) w hw
    · apply h.luts w (hluts ▸ hw)
  · apply h.luts w (hluts ▸ hw)

/-- The loop over the modules of a circuit that is built, and the wire numbers of the circuit. -/
theorem exists_within {torder : List (List UInt8 × List (List UInt8))} {fuel : Nat}
    {topModuleName : List UInt8} {c : Circuit}
    (h : buildTopModule modules torder fuel topModuleName = some (.ok c)) :
  ∃ p, (hierarchy modules torder).loop fuel (initialProgress topModuleName) = some (.ok p)
    ∧ c.maxWireNumber + 1 = p.state.nextFreeWireNumber ∧ (∀ n ∈ constantGates, n ∈ c.nodes)
    ∧ ∀ w ∈ c.mentioned ++ c.luts, Reserved p.state.nextFreeWireNumber w
  := by
  obtain ⟨p, hloop, hinputs, houtputs, hnodes, hluts, hone, hmax⟩ :=
    exists_loop_of_buildTopModule h
  obtain ⟨entered, yielded, hreaches, hstack⟩ := Hierarchy.Reaches.of_loop .start hloop
  have hwithin := (Hierarchy.Reaches.induct (within_invariant _ torder)
    (within_initial topModuleName) hreaches).1
  rw [hstack] at hwithin
  refine ⟨p, hloop, by omega, ?_, ?_⟩
  · rw [hnodes]
    apply hwithin.constants
  · intro w hw
    apply hwithin.reserved hinputs houtputs hnodes hluts hw

/-- The wires of a circuit that is built are constants or at most the largest wire number. -/
theorem le_maxWireNumber {torder : List (List UInt8 × List (List UInt8))} {fuel : Nat}
    {topModuleName : List UInt8} {c : Circuit}
    (h : buildTopModule modules torder fuel topModuleName = some (.ok c)) :
  ∀ w ∈ c.mentioned ++ c.luts, w ≤ 1 ∨ w ≤ c.maxWireNumber
  := by
  obtain ⟨p, -, hmax, -, hreserved⟩ := exists_within h
  intro w hw
  apply (hreserved w hw).imp_right
  omega

/-! ### How many wire numbers are reserved -/

/-- The module has an instance cell, in the order of its torder. -/
def HasInstance (modules : List (List UInt8 × Json))
    (torder : List (List UInt8 × List (List UInt8))) (m : List UInt8) : Prop :=
  ∃ cells names name cell cellType, HasCells modules m (.object cells)
    ∧ torder.lookup m = some names ∧ name ∈ names ∧ cells.lookup name = some (.object cell)
    ∧ cell.lookup (bytes "type") = some (.string cellType) ∧ gateType cellType = none

variable {torder : List (List UInt8 × List (List UInt8))}

/-- Building a cell reserves no wire numbers. -/
theorem buildCell_nextFreeWireNumber {i : ModuleInstantiation} {c : Json × List UInt8}
    {s s' : State} {r : Node ⊕ ModuleInstantiation} (h : buildCell modules i c s = .ok (s', r)) :
  s'.nextFreeWireNumber = s.nextFreeWireNumber
  := by
  obtain ⟨cells, cell, cellType, -, -, -, hbuilt⟩ := buildCell_eq_ok h
  rcases hbuilt with ⟨g, n, -, -, hgate⟩ | ⟨j, -, -, -, hinst⟩
  · obtain ⟨connections, -, hgated⟩ := buildGate_eq_ok hgate
    obtain ⟨inputs, lutTables, rfl, -⟩ := hgated.state
    rfl
  · obtain ⟨t, t', -, rfl, -⟩ := instantiate_eq_ok hinst
    rfl

theorem keeps_nextFreeWireNumber (P : Nat → Prop) :
  (hierarchy modules torder).Keeps (fun s => P s.nextFreeWireNumber)
  := by
  intro i c s s' r hs hvisit
  rw [buildCell_nextFreeWireNumber hvisit]
  apply hs

/-- Entering an instance reserves wire numbers. -/
theorem nextFreeWireNumber_lt_of_enter {i : ModuleInstantiation} {s s' : State}
    (h : enter modules i s = .ok s') :
  s.nextFreeWireNumber < s'.nextFreeWireNumber
  := by
  rw [enter] at h
  obtain ⟨s₁, hs₁, h⟩ := Outcome.bind_eq_ok.mp h
  obtain ⟨maxWireLabel, -, h⟩ := Outcome.bind_eq_ok.mp h
  obtain ⟨wires, hwires, h⟩ := Outcome.bind_eq_ok.mp h
  obtain ⟨next, hnext, h⟩ := Outcome.bind_eq_ok.mp h
  obtain ⟨-, rfl⟩ := add_eq_ok.mp hwires
  obtain ⟨-, rfl⟩ := add_eq_ok.mp hnext
  have hmemo : s₁.nextFreeWireNumber = s.nextFreeWireNumber := by
    unfold memoize at hs₁
    split at hs₁
    case h_1 => rw [Outcome.ok.inj hs₁]
    case h_2 =>
      obtain ⟨_, -, hs₁⟩ := Outcome.bind_eq_ok.mp hs₁
      rw [← Outcome.ok.inj hs₁]
  rw [← Outcome.ok.inj h, ← hmemo]
  apply Nat.lt_add_of_pos_right (Nat.succ_pos maxWireLabel)

/-- A cell of a module in its order that yields an instance is an instance cell, and one that
yields a gate is not. -/
theorem gateType_of_buildCell {i : ModuleInstantiation} {cells cell : List (List UInt8 × Json)}
    {name cellType : List UInt8} (hcell : cells.lookup name = some (.object cell))
    (htype : cell.lookup (bytes "type") = some (.string cellType)) {s s' : State}
    {r : Node ⊕ ModuleInstantiation}
    (h : buildCell modules i (.object cells, name) s = .ok (s', r)) :
  gateType cellType = none ↔ r.isRight
  := by
  obtain ⟨cells', cell', cellType', hcells', hcell', htype', hbuilt⟩ := buildCell_eq_ok h
  obtain rfl := Json.object.inj hcells'
  rw [hcell, Option.some.injEq, Json.object.injEq] at hcell'
  rw [← hcell', htype, Option.some.injEq, Json.string.injEq] at htype'
  subst htype'
  rcases hbuilt with ⟨g, n, hgate, rfl, -⟩ | ⟨j, hgate, -, rfl, -⟩
  · simp [hgate]
  · simp [hgate]

/-- The largest label is not 0 exactly if there is a label other than 0. -/
theorem one_le_findMaxWireLabel_iff {m : List UInt8} {maxWireLabel : Nat}
    (h : findMaxWireLabel modules m = .ok maxWireLabel) :
  1 ≤ maxWireLabel ↔ ∃ l, 1 ≤ l ∧ HasLabel modules m l
  := by
  constructor
  · intro hone
    rcases hasLabel_findMaxWireLabel h with hzero | hlabel
    · omega
    · exact ⟨maxWireLabel, hone, hlabel⟩
  · rintro ⟨l, hone, hlabel⟩
    apply Nat.le_trans hone (hlabel.le h)

/-- A module all of whose cells have yielded gates has no instance cell. -/
theorem not_hasInstance {i : ModuleInstantiation} {cs : List (Json × List UInt8)}
    (hcs : cellOrder modules torder i = .ok cs)
    (hgates : ∀ c ∈ cs, ∃ s s' n, buildCell modules i c s = .ok (s', .inl n)) :
  ¬ HasInstance modules torder i.moduleName
  := by
  obtain ⟨cellsJson, names, hhas, hnames, rfl⟩ := cellOrder_eq_ok hcs
  rintro ⟨cells, names', name, cell, cellType, hcells, hnames', hname, hcell, htype, hgate⟩
  obtain rfl := hhas.unique hcells
  obtain rfl := Option.some.inj (hnames.symm.trans hnames')
  obtain ⟨s, s', n, hvisit⟩ := hgates _ (List.mem_map_of_mem hname)
  have hright := (gateType_of_buildCell hcell htype hvisit).mp hgate
  contradiction

/-- A cell that has yielded an instance is an instance cell. -/
theorem hasInstance_of_buildCell {i j : ModuleInstantiation} {cs : List (Json × List UInt8)}
    (hcs : cellOrder modules torder i = .ok cs) {c : Json × List UInt8} (hc : c ∈ cs)
    {s s' : State} (hvisit : buildCell modules i c s = .ok (s', .inr j)) :
  HasInstance modules torder i.moduleName
  := by
  obtain ⟨cellsJson, names, hhas, hnames, rfl⟩ := cellOrder_eq_ok hcs
  obtain ⟨name, hname, rfl⟩ := List.mem_map.mp hc
  obtain ⟨cells, cell, cellType, hcells, hcell, htype, -⟩ := buildCell_eq_ok hvisit
  obtain rfl : cellsJson = .object cells := hcells
  refine ⟨cells, names, name, cell, cellType, hhas, hnames, hname, hcell, htype, ?_⟩
  apply (gateType_of_buildCell hcell htype hvisit).mpr rfl

/-- The loop reserves a further wire number for an instance on top of its stack. -/
theorem nextFreeWireNumber_lt_of_loop {fuel : Nat} {i : ModuleInstantiation}
    {rest : List (ModuleInstantiation × Nat)} {s : State} {nodes : List Node}
    {p : Hierarchy.Progress ModuleInstantiation Node State}
    (hloop : (hierarchy modules torder).loop fuel ⟨(i, 0) :: rest, s, nodes⟩ = some (.ok p)) :
  s.nextFreeWireNumber < p.state.nextFreeWireNumber
  := by
  cases fuel with
  | zero => contradiction
  | succ fuel =>
      obtain ⟨walked, hresume, hloop⟩ := Hierarchy.exists_resume_of_loop hloop
      obtain ⟨cs, -, hresume⟩ := Outcome.bind_eq_ok.mp hresume
      obtain ⟨s', henter, hwalk⟩ := Outcome.bind_eq_ok.mp hresume
      have hkeeps : (hierarchy modules torder).Keeps
          (fun s' => s.nextFreeWireNumber < s'.nextFreeWireNumber) :=
        keeps_nextFreeWireNumber (s.nextFreeWireNumber < ·)
      have hwalked := (hkeeps.walk (nextFreeWireNumber_lt_of_enter henter) hwalk).1
      apply hkeeps.loop _ _ hloop
      · intro j s₁ s₂ hlt henter
        apply Nat.lt_trans hlt (nextFreeWireNumber_lt_of_enter henter)
      · rcases walked with ⟨s'', nodes', _ | x⟩
        · apply hwalked
        · apply hwalked

/-- At least two wire numbers are reserved exactly if the top module has a label other than 0 or an
instance cell. -/
theorem two_le_nextFreeWireNumber_iff {fuel : Nat} {topModuleName : List UInt8}
    {p : Hierarchy.Progress ModuleInstantiation Node State}
    (hloop : (hierarchy modules torder).loop fuel (initialProgress topModuleName)
      = some (.ok p)) :
  2 ≤ p.state.nextFreeWireNumber
    ↔ (∃ l, 1 ≤ l ∧ HasLabel modules topModuleName l) ∨ HasInstance modules torder topModuleName
  := by
  cases fuel with
  | zero => contradiction
  | succ fuel =>
      obtain ⟨walked, hresume, hloop⟩ := Hierarchy.exists_resume_of_loop hloop
      obtain ⟨cs, hcs, hresume⟩ := Outcome.bind_eq_ok.mp hresume
      obtain ⟨s₁, henter, hwalk⟩ := Outcome.bind_eq_ok.mp hresume
      have hmemo := (within_initial topModuleName : Within modules _ _ _ _ _).memo
      obtain ⟨maxWireLabel, _, hmax, rfl, -⟩ := enter_eq_ok hmemo henter
      have hlabel : 1 ≤ maxWireLabel ↔ ∃ l, 1 ≤ l ∧ HasLabel modules topModuleName l :=
        one_le_findMaxWireLabel_iff hmax
      obtain ⟨hnext, hnone, hsome⟩ := Hierarchy.Keeps.walk
        (keeps_nextFreeWireNumber (· = maxWireLabel + 1)) (Nat.zero_add _) hwalk
      rcases walked with ⟨s₂, nodes, _ | x⟩
      · cases fuel with
        | zero => contradiction
        | succ fuel =>
            obtain rfl := Outcome.ok.inj (Option.some.inj hloop)
            have hnext : s₂.nextFreeWireNumber = maxWireLabel + 1 := hnext
            have hinstance : ¬ HasInstance modules torder topModuleName :=
              not_hasInstance hcs (hnone rfl)
            rw [or_iff_left hinstance, ← hlabel, Hierarchy.Progress.push, hnext]
            omega
      · have hnext : s₂.nextFreeWireNumber = maxWireLabel + 1 := hnext
        have hlt : s₂.nextFreeWireNumber < p.state.nextFreeWireNumber :=
          nextFreeWireNumber_lt_of_loop hloop
        obtain ⟨c, hc, s, s', j, hvisit⟩ := hsome x rfl
        have hinstance : HasInstance modules torder topModuleName :=
          hasInstance_of_buildCell hcs hc hvisit
        exact ⟨fun _ => .inr hinstance, fun _ => by omega⟩

end Builder

open Builder in
/-- A circuit that is built has an input and no wire number above the largest one exactly if the top
module has an input bit, and a label other than 0 or an instance cell. -/
theorem Builder.build_admissible_iff (b : Builder) {modules : List (List UInt8 × Json)}
    (hmodules : b.modules = .ok modules) {fuel : Nat} {c : Circuit}
    (hbuild : b.build fuel = some (.ok c)) :
  ((∀ w ∈ c.mentioned ++ c.luts, w ≤ c.maxWireNumber) ∧ c.inputs ≠ [])
    ↔ HasPortBits modules b.topModule "input"
      ∧ ((∃ l, 1 ≤ l ∧ HasLabel modules b.topModule l)
        ∨ HasInstance modules b.torder b.topModule)
  := by
  rw [build, hmodules, Hierarchy.after_ok] at hbuild
  obtain ⟨p, hloop, hmax, hconstants, hreserved⟩ := exists_within hbuild
  obtain ⟨_, _, hinputs, _⟩ := exists_loop_of_buildTopModule hbuild
  rw [← collectPorts_ne_nil hinputs, ← two_le_nextFreeWireNumber_iff hloop]
  constructor
  · rintro ⟨hle, hne⟩
    refine ⟨hne, ?_⟩
    have hgate := hconstants (.one constantOneWireNumber) (List.mem_cons_of_mem _ (by simp))
    have hone := hle 1 (List.mem_append_left _
      (Circuit.mem_mentioned_of_node hgate (List.mem_singleton_self 1)))
    omega
  · rintro ⟨hne, htwo⟩
    refine ⟨?_, hne⟩
    intro w hw
    rcases hreserved w hw with hw | hw
    · omega
    · omega

open Builder in
theorem Builder.build_admissible_iff_adder :
  ∃ c, adder.build 10 = some (.ok c)
    ∧ (((∀ w ∈ c.mentioned ++ c.luts, w ≤ c.maxWireNumber) ∧ c.inputs ≠ [])
      ↔ HasPortBits adderModules adder.topModule "input"
        ∧ ((∃ l, 1 ≤ l ∧ HasLabel adderModules adder.topModule l)
          ∨ HasInstance adderModules adder.torder adder.topModule))
  := by
  have hbuild : adder.build 10 = some (.ok ⟨[.zero 0, .one 1, .xor 2 3 7, .and 2 3 8, .xor 7 4 5,
      .and 7 4 9, .xor 8 9 6], [], [2, 3, 4], [5, 6], [], 21⟩) := rfl
  refine ⟨_, hbuild, ?_⟩
  apply Builder.build_admissible_iff adder rfl hbuild

/-- A netlist whose only port is an output that is tied to 1. -/
def Builder.tie : Builder where
  root := .object [(bytes "modules", .object [(bytes "tie", Builder.moduleNode
    [("y", .object [(bytes "direction", .string (bytes "output")),
      (bytes "bits", .array [.string (bytes "1")])])] [])])]
  torder := [(bytes "tie", [])]
  topModule := bytes "tie"

/-- The circuit of the tied output has the wire 1 but not the largest wire number for it, and no
input. -/
theorem Builder.build_tie :
  ∃ modules c, Builder.tie.modules = .ok modules ∧ Builder.LabelsFromTwo modules
    ∧ Builder.tie.build 2 = some (.ok c)
    ∧ ¬ (∀ w ∈ c.mentioned ++ c.luts, w ≤ c.maxWireNumber) ∧ ¬ c.inputs ≠ []
  := by
  refine ⟨_, ⟨[.zero 0, .one 1], [], [], [1], [], 0⟩, rfl, ?_, rfl, ?_, ?_⟩
  · apply Builder.labelsFromTwo_of_bitLists
    decide +kernel
  · decide
  · decide

end SynCirc

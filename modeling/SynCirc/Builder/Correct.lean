import SynCirc.Builder.Expansion
import SynCirc.Builder.Intervals
import SynCirc.Builder.ReadModule
import SynCirc.Builder.Simulation

/-!
# The circuit of a netlist computes its function

Expanding a module instance builds gates that bring the wires of its nets to the values of the
nets.  This is shown by induction over the depth of the hierarchy, and for a single instance by
induction over its cells, with `Simulates` as the invariant.
-/

namespace SynCirc

open Zig

namespace Builder

open Netlist

variable {modules : List (List UInt8 × Json)} {torder : List (List UInt8 × List (List UInt8))}

/-! ### Cells -/

/-- A cell is a gate or a submodule by its type. -/
theorem readCell_eq_some {cell : List (List UInt8 × Json)} {c : Cell (List UInt8)}
    (h : readCell modules cell = some c) :
  ∃ cellType, cell.lookup (bytes "type") = some (.string cellType)
    ∧ ((∃ g, gateType cellType = some g ∧ readGate cell g = some c)
      ∨ gateType cellType = none ∧ readSubmodule modules cell cellType = some c)
  := by
  simp only [readCell, Option.bind_eq_bind, Option.bind_eq_some_iff] at h
  obtain ⟨cellType, htype, h⟩ := h
  refine ⟨cellType, readString_eq_some htype, ?_⟩
  split at h
  case h_1 g hg => exact .inl ⟨g, hg, h⟩
  case h_2 hg => exact .inr ⟨hg, h⟩

/-- The state after a submodule of the instance `i` is connected. -/
def State.connected (s : State) (i : ModuleInstantiation) (inputs : List (Bit × Nat))
    (outputs : List (Nat × Bit)) : State :=
  let tables := connectOutputs i.wireNumberOffset s.nextFreeWireNumber
    (s.tables.cell i.connections, connectInputs i.wireNumberOffset s.nextFreeWireNumber
      (s.tables.cell i.connections) inputs) outputs
  { s with tables := (s.tables.set i.connections tables.1).push tables.2 }

/-- Building a cell of a netlist emits a gate or connects a submodule. -/
theorem buildCell_eq (i : ModuleInstantiation) {cells cell : List (List UInt8 × Json)}
    {name : List UInt8} (hcell : cells.lookup name = some (.object cell)) {c : Cell (List UInt8)}
    (h : readCell modules cell = some c)
    (hfits : LabelsFit i.wireNumberOffset (c.reads ++ c.drives)) (s : State) :
  (∃ g inputs output s' n, c = .gate g inputs output
      ∧ buildCell modules i (.object cells, name) s = .ok (s', .inl n)
      ∧ Emits i.wireNumberOffset (s.tables.cell i.connections) g inputs output s s' n)
    ∨ ∃ cellType inputs outputs, c = .submodule cellType inputs outputs
      ∧ cell.lookup (bytes "type") = some (.string cellType) ∧ gateType cellType = none
      ∧ (modules.lookup cellType).isSome
      ∧ ((inputs.map Prod.snd).Nodup →
        LabelsFit s.nextFreeWireNumber (inputs.map Prod.snd ++ nets (outputs.map Prod.snd)) →
        buildCell modules i (.object cells, name) s
          = .ok (s.connected i inputs outputs,
              .inr ⟨cellType, s.nextFreeWireNumber, s.tables.len⟩))
  := by
  obtain ⟨cellType, htype, hread⟩ := readCell_eq_some h
  simp only [buildCell, Json.asObject_object, Outcome.ok_bind, Json.field_eq_ok.mpr hcell,
    Json.field_eq_ok.mpr htype, Json.asString]
  rcases hread with ⟨g, hg, hread⟩ | ⟨hg, hread⟩
  · obtain ⟨g', inputs, output, s', n, rfl, hgate, hemits⟩ := buildGate_eq hread hfits s
    left
    refine ⟨g', inputs, output, s', n, rfl, ?_, hemits⟩
    rw [hg]
    simp only [hgate]
    rfl
  · obtain ⟨inputs, outputs, rfl, hconnect⟩ := connect_eq modules i.wireNumberOffset
      s.nextFreeWireNumber (s.tables.cell i.connections) hread
    have hmodule : (modules.lookup cellType).isSome := by
      simp only [readSubmodule, Option.bind_eq_bind, Option.bind_eq_some_iff] at hread
      obtain ⟨_, ⟨json, hjson, _⟩, _⟩ := hread
      rw [hjson]
      rfl
    right
    refine ⟨cellType, inputs, outputs, rfl, htype, hg, hmodule, ?_⟩
    intro hnodup hports
    rw [hg]
    simp only [if_pos hmodule, instantiate, hconnect hnodup hfits hports]
    rfl

/-! ### Built states -/

/-- The largest labels that have been memoized are right. -/
def Memoized (modules : List (List UInt8 × Json)) (s : State) : Prop :=
  ∀ m maxWireLabel, s.maxWireNumbers.lookup m = some maxWireLabel →
    findMaxWireLabel modules m = .ok maxWireLabel

/-- Building the gates `nodes` of the instance with the table at `p` has led from the state `s` to
the state `s'`: the lookup tables are extended and the tables of other instances are kept, and the
gates take the wires from `wires` to `wires'`, whatever lookup tables follow. -/
structure Builds (modules : List (List UInt8 × Json)) (p : Nat) (s s' : State) (nodes : List Node)
    (wires wires' : Nat → Bool) : Prop where
  luts : s.luts <+: s'.luts
  lutTables : s.lutTables <+: s'.lutTables
  len : s.tables.len ≤ s'.tables.len
  tables : ∀ q < s.tables.len, q ≠ p → s'.tables.cell q = s.tables.cell q
  memo : Memoized modules s'
  inRange : ∀ n ∈ nodes, n.LutInRange s'.luts s'.lutTables
  fits : ∀ n ∈ nodes, n.arityFits
  run : ∀ luts lutTables, s'.luts <+: luts → s'.lutTables <+: lutTables →
    StraightLine.run wires (nodes.map (Node.assignment luts lutTables)) = wires'

theorem lutInRange_mono {n : Node} {luts luts' : List Nat} {lutTables lutTables' : List Bool}
    (h : n.LutInRange luts lutTables) (hluts : luts <+: luts')
    (htables : lutTables <+: lutTables') :
  n.LutInRange luts' lutTables'
  := by
  cases n with
  | lut offset tableOffset arity output =>
      have hluts := hluts.length_le
      have htables := htables.length_le
      simp only [Node.LutInRange] at h ⊢
      omega
  | _ => trivial

variable {p : Nat} {s s₁ s' : State} {nodes nodes' : List Node} {wires wires₁ wires' : Nat → Bool}

theorem builds_nil (hmemo : Memoized modules s) (p : Nat) (wires : Nat → Bool) :
  Builds modules p s s [] wires wires
  := by
  constructor
  · apply List.prefix_refl
  · apply List.prefix_refl
  · apply Nat.le_refl
  · intro q _ _
    rfl
  · apply hmemo
  · simp
  · simp
  · intro luts lutTables _ _
    rfl

/-- Building goes on. -/
theorem Builds.append (h : Builds modules p s s₁ nodes wires wires₁)
    (h' : Builds modules p s₁ s' nodes' wires₁ wires') :
  Builds modules p s s' (nodes ++ nodes') wires wires'
  := by
  constructor
  · apply h.luts.trans h'.luts
  · apply h.lutTables.trans h'.lutTables
  · apply h.len.trans h'.len
  · intro q hq hqp
    rw [h'.tables q (hq.trans_le h.len) hqp, h.tables q hq hqp]
  · apply h'.memo
  · rw [List.forall_mem_append]
    refine ⟨?_, h'.inRange⟩
    intro n hn
    apply lutInRange_mono (h.inRange n hn) h'.luts h'.lutTables
  · rw [List.forall_mem_append]
    exact ⟨h.fits, h'.fits⟩
  · intro luts lutTables hluts htables
    rw [List.map_append, StraightLine.run_append,
      h.run luts lutTables (h'.luts.trans hluts) (h'.lutTables.trans htables),
      h'.run luts lutTables hluts htables]

/-- Building a gate. -/
theorem Emits.builds {offset : Nat} {table : WireTranslations} {g : Gate} {inputs : List Bit}
    {output : Nat} {n : Node} (h : Emits offset table g inputs output s s' n)
    (hmemo : Memoized modules s) (p : Nat) (wires : Nat → Bool) :
  Builds modules p s s' [n] wires
      (Function.update wires (translatedWireNumber offset table output)
        (g.fn ((inputs.map (bitNumber offset table)).map wires)))
    ∧ s'.tables = s.tables ∧ s'.nextFreeWireNumber = s.nextFreeWireNumber
  := by
  obtain ⟨luts, lutTables, rfl⟩ := h.state
  refine ⟨?_, rfl, rfl⟩
  constructor
  · apply List.prefix_append
  · apply List.prefix_append
  · apply Nat.le_refl
  · intro q _ _
    rfl
  · apply hmemo
  · rw [List.forall_mem_singleton]
    apply h.inRange
  · rw [List.forall_mem_singleton]
    apply h.fits
  · intro luts' lutTables' hluts htables
    apply h.exec luts' lutTables' hluts htables

/-- Connecting and building a submodule. -/
theorem Builds.submodule {i : ModuleInstantiation} {inputs : List (Bit × Nat)}
    {outputs : List (Nat × Bit)} (hi : i.connections < s.tables.len)
    (h : Builds modules s.tables.len (s.connected i inputs outputs) s' nodes wires wires') :
  Builds modules i.connections s s' nodes wires wires'
    ∧ s'.tables.cell i.connections = (s.connected i inputs outputs).tables.cell i.connections
  := by
  have hlen : (s.connected i inputs outputs).tables.len = s.tables.len + 1 := rfl
  constructor
  · constructor
    · apply h.luts
    · apply h.lutTables
    · have hle := h.len
      omega
    · intro q hq hqi
      rw [h.tables q (by omega) (by omega)]
      simp only [State.connected, Buffer.push_cell, Buffer.set_cell, Buffer.set_len]
      rw [Function.update_of_ne (by omega), Function.update_of_ne hqi]
    · apply h.memo
    · apply h.inRange
    · apply h.fits
    · apply h.run
  · apply h.tables _ (by omega) (by omega)

/-- An instance whose largest label is known can be entered. -/
theorem exists_enter_eq (hmemo : Memoized modules s) {i : ModuleInstantiation} {maxWireLabel : Nat}
    (hmax : findMaxWireLabel modules i.moduleName = .ok maxWireLabel)
    (hfits : s.nextFreeWireNumber + (maxWireLabel + 1) < 2 ^ 64) :
  ∃ maxWireNumbers, enter modules i s = .ok { s with
        maxWireNumbers := maxWireNumbers
        nextFreeWireNumber := s.nextFreeWireNumber + (maxWireLabel + 1) }
    ∧ Memoized modules { s with
        maxWireNumbers := maxWireNumbers
        nextFreeWireNumber := s.nextFreeWireNumber + (maxWireLabel + 1) }
  := by
  have hwires : maxWireLabel + 1 < 2 ^ 64 := by omega
  have henter : ∃ s', enter modules i s = .ok s' := by
    rw [enter, memoize]
    split
    case h_1 max' hlookup =>
      have hmax' := hmemo _ _ hlookup
      rw [hmax, Outcome.ok.injEq] at hmax'
      rw [Outcome.ok_bind, hlookup, ← hmax', unwrap, Outcome.ok_bind, add_of hwires,
        Outcome.ok_bind, add_of hfits]
      exact ⟨_, rfl⟩
    case h_2 =>
      rw [hmax, Outcome.ok_bind, Outcome.pure_eq, Outcome.ok_bind, List.lookup_cons_self, unwrap,
        Outcome.ok_bind, add_of hwires, Outcome.ok_bind, add_of hfits]
      exact ⟨_, rfl⟩
  obtain ⟨s', hs'⟩ := henter
  obtain ⟨max', maxWireNumbers, hmax', rfl, hmemo'⟩ := enter_eq_ok hmemo hs'
  rw [hmax, Outcome.ok.injEq] at hmax'
  rw [← hmax'] at hs'
  exact ⟨maxWireNumbers, hs', hmemo'⟩

/-! ### Designs -/

/-- The number of wires of an instance of the module `m` without its submodules: one for every label
up to the largest one. -/
def labelCount (modules : List (List UInt8 × Json)) (m : List UInt8) : Nat :=
  match findMaxWireLabel modules m with
  | .ok maxLabel => maxLabel + 1
  | _ => 0

/-- The number of wires of an instance of the module `m` and of all instances below it, to a depth
of `d`. -/
def wireCount (modules : List (List UInt8 × Json)) (torder : List (List UInt8 × List (List UInt8)))
    (d : Nat) (m : List UInt8) : Nat :=
  size (readModule modules torder) (labelCount modules) d m

theorem labelCount_eq {m : List UInt8} {maxLabel : Nat}
    (hmax : findMaxWireLabel modules m = .ok maxLabel) :
  labelCount modules m = maxLabel + 1
  := by
  rw [labelCount, hmax]

/-- The module `m` is the top module or is instantiated below it. -/
abbrev Below (modules : List (List UInt8 × Json)) (topModule m : List UInt8) : Prop :=
  Relation.ReflTransGen (Instantiates modules) topModule m

/-- A design: no module instantiates itself, labels are at least 2, and the top module and those
below it can be read and are well formed. -/
structure Design (modules : List (List UInt8 × Json))
    (torder : List (List UInt8 × List (List UInt8))) (topModule : List UInt8) : Prop where
  acyclic : Acyclic modules
  labels : LabelsFromTwo modules
  wellFormed : ∀ m, Below modules topModule m → ∃ module, readModule modules torder m = some module
    ∧ module.WellFormed (readModule modules torder)

/-- No instance is connected at an output bit that its module connects to an output bit of a
submodule that is an input bit, another output bit or the constant 1. -/
def KeepsAliases (modules : List (List UInt8 × Json))
    (torder : List (List UInt8 × List (List UInt8))) (topModule : List UInt8) : Prop :=
  ∀ m module, Below modules topModule m → readModule modules torder m = some module →
    module.KeepsAliases (readModule modules torder)

/-- The labels of a module are those from 2 to the largest one. -/
theorem LabelsFromTwo.inLabels (h : LabelsFromTwo modules) {m : List UInt8} {maxLabel : Nat}
    (hmax : findMaxWireLabel modules m = .ok maxLabel) {labels : List Nat}
    (hlabels : ∀ l ∈ labels, HasLabel modules m l) :
  InLabels maxLabel labels
  := by
  intro l hl
  exact ⟨h m l (hlabels l hl), (hlabels l hl).le hmax⟩

/-- The instance `i` of `module`, whose largest label is `maxLabel`, is about to be entered in the
state `s`.  In its translation table the nets it connects as aliases have no entry, and the entries
of the nets it drives are below its wire numbers. -/
structure Ready (modules : List (List UInt8 × Json))
    (torder : List (List UInt8 × List (List UInt8))) (i : ModuleInstantiation)
    (module : Module (List UInt8)) (maxLabel : Nat) (s : State) : Prop where
  read : readModule modules torder i.moduleName = some module
  wellFormed : module.WellFormed (readModule modules torder)
  max : findMaxWireLabel modules i.moduleName = .ok maxLabel
  memo : Memoized modules s
  offset : i.wireNumberOffset = s.nextFreeWireNumber
  connections : i.connections < s.tables.len
  aliases : ∀ c ∈ module.cells, ∀ w ∈ c.aliases,
    s.tables.cell i.connections (w + i.wireNumberOffset) = none
  below : ∀ w ∈ module.cells.flatMap Cell.drives, ∀ x,
    s.tables.cell i.connections (w + i.wireNumberOffset) = some x → x < i.wireNumberOffset

section Submodule

variable {i : ModuleInstantiation} {module module' : Module (List UInt8)} {maxLabel maxLabel' : Nat}
  {s₀ : State} {done rest : List (Cell (List UInt8))} {name : List UInt8}
  {inputs : List (Bit × Nat)} {outputs : List (Nat × Bit)} {wires₀ env : Nat → Bool}

/-- The wires of an instance are those of its labels and those of its submodules. -/
theorem Ready.wireCount_succ (h : Ready modules torder i module maxLabel s₀) (d : Nat) :
  wireCount modules torder (d + 1) i.moduleName
    = maxLabel + 1 + (module.cells.map (Cell.size (wireCount modules torder d))).sum
  := by
  rw [wireCount, size_succ h.read, labelCount_eq h.max]
  rfl

/-- After an instance is entered, its labels and its offset add up to wire numbers. -/
theorem Ready.labelsFit (h : Ready modules torder i module maxLabel s₀) {c : Cell (List UInt8)}
    (hcells : module.cells = done ++ c :: rest)
    (hentered : i.wireNumberOffset + maxLabel < 2 ^ 64) :
  LabelsFit i.wireNumberOffset (c.reads ++ c.drives)
  := by
  obtain ⟨_, _, _, _, hreads⟩ := readModule_eq_some h.read
  have hmem : c ∈ module.cells := by
    rw [hcells]
    apply List.mem_append_right _ List.mem_cons_self
  intro l hl
  have hle := (hreads.hasLabel_cell hmem hl).le h.max
  omega

/-- The tables after a submodule of an instance is connected. -/
theorem Ready.connects (h : Ready modules torder i module maxLabel s₀)
    (hcells : module.cells = done ++ .submodule name inputs outputs :: rest)
    (hsim : Simulates i.wireNumberOffset maxLabel (s₀.tables.cell i.connections) wires₀
      (module.cells.flatMap Cell.drives) (s.tables.cell i.connections) s.nextFreeWireNumber wires
      env (.submodule name inputs outputs :: rest)) (hi : i.connections < s.tables.len) :
  Connects i.wireNumberOffset s.nextFreeWireNumber (s.tables.cell i.connections) inputs outputs
    ((s.connected i inputs outputs).tables.cell i.connections)
    ((s.connected i inputs outputs).tables.cell s.tables.len)
  := by
  have hmem : Cell.submodule name inputs outputs ∈ module.cells := by
    rw [hcells]
    apply List.mem_append_right _ List.mem_cons_self
  have hdrives : ∀ w ∈ outputs.map Prod.fst, w ∈ module.cells.flatMap Cell.drives := by
    intro w hw
    exact List.mem_flatMap.mpr ⟨_, hmem, hw⟩
  have hsame : ∀ w ∈ outputs.map Prod.fst,
      s.tables.cell i.connections (w + i.wireNumberOffset)
        = s₀.tables.cell i.connections (w + i.wireNumberOffset) := by
    intro w hw
    apply hsim.same w (mem_of_output hw)
  have houter : (s.connected i inputs outputs).tables.cell i.connections
      = (connectOutputs i.wireNumberOffset s.nextFreeWireNumber
        (s.tables.cell i.connections, connectInputs i.wireNumberOffset s.nextFreeWireNumber
          (s.tables.cell i.connections) inputs) outputs).1 := by
    simp only [State.connected, Buffer.push_cell, Buffer.set_cell, Buffer.set_len]
    rw [Function.update_of_ne (by omega), Function.update_self]
  have hinner : (s.connected i inputs outputs).tables.cell s.tables.len
      = (connectOutputs i.wireNumberOffset s.nextFreeWireNumber
        (s.tables.cell i.connections, connectInputs i.wireNumberOffset s.nextFreeWireNumber
          (s.tables.cell i.connections) inputs) outputs).2 := by
    simp only [State.connected, Buffer.push_cell, Buffer.set_cell, Buffer.set_len]
    rw [Function.update_self]
  rw [houter, hinner]
  apply connects_connectOutputs (h.wellFormed.fits _ hmem).1 (h.wellFormed.drives hcells).1
  · intro w hw
    rw [hsame w (aliases_subset _ _ hw)]
    apply h.aliases _ hmem w hw
  · intro w hw x hx
    rw [hsame w hw] at hx
    apply h.below w (hdrives w hw) x hx

/-- The setting of a submodule of an instance. -/
theorem Ready.setting (hlabels : LabelsFromTwo modules)
    (h : Ready modules torder i module maxLabel s₀)
    (hcells : module.cells = done ++ .submodule name inputs outputs :: rest)
    (hread : readModule modules torder name = some module')
    (hwf : module'.WellFormed (readModule modules torder))
    (hmax : findMaxWireLabel modules name = .ok maxLabel') {next : Nat}
    {table outer inner : WireTranslations}
    (hconnects : Connects i.wireNumberOffset next table inputs outputs outer inner) :
  Setting i.wireNumberOffset maxLabel maxLabel' next table inputs outputs outer inner
    (module'.cells.flatMap Cell.drives) rest
  := by
  have hmem : Cell.submodule name inputs outputs ∈ module.cells := by
    rw [hcells]
    apply List.mem_append_right _ List.mem_cons_self
  obtain ⟨hnodup, m, hm, hinputs, houtputs⟩ := h.wellFormed.fits _ hmem
  rw [Option.mem_def, hread, Option.some.injEq] at hm
  rw [← hm] at hinputs houtputs
  obtain ⟨_, _, _, _, hreads⟩ := readModule_eq_some h.read
  obtain ⟨_, _, _, _, hreads'⟩ := readModule_eq_some hread
  constructor
  · apply hconnects
  · apply hlabels.inLabels h.max
    intro l hl
    apply hreads.hasLabel_cell hmem (List.mem_append_left _ hl)
  · apply hlabels.inLabels h.max
    intro l hl
    apply hreads.hasLabel_cell hmem (List.mem_append_right _ hl)
  · apply hlabels.inLabels hmax
    intro l hl
    rcases List.mem_append.mp hl with hl | hl
    · apply hreads'.hasLabel_input (hinputs l hl)
    · apply hreads'.hasLabel_output (houtputs _ (mem_nets.mp hl))
  · apply hnodup
  · apply (h.wellFormed.drives hcells).1
  · intro l hl hmem
    apply hwf.notMem_inputs hl (hinputs l hmem)
  · apply h.wellFormed.reads hcells
  · apply (h.wellFormed.drives hcells).2

/-- A connected submodule is ready to be entered. -/
theorem Ready.submodule (hmemo : Memoized modules s)
    (hread : readModule modules torder name = some module')
    (hwf : module'.WellFormed (readModule modules torder))
    (hmax : findMaxWireLabel modules name = .ok maxLabel')
    (hkeeps : (Cell.submodule name inputs outputs).KeepsAliases (readModule modules torder))
    (hset : Setting i.wireNumberOffset maxLabel maxLabel' s.nextFreeWireNumber
      (s.tables.cell i.connections) inputs outputs
      ((s.connected i inputs outputs).tables.cell i.connections)
      ((s.connected i inputs outputs).tables.cell s.tables.len)
      (module'.cells.flatMap Cell.drives) rest)
    (hsim : Simulates i.wireNumberOffset maxLabel (s₀.tables.cell i.connections) wires₀
      (module.cells.flatMap Cell.drives) (s.tables.cell i.connections) s.nextFreeWireNumber wires
      env (.submodule name inputs outputs :: rest)) :
  Ready modules torder ⟨name, s.nextFreeWireNumber, s.tables.len⟩ module' maxLabel'
    (s.connected i inputs outputs)
  := by
  constructor
  · apply hread
  · apply hwf
  · apply hmax
  · apply hmemo
  · rfl
  · apply Nat.lt_succ_self
  · intro c hc w hw
    have hdriven : w ∈ module'.cells.flatMap Cell.drives :=
      List.mem_flatMap.mpr ⟨c, hc, c.aliases_subset hw⟩
    rcases hentry : (s.connected i inputs outputs).tables.cell s.tables.len
      (w + s.nextFreeWireNumber) with _ | x
    · rfl
    · obtain ⟨w', hw', _⟩ := hset.driven_entry hdriven hentry
      apply absurd (List.mem_map_of_mem hw') (hkeeps module' hread c hc w hw)
  · intro w hw x hx
    obtain ⟨w', hw', rfl⟩ := hset.driven_entry hw hx
    obtain ⟨htwo, hle⟩ := hset.drives w' (List.mem_map_of_mem hw')
    apply hsim.lt w' htwo hle

end Submodule

/-! ### Expansions -/

/-- Expanding the instance `i` to the depth `d` builds gates that bring the wires of its nets to the
values of the nets, evaluated to the depth `e`. -/
def Computes (modules : List (List UInt8 × Json))
    (torder : List (List UInt8 × List (List UInt8))) (d e : Nat) (i : ModuleInstantiation) : Prop :=
  ∀ module maxLabel s wires inputs, Ready modules torder i module maxLabel s →
    s.nextFreeWireNumber + wireCount modules torder d i.moduleName < 2 ^ 64 →
    Simulates i.wireNumberOffset maxLabel (s.tables.cell i.connections) wires
      (module.cells.flatMap Cell.drives) (s.tables.cell i.connections)
      (s.nextFreeWireNumber + (maxLabel + 1)) wires (assign (fun _ => false) inputs) module.cells →
    ∃ nodes s' wires', (hierarchy modules torder).expand d i s = .ok (nodes, s')
      ∧ Builds modules i.connections s s' nodes wires wires'
      ∧ s.nextFreeWireNumber + (maxLabel + 1) + module.cells.countP Cell.isSubmodule
        ≤ s'.nextFreeWireNumber
      ∧ s'.nextFreeWireNumber ≤ s.nextFreeWireNumber + wireCount modules torder d i.moduleName
      ∧ Simulates i.wireNumberOffset maxLabel (s.tables.cell i.connections) wires
        (module.cells.flatMap Cell.drives) (s'.tables.cell i.connections) s'.nextFreeWireNumber
        wires' (evalModule (readModule modules torder) e i.moduleName inputs)
        ([] : List (Cell (List UInt8)))

section Expansion

variable {d e : Nat} {i : ModuleInstantiation} {module : Module (List UInt8)} {maxLabel : Nat}
  {s₀ : State} {wires₀ env : Nat → Bool} {node ports cells : List (List UInt8 × Json)}
  {names : List (List UInt8)} {done rest : List (Cell (List UInt8))} {name : List UInt8}

/-- Expanding the cell `c`, which is called `name`, builds gates that bring the wires to the values
after the cell, and goes on with the cells after it. -/
def StepsTo (modules : List (List UInt8 × Json)) (torder : List (List UInt8 × List (List UInt8)))
    (d e : Nat) (i : ModuleInstantiation) (module : Module (List UInt8)) (maxLabel : Nat)
    (s₀ : State) (wires₀ : Nat → Bool) (c : Json × List UInt8) (s : State) (wires env : Nat → Bool)
    (cell : Cell (List UInt8)) (rest : List (Cell (List UInt8))) : Prop :=
  ∃ nodes s' wires', (∀ cs, (hierarchy modules torder).expandCells
        ((hierarchy modules torder).expand d) i (c :: cs) s
      = (hierarchy modules torder).expandCells ((hierarchy modules torder).expand d) i cs s'
        >>= fun r => .ok (nodes ++ r.1, r.2))
    ∧ Builds modules i.connections s s' nodes wires wires'
    ∧ s.nextFreeWireNumber + [cell].countP Cell.isSubmodule ≤ s'.nextFreeWireNumber
    ∧ s'.nextFreeWireNumber ≤ s.nextFreeWireNumber + cell.size (wireCount modules torder d)
    ∧ Simulates i.wireNumberOffset maxLabel (s₀.tables.cell i.connections) wires₀
      (module.cells.flatMap Cell.drives) (s'.tables.cell i.connections) s'.nextFreeWireNumber wires'
      (cell.eval (evalModule (readModule modules torder) e) env) rest

/-- Expanding a gate. -/
theorem stepsTo_gate (hlabels : LabelsFromTwo modules)
    (h : Ready modules torder i module maxLabel s₀)
    (hreads : Reads modules torder i.moduleName module node ports cells names) {g : Gate}
    {inputs : List Bit} {output : Nat}
    (hcells : module.cells = done ++ .gate g inputs output :: rest)
    {n : Node} (hbuild : buildCell modules i (.object cells, name) s = .ok (s₁, .inl n))
    (hemits : Emits i.wireNumberOffset (s.tables.cell i.connections) g inputs output s s₁ n)
    (hmemo : Memoized modules s)
    (hsim : Simulates i.wireNumberOffset maxLabel (s₀.tables.cell i.connections) wires₀
      (module.cells.flatMap Cell.drives) (s.tables.cell i.connections) s.nextFreeWireNumber wires
      env (.gate g inputs output :: rest)) :
  StepsTo modules torder d e i module maxLabel s₀ wires₀ (.object cells, name) s wires env
    (.gate g inputs output) rest
  := by
  have hmem : Cell.gate g inputs output ∈ module.cells := by
    rw [hcells]
    apply List.mem_append_right _ List.mem_cons_self
  have hin := hlabels.inLabels h.max (fun l => hreads.hasLabel_cell hmem)
  have houtput := hin output (List.mem_append_right _ (List.mem_singleton_self output))
  have hdriven : output ∈ module.cells.flatMap Cell.drives :=
    List.mem_flatMap.mpr ⟨_, hmem, List.mem_singleton_self output⟩
  have hnew := (h.wellFormed.drives hcells).2 output (List.mem_singleton_self output)
  have hsim' := hsim.gate hdriven houtput hnew (g.fn (inputs.map (Bit.value env)))
  obtain ⟨hbuilds, htables, hfree⟩ := hemits.builds hmemo i.connections wires
  rw [hsim.values (fun l hl => hin l (List.mem_append_left _ hl)), ← htables] at hbuilds
  rw [← htables, ← hfree] at hsim'
  refine ⟨[n], s₁, _, ?_, hbuilds, ?_, ?_, hsim'⟩
  · intro cs
    rw [Hierarchy.expandCells, show (hierarchy modules torder).visit = buildCell modules from rfl,
      hbuild]
    rfl
  · rw [List.countP_singleton, hfree]
    apply Nat.le_refl
  · rw [hfree]
    apply Nat.le_refl

/-- Expanding a submodule, if the expansion of its module computes its function.  The labels of its
ports are wire numbers of it. -/
theorem stepsTo_submodule (hlabels : LabelsFromTwo modules)
    (h : Ready modules torder i module maxLabel s₀) {cellType : List UInt8}
    {inputs : List (Bit × Nat)} {outputs : List (Nat × Bit)}
    (hcells : module.cells = done ++ .submodule cellType inputs outputs :: rest)
    (hbuild : (inputs.map Prod.snd).Nodup →
      LabelsFit s.nextFreeWireNumber (inputs.map Prod.snd ++ nets (outputs.map Prod.snd)) →
      buildCell modules i (.object cells, name) s
        = .ok (s.connected i inputs outputs, .inr ⟨cellType, s.nextFreeWireNumber, s.tables.len⟩))
    {module' : Module (List UInt8)} (hread : readModule modules torder cellType = some module')
    (hwf : module'.WellFormed (readModule modules torder))
    (hkeeps : (Cell.submodule cellType inputs outputs).KeepsAliases (readModule modules torder))
    (hcomputes : Computes modules torder d e ⟨cellType, s.nextFreeWireNumber, s.tables.len⟩)
    (hmemo : Memoized modules s) (hi : i.connections < s.tables.len)
    (hwires : s.nextFreeWireNumber + wireCount modules torder d cellType < 2 ^ 64)
    (hsim : Simulates i.wireNumberOffset maxLabel (s₀.tables.cell i.connections) wires₀
      (module.cells.flatMap Cell.drives) (s.tables.cell i.connections) s.nextFreeWireNumber wires
      env (.submodule cellType inputs outputs :: rest)) :
  LabelsFit s.nextFreeWireNumber (inputs.map Prod.snd ++ nets (outputs.map Prod.snd))
    ∧ StepsTo modules torder d e i module maxLabel s₀ wires₀ (.object cells, name) s wires env
      (.submodule cellType inputs outputs) rest
  := by
  have hmem : Cell.submodule cellType inputs outputs ∈ module.cells := by
    rw [hcells]
    apply List.mem_append_right _ List.mem_cons_self
  obtain ⟨_, _, _, _, hreads⟩ := readModule_eq_some hread
  obtain ⟨maxLabel', hmax⟩ := hreads.exists_findMaxWireLabel
  have hset := h.setting hlabels hcells hread hwf hmax (h.connects hcells hsim hi)
  have hready := Ready.submodule hmemo hread hwf hmax hkeeps hset hsim
  have hin : InLabels maxLabel' (module'.cells.flatMap Cell.drives) := by
    apply hlabels.inLabels hmax
    intro l hl
    obtain ⟨c, hc, hl⟩ := List.mem_flatMap.mp hl
    apply hreads.hasLabel_cell hc (List.mem_append_right _ hl)
  obtain ⟨nodes, s', wires', hexpand, hbuilds', hle, hnext, hsim'⟩ :=
    hcomputes module' maxLabel' _ wires _ hready hwires (hsim.enter hset rfl hin)
  have hports : LabelsFit s.nextFreeWireNumber
      (inputs.map Prod.snd ++ nets (outputs.map Prod.snd)) := by
    intro l hl
    have hlabel := (hset.ports l hl).2
    have hlt : s'.nextFreeWireNumber < 2 ^ 64 := hnext.trans_lt hwires
    have hfree : (s.connected i inputs outputs).nextFreeWireNumber = s.nextFreeWireNumber := rfl
    omega
  have hdriven : ∀ w ∈ outputs.map Prod.fst, w ∈ module.cells.flatMap Cell.drives :=
    fun w hw => List.mem_flatMap.mpr ⟨_, hmem, hw⟩
  have hleave := hsim.leave hset hsim' hdriven
  obtain ⟨hbuilds, htable⟩ := hbuilds'.submodule hi
  rw [← htable] at hleave
  refine ⟨hports, nodes, s', wires', ?_, hbuilds, ?_, hnext, hleave⟩
  · intro cs
    rw [Hierarchy.expandCells, show (hierarchy modules torder).visit = buildCell modules from rfl,
      hbuild hset.nodup hports]
    simp only [Outcome.ok_bind, hexpand]
    rfl
  · have hfree : (s.connected i inputs outputs).nextFreeWireNumber = s.nextFreeWireNumber := rfl
    rw [List.countP_singleton, Cell.isSubmodule, if_pos rfl]
    omega

/-- Expanding the cells of an instance. -/
theorem exists_expandCells_eq {topModule : List UInt8} (hdesign : Design modules torder topModule)
    (hkeeps : KeepsAliases modules torder topModule)
    (hbelow : Below modules topModule i.moduleName)
    (hcomputes : ∀ m offset p, Instantiates modules i.moduleName m →
      Computes modules torder d e ⟨m, offset, p⟩)
    (h : Ready modules torder i module maxLabel s₀)
    (hreads : Reads modules torder i.moduleName module node ports cells names)
    (hcells : module.cells = done ++ rest) {names' : List (List UInt8)}
    (hnames : List.Forall₂ (fun name c => ∃ cell, cells.lookup name = some (.object cell)
      ∧ readCell modules cell = some c) names' rest)
    (hmemo : Memoized modules s) (hi : i.connections < s.tables.len)
    (hwires : s.nextFreeWireNumber + (rest.map (Cell.size (wireCount modules torder d))).sum
      < 2 ^ 64)
    (hsim : Simulates i.wireNumberOffset maxLabel (s₀.tables.cell i.connections) wires₀
      (module.cells.flatMap Cell.drives) (s.tables.cell i.connections) s.nextFreeWireNumber wires
      env rest) :
  ∃ nodes s' wires', (hierarchy modules torder).expandCells ((hierarchy modules torder).expand d) i
      (names'.map (fun name => (.object cells, name))) s = .ok (nodes, s')
    ∧ Builds modules i.connections s s' nodes wires wires'
    ∧ s.nextFreeWireNumber + rest.countP Cell.isSubmodule ≤ s'.nextFreeWireNumber
    ∧ s'.nextFreeWireNumber
      ≤ s.nextFreeWireNumber + (rest.map (Cell.size (wireCount modules torder d))).sum
    ∧ Simulates i.wireNumberOffset maxLabel (s₀.tables.cell i.connections) wires₀
      (module.cells.flatMap Cell.drives) (s'.tables.cell i.connections) s'.nextFreeWireNumber wires'
      (rest.foldl (Cell.eval (evalModule (readModule modules torder) e)) env)
      ([] : List (Cell (List UInt8)))
  := by
  induction hnames generalizing done s wires env with
  | nil =>
      exact ⟨[], s, wires, rfl, builds_nil hmemo _ _, Nat.le_refl _, Nat.le_refl _, hsim⟩
  | @cons name c names' rest hname _ ih =>
      obtain ⟨cell, hcell, hread⟩ := hname
      rw [List.map_cons, List.sum_cons] at hwires
      have hentered : i.wireNumberOffset + maxLabel < 2 ^ 64 := by
        have hnext := hsim.next_le
        omega
      have hfits := h.labelsFit hcells hentered
      have hstep : StepsTo modules torder d e i module maxLabel s₀ wires₀ (.object cells, name) s
          wires env c rest := by
        rcases buildCell_eq i hcell hread hfits s with
          ⟨g, inputs, output, s₁, n, rfl, hbuild, hemits⟩
          | ⟨cellType, inputs, outputs, rfl, htype, hgate, hmodule, hbuild⟩
        · apply stepsTo_gate hdesign.labels h hreads hcells hbuild hemits hmemo hsim
        · have hinst : Instantiates modules i.moduleName cellType :=
            ⟨⟨cell, cells, name, ⟨node, hreads.node_eq, hreads.cells_eq⟩, hcell, htype⟩, hgate,
              hmodule⟩
          obtain ⟨module', hread', hwf⟩ := hdesign.wellFormed cellType (hbelow.tail hinst)
          rw [Cell.size] at hwires
          apply (stepsTo_submodule hdesign.labels h hcells hbuild hread' hwf _
            (hcomputes cellType _ _ hinst) hmemo hi (by omega) hsim).2
          apply hkeeps _ module hbelow h.read
          rw [hcells]
          apply List.mem_append_right _ List.mem_cons_self
      obtain ⟨nodes₁, s₁, wires₁, hexpand₁, hbuilds₁, hle₁, hnext₁, hsim₁⟩ := hstep
      have hnext : module.cells = (done ++ [c]) ++ rest := by
        rw [hcells, List.append_assoc]
        rfl
      obtain ⟨nodes, s', wires', hexpand, hbuilds, hle, hle', hsim'⟩ :=
        ih hnext hbuilds₁.memo (hi.trans_le hbuilds₁.len) (by omega) hsim₁
      refine ⟨nodes₁ ++ nodes, s', wires', ?_, hbuilds₁.append hbuilds, ?_, ?_, hsim'⟩
      · rw [List.map_cons, hexpand₁, hexpand]
        rfl
      · rw [← List.singleton_append, List.countP_append]
        omega
      · rw [List.map_cons, List.sum_cons]
        omega

/-- Expanding an instance of a design computes the function of its module. -/
theorem Design.computes {topModule : List UInt8} (hdesign : Design modules torder topModule)
    (hkeeps : KeepsAliases modules torder topModule) {rank : List UInt8 → Nat}
    (hrank : ∀ m m', Instantiates modules m m' → rank m' < rank m)
    (hbelow : Below modules topModule i.moduleName) (hd : rank i.moduleName < d)
    (he : rank i.moduleName < e) :
  Computes modules torder d e i
  := by
  induction d generalizing e i with
  | zero => contradiction
  | succ d ih =>
      obtain ⟨e, rfl⟩ := Nat.exists_eq_succ_of_ne_zero (Nat.ne_zero_of_lt he)
      intro module maxLabel s wires inputs h hwires hsim
      obtain ⟨node, ports, cells, names, hreads⟩ := readModule_eq_some h.read
      rw [h.wireCount_succ] at hwires
      obtain ⟨maxWireNumbers, henter, hmemo⟩ := exists_enter_eq h.memo h.max (by omega)
      have hcomputes : ∀ m offset p, Instantiates modules i.moduleName m →
          Computes modules torder d e ⟨m, offset, p⟩ := by
        intro m offset p hinst
        have hlt := hrank _ _ hinst
        apply ih (i := ⟨m, offset, p⟩) (hbelow.tail hinst)
        · simp only
          omega
        · simp only
          omega
      obtain ⟨nodes, s', wires', hexpand, hbuilds, hle, hle', hsim'⟩ :=
        exists_expandCells_eq hdesign hkeeps hbelow hcomputes h hreads (List.nil_append _).symm
          hreads.order hmemo h.connections (by simp only; omega) hsim
      refine ⟨nodes, s', wires', ?_, ?_, hle, ?_, ?_⟩
      · rw [Hierarchy.expand, show (hierarchy modules torder).cells = cellOrder modules torder
          from rfl, hreads.cellOrder_eq rfl, Outcome.ok_bind,
          show (hierarchy modules torder).enter = enter modules from rfl, henter, Outcome.ok_bind,
          hexpand]
      · exact ⟨hbuilds.luts, hbuilds.lutTables, hbuilds.len, hbuilds.tables, hbuilds.memo,
          hbuilds.inRange, hbuilds.fits, hbuilds.run⟩
      · rw [h.wireCount_succ, ← Nat.add_assoc]
        apply hle'
      · rw [evalModule, h.read]
        apply hsim'

end Expansion

end Builder

end SynCirc

import SynCirc.Builder.Driven
import SynCirc.Builder.Flatten

/-!
# The circuit of a closed netlist is wired

If all modules of a design are closed, every gate of the circuit that is built reads inputs and
outputs of earlier gates, every wire has one driver and the outputs are driven.  This is shown along
the expansion of the module instances, with `Drives` as the invariant beside `Simulates`.
-/

namespace SynCirc

open Zig

namespace Builder

open Netlist

variable {modules : List (List UInt8 × Json)} {torder : List (List UInt8 × List (List UInt8))}

/-! ### Cells -/

/-- A gate cell that is built reads the wires of its inputs and drives the wire of its output. -/
theorem buildCell_wires {i : ModuleInstantiation} {cells cell : List (List UInt8 × Json)}
    {name : List UInt8} (hcell : cells.lookup name = some (.object cell)) {g : Gate}
    {inputs : List Bit} {output : Nat} (h : readCell modules cell = some (.gate g inputs output))
    (hfits : LabelsFit i.wireNumberOffset (nets inputs ++ [output])) {s s' : State} {n : Node}
    (hbuild : buildCell modules i (.object cells, name) s = .ok (s', .inl n)) :
  n.output = translatedWireNumber i.wireNumberOffset (s.tables.cell i.connections) output
    ∧ ∀ luts, s'.luts <+: luts →
      n.reads luts = inputs.map (bitNumber i.wireNumberOffset (s.tables.cell i.connections))
  := by
  obtain ⟨cellType, htype, ⟨g', hg, hread⟩ | ⟨_, hread⟩⟩ := readCell_eq_some h
  · simp only [buildCell, Json.asObject_object, Outcome.ok_bind, Json.field_eq_ok.mpr hcell,
      Json.field_eq_ok.mpr htype, Json.asString, hg] at hbuild
    obtain ⟨⟨s₁, n₁⟩, hgate, heq⟩ := Outcome.bind_eq_ok.mp hbuild
    cases heq
    apply buildGate_wires hread hfits hgate
  · obtain ⟨_, _, heq, _⟩ := connect_eq modules 0 0 (fun _ => none) hread
    cases heq

/-- The translation table of the instantiating module after a submodule is connected. -/
theorem State.connected_outer (s : State) {i : ModuleInstantiation}
    (hi : i.connections < s.tables.len) {inputs : List (Bit × Nat)} {outputs : List (Nat × Bit)} :
  (s.connected i inputs outputs).tables.cell i.connections
    = (connectOutputs i.wireNumberOffset s.nextFreeWireNumber
        (s.tables.cell i.connections, connectInputs i.wireNumberOffset s.nextFreeWireNumber
          (s.tables.cell i.connections) inputs) outputs).1
  := by
  simp only [State.connected, Buffer.push_cell, Buffer.set_cell, Buffer.set_len]
  rw [Function.update_of_ne (by omega), Function.update_self]

/-- Between the states `s` and `s'`, the gates `nodes` of the instance `i` of a module are built
when the wires `ws` are driven.  Afterwards the nets `known` are driven, and the nets of the cells
`rest` are not. -/
structure Driving (i : ModuleInstantiation) (module : Module (List UInt8))
    (table₀ : WireTranslations) (ws : List Nat) (s' : State) (nodes : List Node)
    (known : List Nat) (rest : List (Cell (List UInt8))) : Prop where
  adds : Adds s'.luts ws nodes
  framed : Framed i.wireNumberOffset table₀ (module.cells.flatMap Cell.drives) nodes
  drives : Drives i.wireNumberOffset (s'.tables.cell i.connections) s'.nextFreeWireNumber
    (nodes.map Node.output ++ ws) known rest

/-- Building goes on. -/
theorem Driving.append {i : ModuleInstantiation} {module : Module (List UInt8)}
    {table₀ : WireTranslations} {ws known known' : List Nat} {s₁ s' : State}
    {nodes nodes' : List Node} {rest rest' : List (Cell (List UInt8))}
    (h : Driving i module table₀ ws s₁ nodes known rest)
    (h' : Driving i module table₀ (nodes.map Node.output ++ ws) s' nodes' known' rest')
    (hluts : s₁.luts <+: s'.luts) :
  Driving i module table₀ ws s' (nodes ++ nodes') known' rest'
  := by
  constructor
  · apply h.adds.append h'.adds hluts
  · apply h.framed.append h'.framed
  · apply h'.drives.perm
    rw [List.map_append, ← List.append_assoc]
    apply List.perm_append_comm.append_right

/-- The nets of the instance that submodules pass on have no entry in its translation table. -/
def HasNoEntries (i : ModuleInstantiation) (module : Module (List UInt8)) (s : State) : Prop :=
  ∀ c ∈ module.cells, ∀ w ∈ c.passedOn,
    s.tables.cell i.connections (w + i.wireNumberOffset) = none

/-- Expanding the instance `i` to the depth `d` drives the wires of its nets, if the wires of its
input nets are driven. -/
def DrivesNets (modules : List (List UInt8 × Json))
    (torder : List (List UInt8 × List (List UInt8))) (d : Nat) (i : ModuleInstantiation) : Prop :=
  ∀ module maxLabel s wires inputs ws, Ready modules torder i module maxLabel s →
    HasNoEntries i module s →
    s.nextFreeWireNumber + wireCount modules torder d i.moduleName < 2 ^ 64 →
    Simulates i.wireNumberOffset maxLabel (s.tables.cell i.connections) wires
      (module.cells.flatMap Cell.drives) (s.tables.cell i.connections)
      (s.nextFreeWireNumber + (maxLabel + 1)) wires (assign (fun _ => false) inputs) module.cells →
    Drives i.wireNumberOffset (s.tables.cell i.connections) (s.nextFreeWireNumber + (maxLabel + 1))
      ws module.inputs module.cells →
    ∀ nodes s', (hierarchy modules torder).expand d i s = .ok (nodes, s') →
      Driving i module (s.tables.cell i.connections) ws s' nodes module.driven []

/-- The top module and the modules below it are closed. -/
def Closed (modules : List (List UInt8 × Json)) (torder : List (List UInt8 × List (List UInt8)))
    (topModule : List UInt8) : Prop :=
  ∀ m module, Below modules topModule m → readModule modules torder m = some module →
    module.Closed (readModule modules torder)

section Expansion

variable {d e : Nat} {i : ModuleInstantiation} {module : Module (List UInt8)} {maxLabel : Nat}
  {s s₁ s' s₀ : State} {wires wires₀ env : Nat → Bool}
  {node ports cells : List (List UInt8 × Json)} {names : List (List UInt8)}
  {done rest : List (Cell (List UInt8))} {name : List UInt8} {nodes : List Node} {ws : List Nat}

/-- The labels of the nets that the cells of a module read and drive. -/
theorem Ready.inLabels (hlabels : LabelsFromTwo modules)
    (h : Ready modules torder i module maxLabel s₀) {c : Cell (List UInt8)}
    (hc : c ∈ module.cells) :
  InLabels maxLabel (c.reads ++ c.drives)
  := by
  obtain ⟨_, _, _, _, hreads⟩ := readModule_eq_some h.read
  apply hlabels.inLabels h.max
  intro l hl
  apply hreads.hasLabel_cell hc hl

theorem Ready.inLabels_rest (hlabels : LabelsFromTwo modules)
    (h : Ready modules torder i module maxLabel s₀) (hcells : module.cells = done ++ rest) :
  InLabels maxLabel (rest.flatMap Cell.drives)
  := by
  intro l hl
  obtain ⟨c, hc, hl⟩ := List.mem_flatMap.mp hl
  apply h.inLabels hlabels _ l (List.mem_append_right _ hl)
  rw [hcells]
  apply List.mem_append_right _ hc

/-- The nets that are driven after one more cell. -/
theorem driven_append_subset (inputs : List Nat) (done : List (Cell (List UInt8)))
    (c : Cell (List UInt8)) :
  inputs ++ (done ++ [c]).flatMap Cell.drives ⊆ c.drives ++ (inputs ++ done.flatMap Cell.drives)
  := by
  intro l hl
  simp only [List.flatMap_append, List.flatMap_singleton, List.mem_append] at hl ⊢
  tauto

/-- Expanding a gate. -/
theorem driving_gate (hlabels : LabelsFromTwo modules)
    (h : Ready modules torder i module maxLabel s₀)
    (hclosed : module.Closed (readModule modules torder)) {g : Gate} {inputs : List Bit}
    {output : Nat} (hcells : module.cells = done ++ .gate g inputs output :: rest)
    {cell : List (List UInt8 × Json)} (hcell : cells.lookup name = some (.object cell))
    (hread : readCell modules cell = some (.gate g inputs output)) {n : Node}
    (hbuild : buildCell modules i (.object cells, name) s = .ok (s₁, .inl n))
    (htables : s₁.tables = s.tables) (hfree : s₁.nextFreeWireNumber = s.nextFreeWireNumber)
    (hentered : i.wireNumberOffset + maxLabel < 2 ^ 64)
    (hsim : Simulates i.wireNumberOffset maxLabel (s₀.tables.cell i.connections) wires₀
      (module.cells.flatMap Cell.drives) (s.tables.cell i.connections) s.nextFreeWireNumber wires
      env (.gate g inputs output :: rest))
    (hdrives : Drives i.wireNumberOffset (s.tables.cell i.connections) s.nextFreeWireNumber ws
      (module.inputs ++ done.flatMap Cell.drives) (.gate g inputs output :: rest)) :
  Driving i module (s₀.tables.cell i.connections) ws s₁ [n]
    (module.inputs ++ (done ++ [Cell.gate g inputs output]).flatMap Cell.drives) rest
  := by
  have hmem : Cell.gate g inputs output ∈ module.cells := by
    rw [hcells]
    apply List.mem_append_right _ List.mem_cons_self
  have hcell' : output ∈ (Cell.gate g inputs output :: rest).flatMap Cell.drives := by
    rw [List.flatMap_cons]
    apply List.mem_append_left _ (List.mem_singleton_self output)
  have houtput := h.inLabels hlabels hmem output
    (List.mem_append_right _ (List.mem_singleton_self output))
  have hnew := (h.wellFormed.drives hcells).2 output (List.mem_singleton_self output)
  have hrest : InLabels maxLabel (rest.flatMap Cell.drives) := by
    rw [List.append_cons] at hcells
    apply h.inLabels_rest hlabels hcells
  obtain ⟨hn, hreads⟩ := buildCell_wires hcell hread (h.labelsFit hcells hentered) hbuild
  constructor
  · apply adds_singleton
    · intro luts hluts
      rw [hreads luts hluts]
      apply hdrives.bit
      apply hclosed.reads_known h.wellFormed hcells
    · rw [hn]
      apply hdrives.unknown output hcell'
  · intro w hw
    rw [List.mem_singleton.mp hw, hn, translatedWireNumber_congr (hsim.same output hcell')]
    exact .inr ⟨output, List.mem_flatMap.mpr ⟨_, hmem, List.mem_singleton_self output⟩, rfl⟩
  · rw [htables, hfree, List.map_singleton, hn]
    apply (hdrives.gate hsim houtput hnew hrest).mono
    apply driven_append_subset

/-- Expanding a submodule, if the expansion of its module computes its function and drives its
nets. -/
theorem driving_submodule (hlabels : LabelsFromTwo modules)
    (h : Ready modules torder i module maxLabel s₀) (hnone : HasNoEntries i module s₀)
    (hclosed : module.Closed (readModule modules torder)) {cellType : List UInt8}
    {inputs : List (Bit × Nat)} {outputs : List (Nat × Bit)}
    (hcells : module.cells = done ++ .submodule cellType inputs outputs :: rest)
    {module' : Module (List UInt8)} (hread : readModule modules torder cellType = some module')
    (hwf : module'.WellFormed (readModule modules torder))
    (hclosed' : module'.Closed (readModule modules torder))
    (hcomputes : Computes modules torder d e ⟨cellType, s.nextFreeWireNumber, s.tables.len⟩)
    (hnets : DrivesNets modules torder d ⟨cellType, s.nextFreeWireNumber, s.tables.len⟩)
    (hmemo : Memoized modules s) (hi : i.connections < s.tables.len)
    (hwires : s.nextFreeWireNumber + wireCount modules torder d cellType < 2 ^ 64)
    (hexpand : (hierarchy modules torder).expand d ⟨cellType, s.nextFreeWireNumber, s.tables.len⟩
      (s.connected i inputs outputs) = .ok (nodes, s'))
    (hsim : Simulates i.wireNumberOffset maxLabel (s₀.tables.cell i.connections) wires₀
      (module.cells.flatMap Cell.drives) (s.tables.cell i.connections) s.nextFreeWireNumber wires
      env (.submodule cellType inputs outputs :: rest))
    (hdrives : Drives i.wireNumberOffset (s.tables.cell i.connections) s.nextFreeWireNumber ws
      (module.inputs ++ done.flatMap Cell.drives) (.submodule cellType inputs outputs :: rest)) :
  Driving i module (s₀.tables.cell i.connections) ws s' nodes
    (module.inputs ++ (done ++ [Cell.submodule cellType inputs outputs]).flatMap Cell.drives) rest
  := by
  have hmem : Cell.submodule cellType inputs outputs ∈ module.cells := by
    rw [hcells]
    apply List.mem_append_right _ List.mem_cons_self
  have hrest : InLabels maxLabel (rest.flatMap Cell.drives) := by
    rw [List.append_cons] at hcells
    apply h.inLabels_rest hlabels hcells
  have hdriven : ∀ w ∈ outputs.map Prod.fst, w ∈ module.cells.flatMap Cell.drives :=
    fun w hw => List.mem_flatMap.mpr ⟨_, hmem, hw⟩
  obtain ⟨hconnected, hpassed⟩ := hclosed.connected _ hmem module' hread
  obtain ⟨_, _, _, _, hreads⟩ := readModule_eq_some hread
  obtain ⟨maxLabel', hmax⟩ := hreads.exists_findMaxWireLabel
  have hset := h.setting hlabels hcells hread hwf hmax (h.connects hcells hsim hi)
  have hready := Ready.submodule hmemo hread hwf hmax (hclosed.keepsAliases _ hmem) hset hsim
  have hin : InLabels maxLabel' (module'.cells.flatMap Cell.drives) :=
    hready.inLabels_rest hlabels (List.nil_append _).symm
  have hnone' : HasNoEntries ⟨cellType, s.nextFreeWireNumber, s.tables.len⟩ module'
      (s.connected i inputs outputs) := by
    intro c hc w hw
    have hdriven' : w ∈ module'.cells.flatMap Cell.drives :=
      List.mem_flatMap.mpr ⟨c, hc, c.passedOn_subset hw⟩
    rcases hentry : (s.connected i inputs outputs).tables.cell s.tables.len
      (w + s.nextFreeWireNumber) with _ | x
    · rfl
    · obtain ⟨w', hw', _⟩ := hset.driven_entry hdriven' hentry
      apply absurd (List.mem_map_of_mem hw') (hpassed c hc w hw)
  have hsim₁ := hsim.enter hset rfl hin
  have henter := hdrives.enter hset rfl hin (hclosed.reads_known h.wellFormed hcells) hconnected
  obtain ⟨adds, framed, drives⟩ :=
    hnets module' maxLabel' _ wires _ ws hready hnone' hwires hsim₁ henter nodes s' hexpand
  obtain ⟨nodes', s'', wires', hexpand', hbuilds, _, _, hsim'⟩ :=
    hcomputes module' maxLabel' _ wires _ hready hwires hsim₁
  rw [hexpand] at hexpand'
  cases hexpand'
  have htable := (hbuilds.submodule hi).2
  constructor
  · apply adds
  · intro n hn
    rcases framed n hn with hle | ⟨l, hl, rfl⟩
    · have hmax := hsim.next_le
      simp only at hle
      omega
    · rcases hset.driven_cases hl with ⟨w, hw, hnumber⟩ | hnumber
      · have hw' : w ∈ outputs.map Prod.fst := List.mem_map_of_mem hw
        refine .inr ⟨w, hdriven w hw', hnumber.trans ?_⟩
        apply translatedWireNumber_congr (hsim.same w (mem_of_output hw'))
      · have hmax := hsim.next_le
        simp only [hnumber]
        omega
  · rw [htable]
    apply (hdrives.leave hset hsim drives framed hsim'.kept _ _ hrest).mono
    · apply driven_append_subset
    · intro l hl
      obtain ⟨_, m, hm, _, houtputs⟩ := h.wellFormed.fits _ hmem
      rw [Option.mem_def, hread, Option.some.injEq] at hm
      rw [← hm] at houtputs
      apply hclosed'.outputs
      rw [mem_nets] at hl ⊢
      apply houtputs _ hl
    · intro w b hconstant
      rw [s.connected_outer hi]
      apply connectOutputs_constant hconstant hset.nodup'
      · intro w' hw' x hx
        apply h.below w' (hdriven w' hw') x
        rw [← hsim.same w' (mem_of_output hw')]
        apply hx
      · have hw : w ∈ outputs.map Prod.fst := List.mem_map_of_mem hconstant
        apply (hsim.same w (mem_of_output hw)).trans
        apply hnone _ hmem w
        apply mem_passedOn_of_constant _ hconstant

/-- Expanding the next cell of an instance. -/
theorem exists_step {topModule : List UInt8} (hdesign : Design modules torder topModule)
    (hclosed : Closed modules torder topModule)
    (hbelow : Below modules topModule i.moduleName)
    (hcomputes : ∀ m offset p, Instantiates modules i.moduleName m →
      Computes modules torder d e ⟨m, offset, p⟩)
    (hnets : ∀ m offset p, Instantiates modules i.moduleName m →
      DrivesNets modules torder d ⟨m, offset, p⟩)
    (h : Ready modules torder i module maxLabel s₀) (hnone : HasNoEntries i module s₀)
    (hreads : Reads modules torder i.moduleName module node ports cells names)
    {c : Cell (List UInt8)} (hcells : module.cells = done ++ c :: rest)
    {cell : List (List UInt8 × Json)} (hcell : cells.lookup name = some (.object cell))
    (hread : readCell modules cell = some c) (hmemo : Memoized modules s)
    (hi : i.connections < s.tables.len)
    (hwires : s.nextFreeWireNumber + c.size (wireCount modules torder d) < 2 ^ 64)
    (hsim : Simulates i.wireNumberOffset maxLabel (s₀.tables.cell i.connections) wires₀
      (module.cells.flatMap Cell.drives) (s.tables.cell i.connections) s.nextFreeWireNumber wires
      env (c :: rest))
    (hdrives : Drives i.wireNumberOffset (s.tables.cell i.connections) s.nextFreeWireNumber ws
      (module.inputs ++ done.flatMap Cell.drives) (c :: rest)) :
  ∃ nodes s' wires', (∀ cs, (hierarchy modules torder).expandCells
        ((hierarchy modules torder).expand d) i ((.object cells, name) :: cs) s
      = (hierarchy modules torder).expandCells ((hierarchy modules torder).expand d) i cs s'
        >>= fun r => .ok (nodes ++ r.1, r.2))
    ∧ Builds modules i.connections s s' nodes wires wires'
    ∧ s'.nextFreeWireNumber ≤ s.nextFreeWireNumber + c.size (wireCount modules torder d)
    ∧ Simulates i.wireNumberOffset maxLabel (s₀.tables.cell i.connections) wires₀
      (module.cells.flatMap Cell.drives) (s'.tables.cell i.connections) s'.nextFreeWireNumber wires'
      (c.eval (evalModule (readModule modules torder) e) env) rest
    ∧ Driving i module (s₀.tables.cell i.connections) ws s' nodes
      (module.inputs ++ (done ++ [c]).flatMap Cell.drives) rest
  := by
  have hclosedModule := hclosed _ module hbelow h.read
  have hdeterministic : ∀ {nodes s'}, (∀ cs, (hierarchy modules torder).expandCells
        ((hierarchy modules torder).expand d) i ((.object cells, name) :: cs) s
      = (hierarchy modules torder).expandCells ((hierarchy modules torder).expand d) i cs s'
        >>= fun r => .ok (nodes ++ r.1, r.2)) →
      (hierarchy modules torder).expandCells ((hierarchy modules torder).expand d) i
        [(.object cells, name)] s = .ok (nodes, s') := by
    intro nodes s' hexpand
    rw [hexpand, Hierarchy.expandCells, Outcome.ok_bind, List.append_nil]
  have hentered : i.wireNumberOffset + maxLabel < 2 ^ 64 := by
    have hnext := hsim.next_le
    omega
  rcases buildCell_eq i hcell hread (h.labelsFit hcells hentered) s with
    ⟨g, inputs, output, s₁, n, rfl, hbuild, hemits⟩
    | ⟨cellType, inputs, outputs, rfl, htype, hgate, hmodule, hbuild⟩
  · obtain ⟨nodes, s', wires', hexpand, hbuilds, _, hnext, hsim'⟩ :=
      stepsTo_gate (d := d) (e := e) hdesign.labels h hreads hcells hbuild hemits hmemo hsim
    have hnodes : (hierarchy modules torder).expandCells ((hierarchy modules torder).expand d) i
        [(.object cells, name)] s = .ok ([n], s₁) := by
      rw [Hierarchy.expandCells, show (hierarchy modules torder).visit = buildCell modules from rfl,
        hbuild]
      rfl
    rw [hdeterministic hexpand, Outcome.ok.injEq, Prod.mk.injEq] at hnodes
    obtain ⟨rfl, rfl⟩ := hnodes
    refine ⟨_, _, wires', hexpand, hbuilds, hnext, hsim', ?_⟩
    obtain ⟨_, htables, hfree⟩ := hemits.builds hmemo i.connections wires
    apply driving_gate hdesign.labels h hclosedModule hcells hcell hread hbuild htables hfree
      hentered hsim hdrives
  · have hinst : Instantiates modules i.moduleName cellType :=
      ⟨⟨cell, cells, name, ⟨node, hreads.node_eq, hreads.cells_eq⟩, hcell, htype⟩, hgate,
        hmodule⟩
    obtain ⟨module', hread', hwf⟩ := hdesign.wellFormed cellType (hbelow.tail hinst)
    have hmem : Cell.submodule cellType inputs outputs ∈ module.cells := by
      rw [hcells]
      apply List.mem_append_right _ List.mem_cons_self
    obtain ⟨hports, nodes, s', wires', hexpand, hbuilds, _, hnext, hsim'⟩ :=
      stepsTo_submodule hdesign.labels h hcells hbuild hread' hwf
        (hclosedModule.keepsAliases _ hmem) (hcomputes cellType _ _ hinst) hmemo hi hwires hsim
    refine ⟨nodes, s', wires', hexpand, hbuilds, hnext, hsim', ?_⟩
    have hnodes := hdeterministic hexpand
    rw [Hierarchy.expandCells, show (hierarchy modules torder).visit = buildCell modules from rfl,
      hbuild (h.wellFormed.fits _ hmem).1 hports, Outcome.ok_bind] at hnodes
    obtain ⟨⟨first, s₁⟩, hfirst, hnodes⟩ := Outcome.bind_eq_ok.mp hnodes
    obtain ⟨⟨last, s₂⟩, hlast, heq⟩ := Outcome.bind_eq_ok.mp hnodes
    cases hlast
    dsimp only at heq
    rw [List.append_nil] at heq
    cases heq
    apply driving_submodule hdesign.labels h hnone hclosedModule hcells hread' hwf
      (hclosed _ module' (hbelow.tail hinst) hread') (hcomputes cellType _ _ hinst)
      (hnets cellType _ _ hinst) hmemo hi hwires hfirst hsim hdrives

/-- Expanding the cells of an instance. -/
theorem driving_expandCells {topModule : List UInt8} (hdesign : Design modules torder topModule)
    (hclosed : Closed modules torder topModule)
    (hbelow : Below modules topModule i.moduleName)
    (hcomputes : ∀ m offset p, Instantiates modules i.moduleName m →
      Computes modules torder d e ⟨m, offset, p⟩)
    (hnets : ∀ m offset p, Instantiates modules i.moduleName m →
      DrivesNets modules torder d ⟨m, offset, p⟩)
    (h : Ready modules torder i module maxLabel s₀) (hnone : HasNoEntries i module s₀)
    (hreads : Reads modules torder i.moduleName module node ports cells names)
    (hcells : module.cells = done ++ rest) {names' : List (List UInt8)}
    (hnames : List.Forall₂ (fun name c => ∃ cell, cells.lookup name = some (.object cell)
      ∧ readCell modules cell = some c) names' rest)
    (hmemo : Memoized modules s) (hi : i.connections < s.tables.len)
    (hwires : s.nextFreeWireNumber + (rest.map (Cell.size (wireCount modules torder d))).sum
      < 2 ^ 64)
    (hsim : Simulates i.wireNumberOffset maxLabel (s₀.tables.cell i.connections) wires₀
      (module.cells.flatMap Cell.drives) (s.tables.cell i.connections) s.nextFreeWireNumber wires
      env rest)
    (hdrives : Drives i.wireNumberOffset (s.tables.cell i.connections) s.nextFreeWireNumber ws
      (module.inputs ++ done.flatMap Cell.drives) rest)
    (hexpand : (hierarchy modules torder).expandCells ((hierarchy modules torder).expand d) i
      (names'.map (fun name => (.object cells, name))) s = .ok (nodes, s')) :
  s.luts <+: s'.luts ∧ Driving i module (s₀.tables.cell i.connections) ws s' nodes module.driven []
  := by
  induction hnames generalizing done s wires env nodes ws with
  | nil =>
      cases hexpand
      refine ⟨List.prefix_refl _, adds_nil _ _, (fun _ hn => nomatch hn), ?_⟩
      rw [Module.driven, hcells, List.append_nil]
      apply hdrives
  | @cons name c names' rest hname _ ih =>
      obtain ⟨cell, hcell, hread⟩ := hname
      rw [List.map_cons, List.sum_cons] at hwires
      obtain ⟨nodes₁, s₁, wires₁, hexpand₁, hbuilds₁, hnext₁, hsim₁, hdriving₁⟩ :=
        exists_step hdesign hclosed hbelow hcomputes hnets h hnone hreads hcells hcell hread hmemo
          hi (by omega) hsim hdrives
      rw [List.map_cons, hexpand₁] at hexpand
      obtain ⟨⟨nodes₂, s₂⟩, hrest, heq⟩ := Outcome.bind_eq_ok.mp hexpand
      cases heq
      rw [List.append_cons] at hcells
      obtain ⟨hluts, hdriving⟩ := ih hcells hbuilds₁.memo (hi.trans_le hbuilds₁.len) (by omega)
        hsim₁ hdriving₁.drives hrest
      exact ⟨hbuilds₁.luts.trans hluts, hdriving₁.append hdriving hluts⟩

/-- Expanding an instance of a closed design drives the wires of its nets. -/
theorem Design.drivesNets {topModule : List UInt8} (hdesign : Design modules torder topModule)
    (hclosed : Closed modules torder topModule) {rank : List UInt8 → Nat}
    (hrank : ∀ m m', Instantiates modules m m' → rank m' < rank m)
    (hbelow : Below modules topModule i.moduleName) (hd : rank i.moduleName < d) :
  DrivesNets modules torder d i
  := by
  have hkeeps : KeepsAliases modules torder topModule :=
    fun m module hm hread => (hclosed m module hm hread).keepsAliases
  induction d generalizing i with
  | zero => contradiction
  | succ d ih =>
      intro module maxLabel s wires inputs ws h hnone hwires hsim hdrives nodes s' hexpand
      obtain ⟨node, ports, cells, names, hreads⟩ := readModule_eq_some h.read
      rw [h.wireCount_succ] at hwires
      obtain ⟨maxWireNumbers, henter, hmemo⟩ := exists_enter_eq h.memo h.max (by omega)
      rw [Hierarchy.expand, show (hierarchy modules torder).cells = cellOrder modules torder
          from rfl, hreads.cellOrder_eq rfl, Outcome.ok_bind,
        show (hierarchy modules torder).enter = enter modules from rfl, henter,
        Outcome.ok_bind] at hexpand
      have hlt : ∀ m, Instantiates modules i.moduleName m → rank m < d := by
        intro m hinst
        have hlt := hrank _ _ hinst
        omega
      have hcomputes : ∀ m offset p, Instantiates modules i.moduleName m →
          Computes modules torder d d ⟨m, offset, p⟩ := by
        intro m offset p hinst
        apply hdesign.computes hkeeps hrank (hbelow.tail hinst) (hlt m hinst) (hlt m hinst)
      have hnets : ∀ m offset p, Instantiates modules i.moduleName m →
          DrivesNets modules torder d ⟨m, offset, p⟩ := by
        intro m offset p hinst
        apply ih (i := ⟨m, offset, p⟩) (hbelow.tail hinst) (hlt m hinst)
      have hknown : Drives i.wireNumberOffset (s.tables.cell i.connections)
          (s.nextFreeWireNumber + (maxLabel + 1)) ws
          (module.inputs ++ ([] : List (Cell (List UInt8))).flatMap Cell.drives) module.cells := by
        rw [List.flatMap_nil, List.append_nil]
        apply hdrives
      apply (driving_expandCells hdesign hclosed hbelow hcomputes hnets h hnone hreads
        (List.nil_append _).symm hreads.order hmemo h.connections (by simp only; omega) hsim hknown
        hexpand).2

end Expansion

/-! ### Lookup tables -/

/-- The module `m` has a lookup table. -/
def HasLut (modules : List (List UInt8 × Json)) (m : List UInt8) : Prop :=
  ∃ cell cellType, HasCell modules m cell cellType ∧ gateType cellType = some .lut

/-- Only a cell that is a lookup table is built to one. -/
theorem gateType_of_isLut {offset : Nat} {table : WireTranslations}
    {cell : List (List UInt8 × Json)} {g : GateType} {s s' : State} {n : Node}
    (h : buildGate offset table cell s g = .ok (s', n)) (hn : n.isLut = true) :
  g = .lut
  := by
  have hpins : ∀ {pins : List String} {f : List Nat × Nat → Outcome Error Node},
      (∀ r n, f r = .ok n → n.isLut = false) →
      ((buildPins offset table cell pins >>= f) >>= fun n => pure (s, n)) ≠ .ok (s', n) := by
    intro pins f hf h
    obtain ⟨n', hn', h⟩ := Outcome.bind_eq_ok.mp h
    obtain ⟨rfl, rfl⟩ := Prod.mk.inj (Outcome.ok.inj h)
    obtain ⟨r, -, hr⟩ := Outcome.bind_eq_ok.mp hn'
    rw [hf r _ hr] at hn
    contradiction
  cases g with
  | lut => rfl
  | inv =>
      apply absurd h (hpins _)
      rintro ⟨_ | ⟨a, _ | _⟩, y⟩ n ⟨⟩
      rfl
  | xor =>
      apply absurd h (hpins _)
      rintro ⟨_ | ⟨a, _ | ⟨b, _ | _⟩⟩, y⟩ n ⟨⟩
      rfl
  | and =>
      apply absurd h (hpins _)
      rintro ⟨_ | ⟨a, _ | ⟨b, _ | _⟩⟩, y⟩ n ⟨⟩
      rfl
  | and3 =>
      apply absurd h (hpins _)
      rintro ⟨_ | ⟨a, _ | ⟨b, _ | ⟨c, _ | _⟩⟩⟩, y⟩ n ⟨⟩
      rfl
  | and4 =>
      apply absurd h (hpins _)
      rintro ⟨_ | ⟨a, _ | ⟨b, _ | ⟨c, _ | ⟨d, _ | _⟩⟩⟩⟩, y⟩ n ⟨⟩
      rfl

/-- The expansion of a netlist without lookup tables has none. -/
theorem isLut_of_expandTopModule {topModule : List UInt8}
    (hlut : ∀ m, Below modules topModule m → ¬ HasLut modules m) {nodes : List Node} {s : State}
    (h : expandTopModule modules torder topModule = .ok (nodes, s)) :
  ∀ n ∈ nodes, n.isLut = false
  := by
  apply Hierarchy.forall_expand (P := fun i => Below modules topModule i.moduleName)
    (Q := fun n => n.isLut = false) _ _ _ h
  · intro i cs c s s' n hi hcs hc hvisit
    obtain ⟨cells, cell, cellType, hcells, hcell, htype,
      ⟨g, n', hg, hn', hgate⟩ | ⟨_, _, _, hr, _⟩⟩ := buildCell_eq_ok hvisit
    · cases hn'
      rw [Bool.eq_false_iff]
      intro hn
      apply hlut i.moduleName hi
      refine ⟨cell, cellType, hasCell_of_mem hcs hc hcells hcell htype, ?_⟩
      rw [hg, gateType_of_isLut hgate hn]
    · cases hr
  · intro i cs c s s' j hi hcs hc hvisit
    obtain ⟨_, _, _, _, _, _, _, _, hinst, _, _, rfl⟩ := visit_instance hcs hc hvisit
    apply hi.tail hinst
  · exact .refl

/-! ### The top module -/

section TopModule

variable {topModule : List UInt8} {top : Module (List UInt8)}

/-- Before the top module is entered, the constants and its input nets are driven. -/
theorem drives_initial {maxLabel : Nat} (hlabels : LabelsFromTwo modules)
    (h : Ready modules torder (topModuleInstantiation topModule) top maxLabel initialState) :
  Drives 0 (fun _ => none) (0 + (maxLabel + 1)) (constantGates.map Node.output ++ top.inputs)
    top.inputs top.cells
  := by
  have hnumber : ∀ l, translatedWireNumber 0 (fun _ => none) l = l := fun _ => rfl
  have hnotMem : ∀ n, 2 ≤ n → n ∉ top.inputs →
      n ∉ constantGates.map Node.output ++ top.inputs := by
    intro n htwo hn hmem
    rcases List.mem_append.mp hmem with hmem | hmem
    · simp [constantGates, Node.output, constantZeroWireNumber, constantOneWireNumber] at hmem
      omega
    · apply hn hmem
  have hdriven := h.inLabels_rest hlabels (List.nil_append _).symm
  obtain ⟨_, _, _, _, hreads⟩ := readModule_eq_some h.read
  have hinputs : InLabels maxLabel top.inputs :=
    hlabels.inLabels h.max (fun l hl => hreads.hasLabel_input hl)
  constructor
  · apply List.mem_append_left
    exact List.mem_cons_self
  · apply List.mem_append_left
    exact List.mem_cons_of_mem _ (List.mem_singleton_self _)
  · intro l hl
    apply List.mem_append_right _ hl
  · intro l hl
    apply hnotMem l (hdriven l hl).1 (h.wellFormed.notMem_inputs hl)
  · intro n htwo hn
    apply hnotMem n htwo
    intro hmem
    have hle := (hinputs n hmem).2
    omega

theorem readFrom_constantGates {luts known : List Nat} {nodes : List Node}
    (h : Node.ReadFrom luts (constantGates.map Node.output ++ known) nodes) :
  Node.ReadFrom luts known (constantGates ++ nodes)
  := by
  refine ⟨by simp [Node.reads], by simp [Node.reads], h.mono ?_⟩
  intro w hw
  simp only [constantGates, List.map_cons, List.map_nil, List.cons_append, List.nil_append,
    List.mem_cons] at hw ⊢
  tauto

/-- The circuit of a closed design is wired, if its wires can be numbered. -/
theorem Design.exists_wired (hdesign : Design modules torder topModule)
    (hclosed : Closed modules torder topModule)
    (hread : readModule modules torder topModule = some top)
    (hnets : (∃ l, HasLabel modules topModule l) ∨ top.cells ≠ [])
    (hwires : wireCount modules torder (modules.length + 1) topModule < 2 ^ 64) :
  ∃ c, buildRecursively modules torder topModule = .ok c
    ∧ c.inputs = top.inputs ∧ c.outputs.length = top.outputs.length
    ∧ c.maxWireNumber + 1 < 2 ^ 64 ∧ c.InRange ∧ c.Wired
    ∧ (∀ n ∈ c.nodes, n.arityFits = true)
    ∧ ((∀ m, Below modules topModule m → ¬ HasLut modules m) → c.LutFree)
  := by
  have hkeeps : KeepsAliases modules torder topModule :=
    fun m module hm hread => (hclosed m module hm hread).keepsAliases
  obtain ⟨top', hread', hwf⟩ := hdesign.wellFormed topModule .refl
  rw [hread, Option.some.injEq] at hread'
  rw [← hread'] at hwf
  obtain ⟨_, _, _, _, hreads⟩ := readModule_eq_some hread
  obtain ⟨maxLabel, hmax⟩ := hreads.exists_findMaxWireLabel
  obtain ⟨nodes, s, wires, hexpand, hbuilds, hnext, hlast, -⟩ :=
    hdesign.exists_expandTopModule_eq hkeeps hread hmax hwires (Nat.lt_succ_self _) []
  have hlabels := hreads.labelsFit_outputs hmax (by omega)
  have htwo := (two_le_of_nets hdesign.labels hread hmax hnets).trans hnext
  have hready := ready_initial hread hwf hmax
  obtain ⟨rank, hrank, hle⟩ := hdesign.acyclic.exists_rank
  have hdrivesNets : DrivesNets modules torder (modules.length + 1)
      (topModuleInstantiation topModule) :=
    hdesign.drivesNets hclosed hrank .refl (Nat.lt_succ_of_le (hle _))
  obtain ⟨adds, -, drives⟩ := hdrivesNets top maxLabel initialState (initialWires top [])
    (top.inputs.zip []) _ hready (fun _ _ _ _ => rfl)
    (by rw [show initialState.nextFreeWireNumber = 0 from rfl, Nat.zero_add]; apply hwires)
    (simulates_initial hdesign.labels hread hwf hmax []) (drives_initial hdesign.labels hready)
    nodes s hexpand
  have hbuild : buildRecursively modules torder topModule = .ok ⟨constantGates ++ nodes, s.luts,
      top.inputs, top.outputs.map (bitNumber 0 (s.tables.cell 0)), s.lutTables,
      s.nextFreeWireNumber - 1⟩ := by
    rw [buildRecursively, hreads.buildInputs_eq, Outcome.ok_bind, hexpand, Outcome.ok_bind]
    simp only [finish, topModuleInstantiation, hreads.buildOutputs_eq hlabels, Outcome.ok_bind]
    rw [sub_of (by omega)]
    rfl
  obtain ⟨k, hk⟩ := hdesign.acyclic.exists_buildTopModule_eq torder topModule
  refine ⟨_, hbuild, rfl, List.length_map _, ?_, ⟨?_, ?_⟩, ⟨⟨?_, ?_⟩, ?_, ?_⟩, ?_, ?_⟩
  · simp only
    omega
  · intro w hw
    rcases le_maxWireNumber ((hk k (Nat.le_refl k)).trans (by rw [hbuild])) w
        (List.mem_append_left _ hw)
      with hle | hle
    · simp only
      omega
    · apply hle
  · rw [List.forall_mem_append]
    refine ⟨?_, hbuilds.inRange⟩
    simp [constantGates, Node.LutInRange]
  · rw [List.map_append]
    apply List.Nodup.append (by decide) adds.nodup
    intro w hw hw'
    apply adds.new w hw' (List.mem_append_left _ hw)
  · rw [List.forall_mem_append]
    constructor
    · have hinputs : ∀ w ∈ top.inputs, 2 ≤ w :=
        fun w hw => hdesign.labels topModule w (hreads.hasLabel_input hw)
      intro n hn hmem
      have hle := hinputs n.output hmem
      have hconstant : n.output ∈ [0, 1] := List.mem_map_of_mem hn
      rw [List.mem_pair] at hconstant
      omega
    · intro n hn hmem
      apply adds.new n.output (List.mem_map_of_mem hn) (List.mem_append_right _ hmem)
  · apply readFrom_constantGates (adds.reads s.luts (List.prefix_refl _))
  · intro w hw
    have hmem := drives.bit (hclosed topModule top .refl hread).outputs w hw
    rw [Circuit.Driven, List.map_append]
    simp only [List.mem_append] at hmem ⊢
    tauto
  · rw [List.forall_mem_append]
    exact ⟨by decide, hbuilds.fits⟩
  · intro hlut
    rw [Circuit.LutFree, List.forall_mem_append]
    exact ⟨by decide, isLut_of_expandTopModule hlut hexpand⟩

end TopModule

/-- A netlist is closed if all its modules are. -/
theorem closed_of_modules {topModule : List UInt8} (htop : topModule ∈ modules.map Prod.fst)
    (h : ∀ entry ∈ modules, ∀ module ∈ readModule modules torder entry.1,
      module.Closed (readModule modules torder)) :
  Closed modules torder topModule
  := by
  intro m module hm hread
  obtain ⟨entry, hentry, rfl⟩ := mem_of_below htop hm
  apply h entry hentry module hread

theorem closed_adder :
  Closed adderModules adder.torder adder.topModule
  := by
  apply closed_of_modules
  · decide +kernel
  · decide +kernel

end Builder

open Builder Netlist in
/-- The circuit that is built from a closed design, whose wires can be numbered, is in range and
wired: every gate reads inputs and outputs of earlier gates, every wire has one driver, and the
outputs are driven. -/
theorem Builder.build_wired (b : Builder) {modules : List (List UInt8 × Json)}
    (hmodules : b.modules = .ok modules) (hdesign : Design modules b.torder b.topModule)
    (hclosed : Closed modules b.torder b.topModule) {top : Module (List UInt8)}
    (hread : readModule modules b.torder b.topModule = some top)
    (hnets : (∃ l, HasLabel modules b.topModule l) ∨ top.cells ≠ [])
    (hwires : wireCount modules b.torder (modules.length + 1) b.topModule < 2 ^ 64) :
  ∃ c, (∃ k, ∀ fuel ≥ k, b.build fuel = some (.ok c)) ∧ c.InRange ∧ c.Wired
  := by
  obtain ⟨c, hbuild, _, _, _, hrange, hwired, _⟩ := hdesign.exists_wired hclosed hread hnets
    hwires
  refine ⟨c, ?_, hrange, hwired⟩
  obtain ⟨k, hk⟩ := hdesign.acyclic.exists_buildTopModule_eq b.torder b.topModule
  use k
  intro fuel hfuel
  rw [build, hmodules, Hierarchy.after_ok, hk fuel hfuel, hbuild]

open Builder Netlist in
theorem Builder.build_wired_adder :
  ∃ c, (∃ k, ∀ fuel ≥ k, adder.build fuel = some (.ok c)) ∧ c.InRange ∧ c.Wired
  := by
  apply Builder.build_wired adder rfl design_adder closed_adder rfl (.inr _) wireCount_adder
  apply List.cons_ne_nil

end SynCirc

import SynCirc.Builder.Correct
import SynCirc.Builder.Admissible

/-!
# Flattening keeps the function of a netlist

The circuit that is built from a design computes the function of its top module, if no instance is
connected at an output bit that is an alias inside its module.  Such an alias is entered into the
translation table of the instance under the number of the connected wire, where it is not found
again, and the connected wire is not driven.
-/

namespace SynCirc

open Zig

namespace Builder

open Netlist

variable {modules : List (List UInt8 × Json)} {torder : List (List UInt8 × List (List UInt8))}
  {topModule : List UInt8} {top : Module (List UInt8)} {maxLabel : Nat} {inputs : List Bool}

/-- The wires when the constants and the inputs are set. -/
def initialWires (top : Module (List UInt8)) (inputs : List Bool) : Nat → Bool :=
  Function.update (Function.update (assign (fun _ => false) (top.inputs.zip inputs))
    constantZeroWireNumber false) constantOneWireNumber true

theorem initialWires_of_two_le {n : Nat} (hn : 2 ≤ n) :
  initialWires top inputs n = assign (fun _ => false) (top.inputs.zip inputs) n
  := by
  have hzero : n ≠ constantZeroWireNumber := by
    rw [constantZeroWireNumber]
    omega
  have hone : n ≠ constantOneWireNumber := by
    rw [constantOneWireNumber]
    omega
  rw [initialWires, Function.update_of_ne hone, Function.update_of_ne hzero]

/-- A net that is not an input begins at 0. -/
theorem assign_inputs_of_notMem {l : Nat} (hl : l ∉ top.inputs) :
  assign (fun _ => false) (top.inputs.zip inputs) l = false
  := by
  apply assign_of_notMem
  intro hmem
  obtain ⟨p, hp, rfl⟩ := List.mem_map.mp hmem
  apply hl (List.of_mem_zip hp).1

/-- The top module is ready to be entered in the initial state. -/
theorem ready_initial (hread : readModule modules torder topModule = some top)
    (hwf : top.WellFormed (readModule modules torder))
    (hmax : findMaxWireLabel modules topModule = .ok maxLabel) :
  Ready modules torder (topModuleInstantiation topModule) top maxLabel initialState
  := by
  constructor
  · apply hread
  · apply hwf
  · apply hmax
  · intro m l hl
    cases hl
  · rfl
  · apply Nat.zero_lt_one
  · intro c _ w _
    rfl
  · intro w _ x hx
    cases hx

/-- The wires of the nets of the top module hold the values the nets begin with. -/
theorem simulates_initial (hlabels : LabelsFromTwo modules)
    (hread : readModule modules torder topModule = some top)
    (hwf : top.WellFormed (readModule modules torder))
    (hmax : findMaxWireLabel modules topModule = .ok maxLabel) (inputs : List Bool) :
  Simulates 0 maxLabel (fun _ => none) (initialWires top inputs) (top.cells.flatMap Cell.drives)
    (fun _ => none) (0 + (maxLabel + 1)) (initialWires top inputs)
    (assign (fun _ => false) (top.inputs.zip inputs)) top.cells
  := by
  obtain ⟨_, _, _, _, hreads⟩ := readModule_eq_some hread
  have hdriven : InLabels maxLabel (top.cells.flatMap Cell.drives) := by
    apply hlabels.inLabels hmax
    intro l hl
    obtain ⟨c, hc, hl⟩ := List.mem_flatMap.mp hl
    apply hreads.hasLabel_cell hc (List.mem_append_right _ hl)
  have hinputs : InLabels maxLabel top.inputs :=
    hlabels.inLabels hmax (fun l hl => hreads.hasLabel_input hl)
  have hnumber : ∀ l, translatedWireNumber 0 (fun _ => none) l = l := fun _ => rfl
  constructor
  · intro l hl2 _
    apply initialWires_of_two_le hl2
  · intro l _ l' _ _ hne
    apply hne
  · intro l hl
    apply (hdriven l hl).1
  · intro l _ hl
    rw [hnumber]
    omega
  · intro l hl
    apply assign_inputs_of_notMem (hwf.notMem_inputs hl)
  · intro l _
    rfl
  · intro l x hx
    cases hx
  · intro n hn2 hn
    rw [initialWires_of_two_le hn2, assign_inputs_of_notMem]
    intro hmem
    have hle := (hinputs n hmem).2
    omega
  · rfl
  · rfl
  · intro n hn
    contradiction
  · omega

/-- What the expansion of the top module builds. -/
theorem Design.exists_expandTopModule_eq (hdesign : Design modules torder topModule)
    (hkeeps : KeepsAliases modules torder topModule)
    (hread : readModule modules torder topModule = some top)
    (hmax : findMaxWireLabel modules topModule = .ok maxLabel)
    (hwires : wireCount modules torder (modules.length + 1) topModule < 2 ^ 64) {e : Nat}
    (he : modules.length < e) (inputs : List Bool) :
  ∃ nodes s wires, expandTopModule modules torder topModule = .ok (nodes, s)
    ∧ Builds modules 0 initialState s nodes (initialWires top inputs) wires
    ∧ maxLabel + 1 + top.cells.countP Cell.isSubmodule ≤ s.nextFreeWireNumber
    ∧ s.nextFreeWireNumber < 2 ^ 64
    ∧ Simulates 0 maxLabel (fun _ => none) (initialWires top inputs)
      (top.cells.flatMap Cell.drives) (s.tables.cell 0) s.nextFreeWireNumber wires
      (evalModule (readModule modules torder) e topModule (top.inputs.zip inputs))
      ([] : List (Cell (List UInt8)))
  := by
  obtain ⟨top', hread', hwf⟩ := hdesign.wellFormed topModule .refl
  rw [hread, Option.some.injEq] at hread'
  rw [← hread'] at hwf
  obtain ⟨rank, hrank, hle⟩ := hdesign.acyclic.exists_rank
  have hcomputes : Computes modules torder (modules.length + 1) e
      (topModuleInstantiation topModule) :=
    hdesign.computes hkeeps hrank .refl (Nat.lt_succ_of_le (hle _)) ((hle _).trans_lt he)
  have hfits : initialState.nextFreeWireNumber
      + wireCount modules torder (modules.length + 1) topModule < 2 ^ 64 := by
    rw [show initialState.nextFreeWireNumber = 0 from rfl, Nat.zero_add]
    apply hwires
  obtain ⟨nodes, s, wires, hexpand, hbuilds, hnext, hlast, hsim⟩ := hcomputes top maxLabel
    initialState (initialWires top inputs) (top.inputs.zip inputs) (ready_initial hread hwf hmax)
    hfits (simulates_initial hdesign.labels hread hwf hmax inputs)
  rw [show initialState.nextFreeWireNumber = 0 from rfl, Nat.zero_add] at hnext
  exact ⟨nodes, s, wires, hexpand, hbuilds, hnext, hlast.trans_lt hfits, hsim⟩

/-- The labels of the outputs of the top module are wire numbers. -/
theorem Reads.labelsFit_outputs {node ports cells : List (List UInt8 × Json)}
    {names : List (List UInt8)} (h : Reads modules torder topModule top node ports cells names)
    (hmax : findMaxWireLabel modules topModule = .ok maxLabel) (hlabel : maxLabel < 2 ^ 64) :
  LabelsFit 0 (nets top.outputs)
  := by
  intro l hl
  have hle := (h.hasLabel_output (mem_nets.mp hl)).le hmax
  omega

/-- If the top module has a net or a cell, the wires of the constants are below the next free wire
number. -/
theorem two_le_of_nets (hlabels : LabelsFromTwo modules)
    (hread : readModule modules torder topModule = some top)
    (hmax : findMaxWireLabel modules topModule = .ok maxLabel)
    (hnets : (∃ l, HasLabel modules topModule l) ∨ top.cells ≠ []) :
  2 ≤ maxLabel + 1 + top.cells.countP Cell.isSubmodule
  := by
  obtain ⟨_, _, _, _, hreads⟩ := readModule_eq_some hread
  have hlabel : ∀ l, HasLabel modules topModule l → 2 ≤ maxLabel := by
    intro l hl
    apply (hlabels topModule l hl).trans (hl.le hmax)
  rcases hnets with ⟨l, hl⟩ | hcells
  · have hle := hlabel l hl
    omega
  · obtain ⟨c, hc⟩ := List.exists_mem_of_ne_nil _ hcells
    cases hsub : c.isSubmodule with
    | true =>
        have hpos : 0 < top.cells.countP Cell.isSubmodule := List.countP_pos_iff.mpr ⟨c, hc, hsub⟩
        omega
    | false =>
        cases c with
        | gate g inputs output =>
            have hle := hlabel output (hreads.hasLabel_cell hc
              (List.mem_append_right _ (List.mem_singleton_self output)))
            omega
        | submodule name inputs outputs => cases hsub

/-- The values of the wires of a circuit that begins with the constants. -/
theorem values_constantGates (c : Circuit) {nodes : List Node}
    (hnodes : c.nodes = constantGates ++ nodes) (hinputs : c.inputs = top.inputs)
    (inputs : List Bool) :
  c.values inputs
    = StraightLine.run (initialWires top inputs) (nodes.map (Node.assignment c.luts c.lutTables))
  := by
  rw [Circuit.values, Circuit.program, hnodes, List.map_append, StraightLine.run_append,
    Circuit.initial, hinputs]
  rfl

/-- The circuit of a design computes the function of its top module. -/
theorem Design.exists_buildRecursively_eq (hdesign : Design modules torder topModule)
    (hkeeps : KeepsAliases modules torder topModule)
    (hread : readModule modules torder topModule = some top)
    (hnets : (∃ l, HasLabel modules topModule l) ∨ top.cells ≠ [])
    (hwires : wireCount modules torder (modules.length + 1) topModule < 2 ^ 64) {e : Nat}
    (he : modules.length < e) (hinputs : inputs.length = top.inputs.length) :
  ∃ c, buildRecursively modules torder topModule = .ok c
    ∧ evaluateCircuit c inputs
      = .ok (top.function (readModule modules torder) e topModule inputs)
  := by
  obtain ⟨_, _, _, _, hreads⟩ := readModule_eq_some hread
  obtain ⟨maxLabel, hmax⟩ := hreads.exists_findMaxWireLabel
  obtain ⟨nodes, s, wires, hexpand, hbuilds, hnext, hlast, hsim⟩ :=
    hdesign.exists_expandTopModule_eq hkeeps hread hmax hwires he inputs
  have htwo := (two_le_of_nets hdesign.labels hread hmax hnets).trans hnext
  have hlabels := hreads.labelsFit_outputs hmax (by omega)
  have hbuild : buildRecursively modules torder topModule = .ok ⟨constantGates ++ nodes, s.luts,
      top.inputs, top.outputs.map (bitNumber 0 (s.tables.cell 0)), s.lutTables,
      s.nextFreeWireNumber - 1⟩ := by
    rw [buildRecursively, hreads.buildInputs_eq, Outcome.ok_bind, hexpand, Outcome.ok_bind]
    simp only [finish, topModuleInstantiation, hreads.buildOutputs_eq hlabels, Outcome.ok_bind]
    rw [sub_of (by omega)]
    rfl
  obtain ⟨k, hk⟩ := hdesign.acyclic.exists_buildTopModule_eq torder topModule
  refine ⟨_, hbuild, ?_⟩
  have htable : s.nextFreeWireNumber - 1 + 1 < 2 ^ 64 := by omega
  rw [evaluateCircuit_eq _ htable hinputs, if_pos, values_constantGates _ rfl rfl,
    hbuilds.run _ _ (List.prefix_refl _) (List.prefix_refl _)]
  · rw [hsim.values, Module.function]
    apply hdesign.labels.inLabels hmax
    intro l hl
    apply hreads.hasLabel_output (mem_nets.mp hl)
  · rw [List.all_append, Bool.and_eq_true]
    exact ⟨rfl, List.all_eq_true.mpr hbuilds.fits⟩
  · constructor
    · intro w hw
      rcases le_maxWireNumber ((hk k (Nat.le_refl k)).trans (by rw [hbuild])) w
          (List.mem_append_left _ hw)
        with hle | hle
      · simp only
        omega
      · apply hle
    · rw [List.forall_mem_append]
      refine ⟨?_, hbuilds.inRange⟩
      simp [constantGates, Node.LutInRange]

/-! ### Checking a design -/

/-- The modules below a module of the netlist are modules of it. -/
theorem mem_of_below (htop : topModule ∈ modules.map Prod.fst) {m : List UInt8}
    (h : Below modules topModule m) :
  ∃ entry ∈ modules, entry.1 = m
  := by
  rw [← List.mem_map]
  cases h with
  | refl => apply htop
  | tail _ hinst => apply mem_of_lookup_isSome hinst.2.2

/-- A netlist is a design if all its modules can be read and are well formed. -/
theorem design_of_modules (hacyclic : Acyclic modules) (hlabels : LabelsFromTwo modules)
    (htop : topModule ∈ modules.map Prod.fst)
    (h : ∀ entry ∈ modules, ∃ module ∈ readModule modules torder entry.1,
      module.WellFormed (readModule modules torder)) :
  Design modules torder topModule
  := by
  refine ⟨hacyclic, hlabels, ?_⟩
  intro m hm
  obtain ⟨entry, hentry, rfl⟩ := mem_of_below htop hm
  apply h entry hentry

theorem keepsAliases_of_modules (htop : topModule ∈ modules.map Prod.fst)
    (h : ∀ entry ∈ modules, ∀ module ∈ readModule modules torder entry.1,
      module.KeepsAliases (readModule modules torder)) :
  KeepsAliases modules torder topModule
  := by
  intro m module hm hread
  obtain ⟨entry, hentry, rfl⟩ := mem_of_below htop hm
  apply h entry hentry module hread

/-- What is read from the full adder. -/
def adderTop : Module (List UInt8) where
  inputs := [2, 3, 4]
  outputs := [.net 5, .net 6]
  cells := [.submodule (bytes "half") [(.net 2, 2), (.net 3, 3)] [(7, .net 4), (8, .net 5)],
    .submodule (bytes "half") [(.net 7, 2), (.net 4, 3)] [(5, .net 4), (9, .net 5)],
    .gate .xor [.net 8, .net 9] 6]

theorem design_adder :
  Design adderModules adder.torder adder.topModule
  := by
  apply design_of_modules acyclic_adderModules labelsFromTwo_adderModules
  · decide +kernel
  · decide +kernel

theorem keepsAliases_adder :
  KeepsAliases adderModules adder.torder adder.topModule
  := by
  apply keepsAliases_of_modules
  · decide +kernel
  · decide +kernel

theorem wireCount_adder :
  wireCount adderModules adder.torder (adderModules.length + 1) adder.topModule < 2 ^ 64
  := by
  decide +kernel

/-! ### A lost alias -/

/-- A module that hands on its input, an instance of it in a module that hands on its input in this
way, and an instance of that in the top module. -/
def relayModules : List (List UInt8 × Json) :=
  [(bytes "wire", moduleNode [("in", portNode "input" [2]), ("out", portNode "output" [2])] []),
    (bytes "relay", moduleNode [("in", portNode "input" [2]), ("out", portNode "output" [3])]
      [("w", cellNode "wire" [("in", [2]), ("out", [3])])]),
    (bytes "top", moduleNode [("in", portNode "input" [2]), ("out", portNode "output" [3])]
      [("r", cellNode "relay" [("in", [2]), ("out", [3])])])]

/-- The netlist with these modules. -/
def relay : Builder where
  root := .object [(bytes "modules", .object relayModules)]
  torder := [(bytes "wire", []), (bytes "relay", [bytes "w"]), (bytes "top", [bytes "r"])]
  topModule := bytes "top"

/-- What is read from its top module. -/
def relayTop : Module (List UInt8) where
  inputs := [2]
  outputs := [.net 3]
  cells := [.submodule (bytes "relay") [(.net 2, 2)] [(3, .net 3)]]

theorem design_relay :
  Design relayModules relay.torder relay.topModule
  := by
  apply design_of_modules
  · apply acyclic_of_rank
      (fun m => if m = bytes "top" then 2 else if m = bytes "relay" then 1 else 0)
    decide +kernel
  · apply labelsFromTwo_of_bitLists
    decide +kernel
  · decide +kernel
  · decide +kernel

end Builder

open Builder Netlist in
/-- The circuit that is built from a design computes the function of its top module, if no instance
is connected at an output bit that is an alias inside its module, the top module has a net or a
cell, and the wires of all instances can be numbered.  The function of the top module evaluates
every instance by the function of its module. -/
theorem Builder.build_computes (b : Builder) {modules : List (List UInt8 × Json)}
    (hmodules : b.modules = .ok modules) (hdesign : Design modules b.torder b.topModule)
    {top : Module (List UInt8)} (hread : readModule modules b.torder b.topModule = some top)
    (hnets : (∃ l, HasLabel modules b.topModule l) ∨ top.cells ≠ [])
    (hwires : wireCount modules b.torder (modules.length + 1) b.topModule < 2 ^ 64)
    (hkeeps : KeepsAliases modules b.torder b.topModule) :
  ∃ c, (∃ k, ∀ fuel ≥ k, b.build fuel = some (.ok c))
    ∧ ∀ inputs, inputs.length = top.inputs.length → ∀ d > modules.length,
      evaluateCircuit c inputs
        = .ok (top.function (readModule modules b.torder) d b.topModule inputs)
  := by
  obtain ⟨c, hbuild, _⟩ := hdesign.exists_buildRecursively_eq hkeeps hread hnets
    hwires (Nat.lt_succ_self _) (List.length_replicate (a := false))
  refine ⟨c, ?_, ?_⟩
  · obtain ⟨k, hk⟩ := hdesign.acyclic.exists_buildTopModule_eq b.torder b.topModule
    use k
    intro fuel hfuel
    rw [build, hmodules, Hierarchy.after_ok, hk fuel hfuel, hbuild]
  · intro inputs hinputs d hd
    obtain ⟨c', hbuild', heval⟩ :=
      hdesign.exists_buildRecursively_eq hkeeps hread hnets hwires hd hinputs
    rw [hbuild, Outcome.ok.injEq] at hbuild'
    rw [hbuild']
    apply heval

open Builder Netlist in
/-- The circuit that is built from the full adder computes its function. -/
theorem Builder.build_computes_adder :
  ∃ c, (∃ k, ∀ fuel ≥ k, adder.build fuel = some (.ok c))
    ∧ ∀ inputs, inputs.length = 3 → ∀ d > 2, evaluateCircuit c inputs
      = .ok (adderTop.function (readModule adderModules adder.torder) d adder.topModule inputs)
  := by
  apply Builder.build_computes adder rfl design_adder rfl (.inr _) wireCount_adder
    keepsAliases_adder
  apply List.cons_ne_nil

open Builder Netlist in
/-- The netlist of two nested modules that hand on their input is a design, but the output of the
circuit that is built from it is not driven. -/
theorem Builder.build_relay :
  relay.modules = .ok relayModules ∧ Design relayModules relay.torder relay.topModule
    ∧ readModule relayModules relay.torder relay.topModule = some relayTop
    ∧ relay.build 6 = some (.ok ⟨[.zero 0, .one 1], [], [2], [3], [], 10⟩)
    ∧ evaluateCircuit ⟨[.zero 0, .one 1], [], [2], [3], [], 10⟩ [true] = .ok [false]
    ∧ ∀ d > 2, relayTop.function (readModule relayModules relay.torder) d relay.topModule [true]
      = [true]
  := by
  refine ⟨rfl, design_relay, rfl, rfl, rfl, ?_⟩
  intro d hd
  obtain ⟨n, rfl⟩ := Nat.exists_eq_add_of_le' hd
  rfl

end SynCirc

import SynCirc.Builder.Cells

/-!
# The recursive expansion of a netlist

If no module instantiates itself, directly or indirectly, then the loop over the modules ends, and
the circuit it builds is that of the recursive expansion of the top module: every gate cell of a
module contributes its gate, and every instance cell the whole expansion of its module, in the
order of the cells, with the wire number offset and the translation table of the instance.
-/

namespace SynCirc

open Zig

namespace Builder

variable (modules : List (List UInt8 × Json)) (torder : List (List UInt8 × List (List UInt8)))

/-- The module `m` has a cell whose type is the module `m'`. -/
def Instantiates (m m' : List UInt8) : Prop :=
  (∃ cell, HasCell modules m cell m') ∧ gateType m' = none ∧ (modules.lookup m').isSome

/-- No module instantiates itself, directly or indirectly. -/
def Acyclic : Prop := ∀ m, ¬ Relation.TransGen (Instantiates modules) m m

/-- The gates of the top module and all instances below it, and the state after them. -/
def expandTopModule (topModuleName : List UInt8) : Outcome Error (List Node × State) :=
  (hierarchy modules torder).expand (modules.length + 1)
    (topModuleInstantiation topModuleName) initialState

/-- The circuit of the recursive expansion of the top module. -/
def buildRecursively (topModuleName : List UInt8) : Outcome Error Circuit := do
  let inputs ← buildInputs modules topModuleName
  let (nodes, s) ← expandTopModule modules torder topModuleName
  finish modules topModuleName inputs (constantGates ++ nodes) s

variable {modules torder}

theorem mem_of_lookup_isSome {m : List UInt8} (h : (modules.lookup m).isSome) :
  m ∈ modules.map Prod.fst
  := by
  obtain ⟨node, hnode⟩ := Option.isSome_iff_exists.mp h
  apply List.mem_map_of_mem (Json.mem_of_lookup hnode)

/-- The modules of an acyclic netlist are ranked, with ranks up to their number. -/
theorem Acyclic.exists_rank (h : Acyclic modules) :
  ∃ rank : List UInt8 → Nat, (∀ m m', Instantiates modules m m' → rank m' < rank m)
    ∧ ∀ m, rank m ≤ modules.length
  := by
  have hnames : ∀ m m', Instantiates modules m m' → m' ∈ modules.map Prod.fst :=
    fun _ _ hm => mem_of_lookup_isSome hm.2.2
  obtain ⟨rank, hrank, hle⟩ := Hierarchy.exists_rank hnames h
  rw [List.length_map] at hle
  exact ⟨rank, hrank, hle⟩

/-- A cell of an instance that is built to an instance. -/
theorem visit_instance {torder : List (List UInt8 × List (List UInt8))} {i j : ModuleInstantiation}
    {cs : List (Json × List UInt8)} (hcs : cellOrder modules torder i = .ok cs)
    {c : Json × List UInt8} (hc : c ∈ cs) {s s' : State}
    (h : buildCell modules i c s = .ok (s', .inr j)) :
  ∃ cells cell cellType t t', c.1 = .object cells ∧ cells.lookup c.2 = some (.object cell)
    ∧ HasCell modules i.moduleName cell cellType ∧ Instantiates modules i.moduleName cellType
    ∧ connect modules i.wireNumberOffset s.nextFreeWireNumber (s.tables.cell i.connections) cell
      cellType = .ok (t, t')
    ∧ s' = { s with tables := (s.tables.set i.connections t).push t' }
    ∧ j = ⟨cellType, s.nextFreeWireNumber, s.tables.len⟩
  := by
  obtain ⟨cells, cell, cellType, hcells, hcell, htype, hbuilt⟩ := buildCell_eq_ok h
  have hhas := hasCell_of_mem hcs hc hcells hcell htype
  rcases hbuilt with ⟨_, _, _, hr, _⟩ | ⟨j', hgate, hmodule, hj', hinst⟩
  · cases hr
  · cases hj'
    obtain ⟨t, t', hconnect, hs', hj⟩ := instantiate_eq_ok hinst
    exact ⟨cells, cell, cellType, t, t', hcells, hcell, hhas, ⟨⟨cell, hhas⟩, hgate, hmodule⟩,
      hconnect, hs', hj⟩

/-- If the modules are ranked, so are their instances. -/
theorem ranked_hierarchy (torder : List (List UInt8 × List (List UInt8))) {rank : List UInt8 → Nat}
    (hrank : ∀ m m', Instantiates modules m m' → rank m' < rank m) :
  (hierarchy modules torder).Ranked (fun i => rank i.moduleName)
  := by
  intro i cs hcs c hc s s' j hvisit
  obtain ⟨_, _, _, _, _, _, _, _, hinst, _, _, rfl⟩ := visit_instance hcs hc hvisit
  apply hrank _ _ hinst

/-- The loop over the modules of an acyclic netlist ends, and it builds the recursive expansion of
the top module. -/
theorem Acyclic.exists_buildTopModule_eq (h : Acyclic modules)
    (torder : List (List UInt8 × List (List UInt8))) (topModuleName : List UInt8) :
  ∃ k, ∀ fuel ≥ k, buildTopModule modules torder fuel topModuleName
    = some (buildRecursively modules torder topModuleName)
  := by
  obtain ⟨rank, hrank, hle⟩ := h.exists_rank
  obtain ⟨k, hk⟩ := (ranked_hierarchy torder hrank).exists_loop_eq
    (Nat.lt_succ_of_le (hle (topModuleInstantiation topModuleName).moduleName))
    initialState constantGates
  use k
  intro fuel hfuel
  rw [buildTopModule, initialProgress, hk fuel hfuel, buildRecursively, expandTopModule]
  rcases buildInputs modules topModuleName with inputs | e | t
  · rw [Hierarchy.after_ok, Outcome.ok_bind, Option.map_some, bind_assoc]
    rfl
  · rfl
  · rfl

/-! ### Checking that a netlist is acyclic -/

/-- The types of the cells of the module `m`. -/
def cellTypes (modules : List (List UInt8 × Json)) (m : List UInt8) : List (List UInt8) :=
  match modules.lookup m with
  | some (.object node) =>
      match node.lookup (bytes "cells") with
      | some (.object cells) => cells.filterMap (fun entry =>
          (entry.2.object?.bind (·.lookup (bytes "type"))).bind Json.string?)
      | _ => []
  | _ => []

theorem HasCell.mem_cellTypes {m cellType : List UInt8} {cell : List (List UInt8 × Json)}
    (h : HasCell modules m cell cellType) :
  cellType ∈ cellTypes modules m
  := by
  obtain ⟨cells, name, ⟨node, hnode, hcells⟩, hcell, htype⟩ := h
  simp only [cellTypes, hnode, hcells]
  apply List.mem_filterMap.mpr
  refine ⟨(name, .object cell), Json.mem_of_lookup hcell, ?_⟩
  simp only [Json.object?, Option.bind_some, htype, Json.string?]

/-- A netlist is acyclic if the modules its modules instantiate have a smaller rank. -/
theorem acyclic_of_rank (rank : List UInt8 → Nat)
    (h : ∀ entry ∈ modules, ∀ m ∈ cellTypes modules entry.1, gateType m = none →
      (modules.lookup m).isSome → rank m < rank entry.1) :
  Acyclic modules
  := by
  have hrank : ∀ m m', Relation.TransGen (Instantiates modules) m m' → rank m' < rank m := by
    intro m m' hm
    induction hm with
    | single hinst =>
        obtain ⟨⟨cell, hcell⟩, hgate, hmodule⟩ := hinst
        obtain ⟨_, _, ⟨node, hnode, _⟩, _⟩ := id hcell
        apply h _ (Json.mem_of_lookup hnode) _ hcell.mem_cellTypes hgate hmodule
    | tail _ hinst ih =>
        obtain ⟨⟨cell, hcell⟩, hgate, hmodule⟩ := hinst
        obtain ⟨_, _, ⟨node, hnode, _⟩, _⟩ := id hcell
        apply lt_trans (h _ (Json.mem_of_lookup hnode) _ hcell.mem_cellTypes hgate hmodule) ih
  intro m hm
  apply Nat.lt_irrefl _ (hrank m m hm)

/-! ### A full adder -/

/-- A port with the given labels. -/
def portNode (direction : String) (labels : List Nat) : Json :=
  .object [(bytes "direction", .string (bytes direction)),
    (bytes "bits", .array (labels.map (fun l => .integer l)))]

/-- A cell with the given connections. -/
def cellNode (cellType : String) (connections : List (String × List Nat)) : Json :=
  .object [(bytes "type", .string (bytes cellType)),
    (bytes "connections", .object (connections.map (fun c =>
      (bytes c.1, .array (c.2.map (fun l => .integer l))))))]

/-- A module with the given ports and cells. -/
def moduleNode (ports cells : List (String × Json)) : Json :=
  .object [(bytes "ports", .object (ports.map (fun p => (bytes p.1, p.2)))),
    (bytes "cells", .object (cells.map (fun c => (bytes c.1, c.2))))]

/-- A half adder, and a full adder with two instances of it. -/
def adderModules : List (List UInt8 × Json) :=
  [(bytes "half", moduleNode
      [("a", portNode "input" [2]), ("b", portNode "input" [3]), ("s", portNode "output" [4]),
        ("c", portNode "output" [5])]
      [("x", cellNode "$_XOR_" [("A", [2]), ("B", [3]), ("Y", [4])]),
        ("y", cellNode "$_AND_" [("A", [2]), ("B", [3]), ("Y", [5])])]),
    (bytes "full", moduleNode
      [("a", portNode "input" [2]), ("b", portNode "input" [3]), ("c", portNode "input" [4]),
        ("s", portNode "output" [5]), ("carry", portNode "output" [6])]
      [("first", cellNode "half" [("a", [2]), ("b", [3]), ("s", [7]), ("c", [8])]),
        ("second", cellNode "half" [("a", [7]), ("b", [4]), ("s", [5]), ("c", [9])]),
        ("z", cellNode "$_XOR_" [("A", [8]), ("B", [9]), ("Y", [6])])])]

/-- The netlist of the full adder. -/
def adder : Builder where
  root := .object [(bytes "modules", .object adderModules)]
  torder := [(bytes "half", [bytes "x", bytes "y"]),
    (bytes "full", [bytes "first", bytes "second", bytes "z"])]
  topModule := bytes "full"

theorem acyclic_adderModules :
  Acyclic adderModules
  := by
  apply acyclic_of_rank (fun m => if m = bytes "full" then 1 else 0)
  decide +kernel

end Builder

/-- The recursive expansion of a netlist. -/
def Builder.expansion (b : Builder) : Outcome Builder.Error Circuit := do
  let modules ← b.modules
  Builder.buildRecursively modules b.torder b.topModule

/-- The gates of a circuit that is built are the constants and then those of the recursive
expansion of the top module. -/
theorem Builder.expansion_nodes {b : Builder} {c : Circuit} (h : b.expansion = .ok c) :
  ∃ modules nodes s, b.modules = .ok modules
    ∧ expandTopModule modules b.torder b.topModule = .ok (nodes, s)
    ∧ c.nodes = .zero 0 :: .one 1 :: nodes
  := by
  obtain ⟨modules, hmodules, h⟩ := Outcome.bind_eq_ok.mp h
  obtain ⟨inputs, _, h⟩ := Outcome.bind_eq_ok.mp h
  obtain ⟨⟨nodes, s⟩, hexpand, h⟩ := Outcome.bind_eq_ok.mp h
  obtain ⟨outputs, _, h⟩ := Outcome.bind_eq_ok.mp h
  obtain ⟨last, _, h⟩ := Outcome.bind_eq_ok.mp h
  obtain rfl := Outcome.ok.inj h
  exact ⟨modules, nodes, s, hmodules, hexpand, rfl⟩

/-- If no module of a netlist instantiates itself, directly or indirectly, the build ends as its
recursive expansion does: with a circuit, whose gates are the constants and then those of the
expansion of the top module, with an error, or at a safety check. -/
theorem Builder.build_eq_expansion (b : Builder)
    (hacyclic : ∀ modules, b.modules = .ok modules → Builder.Acyclic modules) :
  (∃ k, ∀ fuel ≥ k, b.build fuel = some b.expansion)
    ∧ ∀ c, b.expansion = .ok c → ∃ modules nodes s, b.modules = .ok modules
      ∧ Builder.expandTopModule modules b.torder b.topModule = .ok (nodes, s)
      ∧ c.nodes = .zero 0 :: .one 1 :: nodes
  := by
  refine ⟨?_, fun c => expansion_nodes⟩
  rcases hmodules : b.modules with modules | e | t
  · obtain ⟨k, hk⟩ := (hacyclic modules hmodules).exists_buildTopModule_eq b.torder b.topModule
    use k
    intro fuel hfuel
    rw [build, expansion, hmodules, Hierarchy.after_ok, hk fuel hfuel]
    rfl
  · use 0
    intro fuel _
    rw [build, expansion, hmodules]
    rfl
  · use 0
    intro fuel _
    rw [build, expansion, hmodules]
    rfl

/-- The full adder is built as its recursive expansion, which has five gates besides the
constants. -/
theorem Builder.build_eq_expansion_adder :
  (∃ k, ∀ fuel ≥ k, Builder.adder.build fuel = some Builder.adder.expansion)
    ∧ Builder.adder.expansion = .ok
      ⟨[.zero 0, .one 1, .xor 2 3 7, .and 2 3 8, .xor 7 4 5, .and 7 4 9, .xor 8 9 6], [],
        [2, 3, 4], [5, 6], [], 21⟩
  := by
  constructor
  · apply (Builder.build_eq_expansion Builder.adder _).1
    intro modules hmodules
    obtain rfl := Outcome.ok.inj hmodules
    apply Builder.acyclic_adderModules
  · rfl

/-- A module with the label `2 ^ 63 - 1` and an instance of it in a module with the same label. -/
def Builder.wideModules : List (List UInt8 × Json) :=
  [(bytes "leaf", moduleNode [("a", portNode "input" [2 ^ 63 - 1])] []),
    (bytes "top", moduleNode [("a", portNode "input" [2 ^ 63 - 1])]
      [("i", cellNode "leaf" [("a", [2 ^ 63 - 1])])])]

/-- The netlist with these modules. -/
def Builder.wide : Builder where
  root := .object [(bytes "modules", .object wideModules)]
  torder := [(bytes "leaf", []), (bytes "top", [bytes "i"])]
  topModule := bytes "top"

/-- The wires of the two instances cannot be numbered in 64 bits, so no gates are built. -/
theorem Builder.not_build_eq_expansion :
  Builder.wide.modules = .ok Builder.wideModules ∧ Builder.Acyclic Builder.wideModules
    ∧ ∀ fuel ≥ 3, Builder.wide.build fuel = some (.panic .integerOverflow)
  := by
  have hacyclic : Builder.Acyclic Builder.wideModules := by
    apply Builder.acyclic_of_rank (fun m => if m = bytes "top" then 1 else 0)
    decide +kernel
  refine ⟨rfl, hacyclic, ?_⟩
  intro fuel hfuel
  obtain ⟨n, rfl⟩ := Nat.exists_eq_add_of_le' hfuel
  rfl

end SynCirc

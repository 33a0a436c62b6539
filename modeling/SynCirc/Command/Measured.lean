import SynCirc.Command.Stats
import SynCirc.Command.Preservation
import SynCirc.Linearize.Depth

/-!
# Conversions keep the statistics

In a circuit without constants the pass that renumbers the wires adds two inverters for every copied
output, and an output has no copy afterwards.  It keeps the depths of the outputs.  Reading a text
gives gates with the same lines.  So `stats` prints for all texts that conversions make of a circuit
what it prints for the circuit itself, or two inverters more for every copied output
(`Command.stats_converted`).
-/

namespace SynCirc

open Zig Linearize

/-! ### Gate counts -/

theorem GateTypeCount.add_rename (count : GateTypeCount) (ρ : Nat → Nat) (n : Node) :
  count.add (n.rename ρ) = count.add n
  := by
  cases n <;> rfl

/-- The copies are counted as inverters. -/
theorem GateTypeCount.foldl_add_copies (ρ : Nat → Nat) (copies : List Copy)
    (count : GateTypeCount) :
  (copies.flatMap (Copy.nodes ρ)).foldl add count
    = { count with inv := count.inv + 2 * copies.length }
  := by
  induction copies generalizing count with
  | nil => rfl
  | cons k copies ih =>
      rw [List.flatMap_cons, List.foldl_append, ih]
      simp only [Copy.nodes, List.foldl_cons, List.foldl_nil, add, List.length_cons]
      congr 1
      omega

/-- Gates with the same line are counted in the same way. -/
theorem SameLine.add_eq {c c' : Circuit} {n n' : Node} (h : SameLine c c' n n') :
  (fun count : GateTypeCount => count.add n') = fun count => count.add n
  := by
  rcases h.eq_or_lut with ⟨rfl, -⟩ | ⟨_, _, _, _, _, _, rfl, rfl, -⟩
  · rfl
  · rfl

/-! ### Circuits with the same lines -/

namespace Circuit.SameLines

variable {c c' : Circuit}

theorem countGateTypes_eq (h : SameLines c c') :
  countGateTypes c' = countGateTypes c
  := by
  have hadd := h.map_eq (fun n count => GateTypeCount.add count n)
    (fun n count => GateTypeCount.add count n) fun n n' hn => hn.add_eq
  have hfoldl := congrArg (List.foldl (fun count f => f count) ({} : GateTypeCount)) hadd
  rw [List.foldl_map, List.foldl_map] at hfoldl
  apply hfoldl

theorem copyCount_eq (h : SameLines c c') :
  c'.copyCount = c.copyCount
  := by
  have hcopy : c'.isCopy = c.isCopy := by
    funext p
    rw [isCopy, isCopy, h.inputs, h.outputs]
  rw [copyCount, copyCount, h.outputs, hcopy]

/-- The gates of the circuits have the same edges. -/
theorem edge_eq (h : SameLines c c') :
  c'.Edge = c.Edge
  := by
  have hparts := h.map_eq (fun n => (n.reads c.luts, n.output, n.cost))
    (fun n => (n.reads c'.luts, n.output, n.cost)) (by
      intro n n' hn
      have hcost : n'.cost = n.cost := by
        rcases hn.eq_or_lut with ⟨rfl, -⟩ | ⟨_, _, _, _, _, _, rfl, rfl, -⟩
        · rfl
        · rfl
      rw [hn.wires_eq.1, hn.wires_eq.2, hcost])
  have hedge : ∀ d : Circuit, d.Edge = fun v w k => ∃ p ∈ d.nodes.map
      (fun n => (n.reads d.luts, n.output, n.cost)), v ∈ p.1 ∧ p.2.1 = w ∧ p.2.2 = k := by
    intro d
    funext v w k
    simp only [Edge, List.mem_map, exists_exists_and_eq_and]
  rw [hedge c', hedge c, hparts]

theorem forall_isConstant (h : SameLines c c') (hc : ∀ n ∈ c.nodes, n.isConstant = false) :
  ∀ n ∈ c'.nodes, n.isConstant = false
  := by
  have hconstant := h.map_eq Node.isConstant Node.isConstant fun n n' hn => hn.kind_eq.1
  intro n hn
  have hmem := List.mem_map_of_mem (f := Node.isConstant) hn
  rw [hconstant] at hmem
  obtain ⟨m, hm, heq⟩ := List.mem_map.mp hmem
  rw [← heq]
  apply hc m hm

/-- A circuit without constants has the depths of a circuit with the same edges. -/
theorem pathDepths_eq (h : SameLines c c') (hc : ∀ n ∈ c.nodes, n.isConstant = false) (w : Nat) :
  c'.pathDepths [w] = c.pathDepths [w]
  := by
  have hexpanded : ∀ {d d' : Circuit}, d'.inputs = d.inputs → d'.Edge = d.Edge →
      (∀ n ∈ d.nodes, n.isConstant = false) → ∀ {v k}, d.Expanded v k → d'.Expanded v k := by
    intro d d' hinputs hedge hd v k hv
    induction hv with
    | input hw => apply Expanded.input (hinputs ▸ hw)
    | constant hn hconstant =>
        rw [hd _ hn] at hconstant
        contradiction
    | node _ he ih => apply ih.node (hedge ▸ he)
  have hc' := h.forall_isConstant hc
  ext k
  rw [← expanded_iff_of_no_constants hc', ← expanded_iff_of_no_constants hc]
  constructor
  · apply hexpanded h.inputs.symm h.edge_eq.symm hc'
  · apply hexpanded h.inputs h.edge_eq hc

theorem singleDriver (h : SameLines c c') (hc : c.SingleDriver) :
  c'.SingleDriver
  := by
  have houtput := h.map_eq Node.output Node.output fun n n' hn => hn.wires_eq.2
  constructor
  · rw [houtput]
    apply hc.outputs_nodup
  · intro n hn
    have hmem := List.mem_map_of_mem (f := Node.output) hn
    rw [houtput] at hmem
    obtain ⟨m, hm, heq⟩ := List.mem_map.mp hmem
    rw [h.inputs, ← heq]
    apply hc.inputs_undriven m hm

theorem readWires_eq (h : SameLines c c') :
  c'.readWires = c.readWires
  := by
  have hreads := h.map_eq (Node.reads c.luts) (Node.reads c'.luts) fun n n' hn => hn.wires_eq.1
  rw [readWires, readWires, h.outputs, List.flatMap_def, hreads, ← List.flatMap_def]

end Circuit.SameLines

/-! ### Linearized circuits -/

namespace Layout

variable {c : Circuit} (L : Layout c)

theorem length_copies :
  L.copies.length = c.copyCount
  := by
  have hlength := congrArg List.length L.copies_eq
  rw [List.length_map, List.length_map] at hlength
  rw [hlength, Circuit.copyCount, List.countP_eq_length_filter]

/-- The inverters of the copies are counted besides the gates of the circuit. -/
theorem countGateTypes_circuit (hc : ∀ n ∈ c.nodes, n.isConstant = false) :
  countGateTypes L.circuit
    = { countGateTypes c with inv := (countGateTypes c).inv + 2 * c.copyCount }
  := by
  have hbody : L.body = c.nodes.map (Node.rename L.rename) := by
    rw [body, ← L.gates_nodes, List.map_map, ← List.flatMap_pure_eq_map]
    apply List.flatMap_congr
    intro g hg
    apply gateNodes_of_not_constant c L.rename (hc g.1 (L.mem_nodes hg))
  have hnodes : L.circuit.nodes = L.body ++ L.tail := rfl
  rw [countGateTypes, hnodes, List.foldl_append, tail, GateTypeCount.foldl_add_copies, hbody,
    List.foldl_map, L.length_copies]
  simp only [GateTypeCount.add_rename]
  rfl

/-- A linearized circuit has no copied outputs. -/
theorem copyCount_circuit (hc : c.Renumberable) :
  L.circuit.copyCount = 0
  := by
  rw [Circuit.copyCount, List.countP_eq_zero]
  intro p hp
  rw [L.circuit_isCopy hc hp]
  exact Bool.false_ne_true

/-- A circuit without constants has the depths of its outputs after the pass. -/
theorem pathDepths_circuit (hc : c.Renumberable) (hdriver : c.SingleDriver)
    (hconstants : ∀ n ∈ c.nodes, n.isConstant = false) :
  L.circuit.outputs.map (fun w => L.circuit.pathDepths [w])
    = c.outputs.map (fun w => c.pathDepths [w])
  := by
  have houtputs : L.circuit.outputs = (List.range c.outputs.length).map c.slot := rfl
  rw [houtputs, List.map_map]
  apply List.ext_getElem
  · simp
  · intro i hi hi'
    rw [List.length_map] at hi'
    rw [List.getElem_map, List.getElem_map, List.getElem_range, Function.comp_apply]
    ext k
    rw [← Circuit.expanded_iff_of_no_constants L.no_constants,
      L.expanded_slot_iff hc hdriver (List.getElem?_eq_getElem hi'),
      Circuit.expanded_iff_of_no_constants hconstants]

end Layout

/-! ### Circuits with statistics -/

/-- A portable circuit without constants where every wire has one driver, every wire that is read is
driven, no wire depends on itself, and the depths fit in 32 bits. -/
structure Circuit.Assessable (c : Circuit) : Prop extends c.Portable, c.SingleDriver where
  driven : ∀ w ∈ c.readWires, c.Driven w
  wellFounded : WellFounded c.Before
  noConstants : ∀ n ∈ c.nodes, n.isConstant = false
  depthsFit : c.DepthsFit

namespace Circuit.Assessable

variable {c c' : Circuit}

theorem analyzable (hc : c.Assessable) :
  c.Analyzable
  := ⟨hc.wires, fun _ hn => hc.sliceInRange hn,
    fun w hw => hc.toSingleDriver.count_drivers hc.inputs_nodup (hc.driven w hw),
    acyclic_of_wellFounded hc.wellFounded⟩

theorem sameLines (hc : c.Assessable) (h : SameLines c c') (hportable : c'.Portable) :
  c'.Assessable
  := by
  refine ⟨hportable, h.singleDriver hc.toSingleDriver, ?_, ?_, h.forall_isConstant hc.noConstants,
    ?_⟩
  · intro w hw
    rw [h.readWires_eq] at hw
    apply h.driven (hc.driven w hw)
  · have hbefore : c'.Before = c.Before := by
      funext v w
      rw [Before, Before, h.edge_eq]
    rw [hbefore]
    apply hc.wellFounded
  · intro w ns hpath
    have hmem : pathDepth ns ∈ c'.pathDepths [w] := ⟨w, List.mem_singleton_self w, ns, hpath, rfl⟩
    rw [h.pathDepths_eq hc.noConstants] at hmem
    obtain ⟨v, -, ns', hpath', heq⟩ := hmem
    rw [← heq]
    apply hc.depthsFit v ns' hpath'

end Circuit.Assessable

/-- The linearized circuit of a circuit with statistics. -/
theorem Layout.circuit_assessable {c : Circuit} (L : Layout c) (hc : c.Assessable)
    (hportable : L.circuit.Portable) :
  L.circuit.Assessable
  := by
  have hrenumberable := hc.renumberable
  refine ⟨hportable, L.circuit_singleDriver hrenumberable hc.toSingleDriver,
    fun w hw => L.circuit_driven hrenumberable hc.driven hw,
    L.circuit_wellFounded hrenumberable hc.toSingleDriver hc.wellFounded, L.no_constants,
    L.circuit_depthsFit hrenumberable hc.toSingleDriver hc.depthsFit ?_⟩
  intro w k hk
  obtain ⟨v, -, ns, hpath, rfl⟩ := (Circuit.expanded_iff_of_no_constants hc.noConstants).mp
    (Circuit.expanded_iff.mpr (.inr hk))
  apply hc.depthsFit v ns hpath

namespace Command

open SynCirc.Command.Convert

variable {c : Circuit}

/-- The counts, with two inverters for every copied output at most, and the depths of the outputs
are the given ones. -/
structure Measured (count : GateTypeCount) (copies : Nat) (depths : List (Set Nat)) (c : Circuit) :
    Prop where
  assessable : c.Assessable
  depths_eq : c.outputs.map (fun w => c.pathDepths [w]) = depths
  counts : (countGateTypes c = count ∧ c.copyCount = copies)
    ∨ (countGateTypes c = { count with inv := count.inv + 2 * copies } ∧ c.copyCount = 0)

section

variable {count : GateTypeCount} {copies : Nat} {depths : List (Set Nat)}

/-- Reading a text keeps the statistics. -/
theorem Measured.sameLines (h : Measured count copies depths c) {c' : Circuit}
    (hsame : Circuit.SameLines c c') (hportable : c'.Portable) :
  Measured count copies depths c'
  := by
  refine ⟨h.assessable.sameLines hsame hportable, ?_, ?_⟩
  · rw [← h.depths_eq, hsame.outputs]
    apply List.map_congr_left
    intro w hw
    apply hsame.pathDepths_eq h.assessable.noConstants
  · rw [hsame.countGateTypes_eq, hsame.copyCount_eq]
    apply h.counts

/-- Linearizing keeps the statistics. -/
theorem Measured.circuit (h : Measured count copies depths c) (L : Layout c)
    (hportable : L.circuit.Portable) :
  Measured count copies depths L.circuit
  := by
  have hrenumberable := h.assessable.renumberable
  have hnone := h.assessable.noConstants
  refine ⟨L.circuit_assessable h.assessable hportable, ?_, .inr ?_⟩
  · rw [L.pathDepths_circuit hrenumberable h.assessable.toSingleDriver hnone, h.depths_eq]
  · rw [L.countGateTypes_circuit hnone]
    refine ⟨?_, L.copyCount_circuit hrenumberable⟩
    rcases h.counts with ⟨hcount, hcopies⟩ | ⟨hcount, hcopies⟩
    · rw [hcount, hcopies]
    · rw [hcount, hcopies]
      rfl

/-- The statistics survive conversions. -/
theorem survives_measured :
  Survives (Measured count copies depths)
  where
    sameLines _ h hsame hc' _ := h.sameLines hsame hc'
    linearized L _ h _ hportable := h.circuit L hportable

end

/-! ### The printed statistics -/

/-- Sets of depths have one depth. -/
theorem rightUnique_isDepth :
  Relator.RightUnique IsDepth
  := by
  intro depths d d' h h'
  rcases h with h | ⟨rfl, rfl⟩
  · rcases h' with h' | ⟨rfl, -⟩
    · apply h.unique h'
    · cases h.1
  · rcases h' with h' | ⟨-, rfl⟩
    · cases h'.1
    · rfl

/-- What `stats` prints with enough fuel. -/
theorem exists_stats {fs : FileSystem} {path : List UInt8} {input : Input}
    {count : GateTypeCount} {copies : Nat} {depths : List (Set Nat)}
    (hinput : readInput fs path = .ok input) (h : Measured count copies depths input.circuit) :
  ∃ outputDepth limit, List.Forall₂ IsDepth depths outputDepth ∧ ∀ fuel ≥ limit, ∀ memory,
    Stats.run memory fuel [path] fs = Stats.report (countGateTypes input.circuit) outputDepth
  := by
  have hanalyzable := h.assessable.analyzable
  obtain ⟨limit, hlimit⟩ := DepthAnalysis.exists_analyzeDepth hanalyzable
    h.assessable.counted h.assessable.depthsFit
  have hdepths : ∀ {fuel memory result}, analyzeDepth input.circuit memory fuel = .ok result →
      List.Forall₂ IsDepth depths result.outputDepth := by
    intro fuel memory result hresult
    rw [← h.depths_eq, List.forall₂_map_left_iff]
    apply (DepthAnalysis.isDepth_of_analyzeDepth hanalyzable hresult).1
  obtain ⟨result, hresult⟩ := hlimit limit (Nat.le_refl limit) (fun _ => 0)
  refine ⟨result.outputDepth, limit, hdepths hresult, ?_⟩
  intro fuel hfuel memory
  obtain ⟨result', hresult'⟩ := hlimit fuel hfuel memory
  have heq :=
    List.right_unique_forall₂' rightUnique_isDepth (hdepths hresult') (hdepths hresult)
  simp only [Stats.run, hinput, Outcome.ok_bind, hresult', ← heq]
  rfl

/-- After any conversions in the directory of a circuit, `stats` prints for every text of the
circuit whose lines fit in the buffer of the parser the counts and depths of the circuit itself, or
these with two inverters more for every copied output.  Conversions may fail if the circuit is
convertible, otherwise they succeed. -/
theorem stats_converted {fs fs' : FileSystem} {path : List UInt8} {input : Input}
    (hinput : readInput fs path = .ok input) (hassessable : input.circuit.Assessable)
    (honly : IsOnlyText fs path input)
    (hconverts : Relation.ReflTransGen (Converts input.circuit.Convertible) fs fs')
    {path' text : List UInt8} {format : InputFormat}
    (hpath : fs'.handle (workingDir path') = some input.dir)
    (hname : basename path' = format.fileName (rootOf path input))
    (htext : fs'.dir input.dir (basename path') = some text) (hlines : LinesFit format text) :
  ∃ outputDepth count limit,
    List.Forall₂ (fun w d => IsDepth (input.circuit.pathDepths [w]) d) input.circuit.outputs
      outputDepth
    ∧ (count = countGateTypes input.circuit
      ∨ count = { countGateTypes input.circuit with
          inv := (countGateTypes input.circuit).inv + 2 * input.circuit.copyCount })
    ∧ ∀ fuel ≥ limit, ∀ memory,
      Stats.run memory fuel [path] fs = Stats.report (countGateTypes input.circuit) outputDepth
      ∧ Stats.run memory fuel [path'] fs' = Stats.report count outputDepth
  := by
  have hmeasured : Measured (countGateTypes input.circuit) input.circuit.copyCount
      (input.circuit.outputs.map (fun w => input.circuit.pathDepths [w])) input.circuit :=
    ⟨hassessable, rfl, .inl ⟨rfl, rfl⟩⟩
  obtain ⟨c, hread, -, hc⟩ := exists_readInput_converted survives_measured hinput
    hassessable.toPortable hmeasured honly hconverts hpath hname htext hlines
  obtain ⟨outputDepth, limit, hdepths, hstats⟩ := exists_stats hinput hmeasured
  obtain ⟨outputDepth', limit', hdepths', hstats'⟩ := exists_stats hread hc
  obtain rfl := List.right_unique_forall₂' rightUnique_isDepth hdepths hdepths'
  rw [List.forall₂_map_left_iff] at hdepths
  refine ⟨outputDepth, countGateTypes c, max limit limit', hdepths,
    hc.counts.imp And.left And.left, ?_⟩
  intro fuel hfuel memory
  rw [ge_iff_le, Nat.max_le] at hfuel
  exact ⟨hstats fuel hfuel.1 memory, hstats' fuel hfuel.2 memory⟩

theorem andCircuit_assessable :
  andCircuit.Assessable
  := by
  have hpath : ∀ w ns, andCircuit.Path w ns →
      (w ∈ andCircuit.inputs ∧ ns = []) ∨ (w = 2 ∧ ns = [.and 0 1 2]) := by
    intro w ns h
    induction h with
    | input hw => exact .inl ⟨hw, rfl⟩
    | node _ hn hw ih =>
        obtain rfl := List.mem_singleton.mp hn
        rcases ih with ⟨-, rfl⟩ | ⟨rfl, -⟩
        · exact .inr ⟨rfl, rfl⟩
        · apply absurd hw (by decide)
  have hfeeds : ∀ i j, andCircuit.Feeds i j → i < j := by
    rintro i j ⟨m, n, hm, hn, hreads⟩
    obtain rfl := List.mem_singleton.mp (List.mem_of_getElem? hm)
    obtain rfl := List.mem_singleton.mp (List.mem_of_getElem? hn)
    apply absurd hreads (by decide)
  refine ⟨andCircuit_portable, ⟨by decide, by decide⟩, ?_,
    Circuit.wellFounded_before (Circuit.acyclic_of_feeds hfeeds), by decide, ?_⟩
  · simp only [Circuit.Driven]
    decide
  · intro w ns h
    rcases hpath w ns h with ⟨-, rfl⟩ | ⟨-, rfl⟩ <;> decide

theorem stats_converted_andFiles :
  ∃ fs', Relation.ReflTransGen (Converts andCircuit.Convertible) andFiles fs'
    ∧ ∃ limit, ∀ fuel ≥ limit, ∀ memory,
      Stats.run memory fuel [bytes "and.bristol"] fs'
        = Stats.run memory fuel [bytes "and.syncirc"] andFiles
  := by
  have hpath : andFiles₂.handle (workingDir (bytes "and.bristol")) = some 0 := by decide
  have hname : basename (bytes "and.bristol") = bytes "and.bristol" := by decide
  have hroot : rootOf (bytes "and.syncirc") ⟨0, .syncirc, andCircuit⟩ = bytes "and" := by
    decide
  have hfile : basename (bytes "and.bristol") = InputFormat.bristol.fileName
      (rootOf (bytes "and.syncirc") ⟨0, .syncirc, andCircuit⟩) := by
    rw [hname, hroot]
    decide
  have htext : andFiles₂.dir 0 (basename (bytes "and.bristol")) = some andBristol := by
    rw [hname, andFiles₂, FileSystem.dir_writeFile_self]
  use andFiles₂, .single (converts_andFiles _)
  obtain ⟨outputDepth, count, limit, -, hcount, hstats⟩ := stats_converted readInput_andFiles
    andCircuit_assessable isOnlyText_andFiles (.single (converts_andFiles _)) hpath hfile htext
    linesFit_andBristol
  have heq : count = countGateTypes andCircuit := by
    rcases hcount with rfl | rfl
    · rfl
    · have hcopies : andCircuit.copyCount = 0 := by decide
      rw [hcopies]
      rfl
  use limit
  intro fuel hfuel memory
  obtain ⟨hstats₀, hstats₁⟩ := hstats fuel hfuel memory
  rw [hstats₀, hstats₁, heq]

end Command

end SynCirc

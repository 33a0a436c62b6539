import SynCirc.Linearize.Wiring
import SynCirc.DepthAnalysis.Depth
import Mathlib.Algebra.Ring.Nat
import Mathlib.Order.Lattice.Nat

/-!
# The pass and the multiplicative depth

The pass makes a constant a gate over the first input, and the gate of a zero is an AND gate.  So
paths that begin at a constant of the circuit count in the linearized circuit, and a zero counts as
an AND gate there.  The other gates of the linearized circuit are renamed gates and inverters, and
have the depth of the gates and outputs they stand for.  The depth of an output is then the larger
one of its depth in the circuit and the largest depth of the paths from constants (`run_depth`).
-/

namespace SynCirc

open Zig Linearize

/-- What a gate adds to the depth of the linearized circuit, where a zero is an AND gate. -/
def Node.cost : Node → Nat
  | .zero _ => 1
  | n => if DepthAnalysis.isMultiplicative n then 1 else 0

namespace Circuit

variable (c : Circuit)

/-- The gates of a path from a constant to a wire, with the constant. -/
inductive ConstantPath : Nat → List Node → Prop where
  | constant {n : Node} (hn : n ∈ c.nodes) (hconstant : n.isConstant = true) :
      ConstantPath n.output [n]
  | node {w : Nat} {ns : List Node} {n : Node} (hpath : ConstantPath w ns) (hn : n ∈ c.nodes)
      (hw : w ∈ n.reads c.luts) : ConstantPath n.output (ns ++ [n])

/-- The depths of the paths from constants to a wire, where a zero counts as an AND gate. -/
def constantDepths (w : Nat) : Set Nat :=
  {k | ∃ ns, c.ConstantPath w ns ∧ (ns.map Node.cost).sum = k}

/-- A gate that reads the wire `v`, drives the wire `w` and adds `d` to the depth. -/
def Edge (v w d : Nat) : Prop := ∃ n ∈ c.nodes, v ∈ n.reads c.luts ∧ n.output = w ∧ n.cost = d

/-- The depths of the paths from the inputs and from the constants to a wire. -/
inductive Expanded : Nat → Nat → Prop where
  | input {w : Nat} (hw : w ∈ c.inputs) : Expanded w 0
  | constant {n : Node} (hn : n ∈ c.nodes) (hconstant : n.isConstant = true) :
      Expanded n.output n.cost
  | node {v w k d : Nat} (h : Expanded v k) (hedge : c.Edge v w d) : Expanded w (k + d)

variable {c}

/-! ### Paths from inputs and from constants -/

theorem not_isConstant_of_reads {luts : List Nat} {n : Node} {w : Nat} (hw : w ∈ n.reads luts) :
  n.isConstant = false
  := by
  cases n with
  | zero output => contradiction
  | one output => contradiction
  | _ => rfl

theorem cost_of_not_isConstant {n : Node} (hn : n.isConstant = false) :
  n.cost = if DepthAnalysis.isMultiplicative n then 1 else 0
  := by
  cases n with
  | zero output => contradiction
  | _ => rfl

theorem pathDepth_snoc {n : Node} (hn : n.isConstant = false) (ns : List Node) :
  pathDepth (ns ++ [n]) = pathDepth ns + n.cost
  := by
  rw [pathDepth, pathDepth, List.countP_append, List.countP_singleton, cost_of_not_isConstant hn]

/-- A path begins at an input or at a constant. -/
theorem expanded_iff {w k : Nat} :
  c.Expanded w k ↔ k ∈ c.pathDepths [w] ∪ c.constantDepths w
  := by
  simp only [pathDepths, constantDepths, Set.mem_union, Set.mem_ofPred_eq, List.mem_singleton,
    exists_eq_left]
  constructor
  · intro h
    induction h with
    | input hw => exact .inl ⟨[], .input hw, rfl⟩
    | constant hn hconstant => exact .inr ⟨_, .constant hn hconstant, List.sum_singleton⟩
    | node _ hedge ih =>
        obtain ⟨n, hn, hw, rfl, rfl⟩ := hedge
        rcases ih with ⟨ns, hpath, rfl⟩ | ⟨ns, hpath, rfl⟩
        · exact .inl ⟨_, hpath.node hn hw, pathDepth_snoc (not_isConstant_of_reads hw) ns⟩
        · exact .inr ⟨_, hpath.node hn hw, by simp⟩
  · rintro (⟨ns, hpath, rfl⟩ | ⟨ns, hpath, rfl⟩)
    · induction hpath with
      | input hw => apply Expanded.input hw
      | node _ hn hw ih =>
          rw [pathDepth_snoc (not_isConstant_of_reads hw)]
          apply ih.node ⟨_, hn, hw, rfl, rfl⟩
    · induction hpath with
      | constant hn hconstant =>
          rw [List.map_singleton, List.sum_singleton]
          apply Expanded.constant hn hconstant
      | node _ hn hw ih =>
          rw [List.map_append, List.sum_append, List.map_singleton, List.sum_singleton]
          apply ih.node ⟨_, hn, hw, rfl, rfl⟩

/-- In a circuit without constants all paths begin at an input. -/
theorem expanded_iff_of_no_constants (hc : ∀ n ∈ c.nodes, n.isConstant = false) {w k : Nat} :
  c.Expanded w k ↔ k ∈ c.pathDepths [w]
  := by
  rw [expanded_iff, Set.mem_union, or_iff_left]
  rintro ⟨ns, hpath, -⟩
  induction hpath with
  | constant hn hconstant => simp [hc _ hn] at hconstant
  | node _ _ _ ih => apply ih

/-- The only path to an input is the empty one. -/
theorem Expanded.eq_zero_of_input (hc : c.SingleDriver) {w k : Nat} (h : c.Expanded w k)
    (hw : w ∈ c.inputs) :
  k = 0
  := by
  cases h with
  | input => rfl
  | constant hn => apply absurd hw (hc.inputs_undriven _ hn)
  | node _ hedge =>
      obtain ⟨n, hn, -, rfl, -⟩ := hedge
      apply absurd hw (hc.inputs_undriven n hn)

/-- A wire that is driven by an inverter has the depths of the wire it reads. -/
theorem expanded_of_edge_iff (hc : ∀ n ∈ c.nodes, n.isConstant = false) {u w : Nat}
    (hw : w ∉ c.inputs) (hedge : ∀ v d, c.Edge v w d ↔ v = u ∧ d = 0) {k : Nat} :
  c.Expanded w k ↔ c.Expanded u k
  := by
  constructor
  · intro h
    cases h with
    | input hinput => contradiction
    | constant hn hconstant => simp [hc _ hn] at hconstant
    | node h he =>
        obtain ⟨rfl, rfl⟩ := (hedge _ _).mp he
        apply h
  · intro h
    apply h.node ((hedge u 0).mpr ⟨rfl, rfl⟩)

/-! ### Wires before other wires -/

/-- A gate reads the wire `v` and drives the wire `w`. -/
def Before (c : Circuit) (v w : Nat) : Prop := ∃ d, c.Edge v w d

theorem Edge.source_mem {v w d : Nat} (h : c.Edge v w d) :
  v ∈ c.mentioned
  := by
  obtain ⟨n, hn, hv, -⟩ := h
  apply mem_mentioned_of_node hn (List.mem_append_left _ hv)

theorem Edge.target_mem {v w d : Nat} (h : c.Edge v w d) :
  w ∈ c.mentioned
  := by
  obtain ⟨n, hn, -, rfl, -⟩ := h
  apply mem_mentioned_of_node hn (List.mem_append_right _ List.mem_cons_self)

/-- If no gate depends on itself, every wire is computed from finitely many others. -/
theorem wellFounded_before (hacyclic : ∀ j, ¬ Relation.TransGen c.Feeds j j) :
  WellFounded c.Before
  := by
  have hreads : ∀ (j : Nat) (n : Node), c.nodes[j]? = some n →
      ∀ v ∈ n.reads c.luts, Acc c.Before v := by
    intro j
    induction j using (wellFounded_feeds hacyclic).induction with
    | h j ih =>
        intro n hn v hv
        constructor
        rintro u ⟨d, m, hm, hu, rfl, -⟩
        obtain ⟨i, hi⟩ := List.mem_iff_getElem?.mp hm
        apply ih i ⟨m, n, hi, hn, hv⟩ m hi u hu
  constructor
  intro w
  constructor
  rintro v ⟨d, n, hn, hv, -⟩
  obtain ⟨j, hj⟩ := List.mem_iff_getElem?.mp hn
  apply hreads j n hj v hv

/-- If every wire is computed from finitely many others, no gate depends on itself. -/
theorem acyclic_of_wellFounded (hwf : WellFounded c.Before) (j : Nat) :
  ¬ Relation.TransGen c.Feeds j j
  := by
  have hbefore : ∀ i j, Relation.TransGen c.Feeds i j → ∃ m n, c.nodes[i]? = some m
      ∧ c.nodes[j]? = some n ∧ Relation.TransGen c.Before m.output n.output := by
    intro i j h
    induction h with
    | single h =>
        obtain ⟨m, n, hm, hn, hreads⟩ := h
        exact ⟨m, n, hm, hn, .single ⟨_, n, List.mem_of_getElem? hn, hreads, rfl, rfl⟩⟩
    | tail _ h ih =>
        obtain ⟨m, n, hm, hn, hbefore⟩ := ih
        obtain ⟨n', p, hn', hp, hreads⟩ := h
        obtain rfl := Option.some.inj (hn.symm.trans hn')
        exact ⟨m, p, hm, hp, hbefore.tail ⟨_, p, List.mem_of_getElem? hp, hreads, rfl, rfl⟩⟩
  intro hj
  obtain ⟨m, n, hm, hn, hmn⟩ := hbefore j j hj
  obtain rfl := Option.some.inj (hm.symm.trans hn)
  apply hwf.transGen.irrefl.irrefl _ hmn

/-- A wire that is driven, where every wire has one driver. -/
theorem SingleDriver.count_drivers (hc : c.SingleDriver) (hinputs : c.inputs.Nodup) {w : Nat}
    (hw : c.Driven w) :
  c.drivers.count w = 1
  := by
  apply List.count_eq_one_of_mem
  · rw [drivers, List.nodup_append]
    refine ⟨hinputs, hc.outputs_nodup, ?_⟩
    intro v hv u hu
    obtain ⟨n, hn, rfl⟩ := List.mem_map.mp hu
    rintro rfl
    apply hc.inputs_undriven n hn hv
  · rw [drivers, List.mem_append]
    apply hw

/-- What a gate reads in topological order is known or is the output of a gate before. -/
theorem exists_of_readFrom {luts known : List Nat} {ns : List Node}
    (h : Node.ReadFrom luts known ns) {j : Nat} {n : Node} (hn : ns[j]? = some n) {w : Nat}
    (hw : w ∈ n.reads luts) :
  w ∈ known ∨ ∃ i m, i < j ∧ ns[i]? = some m ∧ m.output = w
  := by
  induction ns generalizing known j with
  | nil => contradiction
  | cons n' ns ih =>
      cases j with
      | zero =>
          obtain rfl := Option.some.inj hn
          exact .inl (h.1 w hw)
      | succ j =>
          rcases ih h.2 hn with hknown | ⟨i, m, hi, hm, houtput⟩
          · rcases List.mem_cons.mp hknown with rfl | hknown
            · exact .inr ⟨0, n', Nat.succ_pos j, rfl, rfl⟩
            · exact .inl hknown
          · exact .inr ⟨i + 1, m, Nat.succ_lt_succ hi, hm, houtput⟩

/-- Where every wire has one driver and the gates are in topological order, gates read only from
gates before them. -/
theorem Wired.feeds_lt (hc : c.Wired) {i j : Nat} (h : c.Feeds i j) :
  i < j
  := by
  obtain ⟨m, n, hm, hn, hreads⟩ := h
  rcases exists_of_readFrom hc.topological hn hreads with hinput | ⟨i', m', hi', hm', houtput⟩
  · apply absurd hinput (hc.inputs_undriven m (List.mem_of_getElem? hm))
  · have hi : i < (c.nodes.map Node.output).length := by
      rw [List.length_map]
      apply (List.getElem?_eq_some_iff.mp hm).1
    have hsame : (c.nodes.map Node.output)[i]? = (c.nodes.map Node.output)[i']? := by
      rw [List.getElem?_map, List.getElem?_map, hm, hm', Option.map_some, Option.map_some, houtput]
    rw [(List.getElem?_inj hi hc.outputs_nodup).mp hsame]
    apply hi'

theorem Wired.readWires_driven (hc : c.Wired) {w : Nat} (hw : w ∈ c.readWires) :
  c.Driven w
  := by
  rcases List.mem_append.mp hw with hw | hw
  · obtain ⟨n, hn, hw⟩ := List.mem_flatMap.mp hw
    obtain ⟨j, hj⟩ := List.mem_iff_getElem?.mp hn
    rcases exists_of_readFrom hc.topological hj hw with hinput | ⟨i, m, -, hm, rfl⟩
    · exact .inl hinput
    · exact .inr (List.mem_map_of_mem (List.mem_of_getElem? hm))
  · apply hc.outputs_driven w hw

end Circuit

/-! ### The gates of the linearized circuit -/

namespace Layout

variable {c : Circuit} (L : Layout c)

/-- The first input, from which constants are computed. -/
def first (c : Circuit) : Nat := c.inputs.headD 0

/-- What the gates of the linearized circuit read and drive, and what they add to the depth. -/
inductive Edge : Nat → Nat → Nat → Prop where
  | gate {v w d : Nat} (hedge : c.Edge v w d) : Edge (L.rename v) (L.rename w) d
  | inverter {g : Node × Nat} (hg : g ∈ L.gates) (hconstant : g.1.isConstant = true) :
      Edge (L.rename (first c)) g.2 0
  | constant {v : Nat} {g : Node × Nat} (hg : g ∈ L.gates) (hconstant : g.1.isConstant = true)
      (hv : v = L.rename (first c) ∨ v = g.2) : Edge v (L.rename g.1.output) g.1.cost
  | copyIn {k : Copy} (hk : k ∈ L.copies) : Edge (L.rename k.source) k.tmp 0
  | copyOut {k : Copy} (hk : k ∈ L.copies) : Edge k.tmp k.slot 0

theorem cost_rename {ρ : Nat → Nat} {n : Node} :
  (n.rename ρ).cost = n.cost
  := by
  cases n <;> rfl

theorem mem_body {g : Node × Nat} (hg : g ∈ L.gates) {n : Node}
    (hn : n ∈ gateNodes c L.rename g) :
  n ∈ L.circuit.nodes
  := List.mem_append_left _ (List.mem_flatMap.mpr ⟨g, hg, hn⟩)

theorem mem_tail {k : Copy} (hk : k ∈ L.copies) {n : Node} (hn : n ∈ k.nodes L.rename) :
  n ∈ L.circuit.nodes
  := List.mem_append_right _ (List.mem_flatMap.mpr ⟨k, hk, hn⟩)

/-- The two gates that stand for a constant, and what the second one adds to the depth. -/
theorem gateNodes_cost {g : Node × Nat} (hconstant : g.1.isConstant = true) :
  ∃ op, IsTwoInput op
    ∧ (op (L.rename (first c)) g.2 (L.rename g.1.output)).cost = g.1.cost
    ∧ gateNodes c L.rename g
      = [.inv (L.rename (first c)) g.2, op (L.rename (first c)) g.2 (L.rename g.1.output)]
  := by
  obtain ⟨op, hop, heq⟩ := gateNodes_of_constant c L.rename hconstant
  refine ⟨op, hop, ?_, heq⟩
  obtain ⟨n, tmp⟩ := g
  cases n with
  | zero output =>
      rw [first, ← (List.cons.inj (List.cons.inj heq).2).1]
      rfl
  | one output =>
      rw [first, ← (List.cons.inj (List.cons.inj heq).2).1]
      rfl
  | _ => contradiction

/-- The edges of the linearized circuit. -/
theorem circuit_edge_iff {v w d : Nat} :
  L.circuit.Edge v w d ↔ L.Edge v w d
  := by
  constructor
  · rintro ⟨n, hn, hv, rfl, rfl⟩
    rcases List.mem_append.mp hn with hn | hn
    · obtain ⟨g, hg, hn⟩ := List.mem_flatMap.mp hn
      cases hconstant : g.1.isConstant with
      | false =>
          rw [gateNodes_of_not_constant c L.rename hconstant, List.mem_singleton] at hn
          rw [hn] at hv ⊢
          have hreads := L.reads_rename g.1 (L.mem_nodes hg)
          obtain ⟨u, hu, rfl⟩ := List.mem_map.mp (hreads ▸ hv)
          rw [Node.output_rename, cost_rename]
          apply Edge.gate ⟨g.1, L.mem_nodes hg, hu, rfl, rfl⟩
      | true =>
          obtain ⟨op, hop, hcost, heq⟩ := L.gateNodes_cost hconstant
          rw [heq, List.mem_cons, List.mem_singleton] at hn
          rcases hn with rfl | rfl
          · obtain rfl := List.mem_singleton.mp hv
            apply Edge.inverter hg hconstant
          · rw [hop.output, hcost]
            rw [hop.reads, List.mem_cons, List.mem_singleton] at hv
            apply Edge.constant hg hconstant hv
    · obtain ⟨k, hk, hn⟩ := List.mem_flatMap.mp hn
      rw [Copy.nodes, List.mem_cons, List.mem_singleton] at hn
      rcases hn with rfl | rfl
      · obtain rfl := List.mem_singleton.mp hv
        apply Edge.copyIn hk
      · obtain rfl := List.mem_singleton.mp hv
        apply Edge.copyOut hk
  · intro h
    cases h with
    | gate hedge =>
        obtain ⟨n, hn, hv, rfl, rfl⟩ := hedge
        have hmem : n.rename L.rename ∈ L.circuit.nodes := by
          rw [← L.gates_nodes] at hn
          obtain ⟨g, hg, rfl⟩ := List.mem_map.mp hn
          apply L.mem_body hg
          rw [gateNodes_of_not_constant c L.rename (Circuit.not_isConstant_of_reads hv)]
          apply List.mem_singleton_self
        refine ⟨_, hmem, ?_, Node.output_rename L.rename n, cost_rename⟩
        apply (L.reads_rename n hn).symm ▸ List.mem_map_of_mem hv
    | @inverter g hg hconstant =>
        obtain ⟨op, -, -, heq⟩ := L.gateNodes_cost hconstant
        refine ⟨.inv _ g.2, L.mem_body hg ?_, List.mem_singleton_self _, rfl, rfl⟩
        rw [heq]
        apply List.mem_cons_self
    | @constant v g hg hconstant hv =>
        obtain ⟨op, hop, hcost, heq⟩ := L.gateNodes_cost hconstant
        refine ⟨_, L.mem_body hg ?_, ?_, hop.output .., hcost⟩
        · rw [heq]
          apply List.mem_cons_of_mem _ (List.mem_singleton_self _)
        · rw [hop.reads, List.mem_cons, List.mem_singleton]
          apply hv
    | copyIn hk =>
        exact ⟨_, L.mem_tail hk List.mem_cons_self, List.mem_singleton_self _, rfl, rfl⟩
    | copyOut hk =>
        exact ⟨_, L.mem_tail hk (List.mem_cons_of_mem _ (List.mem_singleton_self _)),
          List.mem_singleton_self _, rfl, rfl⟩

/-! ### The edges to a wire -/

theorem first_mem (hc : c.Renumberable) :
  first c ∈ c.inputs
  := headD_mem_mentioned hc

theorem output_mem {g : Node × Nat} (hg : g ∈ L.gates) :
  g.1.output ∈ c.mentioned
  := output_mem_mentioned (List.mem_map_of_mem (L.mem_nodes hg))

/-- The temporary wires of the constants and of the copies are different. -/
theorem constant_tmp_ne {g : Node × Nat} (hg : g ∈ L.gates) (hconstant : g.1.isConstant = true)
    {k : Copy} (hk : k ∈ L.copies) :
  g.2 ≠ k.tmp
  := by
  apply (List.nodup_append.mp L.temps_nodup).2.2
  · apply List.mem_map_of_mem (List.mem_filter.mpr ⟨hg, hconstant⟩)
  · apply List.mem_map_of_mem hk

theorem tmp_ne_copy_slot {t : Nat} (ht : t ∈ constantTemps L.gates ++ L.copies.map Copy.tmp)
    {k : Copy} (hk : k ∈ L.copies) :
  t ≠ k.slot
  := by
  obtain ⟨i, -, -, hslot⟩ := L.exists_of_copy hk
  rw [hslot]
  apply L.tmp_ne_slot ht

/-- The new number of a wire is driven by the renamed gate, or by the gate of a constant. -/
theorem edge_rename (hc : c.Renumberable) {v w d : Nat} (hw : w ∈ c.mentioned)
    (h : L.circuit.Edge v (L.rename w) d) :
  (∃ u, v = L.rename u ∧ c.Edge u w d)
    ∨ ∃ g ∈ L.gates, g.1.isConstant = true ∧ g.1.output = w ∧ g.1.cost = d
      ∧ (v = L.rename (first c) ∨ v = g.2)
  := by
  rw [circuit_edge_iff] at h
  generalize heq : L.rename w = w' at h
  cases h with
  | gate hedge =>
      obtain rfl := L.rename_injOn hw hedge.target_mem heq
      exact .inl ⟨_, rfl, hedge⟩
  | inverter hg hconstant =>
      apply absurd heq (L.temps_fresh _ (L.constant_tmp_mem hg hconstant) w hw)
  | @constant _ g hg hconstant hv =>
      obtain rfl := L.rename_injOn hw (L.output_mem hg) heq
      exact .inr ⟨g, hg, hconstant, rfl, rfl, hv⟩
  | copyIn hk => apply absurd heq (L.temps_fresh _ (L.copy_tmp_mem hk) w hw)
  | copyOut hk => apply absurd heq (L.rename_ne_copy_slot hc hk hw)

/-- The temporary wire of a constant is driven by its inverter. -/
theorem edge_constant_tmp_iff {g : Node × Nat} (hg : g ∈ L.gates)
    (hconstant : g.1.isConstant = true) {v d : Nat} :
  L.circuit.Edge v g.2 d ↔ v = L.rename (first c) ∧ d = 0
  := by
  have hmem := L.constant_tmp_mem hg hconstant
  rw [circuit_edge_iff]
  constructor
  · intro h
    generalize heq : g.2 = w at h
    cases h with
    | gate hedge => apply absurd heq.symm (L.temps_fresh _ hmem _ hedge.target_mem)
    | inverter => exact ⟨rfl, rfl⟩
    | constant hg' => apply absurd heq.symm (L.temps_fresh _ hmem _ (L.output_mem hg'))
    | copyIn hk => apply absurd heq (L.constant_tmp_ne hg hconstant hk)
    | copyOut hk => apply absurd heq (L.tmp_ne_copy_slot hmem hk)
  · rintro ⟨rfl, rfl⟩
    apply Edge.inverter hg hconstant

/-- The temporary wire of a copy is driven by an inverter of its source. -/
theorem edge_copy_tmp_iff {k : Copy} (hk : k ∈ L.copies) {v d : Nat} :
  L.circuit.Edge v k.tmp d ↔ v = L.rename k.source ∧ d = 0
  := by
  have hmem := L.copy_tmp_mem hk
  rw [circuit_edge_iff]
  constructor
  · intro h
    generalize heq : k.tmp = w at h
    cases h with
    | gate hedge => apply absurd heq.symm (L.temps_fresh _ hmem _ hedge.target_mem)
    | inverter hg hconstant => apply absurd heq.symm (L.constant_tmp_ne hg hconstant hk)
    | constant hg => apply absurd heq.symm (L.temps_fresh _ hmem _ (L.output_mem hg))
    | copyIn hk' =>
        have hnodup := (List.nodup_append.mp L.temps_nodup).2.1
        obtain rfl := List.inj_on_of_nodup_map hnodup hk hk' heq
        exact ⟨rfl, rfl⟩
    | copyOut hk' => apply absurd heq (L.tmp_ne_copy_slot hmem hk')
  · rintro ⟨rfl, rfl⟩
    apply Edge.copyIn hk

/-- The slot of a copy is driven by an inverter of its temporary wire. -/
theorem edge_copy_slot_iff (hc : c.Renumberable) {k : Copy} (hk : k ∈ L.copies) {v d : Nat} :
  L.circuit.Edge v k.slot d ↔ v = k.tmp ∧ d = 0
  := by
  rw [circuit_edge_iff]
  constructor
  · intro h
    generalize heq : k.slot = w at h
    cases h with
    | gate hedge => apply absurd heq.symm (L.rename_ne_copy_slot hc hk hedge.target_mem)
    | inverter hg hconstant =>
        apply absurd heq.symm (L.tmp_ne_copy_slot (L.constant_tmp_mem hg hconstant) hk)
    | constant hg => apply absurd heq.symm (L.rename_ne_copy_slot hc hk (L.output_mem hg))
    | copyIn hk' => apply absurd heq.symm (L.tmp_ne_copy_slot (L.copy_tmp_mem hk') hk)
    | copyOut hk' =>
        obtain rfl := List.inj_on_of_nodup_map L.copies_slot_nodup hk hk' heq
        exact ⟨rfl, rfl⟩
  · rintro ⟨rfl, rfl⟩
    apply Edge.copyOut hk

/-! ### The depths of the linearized circuit -/

theorem no_constants :
  ∀ n ∈ L.circuit.nodes, n.isConstant = false
  := fun _ hn => (L.mem_circuit_nodes hn).1

theorem tmp_not_input {t : Nat} (ht : t ∈ constantTemps L.gates ++ L.copies.map Copy.tmp) :
  t ∉ L.circuit.inputs
  := by
  intro hmem
  have hlt : t < c.inputs.length := List.mem_range.mp hmem
  have hle := (L.temps_inner t ht).1
  omega

theorem copy_slot_not_input (hc : c.Renumberable) {k : Copy} (hk : k ∈ L.copies) :
  k.slot ∉ L.circuit.inputs
  := by
  intro hmem
  rw [circuit, ← L.rename_inputs] at hmem
  obtain ⟨w, hw, heq⟩ := List.mem_map.mp hmem
  apply L.rename_ne_copy_slot hc hk (Circuit.mem_mentioned_of_input hw) heq

theorem rename_input_mem {w : Nat} (hw : w ∈ c.inputs) :
  L.rename w ∈ L.circuit.inputs
  := List.mem_range.mpr (L.rename_lt_of_input hw)

variable (hc : c.Renumberable) (hdriver : c.SingleDriver)
include hc hdriver

/-- What a constant is computed from has depth 0. -/
theorem eq_zero_of_expanded {v k : Nat} {g : Node × Nat} (hg : g ∈ L.gates)
    (hconstant : g.1.isConstant = true) (hv : v = L.rename (first c) ∨ v = g.2)
    (h : L.circuit.Expanded v k) :
  k = 0
  := by
  have hfirst : ∀ k, L.circuit.Expanded (L.rename (first c)) k → k = 0 := by
    intro k hk
    apply hk.eq_zero_of_input (L.circuit_singleDriver hc hdriver)
    apply L.rename_input_mem (first_mem hc)
  rcases hv with rfl | rfl
  · apply hfirst k h
  · apply hfirst
    rw [← Circuit.expanded_of_edge_iff L.no_constants
      (L.tmp_not_input (L.constant_tmp_mem hg hconstant))
      (fun _ _ => L.edge_constant_tmp_iff hg hconstant)]
    apply h

/-- The new number of a wire has the depths of the wire. -/
theorem expanded_rename_iff {w k : Nat} (hw : w ∈ c.mentioned) :
  L.circuit.Expanded (L.rename w) k ↔ c.Expanded w k
  := by
  constructor
  · intro h
    generalize heq : L.rename w = w' at h
    induction h generalizing w with
    | input hinput =>
        subst heq
        apply Circuit.Expanded.input (L.mem_inputs_of_rename_lt hw (List.mem_range.mp hinput))
    | constant hn hconstant => simp [L.no_constants _ hn] at hconstant
    | node h hedge ih =>
        subst heq
        rcases L.edge_rename hc hw hedge with ⟨u, rfl, hold⟩
          | ⟨g, hg, hconstant, rfl, rfl, hv⟩
        · apply (ih hold.source_mem rfl).node hold
        · rw [L.eq_zero_of_expanded hc hdriver hg hconstant hv h, Nat.zero_add]
          apply Circuit.Expanded.constant (L.mem_nodes hg) hconstant
  · intro h
    induction h with
    | input hinput => apply Circuit.Expanded.input (L.rename_input_mem hinput)
    | constant hn hconstant =>
        rw [← L.gates_nodes] at hn
        obtain ⟨g, hg, rfl⟩ := List.mem_map.mp hn
        have hfirst := Circuit.Expanded.input (L.rename_input_mem (first_mem hc))
        have hedge := L.circuit_edge_iff.mpr (Edge.constant hg hconstant (.inl rfl))
        have hnode := hfirst.node hedge
        rw [Nat.zero_add] at hnode
        apply hnode
    | node _ hedge ih => apply (ih hedge.source_mem).node (L.circuit_edge_iff.mpr (.gate hedge))

/-- The slot of an output has the depths of the output. -/
theorem expanded_slot_iff {i w k : Nat} (hw : c.outputs[i]? = some w) :
  L.circuit.Expanded (c.slot i) k ↔ c.Expanded w k
  := by
  have hmem := Circuit.mem_mentioned_of_output (List.mem_of_getElem? hw)
  cases hcopy : c.isCopy (w, i) with
  | false => rw [← L.rename_of_not_copy hw hcopy, L.expanded_rename_iff hc hdriver hmem]
  | true =>
      obtain ⟨k, hk, rfl, hslot⟩ := L.exists_copy hw hcopy
      rw [← hslot, Circuit.expanded_of_edge_iff L.no_constants (L.copy_slot_not_input hc hk)
          (fun _ _ => L.edge_copy_slot_iff hc hk),
        Circuit.expanded_of_edge_iff L.no_constants (L.tmp_not_input (L.copy_tmp_mem hk))
          (fun _ _ => L.edge_copy_tmp_iff hk),
        L.expanded_rename_iff hc hdriver hmem]

/-- The depths of the linearized circuit are depths of the circuit. -/
theorem exists_of_expanded {w k : Nat} (h : L.circuit.Expanded w k) :
  k = 0 ∨ ∃ v, c.Expanded v k
  := by
  cases h with
  | input => exact .inl rfl
  | constant hn hconstant => simp [L.no_constants _ hn] at hconstant
  | node h hedge =>
      have hnode := h.node hedge
      cases L.circuit_edge_iff.mp hedge with
      | gate hedge => exact .inr ⟨_, (L.expanded_rename_iff hc hdriver hedge.target_mem).mp hnode⟩
      | inverter hg hconstant =>
          exact .inl (L.eq_zero_of_expanded hc hdriver hg hconstant (.inr rfl) hnode)
      | constant hg =>
          exact .inr ⟨_, (L.expanded_rename_iff hc hdriver (L.output_mem hg)).mp hnode⟩
      | copyIn hk =>
          have hmem := Circuit.mem_mentioned_of_output (L.copy_source_mem hk)
          exact .inr ⟨_, (L.expanded_rename_iff hc hdriver hmem).mp h⟩
      | copyOut hk =>
          obtain ⟨i, hi, -, hslot⟩ := L.exists_of_copy hk
          rw [hslot] at hnode
          exact .inr ⟨_, (L.expanded_slot_iff hc hdriver hi).mp hnode⟩

/-! ### The linearized circuit can be analyzed -/

/-- Every wire of the linearized circuit is computed from finitely many others. -/
theorem circuit_wellFounded (hwf : WellFounded c.Before) :
  WellFounded L.circuit.Before
  := by
  have hfirst : Acc L.circuit.Before (L.rename (first c)) := by
    constructor
    rintro v ⟨d, n, hn, -, houtput, -⟩
    have hundriven := (L.circuit_singleDriver hc hdriver).inputs_undriven n hn
    rw [houtput] at hundriven
    apply absurd (L.rename_input_mem (first_mem hc)) hundriven
  have hconstant : ∀ {g v}, g ∈ L.gates → g.1.isConstant = true →
      v = L.rename (first c) ∨ v = g.2 → Acc L.circuit.Before v := by
    rintro g v hg hconstant (rfl | rfl)
    · apply hfirst
    · constructor
      rintro v ⟨d, hedge⟩
      obtain ⟨rfl, -⟩ := (L.edge_constant_tmp_iff hg hconstant).mp hedge
      apply hfirst
  have hrename : ∀ w ∈ c.mentioned, Acc L.circuit.Before (L.rename w) := by
    intro w
    induction w using hwf.induction with
    | h w ih =>
        intro hw
        constructor
        rintro v ⟨d, hedge⟩
        rcases L.edge_rename hc hw hedge with ⟨u, rfl, hold⟩ | ⟨g, hg, hg', -, -, hv⟩
        · apply ih u ⟨d, hold⟩ hold.source_mem
        · apply hconstant hg hg' hv
  have hsource : ∀ k ∈ L.copies, Acc L.circuit.Before (L.rename k.source) :=
    fun k hk => hrename _ (Circuit.mem_mentioned_of_output (L.copy_source_mem hk))
  constructor
  intro w
  constructor
  rintro v ⟨d, hedge⟩
  cases L.circuit_edge_iff.mp hedge with
  | gate hedge => apply hrename _ hedge.source_mem
  | inverter => apply hfirst
  | constant hg hg' hv => apply hconstant hg hg' hv
  | copyIn hk => apply hsource _ hk
  | copyOut hk =>
      constructor
      rintro v ⟨d, hedge⟩
      obtain ⟨rfl, -⟩ := (L.edge_copy_tmp_iff hk).mp hedge
      apply hsource _ hk

omit hdriver in
/-- Every wire that is read in the linearized circuit is driven. -/
theorem circuit_driven (hdriven : ∀ w ∈ c.readWires, c.Driven w) {w : Nat}
    (hw : w ∈ L.circuit.readWires) :
  L.circuit.Driven w
  := by
  have hrename : ∀ v, c.Driven v → L.circuit.Driven (L.rename v) := by
    intro v hv
    rcases List.mem_append.mp (L.rename_driven hv) with hv | hv
    · right
      rw [circuit, List.map_append]
      apply List.mem_append_left _ hv
    · left
      apply hv
  have htmp : ∀ t ∈ constantTemps L.gates ++ L.copies.map Copy.tmp, L.circuit.Driven t :=
    fun t ht => .inr (L.mem_outputs_iff.mpr (.inl ht))
  have hfirst := hrename (first c) (.inl (first_mem hc))
  have houtput : ∀ v ∈ c.outputs, c.Driven v :=
    fun v hv => hdriven v (List.mem_append_right _ hv)
  rcases List.mem_append.mp hw with hw | hw
  · obtain ⟨n, hn, hw⟩ := List.mem_flatMap.mp hw
    obtain ⟨v, d, hedge⟩ : ∃ v d, L.circuit.Edge w v d := ⟨_, _, n, hn, hw, rfl, rfl⟩
    cases L.circuit_edge_iff.mp hedge with
    | gate hedge =>
        obtain ⟨m, hm, hv, -⟩ := hedge
        apply hrename _ (hdriven _ (List.mem_append_left _ (List.mem_flatMap.mpr ⟨m, hm, hv⟩)))
    | inverter => apply hfirst
    | constant hg hconstant hv =>
        rcases hv with rfl | rfl
        · apply hfirst
        · apply htmp _ (L.constant_tmp_mem hg hconstant)
    | copyIn hk => apply hrename _ (houtput _ (L.copy_source_mem hk))
    | copyOut hk => apply htmp _ (L.copy_tmp_mem hk)
  · right
    apply L.output_driven houtput hw

theorem circuit_analyzable (hslices : ∀ n ∈ c.nodes, n.SliceInRange c.luts)
    (hdriven : ∀ w ∈ c.readWires, c.Driven w)
    (hacyclic : ∀ j, ¬ Relation.TransGen c.Feeds j j) :
  L.circuit.Analyzable
  := by
  constructor
  · intro w hw
    apply L.mentioned_le hc hw
  · intro n hn
    apply L.circuit_sliceInRange hslices hn
  · intro w hw
    apply (L.circuit_singleDriver hc hdriver).count_drivers List.nodup_range
    apply L.circuit_driven hc hdriven hw
  · apply Circuit.acyclic_of_wellFounded
    apply L.circuit_wellFounded hc hdriver (Circuit.wellFounded_before hacyclic)

end Layout

/-! ### The depths of the outputs -/

/-- The depth over two sets of paths. -/
theorem IsDepth.union {depths depths' : Set Nat} {d d' : Nat} (hd : IsDepth depths d)
    (hd' : IsDepth (depths ∪ depths') d') :
  ∃ e, IsDepth depths' e ∧ d' = max d e
  := by
  rcases depths'.eq_empty_or_nonempty with rfl | hne
  · refine ⟨0, .inr ⟨rfl, rfl⟩, ?_⟩
    rw [Set.union_empty] at hd'
    rcases hd with hd | ⟨hempty, rfl⟩
    · rcases hd' with hd' | ⟨hempty, -⟩
      · rw [hd'.unique hd, Nat.max_zero]
      · rw [hempty] at hd
        cases hd.1
    · rcases hd' with hd' | ⟨-, rfl⟩
      · rw [hempty] at hd'
        cases hd'.1
      · rfl
  · rcases hd' with hd' | ⟨hempty, -⟩
    · have hbound : BddAbove depths' := ⟨d', fun k hk => hd'.2 (.inr hk)⟩
      have hgreatest : IsGreatest depths' (sSup depths') :=
        ⟨Nat.sSup_mem hne hbound, fun k hk => le_csSup hbound hk⟩
      refine ⟨_, .inl hgreatest, ?_⟩
      rcases hd with hd | ⟨rfl, rfl⟩
      · apply hd'.unique (hd.union hgreatest)
      · rw [Set.empty_union] at hd'
        rw [hd'.unique hgreatest, Nat.zero_max]
    · rw [Set.union_empty_iff] at hempty
      apply absurd hempty.2 hne.ne_empty

namespace Layout

variable {c : Circuit} (L : Layout c) (hc : c.Renumberable) (hdriver : c.SingleDriver)
include hc hdriver

/-- The depth of the slot of an output. -/
theorem isDepth_slot {i w d d' : Nat} (hw : c.outputs[i]? = some w)
    (hd : IsDepth (c.pathDepths [w]) d) (hd' : IsDepth (L.circuit.pathDepths [c.slot i]) d') :
  ∃ e, IsDepth (c.constantDepths w) e ∧ d' = max d e
  := by
  apply hd.union
  have hdepths : L.circuit.pathDepths [c.slot i] = c.pathDepths [w] ∪ c.constantDepths w := by
    ext k
    rw [← Circuit.expanded_iff, ← L.expanded_slot_iff hc hdriver hw,
      Circuit.expanded_iff_of_no_constants L.no_constants]
  rw [← hdepths]
  apply hd'

theorem circuit_depthsFit (hfit : c.DepthsFit)
    (hconstants : ∀ w, ∀ k ∈ c.constantDepths w, k < 2 ^ 32 - 1) :
  L.circuit.DepthsFit
  := by
  intro w ns hpath
  have hexpanded := (Circuit.expanded_iff_of_no_constants L.no_constants).mpr
    ⟨w, List.mem_singleton_self w, ns, hpath, rfl⟩
  rcases L.exists_of_expanded hc hdriver hexpanded with hzero | ⟨v, hv⟩
  · rw [hzero]
    decide
  · rcases Circuit.expanded_iff.mp hv with ⟨v, -, ns', hpath', heq⟩ | hconstant
    · rw [← heq]
      apply hfit v ns' hpath'
    · apply hconstants v _ hconstant

end Layout

/-- The depths of the outputs are `before`, and `after` if the paths from constants count, too. -/
def Circuit.DepthsGrow (c : Circuit) (before after : List Nat) : Prop :=
  ∀ (i w : Nat), c.outputs[i]? = some w → ∃ d e, before[i]? = some d
    ∧ IsDepth (c.constantDepths w) e ∧ after[i]? = some (max d e)

/-- The pass changes the depth of an output only by the paths from constants to it, where a zero
counts as an AND gate.  The analyses of the circuit and of the linearized circuit return where these
depths fit in 32 bits and the wires, with the extra ones, can be counted in 64 bits.  If its budget
fits, the pass stops only at a lookup table whose input wires do not lie inside `luts`. -/
theorem run_depth (memory : Linearize.Memory) {c : Circuit} (hc : c.Renumberable)
    (hfits : c.BudgetFits) (hdriver : c.SingleDriver) (hdriven : ∀ w ∈ c.readWires, c.Driven w)
    (hacyclic : ∀ j, ¬ Relation.TransGen c.Feeds j j) :
  (∃ c', Linearize.run memory c = .ok c'
    ∧ (∀ memory₁ memory₂ fuel₁ fuel₂ depths depths',
      analyzeDepth c memory₁ fuel₁ = .ok depths → analyzeDepth c' memory₂ fuel₂ = .ok depths' →
      c.DepthsGrow depths.outputDepth depths'.outputDepth)
    ∧ (c.wireBudget + 1 < 2 ^ 64 → c.DepthsFit →
      (∀ w, ∀ k ∈ c.constantDepths w, k < 2 ^ 32 - 1) →
      ∃ limit, ∀ fuel ≥ limit, ∀ memory, (∃ depths, analyzeDepth c memory fuel = .ok depths)
        ∧ ∃ depths', analyzeDepth c' memory fuel = .ok depths'))
  ∨ (Linearize.run memory c = .panic .indexOutOfBounds
    ∧ ∃ n ∈ c.nodes, ¬ n.SliceInRange c.luts)
  := by
  rcases Linearize.run_spec memory hc hfits with ⟨L, heq, -, hslices⟩ | hslice
  · left
    have hanalyzable : c.Analyzable :=
      ⟨hc.wires, hslices,
        fun w hw => hdriver.count_drivers hc.inputs_nodup (hdriven w hw), hacyclic⟩
    have hcircuit := L.circuit_analyzable hc hdriver hslices hdriven hacyclic
    refine ⟨L.circuit, heq, ?_, ?_⟩
    · intro memory₁ memory₂ fuel₁ fuel₂ depths depths' h h' i w hw
      have hdepths := (DepthAnalysis.isDepth_of_analyzeDepth hanalyzable h).1
      have hdepths' := (DepthAnalysis.isDepth_of_analyzeDepth hcircuit h').1
      have hslot : L.circuit.outputs[i]? = some (c.slot i) := by
        have hi := (List.getElem?_eq_some_iff.mp hw).1
        rw [Layout.circuit, List.getElem?_map, List.getElem?_range hi]
        rfl
      obtain ⟨d, hd, hisDepth⟩ := getElem?_of_forall₂ hdepths hw
      obtain ⟨d', hd', hisDepth'⟩ := getElem?_of_forall₂ hdepths' hslot
      obtain ⟨e, he, rfl⟩ := L.isDepth_slot hc hdriver hw hisDepth hisDepth'
      exact ⟨d, e, hd, he, hd'⟩
    · intro hbudget hfit hconstants
      obtain ⟨limit₁, h₁⟩ := DepthAnalysis.exists_analyzeDepth hanalyzable hfits.table hfit
      obtain ⟨limit₂, h₂⟩ := DepthAnalysis.exists_analyzeDepth hcircuit hbudget
        (L.circuit_depthsFit hc hdriver hfit hconstants)
      use max limit₁ limit₂
      intro fuel hfuel memory
      use h₁ fuel ((le_max_left _ _).trans hfuel) memory
      apply h₂ fuel ((le_max_right _ _).trans hfuel) memory
  · right
    apply hslice

/-- A circuit whose output is a zero. -/
def Circuit.zeroOutput : Circuit where
  nodes := [.zero 1]
  luts := []
  inputs := [0]
  outputs := [1]
  lutTables := []
  maxWireNumber := 1

/-- The depth of an output that is a zero grows. -/
theorem run_depth_zeroOutput :
  Circuit.zeroOutput.Renumberable ∧ Circuit.zeroOutput.SingleDriver
    ∧ (∀ w ∈ Circuit.zeroOutput.readWires, Circuit.zeroOutput.Driven w)
    ∧ (∀ j, ¬ Relation.TransGen Circuit.zeroOutput.Feeds j j)
    ∧ ∃ c', Linearize.run (.filled 0) Circuit.zeroOutput = .ok c'
      ∧ analyzeDepth Circuit.zeroOutput (fun _ => 0) 4 = .ok ⟨[0], [0]⟩
      ∧ analyzeDepth c' (fun _ => 0) 4 = .ok ⟨[0, 0], [1]⟩
  := by
  refine ⟨⟨by decide, by decide, by decide⟩, ⟨by decide, by decide⟩, ?_, ?_,
    ⟨[.inv 0 1, .and 0 1 2], [], [0], [2], [], 2⟩, by decide, by decide, by decide⟩
  · intro w hw
    right
    apply hw
  · have hfeeds : ∀ i j, Circuit.zeroOutput.Feeds i j → i < j := by
      rintro i j ⟨m, n, -, hn, hreads⟩
      obtain rfl := List.mem_singleton.mp (List.mem_of_getElem? hn)
      contradiction
    apply Circuit.acyclic_of_feeds hfeeds

/-- The linearized circuit of `Circuit.aliased`. -/
def Circuit.aliasedLinear : Circuit where
  nodes := [.inv 0 2, .and 0 2 10, .and 0 1 8, .lut 0 0 1 3, .inv 0 4, .inv 4 7, .inv 8 5, .inv 5 9]
  luts := [8]
  inputs := [0, 1]
  outputs := [7, 8, 9, 10]
  lutTables := [true, false]
  maxWireNumber := 10

theorem run_depth_aliased :
  Linearize.run (.filled 0) Circuit.aliased = .ok Circuit.aliasedLinear
    ∧ analyzeDepth Circuit.aliased (fun _ => 0) 4 = .ok ⟨[0, 0, 1], [0, 1, 1, 0]⟩
    ∧ analyzeDepth Circuit.aliasedLinear (fun _ => 0) 4
      = .ok ⟨[0, 0, 0, 1, 0, 0, 1, 1], [0, 1, 1, 1]⟩
    ∧ Circuit.aliased.DepthsGrow [0, 1, 1, 0] [0, 1, 1, 1]
  := by
  have hrun : Linearize.run (.filled 0) Circuit.aliased = .ok Circuit.aliasedLinear := by decide
  have hbefore : analyzeDepth Circuit.aliased (fun _ => 0) 4
      = .ok ⟨[0, 0, 1], [0, 1, 1, 0]⟩ := by decide
  have hafter : analyzeDepth Circuit.aliasedLinear (fun _ => 0) 4
      = .ok ⟨[0, 0, 0, 1, 0, 0, 1, 1], [0, 1, 1, 1]⟩ := by decide
  use hrun, hbefore, hafter
  rcases run_depth (.filled 0) Circuit.aliased_admissible.renumberable
      Circuit.aliased_budgetFits Circuit.aliased_wired.toSingleDriver
      (fun _ => Circuit.aliased_wired.readWires_driven)
      (Circuit.acyclic_of_feeds (fun _ _ => Circuit.aliased_wired.feeds_lt))
    with ⟨c', hrun', hgrow, -⟩ | ⟨hpanic, -⟩
  · obtain rfl := Outcome.ok.inj (hrun.symm.trans hrun')
    apply hgrow _ _ _ _ _ _ hbefore hafter
  · rw [hrun] at hpanic
    contradiction

end SynCirc

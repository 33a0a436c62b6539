import SynCirc.DepthAnalysis.Basic
import SynCirc.Zig.Loops
import SynCirc.LongestPath.Basic

/-!
# Multiplicative depth: the graph

In a circuit where every wire that is read has one driver, the map from wires to sources gives the
place of the driver among the inputs and gates (`wireSourceMap_eq`), and the graph has an edge to a
sink for every wire that it reads (`buildForwardGraph_eq`), if the wires can be counted in 64 bits.
-/

namespace SynCirc

open Zig

namespace Circuit

variable (c : Circuit)

/-- The wires that the inputs and the gates drive. -/
def drivers : List Nat := c.inputs ++ c.nodes.map Node.output

/-- The wires that the gates read, and the outputs. -/
def readWires : List Nat := c.nodes.flatMap (Node.reads c.luts) ++ c.outputs

/-- The gate at one position reads the wire of the gate at another one. -/
def Feeds (i j : Nat) : Prop :=
  ∃ m n, c.nodes[i]? = some m ∧ c.nodes[j]? = some n ∧ m.output ∈ n.reads c.luts

/-- The wires are in range, every wire that is read has exactly one driver, which is an input or a
gate, and no gate depends on itself. -/
structure Analyzable : Prop where
  wires : ∀ w ∈ c.mentioned, w ≤ c.maxWireNumber
  slices : ∀ n ∈ c.nodes, n.SliceInRange c.luts
  driven : ∀ w ∈ c.readWires, c.drivers.count w = 1
  acyclic : ∀ j, ¬ Relation.TransGen c.Feeds j j

variable {c}

theorem Analyzable.mem_drivers (hc : c.Analyzable) {w : Nat} (hw : w ∈ c.readWires) :
  w ∈ c.drivers
  := by
  apply List.one_le_count_iff.mp
  apply Nat.le_of_eq (hc.driven w hw).symm

/-- If gates read only from gates before them, in some order, no gate depends on itself. -/
theorem acyclic_of_feeds {r : Nat → Nat → Prop} [IsTrans Nat r] [Std.Irrefl r]
    (h : ∀ i j, c.Feeds i j → r i j) (j : Nat) :
  ¬ Relation.TransGen c.Feeds j j
  := by
  have hbefore : ∀ i j, Relation.TransGen c.Feeds i j → r i j := by
    intro i j hij
    induction hij with
    | single hfeeds => apply h _ _ hfeeds
    | tail _ hfeeds ih => apply IsTrans.trans _ _ _ ih (h _ _ hfeeds)
  intro hj
  apply Std.Irrefl.irrefl j (hbefore j j hj)

/-- No infinite chain of gates reads backwards. -/
theorem wellFounded_feeds (hacyclic : ∀ j, ¬ Relation.TransGen c.Feeds j j) :
  WellFounded c.Feeds
  := by
  apply LongestPath.wellFounded_of_acyclic _ hacyclic
  · apply c.nodes.length
  · rintro i j ⟨m, n, hm, -⟩
    apply (List.getElem?_eq_some_iff.mp hm).1

/-- No infinite chain of gates reads forwards. -/
theorem Analyzable.wellFounded_fed (hc : c.Analyzable) :
  WellFounded (fun j i => c.Feeds i j)
  := by
  apply LongestPath.wellFounded_of_acyclic
  · rintro j i ⟨m, n, -, hn, -⟩
    apply (List.getElem?_eq_some_iff.mp hn).1
  · intro j hj
    apply hc.acyclic j (Relation.transGen_swap.mp hj)

end Circuit

namespace DepthAnalysis

variable (c : Circuit)

/-- The place of the driver of a wire among the inputs and the gates. -/
def source (w : Nat) : Nat := c.drivers.idxOf w

/-- The wires that are read, each with the sink that reads it. -/
def connections : List (Nat × Nat) :=
  c.nodes.zipIdx.flatMap (fun p => (p.1.reads c.luts).map (·, p.2))
    ++ c.outputs.zipIdx.map (fun p => (p.1, c.nodes.length + p.2))

/-- The sinks of a source, for the given connections. -/
def edges (ps : List (Nat × Nat)) (s : Nat) : List Nat :=
  (ps.filter (fun p => source c p.1 = s)).map Prod.snd

/-- The graph of the given connections. -/
def graph (ps : List (Nat × Nat)) : ForwardGraph where
  inputOutEdges := (List.range c.inputs.length).map (edges c ps)
  nodeOutEdges := (List.range c.nodes.length).map (fun j => edges c ps (c.inputs.length + j))

variable {c}

/-! ### The sources of the wires -/

theorem idxOf_eq_of_count_eq_one {ws : List Nat} {w i : Nat} (hcount : ws.count w = 1)
    (hi : ws[i]? = some w) :
  ws.idxOf w = i
  := by
  apply idxOf_eq_of_notMem_take hi
  have hmem : w ∈ ws.drop i := by
    apply List.mem_of_getElem? (i := 0)
    rw [List.getElem?_drop, Nat.add_zero, hi]
  have hdrop := List.one_le_count_iff.mpr hmem
  rw [← List.take_append_drop i ws, List.count_append] at hcount
  apply List.count_eq_zero.mp
  omega

/-- Where all values that are written to a cell are the same. -/
theorem foldl_update_eq {α : Type} {ps : List (Nat × α)} {w : Nat} {a : α} {v : Nat → α}
    (hps : ∀ p ∈ ps, p.1 = w → p.2 = a) (hw : v w = a ∨ w ∈ ps.map Prod.fst) :
  ps.foldl (fun v p => Function.update v p.1 p.2) v w = a
  := by
  induction ps generalizing v with
  | nil => simpa using hw
  | cons p ps ih =>
      rw [List.forall_mem_cons] at hps
      rw [List.foldl_cons]
      apply ih hps.2
      by_cases hp : w = p.1
      · left
        rw [hp, Function.update_self]
        apply hps.1 hp.symm
      · rw [Function.update_of_ne hp]
        rw [List.map_cons, List.mem_cons] at hw
        tauto

theorem zipIdx_map_add {α β : Type} (f : α → β) (xs : List α) (m k : Nat) :
  (xs.map f).zipIdx (m + k) = (xs.zipIdx k).map (fun p => (f p.1, m + p.2))
  := by
  induction xs generalizing k with
  | nil => rfl
  | cons x xs ih =>
      rw [List.map_cons, List.zipIdx_cons, List.zipIdx_cons, List.map_cons, Nat.add_assoc, ih]

/-- The inputs and the gates are written to the map in order. -/
theorem wireSourceMap_eq_foldlM (htable : c.maxWireNumber + 1 < 2 ^ 64) (memory : Nat → Nat) :
  wireSourceMap c memory
    = c.drivers.zipIdx.foldlM (fun map p => map.write p.1 p.2) ⟨c.maxWireNumber + 1, memory⟩
  := by
  have hnodes := zipIdx_map_add Node.output c.nodes c.inputs.length 0
  rw [Nat.add_zero] at hnodes
  rw [wireSourceMap, add_of htable, Outcome.ok_bind, Circuit.drivers, List.zipIdx_append,
    List.foldlM_append, Nat.zero_add, hnodes]
  simp only [List.foldlM_map]

theorem getElem?_drivers_source {w : Nat} (hw : w ∈ c.drivers) :
  c.drivers[source c w]? = some w
  := by
  rw [List.getElem?_eq_some_iff]
  exact ⟨List.idxOf_lt_length_of_mem hw, List.getElem_idxOf _⟩

theorem mem_mentioned_of_driver {w : Nat} (hw : w ∈ c.drivers) :
  w ∈ c.mentioned
  := by
  rw [Circuit.drivers, List.mem_append, List.mem_map] at hw
  rcases hw with hw | ⟨n, hn, rfl⟩
  · apply Circuit.mem_mentioned_of_input hw
  · apply Circuit.mem_mentioned_of_node hn (List.mem_append_right _ List.mem_cons_self)

/-- Every wire that is read is mapped to its source. -/
theorem wireSourceMap_eq (hc : c.Analyzable) (htable : c.maxWireNumber + 1 < 2 ^ 64)
    (memory : Nat → Nat) :
  ∃ map, wireSourceMap c memory = .ok map ∧ map.len = c.maxWireNumber + 1
    ∧ ∀ w ∈ c.readWires, map.cell w = source c w
  := by
  have hlt : ∀ p ∈ c.drivers.zipIdx, p.1 < c.maxWireNumber + 1 := by
    intro p hp
    apply Nat.lt_succ_of_le
    apply hc.wires p.1 (mem_mentioned_of_driver (List.fst_mem_of_mem_zipIdx hp))
  rw [wireSourceMap_eq_foldlM htable, Buffer.foldlM_write hlt]
  refine ⟨_, rfl, rfl, ?_⟩
  intro w hw
  apply foldl_update_eq
  · intro p hp hpw
    rw [List.mem_zipIdx_iff_getElem?, hpw] at hp
    apply (idxOf_eq_of_count_eq_one (hc.driven w hw) hp).symm
  · right
    rw [List.zipIdx_map_fst]
    apply hc.mem_drivers hw

/-! ### The edges -/

theorem index_map {α : Type} {f : Nat → α} {n i : Nat} (hi : i < n) :
  (index ((List.range n).map f) i : Outcome Error α) = .ok (f i)
  := by
  rw [index_eq_ok, List.getElem?_map, List.getElem?_range hi]
  rfl

theorem store_map {α : Type} {f g : Nat → α} {n i : Nat} {a : α} (hi : i < n)
    (hg : ∀ j, g j = if j = i then a else f j) :
  (store ((List.range n).map f) i a : Outcome Error (List α)) = .ok ((List.range n).map g)
  := by
  have hlt : i < ((List.range n).map f).length := by
    rw [List.length_map, List.length_range]
    apply hi
  rw [store, if_pos hlt]
  congr 1
  apply List.ext_getElem
  · simp
  · intro j hj hj'
    rw [List.getElem_set, List.getElem_map, List.getElem_map, List.getElem_range, hg j]
    split
    case isTrue h => rw [if_pos h.symm]
    case isFalse h => rw [if_neg (fun h' => h h'.symm)]

/-- Appending to a list of the graph. -/
theorem appendAt_map {f g : Nat → List Nat} {n i sink : Nat} (hi : i < n)
    (hg : ∀ j, g j = if j = i then f j ++ [sink] else f j) :
  appendAt ((List.range n).map f) i sink = .ok ((List.range n).map g)
  := by
  rw [appendAt, index_map hi, Outcome.ok_bind]
  apply store_map hi
  intro j
  rw [hg j]
  split
  case isTrue h => rw [h]
  case isFalse => rfl

/-- A further connection adds a sink to its source. -/
theorem edges_append (ps : List (Nat × Nat)) (w sink s : Nat) :
  edges c (ps ++ [(w, sink)]) s
    = if s = source c w then edges c ps s ++ [sink] else edges c ps s
  := by
  rw [edges, List.filter_append, List.map_append, List.filter_singleton]
  by_cases hs : s = source c w
  · rw [if_pos hs, decide_eq_true hs.symm]
    rfl
  · rw [if_neg hs, decide_eq_false (fun h => hs h.symm)]
    apply List.append_nil

/-- Connecting a wire that has a source. -/
theorem connect_eq {w : Nat} (hw : w ∈ c.drivers) (ps : List (Nat × Nat)) (sink : Nat) :
  connect (source c w) sink c.inputs.length (graph c ps) = .ok (graph c (ps ++ [(w, sink)]))
  := by
  have hlt : source c w < c.inputs.length + c.nodes.length := by
    have hidx := List.idxOf_lt_length_of_mem hw
    rw [Circuit.drivers, List.length_append, List.length_map] at hidx
    apply hidx
  rw [connect]
  split
  case isTrue hinput =>
    have hinputs : appendAt (graph c ps).inputOutEdges (source c w) sink
        = .ok (graph c (ps ++ [(w, sink)])).inputOutEdges :=
      appendAt_map hinput (edges_append ps w sink)
    have hnodes : (graph c (ps ++ [(w, sink)])).nodeOutEdges = (graph c ps).nodeOutEdges := by
      apply List.map_congr_left
      intro j _
      rw [edges_append, if_neg (by omega)]
    rw [hinputs, Outcome.ok_bind, ← hnodes]
    rfl
  case isFalse hinput =>
    have hnodes : appendAt (graph c ps).nodeOutEdges (source c w - c.inputs.length) sink
        = .ok (graph c (ps ++ [(w, sink)])).nodeOutEdges := by
      apply appendAt_map (by omega)
      intro j
      rw [edges_append]
      congr 1
      rw [eq_iff_iff]
      omega
    have hinputs : (graph c (ps ++ [(w, sink)])).inputOutEdges = (graph c ps).inputOutEdges := by
      apply List.map_congr_left
      intro j hj
      rw [List.mem_range] at hj
      rw [edges_append, if_neg (by omega)]
    rw [hnodes, Outcome.ok_bind, ← hinputs]
    rfl

/-- The wires that a gate reads are those of its slice. -/
theorem sourceWires_eq {n : Node} (hslice : n.SliceInRange c.luts) :
  sourceWires c n = .ok (n.reads c.luts)
  := by
  cases n with
  | lut offset tableOffset arity output => apply slice_of hslice
  | _ => rfl

theorem graph_nil :
  graph c [] = ⟨List.replicate c.inputs.length [], List.replicate c.nodes.length []⟩
  := by
  have hnil : edges c [] = fun _ => [] := rfl
  simp only [graph, hnil, List.map_const', List.length_range]

/-- The graph has an edge to a sink for every wire that it reads. -/
theorem buildForwardGraph_eq (hc : c.Analyzable) (htable : c.maxWireNumber + 1 < 2 ^ 64)
    (memory : Nat → Nat) :
  buildForwardGraph c memory = .ok (graph c (connections c))
  := by
  obtain ⟨map, hmap, hlen, hcell⟩ := wireSourceMap_eq hc htable memory
  have hconnect : ∀ w ∈ c.readWires, ∀ sink ps, (do
      let sourceWire ← map.read w
      connect sourceWire sink c.inputs.length (graph c ps))
        = .ok (graph c (ps ++ [(w, sink)])) := by
    intro w hw sink ps
    have hdriver := hc.mem_drivers hw
    have hle := hc.wires w (mem_mentioned_of_driver hdriver)
    have hlt : w < map.len := by omega
    rw [Buffer.read_of hlt, Outcome.ok_bind, hcell w hw]
    apply connect_eq hdriver
  have hnode : ∀ p ∈ c.nodes.zipIdx, ∀ ps, connectNode c map (graph c ps) p
      = .ok (graph c (ps ++ (p.1.reads c.luts).map (·, p.2))) := by
    intro p hp ps
    have hn := List.fst_mem_of_mem_zipIdx hp
    rw [connectNode, sourceWires_eq (hc.slices p.1 hn), Outcome.ok_bind, List.map_eq_flatMap]
    apply Outcome.foldlM_collect
    intro w hw ps
    apply hconnect w (List.mem_append_left _ (List.mem_flatMap.mpr ⟨p.1, hn, hw⟩))
  have houtput : ∀ p ∈ c.outputs.zipIdx, ∀ ps, connectOutput c map (graph c ps) p
      = .ok (graph c (ps ++ [(p.1, c.nodes.length + p.2)])) := by
    intro p hp ps
    apply hconnect p.1 (List.mem_append_right _ (List.fst_mem_of_mem_zipIdx hp))
  simp only [buildForwardGraph, hmap, Outcome.ok_bind, ← graph_nil]
  rw [Outcome.foldlM_collect hnode, Outcome.ok_bind, Outcome.foldlM_collect houtput, connections,
    List.nil_append, List.map_eq_flatMap]

end DepthAnalysis

end SynCirc

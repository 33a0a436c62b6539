import SynCirc.DepthAnalysis.Basic
import SynCirc.Zig.Passes

/-!
# The analysis stays in its tables

In a circuit in range, no access to the map from wires to their sources is out of bounds.  If the
memory of the map holds sources, the other tables are not accessed out of bounds, either.
-/

namespace SynCirc

open Zig Outcome

namespace DepthAnalysis

variable {c : Circuit}

/-! ### The map from wires to their sources -/

/-- The map has an entry for every wire, and the entries have the property `P`. -/
structure IsSourceMap (c : Circuit) (P : Nat → Prop) (map : Buffer Nat) : Prop where
  len : map.len = c.maxWireNumber + 1
  source : ∀ w, P (map.cell w)

/-- The entries of the map are set, whatever its memory holds. -/
theorem passes_wireSourceMap (hc : c.InRange) {P : Nat → Prop} {memory : Nat → Nat}
    (hmemory : ∀ w, P (memory w)) (hP : ∀ k < c.inputs.length + c.nodes.length, P k) :
  (wireSourceMap c memory).Passes .indexOutOfBounds (IsSourceMap c P)
  := by
  have hwrite : ∀ {map : Buffer Nat} {w k : Nat}, IsSourceMap c P map → w ≤ c.maxWireNumber →
      k < c.inputs.length + c.nodes.length →
      (map.write w k : Outcome Error (Buffer Nat)).Passes .indexOutOfBounds (IsSourceMap c P) := by
    intro map w k hmap hw hk
    have hlt : w < map.len := by
      rw [hmap.len]
      apply Nat.lt_succ_of_le hw
    apply (Buffer.passes_write hlt k).mono
    rintro _ rfl
    exact ⟨hmap.len, Buffer.forall_cell_set hmap.source w (hP k hk)⟩
  rw [wireSourceMap]
  apply (passes_add (by decide) _ _).bind
  rintro _ rfl
  have hinputs : (c.inputs.zipIdx.foldlM
      (fun map p => (map.write p.1 p.2 : Outcome Error (Buffer Nat)))
      ⟨c.maxWireNumber + 1, memory⟩).Passes .indexOutOfBounds (IsSourceMap c P) := by
    apply Passes.foldlM _ ⟨rfl, hmemory⟩
    intro p hp map hmap
    have hlt := List.snd_lt_of_mem_zipIdx hp
    apply hwrite hmap _ (by omega)
    apply hc.wires p.1 (Circuit.mem_mentioned_of_input (List.fst_mem_of_mem_zipIdx hp))
  apply hinputs.bind
  intro map hmap
  apply Passes.foldlM _ hmap
  intro p hp map hmap
  have hlt := List.snd_lt_of_mem_zipIdx hp
  apply hwrite hmap _ (by omega)
  apply hc.wires
  apply Circuit.mem_mentioned_of_node (List.fst_mem_of_mem_zipIdx hp)
  apply List.mem_append_right _ (List.mem_singleton_self _)

/-- A gate reads what its sources are. -/
theorem passes_sourceWires (hc : c.InRange) {n : Node} (hn : n ∈ c.nodes) :
  (sourceWires c n).Passes .indexOutOfBounds (fun ws => ∀ w ∈ ws, w ≤ c.maxWireNumber)
  := by
  have hreads : ∀ w ∈ n.reads c.luts, w ≤ c.maxWireNumber :=
    fun w hw => hc.wires w (Circuit.mem_mentioned_of_node hn (List.mem_append_left _ hw))
  cases n with
  | lut offset tableOffset arity output =>
      apply (passes_slice (hc.luts _ hn).1).mono
      rintro _ rfl
      apply hreads
  | _ => apply hreads

/-! ### The graph -/

/-- The lists of edges have an entry for every source, and lead to gates and outputs. -/
structure HasEdges (c : Circuit) (fg : ForwardGraph) : Prop where
  inputs : fg.inputOutEdges.length = c.inputs.length
  nodes : fg.nodeOutEdges.length = c.nodes.length
  inputSinks : ∀ sinks ∈ fg.inputOutEdges, ∀ sink ∈ sinks, sink < c.nodes.length + c.outputs.length
  nodeSinks : ∀ sinks ∈ fg.nodeOutEdges, ∀ sink ∈ sinks, sink < c.nodes.length + c.outputs.length

theorem passes_appendAt {edges : List (List Nat)} {i sink bound : Nat} (hi : i < edges.length)
    (hedges : ∀ sinks ∈ edges, ∀ sink ∈ sinks, sink < bound) (hsink : sink < bound) :
  (appendAt edges i sink).Passes .indexOutOfBounds (fun edges' => edges'.length = edges.length
    ∧ ∀ sinks ∈ edges', ∀ sink ∈ sinks, sink < bound)
  := by
  rw [appendAt]
  apply (passes_index hi).bind
  intro list hlist
  apply (passes_store hi _).mono
  rintro _ rfl
  refine ⟨List.length_set, ?_⟩
  intro sinks hsinks
  rcases List.mem_or_eq_of_mem_set hsinks with hmem | rfl
  · apply hedges sinks hmem
  · rw [List.forall_mem_append, List.forall_mem_singleton]
    exact ⟨hedges list hlist, hsink⟩

theorem HasEdges.connect {fg : ForwardGraph} (h : HasEdges c fg) {sourceWire sinkNode : Nat}
    (hsource : sourceWire < c.inputs.length + c.nodes.length)
    (hsink : sinkNode < c.nodes.length + c.outputs.length) :
  (connect sourceWire sinkNode c.inputs.length fg).Passes .indexOutOfBounds (HasEdges c)
  := by
  rw [DepthAnalysis.connect]
  split
  case isTrue hlt =>
    apply (passes_appendAt (by rw [h.inputs]; apply hlt) h.inputSinks hsink).bind
    rintro edges ⟨hlength, hsinks⟩
    exact ⟨hlength.trans h.inputs, h.nodes, hsinks, h.nodeSinks⟩
  case isFalse hlt =>
    apply (passes_appendAt (by rw [h.nodes]; omega) h.nodeSinks hsink).bind
    rintro edges ⟨hlength, hsinks⟩
    exact ⟨h.inputs, hlength.trans h.nodes, h.inputSinks, hsinks⟩

theorem passes_buildForwardGraph (hc : c.InRange) {memory : Nat → Nat}
    (hmemory : ∀ w, memory w < c.inputs.length + c.nodes.length) :
  (buildForwardGraph c memory).Passes .indexOutOfBounds (HasEdges c)
  := by
  rw [buildForwardGraph]
  apply (passes_wireSourceMap hc hmemory (fun _ hk => hk)).bind
  rintro map ⟨hlen, hsource⟩
  have hentry : ∀ w ≤ c.maxWireNumber, w < map.len := by
    intro w hw
    rw [hlen]
    apply Nat.lt_succ_of_le hw
  have hempty : HasEdges c
      ⟨List.replicate c.inputs.length [], List.replicate c.nodes.length []⟩ := by
    refine ⟨List.length_replicate, List.length_replicate, ?_, ?_⟩
    · intro sinks hsinks
      rw [List.eq_of_mem_replicate hsinks]
      simp
    · intro sinks hsinks
      rw [List.eq_of_mem_replicate hsinks]
      simp
  have hnodes : (c.nodes.zipIdx.foldlM (connectNode c map)
      ⟨List.replicate c.inputs.length [], List.replicate c.nodes.length []⟩).Passes
        .indexOutOfBounds (HasEdges c) := by
    apply Passes.foldlM _ hempty
    intro p hp fg h
    have hlt := List.snd_lt_of_mem_zipIdx hp
    rw [connectNode]
    apply (passes_sourceWires hc (List.fst_mem_of_mem_zipIdx hp)).bind
    intro sources hsources
    apply Passes.foldlM _ h
    intro source hmem fg h
    apply (Buffer.passes_read (hentry source (hsources source hmem))).bind
    rintro _ rfl
    apply h.connect (hsource source) (by omega)
  apply hnodes.bind
  intro fg h
  apply Passes.foldlM _ h
  intro p hp fg h
  have hlt := List.snd_lt_of_mem_zipIdx hp
  have hle := hc.wires p.1 (Circuit.mem_mentioned_of_output (List.fst_mem_of_mem_zipIdx hp))
  rw [connectOutput]
  apply (Buffer.passes_read (hentry p.1 hle)).bind
  rintro _ rfl
  apply h.connect (hsource p.1) (by omega)

/-! ### The visits -/

/-- There is a depth for every gate and every output. -/
def HasDepths (c : Circuit) (da : Result) : Prop :=
  da.nodeDepth.length = c.nodes.length ∧ da.outputDepth.length = c.outputs.length

theorem passes_visitSink {fg : ForwardGraph} (h : HasEdges c fg) {fuel sink depth : Nat}
    (hsink : sink < c.nodes.length + c.outputs.length) {da : Result} (hda : HasDepths c da) :
  (visitSink c fg fuel sink depth da).Passes .indexOutOfBounds (HasDepths c)
  := by
  induction fuel generalizing sink depth da with
  | zero => trivial
  | succ fuel ih =>
      obtain ⟨hnodes, houtputs⟩ := hda
      rw [visitSink]
      split
      case isTrue hlt =>
        have hnode : sink < da.nodeDepth.length := by
          rw [hnodes]
          apply hlt
        rw [visitNode]
        apply (passes_index hnode).bind
        intro old _
        split
        case isTrue =>
          apply (passes_store hnode depth).bind
          rintro _ rfl
          apply (passes_index hlt).bind
          intro node _
          have hedges : ∀ outputDepth, (index fg.nodeOutEdges sink >>= fun edges =>
              edges.foldlM (fun da sink => visitSink c fg fuel sink outputDepth da)
                { da with nodeDepth := da.nodeDepth.set sink depth }).Passes .indexOutOfBounds
                  (HasDepths c) := by
            intro outputDepth
            apply (passes_index (by rw [h.nodes]; apply hlt)).bind
            intro edges hmem
            apply Passes.foldlM _ ⟨List.length_set.trans hnodes, houtputs⟩
            intro sink' hsink' da hda
            apply ih (h.nodeSinks edges hmem sink' hsink') hda
          split
          · apply (passes_check (by decide) _).bind
            intro _ _
            apply hedges
          · apply hedges
        case isFalse => exact ⟨hnodes, houtputs⟩
      case isFalse hlt =>
        have houtput : sink - c.nodes.length < da.outputDepth.length := by omega
        rw [visitOutput]
        apply (passes_index houtput).bind
        intro old _
        apply (passes_store houtput _).bind
        rintro _ rfl
        exact ⟨hnodes, List.length_set.trans houtputs⟩

end DepthAnalysis

open DepthAnalysis

/-- In a circuit in range, the map from wires to their sources has an entry for every wire that is
looked up. -/
theorem DepthAnalysis.wireSourceMap_inRange {c : Circuit} (hc : c.InRange) (memory : Nat → Nat) :
  wireSourceMap c memory ≠ .panic .indexOutOfBounds
    ∧ ∀ map, wireSourceMap c memory = .ok map →
      (∀ n ∈ c.nodes, ∀ w ∈ n.reads c.luts, w < map.len) ∧ ∀ w ∈ c.outputs, w < map.len
  := by
  have hmap : (wireSourceMap c memory).Passes .indexOutOfBounds
      (IsSourceMap c (fun _ => True)) :=
    passes_wireSourceMap hc (fun _ => trivial) (fun _ _ => trivial)
  use hmap.ne_panic
  intro map heq
  rw [(hmap.of_ok heq).len]
  constructor
  · intro n hn w hw
    apply Nat.lt_succ_of_le
    apply hc.wires w (Circuit.mem_mentioned_of_node hn (List.mem_append_left _ hw))
  · intro w hw
    apply Nat.lt_succ_of_le (hc.wires w (Circuit.mem_mentioned_of_output hw))

/-- In a circuit in range, the analysis does not access a table out of bounds, if the memory of the
map holds sources. -/
theorem analyzeDepth_ne_indexOutOfBounds {c : Circuit} (hc : c.InRange) {memory : Nat → Nat}
    (hmemory : ∀ w, memory w < c.inputs.length + c.nodes.length) (fuel : Nat) :
  analyzeDepth c memory fuel ≠ .panic .indexOutOfBounds
  := by
  have hpasses : (analyzeDepth c memory fuel).Passes .indexOutOfBounds (fun _ => True) := by
    rw [analyzeDepth]
    apply (passes_buildForwardGraph hc hmemory).bind
    intro fg h
    have hvisits : ((List.range c.inputs.length).foldlM
        (fun da inputIndex => visitInput c fg fuel inputIndex da)
        ⟨List.replicate c.nodes.length 0, List.replicate c.outputs.length 0⟩).Passes
          .indexOutOfBounds (HasDepths c) := by
      apply Passes.foldlM _ ⟨List.length_replicate, List.length_replicate⟩
      intro i hi da hda
      rw [visitInput]
      have hlt : i < fg.inputOutEdges.length := by
        rw [h.inputs]
        apply List.mem_range.mp hi
      apply (passes_index hlt).bind
      intro edges hmem
      apply Passes.foldlM _ hda
      intro sink hsink da hda
      apply passes_visitSink h (h.inputSinks edges hmem sink hsink) hda
    apply hvisits.bind
    intro da _
    trivial
  apply hpasses.ne_panic

end SynCirc

import SynCirc.Linearize.Ports

/-!
# The result of the pass

On every circuit whose wires can be renumbered and whose budget fits in 64 bits the pass
succeeds, and its result is the linearized circuit of some layout, or it stops at a lookup
table whose input wires do not lie inside `luts` (`run_spec`).  None of its assertions fails
and no subtraction underflows, and what the freshly allocated memory held has no influence
beyond the choice of the layout.
-/

namespace SynCirc

open Zig

namespace Linearize

variable {c : Circuit} {lin : Linearize} {gates : List (Node × Nat)} {copies : List Copy}

/-- All mentioned wires are mapped once all gates are processed. -/
theorem Progress.mapped_of_mentioned (h : Progress c lin gates copies)
    (hgates : gates.map Prod.fst = c.nodes) {w : Nat} (hw : w ∈ c.mentioned) :
  lin.Mapped w
  := by
  rw [Circuit.mentioned, List.mem_append, List.mem_append, List.mem_flatMap] at hw
  rcases hw with (hw | hw) | ⟨n, hn, hw⟩
  · apply h.base.mapped_input w hw
  · apply h.base.mapped_output w hw
  · rw [← hgates] at hn
    obtain ⟨g, hg, rfl⟩ := List.mem_map.mp hn
    apply h.mapped g hg w hw

/-- The renamed gates read the new numbers of the wires the gates read. -/
theorem Progress.reads_rename (h : Progress c lin gates copies)
    (hgates : gates.map Prod.fst = c.nodes) {n : Node} (hn : n ∈ c.nodes)
    (hslice : n.SliceInRange c.luts) :
  (n.rename lin.newNumber).reads lin.circuitLuts.toList = (n.reads c.luts).map lin.newNumber
  := by
  cases n with
  | lut offset tableOffset arity output =>
      have hrange : offset + arity ≤ c.luts.length := hslice
      rw [← hgates] at hn
      obtain ⟨g, hg, hgn⟩ := List.mem_map.mp hn
      have hlen : lin.circuitLuts.len = c.luts.length := h.base.luts_len
      apply List.ext_getElem
      · simp [Node.rename, Node.reads, Buffer.toList, hlen]
      · intro i hi hi'
        simp only [Node.rename, Node.reads, Buffer.toList, List.length_take, List.length_drop,
          List.length_map, List.length_range] at hi
        have hcovers : g.1.Covers (offset + i) := by
          rw [hgn]
          exact ⟨by omega, by omega⟩
        have hdone := (h.luts g hg (offset + i) hcovers).2
        rw [List.getD_eq_getElem?_getD, List.getElem?_eq_getElem (by omega)] at hdone
        simp only [Node.rename, Node.reads, Buffer.toList, List.getElem_take, List.getElem_drop,
          List.getElem_map, List.getElem_range]
        apply hdone
  | _ => rfl

/-- The layout the pass has chosen. -/
def Progress.layout (h : Progress c lin gates copies)
    (hslices : ∀ n ∈ c.nodes, n.SliceInRange c.luts)
    (hgates : gates.map Prod.fst = c.nodes)
    (hcopies : copies.map (fun k => (k.source, k.slot))
      = (c.outputs.zipIdx.filter c.isCopy).map (fun p => (p.1, c.slot p.2))) :
    Layout c where
  rename := lin.newNumber
  gates := gates
  copies := copies
  luts := lin.circuitLuts.toList
  gates_nodes := hgates
  copies_eq := hcopies
  luts_length := by
    rw [Buffer.toList, List.length_map, List.length_range, h.base.luts_len]
  reads_rename := fun n hn => h.reads_rename hgates hn (hslices n hn)
  rename_inputs := h.base.input_number
  rename_output := h.base.output_number
  rename_inner := by
    intro w hw hin hout
    obtain ⟨hlow, hhigh⟩ :=
      h.base.inner_number w (h.mapped_of_mentioned hgates hw) hin hout
    have hnext := h.base.next_le
    omega
  rename_injOn := by
    intro w hw w' hw' heq
    apply h.base.injective w w' (h.mapped_of_mentioned hgates hw)
      (h.mapped_of_mentioned hgates hw') heq
  temps_nodup := h.base.temps_nodup
  temps_inner := by
    intro t ht
    obtain ⟨hlow, hhigh⟩ := h.base.temps_inner t ht
    have hnext := h.base.next_le
    omega
  temps_fresh := by
    intro t ht w hw
    apply h.base.temps_fresh t ht w (h.mapped_of_mentioned hgates hw)

/-- The pass returns the circuit of a layout that introduces its numbers in order, or it stops
at a lookup table whose input wires do not lie inside `luts`. -/
theorem run_spec (memory : Memory) (hc : c.Renumberable) (hfits : c.BudgetFits) :
  (∃ L : Layout c, run memory c = .ok L.circuit ∧ L.Ordered
    ∧ ∀ n ∈ c.nodes, n.SliceInRange c.luts)
  ∨ (run memory c = .panic .indexOutOfBounds ∧ ∃ n ∈ c.nodes, ¬ n.SliceInRange c.luts)
  := by
  obtain ⟨lin₁, heq₁, h₁⟩ := processInputs_spec memory hc hfits
  obtain ⟨lin₂, heq₂, h₂, houts₂⟩ := processOutputsBegin_spec hc h₁
  have hprocess : lin₂.processGates = c.nodes.foldlM processGate lin₂ := by
    rw [processGates, h₂.base.circuit]
  rcases processGates_spec hc h₂ rfl with ⟨lin₃, gates, heq₃, h₃, hgates, houts₃, hslices⟩
    | ⟨heq₃, hbad⟩
  · left
    obtain ⟨lin₄, heq₄, ⟨⟨copies, h₄, hcopies⟩, houts₄⟩⟩ :=
      processOutputsEnd_spec hc hgates h₃ (houts₃.trans houts₂)
    use h₄.layout hslices hgates hcopies
    refine ⟨?_, ?_, hslices⟩
    · have hnodes := h₄.nodes lin₄.newNumber (fun _ _ => rfl)
      simp only [run, check_of hfits.table, check_of hfits.budget, heq₁, heq₂, hprocess, heq₃,
        heq₄, Outcome.ok_bind, Outcome.pure_eq, hnodes, houts₄, h₄.base.inputs, h₄.base.lutTables,
        h₄.base.maxWireNumber]
      rfl
    · use lin₄.nextFreeWireNumber
      apply h₄.order lin₄.newNumber (fun _ _ => rfl)
  · right
    constructor
    · simp only [run, check_of hfits.table, check_of hfits.budget, heq₁, heq₂, hprocess, heq₃,
        Outcome.ok_bind, Outcome.panic_bind]
    · apply hbad

/-- The pass succeeds if the input wires of the lookup tables lie inside `luts`. -/
theorem run_ordered (memory : Memory) (hc : c.Renumberable) (hfits : c.BudgetFits)
    (hslices : ∀ n ∈ c.nodes, n.SliceInRange c.luts) :
  ∃ L : Layout c, run memory c = .ok L.circuit ∧ L.Ordered
  := by
  rcases run_spec memory hc hfits with ⟨L, heq, hordered, -⟩ | ⟨-, n, hn, hslice⟩
  · use L, heq
  · apply absurd (hslices n hn) hslice

/-- The pass succeeds on every admissible circuit whose budget fits and returns the circuit of
some layout. -/
theorem run_eq (memory : Memory) (hc : c.Admissible) (hfits : c.BudgetFits) :
  ∃ L : Layout c, run memory c = .ok L.circuit
  := by
  obtain ⟨L, heq, -⟩ := run_ordered memory hc.renumberable hfits (fun _ hn => hc.sliceInRange hn)
  use L

end Linearize

end SynCirc

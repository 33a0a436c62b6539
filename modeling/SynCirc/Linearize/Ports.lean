import SynCirc.Linearize.Gates

/-!
# The inputs and outputs of the pass

Before the gates, `processInputs` numbers the inputs and `processOutputsBegin` gives every
output that is not copied its slot; this establishes the invariant.  After the gates,
`processOutputsEnd` makes the copies, in the order of the outputs.
-/

namespace SynCirc

open Zig Numbering

namespace Linearize

variable {c : Circuit} {lin : Linearize} {pre post : List Nat} {w : Nat}

theorem outputSlot_eq (hc : c.Renumberable) (hfits : c.BudgetFits) (hcircuit : lin.circuit = c)
    (hmax : lin.circuitMaxWireNumber = c.wireBudget) {i : Nat} (hi : i < c.outputs.length) :
  lin.outputSlot i = .ok (c.slot i)
  := by
  have hle := Circuit.outputs_le_wireBudget hc
  have hbudget := hfits.budget
  have hslot : c.wireBudget - c.outputs.length + i + 1 < 2 ^ 64 := by omega
  rw [outputSlot, hmax, hcircuit, sub_of hle, Outcome.ok_bind,
    add_of (Nat.lt_of_succ_lt hslot), Outcome.ok_bind, add_of hslot]
  rfl

/-! ### Before the gates -/

/-- What the pass does not change before the gates. -/
structure Setup (c : Circuit) (lin : Linearize) : Prop where
  fits : c.BudgetFits
  circuit : lin.circuit = c
  maxWireNumber : lin.circuitMaxWireNumber = c.wireBudget
  lutTables : lin.circuitLutTables = c.lutTables
  luts_len : lin.circuitLuts.len = c.luts.length
  permutation_len : lin.permutation.len = c.maxWireNumber + 1
  permutationSet_len : lin.permutationSet.len = c.maxWireNumber + 1
  nodes : lin.circuitNodes = []
  outputs : lin.circuitOutputs = []

/-- The inputs `pre` are numbered. -/
structure InputsDone (c : Circuit) (pre : List Nat) (lin : Linearize) : Prop
    extends Setup c lin where
  inputs : lin.circuitInputs = List.range pre.length
  mapped : ∀ w, lin.Mapped w ↔ w ∈ pre
  number : pre.map lin.newNumber = List.range pre.length

/-- The inputs are numbered, and the outputs `pre` that are not inputs have their slots. -/
structure OutputsDone (c : Circuit) (pre : List Nat) (lin : Linearize) : Prop
    extends Setup c lin where
  inputs : lin.circuitInputs = List.range c.inputs.length
  mapped : ∀ w, lin.Mapped w ↔ w ∈ c.inputs ∨ w ∈ pre
  input_number : c.inputs.map lin.newNumber = List.range c.inputs.length
  output_number : ∀ w ∈ pre, w ∉ c.inputs → lin.newNumber w = c.slot (pre.idxOf w)
  next : lin.nextFreeWireNumber = c.inputs.length

theorem Setup.init (memory : Memory) (hfits : c.BudgetFits) :
  Setup c (init memory c)
  := ⟨hfits, rfl, rfl, rfl, rfl, rfl, rfl, rfl, rfl⟩

theorem Setup.mapTo (h : Setup c lin) (w k : Nat) :
  Setup c (lin.mapTo w k)
  := { h with permutation_len := h.permutation_len, permutationSet_len := h.permutationSet_len }

/-- A wire that is not mapped can be mapped. -/
theorem Setup.addMapping_eq (h : Setup c lin) (hw : w ≤ c.maxWireNumber)
    (hmapped : ¬ lin.Mapped w) (k : Nat) :
  lin.addMapping w k = .ok (lin.mapTo w k)
  := by
  apply Linearize.addMapping_eq lin k _ _ hmapped
  · rw [h.permutationSet_len]
    apply Nat.lt_succ_of_le hw
  · rw [h.permutation_len]
    apply Nat.lt_succ_of_le hw

/-- One input. -/
theorem InputsDone.step (hc : c.Renumberable) (hpre : c.inputs = pre ++ w :: post)
    (h : InputsDone c pre lin) :
  ∃ lin', lin.processInput (w, pre.length) = .ok lin' ∧ InputsDone c (pre ++ [w]) lin'
  := by
  have hnodup := hc.inputs_nodup
  rw [hpre, List.nodup_append] at hnodup
  have hnew : w ∉ pre := by
    intro hw
    apply hnodup.2.2 w hw w List.mem_cons_self rfl
  have hmapped : ¬ lin.Mapped w := by
    rw [h.mapped]
    apply hnew
  have hmem : w ∈ c.inputs := by
    rw [hpre]
    apply List.mem_append_right _ List.mem_cons_self
  have hw : w ≤ c.maxWireNumber := hc.wires w (Circuit.mem_mentioned_of_input hmem)
  have hsetup : Setup c { lin with circuitInputs := lin.circuitInputs ++ [pre.length] } :=
    { h.toSetup with }
  refine ⟨_, hsetup.addMapping_eq hw hmapped pre.length, hsetup.mapTo w pre.length, ?_, ?_, ?_⟩
  · rw [List.length_append, List.length_singleton, List.range_succ, ← h.inputs]
    rfl
  · intro x
    apply Iff.trans (mapped_mapTo _ _)
    have hx : lin.Mapped x ↔ x ∈ pre := h.mapped x
    rw [List.mem_append, List.mem_singleton, ← hx]
    apply or_comm
  · have hpreserved : pre.map (mapTo
        { lin with circuitInputs := lin.circuitInputs ++ [pre.length] } w pre.length).newNumber
        = pre.map lin.newNumber := by
      apply List.map_congr_left
      intro x hx
      apply newNumber_mapTo_of_ne
      intro heq
      apply hnew (heq ▸ hx)
    rw [List.map_append, List.map_singleton, hpreserved, h.number, newNumber_mapTo_self,
      List.length_append, List.length_singleton, List.range_succ]

theorem processInputs_spec (memory : Memory) (hc : c.Renumberable) (hfits : c.BudgetFits) :
  ∃ lin, (init memory c).processInputs = .ok lin ∧ OutputsDone c [] lin
  := by
  have hinit : InputsDone c [] (init memory c) := by
    refine ⟨Setup.init memory hfits, rfl, ?_, rfl⟩
    intro w
    simp [Mapped, init, Buffer.filled]
  obtain ⟨lin, heq, h⟩ := Outcome.foldlM_zipIdx (InputsDone c)
    (fun pre w post lin hpre h => InputsDone.step hc hpre h) hinit
  use { lin with nextFreeWireNumber := c.inputs.length }
  constructor
  · have hcircuit : (init memory c).circuit.inputs = c.inputs := rfl
    rw [processInputs, hcircuit, heq, Outcome.ok_bind, h.circuit]
    rfl
  · have hsetup : Setup c { lin with nextFreeWireNumber := c.inputs.length } :=
      { h.toSetup with }
    refine ⟨hsetup, h.inputs, ?_, h.number, ?_, rfl⟩
    · intro w
      apply (h.mapped w).trans
      simp
    · intro w hw
      contradiction

/-- The position of an output in a longer list of outputs. -/
theorem idxOf_snoc {w x : Nat} (hx : x ∈ pre) :
  (pre ++ [w]).idxOf x = pre.idxOf x
  := List.idxOf_append_of_mem hx

/-- One output, before the gates. -/
theorem OutputsDone.step (hc : c.Renumberable) (hpre : c.outputs = pre ++ w :: post)
    (h : OutputsDone c pre lin) :
  ∃ lin', lin.processOutputBegin (w, pre.length) = .ok lin' ∧ OutputsDone c (pre ++ [w]) lin'
  := by
  have htake : c.outputs.take pre.length = pre := by
    rw [hpre, List.take_left]
  have hw : w ≤ c.maxWireNumber := by
    apply hc.wires w (Circuit.mem_mentioned_of_output _)
    rw [hpre]
    apply List.mem_append_right _ List.mem_cons_self
  have hi : pre.length < c.outputs.length := by
    rw [hpre, List.length_append, List.length_cons]
    omega
  have hprocess : lin.processOutputBegin (w, pre.length)
      = if w ∈ c.inputs then .ok lin else if w ∈ pre then .ok lin
        else lin.addMapping w (c.slot pre.length) := by
    simp only [processOutputBegin, outputSlot_eq hc h.fits h.circuit h.maxWireNumber hi,
      Outcome.ok_bind, h.circuit, htake, Outcome.pure_eq]
  by_cases hold : w ∈ c.inputs ∨ w ∈ pre
  · refine ⟨lin, ?_, ?_⟩
    · rw [hprocess]
      rcases hold with hin | hout
      · rw [if_pos hin]
      · rw [if_pos hout, ite_self]
    · refine { h with mapped := ?_, output_number := ?_ }
      · intro x
        rw [h.mapped, List.mem_append, List.mem_singleton]
        constructor
        · tauto
        · rintro (hx | hx | rfl)
          · exact .inl hx
          · exact .inr hx
          · exact hold
      · intro x hx hin
        rw [List.mem_append, List.mem_singleton] at hx
        rcases hx with hx | rfl
        · rw [idxOf_snoc hx]
          apply h.output_number x hx hin
        · have hx := hold.resolve_left hin
          rw [idxOf_snoc hx]
          apply h.output_number x hx hin
  · obtain ⟨hin, hout⟩ := not_or.mp hold
    have hmapped : ¬ lin.Mapped w := by
      rw [h.mapped]
      apply hold
    refine ⟨lin.mapTo w (c.slot pre.length), ?_, ?_⟩
    · rw [hprocess, if_neg hin, if_neg hout]
      apply h.addMapping_eq hw hmapped
    · refine ⟨h.toSetup.mapTo w (c.slot pre.length), h.inputs, ?_, ?_, ?_, h.next⟩
      · intro x
        rw [mapped_mapTo, h.mapped, List.mem_append, List.mem_singleton]
        tauto
      · rw [← h.input_number]
        apply List.map_congr_left
        intro x hx
        apply newNumber_mapTo_of_ne
        intro heq
        apply hin (heq ▸ hx)
      · intro x hx hxin
        rw [List.mem_append, List.mem_singleton] at hx
        rcases hx with hx | rfl
        · rw [idxOf_snoc hx, ← h.output_number x hx hxin]
          apply newNumber_mapTo_of_ne
          intro heq
          apply hout (heq ▸ hx)
        · rw [newNumber_mapTo_self, List.idxOf_append_of_notMem hout, List.idxOf_cons_self]
          rfl

/-- The mapped wires are the inputs and the outputs. -/
theorem OutputsDone.mappedWires_eq (hc : c.Renumberable) (h : OutputsDone c c.outputs lin) :
  lin.mappedWires c.maxWireNumber = (c.inputs ++ c.outputs).toFinset
  := by
  ext w
  have hmapped : lin.permutationSet.cell w = true ↔ w ∈ c.inputs ∨ w ∈ c.outputs := h.mapped w
  simp only [mappedWires, Finset.mem_filter, Finset.mem_range, hmapped, List.mem_toFinset,
    List.mem_append]
  constructor
  · exact And.right
  · intro hw
    refine ⟨Nat.lt_succ_of_le (hc.wires w ?_), hw⟩
    apply List.mem_append_left _ (List.mem_append.mpr hw)

/-- The inputs are numbered below the output slots. -/
theorem inputs_length_le (hc : c.Renumberable) :
  c.inputs.length ≤ c.lastInner + 1
  := by
  have hcount := Circuit.card_add_copyCount hc
  have hcard : (c.inputs ++ c.outputs).toFinset.card ≤ c.maxWireNumber + 1 := by
    rw [← Finset.card_range (c.maxWireNumber + 1)]
    apply Finset.card_le_card
    intro w hw
    rw [Finset.mem_range]
    apply Nat.lt_succ_of_le (hc.wires w (List.mem_append_left _ (List.mem_toFinset.mp hw)))
  have hbudget := Circuit.wireBudget_eq hc
  rw [Circuit.lastInner]
  omega

/-- No two inputs or outputs share a number. -/
theorem OutputsDone.injective (hc : c.Renumberable) (h : OutputsDone c c.outputs lin)
    {w w' : Nat} (hw : lin.Mapped w) (hw' : lin.Mapped w')
    (heq : lin.newNumber w = lin.newNumber w') :
  w = w'
  := by
  have hinput : ∀ x ∈ c.inputs, lin.newNumber x < c.inputs.length := by
    intro x hx
    rw [← List.mem_range, ← h.input_number]
    apply List.mem_map_of_mem hx
  have houtput : ∀ x, lin.Mapped x → x ∉ c.inputs →
      x ∈ c.outputs ∧ lin.newNumber x = c.slot (c.outputs.idxOf x) := by
    intro x hx hin
    have hout := ((h.mapped x).mp hx).resolve_left hin
    use hout, h.output_number x hout hin
  have hle := inputs_length_le hc
  by_cases hin : w ∈ c.inputs
  · by_cases hin' : w' ∈ c.inputs
    · have hnodup : (c.inputs.map lin.newNumber).Nodup := by
        rw [h.input_number]
        apply List.nodup_range
      apply List.inj_on_of_nodup_map hnodup hin hin' heq
    · have hlt := hinput w hin
      rw [heq, (houtput w' hw' hin').2, Circuit.slot] at hlt
      omega
  · obtain ⟨hout, hnumber⟩ := houtput w hw hin
    by_cases hin' : w' ∈ c.inputs
    · have hlt := hinput w' hin'
      rw [← heq, hnumber, Circuit.slot] at hlt
      omega
    · obtain ⟨hout', hnumber'⟩ := houtput w' hw' hin'
      rw [hnumber, hnumber', Circuit.slot, Circuit.slot] at heq
      apply (List.idxOf_inj hout).mp
      omega

/-- Once the outputs have their slots, the invariant holds. -/
theorem OutputsDone.progress (hc : c.Renumberable) (h : OutputsDone c c.outputs lin) :
  Progress c lin [] []
  := by
  have hinv : Invariant c lin [] := by
    refine { h.toSetup, h with
      mapped_le := ?_, mapped_input := ?_, mapped_output := ?_, inner_number := ?_,
      injective := ?_, inputs_le := ?_, next_le := ?_, temps_nodup := List.nodup_nil,
      temps_inner := ?_, temps_fresh := ?_, count := ?_ }
    · intro w hw
      apply hc.wires w (List.mem_append_left _ (List.mem_append.mpr ((h.mapped w).mp hw)))
    · intro w hw
      apply (h.mapped w).mpr (.inl hw)
    · intro w hw
      apply (h.mapped w).mpr (.inr hw)
    · intro w hw hin hout
      apply absurd ((h.mapped w).mp hw)
      rintro (hw | hw)
      · apply hin hw
      · apply hout hw
    · intro w w' hw hw'
      apply h.injective hc hw hw'
    · rw [h.next]
    · rw [h.next]
      apply inputs_length_le hc
    · simp
    · simp
    · rw [h.next, h.mappedWires_eq hc, List.length_nil, Nat.add_zero,
        Circuit.card_add_copyCount hc]
  constructor
  · apply hinv
  · intro ρ hρ
    apply h.nodes
  · simp
  · simp
  · intro ρ hρ
    apply h.next

theorem processOutputsBegin_spec (hc : c.Renumberable) (h : OutputsDone c [] lin) :
  ∃ lin', lin.processOutputsBegin = .ok lin' ∧ Progress c lin' [] []
    ∧ lin'.circuitOutputs = []
  := by
  obtain ⟨lin', heq, h'⟩ := Outcome.foldlM_zipIdx (OutputsDone c)
    (fun pre w post lin hpre h => OutputsDone.step hc hpre h) h
  use lin'
  refine ⟨?_, h'.progress hc, h'.outputs⟩
  rw [processOutputsBegin, h.circuit]
  apply heq

/-! ### After the gates -/

section Copies

variable {gates : List (Node × Nat)} {copies : List Copy}

/-- A copy of a wire that is mapped extends the progress. -/
theorem Progress.copy {lin₁ : Linearize} (h : Progress c lin gates copies)
    (hbase : Invariant c lin₁.next
      (constantTemps gates ++ copies.map Copy.tmp ++ [lin₁.nextFreeWireNumber]))
    (hext : lin.Extends lin₁) (hframe : lin.Frame lin₁) (hmapped : lin₁.Mapped w) {k : Nat}
    (horder : Introduces c.lastInner lin.nextFreeWireNumber
      [lin₁.newNumber w, lin₁.nextFreeWireNumber] lin₁.next.nextFreeWireNumber)
    (hk : c.lastInner < k) :
  Progress c ((lin₁.next.addNode (.inv (lin₁.newNumber w) lin₁.nextFreeWireNumber)).addNode
      (.inv lin₁.nextFreeWireNumber k)) gates
    (copies ++ [⟨w, lin₁.nextFreeWireNumber, k⟩])
  := by
  constructor
  · rw [List.map_append, ← List.append_assoc]
    apply (hbase.addNode _).addNode
  · intro ρ hρ
    have hρ₁ : lin₁.Realizes ρ := hρ
    have hbefore := h.nodes ρ (hρ₁.of_extends hext)
    have hnodes : lin₁.next.circuitNodes = lin.circuitNodes := hframe.nodes
    rw [addNode, addNode, hnodes, hbefore, List.flatMap_append, ← hρ₁ w hmapped]
    simp [Copy.nodes]
  · intro g hg w' hw'
    apply hext.mapped w' (h.mapped g hg w' hw')
  · intro g hg j hj
    apply (h.luts g hg j hj).of_extends ⟨hext.mapped, hext.newNumber⟩
    apply congrArg (fun b => Buffer.cell b j) hframe.luts
  · intro ρ hρ
    have hρ₁ : lin₁.Realizes ρ := hρ
    have hbefore := h.order ρ (hρ₁.of_extends hext)
    have hlast : Introduces c.lastInner lin₁.next.nextFreeWireNumber
        [lin₁.nextFreeWireNumber, k] lin₁.next.nextFreeWireNumber :=
      Introduces.cons (.old (.inl (Nat.lt_succ_self _))) (.old (.inr hk))
    have hcopy : (⟨w, lin₁.nextFreeWireNumber, k⟩ : Copy).mentions ρ
        = [lin₁.newNumber w, lin₁.nextFreeWireNumber] ++ [lin₁.nextFreeWireNumber, k] := by
      rw [Copy.mentions, hρ₁ w hmapped]
      rfl
    rw [List.flatMap_append, List.flatMap_singleton, ← List.append_assoc, hcopy]
    apply hbefore.append (horder.append hlast)

/-- Copying a wire of the circuit to an output slot. -/
theorem copy_spec (hc : c.Renumberable) (h : Progress c lin gates copies)
    (htemps : (constantTemps gates ++ copies.map Copy.tmp).length
      < c.constantCount + c.copyCount)
    (hw : w ≤ c.maxWireNumber) {k : Nat} (hk : c.lastInner < k) :
  ∃ lin' tmp, (do
      let (inputWire, lin) ← lin.getMapping w
      lin.addCopyNode inputWire k) = .ok lin'
    ∧ Progress c lin' gates (copies ++ [⟨w, tmp, k⟩])
    ∧ lin'.circuitOutputs = lin.circuitOutputs
  := by
  obtain ⟨lin₁, s⟩ := h.base.getMapping_spec hc (Nat.le_of_lt htemps) hw
  obtain ⟨hfresh, hbase, horder⟩ := s.base.getTemp_spec hc htemps
  refine ⟨_, lin₁.nextFreeWireNumber, ?_, h.copy hbase s.ext s.frame s.mapped
    (s.order.cons horder) hk, s.frame.outputs⟩
  rw [s.eq, Outcome.ok_bind]
  simp only [addCopyNode, hfresh, Outcome.ok_bind, Outcome.pure_eq]

/-- The outputs `pre` are made, with their copies. -/
structure CopiesDone (c : Circuit) (gates : List (Node × Nat)) (pre : List Nat)
    (lin : Linearize) : Prop where
  progress : ∃ copies, Progress c lin gates copies
    ∧ copies.map (fun k => (k.source, k.slot))
      = (pre.zipIdx.filter c.isCopy).map (fun p => (p.1, c.slot p.2))
  outputs : lin.circuitOutputs = (List.range pre.length).map c.slot

/-- The element at the position `idxOf?` finds. -/
theorem index_of_idxOf? {ε : Type} {xs : List Nat} {i : Nat} (h : xs.idxOf? w = some i) :
  (index xs i : Outcome ε Nat) = .ok w
  := by
  obtain ⟨hi, hw, -⟩ := List.findIdx?_eq_some_iff_getElem.mp h
  rw [index, List.getElem?_eq_getElem hi, eq_of_beq hw]

/-- The end of processing an output is a copy, or nothing. -/
theorem processOutputEnd_eq (hc : c.Renumberable) (hfits : c.BudgetFits)
    (hcircuit : lin.circuit = c) (hmax : lin.circuitMaxWireNumber = c.wireBudget) {i : Nat}
    (hi : i < c.outputs.length) :
  lin.processOutputEnd (w, i) = (do
    let lin ← if c.isCopy (w, i) then (do
        let (inputWire, lin) ← lin.getMapping w
        lin.addCopyNode inputWire (c.slot i)) else pure lin
    return { lin with circuitOutputs := lin.circuitOutputs ++ [c.slot i] })
  := by
  rw [processOutputEnd, outputSlot_eq hc hfits hcircuit hmax hi, Outcome.ok_bind, hcircuit]
  simp only
  rcases hin : c.inputs.idxOf? w with _ | j
  · have hin' := List.idxOf?_eq_none_iff.mp hin
    rcases hout : (c.outputs.take i).idxOf? w with _ | j
    · have hout' := List.idxOf?_eq_none_iff.mp hout
      have hcopy : c.isCopy (w, i) = false := by
        rw [Circuit.isCopy, decide_eq_false_iff_not, not_or]
        exact ⟨hin', hout'⟩
      simp only [hcopy, Bool.false_eq_true, if_false]
    · have hmem : w ∈ c.outputs.take i := by
        rw [← List.isSome_idxOf?, hout]
        rfl
      have hcopy : c.isCopy (w, i) = true := by
        rw [Circuit.isCopy, decide_eq_true_iff]
        exact .inr hmem
      have hindex : (index c.outputs j : Outcome Error Nat) = .ok w := by
        have htake := index_of_idxOf? (ε := Error) hout
        rw [index, List.getElem?_take] at htake
        by_cases hj : j < i
        · rw [if_pos hj] at htake
          apply htake
        · rw [if_neg hj] at htake
          contradiction
      simp only [hcopy, if_true, hindex, Outcome.ok_bind, bind_assoc]
  · have hmem : w ∈ c.inputs := by
      rw [← List.isSome_idxOf?, hin]
      rfl
    have hcopy : c.isCopy (w, i) = true := by
      rw [Circuit.isCopy, decide_eq_true_iff]
      exact .inl hmem
    simp only [hcopy, if_true, index_of_idxOf? hin, Outcome.ok_bind, bind_assoc]

/-- The copies made so far are fewer than all copies, while a copy is left to make. -/
theorem length_copies_lt (hpre : c.outputs = pre ++ w :: post)
    (hcopy : c.isCopy (w, pre.length) = true)
    (hcopies : copies.map (fun k => (k.source, k.slot))
      = (pre.zipIdx.filter c.isCopy).map (fun p => (p.1, c.slot p.2))) :
  copies.length < c.copyCount
  := by
  have hlength := congrArg List.length hcopies
  rw [List.length_map, List.length_map, ← List.countP_eq_length_filter] at hlength
  rw [Circuit.copyCount, hpre, List.zipIdx_append, List.countP_append, List.zipIdx_cons,
    List.countP_cons, ← hlength, Nat.zero_add, hcopy, if_pos rfl]
  omega

/-- One output, after the gates. -/
theorem CopiesDone.step (hc : c.Renumberable) (hgates : gates.map Prod.fst = c.nodes)
    (hpre : c.outputs = pre ++ w :: post) (h : CopiesDone c gates pre lin) :
  ∃ lin', lin.processOutputEnd (w, pre.length) = .ok lin' ∧ CopiesDone c gates (pre ++ [w]) lin'
  := by
  obtain ⟨⟨copies, hprogress, hcopies⟩, houtputs⟩ := h
  have hi : pre.length < c.outputs.length := by
    rw [hpre, List.length_append, List.length_cons]
    omega
  rw [processOutputEnd_eq hc hprogress.base.fits hprogress.base.circuit
    hprogress.base.maxWireNumber hi]
  have hslots : (List.range (pre ++ [w]).length).map c.slot
      = (List.range pre.length).map c.slot ++ [c.slot pre.length] := by
    rw [List.length_append, List.length_singleton, List.range_succ, List.map_append]
    rfl
  cases hcopy : c.isCopy (w, pre.length) with
  | false =>
      refine ⟨{ lin with circuitOutputs := lin.circuitOutputs ++ [c.slot pre.length] }, rfl, ?_⟩
      refine ⟨⟨copies, { hprogress with base := { hprogress.base with } }, ?_⟩, ?_⟩
      · rw [hcopies, zipIdx_snoc, List.filter_append, List.filter_singleton, hcopy]
        simp
      · rw [hslots, ← houtputs]
  | true =>
      have hw : w ≤ c.maxWireNumber := by
        apply hc.wires w (Circuit.mem_mentioned_of_output _)
        rw [hpre]
        apply List.mem_append_right _ List.mem_cons_self
      have htemps : (constantTemps gates ++ copies.map Copy.tmp).length
          < c.constantCount + c.copyCount := by
        have hlt := length_copies_lt hpre hcopy hcopies
        rw [List.length_append, length_constantTemps, hgates, List.length_map,
          Circuit.constantCount]
        omega
      have hslot : c.lastInner < c.slot pre.length := by
        rw [Circuit.slot]
        omega
      obtain ⟨lin', tmp, heq, hprogress', houtputs'⟩ :=
        copy_spec hc hprogress htemps hw hslot
      refine ⟨{ lin' with circuitOutputs := lin'.circuitOutputs ++ [c.slot pre.length] }, ?_, ?_⟩
      · rw [if_pos rfl, heq, Outcome.ok_bind]
        rfl
      · refine ⟨⟨_, { hprogress' with base := { hprogress'.base with } }, ?_⟩, ?_⟩
        · rw [List.map_append, hcopies, zipIdx_snoc, List.filter_append, List.filter_singleton,
            hcopy]
          simp
        · rw [hslots, ← houtputs, ← houtputs']

theorem processOutputsEnd_spec (hc : c.Renumberable) (hgates : gates.map Prod.fst = c.nodes)
    (h : Progress c lin gates []) (houtputs : lin.circuitOutputs = []) :
  ∃ lin', lin.processOutputsEnd = .ok lin' ∧ CopiesDone c gates c.outputs lin'
  := by
  have hstart : CopiesDone c gates [] lin := by
    refine ⟨⟨[], h, rfl⟩, ?_⟩
    rw [houtputs]
    rfl
  rw [processOutputsEnd, h.base.circuit]
  apply Outcome.foldlM_zipIdx (CopiesDone c gates) _ hstart
  intro pre w post lin hpre h
  apply h.step hc hgates hpre

end Copies

end Linearize

end SynCirc

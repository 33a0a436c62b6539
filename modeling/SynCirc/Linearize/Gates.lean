import SynCirc.Linearize.Invariant

/-!
# The gates of the pass

`Progress c lin gates copies` says that the state `lin` has processed the gates `gates`,
each given with its temporary wire, and has made the copies `copies`.  The gates made so far
are those of any renaming `ρ` that extends the numbers handed out so far, so the statement
stays true while further wires get their numbers.  The same renamings show that the gates made
so far introduce the numbers handed out so far in order.  Every gate of the circuit extends
the progress by itself (`processGate_spec`), whatever the state it is met in.
-/

namespace SynCirc

open Zig Numbering

/-- The position `j` of `luts` belongs to the gate. -/
def Node.Covers (j : Nat) : Node → Prop
  | .lut offset _ arity _ => offset ≤ j ∧ j < offset + arity
  | _ => False

namespace Linearize

/-- The renaming `ρ` gives every mapped wire its new number. -/
def Realizes (lin : Linearize) (ρ : Nat → Nat) : Prop :=
  ∀ w, lin.Mapped w → ρ w = lin.newNumber w

/-- The position `j` of `luts` holds the new number of its wire. -/
def LutDone (c : Circuit) (lin : Linearize) (j : Nat) : Prop :=
  lin.Mapped (c.luts.getD j 0) ∧ lin.circuitLuts.cell j = lin.newNumber (c.luts.getD j 0)

theorem Realizes.of_extends {lin lin' : Linearize} {ρ : Nat → Nat}
    (h : lin'.Realizes ρ) (hext : lin.Extends lin') :
  lin.Realizes ρ
  := by
  intro w hw
  rw [h w (hext.mapped w hw), hext.newNumber w hw]

/-- The renaming and the new numbers agree on mapped wires. -/
theorem Realizes.map_eq {lin : Linearize} {ρ : Nat → Nat} (h : lin.Realizes ρ)
    {ws : List Nat} (hws : ∀ w ∈ ws, lin.Mapped w) :
  ws.map ρ = ws.map lin.newNumber
  := by
  apply List.map_congr_left
  intro w hw
  apply h w (hws w hw)

theorem LutDone.of_extends {c : Circuit} {lin lin' : Linearize} {j : Nat}
    (h : LutDone c lin j) (hext : lin.Extends lin')
    (hluts : lin'.circuitLuts.cell j = lin.circuitLuts.cell j) :
  LutDone c lin' j
  := by
  use hext.mapped _ h.1
  rw [hluts, h.2, hext.newNumber _ h.1]

/-- The state has processed the gates and made the copies. -/
structure Progress (c : Circuit) (lin : Linearize) (gates : List (Node × Nat))
    (copies : List Copy) : Prop where
  base : Invariant c lin (constantTemps gates ++ copies.map Copy.tmp)
  nodes : ∀ ρ, lin.Realizes ρ → lin.circuitNodes
    = gates.flatMap (gateNodes c ρ) ++ copies.flatMap (Copy.nodes ρ)
  mapped : ∀ g ∈ gates, ∀ w ∈ g.1.wires c.luts, lin.Mapped w
  luts : ∀ g ∈ gates, ∀ j, g.1.Covers j → LutDone c lin j
  order : ∀ ρ, lin.Realizes ρ → Introduces c.lastInner c.inputs.length
    (gates.flatMap (gateMentions c ρ) ++ copies.flatMap (Copy.mentions ρ))
    lin.nextFreeWireNumber

variable {c : Circuit} {lin lin' : Linearize} {gates : List (Node × Nat)} {temps : List Nat}

namespace Invariant

theorem addNode (h : Invariant c lin temps) (n : Node) :
  Invariant c (lin.addNode n) temps
  := { h with }

theorem setLut (h : Invariant c lin temps) (j k : Nat) :
  Invariant c { lin with circuitLuts := lin.circuitLuts.set j k } temps
  := { h with }

end Invariant

/-- Processing one more gate extends the progress. -/
theorem Progress.gate (h : Progress c lin gates []) {g : Node × Nat}
    (hbase : Invariant c lin' (constantTemps (gates ++ [g])))
    (hext : lin.Extends lin')
    (hluts : ∀ j, LutDone c lin j → LutDone c lin' j)
    (hnodes : ∀ ρ, lin'.Realizes ρ → lin'.circuitNodes = lin.circuitNodes ++ gateNodes c ρ g)
    (hmapped : ∀ w ∈ g.1.wires c.luts, lin'.Mapped w)
    (hcovers : ∀ j, g.1.Covers j → LutDone c lin' j)
    (horder : ∀ ρ, lin'.Realizes ρ → Introduces c.lastInner lin.nextFreeWireNumber
      (gateMentions c ρ g) lin'.nextFreeWireNumber) :
  Progress c lin' (gates ++ [g]) []
  := by
  constructor
  · simpa using hbase
  · intro ρ hρ
    have hbefore := h.nodes ρ (hρ.of_extends hext)
    simp only [List.flatMap_nil, List.append_nil] at hbefore
    rw [hnodes ρ hρ, hbefore]
    simp
  · intro g' hg'
    rw [List.mem_append, List.mem_singleton] at hg'
    rcases hg' with hg' | rfl
    · intro w hw
      apply hext.mapped w (h.mapped g' hg' w hw)
    · apply hmapped
  · intro g' hg'
    rw [List.mem_append, List.mem_singleton] at hg'
    rcases hg' with hg' | rfl
    · intro j hj
      apply hluts j (h.luts g' hg' j hj)
    · apply hcovers
  · intro ρ hρ
    have hbefore := h.order ρ (hρ.of_extends hext)
    simp only [List.flatMap_nil, List.append_nil] at hbefore
    simpa using hbefore.append (horder ρ hρ)

/-- The temporary wires do not change with a gate that is not a constant. -/
theorem constantTemps_append_of_not_constant {g : Node × Nat} (h : g.1.isConstant = false) :
  constantTemps (gates ++ [g]) = constantTemps gates
  := by
  simp [constantTemps, h]

/-- A constant has a temporary wire. -/
theorem constantTemps_append_of_constant {g : Node × Nat} (h : g.1.isConstant = true) :
  constantTemps (gates ++ [g]) = constantTemps gates ++ [g.2]
  := by
  simp [constantTemps, h]

/-- A gate that is not a constant and not a lookup table extends the progress, once its wires
are mapped. -/
theorem Progress.plainGate (h : Progress c lin gates []) {n m : Node}
    (hbase : Invariant c lin' (constantTemps gates)) (hext : lin.Extends lin')
    (hframe : lin.Frame lin') (hconstant : n.isConstant = false) (hlut : n.isLut = false)
    (hmapped : ∀ w ∈ n.wires c.luts, lin'.Mapped w)
    (hm : ∀ ρ, lin'.Realizes ρ → m = n.rename ρ)
    (horder : Introduces c.lastInner lin.nextFreeWireNumber
      ((n.wires c.luts).map lin'.newNumber) lin'.nextFreeWireNumber) :
  Progress c (lin'.addNode m) (gates ++ [(n, 0)]) []
  := by
  apply h.gate
  · rw [constantTemps_append_of_not_constant hconstant]
    apply hbase.addNode
  · exact ⟨hext.mapped, hext.newNumber⟩
  · intro j hj
    apply hj.of_extends ⟨hext.mapped, hext.newNumber⟩
    apply congrArg (fun b => Buffer.cell b j) hframe.luts
  · intro ρ hρ
    rw [gateNodes_of_not_constant c ρ hconstant, ← hm ρ hρ, ← hframe.nodes]
    rfl
  · apply hmapped
  · intro j hj
    cases n with
    | lut offset tableOffset arity output => contradiction
    | _ => exact hj.elim
  · intro ρ hρ
    have hρ' : lin'.Realizes ρ := hρ
    rw [gateMentions_of_not_constant c ρ hconstant, hρ'.map_eq hmapped]
    apply horder

/-! ### The gates without constants and tables -/

/-- `getMapping` on the wires in order takes `lin` to `lin'` and returns their numbers in
`lin'`. -/
def Mappings (lin : Linearize) : List Nat → Linearize → Prop
  | [], lin' => lin' = lin
  | w :: ws, lin' =>
      ∃ lin₁, lin.getMapping w = .ok (lin'.newNumber w, lin₁) ∧ lin₁.Mappings ws lin'

/-- The wires of the circuit can be mapped one after the other. -/
theorem Invariant.mappings_spec (hc : c.Renumberable) (h : Invariant c lin temps)
    (htemps : temps.length ≤ c.constantCount + c.copyCount) {ws : List Nat}
    (hws : ∀ w ∈ ws, w ≤ c.maxWireNumber) :
  ∃ lin', lin.Mappings ws lin' ∧ Invariant c lin' temps ∧ lin.Extends lin' ∧ lin.Frame lin'
    ∧ (∀ w ∈ ws, lin'.Mapped w)
    ∧ Introduces c.lastInner lin.nextFreeWireNumber (ws.map lin'.newNumber)
      lin'.nextFreeWireNumber
  := by
  induction ws generalizing lin with
  | nil =>
      use lin, rfl, h, Extends.refl lin, ⟨rfl, rfl, rfl⟩
      constructor
      · simp
      · rfl
  | cons w ws ih =>
      rw [List.forall_mem_cons] at hws
      obtain ⟨lin₁, s⟩ := h.getMapping_spec hc htemps hws.1
      obtain ⟨lin', hmaps, hbase, hext, hframe, hmapped, horder⟩ := ih s.base hws.2
      use lin'
      refine ⟨⟨lin₁, ?_, hmaps⟩, hbase, s.ext.trans hext, s.frame.trans hframe, ?_, ?_⟩
      · rw [hext.newNumber w s.mapped]
        apply s.eq
      · rw [List.forall_mem_cons]
        use hext.mapped w s.mapped
      · rw [List.map_cons, hext.newNumber w s.mapped]
        apply s.order.cons horder

/-- A gate that is not a constant and not a lookup table maps its wires and is renamed. -/
theorem processGate_of_mappings {n : Node} (hconstant : n.isConstant = false)
    (hlut : n.isLut = false) (h : lin.Mappings (n.wires c.luts) lin') :
  lin.processGate n = .ok (lin'.addNode (n.rename lin'.newNumber))
  := by
  cases n with
  | zero output => contradiction
  | one output => contradiction
  | lut offset tableOffset arity output => contradiction
  | inv input output =>
      obtain ⟨lin₁, h₁, lin₂, h₂, rfl⟩ := h
      rw [Node.output] at h₂
      simp only [processGate, h₁, h₂, Outcome.ok_bind, Outcome.pure_eq]
      rfl
  | and inputA inputB output =>
      obtain ⟨lin₁, h₁, lin₂, h₂, lin₃, h₃, rfl⟩ := h
      rw [Node.output] at h₃
      simp only [processGate, h₁, h₂, h₃, Outcome.ok_bind, Outcome.pure_eq]
      rfl
  | xor inputA inputB output =>
      obtain ⟨lin₁, h₁, lin₂, h₂, lin₃, h₃, rfl⟩ := h
      rw [Node.output] at h₃
      simp only [processGate, h₁, h₂, h₃, Outcome.ok_bind, Outcome.pure_eq]
      rfl
  | and3 inputA inputB inputC output =>
      obtain ⟨lin₁, h₁, lin₂, h₂, lin₃, h₃, lin₄, h₄, rfl⟩ := h
      rw [Node.output] at h₄
      simp only [processGate, h₁, h₂, h₃, h₄, Outcome.ok_bind, Outcome.pure_eq]
      rfl
  | and4 inputA inputB inputC inputD output =>
      obtain ⟨lin₁, h₁, lin₂, h₂, lin₃, h₃, lin₄, h₄, lin₅, h₅, rfl⟩ := h
      rw [Node.output] at h₅
      simp only [processGate, h₁, h₂, h₃, h₄, h₅, Outcome.ok_bind, Outcome.pure_eq]
      rfl

/-- The invariant before any copy is made. -/
theorem Progress.base_nil (h : Progress c lin gates []) :
  Invariant c lin (constantTemps gates)
  := by
  have hbase := h.base
  rw [List.map_nil, List.append_nil] at hbase
  apply hbase

theorem processPlain_spec (hc : c.Renumberable) (h : Progress c lin gates [])
    (htemps : (constantTemps gates).length ≤ c.constantCount + c.copyCount)
    {n : Node} (hconstant : n.isConstant = false) (hlut : n.isLut = false)
    (hwires : ∀ w ∈ n.wires c.luts, w ≤ c.maxWireNumber) :
  ∃ lin', lin.processGate n = .ok lin' ∧ Progress c lin' (gates ++ [(n, 0)]) []
    ∧ lin'.circuitOutputs = lin.circuitOutputs
  := by
  obtain ⟨lin', hmaps, hbase, hext, hframe, hmapped, horder⟩ :=
    h.base_nil.mappings_spec hc htemps hwires
  use lin'.addNode (n.rename lin'.newNumber), processGate_of_mappings hconstant hlut hmaps
  constructor
  · apply h.plainGate hbase hext hframe hconstant hlut hmapped _ horder
    intro ρ hρ
    apply Node.rename_congr
    intro w hw
    rw [hρ w (hmapped w hw)]
  · apply hframe.outputs

/-! ### Constants -/

/-- The first input of an admissible circuit. -/
theorem Invariant.index_inputs (hc : c.Renumberable) (h : Invariant c lin temps) :
  (index lin.circuit.inputs 0 : Outcome Error Nat) = .ok (c.inputs.headD 0)
    ∧ c.inputs.headD 0 ∈ c.inputs
  := by
  rw [h.circuit]
  rcases hinputs : c.inputs with _ | ⟨x, xs⟩
  · apply absurd hinputs hc.inputs_ne_nil
  · exact ⟨rfl, List.mem_cons_self⟩

/-- A constant mentions only its output, and has no lookup table. -/
theorem wires_of_isConstant {n : Node} (h : n.isConstant = true) (luts : List Nat) :
  n.wires luts = [n.output] ∧ ∀ j, ¬ n.Covers j
  := by
  cases n with
  | zero output => exact ⟨rfl, fun j hj => hj.elim⟩
  | one output => exact ⟨rfl, fun j hj => hj.elim⟩
  | _ => contradiction

/-- A constant becomes an inverter of the first input and the gate `op` of the input and the
inverter, through a temporary wire. -/
theorem processConstant_spec (hc : c.Renumberable) (h : Progress c lin gates [])
    (htemps : (constantTemps gates).length < c.constantCount)
    {n : Node} {op : Nat → Nat → Nat → Node} (hconstant : n.isConstant = true)
    (hop : ∀ ρ tmp, gateNodes c ρ (n, tmp)
      = [.inv (ρ (c.inputs.headD 0)) tmp, op (ρ (c.inputs.headD 0)) tmp (ρ n.output)])
    (hwires : ∀ w ∈ n.wires c.luts, w ≤ c.maxWireNumber) :
  ∃ lin' tmp, lin.processConstant op n.output = .ok lin'
    ∧ Progress c lin' (gates ++ [(n, tmp)]) [] ∧ lin'.circuitOutputs = lin.circuitOutputs
  := by
  have houtput : n.output ≤ c.maxWireNumber :=
    hwires n.output (List.mem_append_right _ List.mem_cons_self)
  obtain ⟨hfresh, hbase, horder⟩ := h.base_nil.getTemp_spec hc (by omega)
  have htemps' : (constantTemps gates ++ [lin.nextFreeWireNumber]).length
      ≤ c.constantCount + c.copyCount := by
    rw [List.length_append, List.length_singleton]
    omega
  obtain ⟨lin₁, s₁⟩ := hbase.getMapping_spec hc htemps' houtput
  obtain ⟨hindex₁, hx⟩ := s₁.base.index_inputs hc
  have hxle : c.inputs.headD 0 ≤ c.maxWireNumber :=
    hc.wires _ (Circuit.mem_mentioned_of_input hx)
  obtain ⟨lin₂, s₂⟩ := s₁.base.getMapping_spec hc htemps' hxle
  have hbase₂ := s₂.base.addNode
    (.inv (lin₂.newNumber (c.inputs.headD 0)) lin.nextFreeWireNumber)
  obtain ⟨hindex₂, -⟩ := hbase₂.index_inputs hc
  obtain ⟨lin₃, s₃⟩ := hbase₂.getMapping_spec hc htemps' hxle
  have hext₂ : lin₂.Extends lin₃ := ⟨s₃.ext.mapped, s₃.ext.newNumber⟩
  have hext₁ : lin₁.Extends lin₃ := s₂.ext.trans hext₂
  have hext : lin.Extends lin₃ := lin.extends_next.trans (s₁.ext.trans hext₁)
  use lin₃.addNode (op (lin₃.newNumber (c.inputs.headD 0)) lin.nextFreeWireNumber
    (lin₁.newNumber n.output)), lin.nextFreeWireNumber
  refine ⟨?_, ?_, ?_⟩
  · simp only [processConstant, hfresh, s₁.eq, hindex₁, s₂.eq, hindex₂, s₃.eq, Outcome.ok_bind,
      Outcome.pure_eq]
  · apply h.gate
    · rw [constantTemps_append_of_constant hconstant]
      apply s₃.base.addNode
    · exact ⟨hext.mapped, hext.newNumber⟩
    · intro j hj
      apply hj.of_extends ⟨hext.mapped, hext.newNumber⟩
      have hluts : lin₃.circuitLuts = lin.circuitLuts := by
        rw [s₃.frame.luts]
        apply (s₁.frame.trans s₂.frame).luts
      apply congrArg (fun b => Buffer.cell b j) hluts
    · intro ρ hρ
      have hρ₃ : lin₃.Realizes ρ := hρ
      have hnodes : lin₃.circuitNodes = lin.circuitNodes
          ++ [.inv (lin₂.newNumber (c.inputs.headD 0)) lin.nextFreeWireNumber] := by
        rw [s₃.frame.nodes, addNode, (s₁.frame.trans s₂.frame).nodes]
        rfl
      rw [hop, addNode, hnodes, hρ₃ _ s₃.mapped, hρ₃.of_extends hext₁ _ s₁.mapped,
        hext₂.newNumber _ s₂.mapped, List.append_assoc]
      rfl
    · intro w hw
      rw [(wires_of_isConstant hconstant c.luts).1, List.mem_singleton] at hw
      rw [hw]
      apply hext₁.mapped _ s₁.mapped
    · intro j hj
      apply absurd hj ((wires_of_isConstant hconstant c.luts).2 j)
    · intro ρ hρ
      have hρ₃ : lin₃.Realizes ρ := hρ
      have hlow := h.base.inputs_le
      have hρx : ρ (c.inputs.headD 0) < c.inputs.length := by
        rw [hρ₃ _ s₃.mapped]
        apply s₃.base.input_lt hx
      have hnext : (lin₃.addNode (op (lin₃.newNumber (c.inputs.headD 0))
          lin.nextFreeWireNumber (lin₁.newNumber n.output))).nextFreeWireNumber
          = lin₁.nextFreeWireNumber :=
        (s₃.next_eq_of_input hbase₂ hx).trans (s₂.next_eq_of_input s₁.base hx)
      rw [gateMentions_of_constant c ρ hconstant, hnext, hρ₃.of_extends hext₁ _ s₁.mapped]
      apply Introduces.cons (.old (.inl (Nat.lt_of_lt_of_le hρx hlow)))
      apply Introduces.cons horder
      apply Introduces.cons (.old (.inl (Nat.lt_succ_of_le
        (Nat.le_of_lt (Nat.lt_of_lt_of_le hρx hlow)))))
      apply Introduces.cons (.old (.inl (Nat.lt_succ_self _)))
      apply s₁.order
  · rw [addNode, s₃.frame.outputs, addNode, (s₁.frame.trans s₂.frame).outputs]
    rfl

/-! ### Lookup tables -/

/-- One input wire of a lookup table. -/
theorem processLutInput_spec (hc : c.Renumberable) (h : Invariant c lin temps)
    (htemps : temps.length ≤ c.constantCount + c.copyCount) {p : Nat × Nat}
    (hp : c.luts[p.2]? = some p.1) (hw : p.1 ≤ c.maxWireNumber) :
  ∃ lin', lin.processLutInput p = .ok lin' ∧ Invariant c lin' temps ∧ lin.Extends lin'
    ∧ lin'.circuitNodes = lin.circuitNodes ∧ lin'.circuitOutputs = lin.circuitOutputs
    ∧ (∀ j, LutDone c lin j → LutDone c lin' j) ∧ LutDone c lin' p.2
    ∧ Introduces c.lastInner lin.nextFreeWireNumber [lin'.newNumber p.1]
      lin'.nextFreeWireNumber
  := by
  obtain ⟨lin₁, s⟩ := h.getMapping_spec hc htemps hw
  have hlen : p.2 < lin₁.circuitLuts.len := by
    rw [s.base.luts_len]
    apply (List.getElem?_eq_some_iff.mp hp).1
  have hwire : c.luts.getD p.2 0 = p.1 := by
    rw [List.getD_eq_getElem?_getD, hp]
    rfl
  use { lin₁ with circuitLuts := lin₁.circuitLuts.set p.2 (lin₁.newNumber p.1) }
  have hself : LutDone c
      { lin₁ with circuitLuts := lin₁.circuitLuts.set p.2 (lin₁.newNumber p.1) } p.2 := by
    rw [LutDone, hwire]
    use s.mapped
    apply Function.update_self
  have hext : lin.Extends
      { lin₁ with circuitLuts := lin₁.circuitLuts.set p.2 (lin₁.newNumber p.1) } :=
    ⟨s.ext.mapped, s.ext.newNumber⟩
  refine ⟨?_, s.base.setLut _ _, hext, s.frame.nodes, s.frame.outputs, ?_, hself, s.order⟩
  · simp only [processLutInput, s.eq, Outcome.ok_bind, Outcome.pure_eq, Buffer.write_of hlen]
  · intro j hj
    by_cases hjp : j = p.2
    · rw [hjp]
      apply hself
    · apply hj.of_extends hext
      apply Eq.trans (Function.update_of_ne hjp ..)
      apply congrArg (fun b => Buffer.cell b j) s.frame.luts

/-- The input wires of a lookup table, in order. -/
theorem processLutInputs_spec (hc : c.Renumberable) (h : Invariant c lin temps)
    (htemps : temps.length ≤ c.constantCount + c.copyCount) {ps : List (Nat × Nat)}
    (hps : ∀ p ∈ ps, c.luts[p.2]? = some p.1 ∧ p.1 ≤ c.maxWireNumber) :
  ∃ lin', ps.foldlM processLutInput lin = .ok lin' ∧ Invariant c lin' temps ∧ lin.Extends lin'
    ∧ lin'.circuitNodes = lin.circuitNodes ∧ lin'.circuitOutputs = lin.circuitOutputs
    ∧ (∀ j, LutDone c lin j → LutDone c lin' j) ∧ (∀ p ∈ ps, LutDone c lin' p.2)
    ∧ Introduces c.lastInner lin.nextFreeWireNumber
      ((ps.map Prod.fst).map lin'.newNumber) lin'.nextFreeWireNumber
  := by
  induction ps generalizing lin with
  | nil =>
      use lin, rfl, h, Extends.refl lin, rfl, rfl, fun _ hj => hj
      constructor
      · simp
      · rfl
  | cons p ps ih =>
      rw [List.forall_mem_cons] at hps
      obtain ⟨lin₁, heq₁, hbase₁, hext₁, hnodes₁, houts₁, hdone₁, hp, horder₁⟩ :=
        processLutInput_spec hc h htemps hps.1.1 hps.1.2
      obtain ⟨lin', heq, hbase, hext, hnodes, houts, hdone, hps', horder⟩ := ih hbase₁ hps.2
      have hmapped : lin₁.Mapped p.1 := by
        have hwire : c.luts.getD p.2 0 = p.1 := by
          rw [List.getD_eq_getElem?_getD, hps.1.1]
          rfl
        rw [← hwire]
        apply hp.1
      use lin'
      refine ⟨?_, hbase, hext₁.trans hext, hnodes.trans hnodes₁, houts.trans houts₁,
        fun j hj => hdone j (hdone₁ j hj), ?_, ?_⟩
      · rw [List.foldlM_cons, heq₁, Outcome.ok_bind]
        apply heq
      · rw [List.forall_mem_cons]
        use hdone p.2 hp
      · rw [List.map_cons, List.map_cons, hext.newNumber p.1 hmapped]
        apply horder₁.cons horder

/-- The wire at a position of a slice of `luts`. -/
theorem getElem?_of_mem_slice {luts : List Nat} {offset arity : Nat} {p : Nat × Nat}
    (hp : p ∈ ((luts.drop offset).take arity).zipIdx offset) :
  luts[p.2]? = some p.1
  := by
  obtain ⟨hle, hget⟩ := List.mk_mem_zipIdx_iff_le_and_getElem?_sub.mp hp
  have hlt : p.2 - offset < arity := by
    have hlt := (List.getElem?_eq_some_iff.mp hget).1
    rw [List.length_take] at hlt
    omega
  rw [List.getElem?_take_of_lt hlt, List.getElem?_drop] at hget
  rw [← hget]
  congr 1
  omega

/-- A covered position of a slice of `luts`. -/
theorem mem_slice_of_covers {luts : List Nat} {offset arity j : Nat}
    (hrange : offset + arity ≤ luts.length) (hle : offset ≤ j) (hlt : j < offset + arity) :
  (luts.getD j 0, j) ∈ ((luts.drop offset).take arity).zipIdx offset
  := by
  apply List.mk_mem_zipIdx_iff_le_and_getElem?_sub.mpr
  use hle
  rw [List.getElem?_take_of_lt (by omega), List.getElem?_drop, List.getD_eq_getElem?_getD,
    Nat.add_sub_cancel' hle, List.getElem?_eq_getElem (by omega)]
  rfl

theorem processLut_spec (hc : c.Renumberable) (h : Progress c lin gates [])
    (htemps : (constantTemps gates).length ≤ c.constantCount + c.copyCount)
    {offset tableOffset arity output : Nat} (hrange : offset + arity ≤ c.luts.length)
    (hwires : ∀ w ∈ (Node.lut offset tableOffset arity output).wires c.luts,
      w ≤ c.maxWireNumber) :
  ∃ lin', lin.processLut offset tableOffset arity output = .ok lin'
    ∧ Progress c lin' (gates ++ [(.lut offset tableOffset arity output, 0)]) []
    ∧ lin'.circuitOutputs = lin.circuitOutputs
  := by
  have hps : ∀ p ∈ ((c.luts.drop offset).take arity).zipIdx offset,
      c.luts[p.2]? = some p.1 ∧ p.1 ≤ c.maxWireNumber := by
    intro p hp
    use getElem?_of_mem_slice hp
    apply hwires p.1 (List.mem_append_left _ (List.fst_mem_of_mem_zipIdx hp))
  obtain ⟨lin₁, heq₁, hbase₁, hext₁, hnodes₁, houts₁, hdone₁, hps', horder₁⟩ :=
    processLutInputs_spec hc h.base_nil htemps hps
  obtain ⟨lin₂, s⟩ := hbase₁.getMapping_spec hc htemps
    (hwires output (List.mem_append_right _ List.mem_cons_self))
  have hext : lin.Extends lin₂ := hext₁.trans s.ext
  have hdone : ∀ j, LutDone c lin₁ j → LutDone c lin₂ j := by
    intro j hj
    apply hj.of_extends s.ext
    apply congrArg (fun b => Buffer.cell b j) s.frame.luts
  have hreads : ∀ w ∈ (c.luts.drop offset).take arity, lin₁.Mapped w := by
    intro w hw
    obtain ⟨i, hi, rfl⟩ := List.mem_iff_getElem.mp hw
    rw [List.length_take, List.length_drop] at hi
    have hmem := mem_slice_of_covers (j := offset + i) hrange (by omega) (by omega)
    have hmapped := (hps' _ hmem).1
    rw [List.getD_eq_getElem?_getD, List.getElem?_eq_getElem (by omega)] at hmapped
    simp only [List.getElem_take, List.getElem_drop]
    exact hmapped
  have hmapped : ∀ w ∈ (Node.lut offset tableOffset arity output).wires c.luts,
      lin₂.Mapped w := by
    intro w hw
    rw [Node.wires, List.mem_append, List.mem_singleton] at hw
    rcases hw with hw | rfl
    · apply s.ext.mapped w (hreads w hw)
    · apply s.mapped
  use lin₂.addNode (.lut offset tableOffset arity (lin₂.newNumber output))
  refine ⟨?_, ?_, s.frame.outputs.trans houts₁⟩
  · simp only [processLut, h.base.circuit, slice_of hrange, heq₁, s.eq, Outcome.ok_bind,
      Outcome.pure_eq]
  · apply h.gate
    · rw [constantTemps_append_of_not_constant rfl]
      apply s.base.addNode
    · exact ⟨hext.mapped, hext.newNumber⟩
    · intro j hj
      apply hdone j (hdone₁ j hj)
    · intro ρ hρ
      have hρ₂ : lin₂.Realizes ρ := hρ
      rw [addNode, s.frame.nodes, hnodes₁, gateNodes_of_not_constant c ρ rfl, Node.rename,
        hρ₂ output s.mapped]
    · apply hmapped
    · rintro j ⟨hle, hlt⟩
      apply hdone j (hps' _ (mem_slice_of_covers hrange hle hlt))
    · intro ρ hρ
      have hρ₂ : lin₂.Realizes ρ := hρ
      rw [List.zipIdx_map_fst] at horder₁
      rw [gateMentions_of_not_constant c ρ rfl, Node.wires, List.map_append, Node.reads,
        (hρ₂.of_extends s.ext).map_eq hreads]
      apply horder₁.append
      rw [List.map_singleton, Node.output, hρ₂ output s.mapped]
      apply s.order

/-! ### All gates -/

/-- There is a temporary wire for every constant. -/
theorem length_constantTemps (gates : List (Node × Nat)) :
  (constantTemps gates).length = (gates.map Prod.fst).countP Node.isConstant
  := by
  rw [constantTemps, List.length_map, List.countP_map, List.countP_eq_length_filter]
  rfl

/-- A gate of the circuit extends the progress, whatever the state. -/
theorem processGate_spec (hc : c.Renumberable) (h : Progress c lin gates []) {n : Node}
    {post : List Node} (hnodes : c.nodes = gates.map Prod.fst ++ n :: post)
    (hslice : n.SliceInRange c.luts) :
  ∃ lin' tmp, lin.processGate n = .ok lin' ∧ Progress c lin' (gates ++ [(n, tmp)]) []
    ∧ lin'.circuitOutputs = lin.circuitOutputs
  := by
  have hn : n ∈ c.nodes := by
    rw [hnodes]
    apply List.mem_append_right _ List.mem_cons_self
  have hwires : ∀ w ∈ n.wires c.luts, w ≤ c.maxWireNumber := by
    intro w hw
    apply hc.wires w (Circuit.mem_mentioned_of_node hn hw)
  have hcount : (constantTemps gates).length + (n.isConstant).toNat ≤ c.constantCount := by
    rw [Circuit.constantCount, hnodes, List.countP_append, ← length_constantTemps,
      List.countP_cons]
    cases n.isConstant with
    | false => simp
    | true => simp only [Bool.toNat_true, if_true]; omega
  cases n with
  | zero output =>
      have htemps : (constantTemps gates).length < c.constantCount := hcount
      apply processConstant_spec (n := .zero output) hc h htemps rfl (fun ρ tmp => rfl) hwires
  | one output =>
      have htemps : (constantTemps gates).length < c.constantCount := hcount
      apply processConstant_spec (n := .one output) hc h htemps rfl (fun ρ tmp => rfl) hwires
  | lut offset tableOffset arity output =>
      obtain ⟨lin', h'⟩ := processLut_spec hc h (by omega) hslice hwires
      use lin', 0
      apply h'
  | _ =>
      obtain ⟨lin', h'⟩ := processPlain_spec hc h (by omega) rfl rfl hwires
      use lin', 0

/-- The pass stops at a lookup table whose input wires do not lie inside `luts`. -/
theorem processGate_of_not_slice (hcircuit : lin.circuit = c) {n : Node}
    (hslice : ¬ n.SliceInRange c.luts) :
  lin.processGate n = .panic .indexOutOfBounds
  := by
  cases n with
  | lut offset tableOffset arity output =>
      have hrange : ¬ offset + arity ≤ c.luts.length := hslice
      rw [processGate, processLut, hcircuit, slice, if_neg hrange]
      rfl
  | _ => exact absurd trivial hslice

/-- The gates of the circuit, in order: the pass processes them all, or it stops at a lookup
table whose input wires do not lie inside `luts`. -/
theorem processGates_spec (hc : c.Renumberable) (h : Progress c lin gates []) {post : List Node}
    (hnodes : c.nodes = gates.map Prod.fst ++ post) :
  (∃ lin' gates', post.foldlM processGate lin = .ok lin' ∧ Progress c lin' gates' []
    ∧ gates'.map Prod.fst = c.nodes ∧ lin'.circuitOutputs = lin.circuitOutputs
    ∧ ∀ n ∈ post, n.SliceInRange c.luts)
  ∨ (post.foldlM processGate lin = .panic .indexOutOfBounds
    ∧ ∃ n ∈ post, ¬ n.SliceInRange c.luts)
  := by
  induction post generalizing lin gates with
  | nil =>
      left
      use lin, gates, rfl, h
      rw [hnodes, List.append_nil]
      use rfl, rfl
      simp
  | cons n post ih =>
      rw [List.foldlM_cons]
      by_cases hslice : n.SliceInRange c.luts
      · obtain ⟨lin₁, tmp, heq₁, h₁, houts₁⟩ := processGate_spec hc h hnodes hslice
        have hnodes₁ : c.nodes = (gates ++ [(n, tmp)]).map Prod.fst ++ post := by
          rw [hnodes, List.map_append, List.append_assoc]
          rfl
        rw [heq₁, Outcome.ok_bind]
        rcases ih h₁ hnodes₁ with ⟨lin', gates', heq, h', hgates, houts, hslices⟩
          | ⟨heq, n', hn', hslice'⟩
        · left
          use lin', gates', heq, h', hgates, houts.trans houts₁
          rw [List.forall_mem_cons]
          use hslice
        · right
          use heq, n', List.mem_cons_of_mem n hn'
      · right
        rw [processGate_of_not_slice h.base.circuit hslice]
        use rfl, n, List.mem_cons_self

end Linearize

end SynCirc

import SynCirc.Zig.Relation
import SynCirc.Linearize.Idempotent

/-!
# Freshly allocated memory has no influence

Two runs of the pass on the same circuit that find different contents in freshly allocated memory
stay in agreement: their states differ in cells that have not been written only (`Agrees`).  None of
these cells is read, so the runs end in the same way, and with the same circuit if every position of
`luts` belongs to a gate (`run_memory`).
-/

namespace SynCirc

open Zig

namespace Linearize

/-- Two states of the pass on the circuit `c` that agree, except for the cells of `permutation` that
are not set and the cells of `circuitLuts` outside `done`. -/
structure Agrees (c : Circuit) (done : Nat → Prop) (lin lin' : Linearize) : Prop where
  circuit : lin.circuit = c
  circuit' : lin'.circuit = c
  nodes : lin'.circuitNodes = lin.circuitNodes
  inputs : lin'.circuitInputs = lin.circuitInputs
  outputs : lin'.circuitOutputs = lin.circuitOutputs
  lutTables : lin'.circuitLutTables = lin.circuitLutTables
  maxWireNumber : lin'.circuitMaxWireNumber = lin.circuitMaxWireNumber
  nextFreeWireNumber : lin'.nextFreeWireNumber = lin.nextFreeWireNumber
  permutationSet : lin'.permutationSet = lin.permutationSet
  permutation : lin.permutation.AgreesOn (fun w => lin.permutationSet.cell w = true)
    lin'.permutation
  luts_len : lin.circuitLuts.len = c.luts.length
  luts : lin.circuitLuts.AgreesOn done lin'.circuitLuts

/-- Values and states in agreement. -/
def AgreesWith (c : Circuit) (done : Nat → Prop) (s s' : Nat × Linearize) : Prop :=
  s'.1 = s.1 ∧ Agrees c done s.2 s'.2

variable {c : Circuit} {done done' : Nat → Prop} {lin lin' : Linearize}

theorem Agrees.mono (h : Agrees c done lin lin') (hdone : ∀ j, done' j → done j) :
  Agrees c done' lin lin'
  := { h with luts := h.luts.mono hdone }

theorem Agrees.addNode (h : Agrees c done lin lin') (node : Node) :
  Agrees c done (lin.addNode node) (lin'.addNode node)
  := { h with nodes := congrArg (· ++ [node]) h.nodes }

/-- Adding a mapping keeps the agreement, and the mapped wire is set. -/
theorem Agrees.addMapping (h : Agrees c done lin lin') (oldWireNumber newWireNumber : Nat) :
  Outcome.Related
    (fun s s' => Agrees c done s s' ∧ s.permutationSet.cell oldWireNumber = true)
    (lin.addMapping oldWireNumber newWireNumber) (lin'.addMapping oldWireNumber newWireNumber)
  := by
  rw [Linearize.addMapping, Linearize.addMapping, h.permutationSet]
  apply Outcome.Related.bind_self
  intro isSet
  apply Outcome.Related.bind_self
  intro _
  apply (h.permutation.write oldWireNumber newWireNumber).bind
  intro permutation permutation' hpermutation
  by_cases hlt : oldWireNumber < lin.permutationSet.len
  · rw [Buffer.write_of hlt, Outcome.ok_bind, Outcome.ok_bind]
    apply Outcome.Related.ok
    refine ⟨{ h with permutationSet := rfl, permutation := hpermutation.mono ?_ }, ?_⟩
    · intro w hw
      simp only [Buffer.set_cell, Function.update_apply] at hw
      split at hw
      case isTrue heq => exact .inl heq
      case isFalse => exact .inr hw
    · apply Function.update_self
  · rw [Buffer.write, if_neg hlt]
    apply Outcome.Related.panic

theorem Agrees.getFreshWireNumber (h : Agrees c done lin lin') :
  Outcome.Related (AgreesWith c done) lin.getFreshWireNumber lin'.getFreshWireNumber
  := by
  rw [Linearize.getFreshWireNumber, Linearize.getFreshWireNumber, h.maxWireNumber, h.circuit,
    h.circuit', h.nextFreeWireNumber]
  apply Outcome.Related.bind_self
  intro last
  apply Outcome.Related.bind_self
  intro _
  apply Outcome.Related.bind_self
  intro next
  apply Outcome.Related.ok
  exact ⟨rfl, { h with
    circuit := rfl
    circuit' := rfl
    maxWireNumber := rfl
    nextFreeWireNumber := rfl }⟩

/-- A wire is set once it has a number. -/
theorem Agrees.ensureMapping (h : Agrees c done lin lin') (oldWireNumber : Nat) :
  Outcome.Related
    (fun s s' => Agrees c done s s' ∧ s.permutationSet.cell oldWireNumber = true)
    (lin.ensureMapping oldWireNumber) (lin'.ensureMapping oldWireNumber)
  := by
  rw [Linearize.ensureMapping, Linearize.ensureMapping, h.permutationSet]
  by_cases hlt : oldWireNumber < lin.permutationSet.len
  · rw [Buffer.read_of hlt, Outcome.ok_bind, Outcome.ok_bind]
    cases hcell : lin.permutationSet.cell oldWireNumber with
    | true => exact Outcome.Related.ok ⟨h, hcell⟩
    | false =>
        apply h.getFreshWireNumber.bind
        rintro ⟨n, s⟩ ⟨n', s'⟩ ⟨heq, hagrees⟩
        obtain rfl : n' = n := heq
        apply hagrees.addMapping
  · rw [Buffer.read, if_neg hlt]
    apply Outcome.Related.panic

/-- The number of a wire is read only after it is set. -/
theorem Agrees.getMapping (h : Agrees c done lin lin') (oldWireNumber : Nat) :
  Outcome.Related (AgreesWith c done) (lin.getMapping oldWireNumber)
    (lin'.getMapping oldWireNumber)
  := by
  rw [Linearize.getMapping, Linearize.getMapping]
  apply (h.ensureMapping oldWireNumber).bind
  rintro s s' ⟨hagrees, hset⟩
  rw [hagrees.permutation.read hset]
  apply Outcome.Related.bind_self
  intro newWireNumber
  exact Outcome.Related.ok ⟨rfl, hagrees⟩

/-! ### Inputs and outputs -/

theorem Agrees.processInputs (h : Agrees c done lin lin') :
  Outcome.Related (Agrees c done) lin.processInputs lin'.processInputs
  := by
  rw [Linearize.processInputs, Linearize.processInputs, h.circuit, h.circuit']
  have hloop : Outcome.Related (Agrees c done) (c.inputs.zipIdx.foldlM processInput lin)
      (c.inputs.zipIdx.foldlM processInput lin') := by
    apply Outcome.Related.foldlM (fun _ => Agrees c done) _ h
    intro _ p _ s s' _ hs
    have happend : Agrees c done { s with circuitInputs := s.circuitInputs ++ [p.2] }
        { s' with circuitInputs := s'.circuitInputs ++ [p.2] } :=
      { hs with inputs := congrArg (· ++ [p.2]) hs.inputs }
    apply (happend.addMapping p.1 p.2).imp
    exact fun _ _ hagrees => hagrees.1
  apply hloop.bind
  intro s s' hs
  exact Outcome.Related.ok { hs with nextFreeWireNumber := by rw [hs.circuit, hs.circuit'] }

theorem Agrees.outputSlot_eq (h : Agrees c done lin lin') (i : Nat) :
  lin'.outputSlot i = lin.outputSlot i
  := by
  rw [outputSlot, outputSlot, h.maxWireNumber, h.circuit, h.circuit']

theorem Agrees.processOutputsBegin (h : Agrees c done lin lin') :
  Outcome.Related (Agrees c done) lin.processOutputsBegin lin'.processOutputsBegin
  := by
  rw [Linearize.processOutputsBegin, Linearize.processOutputsBegin, h.circuit, h.circuit']
  apply Outcome.Related.foldlM (fun _ => Agrees c done) _ h
  intro _ p _ s s' _ hs
  rw [processOutputBegin, processOutputBegin, hs.outputSlot_eq, hs.circuit, hs.circuit']
  apply Outcome.Related.bind_self
  intro newWireNumber
  split
  · apply Outcome.Related.ok hs
  split
  · apply Outcome.Related.ok hs
  apply (hs.addMapping p.1 newWireNumber).imp
  exact fun _ _ hagrees => hagrees.1

/-- Copying a wire to an output slot. -/
theorem Agrees.addCopyNode (h : Agrees c done lin lin') (inputWire outputWire : Nat) :
  Outcome.Related (Agrees c done) (lin.addCopyNode inputWire outputWire)
    (lin'.addCopyNode inputWire outputWire)
  := by
  rw [Linearize.addCopyNode, Linearize.addCopyNode]
  apply h.getFreshWireNumber.bind
  rintro ⟨tmp, s⟩ ⟨tmp', s'⟩ ⟨heq, hagrees⟩
  obtain rfl : tmp' = tmp := heq
  exact Outcome.Related.ok ((hagrees.addNode _).addNode _)

/-- Copying a wire of a list, and going on. -/
theorem Agrees.copy (h : Agrees c done lin lin') (wires : List Nat) (i outputWire : Nat)
    {next next' : Linearize → Outcome Error Linearize}
    (hnext : ∀ s s', Agrees c done s s' → Outcome.Related (Agrees c done) (next s) (next' s')) :
  Outcome.Related (Agrees c done)
    (do
      let inputWire ← index wires i
      let (inputWire, lin) ← lin.getMapping inputWire
      let lin ← lin.addCopyNode inputWire outputWire
      next lin)
    (do
      let inputWire ← index wires i
      let (inputWire, lin) ← lin'.getMapping inputWire
      let lin ← lin.addCopyNode inputWire outputWire
      next' lin)
  := by
  apply Outcome.Related.bind_self
  intro inputWire
  apply (h.getMapping inputWire).bind
  rintro ⟨n, s⟩ ⟨n', s'⟩ ⟨heq, hagrees⟩
  obtain rfl : n' = n := heq
  apply (hagrees.addCopyNode n' outputWire).bind hnext

theorem Agrees.processOutputsEnd (h : Agrees c done lin lin') :
  Outcome.Related (Agrees c done) lin.processOutputsEnd lin'.processOutputsEnd
  := by
  rw [Linearize.processOutputsEnd, Linearize.processOutputsEnd, h.circuit, h.circuit']
  apply Outcome.Related.foldlM (fun _ => Agrees c done) _ h
  intro _ p _ s s' _ hs
  rw [processOutputEnd, processOutputEnd, hs.outputSlot_eq, hs.circuit, hs.circuit']
  apply Outcome.Related.bind_self
  intro newWireNumber
  have hend : ∀ s₁ s₁', Agrees c done s₁ s₁' → Outcome.Related (Agrees c done)
      (pure { s₁ with circuitOutputs := s₁.circuitOutputs ++ [newWireNumber] } :
        Outcome Error Linearize)
      (pure { s₁' with circuitOutputs := s₁'.circuitOutputs ++ [newWireNumber] }) := by
    intro s₁ s₁' hs₁
    exact Outcome.Related.ok
      { hs₁ with outputs := congrArg (· ++ [newWireNumber]) hs₁.outputs }
  split
  · apply hs.copy _ _ _ hend
  · apply hs.copy _ _ _ hend
  · apply hend s s' hs

/-! ### Gates -/

/-- Getting the number of a wire, and going on. -/
theorem Agrees.getMapping_bind (h : Agrees c done lin lin') (oldWireNumber : Nat)
    {P : Linearize → Linearize → Prop} {next next' : Nat × Linearize → Outcome Error Linearize}
    (hnext : ∀ n s s', Agrees c done s s' → Outcome.Related P (next (n, s)) (next' (n, s'))) :
  Outcome.Related P (lin.getMapping oldWireNumber >>= next)
    (lin'.getMapping oldWireNumber >>= next')
  := by
  apply (h.getMapping oldWireNumber).bind
  rintro ⟨n, s⟩ ⟨n', s'⟩ ⟨heq, hagrees⟩
  obtain rfl : n' = n := heq
  apply hnext n' s s' hagrees

theorem Agrees.processConstant (h : Agrees c done lin lin') (op : Nat → Nat → Nat → Node)
    (output : Nat) :
  Outcome.Related (Agrees c done) (lin.processConstant op output) (lin'.processConstant op output)
  := by
  rw [Linearize.processConstant, Linearize.processConstant]
  apply h.getFreshWireNumber.bind
  rintro ⟨tmp, s₁⟩ ⟨tmp', s₁'⟩ ⟨heq, h₁⟩
  obtain rfl : tmp' = tmp := heq
  apply h₁.getMapping_bind
  intro outputWire s₂ s₂' h₂
  simp only [h₂.circuit, h₂.circuit']
  apply Outcome.Related.bind_self
  intro x
  apply h₂.getMapping_bind
  intro input s₃ s₃' h₃
  have h₄ := h₃.addNode (.inv input tmp')
  simp only [h₄.circuit, h₄.circuit']
  apply Outcome.Related.bind_self
  intro x
  apply h₄.getMapping_bind
  intro inputA s₅ s₅' h₅
  exact Outcome.Related.ok (h₅.addNode _)

theorem Agrees.processLutInput (h : Agrees c done lin lin') (p : Nat × Nat) :
  Outcome.Related (Agrees c (fun j => j = p.2 ∨ done j)) (lin.processLutInput p)
    (lin'.processLutInput p)
  := by
  rw [Linearize.processLutInput, Linearize.processLutInput]
  apply h.getMapping_bind
  intro input s s' hs
  dsimp only
  by_cases hlt : p.2 < s.circuitLuts.len
  · have hwrite := hs.luts.write (ε := Error) p.2 input
    rw [Buffer.write_of hlt, Buffer.write_of (hs.luts.len ▸ hlt)] at hwrite ⊢
    cases hwrite with
    | ok hluts => exact Outcome.Related.ok { hs with luts_len := hs.luts_len, luts := hluts }
  · rw [Buffer.write, Buffer.write, hs.luts.len, if_neg hlt, if_neg hlt]
    apply Outcome.Related.panic

/-- The input wires of a lookup table are written to its positions of `luts`. -/
theorem Agrees.processLutInputs (h : Agrees c done lin lin') (ps : List (Nat × Nat)) :
  Outcome.Related (Agrees c (fun j => j ∈ ps.map Prod.snd ∨ done j))
    (ps.foldlM Linearize.processLutInput lin) (ps.foldlM Linearize.processLutInput lin')
  := by
  apply Outcome.Related.foldlM
    (fun pre => Agrees c (fun j => j ∈ pre.map Prod.snd ∨ done j))
  · intro pre p _ s s' _ hs
    apply (hs.processLutInput p).imp
    intro t t' ht
    apply ht.mono
    intro j hj
    rw [List.map_append, List.mem_append, List.map_singleton, List.mem_singleton] at hj
    tauto
  · apply h.mono
    intro j hj
    apply hj.resolve_left List.not_mem_nil

theorem Agrees.processLut (h : Agrees c done lin lin') (offset tableOffset arity output : Nat) :
  Outcome.Related
    (Agrees c (fun j => (Node.lut offset tableOffset arity output).Covers j ∨ done j))
    (lin.processLut offset tableOffset arity output)
    (lin'.processLut offset tableOffset arity output)
  := by
  rw [Linearize.processLut, Linearize.processLut, h.circuit, h.circuit']
  by_cases hrange : offset + arity ≤ c.luts.length
  · rw [slice_of hrange, Outcome.ok_bind, Outcome.ok_bind]
    apply (h.processLutInputs _).bind
    intro s s' hs
    apply hs.getMapping_bind
    intro output t t' ht
    apply Outcome.Related.ok
    apply (ht.addNode _).mono
    rintro j (⟨hle, hlt⟩ | hj)
    · left
      apply List.mem_map.mpr
      use (c.luts.getD j 0, j)
      use mem_slice_of_covers hrange hle hlt
    · right
      apply hj
  · rw [slice, if_neg hrange]
    apply Outcome.Related.panic

/-- A gate writes the positions of `luts` that belong to it. -/
theorem Agrees.processGate (h : Agrees c done lin lin') (n : Node) :
  Outcome.Related (Agrees c (fun j => n.Covers j ∨ done j)) (lin.processGate n)
    (lin'.processGate n)
  := by
  have hsame : (∀ j, ¬ n.Covers j) → ∀ s s', Agrees c done s s' →
      Agrees c (fun j => n.Covers j ∨ done j) s s' := by
    intro hcovers s s' hs
    apply hs.mono
    intro j hj
    apply hj.resolve_left (hcovers j)
  cases n with
  | lut offset tableOffset arity output => apply h.processLut
  | zero output => apply (h.processConstant _ output).imp (hsame (by simp [Node.Covers]))
  | one output => apply (h.processConstant _ output).imp (hsame (by simp [Node.Covers]))
  | inv input output =>
      rw [Linearize.processGate, Linearize.processGate]
      apply h.getMapping_bind
      intro input s₁ s₁' h₁
      apply h₁.getMapping_bind
      intro output s₂ s₂' h₂
      exact Outcome.Related.ok (hsame (by simp [Node.Covers]) _ _ (h₂.addNode _))
  | and inputA inputB output =>
      rw [Linearize.processGate, Linearize.processGate]
      apply h.getMapping_bind
      intro inputA s₁ s₁' h₁
      apply h₁.getMapping_bind
      intro inputB s₂ s₂' h₂
      apply h₂.getMapping_bind
      intro output s₃ s₃' h₃
      exact Outcome.Related.ok (hsame (by simp [Node.Covers]) _ _ (h₃.addNode _))
  | xor inputA inputB output =>
      rw [Linearize.processGate, Linearize.processGate]
      apply h.getMapping_bind
      intro inputA s₁ s₁' h₁
      apply h₁.getMapping_bind
      intro inputB s₂ s₂' h₂
      apply h₂.getMapping_bind
      intro output s₃ s₃' h₃
      exact Outcome.Related.ok (hsame (by simp [Node.Covers]) _ _ (h₃.addNode _))
  | and3 inputA inputB inputC output =>
      rw [Linearize.processGate, Linearize.processGate]
      apply h.getMapping_bind
      intro inputA s₁ s₁' h₁
      apply h₁.getMapping_bind
      intro inputB s₂ s₂' h₂
      apply h₂.getMapping_bind
      intro inputC s₃ s₃' h₃
      apply h₃.getMapping_bind
      intro output s₄ s₄' h₄
      exact Outcome.Related.ok (hsame (by simp [Node.Covers]) _ _ (h₄.addNode _))
  | and4 inputA inputB inputC inputD output =>
      rw [Linearize.processGate, Linearize.processGate]
      apply h.getMapping_bind
      intro inputA s₁ s₁' h₁
      apply h₁.getMapping_bind
      intro inputB s₂ s₂' h₂
      apply h₂.getMapping_bind
      intro inputC s₃ s₃' h₃
      apply h₃.getMapping_bind
      intro inputD s₄ s₄' h₄
      apply h₄.getMapping_bind
      intro output s₅ s₅' h₅
      exact Outcome.Related.ok (hsame (by simp [Node.Covers]) _ _ (h₅.addNode _))

/-- The gates write the positions of `luts` that belong to them. -/
theorem Agrees.processGates (h : Agrees c (fun _ => False) lin lin') :
  Outcome.Related (Agrees c (fun j => ∃ n ∈ c.nodes, n.Covers j)) lin.processGates
    lin'.processGates
  := by
  rw [Linearize.processGates, Linearize.processGates, h.circuit, h.circuit']
  apply Outcome.Related.foldlM (fun pre : List Node => Agrees c (fun j => ∃ n ∈ pre, n.Covers j))
  · intro pre n _ s s' _ hs
    apply (hs.processGate n).imp
    intro t t' ht
    apply ht.mono
    rintro j ⟨m, hm, hcovers⟩
    rw [List.mem_append, List.mem_singleton] at hm
    rcases hm with hm | rfl
    · exact .inr ⟨m, hm, hcovers⟩
    · exact .inl hcovers
  · apply h.mono
    rintro j ⟨_, hm, _⟩
    cases hm

/-! ### The pass -/

/-- The states two runs begin with. -/
theorem agrees_init (memory memory' : Memory) (c : Circuit) :
  Agrees c (fun _ => False) (init memory c) (init memory' c)
  where
    circuit := rfl
    circuit' := rfl
    nodes := rfl
    inputs := rfl
    outputs := rfl
    lutTables := rfl
    maxWireNumber := rfl
    nextFreeWireNumber := rfl
    permutationSet := rfl
    permutation := ⟨rfl, fun _ h => absurd h Bool.false_ne_true⟩
    luts_len := rfl
    luts := ⟨rfl, fun _ h => h.elim⟩

/-- If every position of `luts` belongs to a gate, the runs of the pass end in the same way. -/
theorem related_run (hcover : c.LutsCovered) (memory memory' : Memory) :
  Outcome.Related (fun c₂ c₂' => c₂' = c₂) (run memory c) (run memory' c)
  := by
  rw [run, run]
  apply Outcome.Related.bind_self
  intro _
  apply Outcome.Related.bind_self
  intro _
  apply (agrees_init memory memory' c).processInputs.bind
  intro lin₁ lin₁' h₁
  apply h₁.processOutputsBegin.bind
  intro lin₂ lin₂' h₂
  apply h₂.processGates.bind
  intro lin₃ lin₃' h₃
  apply h₃.processOutputsEnd.bind
  intro lin₄ lin₄' h₄
  apply Outcome.Related.ok
  have hluts : lin₄'.circuitLuts.toList = lin₄.circuitLuts.toList := by
    apply h₄.luts.toList_eq
    rw [h₄.luts_len]
    apply hcover
  rw [h₄.nodes, h₄.inputs, h₄.outputs, h₄.lutTables, h₄.maxWireNumber, hluts]

/-- What freshly allocated memory holds influences neither how the pass ends nor, if every position
of `luts` belongs to a gate, the circuit it returns. -/
theorem run_memory (hcover : c.LutsCovered) (memory memory' : Memory) :
  run memory' c = run memory c
  := (related_run hcover memory memory').eq

theorem run_memory_aliased :
  Circuit.aliased.LutsCovered
    ∧ run ⟨fun w => w + 7, fun j => 2 * j⟩ Circuit.aliased = run (.filled 0) Circuit.aliased
  := ⟨Circuit.aliased_lutsCovered, run_memory Circuit.aliased_lutsCovered _ _⟩

end Linearize

end SynCirc

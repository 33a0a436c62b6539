import SynCirc.Linearize.Budget
import SynCirc.Numbering.Basic
import Mathlib.Data.Set.Function

/-!
# Linear layouts

A layout of a circuit `c` is what the pass decides: the new numbers of the mentioned wires,
a temporary wire for every constant gate, and a temporary wire and an output slot for every
copied output.  The new numbers fall into three ranges: the inputs are `0, 1, …` in order,
the outputs are the last numbers up to `wireBudget`, and the other wires and the temporaries
share the numbers in between without overlap.  `Layout.circuit` is the linearized circuit
with the given layout.  The layout is `Ordered` if that circuit mentions the numbers in between
for the first time one after the other.
-/

namespace SynCirc

namespace Node

/-- The gate with its wires renamed, except for the input wires of a lookup table, which
are in `luts`. -/
def rename (ρ : Nat → Nat) : Node → Node
  | .zero output => .zero (ρ output)
  | .one output => .one (ρ output)
  | .inv input output => .inv (ρ input) (ρ output)
  | .and inputA inputB output => .and (ρ inputA) (ρ inputB) (ρ output)
  | .and3 inputA inputB inputC output => .and3 (ρ inputA) (ρ inputB) (ρ inputC) (ρ output)
  | .and4 inputA inputB inputC inputD output =>
      .and4 (ρ inputA) (ρ inputB) (ρ inputC) (ρ inputD) (ρ output)
  | .xor inputA inputB output => .xor (ρ inputA) (ρ inputB) (ρ output)
  | .lut offset tableOffset arity output => .lut offset tableOffset arity (ρ output)

theorem output_rename (ρ : Nat → Nat) (n : Node) :
  (n.rename ρ).output = ρ n.output
  := by
  cases n <;> rfl

/-- Renamings that agree on the wires of a gate rename it in the same way. -/
theorem rename_congr {ρ ρ' : Nat → Nat} {luts : List Nat} {n : Node}
    (h : ∀ w ∈ n.wires luts, ρ w = ρ' w) :
  n.rename ρ = n.rename ρ'
  := by
  cases n with
  | lut offset tableOffset arity output =>
      rw [rename, rename, h output (List.mem_append_right _ List.mem_cons_self)]
  | _ =>
      simp only [wires, reads, Node.output, List.cons_append, List.nil_append,
        List.forall_mem_cons] at h
      simp only [rename, h]

end Node

namespace Circuit

variable (c : Circuit)

/-- The largest number before the output slots. -/
def lastInner : Nat := c.wireBudget - c.outputs.length

/-- The new number of the output at position `i`. -/
def slot (i : Nat) : Nat := c.lastInner + i + 1

end Circuit

/-- A copy of the wire `source` to the output slot `slot`. -/
structure Copy where
  source : Nat
  tmp : Nat
  slot : Nat

/-- The two inverters of a copy. -/
def Copy.nodes (ρ : Nat → Nat) (k : Copy) : List Node :=
  [.inv (ρ k.source) k.tmp, .inv k.tmp k.slot]

/-- The wires the two inverters of a copy mention, in order. -/
def Copy.mentions (ρ : Nat → Nat) (k : Copy) : List Nat :=
  [ρ k.source, k.tmp, k.tmp, k.slot]

namespace Linearize

/-- The gates that stand for a gate of `c`, with the temporary wire of a constant. -/
def gateNodes (c : Circuit) (ρ : Nat → Nat) : Node × Nat → List Node
  | (.zero output, tmp) =>
      [.inv (ρ (c.inputs.headD 0)) tmp, .and (ρ (c.inputs.headD 0)) tmp (ρ output)]
  | (.one output, tmp) =>
      [.inv (ρ (c.inputs.headD 0)) tmp, .xor (ρ (c.inputs.headD 0)) tmp (ρ output)]
  | (n, _) => [n.rename ρ]

/-- A gate that is not a constant stands for itself. -/
theorem gateNodes_of_not_constant (c : Circuit) (ρ : Nat → Nat) {g : Node × Nat}
    (h : g.1.isConstant = false) :
  gateNodes c ρ g = [g.1.rename ρ]
  := by
  obtain ⟨n, tmp⟩ := g
  cases n with
  | zero output => contradiction
  | one output => contradiction
  | _ => rfl

/-- A gate with two input wires. -/
structure IsTwoInput (op : Nat → Nat → Nat → Node) : Prop where
  reads : ∀ luts a b o, (op a b o).reads luts = [a, b]
  output : ∀ a b o, (op a b o).output = o
  isConstant : ∀ a b o, (op a b o).isConstant = false
  isLut : ∀ a b o, (op a b o).isLut = false

/-- The two gates that stand for a constant. -/
theorem gateNodes_of_constant (c : Circuit) (ρ : Nat → Nat) {g : Node × Nat}
    (h : g.1.isConstant = true) :
  ∃ op, IsTwoInput op ∧ gateNodes c ρ g
    = [.inv (ρ (c.inputs.headD 0)) g.2, op (ρ (c.inputs.headD 0)) g.2 (ρ g.1.output)]
  := by
  obtain ⟨n, tmp⟩ := g
  cases n with
  | zero output => exact ⟨.and, ⟨by simp [Node.reads], by simp [Node.output],
      by simp [Node.isConstant], by simp [Node.isLut]⟩, rfl⟩
  | one output => exact ⟨.xor, ⟨by simp [Node.reads], by simp [Node.output],
      by simp [Node.isConstant], by simp [Node.isLut]⟩, rfl⟩
  | _ => contradiction

/-- The wires the gates that stand for a gate of `c` mention, in order. -/
def gateMentions (c : Circuit) (ρ : Nat → Nat) : Node × Nat → List Nat
  | (.zero output, tmp) => [ρ (c.inputs.headD 0), tmp, ρ (c.inputs.headD 0), tmp, ρ output]
  | (.one output, tmp) => [ρ (c.inputs.headD 0), tmp, ρ (c.inputs.headD 0), tmp, ρ output]
  | (n, _) => (n.wires c.luts).map ρ

/-- A gate that is not a constant mentions its wires. -/
theorem gateMentions_of_not_constant (c : Circuit) (ρ : Nat → Nat) {g : Node × Nat}
    (h : g.1.isConstant = false) :
  gateMentions c ρ g = (g.1.wires c.luts).map ρ
  := by
  obtain ⟨n, tmp⟩ := g
  cases n with
  | zero output => contradiction
  | one output => contradiction
  | _ => rfl

/-- A constant mentions the first input, the temporary wire and its output. -/
theorem gateMentions_of_constant (c : Circuit) (ρ : Nat → Nat) {g : Node × Nat}
    (h : g.1.isConstant = true) :
  gateMentions c ρ g
    = [ρ (c.inputs.headD 0), g.2, ρ (c.inputs.headD 0), g.2, ρ g.1.output]
  := by
  obtain ⟨n, tmp⟩ := g
  cases n with
  | zero output => rfl
  | one output => rfl
  | _ => contradiction

/-- The temporary wires of the constants. -/
def constantTemps (gates : List (Node × Nat)) : List Nat :=
  (gates.filter (fun g => g.1.isConstant)).map Prod.snd

end Linearize

open Linearize Numbering

/-- A layout of the circuit `c`. -/
structure Layout (c : Circuit) where
  rename : Nat → Nat
  gates : List (Node × Nat)
  copies : List Copy
  luts : List Nat
  gates_nodes : gates.map Prod.fst = c.nodes
  copies_eq : copies.map (fun k => (k.source, k.slot))
    = (c.outputs.zipIdx.filter c.isCopy).map (fun p => (p.1, c.slot p.2))
  luts_length : luts.length = c.luts.length
  reads_rename : ∀ n ∈ c.nodes, (n.rename rename).reads luts = (n.reads c.luts).map rename
  rename_inputs : c.inputs.map rename = List.range c.inputs.length
  rename_output : ∀ w ∈ c.outputs, w ∉ c.inputs → rename w = c.slot (c.outputs.idxOf w)
  rename_inner : ∀ w ∈ c.mentioned, w ∉ c.inputs → w ∉ c.outputs →
    c.inputs.length ≤ rename w ∧ rename w ≤ c.lastInner
  rename_injOn : Set.InjOn rename {w | w ∈ c.mentioned}
  temps_nodup : (constantTemps gates ++ copies.map Copy.tmp).Nodup
  temps_inner : ∀ t ∈ constantTemps gates ++ copies.map Copy.tmp,
    c.inputs.length ≤ t ∧ t ≤ c.lastInner
  temps_fresh : ∀ t ∈ constantTemps gates ++ copies.map Copy.tmp, ∀ w ∈ c.mentioned,
    rename w ≠ t

namespace Layout

variable {c : Circuit} (L : Layout c)

/-- The gates of the linearized circuit that stand for the gates of `c`. -/
def body : List Node := L.gates.flatMap (gateNodes c L.rename)

/-- The gates of the linearized circuit that copy outputs. -/
def tail : List Node := L.copies.flatMap (Copy.nodes L.rename)

/-- The wires the gates of the linearized circuit mention, in order. -/
def mentions : List Nat :=
  L.gates.flatMap (gateMentions c L.rename) ++ L.copies.flatMap (Copy.mentions L.rename)

/-- The gates of the linearized circuit introduce the numbers between the inputs and the
output slots in order. -/
def Ordered : Prop := ∃ m, Introduces c.lastInner c.inputs.length L.mentions m

/-- The linearized circuit. -/
def circuit : Circuit where
  nodes := L.body ++ L.tail
  luts := L.luts
  inputs := List.range c.inputs.length
  outputs := (List.range c.outputs.length).map c.slot
  lutTables := c.lutTables
  maxWireNumber := c.wireBudget

end Layout

end SynCirc

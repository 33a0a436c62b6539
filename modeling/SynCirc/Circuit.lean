import Mathlib.Algebra.Group.Nat.Defs
import Mathlib.Data.List.Basic

/-!
# Circuits

A circuit is a list of gates over numbered wires.  A lookup table gate refers to its input
wires by a slice of `luts` and to its truth table by a slice of `lutTables`.

Wire numbers are natural numbers.  The source keeps them in 64 bits, and its sums of wire
numbers stop at an overflow: in the parsers, in the header of the Bristol format, for the
tables of `maxWireNumber + 1` entries, for the wires that linearization adds and for the
offsets of the builder.  These checks are part of the model.
-/

namespace SynCirc

/-- The gates, each with its data. -/
inductive Node where
  | zero (output : Nat)
  | one (output : Nat)
  | inv (input output : Nat)
  | and (inputA inputB output : Nat)
  | and3 (inputA inputB inputC output : Nat)
  | and4 (inputA inputB inputC inputD output : Nat)
  | xor (inputA inputB output : Nat)
  | lut (offset tableOffset arity output : Nat)
  deriving DecidableEq, Repr

/-- A circuit: its gates in order, the input wires of its lookup tables, its input and
output wires, the truth tables, and its largest wire number. -/
structure Circuit where
  nodes : List Node
  luts : List Nat
  inputs : List Nat
  outputs : List Nat
  lutTables : List Bool
  maxWireNumber : Nat
  deriving DecidableEq, Repr

namespace Node

/-- The wire a gate drives. -/
def output : Node → Nat
  | .zero output => output
  | .one output => output
  | .inv _ output => output
  | .and _ _ output => output
  | .and3 _ _ _ output => output
  | .and4 _ _ _ _ output => output
  | .xor _ _ output => output
  | .lut _ _ _ output => output

/-- The wires a gate reads, when its lookup table inputs are in `luts`. -/
def reads (luts : List Nat) : Node → List Nat
  | .zero _ => []
  | .one _ => []
  | .inv input _ => [input]
  | .and inputA inputB _ => [inputA, inputB]
  | .and3 inputA inputB inputC _ => [inputA, inputB, inputC]
  | .and4 inputA inputB inputC inputD _ => [inputA, inputB, inputC, inputD]
  | .xor inputA inputB _ => [inputA, inputB]
  | .lut offset _ arity _ => (luts.drop offset).take arity

/-- The wires a gate mentions. -/
def wires (luts : List Nat) (n : Node) : List Nat :=
  n.reads luts ++ [n.output]

/-- The gate is a constant. -/
def isConstant : Node → Bool
  | .zero _ => true
  | .one _ => true
  | _ => false

/-- The gate is a lookup table. -/
def isLut : Node → Bool
  | .lut _ _ _ _ => true
  | _ => false

/-- The slices of a lookup table lie inside `luts` and `lutTables`. -/
def LutInRange (luts : List Nat) (lutTables : List Bool) : Node → Prop
  | .lut offset tableOffset arity _ =>
      offset + arity ≤ luts.length ∧ tableOffset + 2 ^ arity ≤ lutTables.length
  | _ => True

instance (luts : List Nat) (lutTables : List Bool) (n : Node) :
    Decidable (n.LutInRange luts lutTables) :=
  match n with
  | .lut offset tableOffset arity _ =>
      inferInstanceAs (Decidable
        (offset + arity ≤ luts.length ∧ tableOffset + 2 ^ arity ≤ lutTables.length))
  | .zero _ | .one _ | .inv _ _ | .and _ _ _ | .and3 _ _ _ _ | .and4 _ _ _ _ _ | .xor _ _ _ =>
      isTrue trivial

/-- The input wires of a lookup table lie inside `luts`. -/
def SliceInRange (luts : List Nat) : Node → Prop
  | .lut offset _ arity _ => offset + arity ≤ luts.length
  | _ => True

/-- The length of the truth table fits in a machine word. -/
def arityFits : Node → Bool
  | .lut _ _ arity _ => arity < 64
  | _ => true

theorem arityFits_of_not_lut {n : Node} (h : n.isLut = false) :
  n.arityFits = true
  := by
  cases n <;> first | rfl | contradiction

/-- Every gate of the list reads only wires of `known` and outputs of earlier gates of the
list. -/
def ReadFrom (luts : List Nat) : List Nat → List Node → Prop
  | _, [] => True
  | known, n :: ns => (∀ w ∈ n.reads luts, w ∈ known) ∧ ReadFrom luts (n.output :: known) ns

end Node

namespace Circuit

/-- The wires mentioned by the inputs, the outputs and the gates. -/
def mentioned (c : Circuit) : List Nat :=
  c.inputs ++ c.outputs ++ c.nodes.flatMap (Node.wires c.luts)

/-- Every mentioned wire number is at most `maxWireNumber`, and the lookup table slices lie
inside `luts` and `lutTables`. -/
structure InRange (c : Circuit) : Prop where
  wires : ∀ w ∈ c.mentioned, w ≤ c.maxWireNumber
  luts : ∀ n ∈ c.nodes, n.LutInRange c.luts c.lutTables

/-- The circuits whose wires `Linearize.run` can renumber: there is an input, the inputs are
distinct, and every mentioned wire number is at most `maxWireNumber`. -/
structure Renumberable (c : Circuit) : Prop where
  wires : ∀ w ∈ c.mentioned, w ≤ c.maxWireNumber
  inputs_ne_nil : c.inputs ≠ []
  inputs_nodup : c.inputs.Nodup

/-- The circuits `Linearize.run` accepts. -/
structure Admissible (c : Circuit) : Prop extends c.InRange where
  inputs_ne_nil : c.inputs ≠ []
  inputs_nodup : c.inputs.Nodup

/-- No two gates drive the same wire, and no gate drives an input. -/
structure SingleDriver (c : Circuit) : Prop where
  outputs_nodup : (c.nodes.map Node.output).Nodup
  inputs_undriven : ∀ n ∈ c.nodes, n.output ∉ c.inputs

/-- Every gate reads only inputs and outputs of earlier gates. -/
def Topological (c : Circuit) : Prop := Node.ReadFrom c.luts c.inputs c.nodes

/-- The wire is an input or the output of a gate. -/
def Driven (c : Circuit) (w : Nat) : Prop := w ∈ c.inputs ∨ w ∈ c.nodes.map Node.output

/-- Every wire has one driver, the gates are in topological order and the outputs are
driven. -/
structure Wired (c : Circuit) : Prop extends c.SingleDriver where
  topological : c.Topological
  outputs_driven : ∀ w ∈ c.outputs, c.Driven w

/-- The mentioned wire numbers fit in a machine word. -/
def WiresFit (c : Circuit) : Prop := ∀ w ∈ c.mentioned, w < 2 ^ 64

/-- The largest mentioned wire number, or 0 if there is none. -/
def maxMentioned (c : Circuit) : Nat := c.mentioned.foldl max 0

/-- The circuit has no lookup tables. -/
def LutFree (c : Circuit) : Prop := ∀ n ∈ c.nodes, n.isLut = false

/-- A circuit without gates, whose output is its input, with the given largest wire number. -/
def relay (maxWireNumber : Nat) : Circuit where
  nodes := []
  luts := []
  inputs := [0]
  outputs := [0]
  lutTables := []
  maxWireNumber := maxWireNumber

theorem Admissible.renumberable {c : Circuit} (hc : c.Admissible) :
  c.Renumberable
  := ⟨hc.wires, hc.inputs_ne_nil, hc.inputs_nodup⟩

/-- The input wires of the lookup tables lie inside `luts`. -/
theorem InRange.sliceInRange {c : Circuit} (hc : c.InRange) {n : Node} (hn : n ∈ c.nodes) :
  n.SliceInRange c.luts
  := by
  have hrange := hc.luts n hn
  cases n with
  | lut offset tableOffset arity output => exact hrange.1
  | _ => trivial

theorem mem_mentioned_of_input {c : Circuit} {w : Nat} (h : w ∈ c.inputs) :
  w ∈ c.mentioned
  := by
  simp [mentioned, h]

theorem mem_mentioned_of_output {c : Circuit} {w : Nat} (h : w ∈ c.outputs) :
  w ∈ c.mentioned
  := by
  simp [mentioned, h]

theorem mem_mentioned_of_node {c : Circuit} {n : Node} {w : Nat}
    (hn : n ∈ c.nodes) (h : w ∈ n.wires c.luts) :
  w ∈ c.mentioned
  := by
  simp only [mentioned, List.mem_append, List.mem_flatMap]
  right
  use n

/-- The largest of numbers and a bound. -/
theorem le_foldl_max {ws : List Nat} {w : Nat} (hw : w ∈ ws) (a : Nat) :
  w ≤ ws.foldl max a
  := by
  have hfold : ∀ (ws : List Nat) (a : Nat), a ≤ ws.foldl max a ∧ ∀ w ∈ ws, w ≤ ws.foldl max a := by
    intro ws
    induction ws with
    | nil => simp
    | cons x ws ih =>
        intro a
        obtain ⟨hmax, hle⟩ := ih (max a x)
        rw [List.foldl_cons, List.forall_mem_cons]
        exact ⟨by omega, by omega, hle⟩
  apply (hfold ws a).2 w hw

theorem foldl_max_lt {ws : List Nat} {a bound : Nat} (ha : a < bound) (hws : ∀ w ∈ ws, w < bound) :
  ws.foldl max a < bound
  := by
  induction ws generalizing a with
  | nil => apply ha
  | cons w ws ih =>
      rw [List.forall_mem_cons] at hws
      apply ih (Nat.max_lt.mpr ⟨ha, hws.1⟩) hws.2

theorem le_maxMentioned {c : Circuit} {w : Nat} (hw : w ∈ c.mentioned) :
  w ≤ c.maxMentioned
  := le_foldl_max hw 0

end Circuit

end SynCirc

import SynCirc.Zig.Outcome
import SynCirc.StraightLine.Basic
import SynCirc.Circuit

/-!
# Evaluation of circuits

`evaluateCircuit` sweeps over the gates once, with the values of the wires in a bit set of
`maxWireNumber + 1` bits that are all unset at the beginning.  The number of bits is a sum
in 64 bits.  Every access to the bit set, to `luts` and to `lutTables` is checked.

A gate is an assignment: it reads the wires `Node.reads`, applies the Boolean function
`Node.fn` and drives `Node.output`.  For a circuit in range whose bits can be numbered,
`evaluateCircuit` runs the straight-line program of its gates (`evaluateCircuit_eq`), unless
some lookup table has more than 63 inputs.
-/

namespace SynCirc

open Zig StraightLine

namespace EvalCircuit

/-- The errors of the evaluation. -/
inductive Error where
  | invalidNumberOfInputs
  deriving DecidableEq, Repr

/-- The values of the wires. -/
abbrev WireValues := Buffer Bool

variable (c : Circuit) (wireValues : WireValues)

def evalConstant (value : Bool) (output : Nat) : Outcome Error WireValues :=
  wireValues.write output value

def evalOneInput (op : Bool → Bool) (input output : Nat) : Outcome Error WireValues := do
  let input ← wireValues.read input
  wireValues.write output (op input)

def evalTwoInput (op : Bool → Bool → Bool) (inputA inputB output : Nat) :
    Outcome Error WireValues := do
  let inputA ← wireValues.read inputA
  let inputB ← wireValues.read inputB
  wireValues.write output (op inputA inputB)

def evalThreeInput (op : Bool → Bool → Bool → Bool) (inputA inputB inputC output : Nat) :
    Outcome Error WireValues := do
  let inputA ← wireValues.read inputA
  let inputB ← wireValues.read inputB
  let inputC ← wireValues.read inputC
  wireValues.write output (op inputA inputB inputC)

def evalFourInput (op : Bool → Bool → Bool → Bool → Bool)
    (inputA inputB inputC inputD output : Nat) : Outcome Error WireValues := do
  let inputA ← wireValues.read inputA
  let inputB ← wireValues.read inputB
  let inputC ← wireValues.read inputC
  let inputD ← wireValues.read inputD
  wireValues.write output (op inputA inputB inputC inputD)

/-- `index |= bit << i` for the `i`-th of the values, starting at the position `i`. -/
def indexFrom : Nat → Nat → List Bool → Nat
  | _, index, [] => index
  | i, index, bit :: bits => indexFrom (i + 1) (index ||| (bit.toNat <<< i)) bits

/-- The index into the truth table given by the values of the inputs. -/
def indexIntoTable (bits : List Bool) : Nat := indexFrom 0 0 bits

def evalLut (offset tableOffset arity output : Nat) : Outcome Error WireValues := do
  let inputWires ← slice c.luts offset arity
  check .castOutOfRange (arity < 64)
  let table ← slice c.lutTables tableOffset (1 <<< arity)
  let inputs ← inputWires.mapM wireValues.read
  let bit ← index table (indexIntoTable inputs)
  wireValues.write output bit

/-- The evaluation of one gate. -/
def evalNode : Node → Outcome Error WireValues
  | .zero output => evalConstant wireValues false output
  | .one output => evalConstant wireValues true output
  | .inv input output => evalOneInput wireValues (! ·) input output
  | .and inputA inputB output => evalTwoInput wireValues (· && ·) inputA inputB output
  | .xor inputA inputB output => evalTwoInput wireValues (· != ·) inputA inputB output
  | .and3 inputA inputB inputC output =>
      evalThreeInput wireValues (· && · && ·) inputA inputB inputC output
  | .and4 inputA inputB inputC inputD output =>
      evalFourInput wireValues (· && · && · && ·) inputA inputB inputC inputD output
  | .lut offset tableOffset arity output =>
      evalLut c wireValues offset tableOffset arity output

/-- The evaluation of the gates, in order. -/
def evalCircuit : Outcome Error WireValues :=
  c.nodes.foldlM (evalNode c) wireValues

/-- The wires after setting every input wire to its bit. -/
def setInputs (inputs : List Bool) : Outcome Error WireValues :=
  (c.inputs.zip inputs).foldlM (fun wireValues p => wireValues.write p.1 p.2) wireValues

/-- The values of all wires on the given input bits. -/
def evalWires (inputs : List Bool) : Outcome Error WireValues := do
  let wires ← add c.maxWireNumber 1
  let wireValues := Buffer.filled wires false
  if inputs.length ≠ c.inputs.length then .error .invalidNumberOfInputs else
  let wireValues ← setInputs c wireValues inputs
  evalCircuit c wireValues

end EvalCircuit

open EvalCircuit in
/-- The output bits of a circuit on the given input bits. -/
def evaluateCircuit (c : Circuit) (inputs : List Bool) :
    Outcome EvalCircuit.Error (List Bool) := do
  let wireValues ← evalWires c inputs
  c.outputs.mapM wireValues.read

/-! ### Gates as assignments -/

namespace Node

/-- The Boolean function of a gate, on the values of the wires it reads. -/
def fn (lutTables : List Bool) : Node → List Bool → Bool
  | .zero _, _ => false
  | .one _, _ => true
  | .inv _ _, [a] => !a
  | .and _ _ _, [a, b] => a && b
  | .xor _ _ _, [a, b] => a != b
  | .and3 _ _ _ _, [a, b, c] => a && b && c
  | .and4 _ _ _ _ _, [a, b, c, d] => a && b && c && d
  | .lut _ tableOffset _ _, bits =>
      lutTables.getD (tableOffset + EvalCircuit.indexIntoTable bits) false
  | _, _ => false

/-- A gate as an assignment. -/
def assignment (luts : List Nat) (lutTables : List Bool) (n : Node) :
    Assignment Nat Bool :=
  ⟨n.reads luts, n.fn lutTables, n.output⟩

/-- The evaluation of a gate over `len` wires finds everything it accesses. -/
structure Evaluable (c : Circuit) (len : Nat) (n : Node) : Prop where
  wires : ∀ w ∈ n.wires c.luts, w < len
  lut : n.LutInRange c.luts c.lutTables
  fits : n.arityFits = true

end Node

namespace EvalCircuit

/-- The index grows by at most one bit for each value. -/
theorem indexFrom_lt (bits : List Bool) {i index : Nat} (h : index < 2 ^ i) :
  indexFrom i index bits < 2 ^ (i + bits.length)
  := by
  induction bits generalizing i index with
  | nil => apply h
  | cons bit bits ih =>
      have hbit : bit.toNat <<< i < 2 ^ (i + 1) := by
        rw [Nat.shiftLeft_eq, Nat.pow_succ, Nat.mul_comm]
        apply Nat.mul_lt_mul_of_pos_left (Bool.toNat_lt bit) (Nat.two_pow_pos i)
      have hindex : index < 2 ^ (i + 1) :=
        Nat.lt_of_lt_of_le h (Nat.pow_le_pow_right (by decide) (Nat.le_succ i))
      have hnext := ih (Nat.or_lt_two_pow hindex hbit)
      rw [List.length_cons, Nat.add_comm bits.length 1, ← Nat.add_assoc]
      apply hnext

/-- The index into the truth table lies inside the table. -/
theorem indexIntoTable_lt (bits : List Bool) :
  indexIntoTable bits < 2 ^ bits.length
  := by
  have h : indexFrom 0 0 bits < 2 ^ (0 + bits.length) := indexFrom_lt bits (by decide)
  rw [Nat.zero_add] at h
  apply h

variable {c : Circuit} {wireValues : WireValues}

/-- Evaluating a lookup table in range executes its assignment, unless the table is too
long. -/
theorem evalLut_eq {offset tableOffset arity output : Nat}
    (hluts : offset + arity ≤ c.luts.length)
    (htable : tableOffset + 2 ^ arity ≤ c.lutTables.length)
    (hwires : ∀ w ∈ (Node.lut offset tableOffset arity output).wires c.luts,
      w < wireValues.len) :
  evalLut c wireValues offset tableOffset arity output
    = if arity < 64 then
        .ok ⟨wireValues.len, exec wireValues.cell
          ((Node.lut offset tableOffset arity output).assignment c.luts c.lutTables)⟩
      else .panic .castOutOfRange
  := by
  have hreads : ∀ w ∈ (c.luts.drop offset).take arity, w < wireValues.len :=
    fun w hw => hwires w (List.mem_append_left _ hw)
  have houtput : output < wireValues.len :=
    hwires output (List.mem_append_right _ List.mem_cons_self)
  rw [evalLut, slice_of hluts, Outcome.ok_bind]
  by_cases harity : arity < 64
  · have hlength : ((c.luts.drop offset).take arity).length = arity := by
      rw [List.length_take, List.length_drop]
      omega
    have hindex := indexIntoTable_lt (((c.luts.drop offset).take arity).map wireValues.cell)
    rw [List.length_map, hlength] at hindex
    have hbit : (index ((c.lutTables.drop tableOffset).take (2 ^ arity))
        (indexIntoTable (((c.luts.drop offset).take arity).map wireValues.cell))
          : Outcome Error Bool)
        = .ok (c.lutTables.getD (tableOffset
          + indexIntoTable (((c.luts.drop offset).take arity).map wireValues.cell)) false) := by
      rw [index, List.getElem?_take_of_lt hindex, List.getElem?_drop, List.getD_eq_getElem?_getD,
        List.getElem?_eq_getElem (by omega)]
      rfl
    rw [check_of harity, Outcome.ok_bind, Nat.one_shiftLeft, slice_of htable, Outcome.ok_bind,
      Buffer.mapM_read hreads, Outcome.ok_bind, hbit, Outcome.ok_bind,
      Buffer.write_of houtput, if_pos harity]
    rfl
  · rw [check_not harity, if_neg harity]
    rfl

/-- Evaluating a gate in range executes its assignment, unless it is a lookup table that is
too long. -/
theorem evalNode_eq {n : Node} (hlut : n.LutInRange c.luts c.lutTables)
    (hwires : ∀ w ∈ n.wires c.luts, w < wireValues.len) :
  evalNode c wireValues n
    = if n.arityFits then
        .ok ⟨wireValues.len, exec wireValues.cell (n.assignment c.luts c.lutTables)⟩
      else .panic .castOutOfRange
  := by
  have houtput : n.output < wireValues.len :=
    hwires n.output (List.mem_append_right _ List.mem_cons_self)
  have hreads : ∀ w ∈ n.reads c.luts, w < wireValues.len :=
    fun w hw => hwires w (List.mem_append_left _ hw)
  cases n with
  | lut offset tableOffset arity output =>
      obtain ⟨hluts, htable⟩ := hlut
      rw [evalNode, evalLut_eq hluts htable hwires]
      simp only [Node.arityFits, decide_eq_true_eq]
  | zero output =>
      apply Buffer.write_of houtput
  | one output =>
      apply Buffer.write_of houtput
  | inv input output =>
      simp only [Node.reads, List.forall_mem_cons] at hreads
      rw [evalNode, evalOneInput, Buffer.read_of hreads.1, Outcome.ok_bind]
      apply Buffer.write_of houtput
  | and inputA inputB output =>
      simp only [Node.reads, List.forall_mem_cons] at hreads
      rw [evalNode, evalTwoInput, Buffer.read_of hreads.1, Outcome.ok_bind,
        Buffer.read_of hreads.2.1, Outcome.ok_bind]
      apply Buffer.write_of houtput
  | xor inputA inputB output =>
      simp only [Node.reads, List.forall_mem_cons] at hreads
      rw [evalNode, evalTwoInput, Buffer.read_of hreads.1, Outcome.ok_bind,
        Buffer.read_of hreads.2.1, Outcome.ok_bind]
      apply Buffer.write_of houtput
  | and3 inputA inputB inputC output =>
      simp only [Node.reads, List.forall_mem_cons] at hreads
      rw [evalNode, evalThreeInput, Buffer.read_of hreads.1, Outcome.ok_bind,
        Buffer.read_of hreads.2.1, Outcome.ok_bind, Buffer.read_of hreads.2.2.1,
        Outcome.ok_bind]
      apply Buffer.write_of houtput
  | and4 inputA inputB inputC inputD output =>
      simp only [Node.reads, List.forall_mem_cons] at hreads
      rw [evalNode, evalFourInput, Buffer.read_of hreads.1, Outcome.ok_bind,
        Buffer.read_of hreads.2.1, Outcome.ok_bind, Buffer.read_of hreads.2.2.1,
        Outcome.ok_bind, Buffer.read_of hreads.2.2.2.1, Outcome.ok_bind]
      apply Buffer.write_of houtput

/-- Evaluating gates in range runs their program, unless one of them is a lookup table that
is too long. -/
theorem foldlM_evalNode (wireValues : WireValues) {nodes : List Node}
    (hluts : ∀ n ∈ nodes, n.LutInRange c.luts c.lutTables)
    (hwires : ∀ n ∈ nodes, ∀ w ∈ n.wires c.luts, w < wireValues.len) :
  nodes.foldlM (evalNode c) wireValues
    = if nodes.all Node.arityFits then
        .ok ⟨wireValues.len,
          run wireValues.cell (nodes.map (Node.assignment c.luts c.lutTables))⟩
      else .panic .castOutOfRange
  := by
  induction nodes generalizing wireValues with
  | nil => rfl
  | cons n nodes ih =>
      rw [List.foldlM_cons, evalNode_eq (hluts n List.mem_cons_self)
        (hwires n List.mem_cons_self)]
      by_cases hn : n.arityFits
      · have hnodes := ih ⟨wireValues.len,
            exec wireValues.cell (n.assignment c.luts c.lutTables)⟩
          (fun m hm => hluts m (List.mem_cons_of_mem n hm))
          (fun m hm => hwires m (List.mem_cons_of_mem n hm))
        rw [if_pos hn, Outcome.ok_bind, hnodes, List.all_cons, hn, Bool.true_and]
        rfl
      · rw [if_neg hn, List.all_cons, Bool.eq_false_of_not_eq_true hn, Bool.false_and]
        rfl

end EvalCircuit

namespace Circuit

/-- The straight-line program of the gates of a circuit. -/
def program (c : Circuit) : List (Assignment Nat Bool) :=
  c.nodes.map (Node.assignment c.luts c.lutTables)

/-- The valuation with the input wires at the given bits and all other wires at 0. -/
def initial (c : Circuit) (inputs : List Bool) : Nat → Bool :=
  (c.inputs.zip inputs).foldl (fun v p => Function.update v p.1 p.2) (fun _ => false)

/-- The values of all wires after evaluating the circuit. -/
def values (c : Circuit) (inputs : List Bool) : Nat → Bool :=
  run (c.initial inputs) c.program

end Circuit

namespace EvalCircuit

variable {c : Circuit}

/-- A gate that is not a lookup table reads its wires and writes the value of its
function. -/
theorem evalNode_of_not_lut {n : Node} (hlut : n.isLut = false) (wireValues : WireValues) :
  evalNode c wireValues n = (do
    let bits ← (n.reads c.luts).mapM wireValues.read
    wireValues.write n.output (n.fn c.lutTables bits))
  := by
  cases n with
  | lut offset tableOffset arity output => contradiction
  | _ =>
      simp only [Node.reads, List.mapM_cons, List.mapM_nil, bind_assoc, pure_bind]
      rfl

/-- A lookup table that is evaluated finds everything it accesses. -/
theorem evaluable_of_evalLut {offset tableOffset arity output : Nat}
    {wireValues wireValues' : WireValues}
    (h : evalLut c wireValues offset tableOffset arity output = .ok wireValues') :
  (Node.lut offset tableOffset arity output).Evaluable c wireValues.len
  := by
  rw [evalLut] at h
  obtain ⟨inputWires, hslice, h⟩ := Outcome.bind_eq_ok.mp h
  obtain ⟨_, hfits, h⟩ := Outcome.bind_eq_ok.mp h
  obtain ⟨table, htable, h⟩ := Outcome.bind_eq_ok.mp h
  obtain ⟨inputs, hinputs, h⟩ := Outcome.bind_eq_ok.mp h
  obtain ⟨bit, hbit, hwrite⟩ := Outcome.bind_eq_ok.mp h
  obtain ⟨hluts, rfl⟩ := slice_eq_ok.mp hslice
  rw [Nat.one_shiftLeft] at htable
  have houtput := (Buffer.write_eq_ok.mp hwrite).1
  constructor
  · intro w hw
    rw [Node.wires, List.mem_append, List.mem_singleton] at hw
    rcases hw with hw | hw
    · apply (Buffer.mapM_read_eq_ok.mp hinputs).1 w hw
    · rw [hw]
      apply houtput
  · exact ⟨hluts, (slice_eq_ok.mp htable).1⟩
  · apply decide_eq_true (check_eq_ok.mp hfits)

/-- A gate that is evaluated finds everything it accesses. -/
theorem evaluable_of_evalNode {n : Node} {wireValues wireValues' : WireValues}
    (h : evalNode c wireValues n = .ok wireValues') :
  n.Evaluable c wireValues.len
  := by
  cases hlut : n.isLut with
  | true =>
      cases n with
      | lut offset tableOffset arity output => apply evaluable_of_evalLut h
      | _ => contradiction
  | false =>
      rw [evalNode_of_not_lut hlut] at h
      obtain ⟨bits, hbits, h⟩ := Outcome.bind_eq_ok.mp h
      constructor
      · intro w hw
        rw [Node.wires, List.mem_append, List.mem_singleton] at hw
        rcases hw with hw | rfl
        · apply (Buffer.mapM_read_eq_ok.mp hbits).1 w hw
        · apply (Buffer.write_eq_ok.mp h).1
      · cases n with
        | lut offset tableOffset arity output => contradiction
        | _ => trivial
      · cases n with
        | lut offset tableOffset arity output => contradiction
        | _ => rfl

/-- The evaluation of a gate returns exactly if it finds everything it accesses, and then it
executes the assignment of the gate. -/
theorem evalNode_eq_ok {n : Node} {wireValues wireValues' : WireValues} :
  evalNode c wireValues n = .ok wireValues'
    ↔ n.Evaluable c wireValues.len
      ∧ ⟨wireValues.len, exec wireValues.cell (n.assignment c.luts c.lutTables)⟩ = wireValues'
  := by
  constructor
  · intro h
    have heval := evaluable_of_evalNode h
    rw [evalNode_eq heval.lut heval.wires, if_pos heval.fits] at h
    exact ⟨heval, Outcome.ok.inj h⟩
  · rintro ⟨heval, rfl⟩
    rw [evalNode_eq heval.lut heval.wires, if_pos heval.fits]

/-- The evaluation of gates returns exactly if they all find everything they access, and then
it runs their program. -/
theorem foldlM_evalNode_eq_ok {nodes : List Node} {wireValues wireValues' : WireValues} :
  nodes.foldlM (evalNode c) wireValues = .ok wireValues'
    ↔ (∀ n ∈ nodes, n.Evaluable c wireValues.len)
      ∧ ⟨wireValues.len, run wireValues.cell
        (nodes.map (Node.assignment c.luts c.lutTables))⟩ = wireValues'
  := by
  induction nodes generalizing wireValues with
  | nil => simp
  | cons n nodes ih =>
      rw [List.foldlM_cons, Outcome.bind_eq_ok, List.forall_mem_cons]
      constructor
      · rintro ⟨wireValues₁, hn, hnodes⟩
        obtain ⟨hn', rfl⟩ := evalNode_eq_ok.mp hn
        obtain ⟨hnodes', rfl⟩ := ih.mp hnodes
        exact ⟨⟨hn', hnodes'⟩, rfl⟩
      · rintro ⟨⟨hn, hnodes⟩, rfl⟩
        use ⟨wireValues.len, exec wireValues.cell (n.assignment c.luts c.lutTables)⟩
        constructor
        · apply evalNode_eq_ok.mpr ⟨hn, rfl⟩
        · rw [ih]
          exact ⟨hnodes, rfl⟩

end EvalCircuit

/-- The evaluation of the circuit on as many bits as it has inputs finds everything it
accesses, apart from the outputs. -/
structure Circuit.Evaluable (c : Circuit) : Prop where
  table : c.maxWireNumber + 1 < 2 ^ 64
  inputs : ∀ w ∈ c.inputs, w < c.maxWireNumber + 1
  nodes : ∀ n ∈ c.nodes, n.Evaluable c (c.maxWireNumber + 1)

namespace EvalCircuit

/-- The evaluation of the wires returns exactly on as many bits as there are inputs, if it
finds everything it accesses, and then the wires have the values of the run of the program. -/
theorem evalWires_eq_ok {inputs : List Bool} {wireValues : WireValues} :
  evalWires c inputs = .ok wireValues
    ↔ inputs.length = c.inputs.length ∧ c.Evaluable
      ∧ ⟨c.maxWireNumber + 1, c.values inputs⟩ = wireValues
  := by
  rw [evalWires, Outcome.bind_eq_ok]
  simp only [add_eq_ok]
  by_cases hlength : inputs.length = c.inputs.length
  · have hzip : (∀ p ∈ c.inputs.zip inputs, p.1 < c.maxWireNumber + 1)
        ↔ ∀ w ∈ c.inputs, w < c.maxWireNumber + 1 := by
      conv_rhs => rw [← List.map_fst_zip (Nat.le_of_eq hlength.symm), List.forall_mem_map]
    simp only [hlength, ne_eq, not_true_eq_false, if_false, true_and]
    constructor
    · rintro ⟨wires, ⟨htable, rfl⟩, h⟩
      obtain ⟨wireValues₁, hset, heval⟩ := Outcome.bind_eq_ok.mp h
      obtain ⟨hinputs, rfl⟩ := Buffer.foldlM_write_eq_ok.mp hset
      obtain ⟨hnodes, rfl⟩ := foldlM_evalNode_eq_ok.mp heval
      exact ⟨⟨htable, hzip.mp hinputs, hnodes⟩, rfl⟩
    · rintro ⟨⟨htable, hinputs, hnodes⟩, rfl⟩
      refine ⟨_, ⟨htable, rfl⟩, ?_⟩
      apply Outcome.bind_eq_ok.mpr
      use ⟨c.maxWireNumber + 1, c.initial inputs⟩
      constructor
      · apply Buffer.foldlM_write_eq_ok.mpr ⟨hzip.mpr hinputs, rfl⟩
      · apply foldlM_evalNode_eq_ok.mpr ⟨hnodes, rfl⟩
  · simp [hlength]

end EvalCircuit

open EvalCircuit in
/-- The evaluation of a circuit returns exactly on as many bits as there are inputs, if it
finds everything it accesses, and then it reads the outputs off the run of the program. -/
theorem evaluateCircuit_eq_ok {c : Circuit} {inputs outputs : List Bool} :
  evaluateCircuit c inputs = .ok outputs
    ↔ inputs.length = c.inputs.length ∧ c.Evaluable
      ∧ (∀ w ∈ c.outputs, w < c.maxWireNumber + 1)
      ∧ c.outputs.map (c.values inputs) = outputs
  := by
  rw [evaluateCircuit, Outcome.bind_eq_ok]
  constructor
  · rintro ⟨wireValues, heval, houtputs⟩
    obtain ⟨hlength, hc, rfl⟩ := evalWires_eq_ok.mp heval
    obtain ⟨hwires, rfl⟩ := Buffer.mapM_read_eq_ok.mp houtputs
    exact ⟨hlength, hc, hwires, rfl⟩
  · rintro ⟨hlength, hc, houtputs, rfl⟩
    use ⟨c.maxWireNumber + 1, c.values inputs⟩
    constructor
    · apply evalWires_eq_ok.mpr ⟨hlength, hc, rfl⟩
    · apply Buffer.mapM_read_eq_ok.mpr ⟨houtputs, rfl⟩

namespace EvalCircuit

/-- The evaluation of a gate returns no error. -/
theorem noError_evalNode (wireValues : WireValues) (n : Node) :
  (evalNode c wireValues n).NoError
  := by
  cases hlut : n.isLut with
  | false =>
      rw [evalNode_of_not_lut hlut]
      apply Outcome.NoError.bind (.mapM (Buffer.noError_read wireValues) _)
      intro bits
      apply Buffer.noError_write
  | true =>
      cases n with
      | lut offset tableOffset arity output =>
          apply Outcome.NoError.bind (noError_slice _ _ _)
          intro inputWires
          apply Outcome.NoError.bind (noError_check _ _)
          intro _
          apply Outcome.NoError.bind (noError_slice _ _ _)
          intro table
          apply Outcome.NoError.bind (.mapM (Buffer.noError_read wireValues) _)
          intro inputs
          apply Outcome.NoError.bind (noError_index _ _)
          intro bit
          apply Buffer.noError_write
      | _ => contradiction

end EvalCircuit

open EvalCircuit in
/-- The evaluation of a circuit whose table is too long stops. -/
theorem evaluateCircuit_overflow {c : Circuit} (htable : ¬ c.maxWireNumber + 1 < 2 ^ 64)
    (inputs : List Bool) :
  evaluateCircuit c inputs = .panic .integerOverflow
  := by
  rw [evaluateCircuit, evalWires, add_not htable]
  rfl

open EvalCircuit in
/-- The evaluation of a circuit rejects exactly the inputs of the wrong length, once it has its
table. -/
theorem evaluateCircuit_eq_error {c : Circuit} {inputs : List Bool} {e : EvalCircuit.Error} :
  evaluateCircuit c inputs = .error e
    ↔ c.maxWireNumber + 1 < 2 ^ 64 ∧ inputs.length ≠ c.inputs.length
      ∧ e = .invalidNumberOfInputs
  := by
  by_cases htable : c.maxWireNumber + 1 < 2 ^ 64
  · rw [and_iff_right htable]
    by_cases hlength : inputs.length = c.inputs.length
    · have hnoError : (evaluateCircuit c inputs).NoError := by
        simp only [evaluateCircuit, evalWires, hlength, ne_eq, not_true_eq_false, if_false]
        apply Outcome.NoError.bind
        · apply Outcome.NoError.bind (noError_add _ _)
          intro wires
          apply Outcome.NoError.bind
          · apply Outcome.NoError.foldlM
            intro b p
            apply Buffer.noError_write
          · intro wireValues
            apply Outcome.NoError.foldlM noError_evalNode
        · intro wireValues
          apply Outcome.NoError.mapM (Buffer.noError_read wireValues)
      simp [hnoError e, hlength]
    · simp [evaluateCircuit, evalWires, add_of htable, hlength]
  · rw [evaluateCircuit_overflow htable]
    simp only [reduceCtorEq, htable, false_and]

open EvalCircuit in
/-- The evaluation of a circuit in range reads the outputs off the run of its program,
unless some lookup table is too long. -/
theorem evaluateCircuit_eq {c : Circuit} (hc : c.InRange)
    (htable : c.maxWireNumber + 1 < 2 ^ 64) {inputs : List Bool}
    (hinputs : inputs.length = c.inputs.length) :
  evaluateCircuit c inputs
    = if c.nodes.all Node.arityFits then .ok (c.outputs.map (c.values inputs))
      else .panic .castOutOfRange
  := by
  have hlt : ∀ w ∈ c.mentioned, w < c.maxWireNumber + 1 :=
    fun w hw => Nat.lt_succ_of_le (hc.wires w hw)
  have hset : setInputs c (Buffer.filled (c.maxWireNumber + 1) false) inputs
      = .ok ⟨c.maxWireNumber + 1, c.initial inputs⟩ := by
    apply Buffer.foldlM_write
    intro p hp
    apply hlt _ (Circuit.mem_mentioned_of_input (List.of_mem_zip hp).1)
  have heval : evalCircuit c ⟨c.maxWireNumber + 1, c.initial inputs⟩
      = if c.nodes.all Node.arityFits then .ok ⟨c.maxWireNumber + 1, c.values inputs⟩
        else .panic .castOutOfRange := by
    apply foldlM_evalNode _ hc.luts
    intro n hn w hw
    apply hlt _ (Circuit.mem_mentioned_of_node hn hw)
  rw [evaluateCircuit, evalWires, add_of htable, Outcome.ok_bind]
  simp only [hinputs, ne_eq, not_true_eq_false, if_false]
  rw [hset, Outcome.ok_bind, heval]
  by_cases hfits : c.nodes.all Node.arityFits
  · rw [if_pos hfits, if_pos hfits, Outcome.ok_bind]
    apply Buffer.mapM_read
    intro w hw
    apply hlt _ (Circuit.mem_mentioned_of_output hw)
  · rw [if_neg hfits, if_neg hfits]
    rfl

end SynCirc

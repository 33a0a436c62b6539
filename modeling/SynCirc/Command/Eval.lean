import SynCirc.Command.Basic

/-!
# Evaluating a circuit

`eval` reads a circuit and prints its outputs on the bits given by the arguments after the path,
which count as one string of bits (`Eval.parseInputs_eq`).
-/

namespace SynCirc

open Zig

namespace Command

namespace Eval

/-- One character of an input, after the bits that have been read. -/
def parseBit (inputs : List Bool) (x : UInt8) : Outcome Error (List Bool) :=
  if x = 48 then .ok (inputs ++ [false])
  else if x = 49 then .ok (inputs ++ [true])
  else fatal (bytes "Invalid input bit " ++ formatInt x.toNat ++ bytes " at position "
    ++ formatInt inputs.length)

/-- The bits of all inputs, one after the other. -/
def parseInputs (rawInputs : List (List UInt8)) : Outcome Error (List Bool) :=
  rawInputs.foldlM (fun inputs rawInput => rawInput.foldlM parseBit inputs) []

/-- What is printed for output bits. -/
def printOutputs (outputs : List Bool) : List UInt8 := Emit.formatTable outputs ++ [newline]

/-- What `eval` prints with the given arguments. -/
def run (args : List (List UInt8)) (fs : FileSystem) : Outcome Error (List UInt8) :=
  match args with
  | path :: rawInput :: rawInputs => do
      let inputs ← parseInputs (rawInput :: rawInputs)
      let input ← readInput fs path
      let outputs ← (evaluateCircuit input.circuit inputs).mapError .evaluate
      return printOutputs outputs
  | _ => fatal (bytes "expected circuit file and input")

/-! ### The bits of the inputs -/

/-- The inputs are one string. -/
theorem parseInputs_eq (rawInputs : List (List UInt8)) :
  parseInputs rawInputs = rawInputs.flatten.foldlM parseBit []
  := by
  rw [parseInputs]
  generalize ([] : List Bool) = inputs
  induction rawInputs generalizing inputs with
  | nil => rfl
  | cons rawInput rawInputs ih =>
      rw [List.foldlM_cons, List.flatten_cons, List.foldlM_append]
      congr 1
      funext inputs'
      apply ih inputs'

theorem foldlM_parseBit_formatTable (bits inputs : List Bool) :
  (Emit.formatTable bits).foldlM parseBit inputs = .ok (inputs ++ bits)
  := by
  induction bits generalizing inputs with
  | nil =>
      rw [List.append_nil]
      rfl
  | cons bit bits ih =>
      have hbit : parseBit inputs (digitByte bit.toNat) = .ok (inputs ++ [bit]) := by
        cases bit <;> rfl
      rw [Emit.formatTable_cons, List.foldlM_cons, hbit, Outcome.ok_bind, ih, List.append_assoc]
      rfl

/-- The printed bits are read back, however they are split into arguments. -/
theorem parseInputs_of_flatten {rawInputs : List (List UInt8)} {bits : List Bool}
    (h : rawInputs.flatten = Emit.formatTable bits) :
  parseInputs rawInputs = .ok bits
  := by
  rw [parseInputs_eq, h, foldlM_parseBit_formatTable, List.nil_append]

/-! ### The circuit -/

/-- What is printed depends on the circuit through its function only. -/
theorem run_congr {fs fs' : FileSystem} {path path' : List UInt8} {input input' : Input}
    (hinput : readInput fs path = .ok input) (hinput' : readInput fs' path' = .ok input')
    (h : ∀ x, evaluateCircuit input'.circuit x = evaluateCircuit input.circuit x)
    (rawInputs : List (List UInt8)) :
  run (path' :: rawInputs) fs' = run (path :: rawInputs) fs
  := by
  cases rawInputs with
  | nil => rfl
  | cons rawInput rawInputs => simp only [run, hinput, hinput', Outcome.ok_bind, h]

/-- What is printed on bits that the circuit evaluates. -/
theorem run_eq_ok {fs : FileSystem} {path : List UInt8} {input : Input}
    (hinput : readInput fs path = .ok input) {bits outputs : List Bool}
    (heval : evaluateCircuit input.circuit bits = .ok outputs) {rawInputs : List (List UInt8)}
    (hne : rawInputs ≠ []) (hbits : rawInputs.flatten = Emit.formatTable bits) :
  run (path :: rawInputs) fs = .ok (printOutputs outputs)
  := by
  have hparse := parseInputs_of_flatten hbits
  cases rawInputs with
  | nil => contradiction
  | cons rawInput rawInputs =>
      simp only [run, hparse, hinput, Outcome.ok_bind, heval]
      rfl

end Eval

end Command

end SynCirc

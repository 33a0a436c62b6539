import SynCirc.Command.Basic

/-!
# The statistics of a circuit

`stats` prints how many gates of every kind a circuit has, how many of its lookup tables have how
many inputs, and the multiplicative depths of its outputs with the largest one.  A constant is not
counted.
-/

namespace SynCirc

open Zig

/-- The numbers of gates, and the numbers of lookup tables by their numbers of inputs. -/
structure GateTypeCount where
  inv : Nat := 0
  and : Nat := 0
  and3 : Nat := 0
  and4 : Nat := 0
  xor : Nat := 0
  lut : Nat := 0
  lutInputSizes : List Nat := List.replicate 256 0
  deriving DecidableEq, Repr

/-- One more gate is counted. -/
def GateTypeCount.add (count : GateTypeCount) : Node → GateTypeCount
  | .zero _ => count
  | .one _ => count
  | .inv _ _ => { count with inv := count.inv + 1 }
  | .and _ _ _ => { count with and := count.and + 1 }
  | .and3 _ _ _ _ => { count with and3 := count.and3 + 1 }
  | .and4 _ _ _ _ _ => { count with and4 := count.and4 + 1 }
  | .xor _ _ _ => { count with xor := count.xor + 1 }
  | .lut _ _ arity _ =>
      { count with
        lut := count.lut + 1
        lutInputSizes := count.lutInputSizes.modify arity (· + 1) }

def countGateTypes (circuit : Circuit) : GateTypeCount :=
  circuit.nodes.foldl GateTypeCount.add {}

namespace Command

namespace Stats

/-- A line with a number. -/
def printCount (name : String) (count : Nat) : List UInt8 :=
  bytes name ++ formatInt count ++ [newline]

/-- The lines of the gate counts. -/
def printCounts (count : GateTypeCount) : List UInt8 :=
  printCount "INV: " count.inv ++ printCount "AND2: " count.and ++ printCount "AND3: " count.and3
    ++ printCount "AND4: " count.and4 ++ printCount "XOR: " count.xor
    ++ printCount "LUT: " count.lut

/-- The lines of the sizes that occur, each with the number of lookup tables of this size. -/
def printSizes (lutInputSizes : List Nat) : List UInt8 :=
  lutInputSizes.zipIdx.flatMap fun (amount, size) =>
    if amount = 0 then []
    else bytes "LUT" ++ formatInt size ++ bytes ":" ++ formatInt amount ++ [newline]

/-- A slice of numbers as it is printed for debugging. -/
def formatSlice (xs : List Nat) : List UInt8 :=
  bytes "\x7b " ++ ((xs.map formatInt).intersperse (bytes ", ")).flatten ++ bytes " \x7d"

/-- The largest number of a slice, which must not be empty. -/
def max : List Nat → Outcome Error Nat
  | [] => .panic .assertionFailure
  | x :: xs => .ok (xs.foldl Nat.max x)

/-- What is printed for a circuit with the given counts and depths. -/
def report (count : GateTypeCount) (outputDepth : List Nat) : Outcome Error (List UInt8) := do
  let total ← max outputDepth
  return printCounts count ++ printSizes count.lutInputSizes
    ++ bytes "output depths: " ++ formatSlice outputDepth ++ [newline]
    ++ printCount "total depth: " total

/-- What `stats` prints with the given arguments, if at most `fuel` calls of the analysis of the
depth are nested. -/
def run (memory : Nat → Nat) (fuel : Nat) (args : List (List UInt8)) (fs : FileSystem) :
    Outcome Error (List UInt8) :=
  match args with
  | [path] => do
      let input ← readInput fs path
      let depths ← (analyzeDepth input.circuit memory fuel).mapError .analyzeDepth
      report (countGateTypes input.circuit) depths.outputDepth
  | _ => fatal (bytes "expected circuit file")

end Stats

end Command

end SynCirc
